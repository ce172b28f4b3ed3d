import CtForge.Agent.RunCommand
import CtForge.Agent.Passwd

/-!
# Locking an account (`handleSysUsers`, `ctc_sys_user_lock_json`)

The server sends a user name and a flag. The agent looks for the flag as a string, does not
find one, and always locks. The line for `usermod` has the name in single quotes, which
`xrun_cmd` does not survive: the shell is given a line with a quotation that is not closed,
runs nothing and prints nothing, and the reply says that all went well.
-/

namespace CtForge.Agent

open CLang GoString Shell Json List Lexer

/-! ## The handler -/

/-- The fields of a `SysUserLockPayload`. -/
def sysUserLockPayload (username : Text) (lock : Bool) : List Field :=
  [⟨"username", .str username⟩, ⟨"lock", .bool lock⟩]

structure LockHost extends ShellHost where
  isRoot : Bool

/-- The line that `popen` got, if there was one, and the reply. -/
structure LockOutcome where
  line : Option Bytes := none
  reply : Bytes

/-- The command for `xrun_cmd`, formatted into 256 bytes. -/
def usermodCommand (username : Bytes) (lock : Bool) : Bytes :=
  snprintf 256 (lit "/usr/sbin/usermod -" ++ [if lock then 76 else 85] ++ lit " '" ++ username ++
    lit "' 2>&1")

def lockReply (out : Option Bytes) : Bytes :=
  object [("ok", bool (out == some [])), ("message", string (xesc (out.getD [])))]

/-- `ctc_sys_user_lock_json`. -/
def sysUserLock (host : LockHost) (username : Bytes) (lock : Bool) : Except Fault LockOutcome :=
  if !safeName username then .ok { reply := errorText "invalid username" }
  else if !host.isRoot then
    .ok { reply := errorText "agent must run as root to lock/unlock accounts" }
  else if username == lit "root" then .ok { reply := errorText "refusing to lock root account" }
  else do
    let line ← xrunLine 15 (usermodCommand username lock)
    let out ← xrunCmd host.toShellHost (usermodCommand username lock) 15
    return { line := some line, reply := lockReply out }

/-- The branch of `handle_command`. The flag is taken from a string only. -/
def handleSysUserLock (host : LockHost) : (payload : Option Bytes) → Except Fault LockOutcome
  | none => sysUserLock host [] true
  | some json => do
    let username ← readBuffer json (lit "username") 128
    match ← jsonGetString json (lit "lock") 8 with
    | none => sysUserLock host username true
    | some ls =>
      sysUserLock host username (ls == lit "true" || jsonGetInt json (lit "lock") 1 != 0)

/-! ## What was asked -/

/-- The reply begins with `{"ok":true`. -/
def saysOk (reply : Bytes) : Bool := startsWith reply (lit "\x7b\"ok\":true")

/-- The command that `bash -c` gets from a line of `xrun_cmd`. -/
def innerCommand (line : Bytes) : Option Simple :=
  match (command line).map Simple.args with
  | some [_, _, _, _, cmd] => command cmd
  | _ => none

/-- `usermod` was run as asked, and printed nothing. -/
def RanUsermod (host : LockHost) (username : Bytes) (lock : Bool) (outcome : LockOutcome) : Prop :=
  ∃ line, outcome.line = some line ∧ host.popen line = some [] ∧
    (innerCommand line).map Simple.args =
      some [lit "/usr/sbin/usermod", if lock then lit "-L" else lit "-U", username]

/-! ## What the agent reads -/

theorem jsonGetString_bool {k : String} (hk : IsKey k) {before after : List Field} (b : Bool)
    (size : Nat) (hbefore : Passed k before) :
    jsonGetString (objectText (before ++ ⟨k, .bool b⟩ :: after)) (lit k) size = .ok none := by
  have hflat : Field.Flat ⟨k, .bool b⟩ := ⟨hk, by simp⟩
  rw [jsonGetString, findKey_field hk hbefore hflat rfl]
  cases b <;> rfl

/-- Whatever the flag says, the agent locks. -/
theorem handleSysUserLock_sent (host : LockHost) (username : Text) (lock : Bool) :
    handleSysUserLock host (some (objectText (sysUserLockPayload username lock))) =
      sysUserLock host (held 128 username) true := by
  have hname := jsonGetString_first (k := "username") (by decide) username
    [⟨"lock", .bool lock⟩] 128
  have hlock : jsonGetString (objectText ([⟨"username", .str username⟩] ++ [⟨"lock", .bool lock⟩]))
      (lit "lock") 8 = .ok none :=
    jsonGetString_bool (by decide) lock 8 (passed_cons (by decide) (by simp) passed_nil)
  have hbuffer : readBuffer (objectText (sysUserLockPayload username lock)) (lit "username") 128 =
      .ok (held 128 username) := by
    rw [readBuffer, sysUserLockPayload, hname]
    rfl
  rw [cons_append, nil_append] at hlock
  change (readBuffer _ _ _ >>= _) = _
  rw [hbuffer]
  change (jsonGetString _ _ _ >>= _) = _
  rw [sysUserLockPayload, hlock]
  rfl

/-! ## What the shell reads -/

variable {username : Bytes}

theorem usermodCommand_eq (hlen : username.length < 128) :
    usermodCommand username true =
      lit "/usr/sbin/usermod -L " ++ 39 :: username ++ 39 :: lit " 2>&1" := by
  have hfront : lit "/usr/sbin/usermod -" ++ [76] ++ lit " '" =
      lit "/usr/sbin/usermod -L " ++ [39] := by decide
  have hback : lit "' 2>&1" = 39 :: lit " 2>&1" := by decide
  have hlenFront : (lit "/usr/sbin/usermod -L ").length = 21 := rfl
  have hlenBack : (lit " 2>&1").length = 5 := rfl
  rw [usermodCommand, if_pos rfl, hfront, hback, snprintf_eq_self]
  · simp
  · simp only [length_append, length_cons, length_nil, hlenFront, hlenBack]
    omega

theorem plain_of_safeName {w : Bytes} (h : safeName w = true) :
    ∀ c ∈ w, Shell.isPlain c = true := by
  simp only [safeName, Bool.and_eq_true, all_eq_true] at h
  exact fun c hc => (isPlain_of_name (h.2 c hc)).1

theorem quote_not_mem_safeName {w : Bytes} (h : safeName w = true) : 39 ∉ w := fun hmem =>
  absurd (plain_of_safeName h 39 hmem) (by decide)

/-- The line for `usermod` has a quotation that is not closed. -/
theorem split_lock_line (hname : safeName username = true) (hlen : username.length < 128)
    (timeoutSec : Int32) : split (xwrapped timeoutSec (usermodCommand username true)) = none := by
  have hcmd : 39 ∉ lit "/usr/sbin/usermod -L " ∧ 39 ∉ lit " 2>&1" ∧ 39 ∉ lit " 2>/dev/null" := by
    decide
  have htext : xquote (usermodCommand username true) ++ lit "' 2>/dev/null" =
      lit "/usr/sbin/usermod -L " ++ ([39, 92, 39] ++ (username ++ ([39, 92, 39] ++
        (lit " 2>&1" ++ (39 :: lit " 2>/dev/null"))))) := by
    have hclose : lit "' 2>/dev/null" = 39 :: lit " 2>/dev/null" := by decide
    rw [usermodCommand_eq hlen, hclose]
    simp only [xquote_append, xquote_cons, xquote_eq_self hcmd.1, xquote_eq_self hcmd.2.1,
      xquote_eq_self (quote_not_mem_safeName hname), if_true, append_assoc, cons_append,
      nil_append]
  have hopen : ∀ v ts, Lexer.run ⟨.single, v, ts⟩ [39, 92, 39] =
      ⟨.bare, v ++ [Piece.mark 39, Piece.mark 92, Piece.quoted 39], ts⟩ := by
    intro v ts
    simp [Lexer.run, Lexer.step, Lexer.stepSingle, Lexer.stepBare, Lexer.stepEscaped, Lexer.put,
      Shell.isBlank, isOperator]
  have hback : ∀ v ts, Lexer.run ⟨.bare, v, ts⟩ [39, 92, 39] =
      ⟨.bare, v ++ [Piece.mark 39, Piece.quoted 92, Piece.mark 39], ts⟩ := by
    intro v ts
    simp [Lexer.run, Lexer.step, Lexer.stepSingle, Lexer.stepBare, Lexer.put, Shell.isBlank,
      isOperator]
  have hredirect : ∀ (p : Piece) (v : List Piece) (ts : List Token),
      Lexer.run ⟨.bare, p :: v, ts⟩ (lit " 2>&1") = ⟨.bare, [Piece.plain 49],
        ts ++ [.word (p :: v), .ioNumber [Piece.plain 50], .op 62, .op 38]⟩ := by
    intro p v ts
    have hlit : lit " 2>&1" = [32, 50, 62, 38, 49] := by decide
    rw [hlit]
    simp [Lexer.run, Lexer.step, Lexer.stepBare, Lexer.put, Lexer.cut, Lexer.operator,
      Lexer.isNumber, Shell.isBlank, isOperator, isExpanding, isDigit]
  have hlast : ∀ ts s, Lexer.run ⟨.bare, [Piece.plain 49], ts⟩ (39 :: s) =
      Lexer.run ⟨.single, [Piece.plain 49, Piece.mark 39], ts⟩ s := fun _ _ => rfl
  rw [xwrapped, split, append_assoc, run_append, run_wrapperHead isPlainWord_bash, htext,
    run_append, run_single hcmd.1, run_append, hopen, run_append,
    run_plain (plain_of_safeName hname) (by simp), run_append, hback, run_append]
  simp only [cons_append]
  rw [hredirect, hlast, run_single hcmd.2.2]
  rfl

theorem xquote_length (cmd : Bytes) : (xquote cmd).length = cmd.length + 2 * cmd.count 39 := by
  induction cmd with
  | nil => rfl
  | cons c cmd ih =>
    rw [xquote_cons, length_append, ih, count_cons]
    split
    · rename_i hc
      simp [hc]
      omega
    · rename_i hc
      simp [hc]
      omega

theorem xrunLine_lock (hname : safeName username = true) (hlen : username.length < 128) :
    xrunLine 15 (usermodCommand username true) =
      .ok (xwrapped 15 (usermodCommand username true)) := by
  have hcount : (usermodCommand username true).count 39 = 2 := by
    have hfront : (lit "/usr/sbin/usermod -L ").count 39 = 0 := by decide
    have hback : (lit " 2>&1").count 39 = 0 := by decide
    have husername := count_eq_zero.mpr (quote_not_mem_safeName hname)
    rw [usermodCommand_eq hlen]
    simp [hfront, hback, husername]
  have hlength : (usermodCommand username true).length ≤ 255 := by
    rw [usermodCommand, snprintf]
    exact length_take_le _ _
  have hquote := xquote_length (usermodCommand username true)
  have hhead : (wrapperHead "bash" 15).length = 20 := by decide
  have hclose : (lit "' 2>/dev/null").length = 13 := rfl
  rw [xrunLine, if_pos (by omega), snprintf_eq_self]
  simp only [xwrapped, length_append, hhead, hclose]
  omega

theorem newline_lock_line (hname : safeName username = true) (hlen : username.length < 128) :
    10 ∉ xwrapped 15 (usermodCommand username true) := by
  have hsafe : 10 ∉ username := fun hmem => absurd (plain_of_safeName hname 10 hmem) (by decide)
  have hcmd : 10 ∉ usermodCommand username true := by
    rw [usermodCommand_eq hlen]
    simp [show 10 ∉ lit "/usr/sbin/usermod -L " by decide, show 10 ∉ lit " 2>&1" by decide, hsafe]
  have hquote : 10 ∉ xquote (usermodCommand username true) := by
    intro hmem
    obtain ⟨c, hc, hin⟩ := mem_flatMap.mp hmem
    split at hin
    · simp at hin
    · exact hcmd (mem_singleton.mp hin ▸ hc)
  simp [xwrapped, show 10 ∉ wrapperHead "bash" 15 by decide,
    show 10 ∉ lit "' 2>/dev/null" by decide, hquote]

/-! ## The reply -/

theorem saysOk_lockReply (out : Option Bytes) : saysOk (lockReply out) = true ↔ out = some [] := by
  have hkey : lit "\x7b\"ok\":" = 123 :: (string (lit "ok") ++ [58]) := by decide
  have htext : lockReply out = lit "\x7b\"ok\":" ++ (Json.bool (out == some []) ++
      (44 :: member ("message", string (xesc (out.getD []))) ++ [125])) := by
    rw [hkey]
    simp [lockReply, object, commaSep, member]
  have hprefix : lit "\x7b\"ok\":true" = lit "\x7b\"ok\":" ++ lit "true" := by decide
  rw [htext, saysOk, startsWith_iff, hprefix, prefix_append_right_inj]
  by_cases hout : out = some []
  · simp [hout, Json.bool]
  · have hbool : (out == some []) = false := by simpa using hout
    rw [hbool]
    simp [hout, Json.bool, lit]

/-- An accepted request prints nothing, so that the reply says `ok` unless `popen` fails. -/
theorem sysUserLock_accepted (host : LockHost) (hname : safeName username = true)
    (hlen : username.length < 128) (hroot : host.isRoot = true) (hne : username ≠ lit "root") :
    sysUserLock host username true = .ok
      { line := some (xwrapped 15 (usermodCommand username true))
        reply := lockReply ((host.popen (xwrapped 15 (usermodCommand username true))).map
          fun _ => []) } := by
  have hsplit := split_lock_line hname hlen 15
  have hout : (host.popen (xwrapped 15 (usermodCommand username true))).map
      (fun out => cString (out.take 16777215)) =
      (host.popen (xwrapped 15 (usermodCommand username true))).map fun _ => [] := by
    cases hpopen : host.popen (xwrapped 15 (usermodCommand username true)) with
    | none => rfl
    | some out =>
      rw [host.unread _ out (newline_lock_line hname hlen) hsplit hpopen]
      rfl
  unfold sysUserLock xrunCmd
  simp only [hname, hroot, hne, Bool.not_true, Bool.false_eq_true, if_false,
    beq_iff_eq, xrunLine_lock hname hlen, ok_bind, pure_eq_ok, hout]

theorem not_ranUsermod (host : LockHost) (hname : safeName username = true)
    (hlen : username.length < 128) (asked : Bytes) (lock : Bool) (reply : Bytes) :
    ¬ RanUsermod host asked lock
      { line := some (xwrapped 15 (usermodCommand username true)), reply := reply } := by
  rintro ⟨line, hline, -, hrun⟩
  cases hline
  rw [innerCommand, command, split_lock_line hname hlen] at hrun
  cases hrun

/-- A reply that says `ok` means what was asked if and only if there is no such reply, for the
request is refused or `popen` fails. -/
theorem lock_as_asked_iff (host : LockHost) (username : Text) (lock : Bool) :
    ∃ outcome, handleSysUserLock host (some (objectText (sysUserLockPayload username lock))) =
        .ok outcome ∧
      ((saysOk outcome.reply = true → RanUsermod host (bytes username) lock outcome) ↔
        safeName (held 128 username) = false ∨ host.isRoot = false ∨
          held 128 username = lit "root" ∨
          host.popen (xwrapped 15 (usermodCommand (held 128 username) true)) = none) := by
  have hlen : (held 128 username).length < 128 := by
    have := held_length_le 128 username
    omega
  have herror : ∀ text : String, saysOk (errorText text) = false := by
    intro text
    rfl
  rw [handleSysUserLock_sent]
  by_cases hname : safeName (held 128 username) = true
  · by_cases hroot : host.isRoot = true
    · by_cases hne : held 128 username = lit "root"
      · refine ⟨_, by simp [sysUserLock, hroot, hne]; rfl, ?_⟩
        simp [hne, herror]
      · refine ⟨_, sysUserLock_accepted host hname hlen hroot hne, ?_⟩
        have hnot := not_ranUsermod host hname hlen (bytes username) lock
        simp only [hname, hroot, hne, hnot, saysOk_lockReply, false_or, Bool.true_eq_false,
          imp_false]
        cases host.popen (xwrapped 15 (usermodCommand (held 128 username) true)) with
        | none | some out => simp
    · simp only [Bool.not_eq_true] at hroot
      refine ⟨_, by simp [sysUserLock, hname, hroot]; rfl, ?_⟩
      simp [hroot, herror]
  · simp only [Bool.not_eq_true] at hname
    refine ⟨_, by simp [sysUserLock, hname]; rfl, ?_⟩
    simp [hname, herror]

def quietHost : LockHost where
  popen := fun _ => some []
  unread := by
    intro line out _ _ hout
    exact (Option.some.inj hout).symm
  isRoot := true

/-- A request to unlock that is answered with `ok`. -/
theorem unlock_runs_nothing :
    ∃ outcome line, handleSysUserLock quietHost
        (some (objectText (sysUserLockPayload (text "alice") false))) = .ok outcome ∧
      saysOk outcome.reply = true ∧ outcome.line = some line ∧
      line = lit "timeout 15 bash -c '/usr/sbin/usermod -L '\\'alice'\\' 2>&1' 2>/dev/null" ∧
      split line = none ∧ ¬ RanUsermod quietHost (bytes (text "alice")) false outcome := by
  have hheld : held 128 (text "alice") = lit "alice" := by decide
  have hname : safeName (lit "alice") = true := by decide
  have hlen : (lit "alice").length < 128 := by decide
  have hrun := sysUserLock_accepted quietHost hname hlen rfl (by decide)
  rw [← hheld, ← handleSysUserLock_sent quietHost (text "alice") false, hheld] at hrun
  refine ⟨_, _, hrun, ?_, rfl, by decide, split_lock_line hname hlen 15,
    not_ranUsermod quietHost hname hlen _ _ _⟩
  rw [saysOk_lockReply]
  rfl

end CtForge.Agent
