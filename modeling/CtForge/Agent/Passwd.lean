import CtForge.Agent.Commands
import CtForge.Agent.SysLog

/-!
# Changing a password (`handleSysUsers`, `ctc_sys_user_passwd_json`)

The server takes a user name and a new password from a request, checks that neither is
empty and that the password has at least six bytes, and sends both to the agent. The agent
copies them into buffers, checks the name, and writes one formatted line to `chpasswd`.
-/

namespace CtForge.Agent

open CLang GoString List Option

/-- The payload that `handleSysUsers` sends, if the request passes its checks. -/
def sysUserPasswdPayload (username newPassword : Text) : Option (List Field) :=
  if username = [] ∨ newPassword = [] ∨ (bytes newPassword).length < 6 then none
  else some [⟨"username", .str username⟩, ⟨"new_password", .str newPassword⟩]

/-- How the calls of `ctc_sys_user_passwd_json` end. A line is shorter than `PIPE_BUF`, so
that `write` takes all of it or nothing. -/
structure PasswdHost where
  isRoot : Bool
  pipe : Bool
  fork : Bool
  write : Bool
  chpasswd : Bool

/-- The bytes that reach `chpasswd`, and the reply. -/
structure PasswdOutcome where
  written : Option Bytes := none
  reply : Bytes

/-- The line for `chpasswd`, formatted into 512 bytes; as many bytes are written as it would
have without that bound. -/
def feedChpasswd (host : PasswdHost) (username newPassword : Bytes) :
    Except Fault PasswdOutcome := do
  let text := username ++ 58 :: newPassword ++ [10]
  let line ← readAt (snprintf 512 text ++ [0]) 0 text.length
  return if !host.write then { reply := errorText "write failed" }
    else {
      written := some line
      reply := if !host.chpasswd then
          errorText "chpasswd failed (user not found or permission denied)"
        else lit "\x7b\"ok\":true,\"message\":\"password updated\"\x7d" }

/-- `ctc_sys_user_passwd_json`. -/
def sysUserPasswd (host : PasswdHost) (username newPassword : Bytes) :
    Except Fault PasswdOutcome :=
  if !safeName username then .ok { reply := errorText "invalid username" }
  else if newPassword.length < 6 then
    .ok { reply := errorText "password too short (min 6)" }
  else if !host.isRoot then
    .ok { reply := errorText "agent must run as root to change passwords" }
  else if !host.pipe then .ok { reply := errorText "pipe failed" }
  else if !host.fork then .ok { reply := errorText "fork failed" }
  else feedChpasswd host username newPassword

/-- The branch of `handle_command`. -/
def handleSysUserPasswd (host : PasswdHost) : (payload : Option Bytes) → Except Fault PasswdOutcome
  | none => .ok { reply := errorText "bad payload" }
  | some json => do
    match ← jsonGetString json (lit "username") 128 with
    | none => return { reply := errorText "bad payload" }
    | some username =>
      match ← jsonGetString json (lit "new_password") 256 with
      | none => return { reply := errorText "bad payload" }
      | some newPassword => sysUserPasswd host username newPassword

/-- One line of input for `chpasswd`. -/
def IsLine (s : Bytes) : Prop := ∃ t : Bytes, 10 ∉ t ∧ s = t ++ [10]

theorem isLine_append_newline {t : Bytes} : IsLine (t ++ [10]) ↔ 10 ∉ t := by
  constructor
  · rintro ⟨u, hu, htu⟩
    rwa [append_cancel_right htu]
  · intro ht
    exact ⟨t, ht, rfl⟩

/-- What is written to `chpasswd` is the name, a colon, the password and a newline. -/
theorem feedChpasswd_written {host : PasswdHost} {username newPassword line reply : Bytes}
    (husername : username.length < 128) (hpassword : newPassword.length < 256)
    (h : feedChpasswd host username newPassword = .ok ⟨some line, reply⟩) :
    line = username ++ 58 :: newPassword ++ [10] := by
  unfold feedChpasswd at h
  generalize htext : username ++ 58 :: newPassword ++ [10] = text at h ⊢
  have hshort : text.length < 512 := by
    rw [← htext]
    simp only [length_append, length_cons, length_nil]
    omega
  have hread : readAt (snprintf 512 text ++ [0]) 0 text.length = .ok text := by
    rw [snprintf_eq_self hshort, readAt_of_le (by simp), drop_zero, take_left]
  dsimp only at h
  rw [hread] at h
  have h := Except.ok.inj h
  split at h
  · cases h
  · exact (some.inj (congrArg PasswdOutcome.written h)).symm

theorem sysUserPasswd_written {host : PasswdHost} {username newPassword line reply : Bytes}
    (husername : username.length < 128) (hpassword : newPassword.length < 256)
    (h : sysUserPasswd host username newPassword = .ok ⟨some line, reply⟩) :
    safeName username = true ∧ line = username ++ 58 :: newPassword ++ [10] := by
  unfold sysUserPasswd at h
  split at h
  · cases h
  · rename_i hname
    refine ⟨by simpa using hname, ?_⟩
    split_ifs at h
    case neg => exact feedChpasswd_written husername hpassword h
    all_goals cases h

theorem held_length_le_bytes (size : Nat) (s : Text) : (held size s).length ≤ (bytes s).length :=
  ((cString_length_le _).trans (length_take_le' _ _)).trans (flatMap_decodedRune_length s)

/-- The agent works with what its buffers hold of the two strings. -/
theorem handleSysUserPasswd_sent (host : PasswdHost) (username newPassword : Text) :
    handleSysUserPasswd host (some (objectText
      [⟨"username", .str username⟩, ⟨"new_password", .str newPassword⟩])) =
        sysUserPasswd host (held 128 username) (held 256 newPassword) := by
  have hname := jsonGetString_first (k := "username") (by decide) username
    [⟨"new_password", .str newPassword⟩] 128
  have hpassword : jsonGetString (objectText
      ([⟨"username", .str username⟩] ++ [⟨"new_password", .str newPassword⟩]))
        (lit "new_password") 256 = _ :=
    jsonGetString_str (by decide) 256 (passed_cons (by decide) (by simp) passed_nil)
  rw [cons_append, nil_append] at hpassword
  change (jsonGetString _ _ _ >>= _) = _
  rw [hname]
  change (jsonGetString _ _ _ >>= _) = _
  rw [hpassword]
  rfl

/-- What is written is the name, a colon, the password and a newline, and is one line, if and
only if both strings survive the copy and the password has no newline. -/
theorem passwd_writes_one_line_iff (host : PasswdHost) (username newPassword : Text)
    (fields : List Field) (line reply : Bytes)
    (hsent : sysUserPasswdPayload username newPassword = some fields)
    (hwritten : handleSysUserPasswd host (some (objectText fields)) = .ok ⟨some line, reply⟩) :
    (line = bytes username ++ 58 :: bytes newPassword ++ [10] ∧ IsLine line) ↔
      (Kept username ∧ (bytes username).length < 128) ∧
        (Kept newPassword ∧ (bytes newPassword).length < 256) ∧ 10 ∉ bytes newPassword := by
  have hfields : fields = [⟨"username", .str username⟩, ⟨"new_password", .str newPassword⟩] := by
    unfold sysUserPasswdPayload at hsent
    split at hsent
    · cases hsent
    · exact (some.inj hsent).symm
  rw [hfields, handleSysUserPasswd_sent] at hwritten
  have hname := held_length_le 128 username
  have hpassword := held_length_le 256 newPassword
  obtain ⟨hsafe, rfl⟩ := sysUserPasswd_written (by omega) (by omega) hwritten
  have hkept : Kept username ∧ (bytes username).length < 128 ↔ held 128 username = bytes username :=
    (held_eq_iff (by decide) username).symm
  have hkept' : Kept newPassword ∧ (bytes newPassword).length < 256 ↔
      held 256 newPassword = bytes newPassword := (held_eq_iff (by decide) newPassword).symm
  -- a copy is never longer than the string, so the two lines agree part by part
  have hparts : held 128 username ++ 58 :: held 256 newPassword ++ [10] =
      bytes username ++ 58 :: bytes newPassword ++ [10] ↔
        held 128 username = bytes username ∧ held 256 newPassword = bytes newPassword := by
    constructor
    · intro h
      have hle := held_length_le_bytes 128 username
      have hle' := held_length_le_bytes 256 newPassword
      have hlen := congrArg List.length h
      simp only [length_append, length_cons, length_nil] at hlen
      have hbody := append_cancel_right h
      obtain ⟨hu, hp⟩ := append_inj hbody (by omega)
      exact ⟨hu, (List.cons.inj hp).2⟩
    · rintro ⟨hu, hp⟩
      rw [hu, hp]
  have hcolon : ∀ c ∈ held 128 username, c ≠ 10 := by
    simp only [safeName, Bool.and_eq_true, List.all_eq_true] at hsafe
    rintro c hc rfl
    exact absurd (hsafe.2 10 hc) (by decide)
  rw [hparts, hkept, hkept', isLine_append_newline, and_assoc]
  refine and_congr_right fun _ => and_congr_right fun hp => ?_
  rw [hp]
  simp only [mem_append, mem_cons, not_or]
  refine ⟨fun h => h.2.2, fun h => ⟨fun hmem => hcolon 10 hmem rfl, by decide, h⟩⟩

def rootHost : PasswdHost := ⟨true, true, true, true, true⟩

theorem alice_gets_a_line :
    (lit "alice:secret1\n" = bytes (text "alice") ++ 58 :: bytes (text "secret1") ++ [10] ∧
      IsLine (lit "alice:secret1\n")) ↔
      (Kept (text "alice") ∧ (bytes (text "alice")).length < 128) ∧
        (Kept (text "secret1") ∧ (bytes (text "secret1")).length < 256) ∧
          10 ∉ bytes (text "secret1") :=
  passwd_writes_one_line_iff rootHost (text "alice") (text "secret1")
    [⟨"username", .str (text "alice")⟩, ⟨"new_password", .str (text "secret1")⟩]
    (lit "alice:secret1\n") (lit "\x7b\"ok\":true,\"message\":\"password updated\"\x7d")
    (if_neg (by decide)) (by rw [handleSysUserPasswd_sent]; rfl)

/-- A password that sets another user's password. -/
theorem password_with_two_lines : let username := text "alice"
    let newPassword := text "secret1\nroot:hacked1"
    (sysUserPasswdPayload username newPassword).isSome = true ∧
      ((handleSysUserPasswd rootHost ((sysUserPasswdPayload username newPassword).map
        objectText)).toOption.bind PasswdOutcome.written) =
          some (lit "alice:secret1\nroot:hacked1\n") ∧
      ¬ IsLine (lit "alice:secret1\nroot:hacked1\n") := by
  refine ⟨by decide, by decide, ?_⟩
  have htext : lit "alice:secret1\nroot:hacked1\n" = lit "alice:secret1\nroot:hacked1" ++ [10] := by
    decide
  rw [htext, isLine_append_newline]
  decide

end CtForge.Agent
