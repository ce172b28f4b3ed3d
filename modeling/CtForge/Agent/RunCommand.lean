import CtForge.Lib.ShellCommand
import CtForge.Agent.SysLog
import CtForge.Agent.Text

/-!
# The wrappers around shell commands (`xrun_cmd`, `run_cmd`)

Both put a command between single quotes behind `timeout N bash -c` or `timeout N sh -c` and
give the line to `popen`. `xrun_cmd` writes a quote of the command as `'\'`, which leaves the
quotation open; `run_cmd` writes `'\''`, but stops where its buffer ends and runs what it has.
-/

namespace CtForge.Agent

open CLang Shell List Option Lexer

/-- What comes of a text that `popen` gets: none if `popen` fails, else what is printed. A
single line with a quotation that is not closed prints nothing. -/
structure ShellHost where
  popen : Bytes → Option Bytes
  unread : ∀ line out, 10 ∉ line → split line = none → popen line = some out → out = []

/-! ## The two wrappers -/

def wrapperHead (shell : String) (timeoutSec : Int32) : Bytes :=
  lit "timeout " ++ int32 timeoutSec ++ [32] ++ (lit shell ++ [32]) ++ lit "-c '"

/-- The loop of `xrun_cmd`. -/
def xquote (cmd : Bytes) : Bytes := cmd.flatMap fun c => if c = 39 then [39, 92, 39] else [c]

/-- The text that is formatted into `wrapped[8192]`. -/
def xwrapped (timeoutSec : Int32) (cmd : Bytes) : Bytes :=
  wrapperHead "bash" timeoutSec ++ xquote cmd ++ lit "' 2>/dev/null"

/-- The line for `popen`. The quoted command and its NUL need room in the buffer `q`. -/
def xrunLine (timeoutSec : Int32) (cmd : Bytes) : Except Fault Bytes :=
  if (xquote cmd).length < cmd.length * 2 + 128 then
    .ok (snprintf 8192 (xwrapped timeoutSec cmd))
  else .error .outOfBounds

/-- `xrun_cmd`: the output, up to the bound of its buffer; none for `NULL`. -/
def xrunCmd (host : ShellHost) (cmd : Bytes) (timeoutSec : Int32) :
    Except Fault (Option Bytes) := do
  let line ← xrunLine timeoutSec cmd
  return (host.popen line).map fun out => cString (out.take 16777215)

/-- The loop of `run_cmd`, with `wn` bytes in use: what it writes, and what it leaves. -/
def quoteLoop : (wn : Nat) → Bytes → Bytes × Bytes
  | _, [] => ([], [])
  | wn, c :: cmd =>
    if wn + 8 < 16384 then
      let out := if c = 39 then [39, 92, 39, 39] else [c]
      let next := quoteLoop (wn + out.length) cmd
      (out ++ next.1, next.2)
    else ([], c :: cmd)

/-- The line for `popen`. -/
def runLine (timeoutSec : Int32) (cmd : Bytes) : Bytes :=
  let front := wrapperHead "sh" timeoutSec ++
    (quoteLoop (wrapperHead "sh" timeoutSec).length cmd).1
  front ++ snprintf (16384 - front.length) (lit "' 2>/dev/null")

/-- `run_cmd`. -/
def runCmd (host : ShellHost) (cmd : Bytes) (timeoutSec : Int32) : Option Bytes :=
  (host.popen (runLine timeoutSec cmd)).map fun out => cString (out.take 8388607)

/-! ## What a line is to the shell -/

def wrappedArgs (shell : String) (timeoutSec : Int32) (cmd : Bytes) : List Bytes :=
  [lit "timeout", int32 timeoutSec, lit shell, lit "-c", cmd]

/-- `2>file`. -/
def errorsTo (file : Bytes) : Redirect := ⟨lit "2", lit ">", file⟩

theorem isPlainWord_int32 (n : Int32) : isPlainWord (int32 n) = true := by
  unfold int32 decimalInt
  split
  · exact isPlainWord_dash_decimal _
  · exact isPlainWord_decimal _

theorem run_wrapperHead {shell : String} (hshell : isPlainWord (lit shell) = true)
    (timeoutSec : Int32) :
    Lexer.start.run (wrapperHead shell timeoutSec) =
      ⟨.single, [Piece.mark 39],
        [lit "timeout", int32 timeoutSec, lit shell, lit "-c"].map plainWord⟩ := by
  have htimeout : Reads (lit "timeout ") [plainWord (lit "timeout")] :=
    reads_of_run (by decide)
  have hwords := (htimeout.append (reads_plain (isPlainWord_int32 timeoutSec))).append
    (reads_plain hshell)
  have hopen : ∀ ts, Lexer.run ⟨.bare, [], ts⟩ (lit "-c '") =
      ⟨.single, [Piece.mark 39], ts ++ [plainWord (lit "-c")]⟩ := by
    intro ts
    have hafter := after_run Lexer.start ts (lit "-c '")
    have hrun : Lexer.start.run (lit "-c '") =
        ⟨.single, [Piece.mark 39], [plainWord (lit "-c")]⟩ := by decide
    rw [hrun] at hafter
    simpa [Lexer.after, Lexer.start] using hafter
  have hall := hwords []
  rw [wrapperHead, append_assoc (lit "timeout "), run_append, Lexer.start, hall, hopen]
  rfl

theorem run_close (w : List Piece) (ts : List Token) :
    Lexer.run ⟨.single, Piece.mark 39 :: w, ts⟩ (lit "' 2>") =
      ⟨.bare, [], ts ++ [.word (Piece.mark 39 :: w ++ [Piece.mark 39]),
        Token.ioNumber [Piece.plain 50], Token.op 62]⟩ := by
  have hlit : lit "' 2>" = [39, 32, 50, 62] := by decide
  rw [hlit]
  simp [Lexer.run, Lexer.step, Lexer.stepSingle, Lexer.stepBare, Lexer.put, Lexer.cut,
    Lexer.operator, Lexer.isNumber, Shell.isBlank, isOperator, isExpanding, isDigit]

section Wrapped

variable {shell : String} {body cmd : Bytes} {pieces : List Piece}

theorem run_wrapped (hshell : isPlainWord (lit shell) = true) (timeoutSec : Int32)
    (hrun : ∀ v ts, Lexer.run ⟨.single, v, ts⟩ body = ⟨.single, v ++ pieces, ts⟩) :
    Lexer.start.run (wrapperHead shell timeoutSec ++ body ++ lit "' 2>") =
      ⟨.bare, [], [lit "timeout", int32 timeoutSec, lit shell, lit "-c"].map plainWord ++
        [.word (Piece.mark 39 :: pieces ++ [Piece.mark 39]),
          Token.ioNumber [Piece.plain 50], Token.op 62]⟩ := by
  rw [run_append, run_append, run_wrapperHead hshell, hrun]
  exact run_close pieces _

theorem simple_wrapped (timeoutSec : Int32) (hfield : fieldOf pieces = some cmd) (ts : List Token) :
    simple ([lit "timeout", int32 timeoutSec, lit shell, lit "-c"].map plainWord ++
        .word (Piece.mark 39 :: pieces ++ [Piece.mark 39]) :: ts) =
      (simple ts).map fun c => { c with args := wrappedArgs shell timeoutSec cmd ++ c.args } := by
  have hword : fieldOf (Piece.mark 39 :: pieces ++ [Piece.mark 39]) = some cmd := by
    rw [cons_append, fieldOf, fieldOf_append, hfield]
    simp [fieldOf]
  simp only [map_cons, map_nil, cons_append, nil_append, simple_plainWord]
  rw [← cons_append, simple_word, hword]
  cases simple ts <;> rfl

theorem command_wrapped (hshell : isPlainWord (lit shell) = true) (timeoutSec : Int32)
    (hrun : ∀ v ts, Lexer.run ⟨.single, v, ts⟩ body = ⟨.single, v ++ pieces, ts⟩)
    (hfield : fieldOf pieces = some cmd) {file : Bytes} (hfile : isPlainWord file = true) :
    command (wrapperHead shell timeoutSec ++ body ++ lit "' 2>" ++ file) =
      some ⟨wrappedArgs shell timeoutSec cmd, [errorsTo file]⟩ := by
  have hreads := reads_of_run (run_wrapped hshell timeoutSec hrun)
  have hfd : fieldOf [Piece.plain 50] = some (lit "2") := by decide
  rw [command, hreads.split_last hfile, bind_some, append_assoc, cons_append,
    simple_wrapped timeoutSec hfield, plainWord, cons_append, cons_append,
    nil_append, simple, hfd, fieldOf_plain]
  rfl

theorem command_wrapped_nil (hshell : isPlainWord (lit shell) = true) (timeoutSec : Int32)
    (hrun : ∀ v ts, Lexer.run ⟨.single, v, ts⟩ body = ⟨.single, v ++ pieces, ts⟩)
    (hfield : fieldOf pieces = some cmd) :
    command (wrapperHead shell timeoutSec ++ body ++ lit "' 2>") = none := by
  have hreads := reads_of_run (run_wrapped hshell timeoutSec hrun)
  rw [command, hreads.split, bind_some, simple_wrapped timeoutSec hfield]
  rfl

end Wrapped

theorem isPlainWord_bash : isPlainWord (lit "bash") = true := by decide

theorem isPlainWord_sh : isPlainWord (lit "sh") = true := by decide

theorem isPlainWord_devNull : isPlainWord (lit "/dev/null") = true := by decide

theorem closing_eq : lit "' 2>/dev/null" = lit "' 2>" ++ lit "/dev/null" := by decide

/-! ## `run_cmd` -/

/-- The text that `run_cmd` means to write. -/
def wrapped (timeoutSec : Int32) (cmd : Bytes) : Bytes :=
  wrapperHead "sh" timeoutSec ++ quoteSingle cmd ++ lit "' 2>/dev/null"

theorem wrapperHead_length (timeoutSec : Int32) : (wrapperHead "sh" timeoutSec).length ≤ 27 := by
  have hnum := int32_length timeoutSec
  have htimeout : (lit "timeout ").length = 8 := rfl
  have hopen : (lit "-c '").length = 4 := rfl
  have hsh : (lit "sh").length = 2 := rfl
  simp only [wrapperHead, length_append, length_singleton]
  omega

variable {wn : Nat}

theorem quoteLoop_cons (h : wn + 8 < 16384) (c : UInt8) (cmd : Bytes) :
    quoteLoop wn (c :: cmd) =
      ((if c = 39 then [39, 92, 39, 39] else [c]) ++
        (quoteLoop (wn + (if c = 39 then [39, 92, 39, 39] else [c] : Bytes).length) cmd).1,
        (quoteLoop (wn + (if c = 39 then [39, 92, 39, 39] else [c] : Bytes).length) cmd).2) := by
  rw [quoteLoop, if_pos h]

theorem quoteLoop_full (h : ¬ wn + 8 < 16384) (cmd : Bytes) : quoteLoop wn cmd = ([], cmd) := by
  cases cmd with
  | nil => rfl
  | cons c cmd => rw [quoteLoop, if_neg h]

/-- The loop quotes a part of the command from its beginning, as long as the buffer has room. -/
theorem quoteLoop_spec (wn : Nat) (cmd : Bytes) :
    ∃ front, cmd = front ++ (quoteLoop wn cmd).2 ∧ (quoteLoop wn cmd).1 = quoteSingle front ∧
      ((quoteLoop wn cmd).2 ≠ [] → 16376 ≤ wn + (quoteSingle front).length) ∧
      (front ≠ [] → wn + (quoteSingle front.dropLast).length < 16376) := by
  induction cmd generalizing wn with
  | nil => exact ⟨[], rfl, rfl, fun h => absurd rfl h, fun h => absurd rfl h⟩
  | cons c cmd ih =>
    by_cases hroom : wn + 8 < 16384
    · rw [quoteLoop_cons hroom]
      obtain ⟨front, hcmd, hwritten, hstop, hlast⟩ :=
        ih (wn + (if c = 39 then [39, 92, 39, 39] else [c] : Bytes).length)
      refine ⟨c :: front, congrArg (c :: ·) hcmd, ?_, ?_, ?_⟩
      · rw [quoteSingle_cons, hwritten]
      · intro hrest
        have hlate := hstop hrest
        rw [quoteSingle_cons, length_append]
        omega
      · intro _
        cases front with
        | nil =>
          rw [dropLast_singleton, quoteSingle, flatMap_nil, length_nil]
          omega
        | cons d front =>
          have hbefore := hlast (cons_ne_nil d front)
          rw [dropLast_cons_cons, quoteSingle_cons, length_append]
          omega
    · rw [quoteLoop_full hroom]
      refine ⟨[], rfl, rfl, fun _ => ?_, fun h => absurd rfl h⟩
      rw [quoteSingle, flatMap_nil, length_nil]
      omega

theorem quoteLoop_length (h : wn ≤ 16379) (cmd : Bytes) :
    wn + (quoteLoop wn cmd).1.length ≤ 16379 := by
  induction cmd generalizing wn with
  | nil => exact h
  | cons c cmd ih =>
    by_cases hroom : wn + 8 < 16384
    · rw [quoteLoop_cons hroom, length_append]
      generalize hout : (if c = 39 then [39, 92, 39, 39] else [c] : Bytes) = out
      have hshort : out.length ≤ 4 := by
        rw [← hout]
        split <;> simp
      have hnext : wn + out.length + (quoteLoop (wn + out.length) cmd).1.length ≤ 16379 :=
        ih (by omega)
      omega
    · rw [quoteLoop_full hroom]
      exact h

variable {cmd : Bytes}

theorem quoteLoop_all (h : wn + (quoteSingle cmd).length ≤ 16376) :
    quoteLoop wn cmd = (quoteSingle cmd, []) := by
  induction cmd generalizing wn with
  | nil => rfl
  | cons c cmd ih =>
    rw [quoteSingle_cons, length_append] at h
    have hpos : 0 < (if c = 39 then [39, 92, 39, 39] else [c] : Bytes).length := by
      split <;> simp
    rw [quoteLoop_cons (by omega), ih (by omega), quoteSingle_cons]

theorem quoteLoop_plain (h : 39 ∉ cmd) :
    quoteLoop wn cmd = (cmd.take (16376 - wn), cmd.drop (16376 - wn)) := by
  induction cmd generalizing wn with
  | nil => simp [quoteLoop]
  | cons c cmd ih =>
    obtain ⟨hc, hcmd⟩ : 39 ≠ c ∧ 39 ∉ cmd := by simpa using h
    by_cases hroom : wn + 8 < 16384
    · have hnat : 16376 - wn = (16376 - (wn + 1)) + 1 := by omega
      rw [quoteLoop_cons hroom, if_neg (Ne.symm hc), length_singleton, ih hcmd, hnat,
        take_succ_cons, drop_succ_cons]
      rfl
    · have hnat : 16376 - wn = 0 := by omega
      rw [quoteLoop_full hroom, hnat]
      rfl

section RunCmd

variable (timeoutSec : Int32) (cmd : Bytes)

/-- The value of `wn` behind the loop. -/
def written : Nat := (wrapperHead "sh" timeoutSec).length +
  (quoteLoop (wrapperHead "sh" timeoutSec).length cmd).1.length

def errorFile : Bytes := (lit "/dev/null").take (16379 - written timeoutSec cmd)

theorem written_le : written timeoutSec cmd ≤ 16379 :=
  quoteLoop_length ((wrapperHead_length timeoutSec).trans (by omega)) cmd

theorem runLine_eq {front : Bytes}
    (hfront : (quoteLoop (wrapperHead "sh" timeoutSec).length cmd).1 = quoteSingle front) :
    runLine timeoutSec cmd = wrapperHead "sh" timeoutSec ++ quoteSingle front ++ lit "' 2>" ++
      errorFile timeoutSec cmd := by
  have hle := written_le timeoutSec cmd
  have hlen : (lit "' 2>").length = 4 := rfl
  have hwritten : (wrapperHead "sh" timeoutSec ++ quoteSingle front).length =
      written timeoutSec cmd := by
    rw [← hfront, length_append]
    rfl
  unfold runLine
  dsimp only
  rw [hfront, hwritten, snprintf, closing_eq, take_append, hlen,
    take_of_length_le (by omega), errorFile]
  have hnat : 16384 - written timeoutSec cmd - 1 - 4 = 16379 - written timeoutSec cmd := by omega
  rw [hnat, ← append_assoc]

theorem isPlainWord_errorFile (h : written timeoutSec cmd ≠ 16379) :
    isPlainWord (errorFile timeoutSec cmd) = true := by
  have hle := written_le timeoutSec cmd
  have hsmall : ∀ n < 10, 0 < n → isPlainWord ((lit "/dev/null").take n) = true := by decide
  by_cases hn : 16379 - written timeoutSec cmd < 10
  · exact hsmall _ hn (by omega)
  · rw [errorFile, take_of_length_le (by rw [show (lit "/dev/null").length = 9 from rfl]; omega)]
    exact isPlainWord_devNull

theorem command_runLine {front : Bytes}
    (hfront : (quoteLoop (wrapperHead "sh" timeoutSec).length cmd).1 = quoteSingle front) :
    command (runLine timeoutSec cmd) = if written timeoutSec cmd = 16379 then none
      else some ⟨wrappedArgs "sh" timeoutSec front, [errorsTo (errorFile timeoutSec cmd)]⟩ := by
  rw [runLine_eq timeoutSec cmd hfront]
  split
  · rename_i hfull
    have hnil : errorFile timeoutSec cmd = [] := by rw [errorFile, hfull, Nat.sub_self, take_zero]
    rw [hnil, append_nil]
    exact command_wrapped_nil isPlainWord_sh timeoutSec (run_quoteSingle front)
      (fieldOf_quotedPieces front)
  · rename_i hroom
    exact command_wrapped isPlainWord_sh timeoutSec (run_quoteSingle front)
      (fieldOf_quotedPieces front) (isPlainWord_errorFile timeoutSec cmd hroom)

theorem command_runLine_of_fits (hfits : (wrapped timeoutSec cmd).length < 16384) :
    command (runLine timeoutSec cmd) =
      some ⟨wrappedArgs "sh" timeoutSec cmd, [errorsTo (lit "/dev/null")]⟩ := by
  have hlen : (lit "' 2>/dev/null").length = 13 := rfl
  have hroom : (wrapperHead "sh" timeoutSec).length + (quoteSingle cmd).length ≤ 16370 := by
    simp only [wrapped, length_append, hlen] at hfits
    omega
  have hall : quoteLoop (wrapperHead "sh" timeoutSec).length cmd = (quoteSingle cmd, []) :=
    quoteLoop_all (by omega)
  have hwritten : written timeoutSec cmd ≤ 16370 := by
    rw [written, hall]
    exact hroom
  have hfile : errorFile timeoutSec cmd = lit "/dev/null" :=
    take_of_length_le (by rw [show (lit "/dev/null").length = 9 from rfl]; omega)
  rw [runLine_eq timeoutSec cmd (congrArg Prod.fst hall), hfile]
  exact command_wrapped isPlainWord_sh timeoutSec (run_quoteSingle cmd) (fieldOf_quotedPieces cmd)
    isPlainWord_devNull

end RunCmd

theorem wrappedArgs_inj {shell : String} {timeoutSec : Int32} {cmd' : Bytes} :
    wrappedArgs shell timeoutSec cmd = wrappedArgs shell timeoutSec cmd' ↔ cmd = cmd' := by
  simp [wrappedArgs]

theorem quoteSingle_length_mono {p t : Bytes} (h : p <+: t) :
    (quoteSingle p).length ≤ (quoteSingle t).length := by
  obtain ⟨rest, rfl⟩ := h
  simp [quoteSingle]

theorem prefix_dropLast_of_ne {p t : Bytes} (h : p <+: t) (hne : p ≠ t) : p <+: t.dropLast := by
  obtain ⟨rest, rfl⟩ := h
  have hrest : rest ≠ [] := fun hnil => hne (by rw [hnil, append_nil])
  rw [dropLast_append_of_ne_nil hrest]
  exact prefix_append p _

/-- The number of bytes in front of the closing quote, when this much of the command is quoted. -/
def lengthWith (timeoutSec : Int32) (front : Bytes) : Nat :=
  (wrapperHead "sh" timeoutSec).length + (quoteSingle front).length

/-- A command that fits is passed on as it is. No other command is run exactly if all bytes but
the last one end before byte 16376, or if a quote begins at byte 16375: then the name of the file
is cut off, and the shell does not read the line. -/
theorem run_cmd_faithful_iff (timeoutSec : Int32) (cmd : Bytes) :
    ((wrapped timeoutSec cmd).length < 16384 → command (runLine timeoutSec cmd) =
      some ⟨wrappedArgs "sh" timeoutSec cmd, [errorsTo (lit "/dev/null")]⟩) ∧
    ((∀ c, command (runLine timeoutSec cmd) = some c → c.args = wrappedArgs "sh" timeoutSec cmd) ↔
      lengthWith timeoutSec cmd.dropLast < 16376 ∨
        ∃ front, front ++ [39] <+: cmd ∧ lengthWith timeoutSec front = 16375) := by
  refine ⟨command_runLine_of_fits timeoutSec cmd, ?_⟩
  obtain ⟨front, hcmd, hfront, hstop, hlast⟩ :=
    quoteLoop_spec (wrapperHead "sh" timeoutSec).length cmd
  have hhead := wrapperHead_length timeoutSec
  have hprefix : front <+: cmd := ⟨_, hcmd.symm⟩
  have hwritten : written timeoutSec cmd = lengthWith timeoutSec front := by
    rw [written, hfront, lengthWith]
  have hpart : front ≠ cmd → 16376 ≤ lengthWith timeoutSec front := by
    intro hne
    refine hstop fun hnil => hne ?_
    rw [hnil, append_nil] at hcmd
    exact hcmd.symm
  have hwhole : front = cmd ↔ lengthWith timeoutSec cmd.dropLast < 16376 := by
    constructor
    · rintro rfl
      by_cases hnil : front = []
      · rw [hnil, lengthWith, dropLast_nil, quoteSingle, flatMap_nil, length_nil]
        omega
      · exact hlast hnil
    · intro hlt
      by_contra hne
      have hle := quoteSingle_length_mono (prefix_dropLast_of_ne hprefix hne)
      have hlong := hpart hne
      unfold lengthWith at hlt hlong
      omega
  have hedge : lengthWith timeoutSec front = 16379 ↔
      ∃ p, p ++ [39] <+: cmd ∧ lengthWith timeoutSec p = 16375 := by
    constructor
    · intro hfull
      have hne : front ≠ [] := by
        rintro rfl
        rw [lengthWith, quoteSingle, flatMap_nil, length_nil] at hfull
        omega
      have hbefore := hlast hne
      have hsplit := dropLast_concat_getLast hne
      have hquoted : (quoteSingle front).length = (quoteSingle front.dropLast).length +
          (if front.getLast hne = 39 then 4 else 1) := by
        conv_lhs => rw [← hsplit]
        rw [quoteSingle, flatMap_append, length_append, flatMap_singleton]
        split <;> rfl
      unfold lengthWith at hfull ⊢
      split at hquoted
      · rename_i hquote
        rw [hquote] at hsplit
        exact ⟨front.dropLast, hsplit.symm ▸ hprefix, by omega⟩
      · omega
    · rintro ⟨p, hp, hlen⟩
      have hquoted : lengthWith timeoutSec (p ++ [39]) = 16379 := by
        have hfour : (quoteSingle (p ++ [39])).length = (quoteSingle p).length + 4 := by
          simp [quoteSingle]
        rw [lengthWith, hfour, ← Nat.add_assoc]
        exact congrArg (· + 4) hlen
      rcases prefix_or_prefix_of_prefix hprefix hp with hshort | hlong
      · by_contra hne
        -- the loop has stopped before the quote, or has read the whole command
        have hne' : front ≠ p ++ [39] := fun heq => hne (heq ▸ hquoted)
        have hshort := prefix_dropLast_of_ne hshort hne'
        rw [dropLast_concat] at hshort
        have hle := quoteSingle_length_mono hshort
        have hcmd' : front = cmd := by
          by_contra hpartial
          have hlate := hpart hpartial
          unfold lengthWith at hlate hlen
          omega
        have hlonger := (hcmd' ▸ hp).length_le
        have hshorter := hshort.length_le
        simp only [length_append, length_singleton] at hlonger
        omega
      · by_contra hne
        have hne' : p ++ [39] ≠ front := fun heq => hne (heq ▸ hquoted)
        have hle := quoteSingle_length_mono (prefix_dropLast_of_ne hlong hne')
        have hbefore := hlast (by rintro rfl; simp at hlong)
        unfold lengthWith at hquoted
        omega
  rw [command_runLine timeoutSec cmd hfront, hwritten, ← hwhole, ← hedge]
  split
  · rename_i hfull
    simp [hfull]
  · rename_i hroom
    simp [hroom, wrappedArgs_inj]

theorem id_is_run : (wrapped 15 (lit "id 'x'")).length < 16384 ∧
    command (runLine 15 (lit "id 'x'")) =
      some ⟨wrappedArgs "sh" 15 (lit "id 'x'"), [errorsTo (lit "/dev/null")]⟩ := by
  have hfits : (wrapped 15 (lit "id 'x'")).length < 16384 := by decide
  exact ⟨hfits, (run_cmd_faithful_iff 15 (lit "id 'x'")).1 hfits⟩

/-- A command without quotes is cut where the buffer has eight bytes left, and of the name of
the file behind it three bytes remain. -/
theorem command_runLine_cut {timeoutSec : Int32} {front back : Bytes} (hquote : 39 ∉ front ++ back)
    (hroom : (wrapperHead "sh" timeoutSec).length + front.length = 16376) :
    command (runLine timeoutSec (front ++ back)) =
      some ⟨wrappedArgs "sh" timeoutSec front, [errorsTo (lit "/de")]⟩ := by
  have hlen : front.length = 16376 - (wrapperHead "sh" timeoutSec).length := by omega
  have hloop : quoteLoop (wrapperHead "sh" timeoutSec).length (front ++ back) = (front, back) := by
    rw [quoteLoop_plain hquote, take_left' hlen, drop_left' hlen]
  have hwritten : written timeoutSec (front ++ back) = 16376 := by rw [written, hloop, hroom]
  obtain ⟨front', hcmd, hfront, -⟩ :=
    quoteLoop_spec (wrapperHead "sh" timeoutSec).length (front ++ back)
  obtain rfl : front = front' := append_cancel_right (by rwa [hloop] at hcmd)
  rw [command_runLine timeoutSec _ hfront, hwritten, if_neg (by decide), errorFile, hwritten]
  rfl

/-- A command that is run without its end. -/
theorem run_cmd_cuts : let cmd := List.replicate 16400 (97 : UInt8)
    command (runLine 60 cmd) =
        some ⟨wrappedArgs "sh" 60 (List.replicate 16358 97), [errorsTo (lit "/de")]⟩ ∧
      wrappedArgs "sh" 60 (List.replicate 16358 97) ≠ wrappedArgs "sh" 60 cmd := by
  intro cmd
  have hsum : List.replicate 16358 (97 : UInt8) ++ List.replicate 42 97 = cmd :=
    replicate_append_replicate
  have hquote : 39 ∉ cmd := by
    intro hmem
    exact absurd (eq_of_mem_replicate hmem) (by decide)
  have hhead : (wrapperHead "sh" 60).length = 18 := by decide
  rw [← hsum] at hquote ⊢
  refine ⟨command_runLine_cut hquote ?_, ?_⟩
  · rw [hhead, length_replicate]
  · rw [Ne, wrappedArgs_inj]
    intro hsame
    have hlen := congrArg List.length hsame
    rw [length_append, length_replicate, length_replicate] at hlen
    omega

/-! ## `xrun_cmd` -/

theorem xquote_cons (c : UInt8) (cmd : Bytes) :
    xquote (c :: cmd) = (if c = 39 then [39, 92, 39] else [c]) ++ xquote cmd := flatMap_cons

theorem xquote_append (s t : Bytes) : xquote (s ++ t) = xquote s ++ xquote t :=
  flatMap_append

theorem xquote_eq_self (h : 39 ∉ cmd) : xquote cmd = cmd := by
  induction cmd with
  | nil => rfl
  | cons c cmd ih =>
    obtain ⟨hc, hcmd⟩ : 39 ≠ c ∧ 39 ∉ cmd := by simpa using h
    rw [xquote_cons, if_neg (Ne.symm hc), ih hcmd]
    rfl

example : xquote (lit "id -u") = lit "id -u" := by decide +kernel

/-- What the word has, behind the first quote of the command, compared with what was read of
the command since: fewer double quotes, or nothing that was not there. -/
def Lags (mode : Mode) (read out : Bytes) : Prop :=
  out.count 34 < read.count 34 ∨ out.count 34 = read.count 34 ∧
    (mode = .bare ∧ out.length ≤ read.length ∨
      mode = .escaped false ∧ out.length < read.length)

/-- The lexer behind the first quote of the command, while it reads the same word: `w` is what
the word had before. -/
inductive Trails (ts : List Token) (w : List Piece) (read : Bytes) (l : Lexer) : Prop
  | mk (mode : Mode) (v : List Piece) (hl : l = ⟨mode, w ++ v, ts⟩)
      (hlag : ∀ out, fieldOf v = some out → Lags mode read out)
      (hmode : mode = .bare ∨ mode = .double ∨ mode = .escaped true ∨
        mode = .escaped false ∧ read.getLast? = some 92)

theorem lags_of_lt {mode : Mode} {read out : Bytes} (h : out.count 34 < read.count 34) :
    Lags mode read out := .inl h

theorem lags_iff_lt {mode : Mode} (hbare : mode ≠ .bare) (hback : mode ≠ .escaped false)
    {read out : Bytes} : Lags mode read out ↔ out.count 34 < read.count 34 := by
  simp [Lags, hbare, hback]

section Trails

variable {ts : List Token} {w v : List Piece} {read : Bytes} {l : Lexer} {mode : Mode} {c : UInt8}

theorem Trails.next (hlag : ∀ out, fieldOf v = some out → Lags mode read out)
    {mode' : Mode} {ps : List Piece}
    (hstep : ∀ out b, fieldOf ps = some b → Lags mode read out →
      Lags mode' (read ++ [c]) (out ++ b))
    (hmode : mode' = .bare ∨ mode' = .double ∨ mode' = .escaped true ∨
      mode' = .escaped false ∧ c = 92) : Trails ts w (read ++ [c]) ⟨mode', w ++ v ++ ps, ts⟩ := by
  refine ⟨mode', v ++ ps, by rw [append_assoc], ?_, ?_⟩
  · intro out hout
    rw [fieldOf_append] at hout
    obtain ⟨a, ha, hout⟩ := bind_eq_some_iff.mp hout
    obtain ⟨b, hb, rfl⟩ := map_eq_some_iff.mp hout
    exact hstep a b hb (hlag a ha)
  · simpa using hmode

theorem Trails.keep (hlag : ∀ out, fieldOf v = some out → Lags mode read out)
    (hbare : mode ≠ .bare) (hback : mode ≠ .escaped false) {ps : List Piece} {b : Bytes}
    (hps : fieldOf ps = some b) (hcount : b.count 34 ≤ [c].count 34) :
    Trails ts w (read ++ [c]) ⟨.double, w ++ v ++ ps, ts⟩ := by
  refine .next hlag ?_ (.inr (.inl rfl))
  intro out b' hb' hout
  rw [hps] at hb'
  cases hb'
  rw [lags_iff_lt hbare hback] at hout
  refine lags_of_lt ?_
  rw [count_append, count_append]
  omega

/-- A quote of the command moves the word in step. -/
theorem Trails.quote (h : Trails ts w read l) :
    Trails ts w (read ++ [39]) (l.run [39, 92, 39]) := by
  obtain ⟨mode, v, rfl, hlag, hmode⟩ := h
  rcases hmode with rfl | rfl | rfl | ⟨rfl, -⟩
  · have hrun : Lexer.run ⟨.bare, w ++ v, ts⟩ [39, 92, 39] =
        ⟨.bare, w ++ v ++ [Piece.mark 39, Piece.quoted 92, Piece.mark 39], ts⟩ := by
      simp [Lexer.run, Lexer.step, Lexer.stepBare, Lexer.stepSingle, Lexer.put,
        Shell.isBlank, isOperator]
    rw [hrun]
    refine .next hlag ?_ (.inl rfl)
    intro out b hb hout
    cases hb
    simp [Lags] at hout ⊢
    omega
  · have hrun : Lexer.run ⟨.double, w ++ v, ts⟩ [39, 92, 39] =
        ⟨.double, w ++ v ++ [Piece.quoted 39, Piece.quoted 92, Piece.quoted 39], ts⟩ := by
      simp [Lexer.run, Lexer.step, Lexer.stepDouble, Lexer.stepEscaped, Lexer.put]
    rw [hrun]
    exact .keep hlag Mode.noConfusion Mode.noConfusion rfl (by decide)
  · have hrun : Lexer.run ⟨.escaped true, w ++ v, ts⟩ [39, 92, 39] =
        ⟨.double, w ++ v ++ [Piece.quoted 92, Piece.quoted 39, Piece.quoted 92, Piece.quoted 39],
          ts⟩ := by
      simp [Lexer.run, Lexer.step, Lexer.stepDouble, Lexer.stepEscaped, Lexer.put]
    rw [hrun]
    exact .keep hlag Mode.noConfusion (by simp) rfl (by decide)
  · have hrun : Lexer.run ⟨.escaped false, w ++ v, ts⟩ [39, 92, 39] =
        ⟨.bare, w ++ v ++ [Piece.mark 92, Piece.quoted 39, Piece.mark 92, Piece.quoted 39],
          ts⟩ := by
      simp [Lexer.run, Lexer.step, Lexer.stepBare, Lexer.stepEscaped, Lexer.put,
        Shell.isBlank, isOperator]
    rw [hrun]
    refine .next hlag ?_ (.inl rfl)
    intro out b hb hout
    cases hb
    simp [Lags] at hout ⊢
    omega

theorem Trails.bare (hw : w ≠ []) (hc : c ≠ 39) (hblank : Shell.isBlank c = false)
    (hop : isOperator c = false) (hlag : ∀ out, fieldOf v = some out → Lags .bare read out) :
    Trails ts w (read ++ [c]) (Lexer.stepBare ⟨.bare, w ++ v, ts⟩ c) := by
  have hnil : w ++ v ≠ [] := by simp [hw]
  unfold Lexer.stepBare
  simp only [hblank, hop, isEmpty_eq_false_iff.mpr hnil, Bool.and_false, Bool.or_false,
    Bool.false_eq_true, if_false, beq_eq_false_iff_ne.mpr hc]
  split_ifs with hdouble hback hactive
  · rw [beq_iff_eq] at hdouble
    refine .next hlag ?_ (.inr (.inl rfl))
    intro out b hb hout
    cases hb
    simp [Lags, hdouble] at hout ⊢
    omega
  · rw [beq_iff_eq] at hback
    have hsame : w ++ v = w ++ v ++ [] := by simp
    rw [hsame]
    refine .next hlag ?_ (.inr (.inr (.inr ⟨rfl, hback⟩)))
    intro out b hb hout
    cases hb
    simp [Lags, hback] at hout ⊢
    omega
  · refine .next hlag ?_ (.inl rfl)
    intro out b hb
    cases hb
  · rw [beq_iff_eq] at hdouble
    refine .next hlag ?_ (.inl rfl)
    intro out b hb hout
    cases hb
    simp [Lags, hdouble] at hout ⊢
    omega

theorem Trails.double (hlag : ∀ out, fieldOf v = some out → Lags .double read out) :
    Trails ts w (read ++ [c]) (Lexer.stepDouble ⟨.double, w ++ v, ts⟩ c) := by
  have hmode : Mode.double ≠ .bare ∧ Mode.double ≠ .escaped false := by decide
  unfold Lexer.stepDouble
  split_ifs with hclose hback hactive
  · refine .next hlag ?_ (.inl rfl)
    intro out b hb hout
    cases hb
    rw [lags_iff_lt hmode.1 hmode.2] at hout
    refine lags_of_lt ?_
    rw [append_nil, count_append]
    omega
  · have hsame : w ++ v = w ++ v ++ [] := by simp
    rw [hsame]
    refine .next hlag ?_ (.inr (.inr (.inl rfl)))
    intro out b hb hout
    cases hb
    rw [lags_iff_lt hmode.1 hmode.2] at hout
    refine lags_of_lt ?_
    rw [append_nil, count_append]
    omega
  · refine .next hlag ?_ (.inr (.inl rfl))
    intro out b hb
    cases hb
  · exact .keep hlag hmode.1 hmode.2 rfl (Nat.le_refl _)

theorem Trails.escaped {inDouble : Bool}
    (hlag : ∀ out, fieldOf v = some out → Lags (.escaped inDouble) read out) :
    Trails ts w (read ++ [c]) (Lexer.stepEscaped ⟨.escaped inDouble, w ++ v, ts⟩ inDouble c) := by
  have hsame : w ++ v = w ++ v ++ [] := by simp
  have htwo : ∀ p q : Piece, w ++ v ++ [p] ++ [q] = w ++ v ++ [p, q] := by simp
  unfold Lexer.stepEscaped
  dsimp only [Lexer.put]
  cases inDouble with
  | true =>
    have hmode : Mode.escaped true ≠ .bare ∧ Mode.escaped true ≠ .escaped false := by decide
    simp only [if_true, Bool.true_and]
    split_ifs with hnewline hliteral
    · rw [hsame]
      exact .keep hlag hmode.1 hmode.2 rfl (Nat.zero_le _)
    · rw [htwo]
      have hne : c ≠ 34 := by
        rintro rfl
        exact absurd hliteral (by decide)
      exact .keep hlag hmode.1 hmode.2 rfl (by simp [hne])
    · rw [htwo]
      exact .keep hlag hmode.1 hmode.2 rfl (Nat.le_refl _)
  | false =>
    simp only [Bool.false_eq_true, if_false, Bool.false_and]
    split_ifs with hnewline
    · rw [hsame]
      refine .next hlag ?_ (.inl rfl)
      intro out b hb hout
      cases hb
      simp [Lags] at hout ⊢
      omega
    · rw [htwo]
      refine .next hlag ?_ (.inl rfl)
      intro out b hb hout
      cases hb
      simp [Lags] at hout ⊢
      omega

/-- The word is completed, and is not `t`. -/
def Misses (ts : List Token) (w : List Piece) (t : Bytes) (l : Lexer) : Prop :=
  ∃ v more, l.tokens = ts ++ .word (w ++ v) :: more ∧ fieldOf v ≠ some t

theorem tokens_run (l : Lexer) (s : Bytes) : ∃ more, (l.run s).tokens = l.tokens ++ more := by
  have hafter := after_run ⟨l.mode, l.word, []⟩ l.tokens s
  have hl : Lexer.after ⟨l.mode, l.word, []⟩ l.tokens = l := by simp [Lexer.after]
  rw [hl] at hafter
  exact ⟨_, by rw [hafter]; rfl⟩

theorem Misses.run {t : Bytes} (h : Misses ts w t l) (s : Bytes) : Misses ts w t (l.run s) := by
  obtain ⟨v, more, htokens, hfield⟩ := h
  obtain ⟨more', hrun⟩ := tokens_run l s
  exact ⟨v, more ++ more', by rw [hrun, htokens]; simp, hfield⟩

theorem Lags.ne {out more : Bytes} (h : Lags .bare read out) (hmore : more ≠ []) :
    out ≠ read ++ more := by
  rintro rfl
  have hpos := length_pos_iff.mpr hmore
  simp only [Lags, count_append, length_append] at h
  omega

theorem misses_step (hmark : Piece.mark 39 ∈ w)
    (hlag : ∀ out, fieldOf v = some out → Lags .bare read out)
    (hend : Shell.isBlank c = true ∨ isOperator c = true) (more : Bytes) :
    Misses ts w (read ++ c :: more) (Lexer.stepBare ⟨.bare, w ++ v, ts⟩ c) := by
  have hfield : fieldOf v ≠ some (read ++ c :: more) := by
    intro hv
    exact (hlag _ hv).ne (by simp) rfl
  have hne : w ++ v ≠ [] := by
    have := ne_nil_of_mem hmark
    simp [this]
  have hnumber : Lexer.isNumber (w ++ v) = false := by
    have hmem : Piece.mark 39 ∈ w ++ v := mem_append_left v hmark
    rw [Lexer.isNumber, Bool.and_eq_false_iff]
    exact .inr (all_eq_false.mpr ⟨.mark 39, hmem, by simp⟩)
  by_cases hblank : Shell.isBlank c = true
  · refine ⟨v, [], ?_, hfield⟩
    simp [Lexer.stepBare, hblank, Lexer.cut, isEmpty_eq_false_iff.mpr hne]
  · have hop : isOperator c = true := hend.resolve_left hblank
    refine ⟨v, [.op c], ?_, hfield⟩
    simp [Lexer.stepBare, hblank, hop, Lexer.operator, hnumber, Lexer.cut,
      isEmpty_eq_false_iff.mpr hne]

/-- The invariant along the command: what the shell has read of the word lags behind, or is lost. -/
theorem Trails.run (hmark : Piece.mark 39 ∈ w) (h : Trails ts w read l) (t : Bytes) :
    Trails ts w (read ++ t) (l.run (xquote t)) ∨ Misses ts w (read ++ t) (l.run (xquote t)) := by
  have hw : w ≠ [] := ne_nil_of_mem hmark
  induction t generalizing read l with
  | nil =>
    rw [append_nil]
    exact .inl h
  | cons c t ih =>
    rw [xquote_cons, run_append, append_cons]
    by_cases hc : c = 39
    · rw [if_pos hc, hc]
      exact ih h.quote
    · rw [if_neg hc]
      change Trails ts w _ ((l.step c).run _) ∨ Misses ts w _ ((l.step c).run _)
      obtain ⟨mode, v, rfl, hlag, hmode⟩ := h
      rcases hmode with rfl | rfl | rfl | ⟨rfl, -⟩
      · by_cases hend : Shell.isBlank c = true ∨ isOperator c = true
        · rw [append_assoc]
          exact .inr ((misses_step hmark hlag hend t).run _)
        · simp only [not_or, Bool.not_eq_true] at hend
          exact ih (.bare hw hc hend.1 hend.2 hlag)
      · exact ih (.double hlag)
      · exact ih (.escaped hlag)
      · exact ih (.escaped hlag)

theorem run_double {s : Bytes} (hquote : 34 ∉ s) (hback : 92 ∉ s) (l : Lexer)
    (h : l.mode = .double) : (l.run s).mode = .double := by
  induction s generalizing l with
  | nil => exact h
  | cons c s ih =>
    obtain ⟨hc, hquote⟩ : 34 ≠ c ∧ 34 ∉ s := by simpa using hquote
    obtain ⟨hd, hback⟩ : 92 ≠ c ∧ 92 ∉ s := by simpa using hback
    refine ih hquote hback (l.step c) ?_
    simp only [Lexer.step, h, Lexer.stepDouble, beq_eq_false_iff_ne.mpr hc.symm,
      beq_eq_false_iff_ne.mpr hd.symm, Bool.false_eq_true, if_false]
    split
    · exact h
    · exact h

/-- At the end of the line such a word is not the command, or the quotation is open. -/
theorem Trails.close {t : Bytes} (h : Trails ts w t l) :
    (l.run (lit "' 2>/dev/null")).finish = none ∨
      Misses ts w t (l.run (lit "' 2>/dev/null")) := by
  have hlit : lit "' 2>/dev/null" = 39 :: lit " 2>/dev/null" := by decide
  have hrest : 34 ∉ lit " 2>/dev/null" ∧ 92 ∉ lit " 2>/dev/null" ∧ 39 ∉ lit " 2>/dev/null" := by
    decide
  have hopen : ∀ {m : Lexer}, m.mode = .double → (m.run (lit " 2>/dev/null")).finish = none := by
    intro m hm
    have hdouble := run_double hrest.1 hrest.2.1 m hm
    simp [Lexer.finish, hdouble]
  rw [hlit]
  change ((l.step 39).run _).finish = none ∨ Misses ts w t ((l.step 39).run _)
  obtain ⟨mode, v, rfl, hlag, hmode⟩ := h
  rcases hmode with rfl | rfl | rfl | ⟨rfl, hlast⟩
  · left
    have hstep : Lexer.step ⟨.bare, w ++ v, ts⟩ 39 =
        ⟨.single, w ++ v ++ [Piece.mark 39], ts⟩ := by
      simp [Lexer.step, Lexer.stepBare, Lexer.put, Shell.isBlank, isOperator]
    rw [hstep, run_single hrest.2.2]
    rfl
  · exact .inl (hopen rfl)
  · exact .inl (hopen rfl)
  · right
    have hblank : lit " 2>/dev/null" = 32 :: lit "2>/dev/null" := by decide
    have hstep : Lexer.step (Lexer.step ⟨.escaped false, w ++ v, ts⟩ 39) 32 =
        ⟨.bare, [], ts ++ [.word (w ++ (v ++ [Piece.mark 92, Piece.quoted 39]))]⟩ := by
      simp [Lexer.step, Lexer.stepEscaped, Lexer.stepBare, Lexer.put, Lexer.cut, Shell.isBlank]
    have hrun : ∀ (m : Lexer) (s : Bytes), m.run (32 :: s) = (m.step 32).run s := fun _ _ => rfl
    rw [hblank, hrun, hstep]
    refine Misses.run ⟨_, [], rfl, ?_⟩ _
    intro hfield
    rw [fieldOf_append] at hfield
    obtain ⟨out, -, hout⟩ := bind_eq_some_iff.mp hfield
    have hout : out ++ [39] = t := some.inj hout
    rw [← hout, List.getLast?_concat] at hlast
    exact absurd (some.inj hlast) (by decide)

end Trails

/-- With a quote in it, a command is not what the shell is given. -/
theorem command_xwrapped_ne (timeoutSec : Int32) (h : 39 ∈ cmd) (c : Simple)
    (hrun : command (xwrapped timeoutSec cmd) = some c) :
    c.args ≠ wrappedArgs "bash" timeoutSec cmd := by
  obtain ⟨a, t, rfl, ha⟩ := eq_append_cons_of_mem h
  generalize hws : [lit "timeout", int32 timeoutSec, lit "bash", lit "-c"] = ws
  generalize hw : Piece.mark 39 :: a.map Piece.quoted ++
    [Piece.mark 39, Piece.mark 92, Piece.quoted 39] = w
  have hmark : Piece.mark 39 ∈ w := by simp [← hw]
  have hfield : fieldOf w = some (a ++ [39]) := by
    rw [← hw, cons_append, fieldOf, fieldOf_append, fieldOf_quoted]
    rfl
  -- up to the first quote the command is read as it should be
  have hfront : Lexer.start.run (wrapperHead "bash" timeoutSec ++ (a ++ [39, 92, 39])) =
      ⟨.bare, w, ws.map plainWord⟩ := by
    rw [run_append, run_wrapperHead isPlainWord_bash, hws, run_append,
      run_single ha, ← hw]
    simp [Lexer.run, Lexer.step, Lexer.stepSingle, Lexer.stepBare, Lexer.stepEscaped, Lexer.put,
      Shell.isBlank, isOperator]
  have hstart : Trails (ws.map plainWord) w [] ⟨.bare, w, ws.map plainWord⟩ := by
    refine ⟨.bare, [], by rw [append_nil], ?_, .inl rfl⟩
    rintro out ⟨⟩
    exact .inr ⟨rfl, .inl ⟨rfl, Nat.le_refl 0⟩⟩
  have htext : xwrapped timeoutSec (a ++ 39 :: t) =
      wrapperHead "bash" timeoutSec ++ (a ++ [39, 92, 39]) ++
        (xquote t ++ lit "' 2>/dev/null") := by
    rw [xwrapped, xquote_append, xquote_eq_self ha, xquote_cons, if_pos rfl]
    simp only [append_assoc]
  obtain ⟨tokens, hsplit, hsimple⟩ := command_eq_some.mp hrun
  rw [htext, split, run_append, hfront, run_append] at hsplit
  have hend : Misses (ws.map plainWord) w t
      ((Lexer.run ⟨.bare, w, ws.map plainWord⟩ (xquote t)).run (lit "' 2>/dev/null")) := by
    rcases hstart.run hmark t with htrails | hmisses
    · rcases htrails.close with hnone | hmisses
      · rw [hnone] at hsplit
        cases hsplit
      · exact hmisses
    · exact hmisses.run _
  generalize (Lexer.run ⟨.bare, w, ws.map plainWord⟩ (xquote t)).run (lit "' 2>/dev/null") = l
    at hsplit hend
  obtain ⟨v, more, htokens, hmiss⟩ := hend
  have hcut : tokens = l.cut.tokens := by
    unfold Lexer.finish at hsplit
    split at hsplit
    · exact (some.inj hsplit).symm
    · exact (some.inj hsplit).symm
    · cases hsplit
  rw [hcut, Lexer.cut, htokens, append_assoc, cons_append] at hsimple
  obtain ⟨arg, rest, harg, hargs, -⟩ := args_of_word hsimple
  intro hsame
  rw [hsame, wrappedArgs, ← hws] at hargs
  have harg' : arg = a ++ 39 :: t := by
    have hdrop := congrArg (List.drop 4) hargs
    exact (List.cons.inj hdrop).1.symm
  rw [fieldOf_append, hfield, bind_some] at harg
  obtain ⟨out, hout, hsum⟩ := map_eq_some_iff.mp harg
  refine hmiss (hout.trans (congrArg some ?_))
  rw [harg'] at hsum
  have hcons : a ++ [39] ++ out = a ++ [39] ++ t := by simpa using hsum
  exact append_cancel_left hcons

/-- Of the commands that fit, exactly those without a quote are passed on as they are. -/
theorem xrun_cmd_faithful_iff (timeoutSec : Int32) (cmd : Bytes)
    (hfits : (xwrapped timeoutSec cmd).length < 8192) :
    (∃ line, xrunLine timeoutSec cmd = .ok line ∧ command line =
      some ⟨wrappedArgs "bash" timeoutSec cmd, [errorsTo (lit "/dev/null")]⟩) ↔ 39 ∉ cmd := by
  constructor
  · rintro ⟨line, hline, hcommand⟩ hquote
    unfold xrunLine at hline
    split at hline
    · rw [snprintf_eq_self hfits] at hline
      rw [← Except.ok.inj hline] at hcommand
      exact command_xwrapped_ne timeoutSec hquote _ hcommand rfl
    · cases hline
  · intro hquote
    have hsame := xquote_eq_self hquote
    refine ⟨xwrapped timeoutSec cmd, ?_, ?_⟩
    · rw [xrunLine, hsame, if_pos (by omega), snprintf_eq_self hfits]
    · rw [xwrapped, hsame, closing_eq, ← append_assoc]
      exact command_wrapped isPlainWord_bash timeoutSec (fun v ts => run_single hquote v ts)
        (fieldOf_quoted cmd) isPlainWord_devNull

theorem getent_is_run : (xwrapped 10 (lit "getent passwd")).length < 8192 ∧
    ((∃ line, xrunLine 10 (lit "getent passwd") = .ok line ∧ command line =
      some ⟨wrappedArgs "bash" 10 (lit "getent passwd"), [errorsTo (lit "/dev/null")]⟩) ↔
        39 ∉ lit "getent passwd") := by
  have hfits : (xwrapped 10 (lit "getent passwd")).length < 8192 := by decide
  exact ⟨hfits, xrun_cmd_faithful_iff 10 (lit "getent passwd") hfits⟩

/-- A command with two quotes, and one that overruns the buffer. -/
theorem xrun_cmd_breaks_quotes : let cmd := lit "echo 'a'"
    let quotes := List.replicate 128 (39 : UInt8)
    (xwrapped 15 cmd).length < 8192 ∧ (xrunLine 15 cmd).toOption.bind split = none ∧
      (xwrapped 15 quotes).length < 8192 ∧ xrunLine 15 quotes = .error .outOfBounds := by
  refine ⟨by decide, by decide, by decide +kernel, by decide +kernel⟩

end CtForge.Agent
