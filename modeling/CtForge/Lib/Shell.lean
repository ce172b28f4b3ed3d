import CtForge.Lib.CText

/-!
# How a POSIX shell splits a command line

Token recognition and quoting of the shell command language: blanks and operators
end a word, the three ways of quoting take bytes literally, and an unquoted (or
double-quoted) byte can start an expansion. A word is kept byte by byte, each with
how the shell takes it; the marks of a quotation stay in the word, for quote removal
comes later. Operators are kept one byte each.

* **`Reads`**: a piece of text that begins and ends between two words, and its
  tokens; such pieces compose (`Reads.append`).
* **`reads_plain`**, **`reads_quoted`**: a plain word, and a word in single quotes.
-/

namespace CtForge.Shell

open CLang List

/-- How the shell takes a byte of a word: as it stands, as a mark that quotes, as
quoted, or as the start of an expansion. -/
inductive Piece where
  | plain (c : UInt8)
  | mark (c : UInt8)
  | quoted (c : UInt8)
  | active (c : UInt8)
  deriving DecidableEq, Repr

inductive Token where
  | word (w : List Piece)
  | ioNumber (w : List Piece)
  | op (c : UInt8)
  deriving DecidableEq, Repr

inductive Mode where
  | bare
  | comment
  | single
  | double
  | escaped (inDouble : Bool)
  deriving DecidableEq, Repr

structure Lexer where
  mode : Mode
  word : List Piece
  tokens : List Token
  deriving DecidableEq, Repr

def isBlank (c : UInt8) : Bool := c == 32 || c == 9

/-- Newline and `& ( ) ; < > |`. -/
def isOperator (c : UInt8) : Bool := [10, 38, 40, 41, 59, 60, 62, 124].elem c

def isQuoting (c : UInt8) : Bool := [34, 39, 92].elem c

/-- The dollar sign, the backquote and `* ? [`. -/
def isExpanding (c : UInt8) : Bool := [36, 96, 42, 63, 91].elem c

/-- `#` and `~`, which are special where a word begins. -/
def isLeading (c : UInt8) : Bool := [35, 126].elem c

def isPlain (c : UInt8) : Bool :=
  !isBlank c && !isOperator c && !isQuoting c && !isExpanding c

variable {c : UInt8}

theorem isQuoting_eq_false : isQuoting c = false ↔ c ≠ 34 ∧ c ≠ 39 ∧ c ≠ 92 := by
  simp [isQuoting]

theorem isLeading_eq_false : isLeading c = false ↔ c ≠ 35 ∧ c ≠ 126 := by
  simp [isLeading]

namespace Lexer

def start : Lexer := ⟨.bare, [], []⟩

def put (l : Lexer) (p : Piece) : Lexer := { l with word := l.word ++ [p] }

def cut (l : Lexer) : Lexer :=
  { l with word := [], tokens := l.tokens ++ if l.word.isEmpty then [] else [.word l.word] }

def isNumber (w : List Piece) : Bool :=
  !w.isEmpty && w.all fun
    | .plain c => isDigit c
    | _ => false

def operator (l : Lexer) (c : UInt8) : Lexer :=
  let l := if (c == 60 || c == 62) && isNumber l.word then
      { l with word := [], tokens := l.tokens ++ [.ioNumber l.word] }
    else l.cut
  { l with tokens := l.tokens ++ [.op c] }

def stepBare (l : Lexer) (c : UInt8) : Lexer :=
  if isBlank c then l.cut
  else if isOperator c then l.operator c
  else if c == 35 && l.word.isEmpty then { l with mode := .comment }
  else if c == 39 then { l.put (.mark c) with mode := .single }
  else if c == 34 then { l.put (.mark c) with mode := .double }
  else if c == 92 then { l with mode := .escaped false }
  else if isExpanding c || (c == 126 && l.word.isEmpty) then l.put (.active c)
  else l.put (.plain c)

def stepSingle (l : Lexer) (c : UInt8) : Lexer :=
  if c == 39 then { l.put (.mark c) with mode := .bare } else l.put (.quoted c)

def stepDouble (l : Lexer) (c : UInt8) : Lexer :=
  if c == 34 then { l.put (.mark c) with mode := .bare }
  else if c == 92 then { l with mode := .escaped true }
  else if c == 36 || c == 96 then l.put (.active c)
  else l.put (.quoted c)

/-- The byte after a backslash. A newline is dropped with the backslash; in double
quotes the backslash stands for itself before a byte that it does not quote. -/
def stepEscaped (l : Lexer) (inDouble : Bool) (c : UInt8) : Lexer :=
  let back : Lexer := { l with mode := if inDouble then .double else .bare }
  if c == 10 then back
  else if inDouble && !([34, 36, 92, 96].elem c) then (back.put (.quoted 92)).put (.quoted c)
  else (back.put (.mark 92)).put (.quoted c)

def stepComment (l : Lexer) (c : UInt8) : Lexer :=
  if c == 10 then { l.operator c with mode := .bare } else l

def step (l : Lexer) (c : UInt8) : Lexer :=
  match l.mode with
  | .bare => l.stepBare c
  | .comment => l.stepComment c
  | .single => l.stepSingle c
  | .double => l.stepDouble c
  | .escaped inDouble => l.stepEscaped inDouble c

def run (l : Lexer) (s : Bytes) : Lexer := s.foldl step l

theorem run_append (l : Lexer) (s t : Bytes) : l.run (s ++ t) = (l.run s).run t :=
  foldl_append

/-- The tokens when the text ends here; none inside a quotation. -/
def finish (l : Lexer) : Option (List Token) :=
  match l.mode with
  | .bare | .comment => some l.cut.tokens
  | _ => none

end Lexer

def split (s : Bytes) : Option (List Token) := (Lexer.start.run s).finish

/-! ## Pieces of text and their tokens -/

/-- Read between two words, the text gives the tokens and ends between two words. -/
def Reads (s : Bytes) (ts : List Token) : Prop :=
  ∀ before, Lexer.run ⟨.bare, [], before⟩ s = ⟨.bare, [], before ++ ts⟩

theorem Reads.append {s t : Bytes} {ts us : List Token} (hs : Reads s ts) (ht : Reads t us) :
    Reads (s ++ t) (ts ++ us) := by
  intro before
  rw [Lexer.run_append, hs before, ht, append_assoc]

variable {s : Bytes} {ts : List Token}

theorem Reads.split (h : Reads s ts) : split s = some ts := by
  simp [Shell.split, Lexer.start, h [], Lexer.finish, Lexer.cut]

namespace Lexer

def after (l : Lexer) (before : List Token) : Lexer := { l with tokens := before ++ l.tokens }

@[simp] theorem after_word (l : Lexer) (before : List Token) : (l.after before).word = l.word := rfl

theorem after_cut (l : Lexer) (before : List Token) :
    (l.after before).cut = l.cut.after before := by
  simp [cut, after]

theorem after_operator (l : Lexer) (before : List Token) (c : UInt8) :
    (l.after before).operator c = (l.operator c).after before := by
  simp only [operator, after_word, after_cut]
  split
  · simp [after]
  · simp [after]

/-- What was read before does not change what a byte does. -/
theorem after_step (l : Lexer) (before : List Token) (c : UInt8) :
    (l.after before).step c = (l.step c).after before := by
  obtain ⟨mode, word, tokens⟩ := l
  cases mode with
  | bare =>
    change stepBare _ c = (stepBare _ c).after before
    simp only [stepBare, after_word, after_cut, after_operator, apply_ite (after · before)]
    rfl
  | comment =>
    change stepComment _ c = (stepComment _ c).after before
    simp only [stepComment, after_operator, apply_ite (after · before)]
    rfl
  | single =>
    change stepSingle _ c = (stepSingle _ c).after before
    simp only [stepSingle, apply_ite (after · before)]
    rfl
  | double =>
    change stepDouble _ c = (stepDouble _ c).after before
    simp only [stepDouble, apply_ite (after · before)]
    rfl
  | escaped inDouble =>
    change stepEscaped _ inDouble c = (stepEscaped _ inDouble c).after before
    simp only [stepEscaped, apply_ite (after · before)]
    rfl

theorem after_run (l : Lexer) (before : List Token) (s : Bytes) :
    (l.after before).run s = (l.run s).after before := by
  induction s generalizing l with
  | nil => rfl
  | cons c s ih =>
    have hstep := after_step l before c
    change ((l.after before).step c).run s = _
    rw [hstep, ih]
    rfl

end Lexer

theorem reads_of_run (h : Lexer.start.run s = ⟨.bare, [], ts⟩) : Reads s ts := by
  intro before
  have hafter := Lexer.after_run Lexer.start before s
  rw [h] at hafter
  simpa [Lexer.after, Lexer.start] using hafter

/-! ## Plain words and words in single quotes -/

def isPlainWord (w : Bytes) : Bool := w.head?.any (fun c => !isLeading c) && w.all isPlain

variable {w : Bytes}

theorem isPlainWord_cons : isPlainWord (c :: w) = true ↔
    isLeading c = false ∧ isPlain c = true ∧ ∀ d ∈ w, isPlain d = true := by
  simp [isPlainWord]

def plainWord (w : Bytes) : Token := .word (w.map Piece.plain)

def quotedWord (w : Bytes) : Token := .word (.mark 39 :: w.map Piece.quoted ++ [.mark 39])

namespace Lexer

theorem stepBare_plain (h : isPlain c = true) (word : List Piece)
    (hfirst : word = [] → isLeading c = false) (tokens : List Token) :
    stepBare ⟨.bare, word, tokens⟩ c = ⟨.bare, word ++ [Piece.plain c], tokens⟩ := by
  simp only [isPlain, Bool.and_eq_true, Bool.not_eq_true'] at h
  obtain ⟨⟨⟨hblank, hop⟩, hquote⟩, hexp⟩ := h
  obtain ⟨hdouble, hsingle, hback⟩ := isQuoting_eq_false.mp hquote
  by_cases hword : word = []
  · obtain ⟨hhash, htilde⟩ := isLeading_eq_false.mp (hfirst hword)
    simp [stepBare, hblank, hop, hexp, hdouble, hsingle, hback, hhash, htilde, put]
  · simp [stepBare, hblank, hop, hexp, hdouble, hsingle, hback, hword, put]

theorem run_plain {w : Bytes} (h : ∀ c ∈ w, isPlain c = true) {v : List Piece} (hv : v ≠ [])
    (tokens : List Token) : run ⟨.bare, v, tokens⟩ w = ⟨.bare, v ++ w.map Piece.plain, tokens⟩ := by
  induction w generalizing v with
  | nil => simp [run]
  | cons c w ih =>
    have hc := stepBare_plain (h c mem_cons_self) v (fun hnil => absurd hnil hv) tokens
    have hw : ∀ d ∈ w, isPlain d = true := fun d hd => h d (mem_cons_of_mem c hd)
    change run (stepBare _ c) w = _
    rw [hc, ih hw (by simp)]
    simp

theorem run_plainWord {w : Bytes} (h : isPlainWord w = true) (tokens : List Token) :
    run ⟨.bare, [], tokens⟩ w = ⟨.bare, w.map Piece.plain, tokens⟩ := by
  cases w with
  | nil => cases h
  | cons c w =>
    obtain ⟨hlead, hc, hw⟩ := isPlainWord_cons.mp h
    have hstep := stepBare_plain hc [] (fun _ => hlead) tokens
    change run (stepBare _ c) w = _
    rw [hstep]
    exact run_plain hw (by simp) tokens

theorem run_single {w : Bytes} (h : 39 ∉ w) (v : List Piece) (tokens : List Token) :
    run ⟨.single, v, tokens⟩ w = ⟨.single, v ++ w.map Piece.quoted, tokens⟩ := by
  induction w generalizing v with
  | nil => simp [run]
  | cons c w ih =>
    obtain ⟨hc, hw⟩ : 39 ≠ c ∧ 39 ∉ w := by simpa using h
    have hstep : stepSingle ⟨.single, v, tokens⟩ c = ⟨.single, v ++ [Piece.quoted c], tokens⟩ := by
      simp [stepSingle, Ne.symm hc, put]
    change run (stepSingle _ c) w = _
    rw [hstep, ih hw]
    simp

end Lexer

/-- A plain word is read as itself. -/
theorem reads_plain (h : isPlainWord w = true) : Reads (w ++ [32]) [plainWord w] := by
  intro before
  rw [Lexer.run_append, Lexer.run_plainWord h]
  have hne : w ≠ [] := by
    rintro rfl
    cases h
  change Lexer.cut ⟨.bare, _, before⟩ = _
  simp [Lexer.cut, hne, plainWord]

/-- A text in single quotes is read as one word. -/
theorem reads_quoted (h : 39 ∉ w) : Reads (39 :: w ++ [39, 32]) [quotedWord w] := by
  intro before
  have hopen : Lexer.run ⟨.bare, [], before⟩ [39] = ⟨.single, [.mark 39], before⟩ := rfl
  have hsplit : 39 :: w ++ [39, 32] = [39] ++ (w ++ [39, 32]) := rfl
  rw [hsplit, Lexer.run_append, hopen, Lexer.run_append, Lexer.run_single h]
  rfl

theorem Reads.split_last (h : Reads s ts) (hw : isPlainWord w = true) :
    Shell.split (s ++ w) = some (ts ++ [plainWord w]) := by
  have hend := reads_plain hw ts
  rw [Lexer.run_append, Lexer.run_plainWord hw] at hend
  have hcut : (Lexer.cut ⟨.bare, w.map Piece.plain, ts⟩).tokens = ts ++ [plainWord w] :=
    congrArg Lexer.tokens hend
  rw [Shell.split, Lexer.run_append]
  have hs := h []
  rw [nil_append] at hs
  rw [Lexer.start, hs, Lexer.run_plainWord hw]
  exact congrArg some hcut

/-! ## What the shell takes as it stands -/

/-- The bytes that the shell took as they stand are plain, and a word does not begin
with one that is special there. -/
def Sound (w : List Piece) : Prop :=
  (∀ c, .plain c ∈ w → isPlain c = true) ∧ ∀ c, w.head? = some (.plain c) → isLeading c = false

theorem sound_nil : Sound [] := by
  simp [Sound]

theorem Sound.append {w : List Piece} (h : Sound w) {p : Piece}
    (hp : ∀ c, p = .plain c → isPlain c = true ∧ (w = [] → isLeading c = false)) :
    Sound (w ++ [p]) := by
  refine ⟨?_, ?_⟩
  · intro c hc
    rcases mem_append.mp hc with hc | hc
    · exact h.1 c hc
    · exact (hp c (mem_singleton.mp hc).symm).1
  · intro c hc
    cases w with
    | nil => exact (hp c (by simpa using hc)).2 rfl
    | cons q w => exact h.2 c (by simpa using hc)

namespace Lexer

structure Sound (l : Lexer) : Prop where
  word : Shell.Sound l.word
  tokens : ∀ w, .word w ∈ l.tokens → Shell.Sound w

theorem sound_start : Sound start where
  word := sound_nil
  tokens := by simp [start]

variable {l : Lexer}

theorem Sound.setMode (h : l.Sound) (mode : Mode) : Sound { l with mode := mode } :=
  ⟨h.word, h.tokens⟩

theorem Sound.put (h : l.Sound) {p : Piece}
    (hp : ∀ c, p = .plain c → isPlain c = true ∧ (l.word = [] → isLeading c = false)) :
    (l.put p).Sound where
  word := h.word.append hp
  tokens := h.tokens

theorem Sound.mark (h : l.Sound) (c : UInt8) : (l.put (.mark c)).Sound :=
  h.put fun _ hc => Piece.noConfusion hc

theorem Sound.quoted (h : l.Sound) (c : UInt8) : (l.put (.quoted c)).Sound :=
  h.put fun _ hc => Piece.noConfusion hc

theorem Sound.active (h : l.Sound) (c : UInt8) : (l.put (.active c)).Sound :=
  h.put fun _ hc => Piece.noConfusion hc

theorem Sound.cut (h : l.Sound) : l.cut.Sound where
  word := sound_nil
  tokens := by
    intro w hw
    rcases mem_append.mp hw with hw | hw
    · exact h.tokens w hw
    · split at hw
      · cases hw
      · cases mem_singleton.mp hw
        exact h.word

/-- An operator ends a word and keeps the tokens sound. -/
theorem Sound.operator (h : l.Sound) (c : UInt8) : (l.operator c).Sound := by
  have hop : ∀ ts, (∀ w, Token.word w ∈ ts → Shell.Sound w) →
      ∀ w, Token.word w ∈ ts ++ [Token.op c] → Shell.Sound w := by
    intro ts hts w hw
    exact hts w (by simpa using hw)
  unfold Lexer.operator
  dsimp only
  split
  · refine ⟨sound_nil, hop _ ?_⟩
    intro w hw
    exact h.tokens w (by simpa using hw)
  · exact ⟨h.cut.word, hop _ h.cut.tokens⟩

theorem Sound.stepBare (h : l.Sound) (c : UInt8) : (l.stepBare c).Sound := by
  unfold Lexer.stepBare
  split_ifs with hblank hop hhash hsingle hdouble hback hexp
  · exact h.cut
  · exact h.operator c
  · exact h.setMode .comment
  · exact (h.mark c).setMode .single
  · exact (h.mark c).setMode .double
  · exact h.setMode (.escaped false)
  · exact h.active c
  · simp only [Bool.and_eq_true, Bool.or_eq_true, beq_iff_eq, not_and, not_or,
      Bool.not_eq_true] at hblank hop hhash hsingle hdouble hback hexp
    refine h.put ?_
    rintro _ ⟨rfl⟩
    have hquote := isQuoting_eq_false.mpr ⟨hdouble, hsingle, hback⟩
    refine ⟨by simp [isPlain, hblank, hop, hquote, hexp.1], ?_⟩
    intro hword
    rw [hword] at hhash hexp
    exact isLeading_eq_false.mpr
      ⟨fun hc => Bool.noConfusion (hhash hc), fun hc => Bool.noConfusion (hexp.2 hc)⟩

theorem Sound.stepSingle (h : l.Sound) (c : UInt8) : (l.stepSingle c).Sound := by
  unfold Lexer.stepSingle
  split
  · exact (h.mark c).setMode .bare
  · exact h.quoted c

theorem Sound.stepDouble (h : l.Sound) (c : UInt8) : (l.stepDouble c).Sound := by
  unfold Lexer.stepDouble
  split_ifs
  · exact (h.mark c).setMode .bare
  · exact h.setMode (.escaped true)
  · exact h.active c
  · exact h.quoted c

theorem Sound.stepEscaped (h : l.Sound) (inDouble : Bool) (c : UInt8) :
    (l.stepEscaped inDouble c).Sound := by
  have hback := h.setMode (if inDouble then .double else .bare)
  unfold Lexer.stepEscaped
  dsimp only
  by_cases hnewline : (c == 10) = true
  · rw [if_pos hnewline]
    exact hback
  · rw [if_neg hnewline]
    split
    · exact (hback.quoted 92).quoted c
    · exact (hback.mark 92).quoted c

/-- One byte keeps the words sound: a plain piece is a plain byte. -/
theorem Sound.step (h : l.Sound) (c : UInt8) : (l.step c).Sound := by
  unfold Lexer.step
  split
  · exact h.stepBare c
  · unfold stepComment
    split
    · exact (h.operator c).setMode .bare
    · exact h
  · exact h.stepSingle c
  · exact h.stepDouble c
  · exact h.stepEscaped _ c

theorem Sound.run (h : l.Sound) (s : Bytes) : (l.run s).Sound := by
  induction s generalizing l with
  | nil => exact h
  | cons c s ih => exact ih (h.step c)

end Lexer

/-- A byte of a word that the shell takes as it stands is a plain one, in every command line. -/
theorem split_words (h : split s = some ts) {w : List Piece} (hw : .word w ∈ ts) : Sound w := by
  have hrun := Lexer.sound_start.run s
  unfold split Lexer.finish at h
  split at h
  · cases h
    exact hrun.cut.tokens w hw
  · cases h
    exact hrun.cut.tokens w hw
  · cases h

theorem isPlainWord_of_sound (hne : w ≠ []) (h : Sound (w.map Piece.plain)) :
    isPlainWord w = true := by
  obtain ⟨c, w, rfl⟩ := exists_cons_of_ne_nil hne
  refine isPlainWord_cons.mpr ⟨h.2 c rfl, h.1 c (by simp), ?_⟩
  intro d hd
  exact h.1 d (mem_map_of_mem (mem_cons_of_mem c hd))

end CtForge.Shell
