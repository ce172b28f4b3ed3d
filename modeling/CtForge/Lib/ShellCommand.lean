import CtForge.Lib.Shell

/-!
# Simple commands

What the shell makes of the tokens of a line: quote removal turns a word into an argument,
and a line of words and output redirections is one simple command.

* **`run_quoteSingle`**, **`fieldOf_quotedPieces`**: a text between single quotes in which
  each quote is written `'\''` is read as a part of one word, and stands for that text.
-/

namespace CtForge.Shell

open CLang List Option

/-! ## Quote removal -/

def fieldOf : List Piece → Option Bytes
  | [] => some []
  | .mark _ :: w => fieldOf w
  | .plain c :: w | .quoted c :: w => (fieldOf w).map (c :: ·)
  | .active _ :: _ => none

/-- Quote removal goes piece by piece. -/
theorem fieldOf_append (v w : List Piece) :
    fieldOf (v ++ w) = (fieldOf v).bind fun a => (fieldOf w).map (a ++ ·) := by
  induction v with
  | nil =>
    cases h : fieldOf w <;> simp [fieldOf, h]
  | cons p v ih =>
    cases p with
    | mark c => simpa [fieldOf] using ih
    | active c => rfl
    | plain c | quoted c =>
      rw [cons_append, fieldOf, ih, fieldOf]
      cases fieldOf v <;> cases fieldOf w <;> simp

@[simp] theorem fieldOf_plain (w : Bytes) : fieldOf (w.map Piece.plain) = some w := by
  induction w with
  | nil => rfl
  | cons c w ih => simp [fieldOf, ih]

@[simp] theorem fieldOf_quoted (w : Bytes) : fieldOf (w.map Piece.quoted) = some w := by
  induction w with
  | nil => rfl
  | cons c w ih => simp [fieldOf, ih]

/-! ## Commands -/

/-- `fd>target`, or `fd>&target`. -/
structure Redirect where
  fd : Bytes
  op : Bytes
  target : Bytes
  deriving DecidableEq, Repr

structure Simple where
  args : List Bytes
  redirects : List Redirect
  deriving DecidableEq, Repr

def Simple.pushArg (c : Simple) (arg : Bytes) : Simple := { c with args := arg :: c.args }

def Simple.pushRedirect (c : Simple) (r : Redirect) : Simple :=
  { c with redirects := r :: c.redirects }

/-- The tokens as one simple command with output redirections; none for any other line. -/
def simple : List Token → Option Simple
  | [] => some ⟨[], []⟩
  | .word w :: ts => (fieldOf w).bind fun arg => (simple ts).map (·.pushArg arg)
  | .ioNumber n :: .op 62 :: .word w :: ts =>
    (fieldOf n).bind fun fd => (fieldOf w).bind fun target =>
      (simple ts).map (·.pushRedirect ⟨fd, [62], target⟩)
  | .ioNumber n :: .op 62 :: .op 38 :: .word w :: ts =>
    (fieldOf n).bind fun fd => (fieldOf w).bind fun target =>
      (simple ts).map (·.pushRedirect ⟨fd, [62, 38], target⟩)
  | _ => none

def command (s : Bytes) : Option Simple := (split s).bind simple

/-- A line that is a command is one whose words are its arguments. -/
theorem command_eq_some {s : Bytes} {c : Simple} :
    command s = some c ↔ ∃ ts, split s = some ts ∧ simple ts = some c :=
  bind_eq_some_iff

theorem simple_word (w : List Piece) (ts : List Token) :
    simple (.word w :: ts) = (fieldOf w).bind fun arg => (simple ts).map (·.pushArg arg) := by
  rw [simple]

@[simp] theorem simple_plainWord (w : Bytes) (ts : List Token) :
    simple (plainWord w :: ts) = (simple ts).map (·.pushArg w) := by
  rw [plainWord, simple_word, fieldOf_plain, bind_some]

theorem args_of_word {ws : List Bytes} {w : List Piece} {ts : List Token} {c : Simple}
    (h : simple (ws.map plainWord ++ .word w :: ts) = some c) :
    ∃ arg more, fieldOf w = some arg ∧ c.args = ws ++ arg :: more.args ∧ simple ts = some more := by
  induction ws generalizing c with
  | nil =>
    rw [map_nil, nil_append, simple_word] at h
    obtain ⟨arg, harg, h⟩ := bind_eq_some_iff.mp h
    obtain ⟨more, hmore, rfl⟩ := map_eq_some_iff.mp h
    exact ⟨arg, more, harg, rfl, hmore⟩
  | cons v ws ih =>
    rw [map_cons, cons_append, simple_plainWord] at h
    obtain ⟨rest, hrest, rfl⟩ := map_eq_some_iff.mp h
    obtain ⟨arg, more, harg, hargs, hmore⟩ := ih hrest
    exact ⟨arg, more, harg, congrArg (v :: ·) hargs, hmore⟩

/-! ## Quotes in a text between single quotes -/

/-- Each quote is written `'\''`. -/
def quoteSingle (w : Bytes) : Bytes := w.flatMap fun c => if c = 39 then [39, 92, 39, 39] else [c]

def quotedPieces (w : Bytes) : List Piece := w.flatMap fun c =>
  if c = 39 then [.mark 39, .mark 92, .quoted 39, .mark 39] else [.quoted c]

theorem quoteSingle_cons (c : UInt8) (w : Bytes) :
    quoteSingle (c :: w) = (if c = 39 then [39, 92, 39, 39] else [c]) ++ quoteSingle w :=
  flatMap_cons

/-- A quoted text is read piece by piece, and the quotation is open again behind it. -/
theorem run_quoteSingle (w : Bytes) (v : List Piece) (tokens : List Token) :
    Lexer.run ⟨.single, v, tokens⟩ (quoteSingle w) =
      ⟨.single, v ++ quotedPieces w, tokens⟩ := by
  induction w generalizing v with
  | nil => simp [quoteSingle, quotedPieces, Lexer.run]
  | cons c w ih =>
    rw [quoteSingle_cons, Lexer.run_append]
    by_cases hc : c = 39
    · have hstep : Lexer.run ⟨.single, v, tokens⟩ [39, 92, 39, 39] =
          ⟨.single, v ++ [Piece.mark 39, Piece.mark 92, Piece.quoted 39, Piece.mark 39],
            tokens⟩ := by
        simp [Lexer.run, Lexer.step, Lexer.stepSingle, Lexer.stepBare, Lexer.stepEscaped,
          Lexer.put, isBlank, isOperator]
      rw [if_pos hc, hstep, ih]
      simp [quotedPieces, hc]
    · have hstep : Lexer.run ⟨.single, v, tokens⟩ [c] =
          ⟨.single, v ++ [Piece.quoted c], tokens⟩ := by
        simp [Lexer.run, Lexer.step, Lexer.stepSingle, Lexer.put, hc]
      rw [if_neg hc, hstep, ih]
      simp [quotedPieces, hc]

/-- A quoted text stands for itself. -/
@[simp] theorem fieldOf_quotedPieces (w : Bytes) : fieldOf (quotedPieces w) = some w := by
  induction w with
  | nil => rfl
  | cons c w ih =>
    have hw : quotedPieces (c :: w) =
        (if c = 39 then [.mark 39, .mark 92, .quoted 39, .mark 39] else [.quoted c]) ++
          quotedPieces w := flatMap_cons
    rw [hw, fieldOf_append, ih]
    by_cases hc : c = 39
    · simp [hc, fieldOf]
    · simp [hc, fieldOf]

theorem quoteSingle_length_le (w : Bytes) : (quoteSingle w).length ≤ 4 * w.length := by
  induction w with
  | nil => simp [quoteSingle]
  | cons c w ih =>
    rw [quoteSingle_cons, length_append, length_cons]
    split
    · simp only [length_cons, length_nil]
      omega
    · simp only [length_singleton]
      omega

end CtForge.Shell
