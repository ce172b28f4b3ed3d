import CtForge.Lib.JsonText
import CtForge.Agent.Util

/-!
# How the agent writes JSON (`xesc`, `jesc`, `xb_put`, `snprintf`)

Every reply is pasted together: strings go through one of several escapers or through
none, a record is formatted into a buffer of fixed size before it is appended, and some
texts are written piece by piece into a buffer whose end is not checked.
-/

namespace CtForge.Agent

open CLang Json List

/-! ## Escapers -/

/-- The escapers have quotes and backslashes in common; `control` is what becomes of a
control character. -/
def escapeByte (control : UInt8 → Bytes) (c : UInt8) : Bytes :=
  if c == 34 || c == 92 then [92, c] else if c < 32 then control c else [c]

def escapeWith (control : UInt8 → Bytes) (s : Bytes) : Bytes := s.flatMap (escapeByte control)

/-- `xesc` of `sysops.c`. -/
def xesc : Bytes → Bytes := escapeWith fun c =>
  if c == 10 then [92, 110] else if c == 9 then [92, 116] else if c == 13 then [] else [32]

/-- `jesc` of `sysadmin.c`: the case of `\r` has no replacement, so the byte is copied. -/
def jesc : Bytes → Bytes := escapeWith fun c => if c == 13 then [13] else [32]

/-- What an escaper gives may stand in a string if what it makes of the control characters may.
-/
theorem body_escapeWith {control : UInt8 → Bytes} {s : Bytes}
    (h : ∀ c ∈ s, c < 32 → Body (control c)) : Body (escapeWith control s) := by
  refine Body.flatMap fun c hc => ?_
  unfold escapeByte
  split
  · rename_i hquote
    rcases Bool.or_eq_true_iff.mp hquote with hquote | hquote
    · rw [beq_iff_eq.mp hquote]
      decide
    · rw [beq_iff_eq.mp hquote]
      decide
  · split
    · exact h c hc ‹_›
    · rename_i hquote hlow
      refine body_singleton.mpr ?_
      simp only [Bool.or_eq_true, beq_iff_eq, not_or] at hquote
      simp only [isPlain, Bool.and_eq_true, decide_eq_true_eq, bne_iff_ne]
      exact ⟨⟨UInt8.not_lt.mp hlow, hquote.1⟩, hquote.2⟩

theorem body_xesc (s : Bytes) : Body (xesc s) := by
  refine body_escapeWith fun c _ _ => ?_
  split_ifs <;> decide

/-! ## Numbers -/

def int32 (n : Int32) : Bytes := decimalInt n.toInt

def int64 (n : Int64) : Bytes := decimalInt n.toInt

theorem decimalInt_length {n : Int} {k : Nat} (hk : 0 < k) (h : n.natAbs < 10 ^ k) :
    (decimalInt n).length ≤ k + 1 := by
  have hdec := decimal_length hk h
  unfold decimalInt
  split
  · simpa using hdec
  · omega

theorem int32_length (n : Int32) : (int32 n).length ≤ 11 := by
  have hlo := n.le_toInt
  have hhi := n.toInt_lt
  exact decimalInt_length (k := 10) (by omega) (by omega)

theorem int64_length (n : Int64) : (int64 n).length ≤ 20 := by
  have hlo := n.le_toInt
  have hhi := n.toInt_lt
  exact decimalInt_length (k := 19) (by omega) (by omega)

/-! ## What `snprintf` leaves in a buffer -/

/-- A `char[n + 1]` filled with `%s`. -/
def bufferOf (n : Nat) (s : Bytes) : CString (n + 1) where
  bytes := (cString s).take n
  fits := by
    rw [length_take]
    omega
  noNul := fun h => zero_not_mem_cString s (mem_of_mem_take h)

/-! ## Pieces into one buffer -/

/-- A buffer filled by `n += snprintf(out + n, cap - n, ..)`: what it holds, and `n`,
which counts what did not fit as well. -/
structure Filling where
  text : Bytes
  n : Nat
  deriving DecidableEq, Repr

/-- One piece. Past the end, `cap - n` wraps around and the write is out of bounds. -/
def Filling.put (cap : Nat) (out : Filling) (piece : Bytes) : Except Fault Filling :=
  if out.n ≤ cap then .ok ⟨out.text ++ piece.take (cap - out.n - 1), out.n + piece.length⟩
  else .error .outOfBounds

def fill (cap : Nat) (pieces : List Bytes) : Except Fault Bytes :=
  (pieces.foldlM (Filling.put cap) ⟨[], 0⟩).map Filling.text

variable {pieces : List Bytes} {cap : Nat}

theorem foldlM_put {text : Bytes} {out : Filling}
    (h : pieces.foldlM (Filling.put cap) ⟨text.take (cap - 1), text.length⟩ = .ok out) :
    out = ⟨(text ++ pieces.flatten).take (cap - 1), (text ++ pieces.flatten).length⟩ := by
  induction pieces generalizing text with
  | nil =>
    cases h
    simp
  | cons piece pieces ih =>
    rw [foldlM_cons] at h
    obtain ⟨out', hput, h⟩ := bind_eq_ok.mp h
    unfold Filling.put at hput
    split at hput
    · have hout : out' = ⟨(text ++ piece).take (cap - 1), (text ++ piece).length⟩ := by
        rw [← Except.ok.inj hput, take_append, length_append,
          Nat.sub_right_comm cap text.length 1]
      rw [hout] at h
      rw [ih h, flatten_cons, append_assoc]
    · cases hput

/-- What is filled piece by piece is the joined text, up to the buffer. -/
theorem fill_eq_take {text : Bytes} (h : fill cap pieces = .ok text) :
    text = pieces.flatten.take (cap - 1) := by
  unfold fill at h
  cases hrun : pieces.foldlM (Filling.put cap) ⟨[], 0⟩ with
  | error e =>
    rw [hrun] at h
    cases h
  | ok out =>
    rw [hrun] at h
    have hrun' : pieces.foldlM (Filling.put cap) ⟨List.take (cap - 1) [], ([] : Bytes).length⟩ =
        .ok out := by
      rw [take_nil]
      exact hrun
    rw [← Except.ok.inj h, foldlM_put hrun', nil_append]

theorem foldlM_put_of_lt (text : Bytes) (h : text.length + pieces.flatten.length < cap) :
    pieces.foldlM (Filling.put cap) ⟨text, text.length⟩ =
      .ok ⟨text ++ pieces.flatten, text.length + pieces.flatten.length⟩ := by
  induction pieces generalizing text with
  | nil => simp
  | cons piece pieces ih =>
    rw [flatten_cons, length_append] at h
    have hput : Filling.put cap ⟨text, text.length⟩ piece =
        .ok ⟨text ++ piece, (text ++ piece).length⟩ := by
      rw [Filling.put, if_pos (by dsimp only; omega), take_of_length_le (by dsimp only; omega),
        length_append]
    rw [foldlM_cons, hput, ok_bind, ih (text ++ piece) (by rw [length_append]; omega)]
    simp [Nat.add_assoc]

theorem fill_eq (h : pieces.flatten.length < cap) : fill cap pieces = .ok pieces.flatten := by
  have hall := foldlM_put_of_lt [] (by simpa using h)
  rw [length_nil] at hall
  rw [fill, hall]
  rfl

theorem fill_concat (h : pieces.flatten.length < cap) (last : Bytes) :
    ∃ n, fill cap (pieces ++ [last]) = .ok (pieces.flatten ++ last.take n) := by
  have hall := foldlM_put_of_lt [] (by simpa using h)
  rw [length_nil, nil_append, Nat.zero_add] at hall
  refine ⟨cap - pieces.flatten.length - 1, ?_⟩
  rw [fill, foldlM_append, hall, ok_bind, foldlM_cons, Filling.put,
    if_pos (Nat.le_of_lt h)]
  rfl

end CtForge.Agent
