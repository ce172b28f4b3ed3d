import Mathlib.Data.List.Basic

/-!
# C strings, byte images and faults

What the models of the C programs share. A C string is the list of its bytes
without the terminating NUL; a buffer or a file is the list of its bytes. A
function that can read outside a buffer, follow a null pointer or end the
process is a computation in `Except Fault`; a `Fault` is never a return value,
so "the call returns" is the statement that the computation is `.ok`.
-/

namespace CtForge.CLang

open List

abbrev Bytes := List UInt8

/-- The ways a C call ends without returning to its caller. -/
inductive Fault where
  | exited (code : Int)
  | outOfBounds
  | nullDeref
  | uninitialized
  | diverged
  deriving DecidableEq, Repr

def lit (s : String) : Bytes := s.toList.map fun c => UInt8.ofNat c.toNat

/-- A constant by its characters. A term in this form is evaluated much faster, since the
text need not be encoded and decoded again. -/
theorem lit_ofList (cs : List Char) :
    lit (String.ofList cs) = cs.map fun c => UInt8.ofNat c.toNat := by
  rw [lit, String.toList_ofList]

/-- What `snprintf(buf, size, ...)` leaves in `buf` when the formatted text is
`text`: at most `size - 1` bytes and a NUL. -/
def snprintf (size : Nat) (text : Bytes) : Bytes := text.take (size - 1)

/-- A text that fits is not cut. -/
theorem snprintf_eq_self {size : Nat} {text : Bytes} (h : text.length < size) :
    snprintf size text = text :=
  take_of_length_le (by omega)

/-- `strncmp(a, b, n) == 0`. -/
def strncmpEq (n : Nat) (a b : Bytes) : Bool := a.take n == b.take n

/-- For a string that is shorter than the bound, `strncmp` compares the whole strings. -/
theorem strncmpEq_iff_of_lt {n : Nat} {a b : Bytes} (ha : a.length < n) :
    strncmpEq n a b = true ↔ a = b := by
  rw [strncmpEq, beq_iff_eq, take_of_length_le (Nat.le_of_lt ha)]
  constructor
  · intro h
    have hlen := congrArg List.length h
    rw [length_take] at hlen
    rw [h, take_of_length_le (by omega)]
  · rintro rfl
    exact (take_of_length_le (Nat.le_of_lt ha)).symm

def startsWith (s sub : Bytes) : Bool := strncmpEq sub.length s sub

/-- The tokens successive calls of `strtok_r` return: the maximal nonempty runs
of bytes that are no delimiter. -/
def strtok (delim : UInt8 → Bool) (s : Bytes) : List Bytes :=
  (s.splitOnP delim).filter (· ≠ [])

def readLE : Bytes → Nat
  | [] => 0
  | b :: bs => b.toNat + 256 * readLE bs

/-- Read `len` bytes at offset `off` of a buffer. -/
def readAt (buf : Bytes) (off len : Nat) : Except Fault Bytes :=
  if off + len ≤ buf.length then .ok ((buf.drop off).take len) else .error .outOfBounds

theorem readAt_of_le {buf : Bytes} {off len : Nat} (h : off + len ≤ buf.length) :
    readAt buf off len = .ok ((buf.drop off).take len) := if_pos h

theorem readAt_of_lt {buf : Bytes} {off len : Nat} (h : buf.length < off + len) :
    readAt buf off len = .error .outOfBounds := if_neg (by omega)

/-- A sequence returns exactly if both parts do. -/
theorem bind_eq_ok {α β : Type} {x : Except Fault α} {f : α → Except Fault β} {r : β} :
    (x >>= f) = .ok r ↔ ∃ a, x = .ok a ∧ f a = .ok r := by
  cases x with
  | error e | ok a => simp [bind, Except.bind]

@[simp] theorem pure_eq_ok {α : Type} (a : α) : (pure a : Except Fault α) = .ok a := rfl

@[simp] theorem ok_bind {α β : Type} (a : α) (f : α → Except Fault β) :
    ((Except.ok a : Except Fault α) >>= f) = f a := rfl

@[simp] theorem error_bind {α β : Type} (e : Fault) (f : α → Except Fault β) :
    ((Except.error e : Except Fault α) >>= f) = .error e := rfl

theorem mapM_eq_ok {α β : Type} {f : α → Except Fault β} {g : α → β} {xs : List α}
    (h : ∀ x ∈ xs, f x = .ok (g x)) : xs.mapM f = .ok (xs.map g) := by
  induction xs with
  | nil => rfl
  | cons x xs ih =>
    have ih := ih fun y hy => h y (mem_cons_of_mem x hy)
    simp [mapM_cons, h x mem_cons_self, ih]

end CtForge.CLang
