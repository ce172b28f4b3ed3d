import CtForge.Lib.CText
import CtForge.Lib.StrStr

/-!
# Reads and writes of C string functions

A pointer into a text is the list of the bytes from there to the end of the memory that
belongs to the text, the terminating NUL included; reading where no byte is left is a stray
read. A buffer that is filled from its start is the list of the bytes written so far.

* **`stringAt_terminated`**, **`skipSpace_terminated`**, **`strncmp_terminated`**: on a
  terminated text the string functions stay inside, and compute what they compute on the
  bytes before the NUL.
-/

namespace CtForge.CMemory

open CLang List

inductive Stray where
  | read
  | write
  deriving DecidableEq, Repr

/-- `*p` -/
def load : Bytes → Except Stray UInt8
  | [] => .error .read
  | c :: _ => .ok c

/-- `buf[n++] = c`, where `out` are the first `n` bytes of a buffer of `size` bytes. -/
def store (size : Nat) (out : Bytes) (c : UInt8) : Except Stray Bytes :=
  if out.length < size then .ok (out ++ [c]) else .error .write

def stringAt : Bytes → Except Stray Bytes
  | [] => .error .read
  | c :: p => if c == 0 then .ok [] else (stringAt p).map (c :: ·)

/-- `while (*p && isspace(*p)) p++;` -/
def skipSpace : Bytes → Except Stray Bytes
  | [] => .error .read
  | c :: p => if c != 0 && isSpace c then skipSpace p else .ok (c :: p)

/-- `strncmp(p, key, strlen(key)) == 0` -/
def strncmp : (p key : Bytes) → Except Stray Bool
  | _, [] => .ok true
  | [], _ :: _ => .error .read
  | c :: p, k :: key =>
    if c != k then .ok false
    else if c == 0 then .ok true
    else strncmp p key

variable {s : Bytes}

@[simp] theorem bind_ok {α β : Type} (a : α) (f : α → Except Stray β) :
    ((Except.ok a : Except Stray α) >>= f) = f a := rfl

theorem store_of_lt {size : Nat} {out : Bytes} (h : out.length < size) (c : UInt8) :
    store size out c = .ok (out ++ [c]) := if_pos h

/-- A terminated text is read up to its NUL. -/
theorem stringAt_terminated (hs : 0 ∉ s) : stringAt (s ++ [0]) = .ok s := by
  induction s with
  | nil => rfl
  | cons c s ih =>
    obtain ⟨hc, hs⟩ : 0 ≠ c ∧ 0 ∉ s := by simpa using hs
    rw [cons_append, stringAt, if_neg (by simpa using hc.symm), ih hs]
    rfl

example : stringAt [97, 0, 98] = .ok [97] := by decide +kernel

/-- Skipping blanks stops at the NUL at the latest. -/
theorem skipSpace_terminated (hs : 0 ∉ s) :
    skipSpace (s ++ [0]) = .ok (s.dropWhile isSpace ++ [0]) := by
  induction s with
  | nil => rfl
  | cons c s ih =>
    obtain ⟨hc, hs⟩ : 0 ≠ c ∧ 0 ∉ s := by simpa using hs
    have hne : (c != 0) = true := by simpa using hc.symm
    rw [cons_append, skipSpace, hne, Bool.true_and, dropWhile_cons, ih hs]
    split <;> rfl

/-- `strncmp` on a terminated text stays inside and compares the bytes before the NUL. -/
theorem strncmp_terminated (hs : 0 ∉ s) {key : Bytes} (hkey : 0 ∉ key) :
    strncmp (s ++ [0]) key = .ok (startsWith s key) := by
  induction key generalizing s with
  | nil =>
    have hstart : startsWith s [] = true := startsWith_iff.mpr nil_prefix
    rw [hstart]
    cases s <;> rfl
  | cons k key ih =>
    obtain ⟨hk, hkey⟩ : 0 ≠ k ∧ 0 ∉ key := by simpa using hkey
    cases s with
    | nil =>
      rw [nil_append, strncmp, if_pos (by simpa using hk)]
      rfl
    | cons c s =>
      obtain ⟨hc, hs⟩ : 0 ≠ c ∧ 0 ∉ s := by simpa using hs
      have hstart : startsWith (c :: s) (k :: key) = (c == k && startsWith s key) := by
        simp [startsWith, strncmpEq]
      rw [cons_append, strncmp, hstart]
      by_cases hck : c = k
      · rw [if_neg (by simp [hck]), if_neg (by simpa using hc.symm), ih hs hkey]
        simp [hck]
      · rw [if_pos (by simpa using hck)]
        simp [hck]

end CtForge.CMemory
