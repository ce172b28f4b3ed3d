import CtForge.Lib.CLang
import Mathlib.Data.Nat.Digits.Defs

/-!
# Character classes, numbers and buffers of C

The character classes of `<ctype.h>` in the C locale, the text of `%d`, and the
contents of a `char[n]`.

* **`decimal_digits`**, **`decimal_length`**, **`foldl_decimal`**: what `%d` prints.
* **`CString`**: a text that a buffer of `n` bytes holds with its NUL.
-/

namespace CtForge.CLang

open List

def isDigit (c : UInt8) : Bool := 48 ≤ c && c ≤ 57

def isAlpha (c : UInt8) : Bool := (65 ≤ c && c ≤ 90) || (97 ≤ c && c ≤ 122)

def isAlnum (c : UInt8) : Bool := isAlpha c || isDigit c

def isSpace (c : UInt8) : Bool := c == 32 || (9 ≤ c && c ≤ 13)

/-- A property of bytes can be checked byte by byte. -/
theorem forall_byte {p : UInt8 → Prop} (h : ∀ n < 256, p (UInt8.ofNat n)) (c : UInt8) : p c := by
  have hc := h c.toNat c.toNat_lt
  rwa [UInt8.ofNat_toNat] at hc

/-- What `%u` prints. -/
def decimal (n : Nat) : Bytes := (Nat.toDigits 10 n).map fun c => UInt8.ofNat c.toNat

/-- What `%d` prints. -/
def decimalInt (n : Int) : Bytes :=
  if n < 0 then 45 :: decimal n.natAbs else decimal n.natAbs

theorem decimal_ne_nil (n : Nat) : decimal n ≠ [] := by
  simp [decimal]

theorem isDigit_ofNat {c : Char} (h : c.isDigit = true) : isDigit (UInt8.ofNat c.toNat) = true := by
  have hc : 48 ≤ c.toNat ∧ c.toNat ≤ 57 := by
    simp only [Char.isDigit, Bool.and_eq_true, decide_eq_true_eq] at h
    exact ⟨UInt32.le_iff_toNat_le.mp h.1, UInt32.le_iff_toNat_le.mp h.2⟩
  simp only [isDigit, Bool.and_eq_true, decide_eq_true_eq, UInt8.le_iff_toNat_le,
    UInt8.toNat_ofNat']
  have hmod : c.toNat % 2 ^ 8 = c.toNat := Nat.mod_eq_of_lt (by omega)
  rw [hmod]
  exact hc

theorem decimal_digits {n : Nat} {c : UInt8} (h : c ∈ decimal n) : isDigit c = true := by
  obtain ⟨d, hd, rfl⟩ := mem_map.mp h
  exact isDigit_ofNat (Nat.isDigit_of_mem_toDigits (by omega) (by omega) hd)

/-- A number below the `k`-th power of ten has at most `k` digits. -/
theorem decimal_length {n k : Nat} (hk : 0 < k) (h : n < 10 ^ k) : (decimal n).length ≤ k := by
  rw [decimal, length_map]
  exact (Nat.length_toDigits_le_iff (by omega) hk).mpr h

theorem decimal_head (n : Nat) : ∃ c rest, decimal n = c :: rest ∧ isDigit c = true := by
  cases h : decimal n with
  | nil => exact absurd h (decimal_ne_nil n)
  | cons c rest => exact ⟨c, rest, rfl, decimal_digits (h ▸ mem_cons_self)⟩

theorem isDigit_facts : ∀ c : UInt8, isDigit c = true → isSpace c = false ∧ c ≠ 45 ∧ c ≠ 43 :=
  forall_byte (by decide +kernel)

theorem foldl_digits {ds : List Char} (h : ∀ c ∈ ds, c.isDigit = true) (m : Nat) :
    (ds.map fun c => UInt8.ofNat c.toNat).foldl
      (fun n c => 10 * n + ((c.toNat : Int) - 48)) (m : Int) = Nat.ofDigitChars 10 ds m := by
  induction ds generalizing m with
  | nil => rfl
  | cons c ds ih =>
    obtain ⟨hc, hds⟩ := forall_mem_cons.mp h
    have hrange : 48 ≤ c.toNat ∧ c.toNat ≤ 57 := by
      simp only [Char.isDigit, Bool.and_eq_true, decide_eq_true_eq] at hc
      exact ⟨UInt32.le_iff_toNat_le.mp hc.1, UInt32.le_iff_toNat_le.mp hc.2⟩
    have hbyte : (UInt8.ofNat c.toNat).toNat = c.toNat := by
      rw [UInt8.toNat_ofNat']
      exact Nat.mod_eq_of_lt (by omega)
    have hstep : 10 * (m : Int) + ((c.toNat : Int) - 48) =
        ((10 * m + (c.toNat - 48) : Nat) : Int) := by
      omega
    rw [map_cons, foldl_cons, hbyte, hstep, ih hds]
    rfl

/-- Reading the digits of a number gives the number. -/
theorem foldl_decimal (n : Nat) :
    (decimal n).foldl (fun n c => 10 * n + ((c.toNat : Int) - 48)) 0 = n := by
  have hdigits : ∀ c ∈ Nat.toDigits 10 n, c.isDigit = true := fun c hc =>
    Nat.isDigit_of_mem_toDigits (by omega) (by omega) hc
  have h := foldl_digits hdigits 0
  simpa [decimal] using h

/-- A text that a `char[n]` holds with its NUL. -/
structure CString (n : Nat) where
  bytes : Bytes
  fits : bytes.length < n
  noNul : 0 ∉ bytes

/-- A `char[n + 1]` that holds the empty text. -/
def CString.empty (n : Nat) : CString (n + 1) := ⟨[], by simp, by simp⟩

/-- `strncat(dst, src, n)`. -/
def strncat (dst src : Bytes) (n : Nat) : Bytes := dst ++ src.take n

theorem strncat_eq_append {dst src : Bytes} {n : Nat} (h : src.length ≤ n) :
    strncat dst src n = dst ++ src := by
  rw [strncat, take_of_length_le h]

end CtForge.CLang
