import CtForge.Lib.CText

/-!
# Base64

The standard encoding with padding, in groups of three bytes.
-/

namespace CtForge.Base64

open CLang List Option

/-- The table `A-Z a-z 0-9 + /`. -/
def digit (n : Nat) : UInt8 :=
  UInt8.ofNat (if n < 26 then 65 + n else if n < 52 then 71 + n else if n < 62 then n - 4
    else if n = 62 then 43 else 47)

def encode : Bytes → Bytes
  | [] => []
  | [a] => [digit (a.toNat / 4), digit (a.toNat % 4 * 16), 61, 61]
  | [a, b] =>
    [digit (a.toNat / 4), digit (a.toNat % 4 * 16 + b.toNat / 16), digit (b.toNat % 16 * 4), 61]
  | a :: b :: c :: rest =>
    digit (a.toNat / 4) :: digit (a.toNat % 4 * 16 + b.toNat / 16) ::
      digit (b.toNat % 16 * 4 + c.toNat / 64) :: digit (c.toNat % 64) :: encode rest

def value (c : UInt8) : Option Nat :=
  if 65 ≤ c ∧ c ≤ 90 then some (c.toNat - 65)
  else if 97 ≤ c ∧ c ≤ 122 then some (c.toNat - 71)
  else if isDigit c then some (c.toNat + 4)
  else if c = 43 then some 62
  else if c = 47 then some 63
  else none

/-- Groups of four digits; padding ends the text. Bits that a padded group leaves over are
not looked at. -/
def decodeGroups : Bytes → Option Bytes
  | [] => some []
  | [a, b, 61, 61] => do
    let m ← value a
    let n ← value b
    return [UInt8.ofNat (m * 4 + n / 16)]
  | [a, b, c, 61] => do
    let m ← value a
    let n ← value b
    let o ← value c
    return [UInt8.ofNat (m * 4 + n / 16), UInt8.ofNat (n % 16 * 16 + o / 4)]
  | a :: b :: c :: d :: rest => do
    let m ← value a
    let n ← value b
    let o ← value c
    let p ← value d
    let data ← decodeGroups rest
    return UInt8.ofNat (m * 4 + n / 16) :: UInt8.ofNat (n % 16 * 16 + o / 4) ::
      UInt8.ofNat (o % 4 * 64 + p) :: data
  | _ => none

def decode (s : Bytes) : Option Bytes := decodeGroups (s.filter fun c => c != 10 && c != 13)

def isDigit64 (c : UInt8) : Bool := isAlnum c || c == 43 || c == 47

theorem digit_isDigit64 : ∀ n < 64, isDigit64 (digit n) = true := by
  decide

/-- Four digits for every group that is begun. -/
theorem encode_length (data : Bytes) : (encode data).length = (data.length + 2) / 3 * 4 := by
  fun_induction encode data with
  | case1 => rfl
  | case2 | case3 => simp
  | case4 a b c rest ih =>
    simp only [length_cons, ih]
    omega

/-- An encoded text has only the 64 digits and the padding. -/
theorem encode_digits (data : Bytes) : ∀ c ∈ encode data, isDigit64 c = true ∨ c = 61 := by
  have hdigit : ∀ n < 64, isDigit64 (digit n) = true ∨ digit n = 61 :=
    fun n hn => .inl (digit_isDigit64 n hn)
  have hbyte : ∀ a : UInt8, a.toNat < 256 := fun a => a.toNat_lt
  fun_induction encode data with
  | case1 => simp
  | case2 a =>
    have ha := hbyte a
    simp [hdigit (a.toNat / 4) (by omega), hdigit (a.toNat % 4 * 16) (by omega)]
  | case3 a b =>
    have ha := hbyte a
    have hb := hbyte b
    simp [hdigit (a.toNat / 4) (by omega), hdigit (a.toNat % 4 * 16 + b.toNat / 16) (by omega),
      hdigit (b.toNat % 16 * 4) (by omega)]
  | case4 a b c rest ih =>
    have ha := hbyte a
    have hb := hbyte b
    have hc := hbyte c
    simp only [forall_mem_cons]
    exact ⟨hdigit _ (by omega), hdigit _ (by omega), hdigit _ (by omega), hdigit _ (by omega), ih⟩

theorem value_digit : ∀ n < 64, value (digit n) = some n := by
  decide

theorem digit_ne_pad (n : Nat) (h : n < 64) : digit n ≠ 61 := by
  intro hpad
  have hdigit := digit_isDigit64 n h
  rw [hpad] at hdigit
  cases hdigit

theorem ofNat_eq {a : UInt8} {n : Nat} (h : n % 256 = a.toNat) : UInt8.ofNat n = a := by
  rw [← UInt8.toNat_inj, UInt8.toNat_ofNat', ← h]

/-- Decoding inverts encoding, group by group. -/
theorem decodeGroups_encode (data : Bytes) : decodeGroups (encode data) = some data := by
  have hbyte : ∀ a : UInt8, a.toNat < 256 := fun a => a.toNat_lt
  fun_induction encode data with
  | case1 => rfl
  | case2 a =>
    have ha := hbyte a
    have hfirst : UInt8.ofNat (a.toNat / 4 * 4 + a.toNat % 4 * 16 / 16) = a := ofNat_eq (by omega)
    simp only [decodeGroups, value_digit (a.toNat / 4) (by omega),
      value_digit (a.toNat % 4 * 16) (by omega), bind_eq_bind, bind_some, hfirst]
    rfl
  | case3 a b =>
    have ha := hbyte a
    have hb := hbyte b
    have hpad := digit_ne_pad (b.toNat % 16 * 4) (by omega)
    have hfirst : UInt8.ofNat (a.toNat / 4 * 4 + (a.toNat % 4 * 16 + b.toNat / 16) / 16) = a :=
      ofNat_eq (by omega)
    have hsecond : UInt8.ofNat ((a.toNat % 4 * 16 + b.toNat / 16) % 16 * 16 +
        b.toNat % 16 * 4 / 4) = b := ofNat_eq (by omega)
    rw [decodeGroups.eq_3 _ _ _ hpad]
    simp only [value_digit (a.toNat / 4) (by omega), value_digit (b.toNat % 16 * 4) (by omega),
      value_digit (a.toNat % 4 * 16 + b.toNat / 16) (by omega), bind_eq_bind,
      bind_some, hfirst, hsecond]
    rfl
  | case4 a b c rest ih =>
    have ha := hbyte a
    have hb := hbyte b
    have hc := hbyte c
    have hthird := digit_ne_pad (b.toNat % 16 * 4 + c.toNat / 64) (by omega)
    have hfourth := digit_ne_pad (c.toNat % 64) (by omega)
    have hfirst : UInt8.ofNat (a.toNat / 4 * 4 + (a.toNat % 4 * 16 + b.toNat / 16) / 16) = a :=
      ofNat_eq (by omega)
    have hsecond : UInt8.ofNat ((a.toNat % 4 * 16 + b.toNat / 16) % 16 * 16 +
        (b.toNat % 16 * 4 + c.toNat / 64) / 4) = b := ofNat_eq (by omega)
    have hlast : UInt8.ofNat ((b.toNat % 16 * 4 + c.toNat / 64) % 4 * 64 + c.toNat % 64) = c :=
      ofNat_eq (by omega)
    rw [decodeGroups.eq_4 _ _ _ _ _ (fun h => absurd h hthird) (fun h => absurd h hfourth)]
    simp only [value_digit (a.toNat / 4) (by omega), value_digit (c.toNat % 64) (by omega),
      value_digit (a.toNat % 4 * 16 + b.toNat / 16) (by omega),
      value_digit (b.toNat % 16 * 4 + c.toNat / 64) (by omega), ih, bind_eq_bind,
      bind_some, hfirst, hsecond, hlast]
    rfl

/-- What is encoded is decoded to the same bytes. -/
theorem decode_encode (data : Bytes) : decode (encode data) = some data := by
  have hclean : (encode data).filter (fun c => c != 10 && c != 13) = encode data := by
    refine filter_eq_self.mpr fun c hc => ?_
    rcases encode_digits data c hc with hdigit | rfl
    · exact forall_byte (p := fun c => isDigit64 c = true → (c != 10 && c != 13) = true)
        (by decide +kernel) c hdigit
    · rfl
  rw [decode, hclean, decodeGroups_encode]

end CtForge.Base64
