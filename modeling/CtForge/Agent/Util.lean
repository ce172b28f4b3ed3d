import CtForge.Lib.Base64
import Mathlib.Data.List.TakeWhile

/-!
# The agent's helpers for JSON texts and base64 (`util.c`)

The agent does not parse the payload of a command. `find_key` walks over the quoted
strings of the text, on every level, until one is the key and a colon follows it;
`ctc_json_get_string` copies the string behind it into a buffer of the caller and
stops where the buffer ends. `\u` followed by four digits gives the low byte of the
code, and moves four bytes on whatever the digits were, which can leave the text.
-/

namespace CtForge.Agent

open CLang List Option Base64

/-- The quoted key and the colon behind it, at the start of the contents of a
string; what follows the colon. -/
def matchKey (key p : Bytes) : Option Bytes :=
  if startsWith p (key ++ [34]) then
    match (p.drop (key.length + 1)).dropWhile isSpace with
    | 58 :: v => some v
    | _ => none
  else none

/-- The two loops of `find_key`: looking for the next string, and skipping one. -/
def findKeyFrom (key : Bytes) : (inString : Bool) → Bytes → Option Bytes
  | _, [] => none
  | false, 34 :: p => (matchKey key p).or (findKeyFrom key true p)
  | false, _ :: p => findKeyFrom key false p
  | true, 92 :: _ :: p => findKeyFrom key true p
  | true, 34 :: p => findKeyFrom key false p
  | true, _ :: p => findKeyFrom key true p

def findKey (json key : Bytes) : Option Bytes := findKeyFrom key false json

def hexValue (c : UInt8) : Option Nat :=
  if isDigit c then some (c.toNat - 48)
  else if 97 ≤ c && c ≤ 102 then some (c.toNat - 87)
  else if 65 ≤ c && c ≤ 70 then some (c.toNat - 55)
  else none

/-- The low byte of what `sscanf(s, "%4x", &code)` reads; none if it reads no number. -/
def scanHex (s : Bytes) : Option UInt8 :=
  let field := (s.dropWhile isSpace).take 4
  let negative := field.head? == some 45
  let field := if field.head? == some 45 || field.head? == some 43 then field.drop 1 else field
  let field := match field with
    | 48 :: 120 :: w | 48 :: 88 :: w => 48 :: w
    | w => w
  let digits := (field.takeWhile fun c => (hexValue c).isSome).filterMap hexValue
  let code := UInt8.ofNat (digits.foldl (fun n d => 16 * n + d) 0)
  if digits.isEmpty then none else some (if negative then 0 - code else code)

/-- The byte that a backslash and `c` stand for. -/
def unescapeByte (c : UInt8) : UInt8 :=
  if c == 110 then 10 else if c == 116 then 9 else if c == 114 then 13 else c

/-- The loop of `ctc_json_get_string`, with room for `room` more bytes. -/
def copyString : (room : Nat) → Bytes → Except Fault Bytes
  | 0, _ => .ok []
  | _ + 1, [] => .ok []
  | _ + 1, 34 :: _ => .ok []
  | room + 1, 92 :: 117 :: v =>
    match scanHex v with
    | some code =>
      if v.length < 4 then .error .outOfBounds
      else (copyString room (v.drop 4)).map (code :: ·)
    | none => (copyString room v).map (63 :: ·)
  | room + 1, 92 :: c :: v => (copyString room v).map (unescapeByte c :: ·)
  | room + 1, c :: v => (copyString room v).map (c :: ·)

def cString (bytes : Bytes) : Bytes := bytes.takeWhile (· ≠ 0)

theorem cString_length_le (bytes : Bytes) : (cString bytes).length ≤ bytes.length :=
  (takeWhile_sublist _).length_le

theorem zero_not_mem_cString (bytes : Bytes) : 0 ∉ cString bytes := by
  intro h
  simpa using mem_takeWhile_imp h

theorem cString_eq_self {bytes : Bytes} (h : 0 ∉ bytes) : cString bytes = bytes := by
  rw [cString, takeWhile_eq_self_iff]
  intro c hc
  simpa using fun h0 : c = 0 => h (h0 ▸ hc)

/-- `ctc_json_get_string(json, key, buf, size)`; none if the key has no string. -/
def jsonGetString (json key : Bytes) (size : Nat) : Except Fault (Option Bytes) :=
  match findKey json key with
  | none => .ok none
  | some v =>
    match v.dropWhile isSpace with
    | 34 :: v => (copyString (size - 1) v).map fun buf => some (cString buf)
    | _ => .ok none

/-- `strtol(s, NULL, 10)`. -/
def strtol (s : Bytes) : Int :=
  let s := s.dropWhile isSpace
  let negative := s.head? == some 45
  let s := if s.head? == some 45 || s.head? == some 43 then s.drop 1 else s
  let n : Int := (s.takeWhile isDigit).foldl (fun n c => 10 * n + (c.toNat - 48)) 0
  max (-9223372036854775808) (min 9223372036854775807 (if negative then -n else n))

/-- `ctc_json_get_int`. -/
def jsonGetLong (json key : Bytes) (defval : Int) : Int :=
  match findKey json key with
  | none => defval
  | some v => strtol v

/-- `ctc_json_get_int`, converted to `int` as most of its callers do. -/
def jsonGetInt (json key : Bytes) (defval : Int) : Int :=
  match findKey json key with
  | none => defval
  | some v => (strtol v).bmod 4294967296

/-- `ctc_json_get_bool`. -/
def jsonGetBool (json key : Bytes) (defval : Bool) : Bool :=
  match findKey json key with
  | none => defval
  | some v =>
    let v := v.dropWhile isSpace
    if startsWith v (lit "true") then true
    else if startsWith v (lit "false") then false
    else if v.head? == some 49 then true
    else if v.head? == some 48 then false
    else defval

theorem strtol_decimalInt {n : Int} (hlo : -9223372036854775808 ≤ n)
    (hhi : n ≤ 9223372036854775807) {rest : Bytes}
    (hrest : ∀ c, rest.head? = some c → isDigit c = false) : strtol (decimalInt n ++ rest) = n := by
  obtain ⟨c, ds, hc, hdigit⟩ := decimal_head n.natAbs
  obtain ⟨hspace, hminus, hplus⟩ := isDigit_facts c hdigit
  have htake : (decimal n.natAbs ++ rest).takeWhile isDigit = decimal n.natAbs := by
    have hstop : rest.takeWhile isDigit = [] := by
      cases rest with
      | nil => rfl
      | cons d rest => exact takeWhile_cons_of_neg (by simp [hrest d rfl])
    rw [takeWhile_append_of_pos fun _ hd => decimal_digits hd, hstop, append_nil]
  unfold decimalInt
  split
  · have hdrop : (45 :: (decimal n.natAbs ++ rest)).dropWhile isSpace =
        45 :: (decimal n.natAbs ++ rest) := dropWhile_cons_of_neg (by decide)
    simp only [strtol, cons_append, hdrop, List.head?_cons, drop_one, tail_cons,
      htake, foldl_decimal, BEq.rfl, Bool.true_or, if_true]
    omega
  · have hdrop : (decimal n.natAbs ++ rest).dropWhile isSpace = decimal n.natAbs ++ rest := by
      rw [hc]
      exact dropWhile_cons_of_neg (by simp [hspace])
    have hhead : (decimal n.natAbs ++ rest).head? = some c := by rw [hc]; rfl
    have hne : (some c == some (45 : UInt8)) = false ∧ (some c == some (43 : UInt8)) = false := by
      simp [hminus, hplus]
    simp only [strtol, hdrop, hhead, hne, Bool.or_self, Bool.false_eq_true, if_false, htake,
      foldl_decimal]
    omega

theorem copyString_length {room : Nat} {v buf : Bytes} (h : copyString room v = .ok buf) :
    buf.length ≤ room := by
  have hcons : ∀ {room : Nat} {x : Except Fault Bytes} {c : UInt8} {buf : Bytes},
      (∀ b, x = .ok b → b.length ≤ room) → x.map (c :: ·) = .ok buf → buf.length ≤ room + 1 := by
    intro room x c buf ih hx
    cases x with
    | error e => cases hx
    | ok b =>
      cases hx
      have := ih b rfl
      simpa using this
  fun_induction copyString room v generalizing buf with
  | case1 | case2 | case3 => cases h; simp
  | case4 => cases h
  | case5 room v code _ _ ih | case6 room v _ ih | case7 room c v _ ih
  | case8 room c v _ _ _ ih => exact hcons (fun b hb => ih hb) h

/-- A buffer that starts out empty, after `ctc_json_get_string` was called on it. -/
def readBuffer (json key : Bytes) (size : Nat) : Except Fault Bytes :=
  (jsonGetString json key size).map (·.getD [])

theorem readBuffer_fits {json key : Bytes} {size : Nat} (hsize : 0 < size) {buf : Bytes}
    (h : readBuffer json key size = .ok buf) : buf.length < size ∧ 0 ∉ buf := by
  unfold readBuffer jsonGetString at h
  split at h
  · cases h
    exact ⟨hsize, by simp⟩
  · split at h
    · rename_i v _
      cases hcopy : copyString (size - 1) v with
      | error e =>
        rw [hcopy] at h
        cases h
      | ok bytes =>
        rw [hcopy] at h
        cases h
        have hlen := copyString_length hcopy
        have hcut := cString_length_le bytes
        exact ⟨by simp only [getD_some]; omega, zero_not_mem_cString bytes⟩
    · cases h
      exact ⟨hsize, by simp⟩

/-- A `char buf[size] = ""` filled by `ctc_json_get_string`. -/
def readCString (json key : Bytes) (size : Nat) (hsize : 0 < size) :
    Except Fault (CString size) :=
  match h : readBuffer json key size with
  | .ok buf => .ok ⟨buf, (readBuffer_fits hsize h).1, (readBuffer_fits hsize h).2⟩
  | .error e => .error e

/-! ## Base64 -/

def b64val (c : UInt8) : Option Nat :=
  if 65 ≤ c && c ≤ 90 then some (c.toNat - 65)
  else if 97 ≤ c && c ≤ 122 then some (c.toNat - 71)
  else if 48 ≤ c && c ≤ 57 then some (c.toNat + 4)
  else if c == 43 then some 62
  else if c == 47 then some 63
  else none

def b64pad (c : UInt8) : Option Nat := if c == 61 then some 0 else b64val c

/-- The loop of `ctc_base64_decode`, three bytes for every group. -/
def decodeGroups : Bytes → Option Bytes
  | a :: b :: c :: d :: rest => do
    let a ← b64val a
    let b ← b64val b
    let c ← b64pad c
    let d ← b64pad d
    let v := a * 262144 + b * 4096 + c * 64 + d
    let tail ← decodeGroups rest
    return UInt8.ofNat (v / 65536) :: UInt8.ofNat (v / 256) :: UInt8.ofNat v :: tail
  | _ => some []

def paddingOf (s : Bytes) : Nat :=
  (if s.getLast? == some 61 then 1 else 0) + (if s.dropLast.getLast? == some 61 then 1 else 0)

/-- `ctc_base64_decode`; none where it returns `NULL`. -/
def base64Decode (s : Bytes) : Option Bytes :=
  if s.length % 4 ≠ 0 then none
  else (decodeGroups s).map (·.take (s.length / 4 * 3 - paddingOf s))

theorem b64val_digit : ∀ n < 64, b64val (Base64.digit n) = some n := by
  decide

theorem b64pad_digit (n : Nat) (h : n < 64) : b64pad (Base64.digit n) = some n := by
  have hpad : (Base64.digit n == 61) = false := beq_false_of_ne (digit_ne_pad n h)
  rw [b64pad, hpad, if_neg Bool.false_ne_true, b64val_digit n h]

theorem decodeGroups_group {p q r s x y z : UInt8} (hp : b64val p = some (x.toNat / 4))
    (hq : b64val q = some (x.toNat % 4 * 16 + y.toNat / 16))
    (hr : b64pad r = some (y.toNat % 16 * 4 + z.toNat / 64)) (hs : b64pad s = some (z.toNat % 64))
    (rest : Bytes) :
    decodeGroups (p :: q :: r :: s :: rest) = (decodeGroups rest).map (x :: y :: z :: ·) := by
  have hx := x.toNat_lt
  have hy := y.toNat_lt
  have hz := z.toNat_lt
  rw [decodeGroups, hp, hq, hr, hs]
  simp only [bind_eq_bind, bind_some, Option.pure_def]
  rw [ofNat_eq (a := x) (by omega), ofNat_eq (a := y) (by omega),
    ofNat_eq (a := z) (by omega)]
  cases decodeGroups rest <;> rfl

/-- The agent's decoder inverts the encoder, up to the zeros of the padding. -/
theorem decodeGroups_encode (data : Bytes) :
    ∃ zeros, decodeGroups (Base64.encode data) = some (data ++ zeros) := by
  fun_induction Base64.encode data with
  | case1 => exact ⟨[], rfl⟩
  | case2 a =>
    have ha := a.toNat_lt
    have hq : b64val (Base64.digit (a.toNat % 4 * 16)) =
        some (a.toNat % 4 * 16 + UInt8.toNat 0 / 16) := by
      rw [b64val_digit _ (by omega), UInt8.toNat_zero, Nat.zero_div, Nat.add_zero]
    refine ⟨[0, 0], ?_⟩
    rw [decodeGroups_group (y := 0) (z := 0) (b64val_digit _ (by omega)) hq rfl rfl]
    rfl
  | case3 a b =>
    have ha := a.toNat_lt
    have hb := b.toNat_lt
    have hr : b64pad (Base64.digit (b.toNat % 16 * 4)) =
        some (b.toNat % 16 * 4 + UInt8.toNat 0 / 64) := by
      rw [b64pad_digit _ (by omega), UInt8.toNat_zero, Nat.zero_div, Nat.add_zero]
    refine ⟨[0], ?_⟩
    rw [decodeGroups_group (z := 0) (b64val_digit _ (by omega)) (b64val_digit _ (by omega)) hr rfl]
    rfl
  | case4 a b c rest ih =>
    have ha := a.toNat_lt
    have hb := b.toNat_lt
    have hc := c.toNat_lt
    obtain ⟨zeros, hrest⟩ := ih
    refine ⟨zeros, ?_⟩
    rw [decodeGroups_group (b64val_digit _ (by omega)) (b64val_digit _ (by omega))
      (b64pad_digit _ (by omega)) (b64pad_digit _ (by omega)), hrest]
    rfl

theorem paddingOf_append (s : Bytes) {t : Bytes} (ht : 2 ≤ t.length) :
    paddingOf (s ++ t) = paddingOf t := by
  have hne : t ≠ [] := by
    rintro rfl
    cases ht
  have hdrop : t.dropLast ≠ [] := by
    intro h
    have := congrArg List.length h
    simp at this
    omega
  rw [paddingOf, paddingOf, dropLast_append_of_ne_nil hne,
    List.getLast?_append_of_ne_nil _ hne, List.getLast?_append_of_ne_nil _ hdrop]

theorem paddingOf_encode (data : Bytes) :
    (Base64.encode data).length / 4 * 3 - paddingOf (Base64.encode data) = data.length := by
  fun_induction Base64.encode data with
  | case1 => rfl
  | case2 a => simp [paddingOf]
  | case3 a b =>
    have hb := b.toNat_lt
    have hne := digit_ne_pad (b.toNat % 16 * 4) (by omega)
    simp [paddingOf, hne]
  | case4 a b c rest ih =>
    have hb := b.toNat_lt
    have hc := c.toNat_lt
    by_cases hrest : rest = []
    · subst hrest
      have hne := digit_ne_pad (c.toNat % 64) (by omega)
      have hne' := digit_ne_pad (b.toNat % 16 * 4 + c.toNat / 64) (by omega)
      simp [paddingOf, Base64.encode, hne, hne']
    · have hlen := encode_length rest
      have hpos : 0 < rest.length := length_pos_iff.mpr hrest
      have hpad := paddingOf_append [Base64.digit (a.toNat / 4),
        Base64.digit (a.toNat % 4 * 16 + b.toNat / 16),
        Base64.digit (b.toNat % 16 * 4 + c.toNat / 64), Base64.digit (c.toNat % 64)]
        (t := Base64.encode rest) (by omega)
      simp only [cons_append, nil_append] at hpad
      rw [hpad]
      simp only [length_cons]
      omega

theorem base64Decode_encode (data : Bytes) : base64Decode (Base64.encode data) = some data := by
  have hlen : (Base64.encode data).length % 4 = 0 := by
    rw [encode_length]
    omega
  obtain ⟨zeros, hgroups⟩ := decodeGroups_encode data
  rw [base64Decode, if_neg (by simp [hlen]), hgroups, paddingOf_encode]
  simp

end CtForge.Agent
