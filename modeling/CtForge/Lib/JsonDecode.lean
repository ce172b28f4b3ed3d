import CtForge.Lib.JsonText
import CtForge.Lib.GoString

/-!
# Reading JSON values (`encoding/json`)

The decoder for texts that the scanner accepts: strings are unquoted as Go does it, with
escapes and with `U+FFFD` in the place of bytes that are no UTF-8.

* **`Unquotes`**: what a part of a string literal stands for, whatever follows;
  **`unquotes_char`**: a character that need not be escaped stands for itself.
* **`Decodes`**: a text is read as a value, whatever follows.
* **`decodes_object`**, **`decodes_array`**: objects and arrays are read member by member.
-/

namespace CtForge.Json

open CLang GoString List Bool UInt8

/-! ## UTF-8 -/

def utf8 (text : List Char) : Bytes := text.flatMap String.utf8EncodeChar

/-- How many bytes follow the first byte of a character, and between which bounds the next
one lies. -/
def lead (b : Nat) : Option (Nat × Nat × Nat) :=
  if b < 0xc2 then none
  else if b ≤ 0xdf then some (1, 0x80, 0xbf)
  else if b = 0xe0 then some (2, 0xa0, 0xbf)
  else if b = 0xed then some (2, 0x80, 0x9f)
  else if b ≤ 0xef then some (2, 0x80, 0xbf)
  else if b = 0xf0 then some (3, 0x90, 0xbf)
  else if b ≤ 0xf3 then some (3, 0x80, 0xbf)
  else if b = 0xf4 then some (3, 0x80, 0x8f)
  else none

def inRange (low high : Nat) (b : UInt8) : Bool := low ≤ b.toNat && b.toNat ≤ high

/-- `utf8.DecodeRune` on `b :: s`, as the number of bytes behind `b` that belong to the
character; none if `b` is an invalid byte. -/
def tailLength (b : UInt8) (s : Bytes) : Option Nat :=
  match lead b.toNat, s with
  | some (n, low, high), c :: s =>
    let tail := s.take (n - 1)
    if inRange low high c && tail.length == n - 1 && tail.all (inRange 0x80 0xbf) then some n
    else none
  | _, _ => none

/-! ## String literals -/

def hexValue (c : UInt8) : Option Nat :=
  if isDigit c then some (c.toNat - 48)
  else if 97 ≤ c && c ≤ 102 then some (c.toNat - 87)
  else if 65 ≤ c && c ≤ 70 then some (c.toNat - 55)
  else none

/-- `getu4`, without the backslash and the `u`. -/
def hex4 : Bytes → Option Nat
  | a :: b :: c :: d :: _ => do
    return ((← hexValue a) * 16 + (← hexValue b)) * 256 + (← hexValue c) * 16 + (← hexValue d)
  | _ => none

def replacement : Bytes := [0xef, 0xbf, 0xbd]

def encodeRune (n : Nat) : Bytes := String.utf8EncodeChar (Char.ofNat n)

/-- What a surrogate stands for, with the escape behind it if that is the second half. -/
def surrogateAt (n : Nat) : Bytes → Bytes × Nat
  | 92 :: 117 :: s =>
    match hex4 s with
    | some m =>
      if n < 0xdc00 ∧ 0xdc00 ≤ m ∧ m < 0xe000 then
        (encodeRune ((n - 0xd800) * 0x400 + (m - 0xdc00) + 0x10000), 11)
      else (replacement, 5)
    | none => (replacement, 5)
  | _ => (replacement, 5)

/-- What an escape `\uXXXX` stands for, and how many bytes behind the backslash it has. -/
def unicodeAt (s : Bytes) : Option (Bytes × Nat) :=
  match hex4 s with
  | none => none
  | some n =>
    if n < 0xd800 ∨ 0xe000 ≤ n then some (encodeRune n, 5) else some (surrogateAt n (s.drop 4))

def escapeAt : Bytes → Option (Bytes × Nat)
  | 34 :: _ => some ([34], 1)
  | 92 :: _ => some ([92], 1)
  | 47 :: _ => some ([47], 1)
  | 98 :: _ => some ([8], 1)
  | 102 :: _ => some ([12], 1)
  | 110 :: _ => some ([10], 1)
  | 114 :: _ => some ([13], 1)
  | 116 :: _ => some ([9], 1)
  | 117 :: s => unicodeAt s
  | _ => none

def emit (w : Bytes) (r : Bytes × Bytes) : Bytes × Bytes := (w ++ r.1, r.2)

/-- The rest of a string literal: the bytes of the string, and what stands behind the closing
quote. `skip` bytes belong to an escape that has been read, `copy` bytes to a character. -/
def unquoteFrom : (skip copy : Nat) → Bytes → Option (Bytes × Bytes)
  | _, _, [] => none
  | skip + 1, copy, _ :: s => unquoteFrom skip copy s
  | 0, copy + 1, c :: s => (unquoteFrom 0 copy s).map (emit [c])
  | 0, 0, c :: s =>
    if c = 34 then some ([], s)
    else if c = 92 then
      match escapeAt s with
      | none => none
      | some (w, n) => (unquoteFrom n 0 s).map (emit w)
    else if c < 32 then none
    else if c < 128 then (unquoteFrom 0 0 s).map (emit [c])
    else
      match tailLength c s with
      | none => (unquoteFrom 0 0 s).map (emit replacement)
      | some n => (unquoteFrom 0 n s).map (emit [c])

def unquote (s : Bytes) : Option (Bytes × Bytes) := unquoteFrom 0 0 s

/-! ## Values -/

inductive Value where
  | null
  | bool (b : Bool)
  | num (text : Bytes)
  | str (s : Bytes)
  | arr (vs : List Value)
  | obj (ms : List (Bytes × Value))

def skipBlank (s : Bytes) : Bytes := s.dropWhile isBlank

def isNumberByte (c : UInt8) : Bool := isDigit c || [43, 45, 46, 69, 101].elem c

def scalar (s : Bytes) : Option (Value × Bytes) :=
  match s with
  | 110 :: s => some (.null, s.drop 3)
  | 116 :: s => some (.bool true, s.drop 3)
  | 102 :: s => some (.bool false, s.drop 4)
  | 34 :: s => (unquote s).map fun r => (.str r.1, r.2)
  | _ => some (.num (s.takeWhile isNumberByte), s.dropWhile isNumberByte)

mutual

def value : (fuel : Nat) → Bytes → Option (Value × Bytes)
  | 0, _ => none
  | fuel + 1, s =>
    match skipBlank s with
    | 123 :: s =>
      match skipBlank s with
      | 125 :: rest => some (.obj [], rest)
      | s => (members fuel s).map fun r => (.obj r.1, r.2)
    | 91 :: s =>
      match skipBlank s with
      | 93 :: rest => some (.arr [], rest)
      | s => (elements fuel s).map fun r => (.arr r.1, r.2)
    | s => scalar s

def elements : (fuel : Nat) → Bytes → Option (List Value × Bytes)
  | 0, _ => none
  | fuel + 1, s =>
    match value fuel s with
    | none => none
    | some (v, s) =>
      match skipBlank s with
      | 93 :: rest => some ([v], rest)
      | 44 :: s => (elements fuel s).map fun r => (v :: r.1, r.2)
      | _ => none

def members : (fuel : Nat) → Bytes → Option (List (Bytes × Value) × Bytes)
  | 0, _ => none
  | fuel + 1, s =>
    match skipBlank s with
    | 34 :: s =>
      match unquote s with
      | none => none
      | some (key, s) =>
        match skipBlank s with
        | 58 :: s =>
          match value fuel s with
          | none => none
          | some (v, s) =>
            match skipBlank s with
            | 125 :: rest => some ([(key, v)], rest)
            | 44 :: s => (members fuel s).map fun r => ((key, v) :: r.1, r.2)
            | _ => none
        | _ => none
    | _ => none

end

/-- `json.Unmarshal`: the text is checked before it is read. -/
def decode (s : Bytes) : Option Value :=
  if valid s then (value (s.length + 1) s).map Prod.fst else none

/-! ## What a part of a literal stands for -/

/-- The part `body` of a literal stands for `w`, whatever follows. -/
def Unquotes (body w : Bytes) : Prop :=
  ∀ s, unquoteFrom 0 0 (body ++ s) = (unquoteFrom 0 0 s).map (emit w)

theorem map_emit_emit (v w : Bytes) (r : Option (Bytes × Bytes)) :
    (r.map (emit w)).map (emit v) = r.map (emit (v ++ w)) := by
  cases r with
  | none => rfl
  | some r => simp [emit]

theorem Unquotes.nil : Unquotes [] [] := by
  intro s
  cases h : unquoteFrom 0 0 s with
  | none => simp [h]
  | some r => simp [h, emit]

/-- What a string stands for is put together from its parts. -/
theorem Unquotes.append {a b v w : Bytes} (ha : Unquotes a v) (hb : Unquotes b w) :
    Unquotes (a ++ b) (v ++ w) := by
  intro s
  rw [append_assoc, ha, hb, map_emit_emit]

theorem Unquotes.flatMap {α : Type} {f g : α → Bytes} {l : List α}
    (h : ∀ x ∈ l, Unquotes (f x) (g x)) : Unquotes (l.flatMap f) (l.flatMap g) := by
  induction l with
  | nil => exact Unquotes.nil
  | cons x l ih =>
    obtain ⟨hx, hl⟩ := forall_mem_cons.mp h
    exact hx.append (ih hl)

theorem Unquotes.unquote {body w : Bytes} (h : Unquotes body w) (s : Bytes) :
    unquote (body ++ 34 :: s) = some (w, s) := by
  rw [Json.unquote, h]
  simp [unquoteFrom, emit]

variable {c : UInt8}

theorem unquotes_ascii (hplain : isPlain c = true) (hascii : c < 128) : Unquotes [c] [c] := by
  intro s
  simp only [isPlain, and_eq_true, decide_eq_true_eq, bne_iff_ne] at hplain
  obtain ⟨⟨hlow, hquote⟩, hback⟩ := hplain
  rw [singleton_append, unquoteFrom, if_neg hquote, if_neg hback,
    if_neg (UInt8.not_lt.mpr hlow), if_pos hascii]

variable {s : Bytes}

theorem unquotes_plain (h : s.all (fun c => isPlain c && c < 128) = true) : Unquotes s s := by
  have hbytes : Unquotes (s.flatMap fun c => [c]) (s.flatMap fun c => [c]) := by
    refine Unquotes.flatMap fun c hc => ?_
    obtain ⟨hplain, hascii⟩ := and_eq_true_iff.mp (all_eq_true.mp h c hc)
    exact unquotes_ascii hplain (of_decide_eq_true hascii)
  rwa [flatMap_singleton'] at hbytes

theorem unquotes_escape {c d : UInt8} (h : ∀ s, escapeAt (c :: s) = some ([d], 1)) :
    Unquotes [92, c] [d] := by
  intro s
  have hback : (92 : UInt8) ≠ 34 := by decide
  rw [cons_append, singleton_append, unquoteFrom, if_neg hback, if_pos rfl, h]
  rfl

theorem unquoteFrom_copy (w s : Bytes) :
    unquoteFrom 0 w.length (w ++ s) = (unquoteFrom 0 0 s).map (emit w) := by
  induction w with
  | nil =>
    exact Unquotes.nil s
  | cons c w ih =>
    rw [length_cons, cons_append, unquoteFrom, ih, map_emit_emit]
    rfl

theorem lead_two {b : Nat} (h : 0xc2 ≤ b ∧ b ≤ 0xdf) : lead b = some (1, 0x80, 0xbf) := by
  unfold lead
  rw [if_neg (by omega), if_pos h.2]

theorem lead_three {b : Nat} (h : 0xe0 ≤ b ∧ b ≤ 0xef) :
    lead b = some (2, if b = 0xe0 then 0xa0 else 0x80, if b = 0xed then 0x9f else 0xbf) := by
  unfold lead
  rw [if_neg (by omega), if_neg (by omega)]
  split_ifs <;> first | rfl | omega

theorem lead_four {b : Nat} (h : 0xf0 ≤ b ∧ b ≤ 0xf4) :
    lead b = some (3, if b = 0xf0 then 0x90 else 0x80, if b = 0xf4 then 0x8f else 0xbf) := by
  unfold lead
  rw [if_neg (by omega), if_neg (by omega), if_neg (by omega), if_neg (by omega), if_neg (by omega)]
  split_ifs <;> first | rfl | omega

theorem tailLength_of_lead {b c : UInt8} {tail : Bytes} {low high : Nat}
    (hlead : lead b.toNat = some (tail.length + 1, low, high)) (hc : inRange low high c = true)
    (htail : tail.all (inRange 0x80 0xbf) = true) (s : Bytes) :
    tailLength b (c :: tail ++ s) = some (c :: tail).length := by
  simp [tailLength, hlead, hc, htail]

theorem inRange_ofNat {low high n : Nat} (hn : n < 256) :
    inRange low high (UInt8.ofNat n) = true ↔ low ≤ n ∧ n ≤ high := by
  rw [inRange, and_eq_true, decide_eq_true_eq, decide_eq_true_eq, toNat_ofNat',
    Nat.mod_eq_of_lt hn]

theorem le_ofNat {n : Nat} (hlow : 128 ≤ n) (hn : n < 256) : 128 ≤ UInt8.ofNat n := by
  rw [le_iff_toNat_le, toNat_ofNat', Nat.mod_eq_of_lt hn]
  exact hlow

/-- The first byte of a wide character tells how many follow. -/
theorem tailLength_char {c : Char} (h : 127 < c.toNat) (s : Bytes) :
    ∃ b tail, String.utf8EncodeChar c = b :: tail ∧ 128 ≤ b ∧
      tailLength b (tail ++ s) = some tail.length := by
  have hbig : ¬ c.val.toNat ≤ 127 := Nat.not_le.mpr h
  have hvalid : c.val.toNat < 0xd800 ∨ 0xdfff < c.val.toNat ∧ c.val.toNat < 0x110000 := c.valid
  have htoNat : ∀ n < 256, (UInt8.ofNat n).toNat = n := fun n hn => by
    rw [toNat_ofNat', Nat.mod_eq_of_lt hn]
  rw [String.utf8EncodeChar.eq_1, if_neg hbig]
  generalize c.val.toNat = n at hbig hvalid
  have hcont : ∀ m, inRange 0x80 0xbf (UInt8.ofNat (m % 64 + 128)) = true := fun m =>
    (inRange_ofNat (by omega)).mpr (by omega)
  split_ifs with htwo hthree
  · have hlead := lead_two (b := n / 64 % 32 + 192) (by omega)
    rw [← htoNat (n / 64 % 32 + 192) (by omega)] at hlead
    exact ⟨_, _, rfl, le_ofNat (by omega) (by omega), tailLength_of_lead hlead (hcont n) rfl s⟩
  · have hlead := lead_three (b := n / 4096 % 16 + 224) (by omega)
    nth_rewrite 1 [← htoNat (n / 4096 % 16 + 224) (by omega)] at hlead
    refine ⟨_, _, rfl, le_ofNat (by omega) (by omega), tailLength_of_lead hlead ?_ ?_ s⟩
    · rw [inRange_ofNat (by omega)]
      split_ifs <;> omega
    · simp only [all_cons, all_nil, hcont, Bool.and_self]
  · have hlead := lead_four (b := n / 262144 % 8 + 240) (by omega)
    nth_rewrite 1 [← htoNat (n / 262144 % 8 + 240) (by omega)] at hlead
    refine ⟨_, _, rfl, le_ofNat (by omega) (by omega), tailLength_of_lead hlead ?_ ?_ s⟩
    · rw [inRange_ofNat (by omega)]
      split_ifs <;> omega
    · simp only [all_cons, all_nil, hcont, Bool.and_self]

/-- A character that need not be escaped stands for itself. -/
theorem unquotes_char {c : Char} (hlow : 32 ≤ c.toNat) (hquote : c ≠ '"') (hback : c ≠ '\\') :
    Unquotes (String.utf8EncodeChar c) (String.utf8EncodeChar c) := by
  by_cases hascii : c.toNat ≤ 127
  · have hraw : isRaw (UInt8.ofNat c.toNat) = true := by
      refine utf8EncodeChar_raw hquote hback hlow ?_
      rw [utf8EncodeChar_ascii hascii]
      exact mem_singleton.mpr rfl
    rw [utf8EncodeChar_ascii hascii]
    refine unquotes_ascii hraw ?_
    rw [lt_iff_toNat_lt, toNat_ofNat_toNat hascii]
    exact Nat.lt_succ_of_le hascii
  · intro s
    obtain ⟨b, tail, hbytes, hb, htail⟩ := tailLength_char (Nat.lt_of_not_le hascii) s
    have hfacts : b ≠ 34 ∧ b ≠ 92 ∧ ¬ b < 32 ∧ ¬ b < 128 := by
      revert hb
      exact forall_byte (p := fun b => 128 ≤ b → b ≠ 34 ∧ b ≠ 92 ∧ ¬ b < 32 ∧ ¬ b < 128)
        (by decide +kernel) b
    obtain ⟨h34, h92, hctl, hhigh⟩ := hfacts
    rw [hbytes, cons_append, unquoteFrom, if_neg h34, if_neg h92, if_neg hctl,
      if_neg hhigh, htail]
    simp only [unquoteFrom_copy, map_emit_emit]
    rfl

def isLiteral (c : Char) : Bool := 32 ≤ c.toNat && c != '"' && c != '\\'

theorem unquotes_utf8 {text : List Char} (h : text.all isLiteral = true) :
    Unquotes (utf8 text) (utf8 text) := by
  refine Unquotes.flatMap fun c hc => ?_
  have hliteral := all_eq_true.mp h c hc
  simp only [isLiteral, and_eq_true, decide_eq_true_eq, bne_iff_ne] at hliteral
  exact unquotes_char hliteral.1.1 hliteral.1.2 hliteral.2

theorem raw_utf8 {text : List Char} (h : text.all isLiteral = true) :
    ∀ b ∈ utf8 text, isPlain b = true := by
  intro b hb
  obtain ⟨c, hc, hmem⟩ := mem_flatMap.mp hb
  have hliteral := all_eq_true.mp h c hc
  simp only [isLiteral, and_eq_true, decide_eq_true_eq, bne_iff_ne] at hliteral
  exact utf8EncodeChar_raw hliteral.1.2 hliteral.2 hliteral.1.1 hmem

/-! ## Reading values -/

def Stops (rest : Bytes) : Prop := ∀ c, rest.head? = some c → isEnd c = true

structure Decodes (s : Bytes) (v : Value) : Prop where
  valid : valid s = true
  starts : ∀ rest, ∃ c t, s ++ rest = c :: t ∧ isBlank c = false ∧ c ≠ 93
  reads : ∀ fuel rest, s.length < fuel → Stops rest → value fuel (s ++ rest) = some (v, rest)

variable {v : Value}

/-- What is read whatever follows is read alone. -/
theorem Decodes.decode (h : Decodes s v) : decode s = some v := by
  have hvalue := h.reads (s.length + 1) [] (Nat.lt_succ_self _) (by simp [Stops])
  rw [append_nil] at hvalue
  rw [Json.decode, if_pos h.valid, hvalue]
  rfl

variable {fuel : Nat}

theorem value_scalar (hc : isBlank c = false ∧ c ≠ 123 ∧ c ≠ 91) (s : Bytes) (hfuel : 0 < fuel) :
    value fuel (c :: s) = scalar (c :: s) := by
  obtain ⟨fuel, rfl⟩ := Nat.exists_eq_succ_of_ne_zero (Nat.ne_of_gt hfuel)
  obtain ⟨hblank, hobj, harr⟩ := hc
  have hskip : skipBlank (c :: s) = c :: s := dropWhile_cons_of_neg (by simp [hblank])
  rw [Nat.succ_eq_add_one, value, hskip]
  split
  · rename_i heq
    exact absurd (List.cons.inj heq).1 hobj
  · rename_i heq
    exact absurd (List.cons.inj heq).1 harr
  · rfl

theorem decodes_string {body w : Bytes} (hbody : Body body) (h : Unquotes body w) :
    Decodes (string body) (.str w) := by
  refine ⟨valid_string hbody, fun rest => ⟨34, _, rfl, by decide, by decide⟩,
    fun fuel rest hfuel _ => ?_⟩
  have htext : string body ++ rest = 34 :: (body ++ 34 :: rest) := by simp [string]
  rw [htext, value_scalar (by decide) _ (Nat.zero_lt_of_lt hfuel), scalar, h.unquote]
  rfl

theorem decodes_bool (b : Bool) : Decodes (Json.bool b) (.bool b) := by
  cases b with
  | false =>
    refine ⟨valid_bool false, fun rest => ⟨102, _, rfl, by decide, by decide⟩,
      fun fuel rest hfuel _ => ?_⟩
    have htext : Json.bool false ++ rest = 102 :: 97 :: 108 :: 115 :: 101 :: rest := rfl
    rw [htext, value_scalar (by decide) _ (Nat.zero_lt_of_lt hfuel)]
    rfl
  | true =>
    refine ⟨valid_bool true, fun rest => ⟨116, _, rfl, by decide, by decide⟩,
      fun fuel rest hfuel _ => ?_⟩
    have htext : Json.bool true ++ rest = 116 :: 114 :: 117 :: 101 :: rest := rfl
    rw [htext, value_scalar (by decide) _ (Nat.zero_lt_of_lt hfuel)]
    rfl

/-- A number is read as its text. -/
theorem decodes_number {text : Bytes} (hvalid : valid text = true) (hne : text ≠ [])
    (h : ∀ c ∈ text, isNumberByte c = true) : Decodes text (.num text) := by
  obtain ⟨c, text, rfl⟩ := exists_cons_of_ne_nil hne
  have hfacts : isBlank c = false ∧ c ≠ 93 ∧ c ≠ 123 ∧ c ≠ 91 ∧ c ≠ 110 ∧ c ≠ 116 ∧ c ≠ 102 ∧
      c ≠ 34 :=
    forall_byte (p := fun c => isNumberByte c = true → isBlank c = false ∧ c ≠ 93 ∧ c ≠ 123 ∧
      c ≠ 91 ∧ c ≠ 110 ∧ c ≠ 116 ∧ c ≠ 102 ∧ c ≠ 34) (by decide +kernel) c (h c mem_cons_self)
  obtain ⟨hblank, hclose, hobj, harr, hnull, htrue, hfalse, hquote⟩ := hfacts
  refine ⟨hvalid, fun rest => ⟨c, _, rfl, hblank, hclose⟩, fun fuel rest hfuel hrest => ?_⟩
  have hstop : ∀ d, rest.head? = some d → isNumberByte d = false := fun d hd =>
    forall_byte (p := fun d => isEnd d = true → isNumberByte d = false) (by decide +kernel) d
      (hrest d hd)
  have htake : rest.takeWhile isNumberByte = [] ∧ rest.dropWhile isNumberByte = rest := by
    cases rest with
    | nil => exact ⟨rfl, rfl⟩
    | cons d rest =>
      have hd : isNumberByte d = false := hstop d rfl
      exact ⟨takeWhile_cons_of_neg (by simp [hd]), dropWhile_cons_of_neg (by simp [hd])⟩
  rw [cons_append, value_scalar ⟨hblank, hobj, harr⟩ _ (Nat.zero_lt_of_lt hfuel)]
  unfold scalar
  split <;> rename_i heq
  · exact absurd (List.cons.inj heq).1 hnull
  · exact absurd (List.cons.inj heq).1 htrue
  · exact absurd (List.cons.inj heq).1 hfalse
  · exact absurd (List.cons.inj heq).1 hquote
  · rw [← cons_append, takeWhile_append_of_pos h, dropWhile_append_of_pos h,
      htake.1, htake.2, append_nil]

theorem isNumberByte_decimal {n : Nat} (h : c ∈ decimal n) : isNumberByte c = true := by
  rw [isNumberByte, decimal_digits h, Bool.true_or]

theorem isNumberByte_decimalInt {n : Int} (h : c ∈ decimalInt n) : isNumberByte c = true := by
  unfold decimalInt at h
  split_ifs at h
  · rcases mem_cons.mp h with rfl | hc
    · rfl
    · exact isNumberByte_decimal hc
  · exact isNumberByte_decimal h

theorem quote_not_mem_decimalInt (n : Int) : 34 ∉ decimalInt n := by
  intro hmem
  cases isNumberByte_decimalInt hmem

theorem decodes_decimalInt (n : Int) : Decodes (decimalInt n) (.num (decimalInt n)) := by
  refine decodes_number (valid_decimalInt n) ?_ fun c hc => isNumberByte_decimalInt hc
  unfold decimalInt
  split_ifs
  · exact cons_ne_nil _ _
  · exact decimal_ne_nil _

theorem decodes_decimal (n : Nat) : Decodes (decimal n) (.num (decimal n)) := decodes_decimalInt n

/-! ## Arrays and objects -/

theorem skipBlank_cons (h : isBlank c = false) (s : Bytes) : skipBlank (c :: s) = c :: s :=
  dropWhile_cons_of_neg (by simp [h])

theorem stops_cons (h : isEnd c = true) (s : Bytes) : Stops (c :: s) := by
  intro d hd
  cases hd
  exact h

theorem elements_last {s rest : Bytes} (h : value fuel s = some (v, 93 :: rest)) :
    elements (fuel + 1) s = some ([v], rest) := by
  rw [elements, h]
  rfl

theorem elements_more {s t : Bytes} (h : value fuel s = some (v, 44 :: t)) :
    elements (fuel + 1) s = (elements fuel t).map fun r => (v :: r.1, r.2) := by
  rw [elements, h]
  rfl

theorem elements_commaSep {parts : List Bytes} {vs : List Value} (h : List.Forall₂ Decodes parts vs)
    (hne : parts ≠ []) (fuel : Nat) (hfuel : (commaSep parts).length < fuel) (rest : Bytes) :
    elements (fuel + 1) (commaSep parts ++ 93 :: rest) = some (vs, rest) := by
  induction h generalizing fuel with
  | nil => exact absurd rfl hne
  | @cons part v parts vs hpart hparts ih =>
    cases hparts with
    | nil =>
      have htext : commaSep [part] = part := by simp [commaSep]
      rw [htext] at hfuel ⊢
      exact elements_last (hpart.reads fuel (93 :: rest) hfuel (stops_cons (by decide) rest))
    | @cons part' v' parts vs hpart' hparts =>
      have htext : commaSep (part :: part' :: parts) = part ++ 44 :: commaSep (part' :: parts) := by
        simp [commaSep]
      rw [htext, length_append, length_cons] at hfuel
      obtain ⟨fuel, rfl⟩ := Nat.exists_eq_succ_of_ne_zero (n := fuel) (by omega)
      have hvalue := hpart.reads (fuel + 1) (44 :: (commaSep (part' :: parts) ++ 93 :: rest))
        (by omega) (stops_cons (by decide) _)
      rw [htext, append_assoc, cons_append, elements_more hvalue,
        ih (by simp) fuel (by omega)]
      rfl

theorem value_array (hblank : isBlank c = false) (hclose : c ≠ 93) :
    value (fuel + 1) (91 :: c :: s) =
      (elements fuel (c :: s)).map fun r => (.arr r.1, r.2) := by
  have hopen : skipBlank (91 :: c :: s) = 91 :: c :: s := skipBlank_cons (by decide) _
  rw [value, hopen]
  change (match skipBlank (c :: s) with
    | 93 :: rest => some (Value.arr [], rest)
    | s => (elements fuel s).map fun r : List Value × Bytes => (.arr r.1, r.2)) = _
  rw [skipBlank_cons hblank]
  split
  · rename_i heq
    exact absurd (List.cons.inj heq).1 hclose
  · rfl

/-- An array is read element by element. -/
theorem decodes_array {parts : List Bytes} {vs : List Value} (h : List.Forall₂ Decodes parts vs) :
    Decodes (array parts) (.arr vs) := by
  have hvalid : ∀ part ∈ parts, valid part = true := by
    induction h with
    | nil => simp
    | cons hpart _ ih => exact forall_mem_cons.mpr ⟨hpart.valid, ih⟩
  refine ⟨valid_array hvalid, fun rest => ⟨91, _, rfl, by decide, by decide⟩,
    fun fuel rest hfuel _ => ?_⟩
  rw [array, length_append, length_cons, length_singleton] at hfuel
  obtain ⟨fuel, rfl⟩ := Nat.exists_eq_succ_of_ne_zero (n := fuel) (by omega)
  have htext : array parts ++ rest = 91 :: (commaSep parts ++ 93 :: rest) := by simp [array]
  rw [htext]
  cases h with
  | nil => rfl
  | @cons part v parts vs hpart hparts =>
    obtain ⟨fuel, rfl⟩ := Nat.exists_eq_succ_of_ne_zero (n := fuel) (by omega)
    have hall := elements_commaSep (.cons hpart hparts) (by simp) fuel (by omega) rest
    obtain ⟨c, t, hstart, hblank, hclose⟩ := hpart.starts
      (parts.flatMap (44 :: ·) ++ 93 :: rest)
    have hfirst : commaSep (part :: parts) ++ 93 :: rest = c :: t := by
      rw [← hstart, commaSep, append_assoc]
    rw [hfirst] at hall ⊢
    rw [value_array hblank hclose, hall]
    rfl

def MemberDecodes (m : String × Bytes) (kv : Bytes × Value) : Prop :=
  lit m.1 = kv.1 ∧ Body (lit m.1) ∧ Unquotes (lit m.1) (lit m.1) ∧ Decodes m.2 kv.2

variable {ms : List (String × Bytes)} {kvs : List (Bytes × Value)}

theorem member_cons {k : String} {text : Bytes}
    (h : Decodes text v) (hms : List.Forall₂ MemberDecodes ms kvs)
    (hk : (lit k).all (fun c => isPlain c && c < 128) = true := by decide) :
    List.Forall₂ MemberDecodes ((k, text) :: ms) ((lit k, v) :: kvs) := by
  have hbody := body_of_plain fun c hc =>
    (and_eq_true_iff.mp (all_eq_true.mp hk c hc)).1
  exact .cons ⟨rfl, hbody, unquotes_plain hk, h⟩ hms

theorem members_value {key w t : Bytes} (hkey : Unquotes key w) (fuel : Nat) :
    members (fuel + 1) (string key ++ 58 :: t) =
      match value fuel t with
      | none => none
      | some (v, s) =>
        match skipBlank s with
        | 125 :: rest => some ([(w, v)], rest)
        | 44 :: s => (members fuel s).map fun r => ((w, v) :: r.1, r.2)
        | _ => none := by
  have htext : string key ++ 58 :: t = 34 :: (key ++ 34 :: 58 :: t) := by simp [string]
  have hskip : skipBlank (34 :: (key ++ 34 :: 58 :: t)) = 34 :: (key ++ 34 :: 58 :: t) :=
    skipBlank_cons (by decide) _
  rw [htext, members, hskip]
  change (match unquote (key ++ 34 :: 58 :: t) with | none => none | some (key, s) => _) = _
  rw [hkey.unquote]
  rfl

theorem members_last {key w t rest : Bytes} (hkey : Unquotes key w)
    (h : value fuel t = some (v, 125 :: rest)) :
    members (fuel + 1) (string key ++ 58 :: t) = some ([(w, v)], rest) := by
  rw [members_value hkey, h]
  rfl

theorem members_more {key w s t : Bytes} (hkey : Unquotes key w)
    (h : value fuel s = some (v, 44 :: t)) :
    members (fuel + 1) (string key ++ 58 :: s) =
      (members fuel t).map fun r => ((w, v) :: r.1, r.2) := by
  rw [members_value hkey, h]
  rfl

/-- The members of an object are read one by one up to the brace. -/
theorem members_commaSep (h : List.Forall₂ MemberDecodes ms kvs) (hne : ms ≠ []) (fuel : Nat)
    (hfuel : (commaSep (ms.map member)).length < fuel) (rest : Bytes) :
    members (fuel + 1) (commaSep (ms.map member) ++ 125 :: rest) = some (kvs, rest) := by
  induction h generalizing fuel with
  | nil => exact absurd rfl hne
  | @cons m kv ms kvs hm hms ih =>
    obtain ⟨hname, -, hkey, hvalue⟩ := hm
    obtain ⟨key, v⟩ := kv
    cases hname
    have hlen : m.2.length < (member m).length := by
      simp only [member, length_append, length_cons]
      omega
    cases hms with
    | nil =>
      have htext : commaSep ([m].map member) = member m := by simp [commaSep]
      rw [htext] at hfuel ⊢
      rw [member, append_assoc, cons_append]
      exact members_last hkey (hvalue.reads fuel (125 :: rest) (by omega)
        (stops_cons (by decide) rest))
    | @cons m' kv' ms kvs hm' hms =>
      have htext : commaSep ((m :: m' :: ms).map member) =
          member m ++ 44 :: commaSep ((m' :: ms).map member) := by
        simp [commaSep]
      rw [htext, length_append, length_cons] at hfuel
      obtain ⟨fuel, rfl⟩ := Nat.exists_eq_succ_of_ne_zero (n := fuel) (by omega)
      have hread := hvalue.reads (fuel + 1)
        (44 :: (commaSep ((m' :: ms).map member) ++ 125 :: rest)) (by omega)
        (stops_cons (by decide) _)
      rw [htext, member, append_assoc, append_assoc, cons_append, cons_append,
        members_more hkey hread, ih (by simp) fuel (by omega)]
      rfl

/-- An object is read member by member. -/
theorem decodes_object
    (h : List.Forall₂ MemberDecodes ms kvs) : Decodes (object ms) (.obj kvs) := by
  have hvalid : ∀ m ∈ ms, Body (lit m.1) ∧ valid m.2 = true := by
    induction h with
    | nil => simp
    | cons hm _ ih => exact forall_mem_cons.mpr ⟨⟨hm.2.1, hm.2.2.2.valid⟩, ih⟩
  refine ⟨valid_object hvalid, fun rest => ⟨123, _, rfl, by decide, by decide⟩,
    fun fuel rest hfuel _ => ?_⟩
  rw [object, length_append, length_cons, length_singleton] at hfuel
  obtain ⟨fuel, rfl⟩ := Nat.exists_eq_succ_of_ne_zero (n := fuel) (by omega)
  have htext : object ms ++ rest = 123 :: (commaSep (ms.map member) ++ 125 :: rest) := by
    simp [object]
  rw [htext]
  cases h with
  | nil => rfl
  | @cons m kv ms kvs hm hms =>
    obtain ⟨fuel, rfl⟩ := Nat.exists_eq_succ_of_ne_zero (n := fuel) (by omega)
    have hall := members_commaSep (.cons hm hms) (by simp) fuel (by omega) rest
    obtain ⟨t, ht⟩ : ∃ t, commaSep ((m :: ms).map member) ++ 125 :: rest = 34 :: t := ⟨_, rfl⟩
    have hopen : value (fuel + 1 + 1) (123 :: 34 :: t) =
        (members (fuel + 1) (34 :: t)).map fun r => (.obj r.1, r.2) := rfl
    rw [ht] at hall ⊢
    rw [hopen, hall]
    rfl

end CtForge.Json
