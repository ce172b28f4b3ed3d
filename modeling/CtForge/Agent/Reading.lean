import CtForge.Agent.JsonLookup

/-!
# What the agent reads from a payload of the server

The agent looks a key up with `find_key` and copies the string behind it into a buffer. The
lookup is right for every flat object. The copy is not: it ends with the buffer, and `\b`, `\f`
and the codes above `\u00ff` come out as other bytes.
-/

namespace CtForge.Agent

open CLang GoString Json List

variable {k : String} {a : Bytes} {fields : List Field}

/-! ## The copy -/

def decodedRune : Rune → Bytes
  | .invalid _ => [253]
  | .char c =>
    if c.toNat = 8 then [98]
    else if c.toNat = 12 then [102]
    else if c.toNat = 0x2028 then [40]
    else if c.toNat = 0x2029 then [41]
    else String.utf8EncodeChar c

/-- What a buffer of `size` bytes holds of a string of the payload. -/
def held (size : Nat) (s : Text) : Bytes := cString ((s.flatMap decodedRune).take (size - 1))

/-- Bytes that are no escapes are copied as they are. -/
theorem copyString_raw (ha : ∀ b ∈ a, isRaw b = true) (room : Nat) (t : Bytes) :
    copyString room (a ++ t) = (copyString (room - a.length) t).map (a.take room ++ ·) := by
  induction a generalizing room with
  | nil =>
    simp only [nil_append, length_nil, Nat.sub_zero, take_nil]
    cases copyString room t <;> rfl
  | cons c a ih =>
    obtain ⟨hc, ha⟩ := forall_mem_cons.mp ha
    cases room with
    | zero => simp [copyString, Except.map]
    | succ room =>
      have hne : c ≠ 34 ∧ c ≠ 92 := by
        simp only [isRaw, Bool.and_eq_true, bne_iff_ne] at hc
        exact ⟨hc.1.2, hc.2⟩
      rw [cons_append, copyString, ih ha]
      · simp only [length_cons, Nat.add_sub_add_right, take_succ_cons]
        cases copyString (room - a.length) t <;> rfl
      · exact hne.1
      · intro v hback _
        exact hne.2 hback
      · intro d v hback _
        exact hne.2 hback

example : copyString 2 (lit "abc\"") = .ok (lit "ab") := by decide +kernel

theorem copyString_short {c d : UInt8} (hc : c ≠ 117) (hd : unescapeByte c = d) (room : Nat)
    (t : Bytes) :
    copyString room (92 :: c :: t) = (copyString (room - 1) t).map ([d].take room ++ ·) := by
  cases room with
  | zero => rfl
  | succ room =>
    rw [copyString, hd]
    · simp
    · exact hc

theorem scanHex_take {a b c d : UInt8} (ha : isSpace a = false) (t : Bytes) :
    scanHex (a :: b :: c :: d :: t) = scanHex [a, b, c, d] := by
  simp [scanHex, ha]

theorem copyString_code {a b c d e : UInt8} (ha : isSpace a = false)
    (hscan : scanHex [a, b, c, d] = some e) (room : Nat) (t : Bytes) :
    copyString room (92 :: 117 :: a :: b :: c :: d :: t) =
      (copyString (room - 1) t).map ([e].take room ++ ·) := by
  cases room with
  | zero => rfl
  | succ room =>
    rw [copyString, scanHex_take ha, hscan]
    simp

theorem scanHex_low : ∀ n < 64,
    scanHex [48, 48, hexDigit (n / 16), hexDigit (n % 16)] = some (UInt8.ofNat n) := by
  decide

/-- One character of the server takes the room of its decoded bytes. -/
theorem copyString_rune (r : Rune) (room : Nat) (t : Bytes) :
    copyString room (r.escape ++ t) =
      (copyString (room - (decodedRune r).length) t).map ((decodedRune r).take room ++ ·) := by
  cases r with
  | invalid b => exact copyString_code (by decide) (by decide) room t
  | char c =>
    have hascii : c.toNat ≤ 127 → c.toNat ≠ 8 → c.toNat ≠ 12 →
        decodedRune (.char c) = [UInt8.ofNat c.toNat] := by
      intro hle h8 h12
      rw [decodedRune, if_neg h8, if_neg h12, if_neg (by omega), if_neg (by omega),
        utf8EncodeChar_ascii hle]
    rw [Rune.escape, escapeChar]
    by_cases hquote : c = '"'
    · rw [if_pos hquote, hquote]
      exact copyString_short (by decide) rfl room t
    rw [if_neg hquote]
    by_cases hback : c = '\\'
    · rw [if_pos hback, hback]
      exact copyString_short (by decide) rfl room t
    rw [if_neg hback]
    by_cases h8 : c.toNat = 8
    · rw [if_pos h8, decodedRune, if_pos h8]
      exact copyString_short (by decide) rfl room t
    rw [if_neg h8]
    by_cases h12 : c.toNat = 12
    · rw [if_pos h12, decodedRune, if_neg h8, if_pos h12]
      exact copyString_short (by decide) rfl room t
    rw [if_neg h12]
    by_cases h10 : c.toNat = 10
    · rw [if_pos h10, hascii (by omega) h8 h12, h10]
      exact copyString_short (by decide) rfl room t
    rw [if_neg h10]
    by_cases h13 : c.toNat = 13
    · rw [if_pos h13, hascii (by omega) h8 h12, h13]
      exact copyString_short (by decide) rfl room t
    rw [if_neg h13]
    by_cases h9 : c.toNat = 9
    · rw [if_pos h9, hascii (by omega) h8 h12, h9]
      exact copyString_short (by decide) rfl room t
    rw [if_neg h9]
    split
    · next hlow =>
      have hsmall := lt_of_escaped hlow
      rw [hascii (by omega) h8 h12]
      exact copyString_code (by decide) (scanHex_low _ hsmall) room t
    · next hlow =>
      split
      · next hsep =>
        rcases Bool.or_eq_true_iff.mp hsep with h | h
        · have h28 : c.toNat = 0x2028 := of_decide_eq_true h
          rw [decodedRune, if_neg h8, if_neg h12, if_pos h28, h28]
          exact copyString_code (by decide) (by decide) room t
        · have h29 : c.toNat = 0x2029 := of_decide_eq_true h
          rw [decodedRune, if_neg h8, if_neg h12, if_neg (by omega), if_pos h29, h29]
          exact copyString_code (by decide) (by decide) room t
      · next hsep =>
        simp only [Bool.or_eq_true, decide_eq_true_eq, not_or] at hlow hsep
        rw [decodedRune, if_neg h8, if_neg h12, if_neg hsep.1, if_neg hsep.2]
        exact copyString_raw (fun b hb => utf8EncodeChar_raw hquote hback (by omega) hb) room t

theorem copyString_escape (s : Text) (room : Nat) (t : Bytes) :
    copyString room (escape s ++ 34 :: t) = .ok ((s.flatMap decodedRune).take room) := by
  induction s generalizing room with
  | nil => cases room <;> rfl
  | cons r s ih =>
    rw [escape_cons, append_assoc, copyString_rune, ih, flatMap_cons, take_append]
    rfl

theorem isSpace_quote : isSpace 34 = false := by decide

/-- What the buffer holds of the string. -/
theorem jsonGetString_str (hk : IsKey k) {before after : List Field} {s : Text} (size : Nat)
    (hbefore : ∀ g ∈ before, g.Flat ∧ lit g.key ≠ lit k) :
    jsonGetString (objectText (before ++ ⟨k, .str s⟩ :: after)) (lit k) size =
      .ok (some (held size s)) := by
  have hflat : Field.Flat ⟨k, .str s⟩ := ⟨hk, by simp⟩
  rw [jsonGetString, findKey_field hk hbefore hflat rfl]
  have htext : (FieldValue.text (.str s) ++ tail after).dropWhile isSpace =
      34 :: (escape s ++ 34 :: tail after) := by
    simp [FieldValue.text, quote, isSpace_quote]
  simp only [htext, copyString_escape]
  rfl

theorem jsonGetString_absent (hk : IsKey k) (hne : fields ≠ []) (size : Nat)
    (hfields : ∀ g ∈ fields, g.Flat ∧ lit g.key ≠ lit k) :
    jsonGetString (objectText fields) (lit k) size = .ok none := by
  rw [jsonGetString, findKey_absent hk hne hfields]

/-! ## What is preserved -/

def keptRune : Rune → Bool
  | .invalid b => b == 253
  | .char c =>
    c.toNat != 0 && c.toNat != 8 && c.toNat != 12 && c.toNat != 0x2028 && c.toNat != 0x2029

theorem zero_mem_utf8EncodeChar_iff (c : Char) : 0 ∈ String.utf8EncodeChar c ↔ c.toNat = 0 := by
  by_cases hwide : c.toNat ≤ 127
  · rw [utf8EncodeChar_ascii hwide, mem_singleton]
    constructor
    · intro h
      have hnat := congrArg UInt8.toNat h
      rw [toNat_ofNat_toNat hwide] at hnat
      exact hnat.symm
    · intro h
      rw [h]
      rfl
  · refine iff_of_false ?_ (by omega)
    intro hmem
    have hle := utf8EncodeChar_wide (by omega) hmem
    exact absurd hle (by decide)

theorem decodedRune_char (c : Char) :
    decodedRune (.char c) = String.utf8EncodeChar c ∧
        ¬ (c.toNat = 8 ∨ c.toNat = 12 ∨ c.toNat = 0x2028 ∨ c.toNat = 0x2029) ∨
      (decodedRune (.char c) ≠ String.utf8EncodeChar c ∧
        (decodedRune (.char c)).length ≤ (String.utf8EncodeChar c).length ∧
        (c.toNat = 8 ∨ c.toNat = 12 ∨ c.toNat = 0x2028 ∨ c.toNat = 0x2029)) := by
  have hof : ∀ n, c.toNat = n → c = Char.ofNat n := by
    rintro n rfl
    exact (Char.ofNat_toNat c).symm
  by_cases hc : c.toNat = 8 ∨ c.toNat = 12 ∨ c.toNat = 0x2028 ∨ c.toNat = 0x2029
  · right
    refine ⟨?_, ?_, hc⟩
    · rcases hc with h | h | h | h <;> rw [hof _ h] <;> decide
    · rcases hc with h | h | h | h <;> rw [hof _ h] <;> decide
  · left
    refine ⟨?_, hc⟩
    simp only [not_or] at hc
    rw [decodedRune, if_neg hc.1, if_neg hc.2.1, if_neg hc.2.2.1, if_neg hc.2.2.2]

theorem decodedRune_length (r : Rune) : (decodedRune r).length ≤ r.bytes.length := by
  cases r with
  | invalid b => exact le_refl 1
  | char c =>
    rcases decodedRune_char c with ⟨heq, -⟩ | ⟨-, hle, -⟩
    · exact le_of_eq (congrArg List.length heq)
    · exact hle

/-- A character is kept exactly if it is copied as its own bytes, none of which is NUL. -/
theorem keptRune_iff (r : Rune) : keptRune r = true ↔ decodedRune r = r.bytes ∧ 0 ∉ r.bytes := by
  cases r with
  | invalid b =>
    revert b
    exact fun b => forall_byte (p := fun b => keptRune (.invalid b) = true ↔
      decodedRune (.invalid b) = Rune.bytes (.invalid b) ∧ 0 ∉ Rune.bytes (.invalid b))
      (by decide +kernel) b
  | char c =>
    have hbytes : Rune.bytes (.char c) = String.utf8EncodeChar c := rfl
    rw [hbytes, zero_mem_utf8EncodeChar_iff]
    simp only [keptRune, Bool.and_eq_true, bne_iff_ne]
    rcases decodedRune_char c with ⟨heq, hc⟩ | ⟨hne, -, hc⟩
    · simp only [heq, true_and]
      omega
    · simp only [hne, false_and, iff_false]
      omega

theorem flatMap_decodedRune_length (s : Text) :
    (s.flatMap decodedRune).length ≤ (bytes s).length := by
  induction s with
  | nil => exact le_refl 0
  | cons r s ih =>
    have hr := decodedRune_length r
    simp only [bytes, flatMap_cons, length_append] at ih ⊢
    omega

theorem flatMap_decodedRune_eq {s : Text} (h : s.flatMap decodedRune = bytes s) :
    ∀ r ∈ s, decodedRune r = r.bytes := by
  induction s with
  | nil => simp
  | cons r s ih =>
    have hr := decodedRune_length r
    have hs := flatMap_decodedRune_length s
    have hlen := congrArg List.length h
    simp only [bytes, flatMap_cons, length_append] at h hs hlen
    have hparts := append_inj h (by omega)
    exact forall_mem_cons.mpr ⟨hparts.1, ih hparts.2⟩

theorem held_length_le (size : Nat) (s : Text) : (held size s).length ≤ size - 1 :=
  (cString_length_le _).trans (length_take_le _ _)

example : held 3 [.char 'a', .char 'b', .char 'c'] = lit "ab" := by decide +kernel

theorem zero_not_mem_held (size : Nat) (s : Text) : 0 ∉ held size s := zero_not_mem_cString _

theorem held_of_kept {s : Text} (hkept : ∀ r ∈ s, keptRune r = true) (size : Nat) :
    held size s = (bytes s).take (size - 1) := by
  have hall : s.flatMap decodedRune = bytes s :=
    flatMap_congr fun r hr => ((keptRune_iff r).mp (hkept r hr)).1
  have hzero : 0 ∉ bytes s := by
    intro hmem
    obtain ⟨r, hr, h0⟩ := mem_flatMap.mp hmem
    exact ((keptRune_iff r).mp (hkept r hr)).2 h0
  rw [held, hall]
  exact cString_eq_self fun h => hzero (mem_of_mem_take h)

/-- What the buffer holds is the string itself if and only if it fits and has only characters
that the copy preserves. -/
theorem held_eq_iff {size : Nat} (hsize : 0 < size) (s : Text) :
    held size s = bytes s ↔ (∀ r ∈ s, keptRune r = true) ∧ (bytes s).length < size := by
  constructor
  · intro h
    have hlen := held_length_le size s
    have hzero := zero_not_mem_held size s
    rw [h] at hlen hzero
    -- nothing is lost at a NUL or at the end of the buffer, so the copy is the whole string
    have hall : s.flatMap decodedRune = bytes s := by
      have hpre : bytes s <+: s.flatMap decodedRune := by
        rw [← h]
        have hcopy : (s.flatMap decodedRune).take (size - 1) <+: s.flatMap decodedRune :=
          take_prefix _ _
        have hheld : held size s <+: (s.flatMap decodedRune).take (size - 1) := takeWhile_prefix _
        exact hheld.trans hcopy
      exact (hpre.eq_of_length_le (flatMap_decodedRune_length s)).symm
    refine ⟨?_, by omega⟩
    intro r hr
    refine (keptRune_iff r).mpr ⟨flatMap_decodedRune_eq hall r hr, ?_⟩
    intro hmem
    exact hzero (mem_flatMap.mpr ⟨r, hr, hmem⟩)
  · rintro ⟨hkept, hlen⟩
    rw [held_of_kept hkept, take_of_length_le (by omega)]

/-! ## Objects of the server -/

/-- A value that `encoding/json` writes without braces and brackets. -/
inductive GoValue where
  | str (s : Text)
  | num (n : Numeral)
  | bool (b : Bool)

def GoValue.scalar : GoValue → Scalar
  | .str s => .str ⟨escape s, body_escape s⟩
  | .num n => .num n
  | .bool b => .word (if b then .yes else .no)

structure GoMember where
  key : Text
  value : GoValue

def GoMember.member (m : GoMember) : Member where
  lead := .none
  name := ⟨escape m.key, body_escape m.key⟩
  beforeColon := .none
  afterColon := .none
  value := m.value.scalar
  trail := .none

/-- What `json.Marshal` makes of an object. -/
def goObject (members : List GoMember) : FlatObject where
  lead := .none
  inside := .none
  members := members.map GoMember.member
  trail := .none

theorem findKey_goObject {before : List GoMember} {m : GoMember} (after : List GoMember)
    (hkey : ∀ r ∈ m.key, r.isWritten = true) (hbefore : ∀ b ∈ before, b.key ≠ m.key) :
    findKey (cString (goObject (before ++ m :: after)).text) (bytes m.key) =
      some (m.value.scalar.text ++
        (goObject (before ++ m :: after)).rest (after.map GoMember.member)) := by
  have hquote : 34 ∉ bytes m.key := by
    rw [← escape_of_written hkey]
    refine no_quote_escape fun hmem => ?_
    cases hkey _ hmem
  have hback : 92 ∉ bytes m.key := by
    rw [← escape_of_written hkey]
    exact no_slash_of_written hkey
  have hmembers : (goObject (before ++ m :: after)).members =
      before.map GoMember.member ++ m.member :: after.map GoMember.member := by
    simp [goObject]
  rw [findKey_member hquote hback hmembers ?_ (escape_of_written hkey)]
  · simp [FlatObject.behindColon, Member.behindColon, GoMember.member, Blanks.none]
  · intro b hb heq
    obtain ⟨g, hg, rfl⟩ := mem_map.mp hb
    exact hbefore g hg (eq_of_escape_eq hkey (heq.trans (escape_of_written hkey).symm))

/-- **The string getter against the server's encoder**, under a key that is written as it is.
`find_key` compares its key with the escaped name: a key that needs an escape is not found, and
one with a quote or a backslash may match the escape of another name. -/
theorem getString_inverts (before after : List GoMember) (key s : Text) (size : Nat)
    (hkey : ∀ r ∈ key, r.isWritten = true) (hbefore : ∀ b ∈ before, b.key ≠ key)
    (hsize : (bytes s).length < size) :
    jsonGetString (cString (goObject (before ++ ⟨key, .str s⟩ :: after)).text) (bytes key) size =
        .ok (some (bytes s)) ↔
      ∀ r ∈ s, keptRune r = true := by
  have hheld : jsonGetString (cString (goObject (before ++ ⟨key, .str s⟩ :: after)).text)
      (bytes key) size = .ok (some (held size s)) := by
    rw [jsonGetString, findKey_goObject after (m := ⟨key, .str s⟩) hkey hbefore]
    have htext : ∀ t, ((GoValue.scalar (.str s)).text ++ t).dropWhile isSpace =
        34 :: (escape s ++ 34 :: t) := by
      intro t
      simp [GoValue.scalar, Scalar.text, string, isSpace_quote]
    simp only [htext, copyString_escape]
    rfl
  rw [hheld, Except.ok.injEq, Option.some.injEq, held_eq_iff (by omega)]
  exact and_iff_left hsize

theorem getString_among_members :
    jsonGetString (lit "\x7b\"ok\":true,\"k\":\"a\\\"\",\"n\":7\x7d") (lit "k") 8 =
      .ok (some (lit "a\"")) :=
  (getString_inverts [⟨text "ok", .bool true⟩] [⟨text "n", .num ⟨lit "7", rfl, rfl⟩⟩] (text "k")
    (text "a\"") 8 (by decide) (by decide) (by decide)).mpr (by decide)

/-- A line separator comes out as a bracket, and a name with an escape is not found. -/
theorem getString_differs :
    jsonGetString (cString (goObject [⟨text "k", .str [.char (Char.ofNat 0x2028)]⟩]).text)
        (lit "k") 8 = .ok (some [40]) ∧
      bytes [.char (Char.ofNat 0x2028)] = [0xe2, 0x80, 0xa8] ∧
      jsonGetString (cString (goObject [⟨text "<", .str (text "v")⟩]).text) (lit "<") 8 = .ok none := by
  decide

end CtForge.Agent
