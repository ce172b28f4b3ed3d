import CtForge.Lib.CText

/-!
# How Go writes a string in JSON

A Go string is any sequence of bytes; `range` reads it as characters in UTF-8 and,
where the bytes are none, single invalid bytes. `encoding/json` writes a string
character by character, with the escapes of `Marshal`: two-byte escapes, `\u00XX` for
the other control characters and for `<`, `>` and `&`, and `\ufffd` for an invalid byte.
-/

namespace CtForge.GoString

open CLang List UInt8

inductive Rune where
  | char (c : Char)
  | invalid (b : UInt8)
  deriving DecidableEq, Repr

abbrev Text := List Rune

def text (s : String) : Text := s.toList.map Rune.char

def Rune.bytes : Rune → Bytes
  | .char c => String.utf8EncodeChar c
  | .invalid b => [b]

def bytes (s : Text) : Bytes := s.flatMap Rune.bytes

/-- A digit of `0123456789abcdef`. -/
def hexDigit (n : Nat) : UInt8 := UInt8.ofNat (if n < 10 then 48 + n else 87 + n)

def escapeChar (c : Char) : Bytes :=
  if c = '"' then [92, 34]
  else if c = '\\' then [92, 92]
  else if c.toNat = 8 then [92, 98]
  else if c.toNat = 12 then [92, 102]
  else if c.toNat = 10 then [92, 110]
  else if c.toNat = 13 then [92, 114]
  else if c.toNat = 9 then [92, 116]
  else if c.toNat < 32 || c == '<' || c == '>' || c == '&' then
    [92, 117, 48, 48, hexDigit (c.toNat / 16), hexDigit (c.toNat % 16)]
  else if c.toNat = 0x2028 || c.toNat = 0x2029 then
    [92, 117, 50, 48, 50, hexDigit (c.toNat % 16)]
  else String.utf8EncodeChar c

def Rune.escape : Rune → Bytes
  | .char c => escapeChar c
  | .invalid _ => [92, 117, 102, 102, 102, 100]

def escape (s : Text) : Bytes := s.flatMap Rune.escape

def quote (s : Text) : Bytes := 34 :: escape s ++ [34]

/-! ## The bytes of a character -/

variable {c : Char}

theorem utf8EncodeChar_ascii (h : c.toNat ≤ 127) :
    String.utf8EncodeChar c = [UInt8.ofNat c.toNat] := by
  have hc : c.val.toNat ≤ 127 := h
  simp only [String.utf8EncodeChar, if_pos hc]
  rfl

/-- The bytes of a character above 127 are all above 127. -/
theorem utf8EncodeChar_wide (h : 127 < c.toNat) {b : UInt8} (hb : b ∈ String.utf8EncodeChar c) :
    128 ≤ b := by
  have hc : ¬ c.val.toNat ≤ 127 := Nat.not_le.mpr h
  simp only [String.utf8EncodeChar, if_neg hc] at hb
  have hbyte : ∀ n, 128 ≤ n → n < 256 → 128 ≤ UInt8.ofNat n := by
    intro n hlow hhigh
    rw [le_iff_toNat_le, toNat_ofNat', Nat.mod_eq_of_lt hhigh]
    exact hlow
  split_ifs at hb
  all_goals
    simp only [mem_cons, not_mem_nil, or_false] at hb
  · rcases hb with rfl | rfl
    · exact hbyte _ (by omega) (by omega)
    · exact hbyte _ (by omega) (by omega)
  · rcases hb with rfl | rfl | rfl
    · exact hbyte _ (by omega) (by omega)
    · exact hbyte _ (by omega) (by omega)
    · exact hbyte _ (by omega) (by omega)
  · rcases hb with rfl | rfl | rfl | rfl
    · exact hbyte _ (by omega) (by omega)
    · exact hbyte _ (by omega) (by omega)
    · exact hbyte _ (by omega) (by omega)
    · exact hbyte _ (by omega) (by omega)

theorem toNat_ofNat_toNat (h : c.toNat ≤ 127) : (UInt8.ofNat c.toNat).toNat = c.toNat := by
  rw [toNat_ofNat']
  exact Nat.mod_eq_of_lt (by omega)

theorem hexDigit_bounds : ∀ n < 16, 48 ≤ hexDigit n ∧ hexDigit n ≠ 92 := by
  decide

def isRaw (b : UInt8) : Bool := 32 ≤ b && b != 34 && b != 92

/-- The bytes of a character that needs no escape need none. -/
theorem utf8EncodeChar_raw (hquote : c ≠ '"') (hback : c ≠ '\\') (hlow : 32 ≤ c.toNat) {b : UInt8}
    (hb : b ∈ String.utf8EncodeChar c) : isRaw b = true := by
  by_cases hwide : c.toNat ≤ 127
  · rw [utf8EncodeChar_ascii hwide, mem_singleton] at hb
    have hne : ∀ d : Char, d.toNat ≤ 127 → c ≠ d → b ≠ UInt8.ofNat d.toNat := by
      intro d hd hcd hbd
      have hnat := congrArg UInt8.toNat (hb.symm.trans hbd)
      rw [toNat_ofNat_toNat hwide, toNat_ofNat_toNat hd] at hnat
      exact hcd (Char.toNat_inj.mp hnat)
    have h34 : b ≠ 34 := hne '"' (by decide) hquote
    have h92 : b ≠ 92 := hne '\\' (by decide) hback
    have hle : 32 ≤ b := by
      rw [hb, le_iff_toNat_le, toNat_ofNat_toNat hwide]
      exact hlow
    simp [isRaw, h34, h92, hle]
  · have hle := utf8EncodeChar_wide (by omega) hb
    revert hle
    exact forall_byte (p := fun b => 128 ≤ b → isRaw b = true) (by decide +kernel) b

/-! ## The cases of the encoder -/

theorem lt_of_escaped (h : (decide (c.toNat < 32) || c == '<' || c == '>' || c == '&') = true) :
    c.toNat < 64 := by
  simp only [Bool.or_eq_true, decide_eq_true_eq, beq_iff_eq] at h
  rcases h with ((h | rfl) | rfl) | rfl
  · omega
  · decide
  · decide
  · decide

inductive Writes (r : Rune) : Bytes → Prop
  | short (c : UInt8) (hc : 98 ≤ c) : Writes r [92, c]
  | code (a b c d : UInt8) (ha : 48 ≤ a ∧ a ≠ 92) (hb : 48 ≤ b ∧ b ≠ 92) (hc : 48 ≤ c ∧ c ≠ 92)
      (hd : 48 ≤ d ∧ d ≠ 92) : Writes r [92, 117, a, b, c, d]
  | raw (hraw : ∀ b ∈ r.bytes, isRaw b = true) (hne : r.bytes ≠ []) : Writes r r.bytes

/-- What is written for one character, in four cases. -/
theorem Rune.escape_cases (r : Rune) :
    r = .char '"' ∧ r.escape = [92, 34] ∨ r = .char '\\' ∧ r.escape = [92, 92] ∨
      r ≠ .char '"' ∧ r ≠ .char '\\' ∧ Writes r r.escape := by
  cases r with
  | invalid b =>
    exact .inr (.inr ⟨by simp, by simp,
      .code 102 102 102 100 (by decide) (by decide) (by decide) (by decide)⟩)
  | char c =>
    by_cases hquote : c = '"'
    · exact .inl ⟨by rw [hquote], by rw [hquote]; rfl⟩
    by_cases hback : c = '\\'
    · exact .inr (.inl ⟨by rw [hback], by rw [hback]; rfl⟩)
    refine .inr (.inr ⟨by simpa using hquote, by simpa using hback, ?_⟩)
    simp only [escape, escapeChar, if_neg hquote, if_neg hback]
    split_ifs with h8 h12 h10 h13 h9 hlow hsep
    · exact .short _ (by decide)
    · exact .short _ (by decide)
    · exact .short _ (by decide)
    · exact .short _ (by decide)
    · exact .short _ (by decide)
    · have hsmall := lt_of_escaped hlow
      exact .code _ _ _ _ (by decide) (by decide) (hexDigit_bounds _ (by omega))
        (hexDigit_bounds _ (by omega))
    · exact .code _ _ _ _ (by decide) (by decide) (by decide) (hexDigit_bounds _ (by omega))
    · have h32 : 32 ≤ c.toNat := by
        simp only [Bool.or_eq_true, decide_eq_true_eq, not_or] at hlow
        omega
      exact .raw (r := .char c) (fun b hb => utf8EncodeChar_raw hquote hback h32 hb)
        String.utf8EncodeChar_ne_nil

variable {w : Bytes} {r : Rune}

theorem Writes.ne_nil (h : Writes r w) : w ≠ [] := by
  cases h with
  | short | code => simp
  | raw _ hne => exact hne

/-- What is written for a character has no bare quote. -/
theorem Writes.no_quote (h : Writes r w) : 34 ∉ w := by
  have hlow : ∀ d : UInt8, 48 ≤ d → 34 ≠ d := by
    rintro _ hd rfl
    exact absurd hd (by decide)
  cases h with
  | short c hc => simp [hlow c (UInt8.le_trans (by decide) hc)]
  | code a b c d ha hb hc hd =>
    simp [hlow a ha.1, hlow b hb.1, hlow c hc.1, hlow d hd.1]
  | raw hraw =>
    intro hmem
    have := hraw 34 hmem
    simp [isRaw] at this

theorem Writes.getLast_ne (h : Writes r w) : w.getLast? ≠ some 92 := by
  cases h with
  | short c hc =>
    have hne : c ≠ 92 := by
      rintro rfl
      exact absurd hc (by decide)
    simpa using hne
  | code a b c d ha hb hc hd => simpa using hd.2
  | raw hraw =>
    intro hlast
    have := hraw 92 (mem_of_getLast? hlast)
    simp [isRaw] at this

theorem Writes.printable (h : Writes r w) : ∀ b ∈ w, 32 ≤ b := by
  have hup : ∀ d : UInt8, 48 ≤ d → 32 ≤ d := fun d hd => UInt8.le_trans (by decide) hd
  cases h with
  | short c hc => simpa using UInt8.le_trans (by decide) hc
  | code a b c d ha hb hc hd => simp [hup a ha.1, hup b hb.1, hup c hc.1, hup d hd.1]
  | raw hraw =>
    intro b hb
    have := hraw b hb
    simp only [isRaw, Bool.and_eq_true, decide_eq_true_eq] at this
    exact this.1.1

theorem Rune.escape_ne_nil (r : Rune) : r.escape ≠ [] := by
  rcases r.escape_cases with ⟨-, h⟩ | ⟨-, h⟩ | ⟨-, -, h⟩
  · simp [h]
  · simp [h]
  · exact h.ne_nil

theorem Rune.no_quote_escape (hr : r ≠ .char '"') : 34 ∉ r.escape := by
  rcases r.escape_cases with ⟨h, -⟩ | ⟨-, h⟩ | ⟨-, -, h⟩
  · exact absurd h hr
  · simp [h]
  · exact h.no_quote

theorem Rune.escape_getLast : r.escape.getLast? = some 92 ↔ r = .char '\\' := by
  rcases r.escape_cases with ⟨hr, h⟩ | ⟨hr, h⟩ | ⟨-, hr, h⟩
  · rw [h, hr]
    decide
  · rw [h, hr]
    decide
  · exact iff_of_false h.getLast_ne hr

theorem Rune.escape_printable (r : Rune) : ∀ b ∈ r.escape, 32 ≤ b := by
  rcases r.escape_cases with ⟨-, h⟩ | ⟨-, h⟩ | ⟨-, -, h⟩
  · rw [h]
    decide +kernel
  · rw [h]
    decide +kernel
  · exact h.printable

/-! ## Strings -/

@[simp] theorem escape_nil : escape [] = [] := rfl

@[simp] theorem escape_cons (r : Rune) (s : Text) : escape (r :: s) = r.escape ++ escape s := by
  simp [escape]

@[simp] theorem escape_append (s t : Text) : escape (s ++ t) = escape s ++ escape t := by
  simp [escape]

variable {s : Text}

theorem escape_eq_nil : escape s = [] ↔ s = [] := by
  cases s with
  | nil => simp
  | cons r s => simp [r.escape_ne_nil]

theorem escape_printable (s : Text) : ∀ b ∈ escape s, 32 ≤ b := by
  intro b hb
  obtain ⟨r, -, hr⟩ := mem_flatMap.mp hb
  exact r.escape_printable b hr

theorem escape_getLast : (escape s).getLast? = some 92 ↔ s.getLast? = some (.char '\\') := by
  rcases eq_nil_or_concat s with rfl | ⟨t, r, rfl⟩
  · simp
  · rw [concat_eq_append, escape_append, escape_cons, escape_nil, append_nil,
      List.getLast?_append_of_ne_nil _ r.escape_ne_nil]
    simp [Rune.escape_getLast]

/-- A text that begins with a plain byte begins with that character. -/
theorem Rune.escape_eq_cons {b : UInt8} {t u : Bytes} (h : r.escape ++ t = b :: u) (hb : b ≠ 92)
    (hascii : b < 128) : r = .char (Char.ofNat b.toNat) ∧ t = u := by
  have hslash : ∀ w, r.escape = 92 :: w → False := by
    intro w hw
    rw [hw] at h
    exact hb (List.cons.inj h).1.symm
  rcases r.escape_cases with ⟨-, hw⟩ | ⟨-, hw⟩ | ⟨-, -, hw⟩
  · exact absurd hw (hslash _)
  · exact absurd hw (hslash _)
  · generalize hesc : r.escape = w at hw
    cases hw with
    | short | code => exact absurd hesc (hslash _)
    | raw =>
      cases r with
      | invalid b => exact absurd rfl (hslash _)
      | char c =>
        rw [hesc] at h
        by_cases hc : c.toNat ≤ 127
        · rw [Rune.bytes, utf8EncodeChar_ascii hc] at h
          obtain ⟨hcb, htu⟩ := List.cons.inj h
          refine ⟨?_, htu⟩
          rw [← hcb, toNat_ofNat_toNat hc, Char.ofNat_toNat]
        · obtain ⟨d, w, hdw⟩ := exists_cons_of_ne_nil (String.utf8EncodeChar_ne_nil (c := c))
          have hd := utf8EncodeChar_wide (by omega) (hdw ▸ mem_cons_self)
          rw [Rune.bytes, hdw] at h
          rw [(List.cons.inj h).1] at hd
          exact absurd hascii (UInt8.not_lt.mpr hd)

def isPlainChar (c : Char) : Bool :=
  32 ≤ c.toNat && c.toNat < 127 && escapeChar c == [UInt8.ofNat c.toNat]

/-- A plain word is written for that word only. -/
theorem escape_eq_lit {k : String} (hk : k.toList.all isPlainChar = true) :
    escape s = lit k ↔ s = text k := by
  unfold lit text
  generalize k.toList = cs at hk
  induction cs generalizing s with
  | nil => simp [escape_eq_nil]
  | cons c cs ih =>
    simp only [all_cons, Bool.and_eq_true, isPlainChar, decide_eq_true_eq, beq_iff_eq] at hk
    obtain ⟨⟨⟨hlow, hhigh⟩, hself⟩, hcs⟩ := hk
    have hnat := toNat_ofNat_toNat (c := c) (by omega)
    constructor
    · intro h
      cases s with
      | nil => cases h
      | cons r s =>
        rw [escape_cons, map_cons] at h
        have h92 : UInt8.ofNat c.toNat ≠ 92 := by
          intro hc
          have hc92 : c = '\\' := by
            apply Char.toNat_inj.mp
            rw [← hnat, hc]
            rfl
          rw [hc92] at hself
          cases hself
        have hascii : UInt8.ofNat c.toNat < 128 := by
          rw [lt_iff_toNat_lt, hnat]
          exact Nat.lt_succ_of_lt hhigh
        obtain ⟨hr, hs⟩ := Rune.escape_eq_cons h h92 hascii
        rw [hnat, Char.ofNat_toNat] at hr
        rw [hr, (ih hcs).mp hs, map_cons]
    · rintro rfl
      rw [map_cons, map_cons, escape_cons, (ih hcs).mpr rfl]
      change escapeChar c ++ _ = _
      rw [hself]
      rfl

def Rune.isWritten (r : Rune) : Bool := r.escape == r.bytes

/-- A character is written as it is exactly if its text has no backslash. -/
theorem Rune.isWritten_iff (r : Rune) : r.isWritten = true ↔ 92 ∉ r.escape := by
  rw [isWritten, beq_iff_eq]
  constructor
  · intro h hmem
    rw [h] at hmem
    cases r with
    | invalid b => exact absurd (congrArg List.length h) (by simp [Rune.escape, Rune.bytes])
    | char c =>
      by_cases hc : c.toNat ≤ 127
      · rw [Rune.bytes, utf8EncodeChar_ascii hc, mem_singleton] at hmem
        have hback : c = '\\' := by
          apply Char.toNat_inj.mp
          rw [← toNat_ofNat_toNat hc, ← hmem]
          rfl
        rw [hback] at h
        cases h
      · exact absurd (utf8EncodeChar_wide (by omega) hmem) (by decide)
  · intro h
    rcases r.escape_cases with ⟨-, hw⟩ | ⟨-, hw⟩ | ⟨-, -, hw⟩
    · simp [hw] at h
    · simp [hw] at h
    · generalize r.escape = w at h hw
      cases hw with
      | short | code => simp at h
      | raw => rfl

theorem escape_of_written (h : ∀ r ∈ s, r.isWritten = true) : escape s = bytes s :=
  flatMap_congr fun r hr => beq_iff_eq.mp (h r hr)

theorem no_slash_of_written (h : ∀ r ∈ s, r.isWritten = true) : 92 ∉ escape s := by
  intro hmem
  obtain ⟨r, hr, h92⟩ := mem_flatMap.mp hmem
  exact r.isWritten_iff.mp (h r hr) h92

theorem exists_chars (h : 92 ∉ escape s) : ∃ cs : List Char, s = cs.map .char := by
  induction s with
  | nil => exact ⟨[], rfl⟩
  | cons r s ih =>
    rw [escape_cons, mem_append, not_or] at h
    obtain ⟨cs, rfl⟩ := ih h.2
    cases r with
    | invalid b => exact absurd (by simp [Rune.escape]) h.1
    | char c => exact ⟨c :: cs, rfl⟩

theorem utf8_injective {cs ds : List Char}
    (h : cs.flatMap String.utf8EncodeChar = ds.flatMap String.utf8EncodeChar) : cs = ds := by
  have hencode : cs.utf8Encode = ds.utf8Encode := congrArg List.toByteArray h
  have hdecode := congrArg ByteArray.utf8Decode? hencode
  rw [List.utf8Decode?_utf8Encode, List.utf8Decode?_utf8Encode] at hdecode
  simpa using hdecode

/-- A text that needs no escape is written for that text only. -/
theorem eq_of_escape_eq {s t : Text} (ht : ∀ r ∈ t, r.isWritten = true)
    (h : escape s = escape t) : s = t := by
  have hno := no_slash_of_written ht
  have hs : ∀ r ∈ s, r.isWritten = true := by
    intro r hr
    refine r.isWritten_iff.mpr fun h92 => hno ?_
    rw [← h]
    exact mem_flatMap.mpr ⟨r, hr, h92⟩
  obtain ⟨cs, rfl⟩ := exists_chars (h ▸ hno)
  obtain ⟨ds, rfl⟩ := exists_chars hno
  rw [escape_of_written hs, escape_of_written ht] at h
  have hbytes : cs.flatMap String.utf8EncodeChar = ds.flatMap String.utf8EncodeChar := by
    simpa [bytes, flatMap_map, Rune.bytes] using h
  rw [utf8_injective hbytes]

/-- The characters after the last quote, with those of `cur` before. -/
def afterQuoteFrom (cur : Text) : Text → Text
  | [] => cur
  | r :: s => if r = .char '"' then afterQuoteFrom [] s else afterQuoteFrom (cur ++ [r]) s

def afterQuote (s : Text) : Text := afterQuoteFrom [] s

/-! ## Texts of the source -/

theorem bytes_text_ofList (cs : List Char) :
    bytes (text (String.ofList cs)) = cs.flatMap String.utf8EncodeChar := by
  simp [bytes, text, flatMap_map, Rune.bytes]

/-- `strings.Replace(s, old, new, 1)`. -/
def replaceFirst (old new : Bytes) : Bytes → Bytes
  | [] => if old.isEmpty then new else []
  | c :: s =>
    if old.isPrefixOf (c :: s) then new ++ (c :: s).drop old.length
    else c :: replaceFirst old new s

/-- Is `old` a part of the text? -/
def occurs (old : Bytes) : Bytes → Bool
  | [] => old.isEmpty
  | c :: s => old.isPrefixOf (c :: s) || occurs old s

theorem isPrefixOf_append {old s t : Bytes} {c : UInt8} (hc : c ∉ old)
    (h : old.isPrefixOf (s ++ c :: t) = true) : old.isPrefixOf s = true := by
  induction old generalizing s with
  | nil => rfl
  | cons b old ih =>
    obtain ⟨hb, hold⟩ : c ≠ b ∧ c ∉ old := by simpa using hc
    cases s with
    | nil =>
      have hhead : b = c := by
        simp [List.isPrefixOf] at h
        exact h.1
      exact absurd hhead.symm hb
    | cons d s =>
      simp only [cons_append, List.isPrefixOf, Bool.and_eq_true] at h ⊢
      exact ⟨h.1, ih hold h.2⟩

/-- A text without the pattern is passed over. -/
theorem replaceFirst_skip {old s : Bytes} {c : UInt8} (hc : c ∉ old) (h : occurs old s = false)
    (new t : Bytes) : replaceFirst old new (s ++ c :: t) = s ++ c :: replaceFirst old new t := by
  induction s with
  | nil =>
    have hfirst : old.isPrefixOf (c :: t) = false := by
      by_contra hprefix
      have hnil := isPrefixOf_append (s := []) hc (Bool.eq_true_of_not_eq_false hprefix)
      cases old with
      | nil => cases h
      | cons b old => cases hnil
    rw [nil_append, replaceFirst, hfirst]
    rfl
  | cons b s ih =>
    rw [occurs, Bool.or_eq_false_iff] at h
    have hfirst : old.isPrefixOf (b :: s ++ c :: t) = false := by
      by_contra hprefix
      have hline := isPrefixOf_append hc (Bool.eq_true_of_not_eq_false hprefix)
      rw [h.1] at hline
      cases hline
    rw [cons_append] at hfirst ⊢
    rw [replaceFirst, hfirst, ih h.2]
    rfl

theorem occurs_append_self (s old : Bytes) : occurs old (s ++ old) = true := by
  induction s with
  | nil =>
    cases old with
    | nil => rfl
    | cons c old => simp [occurs]
  | cons c s ih => rw [cons_append, occurs, ih, Bool.or_true]

theorem exists_replaceFirst {old s : Bytes} (h : occurs old s = true) (new : Bytes) :
    ∃ a b, s = a ++ old ++ b ∧ replaceFirst old new s = a ++ new ++ b := by
  induction s with
  | nil =>
    obtain rfl : old = [] := by simpa [occurs] using h
    exact ⟨[], [], rfl, by simp [replaceFirst]⟩
  | cons c s ih =>
    by_cases hprefix : old.isPrefixOf (c :: s) = true
    · obtain ⟨b, hb⟩ := isPrefixOf_iff_prefix.mp hprefix
      refine ⟨[], b, by rw [← hb]; rfl, ?_⟩
      rw [replaceFirst, if_pos hprefix, ← hb, drop_left]
      rfl
    · have hrest : occurs old s = true := by simpa [occurs, hprefix] using h
      obtain ⟨a, b, hs, hreplace⟩ := ih hrest
      refine ⟨c :: a, b, by rw [hs]; rfl, ?_⟩
      rw [replaceFirst, if_neg hprefix, hreplace]
      rfl

theorem replaceFirst_append_self {old : Bytes} (hold : old ≠ []) (new t : Bytes) :
    replaceFirst old new (old ++ t) = new ++ t := by
  cases old with
  | nil => exact absurd rfl hold
  | cons c old =>
    have hprefix : (c :: old).isPrefixOf (c :: (old ++ t)) = true :=
      isPrefixOf_iff_prefix.mpr (prefix_append (c :: old) t)
    rw [cons_append, replaceFirst, if_pos hprefix, ← cons_append, drop_left]

end CtForge.GoString
