import CtForge.Lib.FlatJson
import CtForge.Agent.Frames

/-!
# Keys of a flat object

`find_key` knows no grammar: it goes from quote to quote, and takes a string for a name if a
colon follows it. In a flat object it still ends each string where JSON ends it, so that it
finds exactly the names. The payloads of the server are such objects.
-/

namespace CtForge.Agent

open CLang GoString Json List Option

/-! ## Names and strings -/

theorem findKeyFrom_skip (key : Bytes) {a : Bytes} (ha : 34 ∉ a) (t : Bytes) :
    findKeyFrom key false (a ++ t) = findKeyFrom key false t := by
  induction a with
  | nil => rfl
  | cons c a ih =>
    obtain ⟨hc, ha⟩ : 34 ≠ c ∧ 34 ∉ a := by simpa using ha
    rw [cons_append, findKeyFrom]
    · exact ih ha
    · rintro rfl
      exact hc rfl

section Key

variable {key : Bytes} (hquote : 34 ∉ key) (hback : 92 ∉ key)

include hquote hback

variable {body : Bytes}

/-- A key with its quote stands at the beginning of the string that is the key only. -/
theorem eq_of_body_starts (hbody : Body body) {t : Bytes}
    (h : key ++ [34] <+: body ++ 34 :: t) : body = key := by
  revert key
  refine Body.induction (P := fun body => ∀ {key : Bytes}, 34 ∉ key → 92 ∉ key →
    key ++ [34] <+: body ++ 34 :: t → body = key) ?nil ?plain ?pair body hbody
  case nil =>
    intro key hquote _ h
    cases key with
    | nil => rfl
    | cons k key =>
      rw [cons_append, nil_append, cons_prefix_cons] at h
      exact absurd (h.1 ▸ mem_cons_self) hquote
  case plain =>
    intro c s hc ih key hquote hback h
    cases key with
    | nil =>
      rw [nil_append, cons_append, cons_prefix_cons] at h
      rw [← h.1] at hc
      cases hc
    | cons k key =>
      rw [cons_append, cons_append, cons_prefix_cons] at h
      rw [h.1, ih (fun hk => hquote (mem_cons_of_mem _ hk))
        (fun hk => hback (mem_cons_of_mem _ hk)) h.2]
  case pair =>
    intro c s _ key _ hback h
    cases key with
    | nil =>
      rw [nil_append, cons_append, cons_prefix_cons] at h
      cases h.1
    | cons k key =>
      rw [cons_append, cons_append, cons_prefix_cons] at h
      exact absurd (h.1 ▸ mem_cons_self) hback

theorem matchKey_body (hbody : Body body) (hne : body ≠ key) (t : Bytes) :
    matchKey key (body ++ 34 :: t) = none := by
  have hpre : ¬ startsWith (body ++ 34 :: t) (key ++ [34]) = true := by
    rw [startsWith_iff]
    intro h
    exact hne (eq_of_body_starts hquote hback hbody h)
  rw [matchKey, if_neg hpre]

end Key

variable {key : Bytes}

/-- A key with its quote matches exactly if a colon follows the blanks behind it. -/
theorem matchKey_blanks (key : Bytes) (b : Blanks) {c : UInt8} (hc : isSpace c = false)
    (t : Bytes) : matchKey key (key ++ 34 :: (b.bytes ++ c :: t)) =
      if c = 58 then some t else none := by
  have hpre : startsWith (key ++ 34 :: (b.bytes ++ c :: t)) (key ++ [34]) = true :=
    startsWith_iff.mpr ⟨b.bytes ++ c :: t, by simp⟩
  have hdrop : (key ++ 34 :: (b.bytes ++ c :: t)).drop (key.length + 1) = b.bytes ++ c :: t := by
    rw [← drop_drop, drop_left]
    rfl
  have hspace : ∀ d ∈ b.bytes, isSpace d = true := by
    intro d hd
    have hblank := all_eq_true.mp b.blank d hd
    exact forall_byte (p := fun d => Json.isBlank d = true → isSpace d = true) (by decide +kernel) d
      hblank
  rw [matchKey, if_pos hpre, hdrop, dropWhile_append_of_pos hspace,
    dropWhile_cons_of_neg (by simp [hc])]
  split
  · next h =>
    obtain ⟨rfl, rfl⟩ := List.cons.inj h
    rfl
  · next h =>
    rw [if_neg]
    rintro rfl
    exact h t rfl

theorem findKeyFrom_body (key : Bytes) (hbody : Body body) (t : Bytes) :
    findKeyFrom key true (body ++ 34 :: t) = findKeyFrom key false t := by
  refine Body.induction (P := fun body => findKeyFrom key true (body ++ 34 :: t) =
    findKeyFrom key false t) rfl ?plain ?pair body hbody
  case plain =>
    intro c s hc ih
    have hne : c ≠ 34 ∧ c ≠ 92 := by
      simp only [isPlain, Bool.and_eq_true, bne_iff_ne] at hc
      exact ⟨hc.1.2, hc.2⟩
    rw [cons_append, findKeyFrom, ih]
    · intro d p hcd _
      exact hne.2 hcd
    · exact hne.1
  case pair =>
    intro c s ih
    rw [cons_append, cons_append, findKeyFrom, ih]

/-! ## Members -/

theorem Blanks.no_quote (b : Blanks) : 34 ∉ b.bytes := by
  intro h
  cases all_eq_true.mp b.blank 34 h

def Ends (t : Bytes) : Prop := ∃ c u, t = c :: u ∧ (c = 44 ∨ c = 125)

theorem ends_rest (o : FlatObject) (after : List Member) : Ends (o.rest after) := by
  cases after with
  | nil => exact ⟨125, _, rfl, .inr rfl⟩
  | cons m after => exact ⟨44, _, o.rest_cons m after, .inl rfl⟩

section Search

variable (hquote : 34 ∉ key) (hback : 92 ∉ key)

include hquote hback

theorem findKeyFrom_scalar (v : Scalar) (b : Blanks) {t : Bytes} (ht : Ends t) :
    findKeyFrom key false (v.text ++ (b.bytes ++ t)) = findKeyFrom key false t := by
  have hskip : findKeyFrom key false (b.bytes ++ t) = findKeyFrom key false t :=
    findKeyFrom_skip key (Blanks.no_quote b) t
  cases v with
  | str s =>
    have hmatch : matchKey key (s.body ++ 34 :: (b.bytes ++ t)) = none := by
      by_cases hkey : s.body = key
      · obtain ⟨c, u, rfl, hc⟩ := ht
        rw [hkey, matchKey_blanks key b (by rcases hc with rfl | rfl <;> rfl), if_neg]
        rcases hc with rfl | rfl <;> decide
      · exact matchKey_body hquote hback s.ok hkey _
    have htext : Scalar.text (.str s) ++ (b.bytes ++ t) =
      34 :: (s.body ++ 34 :: (b.bytes ++ t)) := by
      simp [Scalar.text, string]
    rw [htext, findKeyFrom, hmatch, none_or, findKeyFrom_body key s.ok, hskip]
  | num n =>
    refine (findKeyFrom_skip key ?_ _).trans hskip
    intro h
    cases all_eq_true.mp n.number 34 h
  | word w => exact (findKeyFrom_skip key (by cases w <;> decide) _).trans hskip

/-- The search over one member. -/
theorem findKeyFrom_member (m : Member) {t : Bytes} (ht : Ends t) :
    findKeyFrom key false (m.text ++ t) =
      if m.name.body = key then some (m.behindColon ++ t) else findKeyFrom key false t := by
  have htext : m.text ++ t = m.lead.bytes ++ 34 :: (m.name.body ++ 34 ::
      (m.beforeColon.bytes ++ 58 :: (m.behindColon ++ t))) := by
    simp [Member.text, Member.upToColon, string]
  rw [htext, findKeyFrom_skip key (Blanks.no_quote m.lead), findKeyFrom]
  split
  · next hkey =>
    rw [hkey, matchKey_blanks key m.beforeColon (by decide), if_pos rfl]
    rfl
  · next hkey =>
    rw [matchKey_body hquote hback m.name.ok hkey, none_or, findKeyFrom_body key m.name.ok,
      findKeyFrom_skip key (Blanks.no_quote m.beforeColon), findKeyFrom, Member.behindColon,
      append_assoc, append_assoc, findKeyFrom_skip key (Blanks.no_quote m.afterColon),
      findKeyFrom_scalar hquote hback m.value m.trail ht]
    decide

theorem findKeyFrom_members (o : FlatObject) {before : List Member}
    (hbefore : ∀ b ∈ before, b.name.body ≠ key) (after : List Member) :
    findKeyFrom key false (o.rest (before ++ after)) = findKeyFrom key false (o.rest after) := by
  induction before with
  | nil => rfl
  | cons b before ih =>
    have hcomma : ∀ t, findKeyFrom key false (44 :: t) = findKeyFrom key false t := fun _ => rfl
    rw [cons_append, o.rest_cons, hcomma, findKeyFrom_member hquote hback b (ends_rest o _),
      if_neg (hbefore b mem_cons_self)]
    exact ih fun c hc => hbefore c (mem_cons_of_mem b hc)

end Search

theorem findKey_text (key : Bytes) (o : FlatObject) :
    findKey (cString o.text) key = findKeyFrom key false (o.rest o.members) := by
  rw [cString_eq_self (nul_not_mem_of_valid o.valid_text), findKey]
  cases hm : o.members with
  | nil =>
    have htext : o.text = (o.lead.bytes ++ 123 :: o.inside.bytes) ++ o.rest [] := by
      simp [FlatObject.text, FlatObject.contents, FlatObject.rest, hm]
    have hno : 34 ∉ o.lead.bytes ++ 123 :: o.inside.bytes := by
      simp [Blanks.no_quote]
    rw [htext, findKeyFrom_skip key hno]
  | cons m after =>
    rw [FlatObject.text_cons hm, findKeyFrom_skip key (Blanks.no_quote o.lead), o.rest_cons,
      findKeyFrom, findKeyFrom]
    · decide
    · decide

theorem findKey_member (hquote : 34 ∉ key) (hback : 92 ∉ key) {o : FlatObject}
    {before after : List Member} {m : Member} (h : o.members = before ++ m :: after)
    (hbefore : ∀ b ∈ before, b.name.body ≠ key) (hkey : m.name.body = key) :
    findKey (cString o.text) key = some (o.behindColon m after) := by
  rw [findKey_text, h, findKeyFrom_members hquote hback o hbefore, o.rest_cons,
    findKeyFrom, findKeyFrom_member hquote hback m (ends_rest o after), if_pos hkey]
  · rfl
  · decide

/-- The key is found behind the colon of its member, and nowhere else. -/
theorem findKey_exact (o : FlatObject) (hdistinct : (o.members.map (·.name.body)).Nodup)
    (key : Bytes) (hquote : 34 ∉ key) (hback : 92 ∉ key) :
    (∀ before m after, o.members = before ++ m :: after → m.name.body = key →
      o.text = o.upToColon before m ++ o.behindColon m after ∧
        findKey (cString o.text) key = some (o.behindColon m after)) ∧
    ((∀ m ∈ o.members, m.name.body ≠ key) → findKey (cString o.text) key = none) := by
  constructor
  · intro before m after h hkey
    refine ⟨FlatObject.text_split h, findKey_member hquote hback h ?_ hkey⟩
    intro b hb hbkey
    rw [h, map_append, map_cons, nodup_append] at hdistinct
    exact hdistinct.2.2 _ (mem_map_of_mem hb) _ mem_cons_self (hbkey.trans hkey.symm)
  · intro hother
    have hskip := findKeyFrom_members hquote hback o hother []
    rw [append_nil] at hskip
    rw [findKey_text, hskip, FlatObject.rest, flatMap_nil, nil_append,
      findKeyFrom, ← append_nil o.trail.bytes, findKeyFrom_skip key (Blanks.no_quote o.trail)]
    · rfl
    · decide

def misleading : FlatObject where
  lead := .none
  inside := .none
  members := [
    ⟨.none, ⟨lit "a", rfl⟩, .none, .none, .str ⟨lit "\\\"b\\\":1,", rfl⟩, .none⟩,
    ⟨⟨[32], rfl⟩, ⟨lit "b", rfl⟩, ⟨[32], rfl⟩, ⟨[32], rfl⟩, .num ⟨lit "7", rfl, rfl⟩, .none⟩]
  trail := .none

theorem found_behind_misleading :
    misleading.text = lit "\x7b\"a\":\"\\\"b\\\":1,\", \"b\" : 7\x7d" ∧
      findKey (cString misleading.text) (lit "b") = some (lit " 7\x7d") :=
  ⟨by decide, ((findKey_exact misleading (by decide) (lit "b") (by decide)
    (by decide)).1 [_] _ [] rfl rfl).2⟩

/-! ## Payloads of the server -/

theorem no_quote_escape {s : Text} (h : .char '"' ∉ s) : 34 ∉ escape s := by
  intro hmem
  obtain ⟨r, hr, hquote⟩ := mem_flatMap.mp hmem
  refine Rune.no_quote_escape ?_ hquote
  rintro rfl
  exact h hr

/-- What Go writes for a character may stand between two quotes. -/
theorem Rune.body_escape (r : Rune) : Body r.escape := by
  have hlow : ∀ a < 16, ∀ b < 16, Body [92, 117, 48, 48, hexDigit a, hexDigit b] := by
    decide
  have hwide : ∀ a < 16, Body [92, 117, 50, 48, 50, hexDigit a] := by decide
  cases r with
  | invalid b => rfl
  | char c =>
    rw [Rune.escape, escapeChar]
    split_ifs with hquote hback h8 h12 h10 h13 h9 hcode hsep
    any_goals rfl
    · have hsmall := lt_of_escaped hcode
      exact hlow _ (by omega) _ (by omega)
    · exact hwide _ (by omega)
    · have h32 : 32 ≤ c.toNat := by
        simp only [Bool.or_eq_true, decide_eq_true_eq, not_or] at hcode
        omega
      exact body_of_plain fun b hb => utf8EncodeChar_raw hquote hback h32 hb

theorem body_escape (s : Text) : Body (escape s) := .flatMap fun r _ => Rune.body_escape r

theorem IsKey.body {k : String} (hk : IsKey k) : Body (lit k) := by
  refine body_of_plain fun b hb => ?_
  obtain ⟨c, hc, rfl⟩ := mem_map.mp hb
  have hplain := all_eq_true.mp hk.1 c hc
  simp only [isPlainChar, Bool.and_eq_true, decide_eq_true_eq] at hplain
  have hquote : UInt8.ofNat c.toNat ≠ 34 := fun h => hk.2 34 (by decide) (h ▸ hb)
  have hback : UInt8.ofNat c.toNat ≠ 92 := fun h => hk.2 92 (by decide) (h ▸ hb)
  have hlow : (32 : UInt8) ≤ UInt8.ofNat c.toNat := by
    rw [UInt8.le_iff_toNat_le, UInt8.toNat_ofNat', Nat.mod_eq_of_lt (by omega)]
    exact hplain.1.1
  simp [isPlain, hlow, hquote, hback]

variable {k : String}

def Field.Flat (f : Field) : Prop := IsKey f.key ∧ ∀ p, f.value ≠ .obj p

/-- A field of a payload is a member of a flat object. -/
theorem Field.Flat.member {f : Field} (hf : f.Flat) : ∃ m : Member,
    m.name.body = lit f.key ∧ m.behindColon = f.value.text ∧ m.text = f.text := by
  obtain ⟨key, value⟩ := f
  obtain ⟨v, hv⟩ : ∃ v : Scalar, v.text = value.text := by
    cases value with
    | str s =>
      refine ⟨.str ⟨escape s, body_escape s⟩, ?_⟩
      simp [Scalar.text, string, FieldValue.text, quote]
    | num n =>
      refine ⟨.num ⟨decimalInt n, valid_decimalInt n, ?_⟩, rfl⟩
      exact all_eq_true.mpr fun c hc => isNumberByte_decimalInt hc
    | bool b => exact ⟨.word (if b then .yes else .no), by cases b <;> rfl⟩
    | obj p => exact absurd rfl (hf.2 p)
  refine ⟨⟨.none, ⟨lit key, hf.1.body⟩, .none, .none, v, .none⟩, rfl, ?_, ?_⟩
  · simp [Member.behindColon, Blanks.none, hv]
  · simp [Member.text, Member.upToColon, Member.behindColon, Blanks.none, hv, Field.text, quoted,
      string]

theorem ends_tail (fields : List Field) : Ends (tail fields) := by
  cases fields with
  | nil => exact ⟨125, [], rfl, .inr rfl⟩
  | cons f fields => exact ⟨44, _, tail_cons f fields, .inl rfl⟩

theorem findKeyFrom_field (hk : IsKey k) {f : Field} (hf : f.Flat) (fields : List Field) :
    findKeyFrom (lit k) false (f.text ++ tail fields) =
      if lit f.key = lit k then some (f.value.text ++ tail fields)
      else findKeyFrom (lit k) false (tail fields) := by
  obtain ⟨m, hname, hvalue, htext⟩ := hf.member
  rw [← htext, findKeyFrom_member (hk.2 34 (by decide)) (hk.2 92 (by decide)) m (ends_tail fields),
    hname, hvalue]

theorem findKeyFrom_before (hk : IsKey k) {before : List Field}
    (hbefore : ∀ f ∈ before, f.Flat ∧ lit f.key ≠ lit k) (after : List Field) :
    findKeyFrom (lit k) false (tail (before ++ after)) =
      findKeyFrom (lit k) false (tail after) := by
  induction before with
  | nil => rfl
  | cons f before ih =>
    obtain ⟨hflat, hne⟩ := hbefore f mem_cons_self
    rw [cons_append, tail_cons, findKeyFrom, findKeyFrom_field hk hflat, if_neg hne]
    · exact ih fun g hg => hbefore g (mem_cons_of_mem f hg)
    · simp

variable {fields : List Field}

theorem findKey_objectText (key : Bytes) (hne : fields ≠ []) :
    findKey (objectText fields) key = findKeyFrom key false (tail fields) := by
  obtain ⟨f, fields, rfl⟩ := exists_cons_of_ne_nil hne
  have htext : objectText (f :: fields) = [123] ++ (f.text ++ tail fields) := by
    simp [objectText, Json.commaSep, tail]
  have htail : tail (f :: fields) = [44] ++ (f.text ++ tail fields) := by
    simp [tail_cons]
  rw [findKey, htext, htail]
  exact (findKeyFrom_skip key (a := [123]) (by decide) _).trans
    (findKeyFrom_skip key (a := [44]) (by decide) _).symm

/-- The key of a field is found behind the colon of that field. -/
theorem findKey_field (hk : IsKey k) {before after : List Field} {f : Field}
    (hbefore : ∀ g ∈ before, g.Flat ∧ lit g.key ≠ lit k) (hf : f.Flat) (hkey : lit f.key = lit k) :
    findKey (objectText (before ++ f :: after)) (lit k) = some (f.value.text ++ tail after) := by
  rw [findKey_objectText _ (by simp), findKeyFrom_before hk hbefore, tail_cons, findKeyFrom,
    findKeyFrom_field hk hf, if_pos hkey]
  simp

theorem findKey_absent (hk : IsKey k) (hne : fields ≠ [])
    (hfields : ∀ g ∈ fields, g.Flat ∧ lit g.key ≠ lit k) :
    findKey (objectText fields) (lit k) = none := by
  have h := findKeyFrom_before hk hfields []
  rw [append_nil] at h
  rw [findKey_objectText _ hne, h]
  rfl

end CtForge.Agent
