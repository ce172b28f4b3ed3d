import CtForge.Lib.JsonDecode

/-!
# What stands between two quotes

A text that a program pastes between two quotes is read up to the first quote that is not escaped.
If the scanner accepts it there, it is read as some string, whatever follows; it is read as itself
only if nothing in it needs an escape.

* **`Weights.weigh_decode`**: quotes and backslashes of strings come from escapes, so the strings
  of a value have no more of them than its text has backslashes.
* **`reads_itself_iff`**: the texts that are read as themselves.
* **`last_of_valid`**: the byte that a text in the form of an object ends with.
-/

namespace CtForge.Json

open CLang List Scanner

/-- Between two quotes, `s` is read as `w`, whatever follows. -/
def Reads (s w : Bytes) : Prop := ∀ rest, unquote (s ++ 34 :: rest) = some (w, rest)

theorem Reads.unique {s v w : Bytes} (hv : Reads s v) (hw : Reads s w) : v = w :=
  (Prod.mk.inj (Option.some.inj ((hv []).symm.trans (hw [])))).1

theorem decodes_reads {s w : Bytes} (hbody : Body s) (h : Reads s w) :
    Decodes (string s) (.str w) := by
  refine ⟨valid_string hbody, fun rest => ⟨34, _, rfl, by decide, by decide⟩,
    fun fuel rest hfuel _ => ?_⟩
  have htext : string s ++ rest = 34 :: (s ++ 34 :: rest) := by simp [string]
  rw [htext, value_scalar (by decide) _ (Nat.zero_lt_of_lt hfuel), scalar, h]
  rfl

/-! ## Characters -/

theorem lead_cases {b n low high : Nat} (h : lead b = some (n, low, high)) :
    n = 1 ∧ 0xc2 ≤ b ∧ b ≤ 0xdf ∧ low = 0x80 ∧ high = 0xbf ∨
    n = 2 ∧ 0xe0 ≤ b ∧ b ≤ 0xef ∧ 0x80 ≤ low ∧ high ≤ 0xbf ∧ (b = 0xe0 → low = 0xa0) ∧
      (b = 0xed → high = 0x9f) ∨
    n = 3 ∧ 0xf0 ≤ b ∧ b ≤ 0xf4 ∧ 0x80 ≤ low ∧ high ≤ 0xbf ∧ (b = 0xf0 → low = 0x90) ∧
      (b = 0xf4 → high = 0x8f) := by
  unfold lead at h
  split_ifs at h <;> cases h <;> omega

theorem high_of_inRange {low high : Nat} (hlow : 128 ≤ low) {c : UInt8}
    (h : inRange low high c = true) : 128 ≤ c := by
  rw [inRange, Bool.and_eq_true, decide_eq_true_eq] at h
  exact UInt8.le_iff_toNat_le.mpr (Nat.le_trans hlow h.1)

/-- The bytes that belong to a character are not ASCII, and what is behind them does not count. -/
theorem tailLength_some {b : UInt8} {s : Bytes} {n : Nat} (h : tailLength b s = some n) :
    ∃ w t, s = w ++ t ∧ w.length = n ∧ (∀ c ∈ w, 128 ≤ c) ∧
      ∀ r, tailLength b (w ++ r) = some n := by
  unfold tailLength at h
  split at h
  · rename_i n low high c s hlead
    dsimp only at h
    split_ifs at h with hfits
    cases h
    simp only [Bool.and_eq_true, beq_iff_eq] at hfits
    obtain ⟨⟨hc, hlen⟩, htail⟩ := hfits
    have hcases := lead_cases hlead
    obtain ⟨m, rfl⟩ : ∃ m, n = m + 1 := ⟨n - 1, by omega⟩
    rw [Nat.add_sub_cancel] at hlen htail
    refine ⟨c :: s.take m, s.drop m, by simp, by simp [hlen], ?_, fun r => ?_⟩
    · refine forall_mem_cons.mpr ⟨high_of_inRange (by omega) hc, fun d hd => ?_⟩
      exact high_of_inRange (by decide) (all_eq_true.mp htail d hd)
    · rw [← hlen] at hlead
      rw [tailLength_of_lead hlead hc htail, length_cons, hlen]
  · cases h

/-- A quote behind a text does not change where its characters end. -/
theorem tailLength_quote (b : UInt8) (s rest : Bytes) :
    tailLength b (s ++ 34 :: rest) = tailLength b s := by
  cases h : tailLength b (s ++ 34 :: rest) with
  | some n =>
    obtain ⟨w, t, ht, -, hw, hany⟩ := tailLength_some h
    obtain ⟨r, rfl⟩ : ∃ r, s = w ++ r := by
      rcases append_eq_append_iff.mp ht with ⟨m, rfl, hm⟩ | ⟨m, hs, -⟩
      · cases m with
        | nil => exact ⟨[], by simp⟩
        | cons c m =>
          obtain ⟨rfl, -⟩ := List.cons.inj hm
          exact absurd (hw _ (mem_append_right _ mem_cons_self)) (by decide)
      · exact ⟨m, hs⟩
    exact (hany r).symm
  | none =>
    cases hs : tailLength b s with
    | none => rfl
    | some n =>
      obtain ⟨w, t, rfl, -, -, hany⟩ := tailLength_some hs
      rw [append_assoc, hany] at h
      exact h.symm

theorem exists_char {v : Nat} (h : v < 0xd800 ∨ 0xdfff < v ∧ v < 0x110000) :
    ∃ c : Char, c.val.toNat = v := by
  have hv : (UInt32.ofNat v).toNat = v := UInt32.toNat_ofNat_of_lt' (by show v < 4294967296; omega)
  refine ⟨⟨UInt32.ofNat v, ?_⟩, hv⟩
  show (UInt32.ofNat v).toNat.isValidChar
  rwa [hv]

theorem ofNat_eq {n : Nat} {b : UInt8} (h : n = b.toNat) : UInt8.ofNat n = b := by
  rw [h, UInt8.ofNat_toNat]

/-- Bytes that begin like a character in UTF-8 are one. -/
theorem char_of_tailLength {b : UInt8} {s : Bytes} {n : Nat} (h : tailLength b s = some n) :
    ∃ c : Char, 127 < c.toNat ∧ String.utf8EncodeChar c = b :: s.take n := by
  unfold tailLength at h
  split at h
  · rename_i n low high c s hlead
    dsimp only at h
    split_ifs at h with hfits
    cases h
    simp only [Bool.and_eq_true, beq_iff_eq, inRange, decide_eq_true_eq] at hfits
    obtain ⟨⟨⟨hlow, hhigh⟩, hlen⟩, htail⟩ := hfits
    rcases lead_cases hlead with ⟨rfl, hb⟩ | ⟨rfl, hb⟩ | ⟨rfl, hb⟩
    · obtain ⟨ch, hch⟩ := exists_char (v := (b.toNat - 0xc0) * 64 + (c.toNat - 0x80)) (by omega)
      refine ⟨ch, by show 127 < ch.val.toNat; omega, ?_⟩
      rw [String.utf8EncodeChar.eq_1, hch, if_neg (by omega), if_pos (by omega), take_succ_cons,
        take_zero, ofNat_eq (b := b) (by omega), ofNat_eq (b := c) (by omega)]
    · obtain ⟨d, hd⟩ : ∃ d, s.take 1 = [d] := length_eq_one_iff.mp hlen
      rw [hd] at htail
      simp only [all_cons, all_nil, inRange, Bool.and_true, Bool.and_eq_true,
        decide_eq_true_eq] at htail
      obtain ⟨ch, hch⟩ := exists_char (v := (b.toNat - 0xe0) * 4096 + (c.toNat - 0x80) * 64 +
        (d.toNat - 0x80)) (by omega)
      refine ⟨ch, by show 127 < ch.val.toNat; omega, ?_⟩
      rw [String.utf8EncodeChar.eq_1, hch, if_neg (by omega), if_neg (by omega), if_pos (by omega),
        take_succ_cons, hd, ofNat_eq (b := b) (by omega), ofNat_eq (b := c) (by omega),
        ofNat_eq (b := d) (by omega)]
    · obtain ⟨d, e, hd⟩ : ∃ d e, s.take 2 = [d, e] := length_eq_two.mp hlen
      rw [hd] at htail
      simp only [all_cons, all_nil, inRange, Bool.and_true, Bool.and_eq_true,
        decide_eq_true_eq] at htail
      obtain ⟨ch, hch⟩ := exists_char (v := (b.toNat - 0xf0) * 262144 + (c.toNat - 0x80) * 4096 +
        (d.toNat - 0x80) * 64 + (e.toNat - 0x80)) (by omega)
      refine ⟨ch, by show 127 < ch.val.toNat; omega, ?_⟩
      rw [String.utf8EncodeChar.eq_1, hch, if_neg (by omega), if_neg (by omega), if_neg (by omega),
        take_succ_cons, hd, ofNat_eq (b := b) (by omega), ofNat_eq (b := c) (by omega),
        ofNat_eq (b := d) (by omega), ofNat_eq (b := e) (by omega)]
  · cases h

/-! ## Escapes -/

theorem run_code {left : Nat} {s : Bytes}
    (h : Scanner.run ⟨.inStringCode left, []⟩ s = ⟨.inString, []⟩) :
    ∃ w t, s = w ++ t ∧ w.length = left + 1 ∧ w.all isHex = true ∧ Body t := by
  have hstep : ∀ left c, Scanner.step ⟨.inStringCode left, []⟩ c = if isHex c then
    ⟨if left == 0 then .inString else .inStringCode (left - 1), []⟩ else ⟨.error, []⟩ :=
      fun _ _ => rfl
  induction left generalizing s with
  | zero | succ left ih =>
    cases s with
    | nil => cases h
    | cons c s =>
      rw [run_cons, hstep] at h
      by_cases hc : isHex c = true
      · rw [if_pos hc] at h
        first
        | exact ⟨[c], s, rfl, rfl, by simp [hc], h⟩
        | obtain ⟨w, t, rfl, hlen, hw, ht⟩ := ih h
          exact ⟨c :: w, t, rfl, by rw [length_cons, hlen], by simp [hc, hw], ht⟩
      · rw [if_neg hc, run_error] at h
        cases h

/-- What stands behind the backslash of an escape. -/
def Escape (e : Bytes) : Prop :=
  (∃ d, e = [d] ∧ [98, 102, 110, 114, 116, 92, 47, 34].elem d = true) ∨
    ∃ w, e = 117 :: w ∧ w.length = 4 ∧ w.all isHex = true

/-- What stands between quotes begins with a plain byte or with an escape. -/
theorem body_cons {c : UInt8} {s : Bytes} (h : Body (c :: s)) :
    isPlain c = true ∧ Body s ∨ c = 92 ∧ ∃ e t, s = e ++ t ∧ Escape e ∧ Body t := by
  rw [Body, run_cons] at h
  simp only [Scanner.step] at h
  split_ifs at h with hquote hback hlow
  · exact absurd (congrArg Scanner.state h) (run_done (.inl rfl) s)
  · refine .inr ⟨beq_iff_eq.mp hback, ?_⟩
    cases s with
    | nil => cases h
    | cons d s =>
      rw [run_cons] at h
      simp only [Scanner.step] at h
      split_ifs at h with hshort hcode
      · exact ⟨[d], s, rfl, .inl ⟨d, rfl, hshort⟩, h⟩
      · obtain ⟨w, t, rfl, hlen, hw, ht⟩ := run_code h
        rw [beq_iff_eq.mp hcode]
        exact ⟨117 :: w, t, rfl, .inr ⟨w, rfl, hlen, hw⟩, ht⟩
      · exact absurd (congrArg Scanner.state h) (run_done (.inr (.inr rfl)) s)
  · exact absurd (congrArg Scanner.state h) (run_done (.inr (.inr rfl)) s)
  · refine .inl ⟨?_, h⟩
    simp only [beq_iff_eq] at hquote hback
    simp [isPlain, hquote, hback, UInt8.not_lt.mp hlow]

theorem Body.of_append {s t : Bytes} (hs : Body s) (h : Body (s ++ t)) : Body t := by
  rwa [Body, run_append, hs] at h

theorem hex4_isHex {w : Bytes} (hlen : w.length = 4) (hw : w.all isHex = true) :
    ∃ n, ∀ rest, hex4 (w ++ rest) = some n := by
  have hdigit : ∀ c, isHex c = true → ∃ n, hexValue c = some n := fun c hc =>
    Option.isSome_iff_exists.mp (forall_byte (p := fun c => isHex c = true →
      (hexValue c).isSome = true) (by decide +kernel) c hc)
  obtain ⟨a, b, c, d, rfl⟩ := length_eq_four.mp hlen
  simp only [all_cons, all_nil, Bool.and_true, Bool.and_eq_true] at hw
  obtain ⟨na, ha⟩ := hdigit a hw.1
  obtain ⟨nb, hb⟩ := hdigit b hw.2.1
  obtain ⟨nc, hc⟩ := hdigit c hw.2.2.1
  obtain ⟨nd, hd⟩ := hdigit d hw.2.2.2
  refine ⟨(na * 16 + nb) * 256 + nc * 16 + nd, fun rest => ?_⟩
  simp only [cons_append, hex4, ha, hb, hc, hd]
  rfl

/-- A `\u` is read with the escape behind it if they are a surrogate pair. -/
theorem unicodeAt_of_body {w t : Bytes} (hlen : w.length = 4) (hw : w.all isHex = true)
    (ht : Body t) : ∃ v u r, w ++ t = u ++ r ∧ Body r ∧
      ∀ rest, unicodeAt (u ++ (r ++ 34 :: rest)) = some (v, u.length + 1) := by
  obtain ⟨n, hn⟩ := hex4_isHex hlen hw
  by_cases hplain : n < 0xd800 ∨ 0xe000 ≤ n
  · refine ⟨encodeRune n, w, t, rfl, ht, fun rest => ?_⟩
    rw [unicodeAt, hn, hlen]
    exact if_pos hplain
  have hnext : ∀ s, unicodeAt (w ++ s) = some (surrogateAt n s) := by
    intro s
    have hdrop : (w ++ s).drop 4 = s := by rw [← hlen, drop_left]
    simp only [unicodeAt, hn, if_neg hplain, hdrop]
  have halone : (∀ rest, surrogateAt n (t ++ 34 :: rest) = (replacement, 5)) →
      ∃ v u r, w ++ t = u ++ r ∧ Body r ∧
        ∀ rest, unicodeAt (u ++ (r ++ 34 :: rest)) = some (v, u.length + 1) :=
    fun h => ⟨replacement, w, t, rfl, ht, fun rest => by rw [hnext, h rest, hlen]⟩
  cases t with
  | nil => exact halone fun rest => rfl
  | cons c t =>
    rcases body_cons ht with ⟨hc, -⟩ | ⟨rfl, e, r, rfl, ⟨d, rfl, hd⟩ | ⟨w', rfl, hlen', hw'⟩, hr⟩
    · refine halone fun rest => ?_
      rw [cons_append]
      unfold surrogateAt
      split
      · rename_i heq
        rw [(List.cons.inj heq).1] at hc
        cases hc
      · rfl
    · refine halone fun rest => ?_
      rw [cons_append]
      unfold surrogateAt
      split
      · rename_i heq
        rw [(List.cons.inj (List.cons.inj heq).2).1] at hd
        cases hd
      · rfl
    · obtain ⟨m, hm⟩ := hex4_isHex hlen' hw'
      by_cases hpair : n < 0xdc00 ∧ 0xdc00 ≤ m ∧ m < 0xe000
      · refine ⟨encodeRune ((n - 0xd800) * 0x400 + (m - 0xdc00) + 0x10000), w ++ 92 :: 117 :: w',
          r, by simp, hr, fun rest => ?_⟩
        rw [append_assoc, hnext]
        simp only [surrogateAt, cons_append, hm, if_pos hpair, length_append,
          length_cons, hlen, hlen']
      · refine halone fun rest => ?_
        simp only [surrogateAt, cons_append, append_assoc, hm, if_neg hpair]

theorem escapeAt_of_body {e t : Bytes} (he : Escape e) (ht : Body t) :
    ∃ v u r, e ++ t = u ++ r ∧ Body r ∧
      ∀ rest, escapeAt (u ++ (r ++ 34 :: rest)) = some (v, u.length) := by
  rcases he with ⟨d, rfl, hd⟩ | ⟨w, rfl, hlen, hw⟩
  · obtain ⟨v, hv⟩ : ∃ v, ∀ rest, escapeAt (d :: rest) = some (v, 1) := by
      simp only [elem_eq_mem, decide_eq_true_eq, mem_cons, not_mem_nil, or_false] at hd
      rcases hd with rfl | rfl | rfl | rfl | rfl | rfl | rfl | rfl <;> exact ⟨_, fun _ => rfl⟩
    exact ⟨v, [d], t, rfl, ht, fun rest => hv _⟩
  · obtain ⟨v, u, r, hsplit, hr, hread⟩ := unicodeAt_of_body hlen hw ht
    exact ⟨v, 117 :: u, r, by rw [cons_append, hsplit, cons_append], hr, fun rest => hread rest⟩

theorem unquoteFrom_skip (w s : Bytes) : unquoteFrom w.length 0 (w ++ s) = unquoteFrom 0 0 s := by
  induction w with
  | nil => rfl
  | cons c w ih => rw [length_cons, cons_append, unquoteFrom, ih]

/-! ## Reading a literal -/

theorem plain_facts {c : UInt8} (h : isPlain c = true) : c ≠ 34 ∧ c ≠ 92 ∧ ¬ c < 32 := by
  simp only [isPlain, Bool.and_eq_true, decide_eq_true_eq, bne_iff_ne] at h
  exact ⟨h.1.2, h.2, UInt8.not_lt.mpr h.1.1⟩

theorem unquote_ascii {c : UInt8} (hc : isPlain c = true) (hascii : c < 128) (s : Bytes) :
    unquote (c :: s) = (unquote s).map (emit [c]) := by
  obtain ⟨hquote, hback, hlow⟩ := plain_facts hc
  rw [unquote, unquoteFrom, if_neg hquote, if_neg hback, if_neg hlow, if_pos hascii, unquote]

theorem unquote_invalid {c : UInt8} (hc : isPlain c = true) (hhigh : ¬ c < 128) {s : Bytes}
    (htail : tailLength c s = none) : unquote (c :: s) = (unquote s).map (emit replacement) := by
  obtain ⟨hquote, hback, hlow⟩ := plain_facts hc
  rw [unquote, unquoteFrom, if_neg hquote, if_neg hback, if_neg hlow, if_neg hhigh, htail, unquote]

theorem unquote_char {c : UInt8} (hc : isPlain c = true) (hhigh : ¬ c < 128) {w s : Bytes}
    (htail : tailLength c (w ++ s) = some w.length) :
    unquote (c :: (w ++ s)) = (unquote s).map (emit (c :: w)) := by
  obtain ⟨hquote, hback, hlow⟩ := plain_facts hc
  rw [unquote, unquoteFrom, if_neg hquote, if_neg hback, if_neg hlow, if_neg hhigh, htail]
  simp only [unquoteFrom_copy, map_emit_emit]
  rfl

theorem body_high {w : Bytes} (h : ∀ c ∈ w, 128 ≤ c) : Body w := body_of_plain fun c hc =>
  forall_byte (p := fun c => 128 ≤ c → isPlain c = true) (by decide +kernel) c (h c hc)

/-- What the scanner accepts between two quotes is read. -/
theorem reads_of_body (s : Bytes) (h : Body s) : ∃ w, Reads s w := by
  -- The induction is on the length: an escape or a character of several bytes is read at once.
  generalize hlen : s.length = n
  induction n using Nat.strong_induction_on generalizing s with
  | _ n ih =>
    have hstep : ∀ (u v : Bytes) {t : Bytes}, s = u ++ t → u ≠ [] → Body t →
        (∀ rest, unquote (s ++ 34 :: rest) = (unquote (t ++ 34 :: rest)).map (emit v)) →
        ∃ w, Reads s w := by
      intro u v t hs hu ht hread
      have hpos := length_pos_of_ne_nil hu
      have hshort : t.length < n := by
        rw [← hlen, hs, length_append]
        omega
      obtain ⟨w, hw⟩ := ih t.length hshort t ht rfl
      refine ⟨v ++ w, fun rest => ?_⟩
      rw [hread, hw]
      rfl
    cases s with
    | nil => exact ⟨[], fun rest => rfl⟩
    | cons c s =>
      rcases body_cons h with ⟨hc, hs⟩ | ⟨rfl, e, t, rfl, he, ht⟩
      · by_cases hascii : c < 128
        · exact hstep [c] [c] rfl (by simp) hs fun rest => unquote_ascii hc hascii _
        · cases htail : tailLength c s with
          | none =>
            refine hstep [c] replacement rfl (by simp) hs fun rest => unquote_invalid hc hascii ?_
            exact (tailLength_quote c s rest).trans htail
          | some m =>
            obtain ⟨w, t, rfl, rfl, hhigh, hany⟩ := tailLength_some htail
            refine hstep (c :: w) (c :: w) rfl (by simp) ((body_high hhigh).of_append hs) ?_
            intro rest
            rw [cons_append, append_assoc]
            exact unquote_char hc hascii (hany _)
      · obtain ⟨v, u, r, hsplit, hr, hread⟩ := escapeAt_of_body he ht
        refine hstep (92 :: u) v (by rw [hsplit]; rfl) (by simp) hr fun rest => ?_
        rw [hsplit, cons_append, append_assoc, unquote, unquoteFrom, if_neg (by decide), if_pos rfl,
          hread rest]
        simp only [unquoteFrom_skip, unquote]

/-- What a text that may stand between two quotes is read as. -/
def readAs (s : Bytes) : Bytes := ((unquote (s ++ [34])).map Prod.fst).getD []

theorem reads_readAs {s : Bytes} (h : Body s) : Reads s (readAs s) := by
  obtain ⟨w, hw⟩ := reads_of_body s h
  have hread : readAs s = w := by rw [readAs, hw []]; rfl
  rwa [hread]

theorem decodes_readAs {s : Bytes} (h : Body s) : Decodes (string s) (.str (readAs s)) :=
  decodes_reads h (reads_readAs h)

/-! ## Quotes and backslashes -/

def weigh (μ : UInt8 → Nat) : Bytes → Nat
  | [] => 0
  | c :: s => μ c + weigh μ s

theorem weigh_append (μ : UInt8 → Nat) (s t : Bytes) :
    weigh μ (s ++ t) = weigh μ s + weigh μ t := by
  induction s with
  | nil => simp [weigh]
  | cons c s ih => rw [cons_append, weigh, weigh, ih, Nat.add_assoc]

theorem weigh_suffix {ρ : UInt8 → Nat} {s t : Bytes} (h : t <:+ s) : weigh ρ t ≤ weigh ρ s := by
  obtain ⟨u, rfl⟩ := h
  rw [weigh_append]
  exact Nat.le_add_left _ _

theorem weigh_take_le {ρ : UInt8 → Nat} (s : Bytes) (n : Nat) : weigh ρ (s.take n) ≤ weigh ρ s := by
  have hsum := weigh_append ρ (s.take n) (s.drop n)
  rw [take_append_drop] at hsum
  omega

theorem weigh_eq_zero {μ : UInt8 → Nat} {s : Bytes} : weigh μ s = 0 ↔ ∀ c ∈ s, μ c = 0 := by
  induction s with
  | nil => simp [weigh]
  | cons c s ih => rw [weigh, Nat.add_eq_zero_iff, ih, forall_mem_cons]

def shortEscapes : List (UInt8 × UInt8) :=
  [(34, 34), (92, 92), (47, 47), (98, 8), (102, 12), (110, 10), (114, 13), (116, 9)]

/-- What `μ` weighs of a string is not more than what `ρ` weighs of the literal. -/
structure Weights (μ ρ : UInt8 → Nat) : Prop where
  plain : ∀ c, isPlain c = true → μ c ≤ ρ c
  high : ∀ c, 128 ≤ c → μ c = 0
  short : ∀ e ∈ shortEscapes, μ e.2 ≤ ρ 92 + ρ e.1
  code : ∀ c, c ≠ 92 → μ c ≤ ρ 92 + ρ 117
  back : ∀ s, hex4 s = some 92 → μ 92 ≤ ρ 92 + ρ 117 + weigh ρ (s.take 4)

theorem escapeAt_short {c : UInt8} (hc : c ≠ 117) {s v : Bytes} {n : Nat}
    (h : escapeAt (c :: s) = some (v, n)) : ∃ d, v = [d] ∧ n = 1 ∧ (c, d) ∈ shortEscapes := by
  unfold escapeAt at h
  split at h
  case h_9 s heq => exact absurd (List.cons.inj heq).1 hc
  case h_10 => cases h
  all_goals
    rename_i heq
    obtain ⟨rfl, -⟩ := List.cons.inj heq
    cases h
    exact ⟨_, rfl, rfl, by decide⟩

theorem surrogateAt_cases (n : Nat) (s : Bytes) :
    (∃ k ≠ 92, surrogateAt n s = (encodeRune k, 11)) ∨ surrogateAt n s = (replacement, 5) := by
  unfold surrogateAt
  split
  · split
    · split
      · exact .inl ⟨_, by omega, rfl⟩
      · exact .inr rfl
    · exact .inr rfl
  · exact .inr rfl

theorem unicodeAt_cases {s v : Bytes} {n : Nat} (h : unicodeAt s = some (v, n)) :
    0 < n ∧ ((∃ k ≠ 92, v = encodeRune k) ∨ v = replacement) ∨
      n = 5 ∧ v = [92] ∧ hex4 s = some 92 := by
  unfold unicodeAt at h
  split at h
  · cases h
  · rename_i k hk
    split_ifs at h
    · cases h
      by_cases hback : k = 92
      · subst hback
        exact .inr ⟨rfl, by decide, hk⟩
      · exact .inl ⟨by decide, .inl ⟨k, hback, rfl⟩⟩
    · have heq := Option.some.inj h
      refine .inl ?_
      rcases surrogateAt_cases k (s.drop 4) with ⟨m, hm, hrune⟩ | hm
      · obtain ⟨rfl, rfl⟩ := Prod.mk.inj (heq.symm.trans hrune)
        exact ⟨by decide, .inl ⟨m, hm, rfl⟩⟩
      · obtain ⟨rfl, rfl⟩ := Prod.mk.inj (heq.symm.trans hm)
        exact ⟨by decide, .inr rfl⟩

theorem map_emit_eq_some {v w rest : Bytes} {r : Option (Bytes × Bytes)} :
    r.map (emit v) = some (w, rest) ↔ ∃ w', r = some (w', rest) ∧ w = v ++ w' := by
  constructor
  · intro h
    obtain ⟨⟨w', rest'⟩, rfl, heq⟩ := Option.map_eq_some_iff.mp h
    obtain ⟨rfl, rfl⟩ := Prod.mk.inj heq
    exact ⟨w', rfl, rfl⟩
  · rintro ⟨w', rfl, rfl⟩
    rfl

namespace Weights

variable {μ ρ : UInt8 → Nat} (h : Weights μ ρ)

include h

theorem weigh_high {s : Bytes} (hs : ∀ c ∈ s, 128 ≤ c) : weigh μ s = 0 :=
  weigh_eq_zero.mpr fun c hc => h.high c (hs c hc)

theorem weigh_replacement : weigh μ replacement = 0 := h.weigh_high (by decide +kernel)

theorem weigh_rune {n : Nat} (hn : n ≠ 92) : weigh μ (encodeRune n) ≤ ρ 92 + ρ 117 := by
  unfold encodeRune
  by_cases hascii : (Char.ofNat n).toNat ≤ 127
  · rw [GoString.utf8EncodeChar_ascii hascii]
    refine h.code _ fun hback => ?_
    have hval : (Char.ofNat n).toNat = 92 := by
      have hmod := congrArg UInt8.toNat hback
      rw [UInt8.toNat_ofNat'] at hmod
      change _ % 256 = 92 at hmod
      omega
    by_cases hvalid : n.isValidChar
    · rw [Char.ofNat, dif_pos hvalid] at hval
      exact hn hval
    · rw [Char.ofNat, dif_neg hvalid] at hval
      cases hval
  · rw [h.weigh_high fun c hc => GoString.utf8EncodeChar_wide (Nat.lt_of_not_le hascii) hc]
    exact Nat.zero_le _

theorem weigh_escape {s v : Bytes} {n : Nat} (hs : escapeAt s = some (v, n)) :
    weigh μ v ≤ ρ 92 + weigh ρ (s.take n) := by
  cases s with
  | nil => cases hs
  | cons c s =>
    by_cases hcode : c = 117
    · subst hcode
      rcases unicodeAt_cases hs with ⟨hn, hv⟩ | ⟨rfl, rfl, hback⟩
      · obtain ⟨m, rfl⟩ := Nat.exists_eq_succ_of_ne_zero (Nat.ne_of_gt hn)
        have hle : weigh μ v ≤ ρ 92 + ρ 117 := by
          rcases hv with ⟨k, hk, rfl⟩ | rfl
          · exact h.weigh_rune hk
          · exact h.weigh_replacement ▸ Nat.zero_le _
        rw [take_succ_cons, weigh]
        omega
      · have hle := h.back s hback
        rw [take_succ_cons, weigh, weigh, weigh]
        omega
    · obtain ⟨d, rfl, rfl, hc⟩ := escapeAt_short hcode hs
      simpa [weigh] using h.short _ hc

/-- Along a string, what is read weighs no more than what its text pays. -/
theorem weigh_unquoteFrom {skip copy : Nat} {s w rest : Bytes}
    (hs : unquoteFrom skip copy s = some (w, rest))
    (hcopy : ∀ c ∈ (s.drop skip).take copy, 128 ≤ c) :
    weigh μ w + ρ 34 + weigh ρ rest ≤ weigh ρ (s.drop skip) := by
  induction s generalizing skip copy w with
  | nil => cases skip <;> cases copy <;> cases hs
  | cons c s ih =>
    cases skip with
    | succ skip => exact ih hs hcopy
    | zero =>
      -- Where nothing is skipped, what is left of the literal weighs enough by induction.
      have hrest : ∀ {copy : Nat} {w' : Bytes}, unquoteFrom 0 copy s = some (w', rest) →
          (∀ c ∈ s.take copy, 128 ≤ c) → weigh μ w' + ρ 34 + weigh ρ rest ≤ weigh ρ s := by
        intro copy w' hs hcopy
        exact ih hs hcopy
      rw [drop_zero, weigh]
      cases copy with
      | succ copy =>
        obtain ⟨w', hs', rfl⟩ := map_emit_eq_some.mp hs
        obtain ⟨hc, hcopy⟩ := forall_mem_cons.mp hcopy
        have hle := hrest hs' hcopy
        rw [singleton_append, weigh, h.high c hc]
        omega
      | zero =>
        unfold unquoteFrom at hs
        split_ifs at hs with hquote hback hlow hascii
        · cases hs
          rw [hquote, weigh]
          omega
        · split at hs
          · cases hs
          · rename_i v n hescape
            obtain ⟨w', hs', rfl⟩ := map_emit_eq_some.mp hs
            have hv := h.weigh_escape hescape
            have hle := ih hs' (by simp)
            have hparts := weigh_append ρ (s.take n) (s.drop n)
            rw [take_append_drop] at hparts
            rw [weigh_append, hback]
            omega
        · obtain ⟨w', hs', rfl⟩ := map_emit_eq_some.mp hs
          have hle := hrest hs' (by simp)
          have hc := h.plain c (by simp [isPlain, hquote, hback, UInt8.not_lt.mp hlow])
          rw [singleton_append, weigh]
          omega
        · split at hs
          · obtain ⟨w', hs', rfl⟩ := map_emit_eq_some.mp hs
            have hle := hrest hs' (by simp)
            rw [weigh_append, h.weigh_replacement]
            omega
          · rename_i n htail
            obtain ⟨u, t, rfl, rfl, hu, -⟩ := tailLength_some htail
            obtain ⟨w', hs', rfl⟩ := map_emit_eq_some.mp hs
            have hle := hrest hs' (by simpa using hu)
            rw [singleton_append, weigh, h.high c (UInt8.not_lt.mp hascii)]
            omega

theorem weigh_unquote {s w rest : Bytes} (hs : unquote s = some (w, rest)) :
    weigh μ w + ρ 34 + weigh ρ rest ≤ weigh ρ s :=
  h.weigh_unquoteFrom hs (by simp)

theorem weigh_reads {s w : Bytes} (hs : Reads s w) : weigh μ w ≤ weigh ρ s := by
  have hle := h.weigh_unquote (hs [])
  simp only [weigh_append, weigh] at hle
  omega

end Weights

/-! ### Strings of a value -/

mutual

def Value.weigh (μ : UInt8 → Nat) : Value → Nat
  | .str s => Json.weigh μ s
  | .arr vs => weighElements μ vs
  | .obj ms => weighMembers μ ms
  | _ => 0

def weighElements (μ : UInt8 → Nat) : List Value → Nat
  | [] => 0
  | v :: vs => v.weigh μ + weighElements μ vs

def weighMembers (μ : UInt8 → Nat) : List (Bytes × Value) → Nat
  | [] => 0
  | (_, v) :: ms => v.weigh μ + weighMembers μ ms

end

theorem weighElements_sublist {μ : UInt8 → Nat} {vs ws : List Value} (h : vs <+ ws) :
    weighElements μ vs ≤ weighElements μ ws := by
  induction h with
  | slnil => exact Nat.le_refl _
  | cons w _ ih => exact ih.trans (Nat.le_add_left _ _)
  | cons_cons w _ ih => exact Nat.add_le_add_left ih _

section Text

variable {ρ : UInt8 → Nat} {s t : Bytes}

theorem weigh_skipBlank_le (s : Bytes) : weigh ρ (skipBlank s) ≤ weigh ρ s :=
  weigh_suffix (dropWhile_suffix isBlank)

theorem weigh_skipBlank {c : UInt8} (h : skipBlank s = c :: t) : weigh ρ t ≤ weigh ρ s := by
  have hle := weigh_skipBlank_le (ρ := ρ) s
  rw [h, weigh] at hle
  omega

end Text

/-- A reader takes no more from the text than what it reads weighs. -/
def Fair (ρ : UInt8 → Nat) {α : Type} (measure : α → Nat) (read : Bytes → Option (α × Bytes)) :
    Prop :=
  ∀ s a rest, read s = some (a, rest) → measure a + weigh ρ rest ≤ weigh ρ s

namespace Weights

variable {μ ρ : UInt8 → Nat} (h : Weights μ ρ) {fuel : Nat}

include h in
theorem fair_scalar : Fair ρ (Value.weigh μ) scalar := by
  intro s v rest hs
  have hdrop : ∀ (c : UInt8) (t : Bytes) (n : Nat), weigh ρ (t.drop n) ≤ weigh ρ (c :: t) :=
    fun c t n => weigh_suffix ((drop_suffix n t).trans (suffix_cons c t))
  unfold scalar at hs
  split at hs
  · cases hs
    simpa [Value.weigh] using hdrop _ _ 3
  · cases hs
    simpa [Value.weigh] using hdrop _ _ 3
  · cases hs
    simpa [Value.weigh] using hdrop _ _ 4
  · obtain ⟨⟨w, t⟩, hr, heq⟩ := Option.map_eq_some_iff.mp hs
    obtain ⟨rfl, rfl⟩ := Prod.mk.inj heq
    have hle := h.weigh_unquote hr
    simp only [Value.weigh, weigh]
    omega
  · cases hs
    simpa [Value.weigh] using weigh_suffix (dropWhile_suffix isNumberByte)

include h in
/-- A value is read fairly if elements and members are, with less fuel. -/
theorem fair_value (helements : Fair ρ (weighElements μ) (elements fuel))
    (hmembers : Fair ρ (weighMembers μ) (members fuel)) :
    Fair ρ (Value.weigh μ) (value (fuel + 1)) := by
  intro s v rest hs
  -- An object or an array, empty or with members.
  have hopened : ∀ {t : Bytes} {c d : UInt8}, skipBlank s = c :: t → skipBlank t = d :: rest →
      weigh ρ rest ≤ weigh ρ s := fun ho hc => (weigh_skipBlank hc).trans (weigh_skipBlank ho)
  have hinside : ∀ {t : Bytes} {c : UInt8} {n : Nat}, skipBlank s = c :: t →
      n + weigh ρ rest ≤ weigh ρ (skipBlank t) → n + weigh ρ rest ≤ weigh ρ s := fun ho hle =>
    (hle.trans (weigh_skipBlank_le _)).trans (weigh_skipBlank ho)
  unfold value at hs
  split at hs
  · rename_i t hopen
    split at hs
    · rename_i hclose
      cases hs
      simpa [Value.weigh, weighMembers] using hopened hopen hclose
    · obtain ⟨⟨ms, t'⟩, hr, heq⟩ := Option.map_eq_some_iff.mp hs
      obtain ⟨rfl, rfl⟩ := Prod.mk.inj heq
      exact hinside hopen (hmembers _ _ _ hr)
  · rename_i t hopen
    split at hs
    · rename_i hclose
      cases hs
      simpa [Value.weigh, weighElements] using hopened hopen hclose
    · obtain ⟨⟨vs, t'⟩, hr, heq⟩ := Option.map_eq_some_iff.mp hs
      obtain ⟨rfl, rfl⟩ := Prod.mk.inj heq
      exact hinside hopen (helements _ _ _ hr)
  · exact (h.fair_scalar _ _ _ hs).trans (weigh_skipBlank_le s)

theorem fair_elements (hvalue : Fair ρ (Value.weigh μ) (value fuel))
    (helements : Fair ρ (weighElements μ) (elements fuel)) :
    Fair ρ (weighElements μ) (elements (fuel + 1)) := by
  intro s vs rest hs
  unfold elements at hs
  split at hs
  · cases hs
  · rename_i v t hv
    have hv := hvalue _ _ _ hv
    split at hs
    · rename_i hclose
      have hclose := weigh_skipBlank (ρ := ρ) hclose
      cases hs
      simp only [weighElements]
      omega
    · rename_i hcomma
      have hcomma := weigh_skipBlank (ρ := ρ) hcomma
      obtain ⟨⟨vs, t'⟩, hr, heq⟩ := Option.map_eq_some_iff.mp hs
      obtain ⟨rfl, rfl⟩ := Prod.mk.inj heq
      have hle := helements _ _ _ hr
      simp only [weighElements]
      omega
    · cases hs

include h in
/-- The members of an object are read fairly if values are, with less fuel. -/
theorem fair_members (hvalue : Fair ρ (Value.weigh μ) (value fuel))
    (hmembers : Fair ρ (weighMembers μ) (members fuel)) :
    Fair ρ (weighMembers μ) (members (fuel + 1)) := by
  intro s ms rest hs
  unfold members at hs
  split at hs
  · rename_i t hopen
    have hopen := weigh_skipBlank (ρ := ρ) hopen
    split at hs
    · cases hs
    · rename_i key t₁ hkey
      have hkey := h.weigh_unquote hkey
      split at hs
      · rename_i hcolon
        have hcolon := weigh_skipBlank (ρ := ρ) hcolon
        split at hs
        · cases hs
        · rename_i v t₂ hv
          have hv := hvalue _ _ _ hv
          split at hs
          · rename_i hclose
            have hclose := weigh_skipBlank (ρ := ρ) hclose
            cases hs
            simp only [weighMembers]
            omega
          · rename_i hcomma
            have hcomma := weigh_skipBlank (ρ := ρ) hcomma
            obtain ⟨⟨vs, t'⟩, hr, heq⟩ := Option.map_eq_some_iff.mp hs
            obtain ⟨rfl, rfl⟩ := Prod.mk.inj heq
            have hle := hmembers _ _ _ hr
            simp only [weighMembers]
            omega
          · cases hs
      · cases hs
  · cases hs

include h

theorem fair (fuel : Nat) : Fair ρ (Value.weigh μ) (value fuel) ∧
    Fair ρ (weighElements μ) (elements fuel) ∧ Fair ρ (weighMembers μ) (members fuel) := by
  induction fuel with
  | zero => refine ⟨?_, ?_, ?_⟩ <;> intro s a rest hs <;> cases hs
  | succ fuel ih =>
    obtain ⟨hvalue, helements, hmembers⟩ := ih
    exact ⟨h.fair_value helements hmembers, fair_elements hvalue helements,
      h.fair_members hvalue hmembers⟩

theorem weigh_decode {s : Bytes} {v : Value} (hs : decode s = some v) :
    v.weigh μ ≤ weigh ρ s := by
  unfold decode at hs
  split_ifs at hs
  obtain ⟨⟨v', rest⟩, hr, rfl⟩ := Option.map_eq_some_iff.mp hs
  exact (Nat.le_add_right _ _).trans ((h.fair _).1 _ _ _ hr)

end Weights

/-! ## Texts that are read as themselves -/

/-- What a byte of a literal pays for: the backslash of an escape, and the last digit of the code
of a backslash. -/
def pays (c : UInt8) : Nat := if c == 92 || c == 99 || c == 67 then 1 else 0

/-- A byte that needs an escape. -/
def strange (c : UInt8) : Nat := if isPlain c then 0 else 1

/-- What a byte of a string costs. -/
def costs (c : UInt8) : Nat := pays c + strange c

theorem last_of_back {s : Bytes} (h : hex4 s = some 92) : 0 < weigh pays (s.take 4) := by
  have hdigit : ∀ d : UInt8, (hexValue d).all (fun w =>
    w < 16 && (w != 12 || pays d == 1)) = true :=
    forall_byte (by decide +kernel)
  unfold hex4 at h
  split at h
  · rename_i a b c d t
    simp only [Option.bind_eq_bind, Option.bind_eq_some_iff] at h
    obtain ⟨u, -, v, -, x, -, w, hw, h⟩ := h
    have hsum := Option.some.inj h
    have hlast := hdigit d
    simp only [hw, Option.all_some, Bool.and_eq_true, Bool.or_eq_true, decide_eq_true_eq,
      bne_iff_ne, beq_iff_eq] at hlast
    simp only [take_succ_cons, weigh]
    omega
  · cases h

theorem weights_costs : Weights costs pays where
  plain := forall_byte (by decide +kernel)
  high := forall_byte (by decide +kernel)
  short e he := by
    have hall : shortEscapes.all (fun e => costs e.2 ≤ pays 92 + pays e.1) = true := by decide
    exact of_decide_eq_true (all_eq_true.mp hall e he)
  code := forall_byte (by decide +kernel)
  back := by
    intro s hs
    have hlast := last_of_back hs
    have hback : costs 92 = 2 ∧ pays 92 = 1 := by decide
    omega

theorem weigh_costs (s : Bytes) : weigh costs s = weigh pays s + weigh strange s := by
  induction s with
  | nil => rfl
  | cons c s ih =>
    rw [weigh, weigh, weigh, ih, costs]
    omega

theorem plain_of_strange {s : Bytes} (h : weigh strange s = 0) : ∀ c ∈ s, isPlain c = true := by
  intro c hc
  simpa [strange] using weigh_eq_zero.mp h c hc

theorem plain_of_reads_itself {s : Bytes} (h : Reads s s) : ∀ c ∈ s, isPlain c = true := by
  have hle := weights_costs.weigh_reads h
  have hsum := weigh_costs s
  exact plain_of_strange (by omega)

/-- UTF-8 in which nothing needs an escape. -/
def LiteralText (s : Bytes) : Prop := ∃ cs : List Char, s = utf8 cs ∧ cs.all isLiteral = true

theorem LiteralText.nil : LiteralText [] := ⟨[], rfl, rfl⟩

theorem LiteralText.append {s t : Bytes} (hs : LiteralText s) (ht : LiteralText t) :
    LiteralText (s ++ t) := by
  obtain ⟨cs, rfl, hcs⟩ := hs
  obtain ⟨ds, rfl, hds⟩ := ht
  exact ⟨cs ++ ds, by simp [utf8], by simp [hcs, hds]⟩

/-- A text that needs no escape may stand between two quotes. -/
theorem LiteralText.body {s : Bytes} (h : LiteralText s) : Body s := by
  obtain ⟨cs, rfl, hcs⟩ := h
  exact body_of_plain (raw_utf8 hcs)

theorem LiteralText.reads {s : Bytes} (h : LiteralText s) : Reads s s := by
  obtain ⟨cs, rfl, hcs⟩ := h
  exact fun rest => (unquotes_utf8 hcs).unquote rest

theorem LiteralText.plain {s : Bytes} (h : LiteralText s) : ∀ c ∈ s, isPlain c = true :=
  plain_of_reads_itself h.reads

theorem literal_cons {s t : Bytes} {c : Char} (hc : String.utf8EncodeChar c ++ t = s)
    (hliteral : isLiteral c = true) (ht : LiteralText t) : LiteralText s := by
  obtain ⟨cs, rfl, hcs⟩ := ht
  exact ⟨c :: cs, hc.symm, by simp [hliteral, hcs]⟩

theorem isLiteral_of_plain {c : Char} {b : UInt8} (hc : c.val.toNat = b.toNat)
    (hb : isPlain b = true) : isLiteral c = true := by
  have hbytes : isPlain b = true → 32 ≤ b.toNat ∧ b.toNat ≠ 34 ∧ b.toNat ≠ 92 :=
    forall_byte (p := fun b => isPlain b = true → 32 ≤ b.toNat ∧ b.toNat ≠ 34 ∧ b.toNat ≠ 92)
      (by decide +kernel) b
  obtain ⟨hlow, hquote, hback⟩ := hbytes hb
  rw [← hc] at hlow hquote hback
  simp only [isLiteral, Bool.and_eq_true, decide_eq_true_eq, bne_iff_ne]
  refine ⟨⟨hlow, ?_⟩, ?_⟩
  · rintro rfl
    exact hquote rfl
  · rintro rfl
    exact hback rfl

/-- A text that is read as itself is made of characters that need no escape. -/
theorem literal_of_reads (s : Bytes) (hs : ∀ c ∈ s, isPlain c = true) (h : Reads s s) :
    LiteralText s := by
  generalize hlen : s.length = n
  induction n using Nat.strong_induction_on generalizing s with
  | _ n ih =>
    cases s with
    | nil => exact .nil
    | cons c s =>
      obtain ⟨hc, hs⟩ := forall_mem_cons.mp hs
      rw [length_cons] at hlen
      by_cases hascii : c < 128
      · obtain ⟨ch, hch⟩ := exists_char (v := c.toNat) (by have := c.toNat_lt; omega)
        have hle : ch.toNat ≤ 127 := by
          have hlt := UInt8.lt_iff_toNat_lt.mp hascii
          show ch.val.toNat ≤ 127
          rw [hch]
          exact Nat.le_of_lt_succ hlt
        have hread : Reads s s := fun rest => by
          obtain ⟨w, hw, heq⟩ :=
            map_emit_eq_some.mp ((unquote_ascii hc hascii _).symm.trans (h rest))
          obtain rfl : s = w := (List.cons.inj heq).2
          exact hw
        refine literal_cons ?_ (isLiteral_of_plain hch hc) (ih s.length (by omega) s hs hread rfl)
        rw [GoString.utf8EncodeChar_ascii hle, ofNat_eq (n := ch.toNat) hch, singleton_append]
      · cases htail : tailLength c s with
        | none =>
          -- The replacement would have been a character.
          have hnone := (tailLength_quote c s []).trans htail
          obtain ⟨w, -, heq⟩ :=
            map_emit_eq_some.mp ((unquote_invalid hc hascii hnone).symm.trans (h []))
          obtain ⟨rfl, rfl⟩ := List.cons.inj heq
          cases htail
        | some n =>
          obtain ⟨ch, hwide, hbytes⟩ := char_of_tailLength htail
          obtain ⟨w, t, rfl, rfl, hhigh, hany⟩ := tailLength_some htail
          rw [take_left] at hbytes
          have hread : Reads t t := fun rest => by
            have hchar := unquote_char hc hascii (hany (t ++ 34 :: rest))
            rw [← append_assoc] at hchar
            obtain ⟨w', hw', heq⟩ := map_emit_eq_some.mp (hchar.symm.trans (h rest))
            obtain rfl : t = w' := append_cancel_left (List.cons.inj heq).2
            exact hw'
          have ht : ∀ d ∈ t, isPlain d = true := fun d hd => hs d (mem_append_right w hd)
          refine literal_cons (by rw [hbytes]; rfl) ?_
            (ih t.length (by rw [length_append] at hlen; omega) t ht hread rfl)
          simp only [isLiteral, Bool.and_eq_true, decide_eq_true_eq, bne_iff_ne]
          refine ⟨⟨by omega, ?_⟩, ?_⟩
          · rintro rfl
            exact absurd hwide (by decide)
          · rintro rfl
            exact absurd hwide (by decide)

/-- Between two quotes, the texts that nothing needs an escape in are read as themselves, and no
others. -/
theorem reads_itself_iff {s : Bytes} : Reads s s ↔ LiteralText s :=
  ⟨fun h => literal_of_reads s (plain_of_reads_itself h) h, fun h => h.reads⟩

theorem literal_of_readAs {s : Bytes} (h : Body s) (heq : s = readAs s) : LiteralText s := by
  have hreads := reads_readAs h
  rw [← heq] at hreads
  exact reads_itself_iff.mp hreads

/-! ## What an object weighs -/

/-- Weights that nothing of an object has but its values. -/
structure Inner (ρ : UInt8 → Nat) : Prop where
  quote : ρ 34 = 0
  comma : ρ 44 = 0
  colon : ρ 58 = 0
  brace : ρ 123 = 0 ∧ ρ 125 = 0
  bracket : ρ 91 = 0 ∧ ρ 93 = 0

theorem inner_pays : Inner pays := ⟨rfl, rfl, rfl, ⟨rfl, rfl⟩, ⟨rfl, rfl⟩⟩

namespace Inner

variable {ρ : UInt8 → Nat} (h : Inner ρ)

include h

theorem weigh_string (s : Bytes) : weigh ρ (string s) = weigh ρ s := by
  simp [string, weigh_append, weigh, h.quote]

theorem weigh_commaSep (ss : List Bytes) : weigh ρ (commaSep ss) = weigh ρ ss.flatten := by
  have hcommas : ∀ ss : List Bytes, weigh ρ (ss.flatMap (44 :: ·)) = weigh ρ ss.flatten := by
    intro ss
    induction ss with
    | nil => rfl
    | cons s ss ih =>
      rw [flatMap_cons, flatten_cons, weigh_append, weigh_append, ih, weigh, h.comma, Nat.zero_add]
  cases ss with
  | nil => rfl
  | cons s ss => rw [commaSep, flatten_cons, weigh_append, weigh_append, hcommas]

theorem weigh_object {ms : List (String × Bytes)} (hkeys : ∀ m ∈ ms, weigh ρ (lit m.1) = 0) :
    weigh ρ (object ms) = weigh ρ (ms.flatMap (·.2)) := by
  have hmembers : weigh ρ (ms.map member).flatten = weigh ρ (ms.flatMap (·.2)) := by
    induction ms with
    | nil => rfl
    | cons m ms ih =>
      obtain ⟨hm, hms⟩ := forall_mem_cons.mp hkeys
      rw [map_cons, flatten_cons, flatMap_cons, weigh_append, weigh_append, ih hms, member,
        weigh_append, h.weigh_string, hm, weigh, h.colon, Nat.zero_add, Nat.zero_add]
  simp [object, weigh, weigh_append, h.brace, h.weigh_commaSep, hmembers]

end Inner

/-! ## The end of an object -/

theorem object_concat (front : List (String × Bytes)) (k : String) (v : Bytes) :
    ∃ u, object (front ++ [(k, v)]) = u ++ v ++ [125] := by
  cases front with
  | nil => exact ⟨123 :: (string (lit k) ++ [58]), by simp [object, commaSep, member]⟩
  | cons m front =>
    exact ⟨123 :: (commaSep ((m :: front).map member) ++ 44 :: (string (lit k) ++ [58])), by
      simp [object, commaSep, member]⟩

/-- Something is open, or nothing but blanks may follow. -/
def Closed (sc : Scanner) : Prop := sc.stack ≠ [] ∨ sc.state = .endTop ∨ sc.state = .error

/-- One byte keeps an open object open, closes it, or is an error. -/
theorem Closed.step {sc : Scanner} (h : Closed sc) (c : UInt8) : Closed (sc.step c) ∧
    ((sc.step c).state = .error ∨ (sc.step c).stack ≠ [] ∨ isBlank c = true ∨ c = 125 ∨
      c = 93) := by
  by_cases herr : (sc.step c).state = .error
  · exact ⟨.inr (.inr herr), .inl herr⟩
  rcases h with hopen | htop | hfail
  · cases hquoted : sc.state.quoted with
    | true =>
      have hstack := (step_inside hquoted herr).1.symm ▸ hopen
      exact ⟨.inl hstack, .inr (.inl hstack)⟩
    | false =>
      have hout := step_outside hquoted herr
      by_cases hnil : (sc.step c).stack = []
      · have hclose : c = 125 ∨ c = 93 := by
          have hdepth := hout.depth
          have hpos := length_pos_of_ne_nil hopen
          rw [hnil, length_nil, depthAfter] at hdepth
          split_ifs at hdepth with hin hclose
          · simpa using hclose
          · omega
        exact ⟨.inr (.inl (hout.top hnil (by simpa using hclose))), .inr (.inr (.inr hclose))⟩
      · exact ⟨.inl hnil, .inr (.inl hnil)⟩
  · obtain ⟨state, stack⟩ := sc
    obtain rfl : state = .endTop := htop
    by_cases hblank : isBlank c = true
    · exact ⟨.inr (.inl (by simp [Scanner.step, hblank])), .inr (.inr (.inl hblank))⟩
    · exact absurd (by simp [Scanner.step, hblank, Scanner.fail]) herr
  · exact absurd (by simp [Scanner.step, hfail]) herr

/-- The last byte of an object that the scanner accepts closes it, blanks apart. -/
theorem last_of_valid {p : Bytes} {d : UInt8} (h : valid (123 :: p ++ [d]) = true) :
    isBlank d = true ∨ d = 125 ∨ d = 93 := by
  have hclosed : ∀ (p : Bytes) (sc : Scanner), Closed sc → Closed (sc.run p) := by
    intro p
    induction p with
    | nil => exact fun sc h => h
    | cons c p ih => exact fun sc h => ih (sc.step c) (h.step c).1
  have hopen : Closed ⟨.beginStringOrEmpty, [.key]⟩ := .inl (cons_ne_nil _ _)
  have hgood := not_error_of_valid h
  have hstack := stack_of_valid h
  rw [run_append] at hgood hstack
  exact (((hclosed p _ hopen).step d).2.resolve_left hgood).resolve_left (fun hne => hne hstack)

end CtForge.Json
