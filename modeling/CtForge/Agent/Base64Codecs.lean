import CtForge.Agent.Commands

/-!
# Four base64 codecs (`util.c`, `portfwd.go`, `notify.go`)

The agent, the port forwards and the mail notifier each bring an encoder of their own. The
agent's decodes as well, and the server decodes with the standard library.
-/

namespace CtForge.Agent

open CLang List Function Option

/-! ## The encoders -/

/-- `b64tab`, which is also `tbl`. -/
def b64tab : Bytes := lit "ABCDEFGHIJKLMNOPQRSTUVWXYZabcdefghijklmnopqrstuvwxyz0123456789+/"

def b64tabAt (n : Nat) : UInt8 := b64tab.getD n 0

def packGroup (a b c : UInt8) : Nat := a.toNat <<< 16 ||| b.toNat <<< 8 ||| c.toNat

/-- A pass of the loop of `ctc_base64_encode`, with the index that it has reached. -/
def ctcEncodeGroup (len i : Nat) (a b c : UInt8) : Bytes :=
  let v := packGroup a b c
  [b64tabAt (v >>> 18 &&& 63), b64tabAt (v >>> 12 &&& 63),
    if i - 1 > len then 61 else b64tabAt (v >>> 6 &&& 63),
    if i > len + 1 then 61 else b64tabAt (v &&& 63)]

/-- The loop of `ctc_base64_encode`, from the index `i` on. -/
def ctcEncodeLoop (len : Nat) : (i : Nat) → Bytes → Bytes
  | _, [] => []
  | i, [a] => ctcEncodeGroup len (i + 1) a 0 0
  | i, [a, b] => ctcEncodeGroup len (i + 2) a b 0
  | i, a :: b :: c :: rest => ctcEncodeGroup len (i + 3) a b c ++ ctcEncodeLoop len (i + 3) rest

def patchPadding (len : Nat) (out : Bytes) : Bytes :=
  let olen := 4 * ((len + 2) / 3)
  if len % 3 = 1 then (out.set (olen - 1) 61).set (olen - 2) 61
  else if len % 3 = 2 then out.set (olen - 1) 61
  else out

/-- `ctc_base64_encode`. -/
def ctcBase64Encode (data : Bytes) : Bytes :=
  patchPadding data.length (ctcEncodeLoop data.length 0 data)

/-- A pass of the loop of the two encoders in Go; `rem` bytes are left. -/
def goEncodeGroup (rem : Nat) (a b c : UInt8) : Bytes :=
  let n := packGroup a b c
  [b64tabAt (n >>> 18 &&& 63), b64tabAt (n >>> 12 &&& 63),
    if rem > 1 then b64tabAt (n >>> 6 &&& 63) else 61,
    if rem > 2 then b64tabAt (n &&& 63) else 61]

def goEncodeLoop : Bytes → Bytes
  | [] => []
  | [a] => goEncodeGroup 1 a 0 0
  | [a, b] => goEncodeGroup 2 a b 0
  | a :: b :: c :: rest => goEncodeGroup (rest.length + 3) a b c ++ goEncodeLoop rest

/-- `portfwd.base64Encode`, which appends to a slice. -/
def portfwdBase64Encode (b : Bytes) : Bytes := goEncodeLoop b

/-- `notify.base64Encode`, which writes to a `strings.Builder`. -/
def notifyBase64Encode (b : Bytes) : Bytes := goEncodeLoop b

theorem b64tabAt_eq : ∀ n < 64, b64tabAt n = Base64.digit n := by
  rw [show b64tabAt = fun n => b64tab.getD n 0 from rfl, b64tab, lit_ofList]
  decide

theorem packGroup_eq (a b c : UInt8) :
    packGroup a b c = a.toNat * 65536 + b.toNat * 256 + c.toNat := by
  have hb : b.toNat <<< 8 < 2 ^ 16 := by
    have := b.toNat_lt
    rw [Nat.shiftLeft_eq]
    omega
  have hfront : a.toNat <<< 16 ||| b.toNat <<< 8 = (a.toNat * 256 + b.toNat) <<< 8 := by
    rw [← Nat.shiftLeft_add_eq_or_of_lt hb, Nat.shiftLeft_eq, Nat.shiftLeft_eq, Nat.shiftLeft_eq]
    omega
  rw [packGroup, hfront, ← Nat.shiftLeft_add_eq_or_of_lt c.toNat_lt, Nat.shiftLeft_eq]
  omega

theorem groupDigits (a b c : UInt8) :
    b64tabAt (packGroup a b c >>> 18 &&& 63) = Base64.digit (a.toNat / 4) ∧
      b64tabAt (packGroup a b c >>> 12 &&& 63) = Base64.digit (a.toNat % 4 * 16 + b.toNat / 16) ∧
      b64tabAt (packGroup a b c >>> 6 &&& 63) = Base64.digit (b.toNat % 16 * 4 + c.toNat / 64) ∧
      b64tabAt (packGroup a b c &&& 63) = Base64.digit (c.toNat % 64) := by
  have ha := a.toNat_lt
  have hb := b.toNat_lt
  have hc := c.toNat_lt
  have hmask : ∀ n, n &&& 63 = n % 64 := fun n => Nat.and_two_pow_sub_one_eq_mod n 6
  have hdigit : ∀ {m n : Nat}, m % 64 = n → b64tabAt (m % 64) = Base64.digit n := by
    rintro m n rfl
    exact b64tabAt_eq _ (Nat.mod_lt _ (by decide))
  simp only [hmask, packGroup_eq, Nat.shiftRight_eq_div_pow]
  refine ⟨hdigit ?_, hdigit ?_, hdigit ?_, hdigit ?_⟩ <;> omega

theorem ctcEncodeGroup_eq {len i : Nat} (h : i ≤ len) (a b c : UInt8) :
    ctcEncodeGroup len i a b c =
      [Base64.digit (a.toNat / 4), Base64.digit (a.toNat % 4 * 16 + b.toNat / 16),
        Base64.digit (b.toNat % 16 * 4 + c.toNat / 64), Base64.digit (c.toNat % 64)] := by
  obtain ⟨h1, h2, h3, h4⟩ := groupDigits a b c
  simp only [ctcEncodeGroup, h1, h2, h3, h4, if_neg (show ¬ i - 1 > len by omega),
    if_neg (show ¬ i > len + 1 by omega)]

theorem patchPadding_append (len : Nat) {group : Bytes} (hgroup : group.length = 4) (out : Bytes) :
    patchPadding (len + 3) (group ++ out) = group ++ patchPadding len out := by
  have hlen : 4 * ((len + 3 + 2) / 3) = 4 + 4 * ((len + 2) / 3) := by omega
  have hset : ∀ (k : Nat) (w : Bytes), 0 < 4 * ((len + 2) / 3) → k ≤ 4 →
      (group ++ w).set (4 + 4 * ((len + 2) / 3) - k) 61 =
        group ++ w.set (4 * ((len + 2) / 3) - k) 61 := by
    intro k w hpos hk
    rw [set_append_right _ _ (by omega), hgroup]
    congr 2
    omega
  simp only [patchPadding, hlen, Nat.add_mod_right]
  split_ifs with hone htwo
  · rw [hset 1 _ (by omega) (by decide), hset 2 _ (by omega) (by decide)]
  · exact hset 1 _ (by omega) (by decide)
  · rfl

theorem patch_ctcEncodeLoop (len i : Nat) (data : Bytes) (h : i + data.length ≤ len) :
    patchPadding data.length (ctcEncodeLoop len i data) = Base64.encode data := by
  fun_induction ctcEncodeLoop len i data with
  | case1 => rfl
  | case2 i a | case3 i a b =>
    rw [ctcEncodeGroup_eq (by simpa using h)]
    simp [patchPadding, Base64.encode]
  | case4 i a b c rest ih =>
    simp only [length_cons] at h ⊢
    rw [patchPadding_append _ rfl, ih (by omega), ctcEncodeGroup_eq (by omega), Base64.encode]
    rfl

theorem goEncodeLoop_eq (data : Bytes) : goEncodeLoop data = Base64.encode data := by
  fun_induction goEncodeLoop data with
  | case1 => rfl
  | case2 a =>
    obtain ⟨h1, h2, -, -⟩ := groupDigits a 0 0
    simp [goEncodeGroup, h1, h2, Base64.encode]
  | case3 a b =>
    obtain ⟨h1, h2, h3, -⟩ := groupDigits a b 0
    simp [goEncodeGroup, h1, h2, h3, Base64.encode]
  | case4 a b c rest ih =>
    obtain ⟨h1, h2, h3, h4⟩ := groupDigits a b c
    rw [ih, Base64.encode]
    simp [goEncodeGroup, h1, h2, h3, h4]

/-- The length that `ctc_base64_decode` reports. -/
def decodedLength (s : Bytes) : Nat := s.length / 4 * 3 - paddingOf s

/-- The three encoders are the standard encoding, and the agent's decoder inverts it. -/
theorem encoders_agree (b : Bytes) :
    ctcBase64Encode b = Base64.encode b ∧ portfwdBase64Encode b = Base64.encode b ∧
      notifyBase64Encode b = Base64.encode b ∧ base64Decode (Base64.encode b) = some b ∧
      decodedLength (Base64.encode b) = b.length :=
  ⟨patch_ctcEncodeLoop b.length 0 b (by omega), goEncodeLoop_eq b, goEncodeLoop_eq b,
    base64Decode_encode b, paddingOf_encode b⟩

/-! ## The decoders -/

def PadsLast (s : Bytes) : Prop :=
  ∃ body pads : Bytes, s = body ++ pads ∧ pads ∈ [[], [61], [61, 61]] ∧ 61 ∉ body

/-- The text that `DecodeString` reads, which passes over line ends. -/
def unbroken (s : Bytes) : Bytes := s.filter fun c => c != 10 && c != 13

/-- The text is neither groups of four up to a NUL, as the agent reads it, nor such groups with
padding at the end only, as the server reads it. -/
def Malformed (s : Bytes) : Prop :=
  isBase64 (cString s) = false ∧ ¬ (isBase64 (unbroken s) = true ∧ PadsLast (unbroken s))

/-- A text without a NUL and without line ends, padded at its end. -/
structure Tidy (s : Bytes) : Prop where
  padded : PadsLast s
  oneLine : ∀ c ∈ [0, 10, 13], c ∉ s

theorem value_eq_b64val (c : UInt8) : Base64.value c = b64val c :=
  forall_byte (p := fun c => Base64.value c = b64val c) (by decide +kernel) c

theorem b64pad_of_ne {c : UInt8} (h : c ≠ 61) : b64pad c = b64val c := by
  rw [b64pad, if_neg (by simpa using h)]

variable {s : Bytes}

theorem length_of_goGroups {s data : Bytes} (h : Base64.decodeGroups s = some data) :
    s.length % 4 = 0 := by
  fun_induction Base64.decodeGroups s generalizing data with
  | case1 => rfl
  | case2 | case3 => simp
  | case4 a b c d rest _ _ ih =>
    simp only [bind_eq_bind, bind_eq_some_iff] at h
    obtain ⟨m, -, n, -, o, -, p, -, tail, htail, -⟩ := h
    have hrest := ih htail
    simp only [length_cons]
    omega
  | case5 => cases h

/-- What the server decodes has its padding at the end. -/
theorem padsLast_of_goGroups {s data : Bytes} (h : Base64.decodeGroups s = some data) :
    PadsLast s := by
  have hne : ∀ {c : UInt8} {n : Nat}, Base64.value c = some n → 61 ≠ c := by
    rintro c n hc rfl
    cases hc
  fun_induction Base64.decodeGroups s generalizing data with
  | case1 => exact ⟨[], [], rfl, by simp, by simp⟩
  | case2 a b =>
    simp only [bind_eq_bind, bind_eq_some_iff] at h
    obtain ⟨m, hm, n, hn, -⟩ := h
    exact ⟨[a, b], [61, 61], rfl, by simp, by simp [hne hm, hne hn]⟩
  | case3 a b c =>
    simp only [bind_eq_bind, bind_eq_some_iff] at h
    obtain ⟨m, hm, n, hn, o, ho, -⟩ := h
    exact ⟨[a, b, c], [61], rfl, by simp, by simp [hne hm, hne hn, hne ho]⟩
  | case4 a b c d rest _ _ ih =>
    simp only [bind_eq_bind, bind_eq_some_iff] at h
    obtain ⟨m, hm, n, hn, o, ho, p, hp, tail, htail, -⟩ := h
    obtain ⟨body, pads, rfl, hpads, hbody⟩ := ih htail
    exact ⟨a :: b :: c :: d :: body, pads, rfl, hpads,
      by simp [hne hm, hne hn, hne ho, hne hp, hbody]⟩
  | case5 => cases h

/-- Padding at the end only leaves none in a group before the last. -/
theorem PadsLast.of_append (group : Bytes) {rest : Bytes} (h : PadsLast (group ++ rest))
    (hrest : 2 ≤ rest.length) : 61 ∉ group ∧ PadsLast rest := by
  obtain ⟨body, pads, heq, hpads, hbody⟩ := h
  have hshort : pads.length ≤ 2 := by
    simp only [mem_cons, not_mem_nil, or_false] at hpads
    rcases hpads with rfl | rfl | rfl <;> simp
  have hlen := congrArg List.length heq
  simp only [length_append] at hlen
  obtain ⟨more, rfl⟩ : group <+: body :=
    prefix_of_prefix_length_le ⟨rest, heq⟩ (prefix_append body pads) (by omega)
  rw [append_assoc, append_cancel_left_eq] at heq
  rw [mem_append, not_or] at hbody
  exact ⟨hbody.1, more, pads, heq, hpads, hbody.2⟩

theorem paddingOf_le (s : Bytes) : paddingOf s ≤ 2 := by
  unfold paddingOf
  split_ifs <;> omega

theorem b64val_lt {c : UInt8} {n : Nat} (h : b64val c = some n) : n < 64 :=
  forall_byte (p := fun c => ∀ n ∈ b64val c, n < 64) (by decide +kernel) c n h

theorem ofNat_congr {m n : Nat} (h : m % 256 = n % 256) : UInt8.ofNat m = UInt8.ofNat n := by
  apply UInt8.toNat_inj.mp
  rw [UInt8.toNat_ofNat', UInt8.toNat_ofNat']
  exact h

theorem groupBytes {m n o p : Nat} (ho : o < 64) (hp : p < 64) :
    let v := m * 262144 + n * 4096 + o * 64 + p
    UInt8.ofNat (v / 65536) = UInt8.ofNat (m * 4 + n / 16) ∧
      UInt8.ofNat (v / 256) = UInt8.ofNat (n % 16 * 16 + o / 4) ∧
      UInt8.ofNat v = UInt8.ofNat (o % 4 * 64 + p) := by
  refine ⟨ofNat_congr ?_, ofNat_congr ?_, ofNat_congr ?_⟩ <;> omega

theorem decodeGroups_cons {a b c d : UInt8} (hc : c ≠ 61) (hd : d ≠ 61) (rest : Bytes) :
    decodeGroups (a :: b :: c :: d :: rest) = (do
      let m ← Base64.value a
      let n ← Base64.value b
      let o ← Base64.value c
      let p ← Base64.value d
      let data ← decodeGroups rest
      return UInt8.ofNat (m * 4 + n / 16) :: UInt8.ofNat (n % 16 * 16 + o / 4) ::
        UInt8.ofNat (o % 4 * 64 + p) :: data) := by
  simp only [decodeGroups, b64pad_of_ne hc, b64pad_of_ne hd, value_eq_b64val]
  refine bind_congr fun m _ => bind_congr fun n _ => bind_congr fun o ho =>
    bind_congr fun p hp => bind_congr fun data _ => ?_
  obtain ⟨h1, h2, h3⟩ := groupBytes (m := m) (n := n) (b64val_lt ho) (b64val_lt hp)
  simp only [h1, h2, h3]

theorem base64Decode_eq (h : s.length % 4 = 0) :
    base64Decode s = (decodeGroups s).map (·.take (decodedLength s)) := by
  rw [base64Decode, if_neg (by simp [h])]
  rfl

theorem decodedLength_cons (a b c d : UInt8) {rest : Bytes} (hrest : 4 ≤ rest.length) :
    decodedLength (a :: b :: c :: d :: rest) = decodedLength rest + 3 := by
  have hpad := paddingOf_append [a, b, c, d] (t := rest) (by omega)
  have hle := paddingOf_le rest
  simp only [cons_append, nil_append] at hpad
  simp only [decodedLength, hpad, length_cons]
  omega

theorem PadsLast.not_mem_of_last (body : Bytes) {d : UInt8} (h : PadsLast (body ++ [d]))
    (hd : d ≠ 61) : 61 ∉ body ++ [d] := by
  obtain ⟨front, pads, heq, hpads, hfront⟩ := h
  have hlast := congrArg List.getLast? heq
  simp only [mem_cons, not_mem_nil, or_false] at hpads
  rcases hpads with rfl | rfl | rfl
  · rwa [heq, append_nil]
  · simp [hd] at hlast
  · simp [hd] at hlast

theorem base64Decode_odd (h : s.length % 4 ≠ 0) : base64Decode s = none := if_pos h

/-- Where padding stands at the end only, the agent decodes group by group as the standard does. -/
theorem base64Decode_of_padsLast (h : PadsLast s) : base64Decode s = Base64.decodeGroups s := by
  have hpad : b64pad 61 = some 0 := rfl
  fun_induction Base64.decodeGroups s with
  | case1 => rfl
  | case2 a b =>
    have hlength : decodedLength [a, b, 61, 61] = 1 := by simp [decodedLength, paddingOf]
    rw [base64Decode_eq (by simp), hlength]
    simp only [decodeGroups, value_eq_b64val, hpad, bind_eq_bind, bind_some,
      map_bind, comp_def]
    refine bind_congr fun m _ => bind_congr fun n _ => ?_
    obtain ⟨hfirst, -, -⟩ := groupBytes (m := m) (n := n) (o := 0) (p := 0) (by decide) (by decide)
    simp [← hfirst]
  | case3 a b c hc =>
    have hc : c ≠ 61 := hc
    have hlength : decodedLength [a, b, c, 61] = 2 := by simp [decodedLength, paddingOf, hc]
    rw [base64Decode_eq (by simp), hlength]
    simp only [decodeGroups, value_eq_b64val, hpad, b64pad_of_ne hc, bind_eq_bind,
      bind_some, map_bind, comp_def]
    refine bind_congr fun m _ => bind_congr fun n _ => bind_congr fun o ho => ?_
    obtain ⟨hfirst, hsecond, -⟩ :=
      groupBytes (m := m) (n := n) (p := 0) (b64val_lt ho) (by decide)
    simp [← hfirst, ← hsecond]
  | case4 a b c d rest _ hpadded ih =>
    by_cases hmod : rest.length % 4 = 0
    · have hwhole : (a :: b :: c :: d :: rest).length % 4 = 0 := by
        simp only [length_cons]
        omega
      by_cases hnil : rest = []
      · subst hnil
        have hd : d ≠ 61 := fun hd => hpadded hd rfl
        have hno := PadsLast.not_mem_of_last [a, b, c] h hd
        have hc : c ≠ 61 := fun hc => hno (by simp [hc])
        have hlength : decodedLength [a, b, c, d] = 3 := by
          simp [decodedLength, paddingOf, hc, hd]
        rw [base64Decode_eq hwhole, hlength, decodeGroups_cons hc hd]
        simp [decodeGroups, Base64.decodeGroups, map_bind]
      · have hpos := length_pos_iff.mpr hnil
        obtain ⟨hgroup, hrest⟩ := PadsLast.of_append [a, b, c, d] h (by omega)
        simp only [mem_cons, not_mem_nil, or_false, not_or] at hgroup
        rw [base64Decode_eq hwhole, decodedLength_cons _ _ _ _ (by omega),
          decodeGroups_cons (Ne.symm hgroup.2.2.1) (Ne.symm hgroup.2.2.2), ← ih hrest,
          base64Decode_eq hmod]
        simp [map_bind, comp_def, bind_map]
    · have hnone : Base64.decodeGroups rest = none :=
        eq_none_iff_forall_ne_some.mpr fun data hdata => hmod (length_of_goGroups hdata)
      rw [base64Decode_odd, hnone]
      · simp
      · simp only [length_cons]
        omega
  | case5 s hempty _ _ hgroup =>
    refine base64Decode_odd ?_
    rcases s with _ | ⟨a, _ | ⟨b, _ | ⟨c, _ | ⟨d, rest⟩⟩⟩⟩
    · exact absurd rfl hempty
    · simp
    · simp
    · simp
    · exact absurd rfl (hgroup a b c d rest)

/-! ## What both accept -/

theorem not_mem_of_isBase64 (h : isBase64 s = true) : ∀ c ∈ [0, 10, 13], c ∉ s := by
  have hdigits : ∀ c ∈ s, Base64.isDigit64 c = true ∨ c = 61 := by
    fun_induction isBase64 s with
    | case1 => simp
    | case2 a b c d rest ih =>
      simp only [Bool.and_eq_true, Bool.or_eq_true, beq_iff_eq] at h
      simp only [forall_mem_cons]
      exact ⟨.inl h.1.1.1.1, .inl h.1.1.1.2, h.1.1.2, h.1.2, ih h.2⟩
    | case3 => cases h
  intro c hc hmem
  simp only [mem_cons, not_mem_nil, or_false] at hc
  rcases hc with rfl | rfl | rfl <;> exact absurd (hdigits _ hmem) (by decide)

theorem goDecode_eq (h : ∀ c ∈ [0, 10, 13], c ∉ s) : Base64.decode s = Base64.decodeGroups s := by
  rw [Base64.decode, filter_eq_self.mpr]
  intro c hc
  have h10 : c ≠ 10 := fun h10 => h 10 (by simp) (h10 ▸ hc)
  have h13 : c ≠ 13 := fun h13 => h 13 (by simp) (h13 ▸ hc)
  simp [h10, h13]

theorem goDecode_isSome (s : Bytes) :
    (Base64.decode s).isSome = true ↔ isBase64 (unbroken s) = true ∧ PadsLast (unbroken s) := by
  rw [← base64Decode_isSome]
  constructor
  · intro hsome
    obtain ⟨data, hdata⟩ := isSome_iff_exists.mp hsome
    have hpads : PadsLast (unbroken s) := padsLast_of_goGroups hdata
    exact ⟨by rw [base64Decode_of_padsLast hpads]; exact hsome, hpads⟩
  · rintro ⟨hsome, hpads⟩
    rwa [base64Decode_of_padsLast hpads] at hsome

theorem nul_not_mem_of_goDecode {s data : Bytes} (h : Base64.decode s = some data) : 0 ∉ s := by
  have haccepted := ((goDecode_isSome s).mp (by rw [h]; rfl)).1
  intro hmem
  refine not_mem_of_isBase64 haccepted 0 (by simp) ?_
  exact mem_filter.mpr ⟨hmem, by decide⟩

/-- The two decoders agree on a text that is padded at its end and has neither a NUL nor a line
end, and on one that is malformed for both; they agree on no other text. -/
theorem decoders_agree_iff (s : Bytes) :
    base64Decode (cString s) = Base64.decode s ↔ Tidy s ∨ Malformed s := by
  have hagent : base64Decode (cString s) = none ↔ isBase64 (cString s) = false := by
    rw [← base64Decode_isSome, isSome_eq_false_iff, isNone_iff_eq_none]
  have hserver : Base64.decode s = none ↔
      ¬ (isBase64 (unbroken s) = true ∧ PadsLast (unbroken s)) := by
    rw [← goDecode_isSome, Bool.not_eq_true, isSome_eq_false_iff, isNone_iff_eq_none]
  constructor
  · intro heq
    cases hdata : Base64.decode s with
    | none => exact .inr ⟨hagent.mp (heq.trans hdata), hserver.mp hdata⟩
    | some data =>
      left
      rw [hdata, cString_eq_self (nul_not_mem_of_goDecode hdata)] at heq
      have haccepted : isBase64 s = true := by
        rw [← base64Decode_isSome, heq]
        rfl
      have honeLine := not_mem_of_isBase64 haccepted
      rw [goDecode_eq honeLine] at hdata
      exact ⟨padsLast_of_goGroups hdata, honeLine⟩
  · rintro (htidy | ⟨hgroups, hpads⟩)
    · rw [cString_eq_self (htidy.oneLine 0 (by simp)), goDecode_eq htidy.oneLine,
        base64Decode_of_padsLast htidy.padded]
    · rw [hagent.mpr hgroups, hserver.mpr hpads]

/-- A line end, padding inside, and half of a padding. -/
theorem decoders_differ :
    (Base64.decode (lit "QUJD\nREVG") = some (lit "ABCDEF") ∧
      base64Decode (cString (lit "QUJD\nREVG")) = none) ∧
    (Base64.decode (lit "QQ==QQ==") = none ∧
      base64Decode (cString (lit "QQ==QQ==")) = some [65, 0, 0, 65]) ∧
    Base64.decode (lit "QQ=A") = none ∧ base64Decode (cString (lit "QQ=A")) = some [65, 0] := by
  repeat rw [lit_ofList]
  decide

/-! ## The output of a terminal -/

/-- What `dispatch` and `terminalWS` take for the data: the text, where it does not decode. -/
def decodeOr (s : Bytes) : Bytes := (Base64.decode s).getD s

/-- A chunk that `term_reader` has read, as it comes to the buffer of the web session. -/
def webOutput (chunk : Bytes) : Bytes := decodeOr (decodeOr (ctcBase64Encode chunk))

theorem webOutput_eq (chunk : Bytes) : webOutput chunk = decodeOr chunk := by
  have hencode : ctcBase64Encode chunk = Base64.encode chunk :=
    patch_ctcEncodeLoop chunk.length 0 chunk (by omega)
  rw [webOutput, hencode]
  exact congrArg decodeOr (by rw [decodeOr, Base64.decode_encode]; rfl)

/-- Three bytes at most come of four digits. -/
theorem length_goGroups {s data : Bytes} (h : Base64.decodeGroups s = some data) :
    data.length * 4 ≤ s.length * 3 := by
  fun_induction Base64.decodeGroups s generalizing data with
  | case1 =>
    cases h
    simp
  | case2 a b =>
    simp only [bind_eq_bind, bind_eq_some_iff] at h
    obtain ⟨m, -, n, -, hdata⟩ := h
    cases hdata
    simp
  | case3 a b c =>
    simp only [bind_eq_bind, bind_eq_some_iff] at h
    obtain ⟨m, -, n, -, o, -, hdata⟩ := h
    cases hdata
    simp
  | case4 a b c d rest _ _ ih =>
    simp only [bind_eq_bind, bind_eq_some_iff] at h
    obtain ⟨m, -, n, -, o, -, p, -, tail, htail, hdata⟩ := h
    cases hdata
    have hrest := ih htail
    simp only [length_cons]
    omega
  | case5 => cases h

/-- Output reaches the web session as it was read exactly if no chunk of it, other than an
empty one, can be decoded. -/
theorem web_output_exact_iff (chunks : List Bytes) :
    chunks.map webOutput = chunks ↔
      ∀ chunk ∈ chunks, Base64.decode chunk = none ∨ chunk = [] := by
  have hmap := map_inj_left (l := chunks) (f := webOutput) (g := id)
  rw [List.map_id] at hmap
  rw [hmap]
  refine forall₂_congr fun chunk _ => ?_
  rw [webOutput_eq, decodeOr, id_eq]
  cases hdata : Base64.decode chunk with
  | none => simp
  | some data =>
    simp only [getD_some, reduceCtorEq, false_or]
    constructor
    · rintro rfl
      -- the decoded bytes are fewer than those of a text that is not empty
      have hfewer := length_goGroups hdata
      have hfilter := length_filter_le (fun c : UInt8 => c != 10 && c != 13) data
      exact length_eq_zero_iff.mp (by omega)
    · rintro rfl
      cases hdata
      rfl

/-- A word of base64 digits comes out as other bytes. -/
theorem word_is_decoded : webOutput (lit "test") = [0xb5, 0xeb, 0x2d] := by
  rw [webOutput_eq]
  decide

end CtForge.Agent
