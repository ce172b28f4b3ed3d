import CtForge.Daemon.Sections

/-!
# The verdict on a payload

`do_safty_verify_sign` decides whether ctforged loads a payload, and
`do_safety_verify_sign_from_mem` decides the same question for an image in
memory. For every byte image this file says

* when the file verifier returns at all, and what its 0 means
  (`doSaftyVerifySign_sound_iff`): it ends the process on a short ELF file, and
  it believes the `sign_len` of the header;
* when the two verifiers give the same verdict (`verifiers_agree_iff`).
-/

namespace CtForge.Signature

open CLang List

/-! ## The tail signature -/

/-- The image ends in a header whose signature, of a length the `sign` field can
hold, is accepted over everything before the header. -/
def TailSigned (env : Env) (key : String) (b : Bytes) : Prop :=
  headerSize ≤ b.length ∧ 1 ≤ signLen b ∧ signLen b ≤ signSize ∧
    env.sm2.verify (signedBytes b) key (headerSign b) = 0

/-- The flag field starts with `CTFORGE`. -/
def Tagged (b : Bytes) : Prop := (headerFlag b).take 7 = lit "CTFORGE"

instance (b : Bytes) : Decidable (Tagged b) := by
  unfold Tagged
  infer_instance

variable {b : Bytes}

theorem headerSign_eq (h : headerSize ≤ b.length) :
    (b.drop (b.length - signSize)).take (signLen b) = headerSign b := by
  have hoff : b.length - headerSize + 12 = b.length - signSize := by
    simp only [headerSize, signSize] at h ⊢
    omega
  simp [headerSign, header, drop_drop, hoff]

theorem readAt_sign (h : headerSize ≤ b.length) :
    readAt b (b.length - signSize) (signLen b) =
      if signLen b ≤ signSize then .ok (headerSign b) else .error .outOfBounds := by
  have hsize : signSize ≤ b.length := by
    simp only [headerSize] at h
    omega
  by_cases hlen : signLen b ≤ signSize
  · rw [readAt_of_le (by omega), headerSign_eq h, if_pos hlen]
  · rw [readAt_of_lt (by omega), if_neg hlen]

theorem isTailSigned_eq (h : headerSize ≤ b.length) :
    isTailSigned (some b) = .ok (decide (Tagged b)) := by
  simp only [isTailSigned, Nat.not_lt.mpr h, ↓reduceIte, Tagged]

theorem doVerifyTailSign_short (env : Env) (key : String) (h : b.length < headerSize) :
    doVerifyTailSign env key (some b) = .error (.exited 1) := by
  simp [doVerifyTailSign, isTailSigned, h]

theorem doVerifyTailSign_eq (env : Env) (key : String) (h : headerSize ≤ b.length) :
    doVerifyTailSign env key (some b) =
      if Tagged b then
        if signLen b ≤ signSize then
          .ok (if env.sm2.verify (signedBytes b) key (headerSign b) = 0 then 0 else 1)
        else .error .outOfBounds
      else .ok 1 := by
  by_cases htag : Tagged b
  · by_cases hlen : signLen b ≤ signSize
    · by_cases hv : env.sm2.verify (signedBytes b) key (headerSign b) = 0 <;>
        simp [doVerifyTailSign, isTailSigned_eq h, htag, readAt_sign h, hlen, hv]
    · simp [doVerifyTailSign, isTailSigned_eq h, htag, readAt_sign h, hlen]
  · simp [doVerifyTailSign, isTailSigned_eq h, htag]

theorem signLen_pos (env : Env) (key : String)
    (h : env.sm2.verify (signedBytes b) key (headerSign b) = 0) : 1 ≤ signLen b := by
  by_contra hlen
  have hzero : signLen b = 0 := by omega
  refine env.sm2.empty_rejected (signedBytes b) key ?_
  simpa [headerSign, hzero] using h

theorem doVerifyTailSign_eq_zero_iff (env : Env) (key : String) (b : Bytes) :
    doVerifyTailSign env key (some b) = .ok 0 ↔ TailSigned env key b ∧ Tagged b := by
  rcases Nat.lt_or_ge b.length headerSize with hshort | hlong
  · simp [doVerifyTailSign_short env key hshort, TailSigned, Nat.not_le.mpr hshort]
  · rw [doVerifyTailSign_eq env key hlong]
    by_cases htag : Tagged b
    · by_cases hlen : signLen b ≤ signSize
      · by_cases hv : env.sm2.verify (signedBytes b) key (headerSign b) = 0
        · simp [htag, hlen, hv, TailSigned, hlong, signLen_pos env key hv]
        · simp [htag, hlen, hv, TailSigned]
      · simp [htag, hlen, TailSigned]
    · simp [htag]

/-! ## The file verifier is total and sound exactly on these files -/

/-- The call returns to its caller, having read only the file, and a verdict of
0 means a well-formed, accepted tail signature. -/
def GateSound (env : Env) (key : String) (b : Bytes) : Prop :=
  ∃ v, doSaftyVerifySign env (some key) (some b) = .ok v ∧ (v = 0 → TailSigned env key b)

/-- No ELF file; or one that is long enough for a header, whose tagged header
has a `sign_len` the field can hold, and whose sections, for an eBPF object,
the section scan gets through. -/
def GateFile (env : Env) (key : String) (b : Bytes) : Prop :=
  b.length < 20 ∨ isElf b = false ∨
    headerSize ≤ b.length ∧ (Tagged b → signLen b ≤ signSize) ∧
      (machine b = 0xf7 → ScanReturns env key b)

theorem doSaftyVerifySign_eq (env : Env) (key : String) (helf : isElf b = true)
    (hlen : 20 ≤ b.length) :
    doSaftyVerifySign env (some key) (some b) =
      if machine b = 0xf7 then do
        let ebpfRet ← doVerifyEbpfSectionSign env key (some b)
        let tailRet ← doVerifyTailSign env key (some b)
        return if ebpfRet = 0 ∧ tailRet = 0 then 0 else 1
      else doVerifyTailSign env key (some b) := by
  have h4 : ¬ b.length < 4 := by omega
  have h20 : ¬ b.length < 20 := by omega
  simp [doSaftyVerifySign, helf, h4, h20]

theorem doSaftyVerifySign_head (env : Env) (key : String) (h : b.length < 20 ∨ isElf b = false) :
    doSaftyVerifySign env (some key) (some b) = .ok 1 := by
  by_cases h4 : b.length < 4
  · simp [doSaftyVerifySign, h4]
  · cases helf : isElf b with
    | false => simp [doSaftyVerifySign, h4, helf]
    | true =>
      have h20 : b.length < 20 := by simpa [helf] using h
      simp [doSaftyVerifySign, h4, helf, h20]

/-- The tail check is total and sound exactly on a file that holds a header with
a `sign_len` in range, where the header is looked at. -/
theorem tail_sound_iff (env : Env) (key : String) (b : Bytes) :
    (∃ v, doVerifyTailSign env key (some b) = .ok v ∧ (v = 0 → TailSigned env key b)) ↔
      headerSize ≤ b.length ∧ (Tagged b → signLen b ≤ signSize) := by
  constructor
  · rintro ⟨v, hv, -⟩
    rcases Nat.lt_or_ge b.length headerSize with hshort | hlong
    · simp [doVerifyTailSign_short env key hshort] at hv
    · refine ⟨hlong, fun htag => ?_⟩
      by_contra hlen
      simp [doVerifyTailSign_eq env key hlong, htag, hlen] at hv
  · rintro ⟨hlong, hlen⟩
    have hzero := doVerifyTailSign_eq_zero_iff env key b
    obtain ⟨v, hv⟩ : ∃ v, doVerifyTailSign env key (some b) = .ok v := by
      rw [doVerifyTailSign_eq env key hlong]
      by_cases htag : Tagged b
      · simp [htag, hlen htag]
      · simp [htag]
    refine ⟨v, hv, ?_⟩
    rintro rfl
    exact (hzero.mp hv).1

/-- **The gate.** For every byte string in the file, the verifier returns a
verdict that means what it should exactly when the file is a `GateFile`. -/
theorem doSaftyVerifySign_sound_iff (env : Env) (key : String) (b : Bytes) :
    GateSound env key b ↔ GateFile env key b := by
  by_cases hhead : b.length < 20 ∨ isElf b = false
  · refine iff_of_true ⟨1, doSaftyVerifySign_head env key hhead, by simp⟩ ?_
    rcases hhead with h | h
    · exact Or.inl h
    · exact Or.inr (Or.inl h)
  · obtain ⟨hlen, helf⟩ : 20 ≤ b.length ∧ isElf b = true := by simpa using hhead
    have hgate : GateFile env key b ↔
        (headerSize ≤ b.length ∧ (Tagged b → signLen b ≤ signSize)) ∧
          (machine b = 0xf7 → ScanReturns env key b) := by
      simp [GateFile, Nat.not_lt.mpr hlen, helf, and_assoc]
    rw [hgate, ← tail_sound_iff env key b, GateSound, doSaftyVerifySign_eq env key helf hlen]
    by_cases hm : machine b = 0xf7
    · -- the section scan runs first, and its fault ends the call
      rw [← doVerifyEbpfSectionSign_returns_iff]
      simp only [hm, ↓reduceIte, bind_eq_ok, pure_eq_ok, Except.ok.injEq, forall_const]
      constructor
      · rintro ⟨v, ⟨e, he, t, ht, rfl⟩, hv⟩
        refine ⟨⟨t, ht, fun hz => ?_⟩, e, he⟩
        exact ((doVerifyTailSign_eq_zero_iff env key b).mp (hz ▸ ht)).1
      · rintro ⟨⟨t, ht, hsound⟩, e, he⟩
        refine ⟨_, ⟨e, he, t, ht, rfl⟩, fun hz => hsound ?_⟩
        by_contra hne
        simp [hne] at hz
    · simp [hm]

def rejectAll : Env := ⟨⟨fun _ _ _ => -6, by simp⟩, fun _ => none⟩

def shortElf : Bytes := [0x7f, 0x45, 0x4c, 0x46] ++ List.replicate 16 0

theorem shortElf_ends_process : ¬ GateSound rejectAll "public.pem" shortElf := by
  rintro ⟨v, hv, -⟩
  have hexit : doSaftyVerifySign rejectAll (some "public.pem") (some shortElf) =
      .error (.exited 1) := by decide
  simp [hexit] at hv

/-! ## The in-memory verifier -/

theorem doVerifyTailSignFromMem_eq_zero_iff (env : Env) (key : String) (b : Bytes) :
    doVerifyTailSignFromMem env key b = 0 ↔ TailSigned env key b := by
  by_cases hwf : headerSize ≤ b.length ∧ 1 ≤ signLen b ∧ signLen b ≤ signSize
  · obtain ⟨hlong, hpos, hle⟩ := hwf
    have hz : b.length ≠ 0 := by
      simp only [headerSize, signSize] at hlong
      omega
    have hrange : ¬ (signLen b = 0 ∨ signSize < signLen b) := by omega
    by_cases hv : env.sm2.verify (signedBytes b) key (headerSign b) = 0 <;>
      simp [doVerifyTailSignFromMem, TailSigned, hz, Nat.not_lt.mpr hlong, hrange, hv, hlong,
        hpos, hle]
  · refine iff_of_false ?_ (fun h => hwf ⟨h.1, h.2.1, h.2.2.1⟩)
    unfold doVerifyTailSignFromMem
    split
    · simp
    · split
      · simp
      · rw [if_pos (by omega)]
        simp

/-- This section's own content is signed by the first section the 256-byte name
buffer selects. -/
def ScnSigned (env : Env) (key : String) (scns : List Scn) (s : Scn) (name : Bytes) : Prop :=
  ∃ sg d g, firstNamed scns (signSecName name) = some sg ∧ s.data.content = some d ∧
    sg.data.content = some g ∧ env.sm2.verify d key g = 0

def Scn.Checks (s : Scn) (name : Bytes) : Prop :=
  s.shdr = some (some name) ∧ name ≠ [] ∧ Checked name

theorem verifyScns_checked (env : Env) (key : String) (all rest : List Scn) {s : Scn}
    {name : Bytes} (hs : s.Checks name) (has : Bool) :
    (ScnSigned env key all s name →
      verifyScns env key all (s :: rest) has = verifyScns env key all rest has) ∧
    (¬ ScnSigned env key all s name → verifyScns env key all (s :: rest) has = -1) := by
  obtain ⟨hname, hne, hdot, hsign⟩ := hs
  constructor
  · rintro ⟨sg, d, g, hsg, hd, hg, hv⟩
    simp [verifyScns, hname, hne, hdot, hsign, hsg, hd, hg, hv]
  · intro hns
    cases hsg : firstNamed all (signSecName name) with
    | none => simp [verifyScns, hname, hne, hdot, hsign, hsg]
    | some sg =>
      cases hd : s.data.content with
      | none => simp [verifyScns, hname, hne, hdot, hsign, hsg, hd]
      | some d =>
        cases hg : sg.data.content with
        | none => simp [verifyScns, hname, hne, hdot, hsign, hsg, hd, hg]
        | some g =>
          have hv : env.sm2.verify d key g ≠ 0 := fun hv => hns ⟨sg, d, g, hsg, hd, hg, hv⟩
          simp [verifyScns, hname, hne, hdot, hsign, hsg, hd, hg, hv]

theorem verifyScns_skip (env : Env) (key : String) (all rest : List Scn) {s : Scn}
    (hs : ∀ name, ¬ s.Checks name) (has : Bool) :
    ∃ has', verifyScns env key all (s :: rest) has = verifyScns env key all rest has' ∧
      (has' = true ↔ has = true ∨ SignPresent [s]) := by
  cases hsh : s.shdr with
  | none => exact ⟨has, by simp [verifyScns, hsh], by simp [SignPresent, HasName, hsh]⟩
  | some p =>
    cases p with
    | none => exact ⟨has, by simp [verifyScns, hsh], by simp [SignPresent, HasName, hsh]⟩
    | some name =>
      cases hsign : startsWith name (lit "SIGN_") with
      | true =>
        have hne : name ≠ [] := by
          rintro rfl
          exact absurd hsign (by decide)
        exact ⟨true, by simp [verifyScns, hsh, hne, not_dot_of_sign hsign, hsign],
          by simp [SignPresent, HasName, hsh, hsign]⟩
      | false =>
        refine ⟨has, ?_, by simp [SignPresent, HasName, hsh, hsign]⟩
        by_cases hne : name = []
        · simp [verifyScns, hsh, hne]
        · have hdot : name.head? = some 46 := by
            by_contra hdot
            exact hs name ⟨hsh, hne, hdot, hsign⟩
          simp [verifyScns, hsh, hne, hdot]

theorem signPresent_cons (s : Scn) (rest : List Scn) :
    SignPresent (s :: rest) ↔ SignPresent [s] ∨ SignPresent rest := by
  constructor
  · rintro ⟨name, ⟨t, ht, hname⟩, hsign⟩
    rcases mem_cons.mp ht with rfl | ht
    · exact Or.inl ⟨name, ⟨t, by simp, hname⟩, hsign⟩
    · exact Or.inr ⟨name, ⟨t, ht, hname⟩, hsign⟩
  · rintro (⟨name, ⟨t, ht, hname⟩, hsign⟩ | ⟨name, ⟨t, ht, hname⟩, hsign⟩)
    · obtain rfl : t = s := by simpa using ht
      exact ⟨name, ⟨t, by simp, hname⟩, hsign⟩
    · exact ⟨name, ⟨t, mem_cons_of_mem _ ht, hname⟩, hsign⟩

/-- Every section the in-memory verifier checks is signed, and there is a
`SIGN_` section. -/
def ScnsSigned (env : Env) (key : String) (scns : List Scn) : Prop :=
  SignPresent scns ∧ ∀ s ∈ scns, ∀ name, s.Checks name → ScnSigned env key scns s name

/-- The loop over the sections returns 0 exactly if one is a signature and all checked ones are
signed. -/
theorem verifyScns_eq_zero_iff (env : Env) (key : String) (all scns : List Scn) (has : Bool) :
    verifyScns env key all scns has = 0 ↔
      (has = true ∨ SignPresent scns) ∧
        ∀ s ∈ scns, ∀ name, s.Checks name → ScnSigned env key all s name := by
  induction scns generalizing has with
  | nil => cases has <;> simp [verifyScns, SignPresent, HasName]
  | cons s rest ih =>
    by_cases hs : ∃ name, s.Checks name
    · obtain ⟨name, hc⟩ := hs
      obtain ⟨hok, hrej⟩ := verifyScns_checked env key all rest hc has
      have hnot : ¬ SignPresent [s] := by
        rintro ⟨m, ⟨t, ht, hm⟩, hsign⟩
        obtain rfl : t = s := by simpa using ht
        obtain rfl : m = name := by simpa [hm] using hc.1
        simp [hc.2.2.2] at hsign
      by_cases hsig : ScnSigned env key all s name
      · have hown : ∀ m, s.Checks m → ScnSigned env key all s m := by
          intro m hm
          obtain rfl : m = name := by simpa [hm.1] using hc.1
          exact hsig
        rw [hok hsig, ih, signPresent_cons]
        simp only [hnot, false_or, forall_mem_cons, and_congr_right_iff]
        exact fun _ => ⟨fun h => ⟨hown, h⟩, fun h => h.2⟩
      · refine iff_of_false (by simp [hrej hsig]) (fun h => hsig (h.2 s (by simp) name hc))
    · have hun : ∀ name, ¬ s.Checks name := by simpa using hs
      obtain ⟨has', heq, hhas⟩ := verifyScns_skip env key all rest hun has
      rw [heq, ih, hhas, signPresent_cons s rest, or_assoc]
      simp [hun]

/-! ## Where the two verifiers agree -/

/-- An ELF image long enough for its `e_machine` to be read. -/
def Readable (b : Bytes) : Prop := 20 ≤ b.length ∧ isElf b = true

/-- What a 0 of the file verifier means. -/
theorem doSaftyVerifySign_eq_zero_iff (env : Env) (key : String) (b : Bytes) :
    doSaftyVerifySign env (some key) (some b) = .ok 0 ↔
      Readable b ∧ TailSigned env key b ∧ Tagged b ∧
        (machine b = 0xf7 → ∃ elf, env.elf b = some elf ∧ Lists elf ∧
          LookupsSigned env key elf.scns) := by
  by_cases hhead : b.length < 20 ∨ isElf b = false
  · refine iff_of_false (by simp [doSaftyVerifySign_head env key hhead]) ?_
    rintro ⟨⟨hlen, helf⟩, -⟩
    simp [Nat.not_lt.mpr hlen, helf] at hhead
  · obtain ⟨hlen, helf⟩ : 20 ≤ b.length ∧ isElf b = true := by simpa using hhead
    have hread : Readable b := ⟨hlen, helf⟩
    rw [doSaftyVerifySign_eq env key helf hlen]
    by_cases hm : machine b = 0xf7
    · have hsec : doVerifyEbpfSectionSign env key (some b) = .ok 0 ↔
          ∃ elf, env.elf b = some elf ∧ Lists elf ∧ LookupsSigned env key elf.scns := by
        cases he : env.elf b with
        | none => simp [doVerifyEbpfSectionSign, listSections, openElf, he]
        | some elf => simp [doVerifyEbpfSectionSign_eq_zero_iff env key b elf he]
      rw [← hsec]
      simp only [hm, ↓reduceIte, bind_eq_ok, pure_eq_ok, Except.ok.injEq, forall_const]
      constructor
      · rintro ⟨e, he, t, ht, hz⟩
        obtain ⟨rfl, rfl⟩ : e = 0 ∧ t = 0 := by
          by_contra hne
          simp [hne] at hz
        obtain ⟨h₁, h₂⟩ := (doVerifyTailSign_eq_zero_iff env key b).mp ht
        exact ⟨hread, h₁, h₂, he⟩
      · rintro ⟨-, h₁, h₂, he⟩
        exact ⟨0, he, 0, (doVerifyTailSign_eq_zero_iff env key b).mpr ⟨h₁, h₂⟩, by simp⟩
    · simp [hm, doVerifyTailSign_eq_zero_iff, hread]

/-- What a 0 of the verifier in memory means. -/
theorem doSafetyVerifySignFromMem_eq_zero_iff (env : Env) (key : String) (b : Bytes) :
    doSafetyVerifySignFromMem env (some key) (some b) = 0 ↔
      Readable b ∧ TailSigned env key b ∧
        (machine b = 0xf7 → ∃ elf, env.elf b = some elf ∧ elf.shstrndxOk = true ∧
          ScnsSigned env key elf.scns) := by
  by_cases hread : Readable b
  · obtain ⟨hlen, helf⟩ := hread
    have h0 : b.length ≠ 0 := by omega
    have h4 : ¬ b.length < 4 := by omega
    have htail := doVerifyTailSignFromMem_eq_zero_iff env key b
    have hsec : doVerifyEbpfSectionSignFromMem env key b = 0 ↔
        ∃ elf, env.elf b = some elf ∧ elf.shstrndxOk = true ∧ ScnsSigned env key elf.scns := by
      cases he : env.elf b with
      | none => simp [doVerifyEbpfSectionSignFromMem, h0, he]
      | some elf =>
        have hloop := verifyScns_eq_zero_iff env key elf.scns elf.scns false
        by_cases hstr : elf.shstrndxOk = true
        · simp [doVerifyEbpfSectionSignFromMem, h0, he, hstr, hloop, ScnsSigned]
        · simp [doVerifyEbpfSectionSignFromMem, h0, he, hstr]
    rw [← hsec, ← htail]
    by_cases hm : machine b = 0xf7
    · simp [doSafetyVerifySignFromMem, h0, h4, helf, Nat.not_lt.mpr hlen, hm, Readable, hlen,
        and_comm]
    · simp [doSafetyVerifySignFromMem, h0, h4, helf, Nat.not_lt.mpr hlen, hm, Readable, hlen]
  · refine iff_of_false ?_ (fun h => hread h.1)
    unfold doSafetyVerifySignFromMem
    by_cases h0 : b.length = 0
    · simp [h0]
    · by_cases h4 : b.length < 4
      · simp [h0, h4]
      · by_cases helf : isElf b = true
        · have h20 : b.length < 20 := by
            by_contra hlen
            exact hread ⟨by omega, helf⟩
          simp [h0, h4, helf, h20]
        · simp [h0, h4, helf]

/-- The section tables on which the in-memory verifier is the laxer one: all it
checks is signed, but a section has no name, or an unsigned empty one. -/
def NamelessUnsigned (env : Env) (key : String) (scns : List Scn) : Prop :=
  ScnsSigned env key scns ∧
    (¬ AllNamed scns ∨ HasName scns [] ∧ ¬ LookupSigned env key scns [])

/-- The section tables on which the file verifier is the laxer one: every lookup
is signed, but not the content of a section that repeats an earlier name. -/
def RepeatUnsigned (env : Env) (key : String) (scns : List Scn) : Prop :=
  AllNamed scns ∧ LookupsSigned env key scns ∧
    ∃ s ∈ scns, ∃ name, s.Checks name ∧ firstNamed scns name ≠ some s ∧
      ¬ ScnSigned env key scns s name

/-- The images that get two verdicts: their tail signature is accepted, and
either the header is untagged while the sections of an eBPF object are signed,
or it is tagged and the section table of the eBPF object is of one of the two
kinds above. -/
def TwoVerdicts (env : Env) (key : String) (b : Bytes) : Prop :=
  Readable b ∧ TailSigned env key b ∧
    (¬ Tagged b ∧ (machine b = 0xf7 → ∃ elf, env.elf b = some elf ∧ elf.shstrndxOk = true ∧
        ScnsSigned env key elf.scns) ∨
      Tagged b ∧ machine b = 0xf7 ∧ ∃ elf, env.elf b = some elf ∧ elf.shstrndxOk = true ∧
        (NamelessUnsigned env key elf.scns ∨ RepeatUnsigned env key elf.scns))

theorem checked_nil : Checked [] := by decide

theorem lookupsSigned_of_scnsSigned {env : Env} {key : String} {scns : List Scn}
    (h : ScnsSigned env key scns) (hempty : HasName scns [] → LookupSigned env key scns []) :
    LookupsSigned env key scns := by
  refine ⟨h.1, fun name hname hc => ?_⟩
  by_cases hne : name = []
  · exact hne ▸ hempty (hne ▸ hname)
  · obtain ⟨s, hfirst⟩ := firstNamed_isSome hname
    obtain ⟨hs, hsh⟩ := firstNamed_some hfirst
    obtain ⟨sg, d, g, hsg, hd, hg, hv⟩ := h.2 s hs name ⟨hsh, hne, hc⟩
    exact ⟨s, sg, d, g, hfirst, hsg, hd, hg, hv⟩

theorem scnsSigned_of_lookupsSigned {env : Env} {key : String} {scns : List Scn}
    (h : LookupsSigned env key scns)
    (hrep : ∀ s ∈ scns, ∀ name, s.Checks name → firstNamed scns name ≠ some s →
      ScnSigned env key scns s name) : ScnsSigned env key scns := by
  refine ⟨h.1, fun s hs name hc => ?_⟩
  by_cases hfirst : firstNamed scns name = some s
  · obtain ⟨sc, sg, d, g, hsc, hsg, hd, hg, hv⟩ := h.2 name ⟨s, hs, hc.1⟩ hc.2.2
    obtain rfl : s = sc := by simpa [hfirst] using hsc
    exact ⟨sg, d, g, hsg, hd, hg, hv⟩
  · exact hrep s hs name hc hfirst

/-- The two loops over the sections agree unless a section without a name or with a repeated one
is unsigned. -/
theorem sectionChecks_agree_iff (env : Env) (key : String) (scns : List Scn) :
    (AllNamed scns ∧ LookupsSigned env key scns ↔ ScnsSigned env key scns) ↔
      ¬ (NamelessUnsigned env key scns ∨ RepeatUnsigned env key scns) := by
  constructor
  · rintro hiff (⟨hmem, hname⟩ | ⟨hall, hfile, s, hs, name, hc, -, hns⟩)
    · obtain ⟨hall, hfile⟩ := hiff.mpr hmem
      rcases hname with hname | ⟨hempty, hns⟩
      · exact hname hall
      · exact hns (hfile.2 [] hempty checked_nil)
    · exact hns ((hiff.mp ⟨hall, hfile⟩).2 s hs name hc)
  · intro hnone
    constructor
    · rintro ⟨hall, hfile⟩
      refine scnsSigned_of_lookupsSigned hfile fun s hs name hc hfirst => ?_
      by_contra hns
      exact hnone (Or.inr ⟨hall, hfile, s, hs, name, hc, hfirst, hns⟩)
    · intro hmem
      refine ⟨?_, lookupsSigned_of_scnsSigned hmem fun hempty => ?_⟩
      · by_contra hname
        exact hnone (Or.inl ⟨hmem, Or.inl hname⟩)
      · by_contra hns
        exact hnone (Or.inl ⟨hmem, Or.inr ⟨hempty, hns⟩⟩)

/-- **The two verifiers.** For every image and key, the file verifier and the
in-memory verifier accept together exactly when the image is not one of those
with two verdicts. -/
theorem verifiers_agree_iff (env : Env) (key : String) (b : Bytes) :
    (doSaftyVerifySign env (some key) (some b) = .ok 0 ↔
        doSafetyVerifySignFromMem env (some key) (some b) = 0) ↔
      ¬ TwoVerdicts env key b := by
  rw [doSaftyVerifySign_eq_zero_iff, doSafetyVerifySignFromMem_eq_zero_iff]
  by_cases hbase : Readable b ∧ TailSigned env key b
  · obtain ⟨hread, htail⟩ := hbase
    by_cases hm : machine b = 0xf7
    · cases he : env.elf b with
      | none => simp [TwoVerdicts, hread, htail, hm, he]
      | some elf =>
        by_cases hstr : elf.shstrndxOk = true
        · have hagree := sectionChecks_agree_iff env key elf.scns
          by_cases htag : Tagged b
          · simpa [TwoVerdicts, hread, htail, hm, he, hstr, htag, Lists] using hagree
          · simp [TwoVerdicts, hread, htail, hm, he, hstr, htag]
        · simp [TwoVerdicts, hread, htail, hm, he, hstr, Lists]
    · simp [TwoVerdicts, hread, htail, hm]
  · have h₁ : ¬ TwoVerdicts env key b := fun h => hbase ⟨h.1, h.2.1⟩
    refine iff_of_true (iff_of_false ?_ ?_) h₁
    · exact fun h => hbase ⟨h.1, h.2.1⟩
    · exact fun h => hbase ⟨h.1, h.2.1⟩

/-- An environment in which `[2]` signs everything. -/
def twoSigns : Env := ⟨⟨fun _ _ sig => if sig = [2] then 0 else -6, by simp⟩, fun _ => none⟩

def untaggedImage : Bytes :=
  shortElf ++ (List.replicate 8 0 ++ [1, 0, 0, 0] ++ 2 :: List.replicate 127 0)

theorem untaggedImage_two_verdicts :
    ¬ (doSaftyVerifySign twoSigns (some "public.pem") (some untaggedImage) = .ok 0 ↔
      doSafetyVerifySignFromMem twoSigns (some "public.pem") (some untaggedImage) = 0) := by
  have hfile : doSaftyVerifySign twoSigns (some "public.pem") (some untaggedImage) = .ok 1 := by
    decide +kernel
  have hmem : doSafetyVerifySignFromMem twoSigns (some "public.pem") (some untaggedImage) = 0 := by
    decide +kernel
  simp [hfile, hmem]

end CtForge.Signature
