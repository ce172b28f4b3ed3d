import CtForge.Daemon.Signature

/-!
# Per-section signatures of an eBPF object

`do_verify_ebpf_section_sign` enumerates the sections by index and fetches each
of them again by name, so what it verifies for a section is the first section
of that name, against the first section named by a 256-byte buffer. This file
says what its return value means for an arbitrary section table:

* `findScn_eq`, `scnNames_mem`: on a table that lists at all, a lookup by name
  is `firstNamed`, also where a failing `gelf_getshdr` left a stale header;
* `verifySections_eq_zero_iff`: the loop returns 0 exactly when some `SIGN_`
  section exists and every name it checks is `LookupSigned`;
* `verifySections_returns_iff`: it returns at all exactly when it does not reach
  a section without bits;
* `sectionSign_vouches_iff`: its 0 vouches for every section's own content exactly
  when the sections it can miss, those that repeat a name and those with a name
  of more than 250 bytes, are signed themselves.
-/

namespace CtForge.Signature

open CLang List

/-! ## Names -/

/-- The sections the verifier checks: neither `.name` nor `SIGN_name`. -/
def Checked (name : Bytes) : Prop :=
  name.head? ≠ some 46 ∧ startsWith name (lit "SIGN_") = false

instance (name : Bytes) : Decidable (Checked name) := by
  unfold Checked
  infer_instance

def HasName (scns : List Scn) (name : Bytes) : Prop := ∃ s ∈ scns, s.shdr = some (some name)

variable {name : Bytes} {scns : List Scn} {s : Scn}

theorem firstNamed_some (h : firstNamed scns name = some s) :
    s ∈ scns ∧ s.shdr = some (some name) := by
  refine ⟨mem_of_find?_eq_some h, ?_⟩
  simpa using List.find?_some h

theorem firstNamed_isSome (h : HasName scns name) : ∃ s, firstNamed scns name = some s := by
  obtain ⟨s, hs, hn⟩ := h
  cases hf : firstNamed scns name with
  | some t => exact ⟨t, rfl⟩
  | none => exact absurd hn (by simpa using List.find?_eq_none.mp hf s hs)

theorem signSecName_short (h : name.length ≤ 250) : signSecName name = lit "SIGN_" ++ name := by
  apply snprintf_eq_self
  have hlit : (lit "SIGN_").length = 5 := by decide
  simp only [length_append, hlit]
  omega

/-! ## Lookups on a table that lists -/

theorem scnNames_cons_ok {prev : Option (Option Bytes)} {rest : List Scn}
    {names : List Bytes} (h : scnNames prev (s :: rest) = .ok names) :
    ∃ name ns, s.shdr.or prev = some (some name) ∧
      scnNames (some (some name)) rest = .ok ns ∧ names = name :: ns := by
  cases hs : s.shdr.or prev with
  | none => simp [scnNames, hs] at h
  | some p =>
    cases p with
    | none => simp [scnNames, hs] at h
    | some name =>
      simp only [scnNames, hs] at h
      obtain ⟨ns, hns, heq⟩ := bind_eq_ok.mp h
      exact ⟨name, ns, rfl, hns, by simpa using heq.symm⟩

/-- A name left over in `shdr` was already compared and did not match, so a
stale header is never the section a lookup stops at. -/
theorem findScn_eq (target : Bytes) (scns : List Scn) (prev : Option (Option Bytes))
    (names : List Bytes) (hn : scnNames prev scns = .ok names) (hp : prev ≠ some (some target)) :
    findScn target prev scns = .ok (firstNamed scns target) := by
  induction scns generalizing prev names with
  | nil => rfl
  | cons s rest ih =>
    obtain ⟨name, ns, hor, hns, -⟩ := scnNames_cons_ok hn
    by_cases hname : name = target
    · have hs : s.shdr = some (some target) := by
        cases hs : s.shdr with
        | none => exact absurd (by simpa [hs, hname] using hor) hp
        | some p => simpa [hs, hname] using hor
      simp [findScn, firstNamed, hs]
    · have hs : s.shdr ≠ some (some target) := by
        intro hs
        simp only [hs, Option.some_or, Option.some.injEq] at hor
        exact hname hor.symm
      simpa [findScn, firstNamed, hor, hs, hname] using ih _ ns hns (by simpa using hname)

def AllNamed (scns : List Scn) : Prop :=
  (∀ s ∈ scns, s.shdr ≠ some none) ∧ ∀ s, scns.head? = some s → s.shdr ≠ none

private theorem scnNames_ok (scns : List Scn) (name : Bytes)
    (h : ∀ s ∈ scns, s.shdr ≠ some none) :
      ∃ names, scnNames (some (some name)) scns = .ok names := by
  induction scns generalizing name with
  | nil => exact ⟨[], rfl⟩
  | cons s rest ih =>
    obtain ⟨next, hnext⟩ : ∃ next, s.shdr.or (some (some name)) = some (some next) := by
      cases hs : s.shdr with
      | none => exact ⟨name, rfl⟩
      | some p =>
        cases p with
        | none => exact absurd hs (h s (by simp))
        | some next => exact ⟨next, rfl⟩
    obtain ⟨names, hnames⟩ := ih next (fun t ht => h t (mem_cons_of_mem _ ht))
    exact ⟨next :: names, by simp [scnNames, hnext, hnames]⟩

/-- The names can be listed exactly if every section has one. -/
theorem scnNames_ok_iff (scns : List Scn) :
    (∃ names, scnNames none scns = .ok names) ↔ AllNamed scns := by
  cases scns with
  | nil => simp [scnNames, AllNamed]
  | cons s rest =>
    constructor
    · rintro ⟨names, hn⟩
      refine ⟨?_, ?_⟩
      · -- a null name ends the listing wherever it stands
        have hnull : ∀ (scns : List Scn) (prev : Option (Option Bytes)) (names : List Bytes),
            scnNames prev scns = .ok names → ∀ t ∈ scns, t.shdr ≠ some none := by
          intro scns
          induction scns with
          | nil => simp
          | cons u us ih =>
            intro prev names hu t ht
            obtain ⟨name, ns, hor, hns, -⟩ := scnNames_cons_ok hu
            rcases mem_cons.mp ht with rfl | ht
            · intro hnone
              simp [hnone] at hor
            · exact ih _ ns hns t ht
        exact hnull _ _ _ hn
      · intro t ht hnone
        obtain ⟨name, ns, hor, -, -⟩ := scnNames_cons_ok hn
        obtain rfl : s = t := by simpa using ht
        simp [hnone] at hor
    · rintro ⟨hnull, hfirst⟩
      cases hs : s.shdr with
      | none => exact absurd hs (hfirst s rfl)
      | some p =>
        cases p with
        | none => exact absurd hs (hnull s (by simp))
        | some name =>
          obtain ⟨names, hnames⟩ := scnNames_ok rest name
            (fun t ht => hnull t (mem_cons_of_mem _ ht))
          exact ⟨name :: names, by simp [scnNames, hs, hnames]⟩

/-- The names that are listed are those of the sections. -/
theorem scnNames_mem (scns : List Scn) (prev : Option (Option Bytes)) (names : List Bytes)
    (hn : scnNames prev scns = .ok names) (name : Bytes) :
    (name ∈ names → HasName scns name ∨ prev = some (some name)) ∧
      (HasName scns name → name ∈ names) := by
  induction scns generalizing prev names with
  | nil =>
    simp only [scnNames, Except.ok.injEq] at hn
    subst hn
    simp [HasName]
  | cons s rest ih =>
    obtain ⟨first, ns, hor, hns, rfl⟩ := scnNames_cons_ok hn
    obtain ⟨ih₁, ih₂⟩ := ih _ ns hns
    have hfirst : HasName (s :: rest) first ∨ prev = some (some first) := by
      cases hs : s.shdr with
      | none => exact Or.inr (by simpa [hs] using hor)
      | some p => exact Or.inl ⟨s, by simp, by simpa [hs] using hor⟩
    constructor
    · intro hm
      rcases mem_cons.mp hm with rfl | hm
      · exact hfirst
      · rcases ih₁ hm with ⟨t, ht, hname⟩ | hprev
        · exact Or.inl ⟨t, mem_cons_of_mem _ ht, hname⟩
        · simp only [Option.some.injEq] at hprev
          exact hprev ▸ hfirst
    · rintro ⟨t, ht, hname⟩
      rcases mem_cons.mp ht with rfl | ht
      · simp only [hname, Option.some_or, Option.some.injEq] at hor
        simp [hor]
      · exact mem_cons_of_mem _ (ih₂ ⟨t, ht, hname⟩)

theorem mem_names_iff {names : List Bytes} (hn : scnNames none scns = .ok names) (name : Bytes) :
    name ∈ names ↔ HasName scns name := by
  obtain ⟨h₁, h₂⟩ := scnNames_mem scns none names hn name
  exact ⟨fun hm => (h₁ hm).resolve_right (by simp), h₂⟩

/-! ## One checked name -/

/-- The first section of this name is signed by the first section the 256-byte
name buffer selects. -/
def LookupSigned (env : Env) (key : String) (scns : List Scn) (name : Bytes) : Prop :=
  ∃ sc sg d g, firstNamed scns name = some sc ∧ firstNamed scns (signSecName name) = some sg ∧
    sc.data.content = some d ∧ sg.data.content = some g ∧ env.sm2.verify d key g = 0

/-- `d_size` bytes are promised but `d_buf` is null. -/
def ElfData.Hollow (d : ElfData) : Prop := ∃ size, d = .noBits size ∧ size ≠ 0

def CopiesHollow (scns : List Scn) (name : Bytes) : Prop :=
  ∃ sc sg, firstNamed scns name = some sc ∧ firstNamed scns (signSecName name) = some sg ∧
    (sc.data.Hollow ∨ sc.data.content ≠ none ∧ sg.data.Hollow)

variable {d : ElfData}

theorem copyData_hollow (h : d.Hollow) : copyData d = .error .nullDeref := by
  obtain ⟨size, rfl, hsize⟩ := h
  simp [copyData, hsize]

theorem copyData_solid (h : ¬ d.Hollow) : copyData d = .ok d.content := by
  cases d with
  | missing | bits b => rfl
  | noBits size =>
    have hsize : size = 0 := by
      by_contra hne
      exact h ⟨size, rfl, hne⟩
    simp [copyData, ElfData.content, hsize]

theorem not_hollow_of_content {b : Bytes} (h : d.content = some b) : ¬ d.Hollow := by
  rintro ⟨size, rfl, -⟩
  simp [ElfData.content] at h

section Table

variable {env : Env} (key : String) {file : Option Bytes} {elf : Elf} {listed : List Bytes}

theorem sectionExists_eq (ho : openElf env file = some elf)
    (hn : scnNames none elf.scns = .ok listed) (name : Bytes) :
    sectionExists env file name = .ok (firstNamed elf.scns name).isSome := by
  simp [sectionExists, ho, findScn_eq name elf.scns none listed hn (by simp)]

variable {name : Bytes}

theorem getSectionContent_eq (ho : openElf env file = some elf)
    (hn : scnNames none elf.scns = .ok listed) (hs : firstNamed elf.scns name = some s) :
    getSectionContent env file name = copyData s.data := by
  simp [getSectionContent, ho, findScn_eq name elf.scns none listed hn (by simp), hs]

/-- One checked name: the loop goes on if the lookup is signed, and fails otherwise. -/
theorem verifySections_checked (ho : openElf env file = some elf)
    (hn : scnNames none elf.scns = .ok listed) (hc : Checked name) (hm : HasName elf.scns name)
    (rest : List Bytes) (has : Bool) :
    (LookupSigned env key elf.scns name →
      verifySections env key file (name :: rest) has = verifySections env key file rest has) ∧
    (CopiesHollow elf.scns name →
      verifySections env key file (name :: rest) has = .error .nullDeref) ∧
    (¬ LookupSigned env key elf.scns name → ¬ CopiesHollow elf.scns name →
      verifySections env key file (name :: rest) has = .ok (-1)) := by
  obtain ⟨hdot, hsign⟩ := hc
  obtain ⟨sc, hsc⟩ := firstNamed_isSome hm
  have hcontent := getSectionContent_eq ho hn hsc
  have hexists := sectionExists_eq ho hn (signSecName name)
  refine ⟨?_, ?_, ?_⟩
  · rintro ⟨sc', sg, d, g, hsc', hsg, hd, hg, hv⟩
    obtain rfl : sc = sc' := by simpa [hsc] using hsc'
    rw [copyData_solid (not_hollow_of_content hd)] at hcontent
    have hsgc := getSectionContent_eq ho hn hsg
    rw [copyData_solid (not_hollow_of_content hg)] at hsgc
    simp [verifySections, hdot, hsign, hexists, hsg, hcontent, hsgc, hd, hg, hv]
  · rintro ⟨sc', sg, hsc', hsg, hhollow⟩
    obtain rfl : sc = sc' := by simpa [hsc] using hsc'
    have hsgc := getSectionContent_eq ho hn hsg
    rcases hhollow with hh | ⟨hsome, hh⟩
    · rw [copyData_hollow hh] at hcontent
      simp [verifySections, hdot, hsign, hexists, hsg, hcontent]
    · obtain ⟨d, hd⟩ := Option.ne_none_iff_exists'.mp hsome
      rw [copyData_solid (not_hollow_of_content hd)] at hcontent
      rw [copyData_hollow hh] at hsgc
      simp [verifySections, hdot, hsign, hexists, hsg, hcontent, hsgc, hd]
  · intro hns hnh
    cases hsg : firstNamed elf.scns (signSecName name) with
    | none => simp [verifySections, hdot, hsign, hexists, hsg]
    | some sg =>
      have hsolid : ¬ sc.data.Hollow := fun h => hnh ⟨sc, sg, hsc, hsg, Or.inl h⟩
      rw [copyData_solid hsolid] at hcontent
      cases hd : sc.data.content with
      | none => simp [verifySections, hdot, hsign, hexists, hsg, hcontent, hd]
      | some d =>
        have hsolid' : ¬ sg.data.Hollow :=
          fun h => hnh ⟨sc, sg, hsc, hsg, Or.inr ⟨by simp [hd], h⟩⟩
        have hsgc := getSectionContent_eq ho hn hsg
        rw [copyData_solid hsolid'] at hsgc
        cases hg : sg.data.content with
        | none => simp [verifySections, hdot, hsign, hexists, hsg, hcontent, hsgc, hd, hg]
        | some g =>
          have hv : env.sm2.verify d key g ≠ 0 := fun hv =>
            hns ⟨sc, sg, d, g, hsc, hsg, hd, hg, hv⟩
          simp [verifySections, hdot, hsign, hexists, hsg, hcontent, hsgc, hd, hg, hv]

/-! ## The whole loop -/

/-- The object carries a `SIGN_` section at all. -/
def HasSignSection (names : List Bytes) : Prop :=
  ∃ name ∈ names, startsWith name (lit "SIGN_") = true

theorem not_dot_of_sign (h : startsWith name (lit "SIGN_") = true) : name.head? ≠ some 46 := by
  have hlit : lit "SIGN_" = [83, 73, 71, 78, 95] := by decide
  cases name with
  | nil => simp
  | cons c rest =>
    simp only [startsWith, strncmpEq, hlit, beq_iff_eq, length_cons, length_nil,
      take_succ_cons, List.cons.injEq] at h
    simp [h.1]

theorem verifySections_skip (hc : ¬ Checked name) (rest : List Bytes) (has : Bool) :
    verifySections env key file (name :: rest) has =
      verifySections env key file rest (has || startsWith name (lit "SIGN_")) := by
  by_cases hsign : startsWith name (lit "SIGN_") = true
  · simp [verifySections, not_dot_of_sign hsign, hsign]
  · have hdot : name.head? = some 46 := by
      by_contra hne
      exact hc ⟨hne, by simpa using hsign⟩
    simp [verifySections, hdot, hsign]

/-- What a 0 of the loop means. -/
theorem verifySections_eq_zero_iff (ho : openElf env file = some elf)
    (hn : scnNames none elf.scns = .ok listed) (names : List Bytes)
    (hnames : ∀ name ∈ names, HasName elf.scns name) (has : Bool) :
    verifySections env key file names has = .ok 0 ↔
      (has = true ∨ HasSignSection names) ∧
        ∀ name ∈ names, Checked name → LookupSigned env key elf.scns name := by
  induction names generalizing has with
  | nil => cases has <;> simp [verifySections, HasSignSection]
  | cons name rest ih =>
    have ih := ih (fun n h => hnames n (mem_cons_of_mem _ h))
    by_cases hc : Checked name
    · obtain ⟨hok, hfault, hrej⟩ := verifySections_checked key ho hn hc
        (hnames name (by simp)) rest has
      have hsign : HasSignSection (name :: rest) ↔ HasSignSection rest := by
        simp [HasSignSection, hc.2]
      by_cases hl : LookupSigned env key elf.scns name
      · rw [hok hl, ih, hsign]
        simp [hl]
      · have hne : verifySections env key file (name :: rest) has ≠ .ok 0 := by
          by_cases hh : CopiesHollow elf.scns name
          · simp [hfault hh]
          · simp [hrej hl hh]
        refine iff_of_false hne (fun h => hl (h.2 name (by simp) hc))
    · rw [verifySections_skip key hc, ih]
      simp [HasSignSection, hc, or_assoc]

/-- The loop returns exactly if it does not reach a section without bits. -/
theorem verifySections_returns_iff (ho : openElf env file = some elf)
    (hn : scnNames none elf.scns = .ok listed) (names : List Bytes)
    (hnames : ∀ name ∈ names, HasName elf.scns name) (has : Bool) :
    (∃ v, verifySections env key file names has = .ok v) ↔
      ∀ pre name post, names = pre ++ name :: post →
        (∀ m ∈ pre, Checked m → LookupSigned env key elf.scns m) →
          Checked name → ¬ CopiesHollow elf.scns name := by
  induction names generalizing has with
  | nil => simp [verifySections]
  | cons first rest ih =>
    have ih := ih (fun n h => hnames n (mem_cons_of_mem _ h))
    -- the statement for `first :: rest` is the one for `first` and the one for `rest`
    have hsplit : (∀ pre name post, first :: rest = pre ++ name :: post →
          (∀ m ∈ pre, Checked m → LookupSigned env key elf.scns m) →
            Checked name → ¬ CopiesHollow elf.scns name) ↔
        (Checked first → ¬ CopiesHollow elf.scns first) ∧
        ((Checked first → LookupSigned env key elf.scns first) →
          ∀ pre name post, rest = pre ++ name :: post →
            (∀ m ∈ pre, Checked m → LookupSigned env key elf.scns m) →
              Checked name → ¬ CopiesHollow elf.scns name) := by
      constructor
      · intro h
        refine ⟨h [] first rest rfl (by simp), ?_⟩
        intro hfirst pre name post heq hpre
        refine h (first :: pre) name post (by rw [heq]; rfl) ?_
        intro m hm
        rcases mem_cons.mp hm with rfl | hm
        · exact hfirst
        · exact hpre m hm
      · rintro ⟨h₁, h₂⟩ pre name post heq hpre
        cases pre with
        | nil =>
          obtain ⟨rfl, rfl⟩ : first = name ∧ rest = post := by simpa using heq
          exact h₁
        | cons p pre =>
          obtain ⟨rfl, rfl⟩ : first = p ∧ rest = pre ++ name :: post := by simpa using heq
          exact h₂ (hpre first (by simp)) pre name post rfl
            (fun m hm => hpre m (mem_cons_of_mem _ hm))
    rw [hsplit]
    by_cases hc : Checked first
    · obtain ⟨hok, hfault, hrej⟩ := verifySections_checked key ho hn hc
        (hnames first (by simp)) rest has
      by_cases hh : CopiesHollow elf.scns first
      · simp [hfault hh, hc, hh]
      · by_cases hl : LookupSigned env key elf.scns first
        · rw [hok hl, ih]
          simp [hc, hh, hl]
        · simp [hrej hl hh, hc, hh, hl]
    · rw [verifySections_skip key hc, ih]
      simp [hc]

end Table

/-! ## What the whole check returns -/

/-- `list_sections` lists the object. -/
def Lists (elf : Elf) : Prop := elf.shstrndxOk = true ∧ AllNamed elf.scns

/-- Some section is a `SIGN_` section. -/
def SignPresent (scns : List Scn) : Prop :=
  ∃ name, HasName scns name ∧ startsWith name (lit "SIGN_") = true

/-- Every lookup the file verifier makes on this table is answered by an
accepted signature. -/
def LookupsSigned (env : Env) (key : String) (scns : List Scn) : Prop :=
  SignPresent scns ∧
    ∀ name, HasName scns name → Checked name → LookupSigned env key scns name

/-- This section's own content is signed, by a section named exactly `SIGN_`
and its full name. -/
def OwnSigned (env : Env) (key : String) (scns : List Scn) (s : Scn) (name : Bytes) : Prop :=
  ∃ sg d g, sg ∈ scns ∧ sg.shdr = some (some (lit "SIGN_" ++ name)) ∧
    s.data.content = some d ∧ sg.data.content = some g ∧ env.sm2.verify d key g = 0

/-- Every section that is neither `.name` nor `SIGN_name` is signed itself. -/
def EverySectionSigned (env : Env) (key : String) (scns : List Scn) : Prop :=
  ∀ s ∈ scns, ∀ name, s.shdr = some (some name) → Checked name → OwnSigned env key scns s name

/-- A lookup by name does not reach this section, or looks for its signature
under a cut name. -/
def Missed (scns : List Scn) (s : Scn) (name : Bytes) : Prop :=
  firstNamed scns name ≠ some s ∨ 250 < name.length

theorem doVerifyEbpfSectionSign_eq_zero_iff (env : Env) (key : String) (b : Bytes) (elf : Elf)
    (he : env.elf b = some elf) :
    doVerifyEbpfSectionSign env key (some b) = .ok 0 ↔
      Lists elf ∧ LookupsSigned env key elf.scns := by
  have ho : openElf env (some b) = some elf := he
  by_cases hstr : elf.shstrndxOk = true
  · have hnamed := scnNames_ok_iff elf.scns
    cases hn : scnNames none elf.scns with
    | error e =>
      have hnot : ¬ AllNamed elf.scns := by simpa [hn] using hnamed
      simp [doVerifyEbpfSectionSign, listSections, ho, hstr, hn, Lists, hnot]
    | ok names =>
      have hall : AllNamed elf.scns := hnamed.mp ⟨names, hn⟩
      have hmem := mem_names_iff hn
      have hloop := verifySections_eq_zero_iff key ho hn names (fun n h => (hmem n).mp h) false
      simp [doVerifyEbpfSectionSign, listSections, ho, hstr, hn, Lists, hall, hloop,
        LookupsSigned, SignPresent, HasSignSection, hmem]
  · simp [doVerifyEbpfSectionSign, listSections, ho, hstr, Lists]

/-- The scan returns: the object lists, and no section that is copied before
the first rejection has a null `d_buf`. -/
def ScanReturns (env : Env) (key : String) (b : Bytes) : Prop :=
  ∀ elf, env.elf b = some elf → elf.shstrndxOk = true →
    AllNamed elf.scns ∧ ∀ names, scnNames none elf.scns = .ok names →
      ∀ pre name post, names = pre ++ name :: post →
        (∀ m ∈ pre, Checked m → LookupSigned env key elf.scns m) →
          Checked name → ¬ CopiesHollow elf.scns name

theorem doVerifyEbpfSectionSign_returns_iff (env : Env) (key : String) (b : Bytes) :
    (∃ v, doVerifyEbpfSectionSign env key (some b) = .ok v) ↔ ScanReturns env key b := by
  cases he : env.elf b with
  | none => simp [doVerifyEbpfSectionSign, listSections, openElf, he, ScanReturns]
  | some elf =>
    have ho : openElf env (some b) = some elf := he
    by_cases hstr : elf.shstrndxOk = true
    · have hnamed := scnNames_ok_iff elf.scns
      cases hn : scnNames none elf.scns with
      | error e =>
        have hnot : ¬ AllNamed elf.scns := by simpa [hn] using hnamed
        simp [doVerifyEbpfSectionSign, listSections, ho, hstr, hn, ScanReturns, he, hnot]
      | ok names =>
        have hall : AllNamed elf.scns := hnamed.mp ⟨names, hn⟩
        have hloop := verifySections_returns_iff key ho hn names
          (fun n h => (mem_names_iff hn n).mp h) false
        simp [doVerifyEbpfSectionSign, listSections, ho, hstr, hn, ScanReturns, he, hall, hloop]
    · simp [doVerifyEbpfSectionSign, listSections, ho, hstr, ScanReturns, he]

theorem ownSigned_of_lookup {env : Env} {key : String}
    (hl : LookupSigned env key scns name) (hm : ¬ Missed scns s name) :
    OwnSigned env key scns s name := by
  obtain ⟨hfirst, hlen⟩ : firstNamed scns name = some s ∧ name.length ≤ 250 := by
    simpa [Missed] using hm
  obtain ⟨sc, sg, d, g, hsc, hsg, hd, hg, hv⟩ := hl
  obtain rfl : s = sc := by simpa [hfirst] using hsc
  rw [signSecName_short hlen] at hsg
  obtain ⟨hmem, hname⟩ := firstNamed_some hsg
  exact ⟨sg, d, g, hmem, hname, hd, hg, hv⟩

/-- **What the return value 0 vouches for.** For every section table, accepting
the object means that every section is signed exactly when the object is turned
down, or the sections the lookups miss are signed themselves. -/
theorem sectionSign_vouches_iff (env : Env) (key : String) (b : Bytes) (elf : Elf)
    (he : env.elf b = some elf) :
    (doVerifyEbpfSectionSign env key (some b) = .ok 0 → EverySectionSigned env key elf.scns) ↔
      (¬ (Lists elf ∧ LookupsSigned env key elf.scns) ∨
        ∀ s ∈ elf.scns, ∀ name, s.shdr = some (some name) → Checked name →
          Missed elf.scns s name → OwnSigned env key elf.scns s name) := by
  rw [doVerifyEbpfSectionSign_eq_zero_iff env key b elf he]
  constructor
  · intro h
    by_cases hacc : Lists elf ∧ LookupsSigned env key elf.scns
    · exact Or.inr fun s hs name hname hc _ => h hacc s hs name hname hc
    · exact Or.inl hacc
  · rintro (hrej | hmissed) hacc
    · exact absurd hacc hrej
    · intro s hs name hname hc
      by_cases hm : Missed elf.scns s name
      · exact hmissed s hs name hname hc hm
      · exact ownSigned_of_lookup (hacc.2.2 name ⟨s, hs, hname⟩ hc) hm

def onePair : Sm2 where
  verify msg _ sig := if msg = [1] ∧ sig = [2] then 0 else -6
  empty_rejected := by simp

/-- Two sections named `prog`; only the first is the signed one. -/
def shadowedElf : Elf where
  shstrndxOk := true
  scns := [⟨some (some (lit "prog")), .bits [1]⟩, ⟨some (some (lit "prog")), .bits [9]⟩,
    ⟨some (some (lit "SIGN_prog")), .bits [2]⟩]

def shadowedEnv : Env := ⟨onePair, fun _ => some shadowedElf⟩

theorem shadowed_section_accepted :
    doVerifyEbpfSectionSign shadowedEnv "public.pem" (some []) = .ok 0 ∧
      ¬ EverySectionSigned shadowedEnv "public.pem" shadowedElf.scns := by
  refine ⟨by decide, ?_⟩
  intro h
  obtain ⟨sg, d, g, -, -, hd, -, hv⟩ :=
    h ⟨some (some (lit "prog")), .bits [9]⟩ (by decide) (lit "prog") rfl (by decide)
  simp only [ElfData.content, cons_ne_nil, ↓reduceIte, Option.some.injEq] at hd
  subst hd
  simp [shadowedEnv, onePair] at hv

def signedElf : Elf where
  shstrndxOk := true
  scns := [⟨some (some (lit "prog")), .bits [1]⟩, ⟨some (some (lit "SIGN_prog")), .bits [2]⟩]

def signedEnv : Env := ⟨onePair, fun _ => some signedElf⟩

theorem sectionSign_vouches_signed :
    doVerifyEbpfSectionSign signedEnv "public.pem" (some []) = .ok 0 ∧
      EverySectionSigned signedEnv "public.pem" signedElf.scns := by
  have hzero : doVerifyEbpfSectionSign signedEnv "public.pem" (some []) = .ok 0 := by decide
  refine ⟨hzero, (sectionSign_vouches_iff signedEnv "public.pem" [] signedElf rfl).mpr
    (Or.inr ?_) hzero⟩
  intro s hs name hname hc hmissed
  rcases mem_cons.mp hs with rfl | hs
  · obtain rfl : lit "prog" = name := by simpa using hname
    exact absurd hmissed (by unfold Missed; decide)
  · obtain rfl : s = ⟨some (some (lit "SIGN_prog")), .bits [2]⟩ := by simpa using hs
    obtain rfl : lit "SIGN_prog" = name := by simpa using hname
    exact absurd hc (by decide)

end CtForge.Signature
