import CtForge.Agent.RunCommand
import CtForge.Agent.Containers
import CtForge.Agent.Commands

/-!
# Upgrading packages (`ctc_pkg_upgrade_json`)

The agent takes the names of the packages from the text of the payload: everything between
two quotes, which includes the key. Names that are too long for the buffer are passed over.
-/

namespace CtForge.Agent

open CLang GoString Shell Json List Option

/-! ## The handler -/

inductive PkgManager where
  | dnf
  | yum
  | apt
  | unknown
  deriving DecidableEq, Repr

def PkgManager.name : PkgManager → String
  | .dnf => "dnf"
  | .yum => "yum"
  | .apt => "apt"
  | .unknown => "unknown"

structure PkgHost extends ShellHost where
  dnf : Bool
  yum : Bool
  apt : Bool

/-- `pkg_manager`. -/
def PkgHost.manager (host : PkgHost) : PkgManager :=
  if host.dnf then .dnf else if host.yum then .yum else if host.apt then .apt else .unknown

def isPkgByte (c : UInt8) : Bool := isAlnum c || c == 45 || c == 95 || c == 46 || c == 43

/-- One round of the loop that fills `names[768]`. -/
def pushName (names item : Bytes) : Bytes :=
  if item.length = 0 ∨ 128 < item.length then names
  else if item.all isPkgByte && decide (names.length + item.length + 2 < 768) then
    if names.isEmpty then strncat names item item.length
    else strncat (strncat names [32] (767 - names.length)) item item.length
  else names

def pkgNames (json : Bytes) : Bytes := (quotedItems none json).foldl pushName []

/-- The command for `run_cmd`, and the reply. -/
structure PkgOutcome where
  cmd : Option Bytes := none
  reply : Bytes

def pkgFailed (message : String) : PkgOutcome where
  reply := object
    [("ok", bool false), ("output", string []), ("message", string (lit message))]

def pkgRun (host : PkgHost) (text : Bytes) : PkgOutcome where
  cmd := some (snprintf 1024 text)
  reply := object [("ok", bool true),
    ("output", string (jesc ((runCmd host.toShellHost (snprintf 1024 text) 600).getD []))),
    ("message", string (lit "done"))]

/-- The branch for `dnf` and `yum`. -/
def pkgUpgradeRpm (host : PkgHost) (mgr : String) : (json : Option Bytes) → PkgOutcome
  | none => pkgRun host (lit mgr ++ lit " -y upgrade 2>&1 | tail -40")
  | some json =>
    if json.contains 34 then
      if (pkgNames json).isEmpty then pkgFailed "no valid packages"
      else pkgRun host (lit mgr ++ lit " -y upgrade " ++ pkgNames json ++ lit " 2>&1 | tail -40")
    else pkgRun host (lit mgr ++ lit " -y upgrade 2>&1 | tail -40")

/-- `ctc_pkg_upgrade_json`. -/
def pkgUpgrade (host : PkgHost) (json : Option Bytes) : PkgOutcome :=
  match host.manager with
  | .dnf => pkgUpgradeRpm host "dnf" json
  | .yum => pkgUpgradeRpm host "yum" json
  | .apt => pkgRun host (lit "DEBIAN_FRONTEND=noninteractive apt-get -y upgrade 2>&1 | tail -40")
  | .unknown => pkgFailed "no supported package manager"

/-- The branch of `handle_command`. -/
def handlePkgUpgrade (host : PkgHost) (payload : Option Bytes) : PkgOutcome :=
  pkgUpgrade host (payload.filter fun json => (strstr (lit "packages") json).isSome)

/-! ## What is asked for -/

/-- The text of a `PkgUpgradePayload`; an empty list is omitted. -/
def pkgUpgradePayload (names : List Bytes) : Bytes :=
  if names.isEmpty then object []
  else object [("packages", array (names.map fun name => quote (asciiText name)))]

variable {names : List Bytes}

theorem pkgUpgradePayload_ne_nil (h : names ≠ []) :
    pkgUpgradePayload names =
      object [("packages", array (names.map fun name => quote (asciiText name)))] := by
  rw [pkgUpgradePayload, if_neg (by simpa using h)]

/-- The pipeline that upgrades the packages `names`. -/
def upgradePipeline (mgr : String) (names : List Bytes) : List Token :=
  words [mgr, "-y", "upgrade"] ++ names.map plainWord ++
    [.ioNumber [.plain 50], .op 62, .op 38, plainWord (lit "1"), .op 124, plainWord (lit "tail"),
      plainWord (lit "-40")]

/-- The shell is given the upgrade of the packages `names`, or nothing. -/
def PkgOutcome.Upgrades (mgr : String) (names : List Bytes) (outcome : PkgOutcome) : Prop :=
  ∀ cmd, outcome.cmd = some cmd → ∃ sh, command (runLine 600 cmd) = some sh ∧
    ∃ script, sh.args = wrappedArgs "sh" 600 script ∧
      split script = some (upgradePipeline mgr names)

/-! ## What is read from the payload -/

theorem quotedItems_skip {a : Bytes} (h : 34 ∉ a) (s : Bytes) :
    quotedItems none (a ++ s) = quotedItems none s := by
  induction a with
  | nil => rfl
  | cons c a ih =>
    obtain ⟨hc, ha⟩ : 34 ≠ c ∧ 34 ∉ a := by simpa using h
    rw [cons_append, quotedItems, if_neg (Ne.symm hc), ih ha]

theorem quotedItems_inside {w : Bytes} (h : 34 ∉ w) (acc s : Bytes) :
    quotedItems (some acc) (w ++ 34 :: s) = (acc ++ w) :: quotedItems none s := by
  induction w generalizing acc with
  | nil => simp [quotedItems]
  | cons c w ih =>
    obtain ⟨hc, hw⟩ : 34 ≠ c ∧ 34 ∉ w := by simpa using h
    rw [cons_append, quotedItems, if_neg (Ne.symm hc), ih hw, append_assoc]
    rfl

theorem quotedItems_string {w : Bytes} (h : 34 ∉ w) (s : Bytes) :
    quotedItems none (string w ++ s) = w :: quotedItems none s := by
  have hstring : string w ++ s = 34 :: (w ++ 34 :: s) := by simp [string]
  rw [hstring, quotedItems, if_pos rfl, quotedItems_inside h, nil_append]

theorem quotedItems_commas (h : ∀ name ∈ names, 34 ∉ name) (s : Bytes) :
    quotedItems none ((names.map string).flatMap (44 :: ·) ++ s) =
      names ++ quotedItems none s := by
  induction names with
  | nil => rfl
  | cons name names ih =>
    obtain ⟨hname, hnames⟩ := forall_mem_cons.mp h
    have htext : ((name :: names).map string).flatMap (44 :: ·) ++ s =
        [44] ++ (string name ++ ((names.map string).flatMap (44 :: ·) ++ s)) := by simp
    rw [htext, quotedItems_skip (by decide), quotedItems_string hname, ih hnames]
    rfl

theorem isPkgByte_facts {c : UInt8} : isPkgByte c = true →
    c ≠ 34 ∧ Shell.isPlain c = true ∧ isLeading c = false ∧
      escapeChar (Char.ofNat c.toNat) = [c] :=
  forall_byte (p := fun c => isPkgByte c = true → c ≠ 34 ∧ Shell.isPlain c = true ∧
    isLeading c = false ∧ escapeChar (Char.ofNat c.toNat) = [c]) (by decide +kernel) c

def Allowed (names : List Bytes) : Prop := ∀ name ∈ names, name.all isPkgByte = true

variable {name : Bytes}

theorem no_quote_of_allowed (h : name.all isPkgByte = true) : 34 ∉ name := by
  intro hmem
  exact (isPkgByte_facts (all_eq_true.mp h 34 hmem)).1 rfl

theorem quote_ascii (h : name.all isPkgByte = true) : quote (asciiText name) = string name := by
  have hescape : escape (asciiText name) = name := by
    rw [escape, asciiText, flatMap_map]
    have hsame : name.flatMap (fun c => (Rune.char (Char.ofNat c.toNat)).escape) =
        name.flatMap fun c => [c] :=
      flatMap_congr fun c hc => (isPkgByte_facts (all_eq_true.mp h c hc)).2.2.2
    rw [hsame, flatMap_singleton']
  rw [quote, hescape, string]

theorem quotedItems_payload (hne : names ≠ []) (h : Allowed names) :
    quotedItems none (pkgUpgradePayload names) = lit "packages" :: names := by
  have hquote : names.map (fun name => quote (asciiText name)) = names.map string :=
    map_congr_left fun name hname => quote_ascii (h name hname)
  have hkey : 34 ∉ lit "packages" := by decide
  have hnames : ∀ name ∈ names, 34 ∉ name := fun name hname => no_quote_of_allowed (h name hname)
  have hend : quotedItems none [93, 125] = [] := rfl
  have hpayload : pkgUpgradePayload names = [123] ++ (string (lit "packages") ++
      ([58, 91] ++ (commaSep (names.map string) ++ [93, 125]))) := by
    rw [pkgUpgradePayload_ne_nil hne, hquote]
    simp [object, commaSep, member, array]
  rw [hpayload, quotedItems_skip (by decide), quotedItems_string hkey, quotedItems_skip (by decide)]
  obtain ⟨name, names, rfl⟩ := exists_cons_of_ne_nil hne
  obtain ⟨hname, hnames⟩ := forall_mem_cons.mp hnames
  rw [map_cons, commaSep, append_assoc, quotedItems_string hname,
    quotedItems_commas hnames, hend, append_nil]

/-! ## The names that are kept -/

def blankSep : List Bytes → Bytes
  | [] => []
  | name :: rest => name ++ rest.flatMap (32 :: ·)

theorem blankSep_snoc (h : names ≠ []) (name : Bytes) :
    blankSep (names ++ [name]) = blankSep names ++ 32 :: name := by
  obtain ⟨first, rest, rfl⟩ := exists_cons_of_ne_nil h
  simp [blankSep]

def HasRoom (kept : List Bytes) (name : Bytes) : Prop :=
  0 < name.length ∧ name.length ≤ 128 ∧ (blankSep kept).length + name.length + 2 < 768

instance (kept : List Bytes) (name : Bytes) : Decidable (HasRoom kept name) :=
  inferInstanceAs (Decidable (_ ∧ _ ∧ _))

def keep (kept : List Bytes) (name : Bytes) : List Bytes :=
  if HasRoom kept name then kept ++ [name] else kept

variable {kept : List Bytes}

/-- One name is appended behind a blank, or passed over where it has no room. -/
theorem pushName_blankSep (hkept : ∀ name ∈ kept, name ≠ []) (hname : name.all isPkgByte = true) :
    pushName (blankSep kept) name = blankSep (keep kept name) ∧
      ∀ name' ∈ keep kept name, name' ≠ [] := by
  have hempty : (blankSep kept).isEmpty = true ↔ kept = [] := by
    cases kept with
    | nil => simp [blankSep]
    | cons first rest => simp [blankSep, hkept first mem_cons_self]
  simp only [pushName, keep, hname, Bool.true_and, decide_eq_true_eq]
  by_cases hlen : name.length = 0 ∨ 128 < name.length
  · have hroom : ¬ HasRoom kept name := by
      rintro ⟨hpos, hle, -⟩
      omega
    rw [if_pos hlen, if_neg hroom]
    exact ⟨rfl, hkept⟩
  · rw [if_neg hlen]
    by_cases hlt : (blankSep kept).length + name.length + 2 < 768
    · have hroom : HasRoom kept name := by
        refine ⟨?_, ?_, hlt⟩ <;> omega
      rw [if_pos hlt, if_pos hroom]
      refine ⟨?_, ?_⟩
      · by_cases hnil : kept = []
        · rw [if_pos (hempty.mpr hnil), hnil, strncat_eq_append (Nat.le_refl _)]
          simp [blankSep]
        · rw [if_neg (fun h => hnil (hempty.mp h)), blankSep_snoc hnil,
            strncat_eq_append (Nat.le_refl _),
            strncat_eq_append (by rw [length_singleton]; omega), append_assoc]
          rfl
      · intro other hother
        rcases mem_append.mp hother with hother | hother
        · exact hkept other hother
        · rw [mem_singleton.mp hother]
          exact ne_nil_of_length_pos hroom.1
    · have hroom : ¬ HasRoom kept name := fun h => hlt h.2.2
      rw [if_neg hlt, if_neg hroom]
      exact ⟨rfl, hkept⟩

theorem foldl_pushName (h : Allowed names) (hkept : ∀ name ∈ kept, name ≠ []) :
    names.foldl pushName (blankSep kept) = blankSep (names.foldl keep kept) := by
  induction names generalizing kept with
  | nil => rfl
  | cons name names ih =>
    obtain ⟨hname, hnames⟩ := forall_mem_cons.mp h
    obtain ⟨hpush, hne⟩ := pushName_blankSep hkept hname
    rw [foldl_cons, hpush, foldl_cons]
    exact ih hnames hne

def upgraded (names : List Bytes) : List Bytes := names.foldl keep [lit "packages"]

theorem pkgNames_payload (hne : names ≠ []) (h : Allowed names) :
    pkgNames (pkgUpgradePayload names) = blankSep (upgraded names) := by
  have hfirst : pushName [] (lit "packages") = blankSep [lit "packages"] := by decide
  rw [pkgNames, quotedItems_payload hne h, foldl_cons, hfirst, upgraded]
  exact foldl_pushName h (by decide)

/-- The names that are kept are some of those that come, in their order. -/
theorem foldl_keep_append (names kept : List Bytes) :
    ∃ more, names.foldl keep kept = kept ++ more ∧ more.Sublist names := by
  induction names generalizing kept with
  | nil => exact ⟨[], by simp, .slnil⟩
  | cons name names ih =>
    rw [foldl_cons, keep]
    split
    · obtain ⟨more, hmore, hsub⟩ := ih (kept ++ [name])
      exact ⟨name :: more, by rw [hmore, append_assoc]; rfl, hsub.cons_cons name⟩
    · obtain ⟨more, hmore, hsub⟩ := ih kept
      exact ⟨more, hmore, hsub.cons name⟩

theorem foldl_keep_all_iff (name : Bytes) (names kept : List Bytes) :
    (name :: names).foldl keep kept = kept ++ name :: names ↔
      HasRoom kept name ∧ names.foldl keep (kept ++ [name]) = kept ++ [name] ++ names := by
  rw [foldl_cons, keep]
  by_cases hroom : HasRoom kept name
  · simp [hroom]
  · obtain ⟨more, hmore, hsub⟩ := foldl_keep_append names kept
    have hshort := hsub.length_le
    rw [if_neg hroom, hmore]
    refine ⟨fun h => ?_, fun h => absurd h.1 hroom⟩
    have hlong := congrArg List.length (append_cancel_left h)
    rw [length_cons] at hlong
    omega

theorem blankSep_replicate (k : Nat) (name : Bytes) :
    (blankSep (List.replicate (k + 1) name)).length = name.length + k * (name.length + 1) := by
  rw [replicate_succ, blankSep, length_append, length_flatMap]
  simp

theorem length_packages : (lit "packages").length = 8 := by decide

theorem hasRoom_packages (k : Nat) :
    HasRoom (List.replicate (k + 1) (lit "packages")) (lit "packages") ↔ k < 84 := by
  unfold HasRoom
  rw [blankSep_replicate, length_packages]
  omega

/-- Behind 85 times the key there is room for a name of one byte only. -/
theorem full_keeps_all_iff (names : List Bytes) :
    names.foldl keep (List.replicate 85 (lit "packages")) =
        List.replicate 85 (lit "packages") ++ names ↔
      names = [] ∨ ∃ c, names = [[c]] := by
  have hfull : (blankSep (List.replicate 85 (lit "packages"))).length = 764 := by
    rw [blankSep_replicate 84, length_packages]
  rcases names with _ | ⟨name, _ | ⟨name', names⟩⟩
  · simp
  · rw [foldl_keep_all_iff, HasRoom, hfull]
    simp only [foldl_nil, append_nil, and_true, cons_ne_nil, false_or,
      List.cons.injEq]
    rw [← length_eq_one_iff]
    omega
  · rw [foldl_keep_all_iff, foldl_keep_all_iff]
    have hlast : (blankSep (List.replicate 85 (lit "packages") ++ [name])).length =
        765 + name.length := by
      rw [blankSep_snoc (by simp), length_append, hfull, length_cons]
      omega
    constructor
    · rintro ⟨⟨hpos, -⟩, ⟨hpos', -, hlt⟩, -⟩
      rw [hlast] at hlt
      omega
    · simp

/-- The induction is on how many of the first names are the key's own text: each of them has to
be, since the first name of the command is the key. -/
theorem keeps_all_iff (k : Nat) (hk : k ≤ 84) (names : List Bytes) :
    names.foldl keep (List.replicate (85 - k) (lit "packages")) =
        List.replicate (84 - k) (lit "packages") ++ names ↔
      names = List.replicate (k + 1) (lit "packages") ∨
        ∃ c, names = List.replicate (k + 1) (lit "packages") ++ [[c]] := by
  have hsplit : List.replicate (85 - k) (lit "packages") =
      List.replicate (84 - k) (lit "packages") ++ [lit "packages"] := by
    rw [← replicate_succ', show 84 - k + 1 = 85 - k by omega]
  obtain ⟨more, hmore, hsub⟩ :=
    foldl_keep_append names (List.replicate (85 - k) (lit "packages"))
  rcases names with _ | ⟨name, names⟩
  · simp [hsplit]
  by_cases hname : name = lit "packages"
  · subst hname
    have hroom := hasRoom_packages (84 - k)
    rw [show 84 - k + 1 = 85 - k by omega] at hroom
    have hshift : List.replicate (84 - k) (lit "packages") ++ lit "packages" :: names =
        List.replicate (85 - k) (lit "packages") ++ names := by
      rw [hsplit, append_assoc]
      rfl
    rw [hshift, foldl_cons, keep]
    cases k with
    | zero =>
      rw [if_neg (fun h => absurd (hroom.mp h) (by omega)), full_keeps_all_iff]
      simp
    | succ k =>
      have ih := keeps_all_iff k (by omega) names
      rw [if_pos (hroom.mpr (by omega)), ← replicate_succ',
        show 85 - (k + 1) + 1 = 85 - k by omega, show 85 - (k + 1) = 84 - k by omega, ih]
      simp [replicate_succ (n := k + 1)]
  · refine iff_of_false (fun h => ?_) ?_
    · rw [hmore, hsplit, append_assoc] at h
      obtain ⟨hhead, -⟩ := List.cons.inj (append_cancel_left h)
      exact hname hhead.symm
    · simp [replicate_succ, hname]

theorem upgraded_eq_iff (names : List Bytes) :
    upgraded names = names ↔ names = List.replicate 85 (lit "packages") ∨
      ∃ c, names = List.replicate 85 (lit "packages") ++ [[c]] :=
  keeps_all_iff 84 (Nat.le_refl _) names

/-! ## The command -/

theorem keep_forall {p : Bytes → Prop} (hkept : ∀ name ∈ kept, p name)
    (hname : name ≠ [] → p name) : ∀ name' ∈ keep kept name, p name' := by
  unfold keep
  split
  · rename_i hroom
    intro other hother
    rcases mem_append.mp hother with hother | hother
    · exact hkept other hother
    · rw [mem_singleton.mp hother]
      exact hname (ne_nil_of_length_pos hroom.1)
  · exact hkept

theorem upgraded_plain (h : Allowed names) : ∀ name ∈ upgraded names, isPlainWord name = true := by
  have hfold : ∀ kept : List Bytes, (∀ name ∈ kept, isPlainWord name = true) →
      ∀ name ∈ names.foldl keep kept, isPlainWord name = true := by
    induction names with
    | nil => exact fun kept hkept => hkept
    | cons name names ih =>
      obtain ⟨hname, hnames⟩ := forall_mem_cons.mp h
      intro kept hkept
      refine ih hnames (keep kept name) (keep_forall hkept fun hne => ?_)
      obtain ⟨c, w, rfl⟩ := exists_cons_of_ne_nil hne
      obtain ⟨hc, hw⟩ := forall_mem_cons.mp (all_eq_true.mp hname)
      exact isPlainWord_cons.mpr ⟨(isPkgByte_facts hc).2.2.1, (isPkgByte_facts hc).2.1,
        fun d hd => (isPkgByte_facts (hw d hd)).2.1⟩
  exact hfold [lit "packages"] (by decide)

theorem upgraded_length (names : List Bytes) : (blankSep (upgraded names)).length ≤ 766 := by
  have hfold : ∀ kept : List Bytes, kept ≠ [] → (blankSep kept).length ≤ 766 →
      (blankSep (names.foldl keep kept)).length ≤ 766 := by
    induction names with
    | nil => exact fun kept _ hkept => hkept
    | cons name names ih =>
      intro kept hne hkept
      rw [foldl_cons, keep]
      split
      · rename_i hroom
        refine ih (kept ++ [name]) (by simp) ?_
        rw [blankSep_snoc hne, length_append, length_cons]
        have hlt := hroom.2.2
        omega
      · exact ih kept hne hkept
  exact hfold [lit "packages"] (by simp) (by decide)

theorem reads_names (h : ∀ name ∈ names, isPlainWord name = true) :
    Reads (names.flatMap (· ++ [32])) (names.map plainWord) := by
  induction names with
  | nil => exact reads_of_run rfl
  | cons name names ih =>
    obtain ⟨hname, hnames⟩ := forall_mem_cons.mp h
    exact (reads_plain hname).append (ih hnames)

theorem blankSep_blank (h : names ≠ []) : blankSep names ++ [32] = names.flatMap (· ++ [32]) := by
  obtain ⟨name, names, rfl⟩ := exists_cons_of_ne_nil h
  rw [blankSep]
  induction names generalizing name with
  | nil => simp
  | cons name' names ih =>
    have htail := ih name' (by simp)
    rw [flatMap_cons, flatMap_cons, ← htail]
    simp

/-- The command of the branch for `dnf` and `yum`. -/
def upgradeCommand (mgr : PkgManager) (names : List Bytes) : Bytes :=
  lit mgr.name ++ lit " -y upgrade " ++ blankSep names ++ lit " 2>&1 | tail -40"

theorem split_upgradeCommand {mgr : PkgManager} (hmgr : mgr = .dnf ∨ mgr = .yum)
    (hne : names ≠ []) (h : ∀ name ∈ names, isPlainWord name = true) :
    split (upgradeCommand mgr names) = some (upgradePipeline mgr.name names) := by
  have hhead : Reads (lit mgr.name ++ lit " -y upgrade ") (words [mgr.name, "-y", "upgrade"]) := by
    rcases hmgr with rfl | rfl <;> exact reads_of_run (by decide)
  have htail : Reads (lit "2>&1 | tail ") [.ioNumber [.plain 50], .op 62, .op 38,
      plainWord (lit "1"), .op 124, plainWord (lit "tail")] := reads_of_run (by decide)
  have hend : lit " 2>&1 | tail -40" = [32] ++ (lit "2>&1 | tail " ++ lit "-40") := by decide
  have hread := ((hhead.append (reads_names h)).append htail).split_last
    (w := lit "-40") (by decide)
  rw [← blankSep_blank hne] at hread
  rw [upgradeCommand, hend, upgradePipeline]
  simp only [append_assoc] at hread ⊢
  exact hread

theorem upgradeCommand_length {mgr : PkgManager} (hmgr : mgr = .dnf ∨ mgr = .yum)
    (names : List Bytes) : (upgradeCommand mgr (upgraded names)).length < 1024 := by
  have hnames := upgraded_length names
  have hname : (lit mgr.name).length = 3 := by
    rcases hmgr with rfl | rfl <;> rfl
  have hhead : (lit " -y upgrade ").length = 12 := rfl
  have htail : (lit " 2>&1 | tail -40").length = 16 := rfl
  simp only [upgradeCommand, length_append]
  omega

/-- The command that is run names the packages that `upgraded` keeps. -/
theorem handlePkgUpgrade_runs {host : PkgHost} (hmgr : host.manager = .dnf ∨ host.manager = .yum)
    (hne : names ≠ []) (h : Allowed names) :
    (handlePkgUpgrade host (some (pkgUpgradePayload names))).cmd =
      some (upgradeCommand host.manager (upgraded names)) := by
  have hkey : ∃ s t, pkgUpgradePayload names = s ++ lit "packages" ++ t ∧ 34 ∈ s := by
    refine ⟨[123, 34], 34 :: 58 :: (array (names.map fun name => quote (asciiText name)) ++ [125]),
      ?_, by decide⟩
    simp [pkgUpgradePayload_ne_nil hne, object, commaSep, member, string]
  obtain ⟨s, t, hpayload, hquote⟩ := hkey
  have hstr : (strstr (lit "packages") (pkgUpgradePayload names)).isSome = true := by
    rw [isSome_iff_ne_none, Ne, strstr_eq_none_iff (by decide), not_not, hpayload]
    exact ⟨s, t, rfl⟩
  have hquotes : (pkgUpgradePayload names).contains 34 = true := by
    rw [hpayload]
    simp [hquote]
  have hnames : (pkgNames (pkgUpgradePayload names)).isEmpty = false := by
    obtain ⟨more, hmore, -⟩ := foldl_keep_append names [lit "packages"]
    rw [pkgNames_payload hne h, upgraded, hmore]
    rfl
  have hfits := upgradeCommand_length hmgr names
  have hsome : (some (pkgUpgradePayload names)).filter
      (fun json => (strstr (lit "packages") json).isSome) = some (pkgUpgradePayload names) := by
    rw [filter_some, if_pos hstr]
  have hrpm : ∀ mgr : PkgManager, (upgradeCommand mgr (upgraded names)).length < 1024 →
      (pkgUpgradeRpm host mgr.name (some (pkgUpgradePayload names))).cmd =
        some (upgradeCommand mgr (upgraded names)) := by
    intro mgr hfits
    rw [pkgUpgradeRpm, if_pos hquotes, if_neg (by rw [hnames]; decide), pkgNames_payload hne h]
    exact congrArg some (snprintf_eq_self hfits)
  rw [handlePkgUpgrade, hsome, pkgUpgrade]
  rcases hmgr with hmgr | hmgr
  · rw [hmgr] at hfits ⊢
    exact hrpm .dnf hfits
  · rw [hmgr] at hfits ⊢
    exact hrpm .yum hfits

theorem wrapped_fits {cmd : Bytes} (h : cmd.length < 1024) (timeoutSec : Int32) :
    (wrapped timeoutSec cmd).length < 16384 := by
  have hhead := wrapperHead_length timeoutSec
  have hquote := quoteSingle_length_le cmd
  have hend : (lit "' 2>/dev/null").length = 13 := rfl
  simp only [wrapped, length_append]
  omega

theorem upgradePipeline_inj {mgr : String} {names names' : List Bytes}
    (h : upgradePipeline mgr names = upgradePipeline mgr names') : names = names' := by
  have hwords : names.map plainWord = names'.map plainWord :=
    append_cancel_left (append_cancel_right h)
  refine (map_injective_iff.mpr fun v w hvw => ?_) hwords
  exact (map_injective_iff.mpr fun c d hcd => Piece.plain.inj hcd) (Token.word.inj hvw)

/-- The command names the requested packages exactly if all of them and nothing else are kept. -/
theorem upgrades_iff {host : PkgHost} (hmgr : host.manager = .dnf ∨ host.manager = .yum)
    (hsome : names ≠ []) (h : Allowed names) :
    (handlePkgUpgrade host (some (pkgUpgradePayload names))).Upgrades host.manager.name names ↔
      upgraded names = names := by
  obtain ⟨more, hmore, -⟩ := foldl_keep_append names [lit "packages"]
  have hne : upgraded names ≠ [] := by
    rw [upgraded, hmore]
    simp
  have hsplit := split_upgradeCommand hmgr hne (upgraded_plain h)
  have hrun := command_runLine_of_fits 600 _ (wrapped_fits (upgradeCommand_length hmgr names) 600)
  rw [PkgOutcome.Upgrades, handlePkgUpgrade_runs hmgr hsome h]
  constructor
  · intro hall
    obtain ⟨sh, hsh, script, hargs, hscript⟩ := hall _ rfl
    rw [hrun] at hsh
    cases some.inj hsh
    rw [← wrappedArgs_inj.mp hargs, hsplit] at hscript
    exact upgradePipeline_inj (some.inj hscript)
  · intro heq cmd hcmd
    cases some.inj hcmd
    refine ⟨_, hrun, _, rfl, ?_⟩
    rw [hsplit, heq]

/-- The command names exactly the packages that were asked for in two cases only: 85 times the
name `packages`, with or without a name of one byte behind them. The key then stands for the
name that has no room. -/
theorem upgrade_names_requested_iff (host : PkgHost)
    (hmgr : host.manager = .dnf ∨ host.manager = .yum) (names : List Bytes)
    (hsome : names ≠ []) (h : Allowed names) :
    (handlePkgUpgrade host (some (pkgUpgradePayload names))).Upgrades host.manager.name names ↔
      names = List.replicate 85 (lit "packages") ∨
        ∃ c, names = List.replicate 85 (lit "packages") ++ [[c]] := by
  rw [upgrades_iff hmgr hsome h, upgraded_eq_iff]

/-- A host with `dnf`, on which nothing can be started. -/
def dnfHost : PkgHost := ⟨⟨fun _ => none, by simp⟩, true, false, false⟩

theorem packages_upgraded_as_asked :
    dnfHost.manager = .dnf ∧ Allowed (List.replicate 85 (lit "packages")) ∧
      (handlePkgUpgrade dnfHost (some
        (pkgUpgradePayload (List.replicate 85 (lit "packages"))))).Upgrades "dnf"
          (List.replicate 85 (lit "packages")) := by
  have hallowed : Allowed (List.replicate 85 (lit "packages")) := by
    intro name hname
    rw [eq_of_mem_replicate hname]
    decide
  exact ⟨rfl, hallowed, (upgrade_names_requested_iff dnfHost (.inl rfl) _ (by simp) hallowed).mpr
    (.inl rfl)⟩

/-- A request for `curl` upgrades `packages` as well. -/
theorem key_is_upgraded :
    pkgUpgradePayload [lit "curl"] = lit "\x7b\"packages\":[\"curl\"]\x7d" ∧
      (handlePkgUpgrade dnfHost (some (pkgUpgradePayload [lit "curl"]))).cmd =
        some (lit "dnf -y upgrade packages curl 2>&1 | tail -40") ∧
      ¬ (handlePkgUpgrade dnfHost (some (pkgUpgradePayload [lit "curl"]))).Upgrades "dnf"
        [lit "curl"] := by
  have hallowed : Allowed [lit "curl"] := by
    intro name hname
    rw [mem_singleton.mp hname]
    decide
  have hkept : upgraded [lit "curl"] = [lit "packages", lit "curl"] := by decide
  have hdnf : dnfHost.manager = .dnf ∨ dnfHost.manager = .yum := .inl rfl
  refine ⟨by decide, ?_, ?_⟩
  · rw [handlePkgUpgrade_runs hdnf (by simp) hallowed, hkept]
    exact congrArg some (by decide)
  · intro hasked
    rw [show "dnf" = dnfHost.manager.name from rfl, upgrades_iff hdnf (by simp) hallowed,
      hkept] at hasked
    exact absurd (congrArg List.length hasked) (by decide)

end CtForge.Agent
