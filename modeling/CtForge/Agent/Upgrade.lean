import CtForge.Agent.Settings
import CtForge.Agent.Containers
import CtForge.Agent.RunCommand
import CtForge.Agent.Commands

/-!
# Upgrading the agent (`ctc_upgrade_json`)

The file is downloaded by a shell line, compared with the digest of the request, checked for
the ELF magic and moved over the installed binary by a second shell line. What the commands
do to the three files in question is a parameter with a contract for each of the three lines
that the agent means to run.
-/

namespace CtForge.Agent

open CLang GoString Shell Json List Option

/-! ## The host -/

/-- The downloaded file, the copy beside the binary and the binary, where they exist. -/
structure UpgradeDisk where
  tmp : Option Bytes
  stage : Option Bytes
  target : Option Bytes
  deriving DecidableEq, Repr

def upgradeTarget : Bytes := lit "/usr/local/bin/ctforge-agent"

/-- The line of `sha256_of_file`. -/
def digestLine (path : Bytes) : Bytes :=
  snprintf 1024 (pasted "sha256sum " path ++ lit " 2>/dev/null | cut -d' ' -f1")

def digestArgs (path : Bytes) : List Arg :=
  [fixedWords "sha256sum" ["sha256sum"], .field [] path,
    .fixed (lit "2>/dev/null | cut -d' ' -f1") (discardErrors ++ [.op 124, plainWord (lit "cut"),
      optionWord (lit "-d") [32], plainWord (lit "-f1")])]

def stagePath (pid : Int32) : Bytes := snprintf 512 (upgradeTarget ++ lit ".new." ++ int32 pid)

def installLine (path stage : Bytes) : Bytes :=
  snprintf 1024 (pasted "cp " path ++ pasted " " stage ++ pasted " && chmod 755 " stage ++
    pasted " && mv -f " stage ++ pasted " " upgradeTarget)

def installArgs (path stage : Bytes) : List Arg :=
  [fixedWords "cp" ["cp"], .field [] path, .field [] stage,
    .fixed (lit "&& chmod 755") (.op 38 :: .op 38 :: words ["chmod", "755"]), .field [] stage,
    .fixed (lit "&& mv -f") (.op 38 :: .op 38 :: words ["mv", "-f"]), .field [] stage,
    .field [] upgradeTarget]

def isLowerHex (c : UInt8) : Bool := isDigit c || (97 ≤ c && c ≤ 102)

/-- What the host does. `curl` and `wget` write to the file that they are given if the address
is no option; `sha256sum` prints the digest or nothing; the last line replaces the binary by
the file or leaves it. -/
structure UpgradeHost where
  mkstemp : Option TempFile
  pid : Int32
  exec : List Token → UpgradeDisk → UpgradeDisk × Bool
  /-- What such a line prints, or none if `popen` fails. -/
  print : List Token → UpgradeDisk → Option Bytes
  /-- `fopen` succeeds. -/
  opens : Bool
  /-- How many bytes `fread` can get. -/
  readable : Nat
  sha256 : Bytes → Bytes
  sha256_hex : ∀ content, (sha256 content).length = 64 ∧ (sha256 content).all isLowerHex = true
  downloads : ∀ url path d, url.head? ≠ some 45 →
    (exec ((downloadArgs url path).flatMap Arg.tokens) d).1.target = d.target
  digests : ∀ path d out, print ((digestArgs path).flatMap Arg.tokens) d = some out →
    out = [] ∨ ∃ content, d.tmp = some content ∧ out = sha256 content ++ [10]
  installs : ∀ path stage d d' done,
    exec ((installArgs path stage).flatMap Arg.tokens) d = (d', done) →
      if done then d.tmp.isSome ∧ d'.target = d.tmp else d'.target = d.target

/-- `system`. A line that the shell cannot read does nothing. -/
def UpgradeHost.system (host : UpgradeHost) (line : Bytes) (d : UpgradeDisk) : UpgradeDisk × Bool :=
  match split line with
  | none => (d, false)
  | some ts => host.exec ts d

def UpgradeHost.popen (host : UpgradeHost) (line : Bytes) (d : UpgradeDisk) : Option Bytes :=
  match split line with
  | none => some []
  | some ts => host.print ts d

/-! ## The handler -/

/-- The first line of an output, as `fgets` puts it into 128 bytes, without the newline and
the blanks at its end. -/
def firstLine (out : Bytes) : Bytes :=
  let line := cString ((out.takeWhile (· != 10)).take 127)
  (line.reverse.dropWhile (· == 32)).reverse

/-- `sha256_of_file`. -/
def sha256OfFile (host : UpgradeHost) (path : Bytes) (d : UpgradeDisk) : Option Bytes :=
  match host.popen (digestLine path) d with
  | none => none
  | some out => if (firstLine out).length = 64 then some (firstLine out) else none

def elfMagic : Bytes := [127, 69, 76, 70]

def passesDigest (host : UpgradeHost) (path want : Bytes) (d : UpgradeDisk) : Bool :=
  want.length != 64 || sha256OfFile host path d == some want

def passesMagic (host : UpgradeHost) (d : UpgradeDisk) : Bool :=
  match if host.opens then d.tmp else none with
  | none => true
  | some content => (content.take 4).take host.readable == elfMagic

def upgradeReply (ok : Bool) (message : String) (version : Bytes) : Bytes :=
  snprintf 1024 (object
    [("ok", Json.bool ok), ("message", string (lit message)), ("version", string version)])

/-- `ctc_upgrade_json`, up to the restart of the service. -/
def upgradeJson (host : UpgradeHost) (url want version : Bytes) (d : UpgradeDisk) :
    UpgradeDisk × Bytes :=
  if url.isEmpty then (d, upgradeFailed "missing url")
  else
    match host.mkstemp with
    | none => (d, upgradeFailed "mkstemp failed")
    | some file =>
      let (fetched, done) := host.system (downloadLine url file.path) { d with tmp := some [] }
      if !done then
        ({ fetched with tmp := none }, upgradeReply false "download failed" version)
      else if !passesDigest host file.path want fetched then
        ({ fetched with tmp := none }, upgradeReply false "sha256 mismatch" version)
      else if !passesMagic host fetched then
        ({ fetched with tmp := none },
          upgradeReply false "downloaded file is not a valid ELF binary" version)
      else
        let (placed, done) := host.system (installLine file.path (stagePath host.pid)) fetched
        if !done then
          ({ placed with tmp := none, stage := none }, upgradeReply false "install failed" version)
        else
          ({ placed with tmp := none },
            upgradeReply true "upgraded, restarting service" version)

/-- The branch of `handle_command`. -/
def handleUpgrade (host : UpgradeHost) (d : UpgradeDisk) :
    (payload : Option Bytes) → Except Fault (UpgradeDisk × Bytes)
  | none => .ok (upgradeJson host [] [] [] d)
  | some json => do
    let url ← readBuffer json (lit "url") 1024
    let sha ← readBuffer json (lit "sha256") 128
    let version ← readBuffer json (lit "version") 64
    return upgradeJson host url sha version d

/-- The fields of an `UpgradePayload` with a digest. -/
def upgradePayload (url sha version : Text) : List Field :=
  [⟨"url", .str url⟩, ⟨"sha256", .str sha⟩, ⟨"version", .str version⟩]

/-- The agent works with what its buffers hold of the three strings. -/
theorem handleUpgrade_sent (host : UpgradeHost) (d : UpgradeDisk) (url sha version : Text) :
    handleUpgrade host d (some (objectText (upgradePayload url sha version))) =
      .ok (upgradeJson host (held 1024 url) (held 128 sha) (held 64 version) d) := by
  have hpassed : ∀ {k : String}, IsKey "url" ∧ lit "url" ≠ lit k → Passed k [⟨"url", .str url⟩] :=
    fun hkey => passed_cons hkey (by simp) passed_nil
  have hurl := jsonGetString_first (k := "url") (by decide) url
    [⟨"sha256", .str sha⟩, ⟨"version", .str version⟩] 1024
  have hsha : jsonGetString (objectText ([⟨"url", .str url⟩] ++
      ⟨"sha256", .str sha⟩ :: [⟨"version", .str version⟩])) (lit "sha256") 128 = _ :=
    jsonGetString_str (by decide) 128 (hpassed (by decide))
  have hversion : jsonGetString (objectText ([⟨"url", .str url⟩, ⟨"sha256", .str sha⟩] ++
      ⟨"version", .str version⟩ :: [])) (lit "version") 64 = _ :=
    jsonGetString_str (by decide) 64
      (passed_cons (by decide) (by simp) (passed_cons (by decide) (by simp) passed_nil))
  simp only [cons_append, nil_append] at hsha hversion
  simp only [handleUpgrade, upgradePayload, readBuffer, hurl, hsha, hversion]
  rfl

/-! ## What the shell reads -/

theorem TempFile.path_length (file : TempFile) : file.path.length = 33 := by
  have hfixed : (lit "/tmp/ctforge-agent-upgrade.").length = 27 := by decide
  rw [TempFile.path, length_append, hfixed, file.length]

theorem stagePath_eq (pid : Int32) : stagePath pid = upgradeTarget ++ lit ".new." ++ int32 pid := by
  have hpid := int32_length pid
  have htarget : upgradeTarget.length = 28 := by decide
  have hnew : (lit ".new.").length = 5 := rfl
  refine snprintf_eq_self ?_
  simp only [length_append]
  omega

theorem stagePath_length (pid : Int32) : (stagePath pid).length ≤ 44 := by
  have hpid := int32_length pid
  have htarget : upgradeTarget.length = 28 := by decide
  have hnew : (lit ".new.").length = 5 := rfl
  rw [stagePath_eq]
  simp only [length_append]
  omega

example : stagePath 7 = lit "/usr/local/bin/ctforge-agent.new.7" := by decide +kernel

theorem stagePath_no_quote (pid : Int32) : 39 ∉ stagePath pid := by
  have htarget : 39 ∉ upgradeTarget ++ lit ".new." := by decide
  have hpid : 39 ∉ int32 pid := by
    have hplain := isPlainWord_int32 pid
    rw [isPlainWord, Bool.and_eq_true, List.all_eq_true] at hplain
    intro hmem
    exact absurd (hplain.2 39 hmem) (by decide)
  rw [stagePath_eq, mem_append]
  exact fun h => h.elim htarget hpid

/-- The line that computes the digest is always read as it is meant. -/
theorem split_digestLine (file : TempFile) :
    split (digestLine file.path) = some ((digestArgs file.path).flatMap Arg.tokens) := by
  have hlen := file.path_length
  have hline : digestLine file.path = Shell.line (digestArgs file.path) := by
    have hhead : lit "sha256sum " = lit "sha256sum" ++ [32] := by decide
    have htail : lit " 2>/dev/null | cut -d' ' -f1" = 32 :: lit "2>/dev/null | cut -d' ' -f1" := by
      decide
    have hfits : (lit "sha256sum").length = 9 ∧
      (lit "2>/dev/null | cut -d' ' -f1").length = 27 := by
      decide
    rw [digestLine, pasted, hhead, htail, snprintf_eq_self]
    · simp [digestArgs, Shell.line, Arg.text, fixedWords, List.intercalate]
    · simp only [length_append, length_cons, length_nil, hfits]
      omega
  rw [hline]
  refine (split_line_iff (by simp [digestArgs]) ?_).mpr ?_
  · simp only [digestArgs, forall_mem_cons, not_mem_nil, false_implies, implies_true,
      and_true]
    exact ⟨reads_of_run (by decide), .inl rfl, reads_of_run (by decide)⟩
  · simp [digestArgs, fixedWords, Arg.isClosed, file.path_no_quote]

/-- The line that installs the file is always read as it is meant. -/
theorem split_installLine (file : TempFile) (pid : Int32) :
    split (installLine file.path (stagePath pid)) =
      some ((installArgs file.path (stagePath pid)).flatMap Arg.tokens) := by
  have hpath := file.path_length
  have hstage := stagePath_length pid
  have htarget : upgradeTarget.length = 28 := by decide
  have hline : installLine file.path (stagePath pid) =
      Shell.line (installArgs file.path (stagePath pid)) := by
    have hcp : lit "cp " = lit "cp" ++ [32] := by decide
    have hblank : lit " " = [32] := by decide
    have hchmod : lit " && chmod 755 " = 32 :: lit "&& chmod 755" ++ [32] := by decide
    have hmv : lit " && mv -f " = 32 :: lit "&& mv -f" ++ [32] := by decide
    have hfits : (lit "cp").length = 2 ∧ (lit "&& chmod 755").length = 12 ∧
        (lit "&& mv -f").length = 8 := by decide
    rw [installLine, pasted, pasted, pasted, pasted, pasted, hcp, hblank, hchmod, hmv,
      snprintf_eq_self]
    · simp [installArgs, Shell.line, Arg.text, fixedWords, List.intercalate]
    · simp only [length_append, length_cons, length_nil, hfits]
      omega
  have hclosed : 39 ∉ upgradeTarget := by decide
  rw [hline]
  refine (split_line_iff (by simp [installArgs]) ?_).mpr ?_
  · simp only [installArgs, forall_mem_cons, not_mem_nil, false_implies, implies_true,
      and_true]
    exact ⟨reads_of_run (by decide), .inl rfl, .inl rfl, reads_of_run (by decide),
      .inl rfl, reads_of_run (by decide), .inl rfl, .inl rfl⟩
  · simp [installArgs, fixedWords, Arg.isClosed, file.path_no_quote, stagePath_no_quote, hclosed]

/-! ## What is checked -/

theorem isLowerHex_facts {c : UInt8} : isLowerHex c = true → c ≠ 10 ∧ c ≠ 32 ∧ c ≠ 0 :=
  forall_byte (p := fun c => isLowerHex c = true → c ≠ 10 ∧ c ≠ 32 ∧ c ≠ 0) (by decide +kernel) c

theorem firstLine_digest {digest : Bytes} (h : ∀ c ∈ digest, c ≠ 10 ∧ c ≠ 32 ∧ c ≠ 0)
    (hlen : digest.length ≤ 127) : firstLine (digest ++ [10]) = digest := by
  have hline : (digest ++ [10]).takeWhile (· != 10) = digest := by
    rw [takeWhile_append_of_pos (by simpa using fun c hc => (h c hc).1)]
    simp
  have hnul : 0 ∉ digest := fun hmem => (h 0 hmem).2.2 rfl
  have hblank : digest.reverse.dropWhile (· == 32) = digest.reverse := by
    cases hlast : digest.reverse with
    | nil => rfl
    | cons c rest =>
      have hc : c ∈ digest := mem_reverse.mp (hlast ▸ mem_cons_self)
      rw [dropWhile_cons_of_neg (by simpa using (h c hc).2.1)]
  rw [firstLine, hline, take_of_length_le hlen, cString_eq_self hnul, hblank,
    reverse_reverse]

example : firstLine (lit "0a9f\n") = lit "0a9f" := by decide +kernel

variable {d : UpgradeDisk} {host : UpgradeHost}

theorem sha256OfFile_eq_iff {file : TempFile} {content want : Bytes} (htmp : d.tmp = some content) :
    sha256OfFile host file.path d = some want ↔ want = host.sha256 content ∧
      host.print ((digestArgs file.path).flatMap Arg.tokens) d =
        some (host.sha256 content ++ [10]) := by
  obtain ⟨hlength, hhex⟩ := host.sha256_hex content
  have hfirst : firstLine (host.sha256 content ++ [10]) = host.sha256 content :=
    firstLine_digest (fun c hc => isLowerHex_facts (List.all_eq_true.mp hhex c hc)) (by omega)
  rw [sha256OfFile, UpgradeHost.popen, split_digestLine]
  dsimp only
  cases hout : host.print ((digestArgs file.path).flatMap Arg.tokens) d with
  | none => simp
  | some out =>
    rcases host.digests _ _ _ hout with rfl | ⟨content', htmp', rfl⟩
    · simp [firstLine, cString]
    · cases htmp.symm.trans htmp'
      simp [hfirst, hlength, eq_comm]

def IsElf (content : Bytes) : Prop := elfMagic <+: content

/-- The check of the magic passes ELF files, and every file that cannot be opened. -/
theorem passesMagic_iff {content : Bytes} (htmp : d.tmp = some content) :
    passesMagic host d = true ↔ (host.opens = true → IsElf content ∧ 4 ≤ host.readable) := by
  rw [passesMagic]
  cases host.opens with
  | false => simp
  | true =>
    have hread : (content.take 4).take host.readable = elfMagic ↔
        IsElf content ∧ 4 ≤ host.readable := by
      have hlen : elfMagic.length = 4 := rfl
      rw [take_take]
      constructor
      · intro h
        have hshort := congrArg List.length h
        rw [length_take, hlen] at hshort
        refine ⟨?_, by omega⟩
        rw [IsElf, ← h]
        exact take_prefix ..
      · rintro ⟨helf, hle⟩
        rw [Nat.min_eq_right hle, ← hlen, ← prefix_iff_eq_take.mp helf]
    simp [htmp, hread]

/-! ## Whole requests -/

def OnlyRequested (host : UpgradeHost) (d : UpgradeDisk) (sha : Text) (after : UpgradeDisk) :
    Prop :=
  after.target ≠ d.target → ∃ content, after.target = some content ∧
    host.sha256 content = (bytes sha).map toLower ∧ IsElf content

/-- The request is handled, and the binary is the old one or the requested one. -/
def KeepsPromise (host : UpgradeHost) (d : UpgradeDisk) (url sha version : Text) : Prop :=
  ∃ after reply, handleUpgrade host d (some (objectText (upgradePayload url sha version))) =
    .ok (after, reply) ∧ OnlyRequested host d sha after

/-- If the shell reads the line at all, then as one download of an address that is no option. -/
def ReadsAsDownload (url : Bytes) (file : TempFile) : Prop :=
  ∀ ts, split (downloadLine url file.path) = some ts → ∃ addr path : Bytes,
    addr.head? ≠ some 45 ∧ ts = (downloadArgs addr path).flatMap Arg.tokens

/-- The file is made, the download leaves `content` in it, and the last line can put it into the
place of another binary. -/
structure Delivered (host : UpgradeHost) (d : UpgradeDisk) (url : Bytes) (file : TempFile)
    (fetched : UpgradeDisk) (content : Bytes) : Prop where
  asked : url ≠ []
  made : host.mkstemp = some file
  done : host.system (downloadLine url file.path) { d with tmp := some [] } = (fetched, true)
  holds : fetched.tmp = some content
  placed : (host.exec ((installArgs file.path (stagePath host.pid)).flatMap Arg.tokens) fetched).2 =
    true
  other : d.target ≠ some content

/-- The digest of the request has 64 bytes and is not the one that `sha256sum` prints, or the
file can be opened and is seen not to begin with the magic. -/
def TurnedDown (host : UpgradeHost) (file : TempFile) (fetched : UpgradeDisk) (want content : Bytes) :
    Prop :=
  (want.length = 64 ∧ ¬ (want = host.sha256 content ∧
    host.print ((digestArgs file.path).flatMap Arg.tokens) fetched =
      some (host.sha256 content ++ [10]))) ∨
  (host.opens = true ∧ ¬ (IsElf content ∧ 4 ≤ host.readable))

/-- What the download delivers is the requested binary, or is turned down. -/
def Guarded (host : UpgradeHost) (d : UpgradeDisk) (url sha : Text) : Prop :=
  ∀ file fetched content, Delivered host d (held 1024 url) file fetched content →
    (host.sha256 content = (bytes sha).map toLower ∧ IsElf content) ∨
      TurnedDown host file fetched (held 128 sha) content

theorem map_toLower_of_hex {digest : Bytes} (h : digest.all isLowerHex = true) :
    digest.map toLower = digest := by
  have hbyte : ∀ {c : UInt8}, isLowerHex c = true → toLower c = c := fun {c} =>
    forall_byte (p := fun c => isLowerHex c = true → toLower c = c) (by decide +kernel) c
  exact (map_congr_left fun c hc => hbyte (List.all_eq_true.mp h c hc)).trans (map_id _)

theorem downloadText_fits {url : Bytes} (h : url.length ≤ 900) (file : TempFile) :
    (downloadText url file.path).length < 2048 := by
  have hpath := file.path_length
  have hparts : (lit "curl -fsSL --connect-timeout 20 --max-time 300 -o ").length = 50 ∧
      (lit " ").length = 1 ∧ (lit " 2>/dev/null || ").length = 16 ∧
      (lit "wget -q -T 300 -O ").length = 18 ∧ (lit " 2>/dev/null").length = 12 := by
    decide
  simp only [downloadText, pasted, length_append, length_cons, length_nil, hparts, hpath]
  omega

theorem readsAsDownload_of_plain {url : Bytes} (hquote : 39 ∉ url) (hoption : url.head? ≠ some 45)
    {file : TempFile} (hfits : (downloadText url file.path).length < 2048) :
      ReadsAsDownload url file := by
  intro ts hts
  rw [(downloadLine_split_iff url file).mpr ⟨hquote, hfits⟩] at hts
  exact ⟨url, file.path, hoption, (some.inj hts).symm⟩

theorem fetch_target {url : Bytes} {file : TempFile} (hurl : ReadsAsDownload url file) :
    (host.system (downloadLine url file.path) d).1.target = d.target := by
  rw [UpgradeHost.system]
  split
  · rfl
  · rename_i ts hts
    obtain ⟨addr, path, haddr, rfl⟩ := hurl ts hts
    exact host.downloads addr path d haddr

theorem turnedDown_iff {file : TempFile} {want content : Bytes} (htmp : d.tmp = some content) :
    TurnedDown host file d want content ↔
      ¬ (passesDigest host file.path want d = true ∧ passesMagic host d = true) := by
  rw [passesMagic_iff htmp, passesDigest, TurnedDown]
  simp only [Bool.or_eq_true, bne_iff_ne, beq_iff_eq, sha256OfFile_eq_iff htmp]
  tauto

theorem Delivered.unique {url : Bytes} {file file' : TempFile} {fetched fetched' : UpgradeDisk}
    {content content' : Bytes} (h : Delivered host d url file fetched content)
    (h' : Delivered host d url file' fetched' content') :
    file' = file ∧ fetched' = fetched ∧ content' = content := by
  obtain rfl := some.inj (h'.made.symm.trans h.made)
  obtain rfl := (Prod.mk.inj (h'.done.symm.trans h.done)).1
  exact ⟨rfl, rfl, some.inj (h'.holds.symm.trans h.holds)⟩

/-- The binary stays, or it is what was delivered and not turned down. -/
theorem upgradeJson_target {url : Bytes} (want version : Bytes)
    (hurl : ∀ file, host.mkstemp = some file → ReadsAsDownload url file) :
    (upgradeJson host url want version d).1.target = d.target ∧
        (∀ file fetched content, Delivered host d url file fetched content →
          TurnedDown host file fetched want content) ∨
      ∃ file fetched content, Delivered host d url file fetched content ∧
        ¬ TurnedDown host file fetched want content ∧
        (upgradeJson host url want version d).1.target = some content := by
  rw [upgradeJson]
  split_ifs with hempty
  · exact .inl ⟨rfl, fun _ _ _ h => absurd (isEmpty_iff.mp hempty) h.asked⟩
  cases hfile : host.mkstemp with
  | none => exact .inl ⟨rfl, fun _ _ _ h => by cases hfile.symm.trans h.made⟩
  | some file =>
    have htarget : (host.system (downloadLine url file.path) { d with tmp := some [] }).1.target =
        d.target := fetch_target (hurl file hfile)
    have hstop : ∀ {fetched : UpgradeDisk} {done : Bool},
        host.system (downloadLine url file.path) { d with tmp := some [] } = (fetched, done) →
        (∀ content, done = true → fetched.tmp = some content → d.target ≠ some content →
          (host.exec ((installArgs file.path (stagePath host.pid)).flatMap Arg.tokens) fetched).2 =
            true → TurnedDown host file fetched want content) →
        ∀ file' fetched' content, Delivered host d url file' fetched' content →
          TurnedDown host file' fetched' want content := by
      intro fetched done hfetch hdown file' fetched' content h
      obtain rfl := some.inj (h.made.symm.trans hfile)
      obtain ⟨rfl, rfl⟩ := Prod.mk.inj (h.done.symm.trans hfetch)
      exact hdown content rfl h.holds h.other h.placed
    dsimp only
    generalize hfetch : host.system (downloadLine url file.path) { d with tmp := some [] } = fetch
    rw [hfetch] at htarget
    obtain ⟨fetched, done⟩ := fetch
    split_ifs with hdone hdigest hmagic hplaced
    · exact .inl ⟨htarget, hstop hfetch fun _ h => by simp [h] at hdone⟩
    · refine .inl ⟨htarget, hstop hfetch fun content _ htmp _ _ => (turnedDown_iff htmp).mpr ?_⟩
      exact fun hpass => by simp [hpass.1] at hdigest
    · refine .inl ⟨htarget, hstop hfetch fun content _ htmp _ _ => (turnedDown_iff htmp).mpr ?_⟩
      exact fun hpass => by simp [hpass.2] at hmagic
    all_goals
      rw [UpgradeHost.system, split_installLine] at hplaced ⊢
      have hinstall := host.installs file.path (stagePath host.pid) fetched _ _ rfl
    · rw [if_neg (by simpa using hplaced)] at hinstall
      exact .inl ⟨hinstall.trans htarget, hstop hfetch fun _ _ _ _ hdone => by
        simp [hdone] at hplaced⟩
    · rw [if_pos (by simpa using hplaced)] at hinstall
      obtain ⟨hsome, hnew⟩ := hinstall
      obtain ⟨content, htmp⟩ := isSome_iff_exists.mp hsome
      rw [htmp] at hnew
      by_cases hother : d.target = some content
      · refine .inl ⟨hnew.trans hother.symm, hstop hfetch fun content' _ htmp' hother' _ => ?_⟩
        exact absurd (hother.trans (htmp.symm.trans htmp')) hother'
      · refine .inr ⟨file, fetched, content, ⟨by simpa using hempty, hfile, ?_, htmp,
          by simpa using hplaced, hother⟩, fun hdown => ?_, hnew⟩
        · rw [hfetch, show done = true by simpa using hdone]
        · refine (turnedDown_iff htmp).mp hdown ⟨by simpa using hdigest, by simpa using hmagic⟩

theorem keepsPromise_iff (url sha version : Text) : KeepsPromise host d url sha version ↔
    OnlyRequested host d sha
      (upgradeJson host (held 1024 url) (held 128 sha) (held 64 version) d).1 := by
  simp only [KeepsPromise, handleUpgrade_sent, Except.ok.injEq]
  exact ⟨fun ⟨_, _, heq, h⟩ => by rwa [← (Prod.mk.inj heq).1] at h, fun h => ⟨_, _, rfl, h⟩⟩

theorem keepsPromise_iff_guarded {url : Text}
    (hurl : ∀ file, host.mkstemp = some file → ReadsAsDownload (held 1024 url) file)
    (sha version : Text) : KeepsPromise host d url sha version ↔ Guarded host d url sha := by
  rw [keepsPromise_iff]
  rcases upgradeJson_target (held 128 sha) (held 64 version) hurl with
    ⟨hsame, hdown⟩ | ⟨file, fetched, content, hdelivered, hpassed, hnew⟩
  · exact ⟨fun _ file fetched content h => .inr (hdown file fetched content h),
      fun _ hne => absurd hsame hne⟩
  · rw [OnlyRequested, hnew]
    constructor
    · intro h file' fetched' content' h'
      obtain ⟨rfl, rfl, rfl⟩ := hdelivered.unique h'
      obtain ⟨c, hc, hright⟩ := h (Ne.symm hdelivered.other)
      cases hc
      exact .inl hright
    · intro h _
      exact ⟨content, rfl, (h file fetched content hdelivered).resolve_right hpassed⟩

def oldAgent : UpgradeDisk := ⟨none, none, some [1]⟩

/-- On this host the tokens put the downloaded file into the place of the binary. -/
def carelessHost (file : TempFile) (ts : List Token) (hts : ∀ addr path : Bytes,
    addr.head? ≠ some 45 → ts ≠ (downloadArgs addr path).flatMap Arg.tokens) : UpgradeHost where
  mkstemp := some file
  pid := 1
  exec := fun ts' d =>
    if ts' = ts ∧ d.tmp.isSome then ({ d with target := d.tmp }, true) else (d, false)
  print := fun _ _ => none
  opens := true
  readable := 4
  sha256 := fun _ => List.replicate 64 48
  sha256_hex := fun _ => by decide
  downloads := fun addr path d haddr => by
    rw [if_neg fun h => hts addr path haddr h.1.symm]
  digests := fun _ _ _ h => by cases h
  installs := by
    intro path stage d d' done h
    split at h
    · rename_i hboth
      cases h
      exact ⟨hboth.2, rfl⟩
    · cases h
      rfl

/-- An address that is no download installs another binary on some host. -/
theorem harmful_breaks_promise {url : Text} {file : TempFile}
    (h : ¬ ReadsAsDownload (held 1024 url) file) (sha version : Text) :
    ∃ host d, host.opens = true ∧ ¬ KeepsPromise host d url sha version := by
  obtain ⟨ts, hsplit, hts⟩ : ∃ ts, split (downloadLine (held 1024 url) file.path) = some ts ∧
      ∀ addr path : Bytes, addr.head? ≠ some 45 →
        ts ≠ (downloadArgs addr path).flatMap Arg.tokens := by
    simp only [ReadsAsDownload, not_forall, not_exists, not_and] at h
    obtain ⟨ts, hsplit, hts⟩ := h
    exact ⟨ts, hsplit, hts⟩
  have hasked : (held 1024 url).isEmpty = false := by
    refine Bool.eq_false_iff.mpr fun hempty => h ?_
    rw [isEmpty_iff.mp hempty]
    exact readsAsDownload_of_plain (by simp) (by simp) (downloadText_fits (by simp) file)
  refine ⟨carelessHost file ts hts, oldAgent, rfl, fun hkeeps => ?_⟩
  have htarget : (upgradeJson (carelessHost file ts hts) (held 1024 url) (held 128 sha)
      (held 64 version) oldAgent).1.target = some [] := by
    have hfetch : (carelessHost file ts hts).system (downloadLine (held 1024 url) file.path)
        { oldAgent with tmp := some [] } = (⟨some [], none, some []⟩, true) := by
      rw [UpgradeHost.system, hsplit]
      exact if_pos ⟨rfl, rfl⟩
    have hmagic : passesMagic (carelessHost file ts hts) ⟨some [], none, some []⟩ = false := rfl
    have hmade : (carelessHost file ts hts).mkstemp = some file := rfl
    rw [upgradeJson, if_neg (by simp [hasked]), hmade]
    simp only [hfetch, hmagic]
    split_ifs <;> simp_all
  obtain ⟨content, hcontent, -, helf⟩ :=
    (keepsPromise_iff url sha version).mp hkeeps (by rw [htarget]; decide)
  rw [htarget] at hcontent
  cases hcontent
  exact absurd helf.length_le (by decide)

/-- With a digest of 64 characters and a file that can be opened, nothing but the requested
binary is installed. -/
theorem only_requested_of_digest {url sha : Text} (hlen : (bytes sha).length = 64)
    (hkept : ∀ r ∈ sha, keptRune r = true) (hopens : host.opens = true) :
    Guarded host d url sha := by
  intro file fetched content h
  have hsha : held 128 sha = bytes sha := (held_eq_iff (by decide) sha).mpr ⟨hkept, by omega⟩
  by_cases hdown : TurnedDown host file fetched (held 128 sha) content
  · exact .inr hdown
  · simp only [TurnedDown, hsha, hlen, hopens, true_and, not_or, not_not] at hdown
    obtain ⟨⟨hdigest, -⟩, helf, -⟩ := hdown
    refine .inl ⟨?_, helf⟩
    rw [hdigest, map_toLower_of_hex (host.sha256_hex content).2]

/-- An address that the shell reads as something else than one download lets another binary in on
some host. With any other address only the requested binary is installed, exactly if what the
download delivers is that binary or is turned down. -/
theorem upgrade_installs_only_requested (url sha version : Text) :
    ((∀ host d, host.opens = true → KeepsPromise host d url sha version) →
      ∀ file, ReadsAsDownload (held 1024 url) file) ∧
    ∀ host d, (∀ file, host.mkstemp = some file → ReadsAsDownload (held 1024 url) file) →
      (KeepsPromise host d url sha version ↔ Guarded host d url sha) := by
  refine ⟨fun h file => ?_, fun host d hurl => keepsPromise_iff_guarded hurl sha version⟩
  by_contra hharm
  obtain ⟨host, d, hopens, hbreaks⟩ := harmful_breaks_promise hharm sha version
  exact hbreaks (h host d hopens)

/-- A host whose downloads have the given content, which has the digest of 64 zeros. A command
`other` replaces the binary. -/
def downloadHost (content : Bytes) (opens : Bool) : UpgradeHost where
  mkstemp := some ⟨lit "abcdef", rfl, by decide⟩
  pid := 1
  exec := fun ts d =>
    if ts.contains (plainWord (lit "other")) then ({ d with target := some [] }, true)
    else if ts.head? = some (plainWord (lit "curl")) then ({ d with tmp := some content }, true)
    else if ts.head? = some (plainWord (lit "cp")) then
      (if d.tmp.isSome then { d with target := d.tmp } else d, d.tmp.isSome)
    else (d, false)
  print := fun _ d => d.tmp.map fun _ => List.replicate 64 48 ++ [10]
  opens := opens
  readable := 4
  sha256 := fun _ => List.replicate 64 48
  sha256_hex := fun _ => by decide
  downloads := by
    intro url path d _
    have hother : ((downloadArgs url path).flatMap Arg.tokens).contains
        (plainWord (lit "other")) = false := rfl
    have hhead : ((downloadArgs url path).flatMap Arg.tokens).head? =
        some (plainWord (lit "curl")) := rfl
    rw [if_neg (by rw [hother]; decide), if_pos hhead]
  digests := by
    intro path d out hout
    obtain ⟨content, htmp, rfl⟩ := map_eq_some_iff.mp hout
    exact .inr ⟨content, htmp, rfl⟩
  installs := by
    intro path stage d d' done h
    have hother : ((installArgs path stage).flatMap Arg.tokens).contains
        (plainWord (lit "other")) = false := rfl
    have hhead : ((installArgs path stage).flatMap Arg.tokens).head? =
        some (plainWord (lit "cp")) := rfl
    have hcurl : plainWord (lit "cp") ≠ plainWord (lit "curl") := by decide
    rw [if_neg (by rw [hother]; decide), hhead, if_neg (by simpa using hcurl), if_pos rfl] at h
    cases htmp : d.tmp with
    | none =>
      rw [htmp] at h
      cases h
      rfl
    | some content =>
      rw [htmp] at h
      cases h
      exact ⟨rfl, rfl⟩

theorem requested_agent_is_installed :
    KeepsPromise (downloadHost elfMagic true) oldAgent (text "http://s/a")
      (List.replicate 64 (.char '0')) (text "2") := by
  have hurl : held 1024 (text "http://s/a") = lit "http://s/a" := by decide
  refine ((upgrade_installs_only_requested _ _ _).2 _ _ fun file _ => ?_).mpr
    (only_requested_of_digest (by decide) (by decide) rfl)
  rw [hurl]
  exact readsAsDownload_of_plain (by decide) (by decide) (downloadText_fits (by decide) file)

/-- What is installed in the other cases. -/
theorem upgrade_installs_other_binary :
    (∃ reply, handleUpgrade (downloadHost elfMagic true) oldAgent
        (some (objectText (upgradePayload (text "u") (List.replicate 63 (.char 'a')) []))) =
          .ok (⟨none, none, some elfMagic⟩, reply) ∧
      ¬ OnlyRequested (downloadHost elfMagic true) oldAgent (List.replicate 63 (.char 'a'))
        ⟨none, none, some elfMagic⟩) ∧
    (∃ reply, handleUpgrade (downloadHost [35] false) oldAgent
        (some (objectText (upgradePayload (text "u") (List.replicate 64 (.char '0')) []))) =
          .ok (⟨none, none, some [35]⟩, reply) ∧
      ¬ OnlyRequested (downloadHost [35] false) oldAgent (List.replicate 64 (.char '0'))
        ⟨none, none, some [35]⟩) ∧
    ∃ reply, handleUpgrade (downloadHost elfMagic true) oldAgent
        (some (objectText (upgradePayload (text "u' ; other ; '") (List.replicate 64 (.char 'a'))
          []))) = .ok (⟨none, none, some []⟩, reply) ∧
      ¬ OnlyRequested (downloadHost elfMagic true) oldAgent (List.replicate 64 (.char 'a'))
        ⟨none, none, some []⟩ := by
  have hrun : ∀ {host : UpgradeHost} {url sha : Text} {after : UpgradeDisk},
      (upgradeJson host (held 1024 url) (held 128 sha) (held 64 []) oldAgent).1 = after →
      ¬ OnlyRequested host oldAgent sha after →
      ∃ reply, handleUpgrade host oldAgent (some (objectText (upgradePayload url sha []))) =
        .ok (after, reply) ∧ ¬ OnlyRequested host oldAgent sha after := by
    intro host url sha after hafter hnot
    rw [handleUpgrade_sent, ← hafter]
    exact ⟨_, rfl, hafter ▸ hnot⟩
  refine ⟨hrun (by decide +kernel) fun honly => ?_, hrun (by decide +kernel) fun honly => ?_,
    hrun (by decide +kernel) fun honly => ?_⟩
  · obtain ⟨content, htarget, hdigest, -⟩ := honly (by decide)
    cases htarget
    exact absurd (congrArg List.length hdigest) (by decide)
  · obtain ⟨content, htarget, -, helf⟩ := honly (by decide)
    cases htarget
    exact absurd helf.length_le (by decide)
  · obtain ⟨content, htarget, -, helf⟩ := honly (by decide)
    cases htarget
    exact absurd helf.length_le (by decide)

end CtForge.Agent
