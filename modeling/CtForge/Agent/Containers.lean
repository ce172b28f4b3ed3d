import CtForge.Lib.ShellArgs
import CtForge.Lib.StrStr
import CtForge.Agent.SysLog
import CtForge.Agent.Text

/-!
# Containers and upgrades (`sysadmin.c`, `portforward.c`)

`docker_create`, `docker_compose` and `upgrade` paste the fields of their payloads into
lines for the shell. The name, the image and the lists of a container are filtered; its
restart policy and its network are put between single quotes as they come, and so is the
address of an upgrade. The action of a compose project stands in the line without quotes.
-/

namespace CtForge.Agent

open CLang Shell List

/-- `opt'w'`. -/
def pasted (opt : String) (w : Bytes) : Bytes := lit opt ++ 39 :: w ++ [39]

/-- A reply of `ctc_docker_create_json` and `ctc_docker_compose_json`. -/
def failedText (output : String) : Bytes :=
  lit "\x7b\"ok\":false,\"output\":\"" ++ output.toList.flatMap String.utf8EncodeChar ++
    lit "\"\x7d"

/-! ## Creating a container -/

def safeOk : Bytes :=
  lit "abcdefghijklmnopqrstuvwxyzABCDEFGHIJKLMNOPQRSTUVWXYZ0123456789.-_/: =@"

/-- The loops over `strchr(p, '"')`: the texts between quotes, `acc` being the one that is
being read. -/
def quotedItems : (acc : Option Bytes) → Bytes → List Bytes
  | _, [] => []
  | none, c :: s => quotedItems (if c = 34 then some [] else none) s
  | some acc, c :: s =>
    if c = 34 then acc :: quotedItems none s else quotedItems (some (acc ++ [c])) s

/-- The items of the list that begins at `p`; only the first 2047 bytes of it are read. -/
def listItems (p : Bytes) : List Bytes :=
  if p.contains 93 then quotedItems none (snprintf 2048 (p.takeWhile (· != 93))) else []

def envItems (items : List Bytes) : Option (List Bytes) :=
  let settings := items.filter fun kv => 0 < kv.length && kv.length < 256 && kv.contains 61
  if settings.all fun kv => kv.all safeOk.contains then some settings else none

def portItems (items : List Bytes) : List Bytes :=
  let mappings := items.filter fun pm =>
    0 < pm.length && pm.length < 128 && (pm.contains 58 || pm.contains 47)
  mappings.takeWhile fun pm => pm.all fun c => isAlnum c || [58, 47, 46, 45].contains c

def mountItems (items : List Bytes) : List Bytes :=
  (items.filter fun mm => 0 < mm.length && mm.length < 256 && mm.contains 58).takeWhile
    fun mm => mm.all fun c => safeOk.contains c || [58, 44, 42].contains c

structure DockerCreate where
  name : Bytes
  image : Bytes
  cmd : Bytes
  restart : Bytes
  network : Bytes
  privileged : Bool
  env : List Bytes := []
  ports : List Bytes := []
  mounts : List Bytes := []
  deriving DecidableEq, Repr

/-- The mounts of a payload. The search goes one byte too far, which skips a byte of the list
or leaves the payload. -/
def mountList (json : Bytes) : Except Fault (List Bytes) :=
  match strstr (lit "\"mounts\":[") json with
  | none => .ok []
  | some [] => .error .outOfBounds
  | some (_ :: p) => .ok (mountItems (listItems p))

/-- The checks of `ctc_docker_create_json`: a reply, or the container with its lists. -/
def checkCreate (json : Bytes) (c : DockerCreate) : Except Fault (Except Bytes DockerCreate) :=
  if c.image.isEmpty then .ok (.error (failedText "missing image"))
  else if c.name.isEmpty then .ok (.error (failedText "missing name"))
  else if !c.name.all safeOk.contains then .ok (.error (failedText "invalid name"))
  else if !c.image.all safeOk.contains then .ok (.error (failedText "invalid image"))
  else
    match envItems (((strstr (lit "\"env\":[") json).map listItems).getD []) with
    | none => .ok (.error (failedText "invalid env"))
    | some env => do
      let ports := portItems (((strstr (lit "\"ports\":[") json).map listItems).getD [])
      return .ok { c with env := env, ports := ports, mounts := ← mountList json }

/-- What `ctc_docker_create_json` reads from its payload, or its reply. -/
def dockerCreateRequest (available : Bool) (json : Bytes) :
    Except Fault (Except Bytes DockerCreate) :=
  if !available then .ok (.error (failedText "docker not available"))
  else do
    let name ← readBuffer json (lit "name") 128
    let image ← readBuffer json (lit "image") 256
    let cmd ← readBuffer json (lit "cmd") 1024
    let restart ← readBuffer json (lit "restart") 32
    let network ← readBuffer json (lit "network") 128
    let privileged ← readBuffer json (lit "privileged") 8
    let _ ← readBuffer json (lit "auto_start") 8
    checkCreate json {
      name, image, cmd, restart, network
      privileged := privileged == lit "true" }

namespace DockerCreate

def own (c : DockerCreate) : Bytes := if c.cmd = [] then [] else 32 :: c.cmd

/-- The texts that are appended to `dcmd[8192]`. -/
def pieces (c : DockerCreate) : List Bytes :=
  pasted "docker create --name " c.name ::
    ((if c.restart = [] then [] else [pasted " --restart=" c.restart]) ++
      (if c.network = [] then [] else [pasted " --network=" c.network]) ++
      (if c.privileged then [lit " --privileged"] else []) ++
      c.env.map (pasted " -e ") ++ c.ports.map (pasted " -p ") ++ c.mounts.map (pasted " -v ") ++
      [pasted " " c.image] ++ if c.cmd = [] then [] else [32 :: c.cmd])

/-- The line that `run_cmd` gets. -/
def line (c : DockerCreate) : Except Fault Bytes := fill 8192 c.pieces

end DockerCreate

/-! ## Compose projects -/

/-- What the host has for `ctc_docker_compose_json`: the two forms of the command, and
whether the directory and the file can be made. -/
structure ComposeHost where
  plugin : Bool
  binary : Bool
  mkdir : Bool
  file : Bool

structure Compose where
  plugin : Bool
  dir : Bytes
  hasContent : Bool
  action : Bytes
  deriving DecidableEq, Repr

def isDirByte (c : UInt8) : Bool := isAlnum c || [47, 95, 45, 46].contains c

/-- The checks of `ctc_docker_compose_json`. -/
def checkCompose (host : ComposeHost) (action workdir content : Bytes) : Except Bytes Compose :=
  if action.isEmpty then .error (failedText "missing action")
  else if !host.plugin && !host.binary then .error (failedText "docker compose 不可用")
  else if !workdir.all isDirByte || (strstr (lit "..") workdir).isSome then
    .error (failedText "invalid work_dir")
  else if content.isEmpty && workdir.isEmpty then .error (failedText "missing work_dir")
  else
    .ok {
      plugin := host.plugin
      dir := if workdir.isEmpty then lit "/tmp/ctc-compose" else workdir
      hasContent := !content.isEmpty
      action }

/-- What `ctc_docker_compose_json` reads from its payload, or its reply. -/
def dockerComposeRequest (host : ComposeHost) (json : Bytes) :
    Except Fault (Except Bytes Compose) := do
  let action ← readBuffer json (lit "action") 32
  let workdir ← readBuffer json (lit "work_dir") 512
  let content ← readBuffer json (lit "content") 8192
  return checkCompose host action workdir content

namespace Compose

def command (c : Compose) : Bytes := if c.plugin then lit "docker compose" else lit "docker-compose"

def mkdirLine (c : Compose) : Bytes := snprintf 1024 (pasted "mkdir -p " c.dir)

def runLine (c : Compose) : Bytes :=
  snprintf 1024 (pasted "cd " c.dir ++ lit " && " ++ c.command ++ 32 :: c.action ++
    lit " 2>&1 | tail -50")

def runs (c : Compose) (host : ComposeHost) : Bool := !c.hasContent || (host.mkdir && host.file)

def lines (c : Compose) (host : ComposeHost) : List Bytes :=
  (if c.hasContent then [c.mkdirLine] else []) ++ if c.runs host then [c.runLine] else []

end Compose

/-! ## Upgrades -/

/-- The file that `mkstemp` makes. -/
structure TempFile where
  suffix : Bytes
  length : suffix.length = 6
  plain : suffix.all isAlnum = true
  deriving DecidableEq, Repr

def TempFile.path (t : TempFile) : Bytes := lit "/tmp/ctforge-agent-upgrade." ++ t.suffix

def upgradeFailed (message : String) : Bytes :=
  lit "\x7b\"ok\":false,\"message\":\"" ++ lit message ++ lit "\"\x7d"

/-- The address that `ctc_upgrade_json` gets from `handle_command` and the file for it, or
its reply. -/
def upgradeRequest (tmp : Option TempFile) : (payload : Option Bytes) →
    Except Fault (Except Bytes (Bytes × TempFile))
  | none => .ok (.error (upgradeFailed "missing url"))
  | some json => do
    let url ← readBuffer json (lit "url") 1024
    let _ ← readBuffer json (lit "sha256") 128
    let _ ← readBuffer json (lit "version") 64
    if url.isEmpty then return .error (upgradeFailed "missing url")
    match tmp with
    | none => return .error (upgradeFailed "mkstemp failed")
    | some tmp => return .ok (url, tmp)

/-- The text of the line of `download_file`, which has room for 2047 bytes. -/
def downloadText (url outPath : Bytes) : Bytes :=
  pasted "curl -fsSL --connect-timeout 20 --max-time 300 -o " outPath ++ pasted " " url ++
    lit " 2>/dev/null || " ++ pasted "wget -q -T 300 -O " outPath ++ pasted " " url ++
    lit " 2>/dev/null"

def downloadLine (url outPath : Bytes) : Bytes := snprintf 2048 (downloadText url outPath)

/-! ## The fixed commands -/

def fixedWords (s : String) (ws : List String) : Arg := .fixed (lit s) (words ws)

namespace DockerCreate

def options (c : DockerCreate) : List (List Arg) :=
  (if c.restart = [] then [] else [[.field (lit "--restart=") c.restart]]) ++
    (if c.network = [] then [] else [[.field (lit "--network=") c.network]]) ++
    (if c.privileged then [[fixedWords "--privileged" ["--privileged"]]] else []) ++
    c.env.map (fun kv => [fixedWords "-e" ["-e"], .field [] kv]) ++
    c.ports.map (fun pm => [fixedWords "-p" ["-p"], .field [] pm]) ++
    c.mounts.map (fun mm => [fixedWords "-v" ["-v"], .field [] mm]) ++ [[.field [] c.image]]

def args (c : DockerCreate) : List Arg :=
  [fixedWords "docker create --name" ["docker", "create", "--name"], .field [] c.name] ++
    c.options.flatten

/-- Up to the container's own command the line is the fixed command, with each field inside
one argument. -/
def Contained (c : DockerCreate) (line : Bytes) : Prop :=
  ∃ head tail, line = head ++ tail ∧ tail <+: c.own ∧
    split head = some (c.args.flatMap Arg.tokens)

variable {c : DockerCreate}

theorem mem_options {g : List Arg} (h : g ∈ c.options) :
    (g = [.field (lit "--restart=") c.restart] ∨ g = [.field (lit "--network=") c.network] ∨
      g = [fixedWords "--privileged" ["--privileged"]] ∨ g = [.field [] c.image]) ∨
      (∃ kv ∈ c.env, g = [fixedWords "-e" ["-e"], .field [] kv]) ∨
      (∃ pm ∈ c.ports, g = [fixedWords "-p" ["-p"], .field [] pm]) ∨
      ∃ mm ∈ c.mounts, g = [fixedWords "-v" ["-v"], .field [] mm] := by
  simp only [options, mem_append, mem_map, mem_singleton,
    mem_ite_nil_left, mem_ite_nil_right] at h
  rcases h with ((((((⟨-, h⟩ | ⟨-, h⟩) | ⟨-, h⟩) | ⟨kv, hkv, rfl⟩) | ⟨pm, hpm, rfl⟩) |
    ⟨mm, hmm, rfl⟩) | h)
  · exact .inl (.inl h)
  · exact .inl (.inr (.inl h))
  · exact .inl (.inr (.inr (.inl h)))
  · exact .inr (.inl ⟨kv, hkv, rfl⟩)
  · exact .inr (.inr (.inl ⟨pm, hpm, rfl⟩))
  · exact .inr (.inr (.inr ⟨mm, hmm, rfl⟩))
  · exact .inl (.inr (.inr (.inr h)))

theorem pasted_option (opt : String) (rest : Bytes) (h : lit opt = 32 :: rest) (w : Bytes) :
    pasted opt w = 32 :: Shell.line [.field rest w] := by
  simp [pasted, h, Shell.line, List.intercalate, Arg.text]

theorem pasted_flag (opt flag : String) (h : lit opt = 32 :: (lit flag ++ [32])) (w : Bytes) :
    pasted opt w = 32 :: Shell.line [fixedWords flag [flag], .field [] w] := by
  simp [pasted, h, Shell.line, List.intercalate, Arg.text, fixedWords]

/-- The appended texts are the line of the arguments, and the container's own command. -/
theorem exists_pieces (c : DockerCreate) : ∃ ps : List Bytes,
    c.pieces = ps ++ (if c.cmd = [] then [] else [32 :: c.cmd]) ∧
      ps.flatten = Shell.line c.args := by
  have hne : ∀ g ∈ c.options, g ≠ [] := by
    intro g hg
    rcases mem_options hg with (rfl | rfl | rfl | rfl) | ⟨_, _, rfl⟩ | ⟨_, _, rfl⟩ | ⟨_, _, rfl⟩
    all_goals simp
  have hfirst : pasted "docker create --name " c.name = Shell.line
      [fixedWords "docker create --name" ["docker", "create", "--name"], .field [] c.name] := by
    have hlit : lit "docker create --name " = lit "docker create --name" ++ [32] := by
      decide +kernel
    simp [pasted, hlit, Shell.line, List.intercalate, Arg.text, fixedWords]
  refine ⟨pasted "docker create --name " c.name :: c.options.map fun g => 32 :: Shell.line g,
    ?_, ?_⟩
  · have hprivileged : lit " --privileged" =
        32 :: Shell.line [fixedWords "--privileged" ["--privileged"]] := by decide +kernel
    simp only [pieces, options, map_append, map_map, apply_ite (List.map _),
      map_cons, map_nil, ← hprivileged, Function.comp_def, cons_append,
      ← pasted_option " --restart=" (lit "--restart=") (by decide +kernel),
      ← pasted_option " --network=" (lit "--network=") (by decide +kernel),
      ← pasted_option " " [] (by decide +kernel),
      ← pasted_flag " -e " "-e" (by decide +kernel),
      ← pasted_flag " -p " "-p" (by decide +kernel),
      ← pasted_flag " -v " "-v" (by decide +kernel)]
  · rw [flatten_cons, args, line_groups (by simp) hne, hfirst]

theorem line_prefix {line : Bytes} (h : c.line = .ok line) :
    line.length < 8192 ∧ line <+: Shell.line c.args ++ c.own := by
  obtain ⟨ps, hpieces, hps⟩ := c.exists_pieces
  have hline := fill_eq_take h
  have hown : (if c.cmd = [] then [] else [32 :: c.cmd]).flatten = c.own := by
    unfold own
    split <;> simp
  rw [hpieces, flatten_append, hps, hown] at hline
  rw [hline]
  exact ⟨by rw [length_take]; omega, take_prefix _ _⟩

theorem line_eq (h : (Shell.line c.args).length < 8192) :
    ∃ tail, tail <+: c.own ∧ c.line = .ok (Shell.line c.args ++ tail) := by
  obtain ⟨ps, hpieces, hps⟩ := c.exists_pieces
  rw [← hps] at h ⊢
  rw [line, hpieces, own]
  split
  · exact ⟨[], prefix_refl _, by rw [append_nil, append_nil, fill_eq h]⟩
  · obtain ⟨n, hfill⟩ := fill_concat h (32 :: c.cmd)
    exact ⟨_, take_prefix _ _, hfill⟩

structure Filtered (c : DockerCreate) : Prop where
  name : 39 ∉ c.name
  image : 39 ∉ c.image
  env : ∀ kv ∈ c.env, 39 ∉ kv
  ports : ∀ pm ∈ c.ports, 39 ∉ pm
  mounts : ∀ mm ∈ c.mounts, 39 ∉ mm

theorem args_proper (c : DockerCreate) : ∀ a ∈ c.args, a.Proper := by
  have hwords : ∀ {s : String} {ws : List String},
      Lexer.start.run (lit s ++ [32]) = ⟨.bare, [], words ws⟩ → (fixedWords s ws).Proper :=
    fun h => reads_of_run h
  intro a ha
  rcases mem_append.mp ha with ha | ha
  · rcases mem_cons.mp ha with rfl | ha
    · exact hwords (by decide +kernel)
    · obtain rfl := mem_singleton.mp ha
      exact .inl rfl
  · obtain ⟨g, hg, ha⟩ := mem_flatten.mp ha
    rcases mem_options hg with (rfl | rfl | rfl | rfl) | ⟨kv, _, rfl⟩ | ⟨pm, _, rfl⟩ | ⟨mm, _, rfl⟩
    all_goals simp only [mem_cons, not_mem_nil, or_false] at ha
    · exact ha ▸ .inr (by decide +kernel)
    · exact ha ▸ .inr (by decide +kernel)
    · exact ha ▸ hwords (by decide +kernel)
    · exact ha ▸ .inl rfl
    all_goals
      rcases ha with rfl | rfl
      · exact hwords (by decide +kernel)
      · exact .inl rfl

/-- Of the filtered fields only the restart policy and the network can have a quote. -/
theorem args_closed_iff (h : c.Filtered) :
    (∀ a ∈ c.args, a.isClosed = true) ↔ 39 ∉ c.restart ∧ 39 ∉ c.network := by
  have hfield : ∀ {opt w : Bytes}, (Arg.field opt w).isClosed = true ↔ 39 ∉ w := by
    simp [Arg.isClosed]
  constructor
  · intro hall
    have hoption : ∀ g ∈ c.options, ∀ a ∈ g, a.isClosed = true := fun g hg a ha =>
      hall a (mem_append_right _ (mem_flatten.mpr ⟨g, hg, ha⟩))
    constructor
    · by_cases hnil : c.restart = []
      · simp [hnil]
      · exact hfield.mp (hoption [.field (lit "--restart=") c.restart] (by simp [options, hnil]) _
          mem_cons_self)
    · by_cases hnil : c.network = []
      · simp [hnil]
      · exact hfield.mp (hoption [.field (lit "--network=") c.network] (by simp [options, hnil]) _
          mem_cons_self)
  · rintro ⟨hrestart, hnetwork⟩ a ha
    rcases mem_append.mp ha with ha | ha
    · rcases mem_cons.mp ha with rfl | ha
      · rfl
      · obtain rfl := mem_singleton.mp ha
        exact hfield.mpr h.name
    · obtain ⟨g, hg, ha⟩ := mem_flatten.mp ha
      rcases mem_options hg with (rfl | rfl | rfl | rfl) | ⟨kv, hkv, rfl⟩ | ⟨pm, hpm, rfl⟩ |
        ⟨mm, hmm, rfl⟩
      all_goals simp only [mem_cons, not_mem_nil, or_false] at ha
      · exact ha ▸ hfield.mpr hrestart
      · exact ha ▸ hfield.mpr hnetwork
      · exact ha ▸ rfl
      · exact ha ▸ hfield.mpr h.image
      · rcases ha with rfl | rfl
        · rfl
        · exact hfield.mpr (h.env kv hkv)
      · rcases ha with rfl | rfl
        · rfl
        · exact hfield.mpr (h.ports pm hpm)
      · rcases ha with rfl | rfl
        · rfl
        · exact hfield.mpr (h.mounts mm hmm)

theorem line_args_concat (c : DockerCreate) : ∃ t, Shell.line c.args = t ++ [39] := by
  obtain ⟨before, hbefore, hargs⟩ : ∃ before, before ≠ [] ∧
      c.args = before ++ [Arg.field [] c.image] := by
    simp only [args, options, flatten_append, ← append_assoc]
    exact ⟨_, by simp, rfl⟩
  refine ⟨Shell.line before ++ 32 :: 39 :: c.image, ?_⟩
  rw [hargs, line_append_line hbefore (by simp)]
  simp [Shell.line, List.intercalate, Arg.text]

theorem contained_iff (h : c.Filtered) :
    (∃ line, c.line = .ok line ∧ c.Contained line) ↔
      39 ∉ c.restart ∧ 39 ∉ c.network ∧ (Shell.line c.args).length < 8192 := by
  have hne : c.args ≠ [] := by simp [args]
  constructor
  · rintro ⟨line, hline, head, tail, rfl, -, hsplit⟩
    obtain ⟨hlen, hprefix⟩ := line_prefix hline
    have hhead := (prefix_append head tail).trans hprefix
    obtain ⟨hrestart, hnetwork⟩ :=
      (args_closed_iff h).mp (closed_of_split c.args_proper hhead hsplit)
    obtain ⟨t, ht⟩ := c.line_args_concat
    have hwhole := line_prefix_of_split hne c.args_proper ht (by decide) hhead hsplit
    have hle := hwhole.length_le
    rw [length_append] at hlen
    exact ⟨hrestart, hnetwork, by omega⟩
  · rintro ⟨hrestart, hnetwork, hfits⟩
    obtain ⟨tail, htail, hline⟩ := line_eq hfits
    refine ⟨_, hline, _, tail, rfl, htail, ?_⟩
    exact (split_line_iff hne c.args_proper).mpr ((args_closed_iff h).mpr ⟨hrestart, hnetwork⟩)

end DockerCreate

theorem quote_not_safe : 39 ∉ safeOk := by
  rw [safeOk, lit_ofList]
  decide +kernel

theorem not_mem_of_all {p : UInt8 → Bool} (hp : p 39 = false) {w : Bytes} (h : w.all p = true) :
    39 ∉ w := fun hmem => by
  have hquote := all_eq_true.mp h 39 hmem
  simp [hp] at hquote

theorem not_mem_of_safe {w : Bytes} (h : w.all safeOk.contains = true) : 39 ∉ w :=
  not_mem_of_all (by simpa using quote_not_safe) h

theorem envItems_filtered {items env : List Bytes} (h : envItems items = some env) :
    ∀ kv ∈ env, 39 ∉ kv := by
  unfold envItems at h
  dsimp only at h
  split at h
  · rename_i hall
    obtain rfl := Option.some.inj h
    exact fun kv hkv => not_mem_of_safe (all_eq_true.mp hall kv hkv)
  · cases h

theorem portItems_filtered (items : List Bytes) : ∀ pm ∈ portItems items, 39 ∉ pm := by
  intro pm hpm
  have hall := mem_takeWhile_imp (show pm ∈ List.takeWhile _ _ from hpm)
  exact not_mem_of_all (by decide) hall

example : portItems [lit "80:80", lit "1;2"] = [lit "80:80"] := by decide +kernel

theorem mountItems_filtered (items : List Bytes) : ∀ mm ∈ mountItems items, 39 ∉ mm := by
  intro mm hmm
  have hall := mem_takeWhile_imp (show mm ∈ List.takeWhile _ _ from hmm)
  exact not_mem_of_all (by simpa using quote_not_safe) hall

variable {json : Bytes}

theorem mountList_filtered {mounts : List Bytes} (h : mountList json = .ok mounts) :
    ∀ mm ∈ mounts, 39 ∉ mm := by
  unfold mountList at h
  split at h
  · cases h
    simp
  · cases h
  · cases h
    exact mountItems_filtered _

/-- What passes the checks of `docker_create` has no quote in the filtered fields. -/
theorem checkCreate_filtered {c c' : DockerCreate} (h : checkCreate json c = .ok (.ok c')) :
    c'.Filtered := by
  unfold checkCreate at h
  split at h
  · cases h
  split at h
  · cases h
  split at h
  · cases h
  rename_i hname
  split at h
  · cases h
  rename_i himage
  split at h
  · cases h
  · rename_i env henv
    obtain ⟨mounts, hmounts, h⟩ := bind_eq_ok.mp h
    cases h
    exact {
      name := not_mem_of_safe (by simpa using hname)
      image := not_mem_of_safe (by simpa using himage)
      env := envItems_filtered henv
      ports := portItems_filtered _
      mounts := mountList_filtered hmounts }

theorem dockerCreateRequest_filtered {available : Bool} {c : DockerCreate}
    (h : dockerCreateRequest available json = .ok (.ok c)) : c.Filtered := by
  unfold dockerCreateRequest at h
  split at h
  · cases h
  · simp only [bind_eq_ok] at h
    obtain ⟨_, _, _, _, _, _, _, _, _, _, _, _, _, _, h⟩ := h
    exact checkCreate_filtered h

/-! ## The lines of a compose project -/

namespace Compose

def commandWords (c : Compose) : List String :=
  if c.plugin then ["docker", "compose"] else ["docker-compose"]

def mkdirArgs (c : Compose) : List Arg := [fixedWords "mkdir -p" ["mkdir", "-p"], .field [] c.dir]

/-- `2>&1 | tail -50`. -/
def tailTokens : List Token :=
  [.ioNumber [.plain 50], .op 62, .op 38, plainWord [49], .op 124] ++ words ["tail", "-50"]

def runArgs (c : Compose) : List Arg :=
  [fixedWords "cd" ["cd"], .field [] c.dir,
    .fixed (lit "&& " ++ c.command) (.op 38 :: .op 38 :: words c.commandWords),
    .fixed c.action [plainWord c.action], .fixed (lit "2>&1 | tail -50") tailTokens]

def Contained (c : Compose) (host : ComposeHost) : Prop :=
  (c.lines host).map split =
    (if c.hasContent then [some (c.mkdirArgs.flatMap Arg.tokens)] else []) ++
      if c.runs host then [some (c.runArgs.flatMap Arg.tokens)] else []

structure Bounded (c : Compose) : Prop where
  dir : 39 ∉ c.dir
  dirFits : c.dir.length < 512
  action : c.action ≠ []
  actionFits : c.action.length < 32

variable {c : Compose}

theorem mkdirLine_split (h : c.Bounded) :
    split c.mkdirLine = some (c.mkdirArgs.flatMap Arg.tokens) := by
  have htext : pasted "mkdir -p " c.dir = Shell.line c.mkdirArgs := by
    have hlit : lit "mkdir -p " = lit "mkdir -p" ++ [32] := by decide +kernel
    simp [pasted, hlit, mkdirArgs, Shell.line, List.intercalate, Arg.text, fixedWords]
  have hfits : (pasted "mkdir -p " c.dir).length < 1024 := by
    have hlit : (lit "mkdir -p ").length = 9 := by decide +kernel
    have hdir := h.dirFits
    simp only [pasted, length_append, length_cons, length_nil, hlit]
    omega
  rw [mkdirLine, snprintf_eq_self hfits, htext]
  refine (split_line_iff (by simp [mkdirArgs]) ?_).mpr ?_
  · simp only [mkdirArgs, forall_mem_cons, not_mem_nil, false_implies, implies_true,
      and_true]
    exact ⟨reads_of_run (by decide +kernel), .inl rfl⟩
  · simp [mkdirArgs, Arg.isClosed, fixedWords, h.dir]

/-- The line of a compose project is never cut. -/
theorem runLine_eq (h : c.Bounded) : c.runLine = Shell.line c.runArgs := by
  have hcommand : c.command.length ≤ 14 := by
    unfold command
    split <;> decide +kernel
  have hfits : (pasted "cd " c.dir ++ lit " && " ++ c.command ++ 32 :: c.action ++
      lit " 2>&1 | tail -50").length < 1024 := by
    have hcd : (lit "cd ").length = 3 := by decide +kernel
    have hand : (lit " && ").length = 4 := by decide +kernel
    have htail : (lit " 2>&1 | tail -50").length = 16 := by decide +kernel
    have hdir := h.dirFits
    have haction := h.actionFits
    simp only [pasted, length_append, length_cons, length_nil, hcd, hand, htail]
    omega
  have hcd : lit "cd " = lit "cd" ++ [32] := by decide +kernel
  have hand : lit " && " = 32 :: lit "&& " := by decide +kernel
  have htail : lit " 2>&1 | tail -50" = 32 :: lit "2>&1 | tail -50" := by decide +kernel
  rw [runLine, snprintf_eq_self hfits, hand, htail]
  simp [pasted, hcd, runArgs, Shell.line, List.intercalate, Arg.text, fixedWords]

example : (Compose.mk true (lit "/srv") false (lit "up")).runLine =
    lit "cd '/srv' && docker compose up 2>&1 | tail -50" := by decide +kernel

theorem runLine_split_iff (h : c.Bounded) :
    split c.runLine = some (c.runArgs.flatMap Arg.tokens) ↔ isPlainWord c.action = true := by
  rw [runLine_eq h]
  constructor
  · intro hsplit
    exact isPlainWord_of_sound h.action (split_words hsplit (by simp [runArgs, Arg.tokens, plainWord]))
  · intro haction
    refine (split_line_iff (by simp [runArgs]) ?_).mpr ?_
    · simp only [runArgs, forall_mem_cons, not_mem_nil, false_implies, implies_true,
        and_true]
      refine ⟨reads_of_run (by decide +kernel), .inl rfl, ?_, reads_plain haction,
        reads_of_run (by decide +kernel)⟩
      refine reads_of_run ?_
      unfold command commandWords
      split <;> decide +kernel
    · simp [runArgs, Arg.isClosed, fixedWords, h.dir]

theorem contained_iff (h : c.Bounded) (host : ComposeHost) :
    c.Contained host ↔ (c.runs host = true → isPlainWord c.action = true) := by
  rw [← runLine_split_iff h, Contained, lines, map_append, apply_ite (List.map split),
    apply_ite (List.map split)]
  by_cases hruns : c.runs host = true <;> by_cases hcontent : c.hasContent = true <;>
    simp [hruns, hcontent, mkdirLine_split h]

end Compose

/-- What passes the checks of `docker_compose` fits its buffers, and the directory is plain. -/
theorem checkCompose_bounded {host : ComposeHost} {action workdir content : Bytes} {c : Compose}
    (haction : action.length < 32) (hworkdir : workdir.length < 512)
    (h : checkCompose host action workdir content = .ok c) : c.Bounded := by
  unfold checkCompose at h
  split at h
  · cases h
  rename_i hne
  split at h
  · cases h
  split at h
  · cases h
  rename_i hchecked
  split at h
  · cases h
  rw [Bool.not_eq_true, Bool.or_eq_false_iff, Bool.not_eq_false'] at hchecked
  cases h
  exact {
    dir := by
      dsimp only
      split
      · decide +kernel
      · exact not_mem_of_all (by decide) hchecked.1
    dirFits := by
      dsimp only
      split
      · decide +kernel
      · exact hworkdir
    action := fun hnil => hne (by rw [show action = [] from hnil]; rfl)
    actionFits := haction }

theorem dockerComposeRequest_bounded {host : ComposeHost} {c : Compose}
    (h : dockerComposeRequest host json = .ok (.ok c)) : c.Bounded := by
  unfold dockerComposeRequest at h
  simp only [bind_eq_ok, pure_eq_ok] at h
  obtain ⟨action, haction, workdir, hworkdir, content, -, h⟩ := h
  exact checkCompose_bounded (readBuffer_fits (by decide) haction).1
    (readBuffer_fits (by decide) hworkdir).1 (Except.ok.inj h)

/-! ## The line of a download -/

def downloadArgs (url outPath : Bytes) : List Arg :=
  [fixedWords "curl -fsSL --connect-timeout 20 --max-time 300 -o"
      ["curl", "-fsSL", "--connect-timeout", "20", "--max-time", "300", "-o"],
    .field [] outPath, .field [] url,
    .fixed (lit "2>/dev/null || wget -q -T 300 -O")
      (discardErrors ++ .op 124 :: .op 124 :: words ["wget", "-q", "-T", "300", "-O"]),
    .field [] outPath, .field [] url, .fixed (lit "2>/dev/null") discardErrors]

theorem downloadText_eq (url outPath : Bytes) :
    downloadText url outPath = Shell.line (downloadArgs url outPath) := by
  have hcurl : lit "curl -fsSL --connect-timeout 20 --max-time 300 -o " =
      lit "curl -fsSL --connect-timeout 20 --max-time 300 -o" ++ [32] := by
    repeat rw [lit_ofList]
    decide +kernel
  have hwget : lit " 2>/dev/null || " ++ lit "wget -q -T 300 -O " =
      32 :: lit "2>/dev/null || wget -q -T 300 -O" ++ [32] := by
    repeat rw [lit_ofList]
    decide +kernel
  have hend : lit " 2>/dev/null" = 32 :: lit "2>/dev/null" := by decide +kernel
  have hblank : lit " " = [32] := by decide +kernel
  simp only [downloadText, pasted, hcurl, hend, hblank, downloadArgs, Shell.line, map_cons,
    map_nil, Arg.text, fixedWords, List.intercalate, List.intersperse]
  simp only [append_assoc, flatten_cons, flatten_nil, cons_append,
    nil_append, append_nil]
  rw [← append_assoc (lit " 2>/dev/null || "), hwget]
  simp

theorem downloadArgs_proper (url outPath : Bytes) : ∀ a ∈ downloadArgs url outPath, a.Proper := by
  simp only [downloadArgs, forall_mem_cons, not_mem_nil, false_implies, implies_true,
    and_true]
  exact ⟨reads_of_run (by decide +kernel), .inl rfl, .inl rfl, reads_of_run (by decide +kernel),
    .inl rfl, .inl rfl, reads_of_run (by decide +kernel)⟩

theorem TempFile.path_no_quote (file : TempFile) : 39 ∉ file.path := by
  have hfixed : 39 ∉ lit "/tmp/ctforge-agent-upgrade." := by decide +kernel
  have hsuffix : 39 ∉ file.suffix := not_mem_of_all (by decide) file.plain
  simp [TempFile.path, hfixed, hsuffix]

example : 39 ∉ (TempFile.mk (lit "aB3xYz") rfl rfl).path := by decide +kernel

/-- The line of a download is read as it is meant exactly if the address has no quote and it fits.
-/
theorem downloadLine_split_iff (url : Bytes) (file : TempFile) :
    split (downloadLine url file.path) = some ((downloadArgs url file.path).flatMap Arg.tokens) ↔
      39 ∉ url ∧ (downloadText url file.path).length < 2048 := by
  have hne : downloadArgs url file.path ≠ [] := by simp [downloadArgs]
  have hproper := downloadArgs_proper url file.path
  have hclosed : (∀ a ∈ downloadArgs url file.path, a.isClosed = true) ↔ 39 ∉ url := by
    simp [downloadArgs, fixedWords, Arg.isClosed, file.path_no_quote]
  constructor
  · intro hsplit
    have hprefix :
        downloadLine url file.path <+: Shell.line (downloadArgs url file.path) ++ [] := by
      rw [append_nil, ← downloadText_eq]
      exact take_prefix _ _
    refine ⟨hclosed.mp (closed_of_split hproper hprefix hsplit), ?_⟩
    obtain ⟨t, ht⟩ : ∃ t, Shell.line (downloadArgs url file.path) = t ++ [108] := by
      have hend : lit " 2>/dev/null" = lit " 2>/dev/nul" ++ [108] := by decide +kernel
      rw [← downloadText_eq, downloadText, hend, ← append_assoc]
      exact ⟨_, rfl⟩
    have hwhole := (line_prefix_of_split hne hproper ht (by decide) hprefix hsplit).length_le
    have hline : (downloadLine url file.path).length ≤ 2047 := by
      rw [downloadLine, snprintf, length_take]
      omega
    rw [downloadText_eq]
    omega
  · rintro ⟨hurl, hfits⟩
    rw [downloadLine, snprintf_eq_self hfits, downloadText_eq]
    exact (split_line_iff hne hproper).mpr (hclosed.mpr hurl)

/-! ## All three requests -/

/-- The text that `handle_command` gives the two docker commands. -/
def payloadText (payload : Option Bytes) : Bytes := payload.getD (lit "\x7b\x7d")

/-- The lines are the fixed commands, with every field inside one argument, if and only if
neither the restart policy, the network nor the address has a quote, the action is a plain word
and the buffers have room for the lines. -/
theorem requests_are_single_words_iff (available : Bool) (host : ComposeHost)
    (tmp : Option TempFile) (payload : Option Bytes) :
    (∀ c, dockerCreateRequest available (payloadText payload) = .ok (.ok c) →
      ((∃ line, c.line = .ok line ∧ c.Contained line) ↔
        39 ∉ c.restart ∧ 39 ∉ c.network ∧ (Shell.line c.args).length < 8192)) ∧
    (∀ c, dockerComposeRequest host (payloadText payload) = .ok (.ok c) →
      (c.Contained host ↔ (c.runs host = true → isPlainWord c.action = true))) ∧
    ∀ url file, upgradeRequest tmp payload = .ok (.ok (url, file)) →
      (split (downloadLine url file.path) =
          some ((downloadArgs url file.path).flatMap Arg.tokens) ↔
        39 ∉ url ∧ (downloadText url file.path).length < 2048) :=
  ⟨fun _ h => DockerCreate.contained_iff (dockerCreateRequest_filtered h),
    fun _ h => Compose.contained_iff (dockerComposeRequest_bounded h) host,
    fun url file _ => downloadLine_split_iff url file⟩

/-- A restart policy, an action and an address that run a command. -/
theorem restart_runs_command :
    (∃ c line, dockerCreateRequest true
        (lit "\x7b\"name\":\"a\",\"image\":\"b\",\"restart\":\"no'; reboot; '\"\x7d") = .ok (.ok c) ∧
      c.line = .ok line ∧ ¬ c.Contained line ∧
      split line = some (words ["docker", "create", "--name"] ++
        [quotedWord (lit "a"), optionWord (lit "--restart=") (lit "no"), .op 59,
          plainWord (lit "reboot"), .op 59, quotedWord [], quotedWord (lit "b")])) ∧
    (∃ c, dockerComposeRequest ⟨true, false, true, true⟩
        (lit "\x7b\"action\":\"up; reboot\",\"work_dir\":\"/srv\"\x7d") = .ok (.ok c) ∧
      (c.lines ⟨true, false, true, true⟩).map split = [some (words ["cd"] ++
        [quotedWord (lit "/srv"), .op 38, .op 38] ++ words ["docker", "compose", "up"] ++
        [.op 59] ++ words ["reboot"] ++ Compose.tailTokens)]) ∧
    ∃ file, upgradeRequest (some file) (some (lit "\x7b\"url\":\"x' y; reboot; 'z\"\x7d")) =
        .ok (.ok (lit "x' y; reboot; 'z", file)) ∧
      (split (downloadLine (lit "x' y; reboot; 'z") file.path)).any
        (·.contains (plainWord (lit "reboot"))) = true := by
  have hcreate : dockerCreateRequest true
      (lit "\x7b\"name\":\"a\",\"image\":\"b\",\"restart\":\"no'; reboot; '\"\x7d") =
        .ok (.ok ⟨lit "a", lit "b", [], lit "no'; reboot; '", [], false, [], [], []⟩) := by
    repeat rw [lit_ofList]
    decide +kernel
  refine ⟨⟨_, _, hcreate, rfl, ?_, ?_⟩, ⟨⟨true, lit "/srv", false, lit "up; reboot"⟩, ?_, ?_⟩,
    ⟨lit "abcdef", ?_, ?_⟩, ?_, ?_⟩
  · intro hcontained
    have hquote := (DockerCreate.contained_iff (dockerCreateRequest_filtered hcreate)).mp
      ⟨_, rfl, hcontained⟩
    exact hquote.1 (by decide +kernel)
  all_goals
    repeat rw [lit_ofList]
    decide +kernel

/-! ## The buffer of the command -/

namespace DockerCreate

/-- The offset `n` before each append to `dcmd`. -/
def offsets (c : DockerCreate) : List Nat :=
  (range c.pieces.length).map fun k => (c.pieces.take k).flatten.length

/-- The length of what stands before the last append. -/
def lengthBefore (c : DockerCreate) : Nat :=
  23 + c.name.length + (if c.restart = [] then 0 else 13 + c.restart.length) +
    (if c.network = [] then 0 else 13 + c.network.length) + (if c.privileged then 13 else 0) +
    ((c.env ++ c.ports ++ c.mounts).map (·.length + 6)).sum +
    if c.cmd = [] then 0 else c.image.length + 3

theorem length_pasted (opt : String) (w : Bytes) :
    (pasted opt w).length = (lit opt).length + w.length + 2 := by
  simp [pasted]
  omega

theorem length_list {opt : String} (hopt : (lit opt).length = 4) (ws : List Bytes) :
    (ws.map (pasted opt)).flatten.length = (ws.map (·.length + 6)).sum := by
  rw [length_flatten, map_map]
  congr 2
  funext w
  rw [Function.comp_apply, length_pasted, hopt]
  omega

theorem length_dropLast (c : DockerCreate) : c.pieces.dropLast.flatten.length = c.lengthBefore := by
  have hlast : c.pieces.dropLast.flatten.length = (pasted "docker create --name " c.name ++
      (if c.restart = [] then [] else pasted " --restart=" c.restart) ++
      (if c.network = [] then [] else pasted " --network=" c.network) ++
      (if c.privileged then lit " --privileged" else []) ++ (c.env.map (pasted " -e ")).flatten ++
      (c.ports.map (pasted " -p ")).flatten ++ (c.mounts.map (pasted " -v ")).flatten ++
      if c.cmd = [] then [] else pasted " " c.image).length := by
    unfold pieces
    split_ifs <;> simp [dropLast_append_of_ne_nil, dropLast_cons_of_ne_nil]
  have hlit : (lit "docker create --name ").length = 21 ∧ (lit " --restart=").length = 11 ∧
      (lit " --network=").length = 11 ∧ (lit " --privileged").length = 13 ∧
        (lit " ").length = 1 := by decide
  obtain ⟨hname, hrestart, hnetwork, hprivileged, himage⟩ := hlit
  rw [hlast, lengthBefore]
  simp only [length_append, length_list (by decide : (lit " -e ").length = 4),
    length_list (by decide : (lit " -p ").length = 4),
    length_list (by decide : (lit " -v ").length = 4), map_append, sum_append]
  split_ifs <;> simp only [length_pasted, length_nil, hname, hrestart, hnetwork, hprivileged,
    himage] <;> omega

theorem offset_le {c : DockerCreate} {n : Nat} (hn : n ∈ c.offsets) : n ≤ c.lengthBefore := by
  obtain ⟨k, hk, rfl⟩ := mem_map.mp hn
  have hk := mem_range.mp hk
  obtain ⟨t, ht⟩ : c.pieces.take k <+: c.pieces.take (c.pieces.length - 1) :=
    take_prefix_take_left (by omega)
  rw [← length_dropLast, dropLast_eq_take, ← ht, flatten_append, length_append]
  omega

/-- **The buffer of `docker_create`**: no append starts behind it exactly if what stands before
the last append is shorter. -/
theorem offsets_inside_iff (c : DockerCreate) :
    (∀ n ∈ c.offsets, n < 8192) ↔ c.lengthBefore < 8192 := by
  constructor
  · intro h
    have hne : 0 < c.pieces.length := by simp [pieces]
    rw [← length_dropLast, dropLast_eq_take]
    exact h _ (mem_map.mpr ⟨c.pieces.length - 1, mem_range.mpr (by omega), rfl⟩)
  · intro h n hn
    exact (offset_le hn).trans_lt h

/-! A request that is refused for one of its settings has appended the settings before it. -/

theorem quotedItems_length (acc : Option Bytes) (s : Bytes) :
    ((quotedItems acc s).map (·.length + 2)).sum ≤
      s.length + acc.elim 0 (·.length + 1) := by
  fun_induction quotedItems acc s with
  | case1 => simp
  | case2 c s ih =>
    split_ifs at ih ⊢ <;> simp only [Option.elim, length_nil, length_cons] at ih ⊢ <;> omega
  | case3 acc s ih =>
    simp only [Option.elim, map_cons, sum_cons, length_cons] at ih ⊢
    omega
  | case4 acc c s hc ih =>
    simp only [Option.elim, length_append, length_cons, length_nil] at ih ⊢
    omega

/-- Each quoted text has a byte at least, so that its `len + 6` bytes are at most seven thirds
of what it takes in the list. -/
theorem items_length {items : List Bytes} {p : Bytes} (hsub : items <+ listItems p)
    (hne : ∀ w ∈ items, 0 < w.length) : 3 * (items.map (·.length + 6)).sum ≤ 7 * 2047 := by
  have hread : ((listItems p).map (·.length + 2)).sum ≤ 2047 := by
    unfold listItems
    split
    · have htaken := quotedItems_length none (snprintf 2048 (p.takeWhile (· != 93)))
      rw [snprintf, length_take] at htaken
      exact htaken.trans (by simp)
    · simp
  have hitems : 3 * (items.map (·.length + 6)).sum ≤
      7 * ((listItems p).map (·.length + 2)).sum := by
    clear hread
    generalize listItems p = all at hsub
    induction hsub with
    | slnil => simp
    | cons w _ ih =>
      have := ih hne
      simp only [map_cons, sum_cons]
      omega
    | cons_cons w _ ih =>
      obtain ⟨hw, hrest⟩ := forall_mem_cons.mp hne
      have := ih hrest
      simp only [map_cons, sum_cons]
      omega
  omega

def settingsBefore (items : List Bytes) : List Bytes :=
  (items.filter fun kv => 0 < kv.length && kv.length < 256 && kv.contains 61).takeWhile
    fun kv => kv.all safeOk.contains

theorem refused_offsets_inside {c : DockerCreate} (hname : c.name.length < 128)
    (himage : c.image.length < 256) (hrestart : c.restart.length < 32)
    (hnetwork : c.network.length < 128) (p : Bytes)
    (hsettings : c.env = settingsBefore (listItems p)) (hports : c.ports = [])
    (hmounts : c.mounts = []) : ∀ n ∈ c.offsets, n < 8192 := by
  intro n hn
  have hle := offset_le hn
  have hsub : c.env <+ listItems p := hsettings ▸ (takeWhile_sublist _).trans filter_sublist
  have hitems := items_length hsub (by
    intro w hw
    rw [hsettings] at hw
    have hw := (mem_filter.mp ((takeWhile_sublist _).subset hw)).2
    simp only [Bool.and_eq_true, decide_eq_true_eq] at hw
    exact hw.1.1)
  rw [lengthBefore, hports, hmounts, append_nil, append_nil] at hle
  split_ifs at hle <;> omega

end DockerCreate

/-- 682 settings and 500 ports of one byte each, which take 3 bytes of the payload and 7 of
the command. -/
def crowded : Bytes :=
  lit ("\x7b\"name\":\"a\",\"image\":\"b\",\"cmd\":\"\",\"restart\":\"\",\"network\":\"\"," ++
      "\"privileged\":\"\",\"auto_start\":\"\",\"env\":[") ++ (replicate 682 [34, 61, 34]).flatten ++
    lit "],\"ports\":[" ++ (replicate 500 [34, 58, 34]).flatten ++ lit "]\x7d"

/-- A payload with two lists that are too long for the command. -/
theorem crowded_leaves_buffer : ∃ c, dockerCreateRequest true crowded = .ok (.ok c) ∧
    8298 ∈ c.offsets ∧ c.line = .error .outOfBounds := by
  refine ⟨⟨lit "a", lit "b", [], [], [], false, replicate 682 [61], replicate 500 [58], []⟩,
    by decide +kernel, ?_, by decide +kernel⟩
  refine mem_map.mpr ⟨1183, ?_⟩
  decide +kernel

end CtForge.Agent
