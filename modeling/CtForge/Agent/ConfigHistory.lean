import CtForge.Agent.BoundServer
import CtForge.Agent.Settings

/-!
# How the configuration changes (`config.c`, `agent.c`, `binding.c`)

A configuration is loaded once. Afterwards the server changes it with `config_set`, and the agent
changes it when it finds its server, is approved, or loses its approval. The addresses of the
server are in two fields: `server_hosts` has the list from the file, `server_host` the first of
it. Only loading writes the list, and the list is not saved.
-/

namespace CtForge.Agent

open CLang ConfigFile List

/-! ## Updates -/

/-- `ctc_binding`, as it is kept. -/
structure CtcBinding where
  boundServerId : CString 128
  boundServerIp : CString 64
  boundServerPort : Int32
  approved : Int32

inductive ConfigUpdate where
  /-- A `config_set` with this key and value. -/
  | configSet (key : CString 64) (value : CString 256)
  /-- The binding that `ctc_conn_run` reads when it starts. -/
  | restored (binding : CtcBinding)
  /-- `ctc_scan_server` takes a server that answered the broadcast. -/
  | moved (ip : CString 64) (port : Int32)
  /-- `ctc_conn_run` writes down what the scan found, -/
  | bound (got : CtcBinding)
  | synced
  | unapproved

namespace CtcConfig

def update (cfg : CtcConfig) : ConfigUpdate → CtcConfig
  | .configSet key value => (cfg.set key.bytes value.bytes).getD cfg
  | .restored binding =>
    if binding.approved ≠ 0 ∧ binding.boundServerId.bytes ≠ [] then
      { cfg with
        boundServerId := binding.boundServerId
        boundServerIp := binding.boundServerIp
        boundServerPort := binding.boundServerPort
        approved := 1 }
    else cfg
  | .moved ip port => { cfg with serverHost := bufferOf 127 ip.bytes, serverPort := port }
  | .bound got =>
    { cfg with
      boundServerId := got.boundServerId
      boundServerIp := bufferOf 63
        (if got.boundServerIp.bytes ≠ [] then got.boundServerIp.bytes else cfg.serverHost.bytes)
      boundServerPort := if got.boundServerPort ≠ 0 then got.boundServerPort else cfg.serverPort
      approved := 1 }
  | .synced =>
    { cfg with
      serverHost := bufferOf 127 cfg.boundServerIp.bytes
      serverPort := cfg.boundServerPort }
  | .unapproved => { cfg with approved := 0 }

def updates (cfg : CtcConfig) (us : List ConfigUpdate) : CtcConfig := us.foldl update cfg

theorem serverHosts_set {cfg cfg' : CtcConfig} {key value : Bytes}
    (h : cfg.set key value = some cfg') : cfg'.serverHosts = cfg.serverHosts := by
  unfold set at h
  cases hd : ConfigKey.find key with
  | none => simp [hd] at h
  | some d =>
    cases d <;> simp only [hd, Option.some.injEq, reduceCtorEq] at h
    all_goals
      subst h
      rfl

theorem serverHosts_update (cfg : CtcConfig) (u : ConfigUpdate) :
    (cfg.update u).serverHosts = cfg.serverHosts := by
  cases u with
  | configSet key value =>
    rw [update]
    cases hset : cfg.set key.bytes value.bytes with
    | none => rfl
    | some cfg' => exact serverHosts_set hset
  | restored binding =>
    rw [update]
    split <;> rfl
  | moved | bound | synced | unapproved => rfl

/-- No update changes the list of hosts. -/
theorem serverHosts_updates (cfg : CtcConfig) (us : List ConfigUpdate) :
    (cfg.updates us).serverHosts = cfg.serverHosts := by
  induction us generalizing cfg with
  | nil => rfl
  | cons u us ih => exact (ih (cfg.update u)).trans (serverHosts_update cfg u)

/-! ## Saving and loading -/

theorem bytes_inj {n : Nat} {s t : CString n} : s.bytes = t.bytes ↔ s = t := by
  cases s
  cases t
  simp

/-- A configuration is told by its printed settings and the list of hosts. -/
theorem eq_iff_printed {cfg cfg' : CtcConfig} :
    cfg = cfg' ↔ (∀ k, cfg.printed k = cfg'.printed k) ∧
      cfg.serverHosts.bytes = cfg'.serverHosts.bytes := by
  constructor
  · rintro rfl
    exact ⟨fun _ => rfl, rfl⟩
  · rintro ⟨hprinted, hhosts⟩
    have htext : ∀ {n : Nat} {s t : CString n}, s.bytes = t.bytes → s = t := bytes_inj.mp
    obtain ⟨_, _, _, _, _, _, _, _, _, _, _, _, _, _, _, _, _, _⟩ := cfg
    obtain ⟨_, _, _, _, _, _, _, _, _, _, _, _, _, _, _, _, _, _⟩ := cfg'
    congr 1
    · exact htext (hprinted .serverHost)
    · exact htext hhosts
    · exact int32_inj.mp (hprinted .serverPort)
    · exact htext (hprinted .agentId)
    · exact htext (hprinted .name)
    · exact htext (hprinted .token)
    · exact int32_inj.mp (hprinted .metricsInterval)
    · exact int32_inj.mp (hprinted .heartbeatInterval)
    · exact int32_inj.mp (hprinted .logLevel)
    · exact int32_inj.mp (hprinted .useTls)
    · exact int32_inj.mp (hprinted .tlsSkipVerify)
    · exact htext (hprinted .serverFingerprint)
    · exact int32_inj.mp (hprinted .discoverEnable)
    · exact int32_inj.mp (hprinted .discoverPort)
    · exact htext (hprinted .boundServerId)
    · exact htext (hprinted .boundServerIp)
    · exact int32_inj.mp (hprinted .boundServerPort)
    · exact int32_inj.mp (hprinted .approved)

theorem trim_sublist (s : Bytes) : (ConfigFile.trim s).Sublist s := by
  have hback := (dropWhile_sublist isSpace (l := (s.dropWhile isSpace).reverse)).reverse
  rw [reverse_reverse] at hback
  exact hback.trans (dropWhile_sublist isSpace)

theorem bufferOf_sublist {m n : Nat} {s : CString m} (hm : m ≤ n + 1) {t : Bytes}
    (ht : t.Sublist s.bytes) : (bufferOf n t).bytes = t := by
  have hlen := ht.length_le
  have hfits := s.fits
  have hnul : 0 ∉ t := fun h => s.noNul (ht.mem h)
  change (cString t).take n = t
  rw [cString_eq_self hnul, take_of_length_le (by omega)]

/-- The line of a setting is read as what was held if blanks around it, and behind a comma an
address, are not lost. -/
theorem stored_trim_iff (cfg : CtcConfig) {k : ConfigKey} :
    stored (ConfigFile.trim (cfg.printed k)) k = cfg.printed k ↔
      ConfigFile.trim (cfg.printed k) = cfg.printed k ∧
        (k = .serverHost → 44 ∉ cfg.serverHost.bytes) := by
  have htext : ∀ {n : Nat} {s : CString (n + 1)} {k : ConfigKey}, k ≠ .serverHost →
      ((bufferOf n (ConfigFile.trim s.bytes)).bytes = s.bytes ↔
        ConfigFile.trim s.bytes = s.bytes ∧ (k = .serverHost → 44 ∉ cfg.serverHost.bytes)) := by
    intro n s k hk
    rw [bufferOf_sublist (Nat.le_refl _) (trim_sublist s.bytes)]
    exact (and_iff_left fun h => absurd h hk).symm
  have hnumber : ∀ {n : Int32} {k : ConfigKey}, k ≠ .serverHost →
      (int32 (atoi (ConfigFile.trim (int32 n))) = int32 n ↔
        ConfigFile.trim (int32 n) = int32 n ∧ (k = .serverHost → 44 ∉ cfg.serverHost.bytes)) := by
    intro n k hk
    have hline := atoi_line n
    rw [firstLine_of_not_mem (not_mem_int32 (by decide))] at hline
    rw [hline]
    exact iff_of_true rfl ⟨trim_int32 n, fun h => absurd h hk⟩
  cases k
  case serverHost =>
    have hpiece : ((ConfigFile.trim cfg.serverHost.bytes).takeWhile (· != 44)).Sublist
        cfg.serverHost.bytes := (takeWhile_sublist _).trans (trim_sublist _)
    change (bufferOf 127 ((ConfigFile.trim cfg.serverHost.bytes).takeWhile (· != 44))).bytes =
      cfg.serverHost.bytes ↔ ConfigFile.trim cfg.serverHost.bytes = cfg.serverHost.bytes ∧ _
    rw [bufferOf_sublist (Nat.le_refl _) hpiece]
    constructor
    · intro h
      have htrim : ConfigFile.trim cfg.serverHost.bytes = cfg.serverHost.bytes := by
        refine (trim_sublist _).eq_of_length_le ?_
        rw [← congrArg List.length h]
        exact (takeWhile_sublist _).length_le
      refine ⟨htrim, fun _ hcomma => ?_⟩
      rw [htrim, takeWhile_eq_self_iff] at h
      exact absurd (h 44 hcomma) (by decide)
    · rintro ⟨htrim, hcomma⟩
      rw [htrim, takeWhile_eq_self_iff]
      intro c hc
      simpa using fun h44 : c = 44 => hcomma rfl (h44 ▸ hc)
  case agentId | name | token | serverFingerprint | boundServerId | boundServerIp =>
    exact htext (by decide)
  all_goals exact hnumber (by decide)

theorem serverHosts_foldl (l : List (ConfigKey × Bytes)) (cfg : CtcConfig) :
    (l.foldl (fun cfg s => cfg.read s.2 s.1) cfg).serverHosts =
      ((lastSetting .serverHost l).map fun v => bufferOf 511 v).getD cfg.serverHosts := by
  induction l generalizing cfg with
  | nil => rfl
  | cons s l ih =>
    rw [foldl_cons, ih, lastSetting]
    cases lastSetting .serverHost l with
    | some v => rfl
    | none =>
      obtain ⟨k, v⟩ := s
      cases k <;> rfl

/-- What is read back: every setting as it was saved, and one address instead of the list. -/
structure Stable (cfg : CtcConfig) : Prop where
  lines : ∀ k, 10 ∉ cfg.printed k
  trimmed : ∀ k, ConfigFile.trim (cfg.printed k) = cfg.printed k
  single : 44 ∉ cfg.serverHost.bytes
  hosts : cfg.serverHost.bytes = cfg.serverHosts.bytes

section Load

variable {cfg : CtcConfig} (host : ConfigHost) (hlines : ∀ k, 10 ∉ cfg.printed k)

include hlines

theorem lastSetting_save_lines (k : ConfigKey) :
    lastSetting k (settings cfg.save) = some (ConfigFile.trim (cfg.printed k)) := by
  have hbehind : (k.after.flatMap fun k' => injected (cfg.printed k')) = [] :=
    flatMap_eq_nil_iff.mpr fun k' _ => injected_eq_nil (hlines k')
  rw [lastSetting_save cfg k (injected_eq_nil (hlines k)), hbehind,
    firstLine_of_not_mem (hlines k)]
  rfl

theorem printed_load_lines (k : ConfigKey) :
    (load host (some cfg.save)).printed k = stored (ConfigFile.trim (cfg.printed k)) k := by
  rw [load, printed_foldl, lastSetting_save_lines hlines]
  rfl

theorem serverHosts_load_lines :
    (load host (some cfg.save)).serverHosts.bytes = ConfigFile.trim cfg.serverHost.bytes := by
  rw [load, serverHosts_foldl, lastSetting_save_lines hlines]
  exact bufferOf_sublist (s := cfg.serverHost) (by decide) (trim_sublist _)

end Load

/-- The configurations that are read back as they were saved. -/
theorem load_save_iff (host : ConfigHost) (cfg : CtcConfig) :
    load host (some cfg.save) = cfg ↔ cfg.Stable := by
  constructor
  · intro h
    have hlines : ∀ k, 10 ∉ cfg.printed k := by
      intro k
      rw [← h]
      exact newline_not_mem_load host cfg k
    have hstored : ∀ k, stored (ConfigFile.trim (cfg.printed k)) k = cfg.printed k := by
      intro k
      rw [← printed_load_lines host hlines, h]
    have htrimmed : ∀ k, ConfigFile.trim (cfg.printed k) = cfg.printed k :=
      fun k => ((stored_trim_iff cfg).mp (hstored k)).1
    refine ⟨hlines, htrimmed, ((stored_trim_iff cfg).mp (hstored .serverHost)).2 rfl, ?_⟩
    have hhosts := serverHosts_load_lines host hlines
    rw [h] at hhosts
    rw [hhosts]
    exact (htrimmed .serverHost).symm
  · intro h
    refine eq_iff_printed.mpr ⟨fun k => ?_, ?_⟩
    · rw [printed_load_lines host h.lines]
      exact (stored_trim_iff cfg).mpr ⟨h.trimmed k, fun _ => h.single⟩
    · rw [serverHosts_load_lines host h.lines, ← h.hosts]
      exact h.trimmed .serverHost

end CtcConfig

/-- Of the configurations that an agent can come to, those that are read back as they were
saved. -/
theorem saved_history_iff (host : ConfigHost) (file : Option Bytes) (us : List ConfigUpdate)
    (host' : ConfigHost) :
    load host' (some ((load host file).updates us).save) = (load host file).updates us ↔
      (∀ k, 10 ∉ ((load host file).updates us).printed k ∧
        ConfigFile.trim (((load host file).updates us).printed k) =
          ((load host file).updates us).printed k) ∧
      44 ∉ ((load host file).updates us).serverHost.bytes ∧
      ((load host file).updates us).serverHost.bytes = (load host file).serverHosts.bytes := by
  rw [CtcConfig.load_save_iff]
  constructor
  · intro h
    refine ⟨fun k => ⟨h.lines k, h.trimmed k⟩, h.single, ?_⟩
    rw [h.hosts, CtcConfig.serverHosts_updates]
  · rintro ⟨hsettings, hsingle, hhosts⟩
    refine ⟨fun k => (hsettings k).1, fun k => (hsettings k).2, hsingle, ?_⟩
    rw [hhosts, CtcConfig.serverHosts_updates]

/-- A list of two addresses: the second is lost. -/
theorem saved_list_is_lost :
    let cfg := load Deployed.webHost (some (lit "server_host=10.0.0.1,10.0.0.2\n"))
    cfg.serverHosts.bytes = lit "10.0.0.1,10.0.0.2" ∧
      (load Deployed.webHost (some (cfg.updates []).save)).serverHosts.bytes = lit "10.0.0.1" := by
  decide +kernel

/-! ## The address that is dialled -/

def CtcConfig.toConfig (cfg : CtcConfig) : Config where
  serverHost := cfg.serverHost.bytes
  serverHosts := cfg.serverHosts.bytes
  serverPort := cfg.serverPort.toInt
  agentId := cfg.agentId.bytes
  name := cfg.name.bytes
  token := cfg.token.bytes
  useTls := cfg.useTls != 0
  tlsSkipVerify := cfg.tlsSkipVerify != 0
  serverFingerprint := cfg.serverFingerprint.bytes
  boundServerId := cfg.boundServerId.bytes
  boundServerIp := cfg.boundServerIp.bytes
  boundServerPort := cfg.boundServerPort.toInt
  approved := cfg.approved != 0

def CtcBinding.toBinding (b : CtcBinding) : Binding :=
  ⟨b.boundServerId.bytes, b.boundServerIp.bytes, b.boundServerPort.toInt, b.approved != 0⟩

theorem bufferOf_eq_snprintf {m : Nat} (s : CString m) (n : Nat) :
    (bufferOf n s.bytes).bytes = snprintf (n + 1) s.bytes := CtcConfig.bufferOf_eq_take s n

/-- The updates of a binding are those of the model of the connection. -/
theorem toConfig_adopted (cfg : CtcConfig) (got : CtcBinding) :
    ((cfg.update (.bound got)).update .synced).toConfig =
      adoptBinding got.toBinding cfg.toConfig := by
  have hid : snprintf 128 got.boundServerId.bytes = got.boundServerId.bytes :=
    snprintf_eq_self got.boundServerId.fits
  have hip : (bufferOf 63 (if got.boundServerIp.bytes ≠ [] then got.boundServerIp.bytes
      else cfg.serverHost.bytes)).bytes = snprintf 64 (if got.boundServerIp.bytes ≠ [] then
        got.boundServerIp.bytes else cfg.serverHost.bytes) := by
    split
    · exact bufferOf_eq_snprintf got.boundServerIp 63
    · exact bufferOf_eq_snprintf cfg.serverHost 63
  have hport : (if got.boundServerPort.toInt ≠ 0 then got.boundServerPort.toInt
      else cfg.serverPort.toInt) = (if got.boundServerPort ≠ 0 then got.boundServerPort
        else cfg.serverPort).toInt := by
    rw [apply_ite Int32.toInt]
    simp only [ne_eq, ← Int32.toInt_zero, Int32.toInt_inj]
  simp only [CtcConfig.update, CtcConfig.toConfig, adoptBinding, CtcBinding.toBinding, hid,
    bufferOf_eq_snprintf]
  simp only [hip]
  congr 1
  · exact hport.symm
  · exact hport.symm

def firstDial (events : List Event) : Option Bytes :=
  events.findSome? fun e =>
    match e with
    | .dial _ name _ => some name
    | _ => none

section Dial

variable (env : TlsEnv) (net : Nat → Attempt)

theorem connectHosts_log (names : List Bytes) (s : State) :
    ∃ events, ((connectHosts env net names).run s).2.log = s.log ++ events ∧
      firstDial events = names.head? := by
  induction names generalizing s with
  | nil => exact ⟨[], by simp [connectHosts], rfl⟩
  | cons name names ih =>
    obtain ⟨result, tls, hrun⟩ := connectHostWithTls_frame env net name s
    simp only [connectHosts, Prog.run_bind, hrun]
    rcases result with e | fd?
    · exact ⟨[.dial s.cfg name s.attempts], rfl, rfl⟩
    · cases fd? with
      | some fd => exact ⟨[.dial s.cfg name s.attempts], rfl, rfl⟩
      | none =>
        obtain ⟨events, hlog, -⟩ := ih { s.attempt (.dial s.cfg name s.attempts) with tls := tls }
        refine ⟨.dial s.cfg name s.attempts :: events, ?_, rfl⟩
        change ((connectHosts env net names).run _).2.log = _
        rw [hlog]
        simp [State.attempt]

theorem firstDial_connectServer (s : State) :
    firstDial (((connectServer env net).run s).2.log.drop s.log.length) =
      if 44 ∈ s.cfg.serverHosts then (hostList s.cfg.serverHosts).head?
      else some s.cfg.serverHost := by
  simp only [connectServer, Prog.run_bind, Prog.run_get, Prog.andThen_ok, contains_iff_mem]
  split
  · obtain ⟨events, hlog, hfirst⟩ := connectHosts_log env net (hostList s.cfg.serverHosts) s
    rw [hlog, drop_left, hfirst]
  · obtain ⟨result, tls, hrun⟩ := connectHostWithTls_frame env net s.cfg.serverHost s
    rw [hrun]
    simp only [State.attempt, drop_left]
    rfl

end Dial

namespace ConfigUpdate

/-- The address that an update puts into `server_host`, before it is copied. -/
def newAddress (cfg : CtcConfig) : ConfigUpdate → Option Bytes
  | .configSet key value => if key.bytes = lit "server_host" then some value.bytes else none
  | .moved ip _ => some ip.bytes
  | .synced => some cfg.boundServerIp.bytes
  | _ => none

end ConfigUpdate

namespace CtcConfig

/-- An update with a new address puts the first 127 bytes of it into `server_host`. -/
theorem serverHost_update {cfg : CtcConfig} {u : ConfigUpdate} {address : Bytes}
    (h : u.newAddress cfg = some address) : (cfg.update u).serverHost.bytes = address.take 127 := by
  cases u with
  | configSet key value =>
    simp only [ConfigUpdate.newAddress] at h
    split at h
    · next hkey =>
      cases h
      have hfind : ConfigKey.find key.bytes = some .serverHost := by
        rw [hkey]
        decide +kernel
      simp only [update, set, hfind, Option.getD_some]
      exact bufferOf_eq_take value 127
    · cases h
  | moved ip port =>
    cases h
    exact bufferOf_eq_take ip 127
  | synced =>
    cases h
    exact bufferOf_eq_take cfg.boundServerIp 127
  | restored | bound | unapproved => cases h

/-- Any other update leaves `server_host` alone. -/
theorem serverHost_update_other {cfg : CtcConfig} {u : ConfigUpdate}
    (h : u.newAddress cfg = none) : (cfg.update u).serverHost = cfg.serverHost := by
  cases u with
  | configSet key value =>
    rw [update]
    cases hset : cfg.set key.bytes value.bytes with
    | none => rfl
    | some cfg' =>
      obtain ⟨d, hfind, -, hothers, -⟩ := set_eq_some hset
      refine bytes_inj.mp (hothers .serverHost ?_)
      rintro rfl
      have hfound := List.find?_some hfind
      have hkey : lit "server_host" = key.bytes := beq_iff_eq.mp hfound
      simp [ConfigUpdate.newAddress, hkey] at h
  | restored binding =>
    rw [update]
    split <;> rfl
  | moved | synced => cases h
  | bound | unapproved => rfl

theorem serverHost_updates_other {cfg : CtcConfig} {us : List ConfigUpdate}
    (h : ∀ u ∈ us, ∀ cfg, u.newAddress cfg = none) :
    (cfg.updates us).serverHost = cfg.serverHost := by
  induction us generalizing cfg with
  | nil => rfl
  | cons u us ih =>
    have hrest : ((cfg.update u).updates us).serverHost = (cfg.update u).serverHost :=
      ih fun v hv => h v (mem_cons_of_mem u hv)
    exact hrest.trans (serverHost_update_other (h u mem_cons_self cfg))

theorem updates_append (cfg : CtcConfig) (us : List ConfigUpdate) (u : ConfigUpdate)
    (vs : List ConfigUpdate) :
    cfg.updates (us ++ u :: vs) = ((cfg.updates us).update u).updates vs := by
  rw [updates, foldl_append]
  rfl

end CtcConfig

/-- When a changed address is the first that is dialled. -/
theorem dials_changed_address_iff (host : ConfigHost) (file : Option Bytes)
    (before : List ConfigUpdate) (u : ConfigUpdate) (after : List ConfigUpdate) (address : Bytes)
    (hu : u.newAddress ((load host file).updates before) = some address)
    (hafter : ∀ v ∈ after, ∀ cfg, v.newAddress cfg = none)
    (env : TlsEnv) (net : Nat → Attempt) (s : State)
    (hs : s.cfg = ((load host file).updates (before ++ u :: after)).toConfig) :
    firstDial (((connectServer env net).run s).2.log.drop s.log.length) = some address ↔
      if 44 ∈ (load host file).serverHosts.bytes then
        (hostList (load host file).serverHosts.bytes).head? = some address
      else address.length ≤ 127 := by
  have hhosts : s.cfg.serverHosts = (load host file).serverHosts.bytes := by
    rw [hs, ← CtcConfig.serverHosts_updates _ (before ++ u :: after)]
    rfl
  have hhost : s.cfg.serverHost = address.take 127 := by
    rw [hs, CtcConfig.updates_append, ← CtcConfig.serverHost_update hu]
    exact congrArg CString.bytes (CtcConfig.serverHost_updates_other hafter)
  rw [firstDial_connectServer, hhosts, hhost]
  split
  · rfl
  · rw [Option.some.injEq]
    constructor
    · intro h
      have hlen := congrArg List.length h
      rw [length_take] at hlen
      omega
    · exact take_of_length_le

/-- A `config_set` of the address 10.0.0.9. -/
def setAddress : ConfigUpdate :=
  .configSet (bufferOf 63 (lit "server_host")) (bufferOf 255 (lit "10.0.0.9"))

def dialledAfter (file : Bytes) : Option Bytes :=
  let s := State.start ((load Deployed.webHost (some file)).updates [setAddress]).toConfig
  firstDial (((connectServer anyDigest fun _ => approvesAs []).run s).2.log.drop s.log.length)

theorem single_address_changes :
    dialledAfter (lit "server_host=10.0.0.1\n") = some (lit "10.0.0.9") :=
  (dials_changed_address_iff Deployed.webHost (some (lit "server_host=10.0.0.1\n")) [] setAddress []
    (lit "10.0.0.9") (by decide +kernel) (fun _ hv => absurd hv not_mem_nil) anyDigest
    (fun _ => approvesAs []) (.start _) rfl).mpr (by decide +kernel)

/-- With a list in the file its first address is dialled, whatever `server_host` was set to. -/
theorem list_is_dialled :
    dialledAfter (lit "server_host=10.0.0.1,10.0.0.2\n") = some (lit "10.0.0.1") := by
  decide +kernel

end CtForge.Agent
