import CtForge.Lib.Runs
import CtForge.Agent.Text

/-!
# The agent's configuration (`config.c`)

The configuration is saved as lines `key=value` in a fixed order and read back line by
line; the last line for a key counts. `ctc_config_set` takes its value from a message of the
server. It changes no setting of the agent's identity, but it also does not look at the
value, and a value with a newline is more than one line in the file.
-/

namespace CtForge.Agent

open CLang Runs List

/-! ## The configuration -/

structure CtcConfig where
  serverHost : CString 128
  serverHosts : CString 512
  serverPort : Int32
  agentId : CString 128
  name : CString 128
  token : CString 256
  metricsInterval : Int32
  heartbeatInterval : Int32
  logLevel : Int32
  useTls : Int32
  tlsSkipVerify : Int32
  serverFingerprint : CString 128
  discoverEnable : Int32
  discoverPort : Int32
  boundServerId : CString 128
  boundServerIp : CString 64
  boundServerPort : Int32
  approved : Int32

inductive ConfigKey where
  | serverHost | serverPort | agentId | name | token | metricsInterval | heartbeatInterval
  | logLevel | useTls | tlsSkipVerify | serverFingerprint | discoverEnable | discoverPort
  | boundServerId | boundServerIp | boundServerPort | approved
  deriving DecidableEq, Repr

namespace ConfigKey

def text : ConfigKey → String
  | serverHost => "server_host"
  | serverPort => "server_port"
  | agentId => "agent_id"
  | name => "name"
  | token => "token"
  | metricsInterval => "metrics_interval"
  | heartbeatInterval => "heartbeat_interval"
  | logLevel => "log_level"
  | useTls => "use_tls"
  | tlsSkipVerify => "tls_skip_verify"
  | serverFingerprint => "server_fingerprint"
  | discoverEnable => "discover_enable"
  | discoverPort => "discover_port"
  | boundServerId => "bound_server_id"
  | boundServerIp => "bound_server_ip"
  | boundServerPort => "bound_server_port"
  | approved => "approved"

def all : List ConfigKey :=
  [serverHost, serverPort, agentId, name, token, metricsInterval, heartbeatInterval, logLevel,
    useTls, tlsSkipVerify, serverFingerprint, discoverEnable, discoverPort, boundServerId,
    boundServerIp, boundServerPort, approved]

def find (k : Bytes) : Option ConfigKey := all.find? fun key => lit key.text == k

/-- The keys that are written behind `k`. -/
def after (k : ConfigKey) : List ConfigKey := (all.dropWhile (· != k)).tail

def identity : List ConfigKey := [agentId, token, useTls, tlsSkipVerify]

/-- The texts that `ctc_config_set` copies from a message. -/
def texts : List ConfigKey := [serverHost, name, serverFingerprint]

end ConfigKey

def atoi (s : Bytes) : Int32 := Int32.ofInt (strtol s)

namespace CtcConfig

/-- One line of `ctc_config_load`. For a list of servers `server_host` is the first. -/
def read (cfg : CtcConfig) (v : Bytes) : ConfigKey → CtcConfig
  | .serverHost =>
    { cfg with
      serverHosts := bufferOf 511 v
      serverHost := bufferOf 127 (v.takeWhile (· != 44)) }
  | .serverPort => { cfg with serverPort := atoi v }
  | .agentId => { cfg with agentId := bufferOf 127 v }
  | .name => { cfg with name := bufferOf 127 v }
  | .token => { cfg with token := bufferOf 255 v }
  | .metricsInterval => { cfg with metricsInterval := atoi v }
  | .heartbeatInterval => { cfg with heartbeatInterval := atoi v }
  | .logLevel => { cfg with logLevel := atoi v }
  | .useTls => { cfg with useTls := atoi v }
  | .tlsSkipVerify => { cfg with tlsSkipVerify := atoi v }
  | .serverFingerprint => { cfg with serverFingerprint := bufferOf 127 v }
  | .discoverEnable => { cfg with discoverEnable := atoi v }
  | .discoverPort => { cfg with discoverPort := atoi v }
  | .boundServerId => { cfg with boundServerId := bufferOf 127 v }
  | .boundServerIp => { cfg with boundServerIp := bufferOf 63 v }
  | .boundServerPort => { cfg with boundServerPort := atoi v }
  | .approved => { cfg with approved := atoi v }

/-- The values as `ctc_config_save` writes them. -/
def printed (cfg : CtcConfig) : ConfigKey → Bytes
  | .serverHost => cfg.serverHost.bytes
  | .serverPort => int32 cfg.serverPort
  | .agentId => cfg.agentId.bytes
  | .name => cfg.name.bytes
  | .token => cfg.token.bytes
  | .metricsInterval => int32 cfg.metricsInterval
  | .heartbeatInterval => int32 cfg.heartbeatInterval
  | .logLevel => int32 cfg.logLevel
  | .useTls => int32 cfg.useTls
  | .tlsSkipVerify => int32 cfg.tlsSkipVerify
  | .serverFingerprint => cfg.serverFingerprint.bytes
  | .discoverEnable => int32 cfg.discoverEnable
  | .discoverPort => int32 cfg.discoverPort
  | .boundServerId => cfg.boundServerId.bytes
  | .boundServerIp => cfg.boundServerIp.bytes
  | .boundServerPort => int32 cfg.boundServerPort
  | .approved => int32 cfg.approved

/-- `ctc_config_set`; none if the key may not be set from afar. -/
def set (cfg : CtcConfig) (key value : Bytes) : Option CtcConfig :=
  let v := atoi value
  match ConfigKey.find key with
  | some .serverHost => some { cfg with serverHost := bufferOf 127 value }
  | some .serverPort => some { cfg with serverPort := v }
  | some .name => some { cfg with name := bufferOf 127 value }
  | some .metricsInterval =>
    some { cfg with metricsInterval := if 5 ≤ v then v else cfg.metricsInterval }
  | some .heartbeatInterval =>
    some { cfg with heartbeatInterval := if 3 ≤ v then v else cfg.heartbeatInterval }
  | some .logLevel => some { cfg with logLevel := v }
  | some .discoverEnable => some { cfg with discoverEnable := if v = 0 then 0 else 1 }
  | some .discoverPort =>
    some { cfg with discoverPort := if 0 < v ∧ v < 65536 then v else cfg.discoverPort }
  | some .serverFingerprint => some { cfg with serverFingerprint := bufferOf 127 value }
  | _ => none

/-- `ctc_config_save`. -/
def save (cfg : CtcConfig) : Bytes :=
  lit "# ctforge agent config" ++ 10 ::
    ConfigKey.all.flatMap fun k => (lit k.text ++ 61 :: cfg.printed k) ++ [10]

end CtcConfig

/-! ## Reading the file -/

/-- What `ctc_config_defaults` asks the host: its name, and its first IPv4 address that is
not a loopback address. -/
structure ConfigHost where
  hostname : Option (CString 128)
  primaryIpv4 : Option (CString 64)

def toLower (c : UInt8) : UInt8 := if 65 ≤ c && c ≤ 90 then c + 32 else c

def genericHostname (h : Bytes) : Bool :=
  h.isEmpty || (["localhost", "localhost.localdomain", "openwrt", "istoreos", "router", "ubuntu",
    "debian", "fedora", "linux"].map lit).contains (h.map toLower)

/-- The default of `agent_id` and `name`. -/
def ConfigHost.agentName (host : ConfigHost) : Bytes :=
  match host.hostname, host.primaryIpv4 with
  | none, _ => []
  | some h, some ip => if genericHostname h.bytes then ip.bytes else h.bytes
  | some h, none => h.bytes

def CtcConfig.defaults (host : ConfigHost) : CtcConfig where
  serverHost := bufferOf 127 (lit "127.0.0.1")
  serverHosts := .empty 511
  serverPort := 9000
  agentId := bufferOf 127 host.agentName
  name := bufferOf 127 host.agentName
  token := .empty 255
  metricsInterval := 30
  heartbeatInterval := 10
  logLevel := 1
  useTls := 0
  tlsSkipVerify := 0
  serverFingerprint := .empty 127
  discoverEnable := 0
  discoverPort := 0
  boundServerId := .empty 127
  boundServerIp := .empty 63
  boundServerPort := 0
  approved := 0

namespace ConfigFile

/-- `trim`. -/
def trim (s : Bytes) : Bytes := ((s.dropWhile isSpace).reverse.dropWhile isSpace).reverse

/-- The lines of `fgets(line, 512, f)`, with `line` read so far: up to a newline, or 511
bytes. -/
def fgetsFrom (line : Bytes) : Bytes → List Bytes
  | [] => if line.isEmpty then [] else [line]
  | c :: s =>
    if c = 10 ∨ line.length = 510 then (line ++ [c]) :: fgetsFrom [] s
    else fgetsFrom (line ++ [c]) s

def setting (line : Bytes) : Option (ConfigKey × Bytes) :=
  let line := cString line
  if line.head? = some 35 ∨ line.head? = some 59 then none
  else
    match line.dropWhile (· != 61) with
    | [] => none
    | _ :: v => (ConfigKey.find (trim (line.takeWhile (· != 61)))).map fun k => (k, trim v)

def settings (file : Bytes) : List (ConfigKey × Bytes) := (fgetsFrom [] file).filterMap setting

/-- `ctc_config_load`; without a file the defaults stay. -/
def load (host : ConfigHost) : Option Bytes → CtcConfig
  | none => .defaults host
  | some file => (settings file).foldl (fun cfg s => cfg.read s.2 s.1) (.defaults host)

def injected (v : Bytes) : List (ConfigKey × Bytes) :=
  match v.dropWhile (· != 10) with
  | [] => []
  | _ :: rest => settings (rest ++ [10])

def lastSetting (k : ConfigKey) : List (ConfigKey × Bytes) → Option Bytes
  | [] => none
  | s :: rest => (lastSetting k rest).or (if s.1 = k then some s.2 else none)

def stored (v : Bytes) : ConfigKey → Bytes
  | .serverHost => (bufferOf 127 (v.takeWhile (· != 44))).bytes
  | .agentId | .name | .serverFingerprint | .boundServerId => (bufferOf 127 v).bytes
  | .token => (bufferOf 255 v).bytes
  | .boundServerIp => (bufferOf 63 v).bytes
  | _ => int32 (atoi v)

/-! ## Texts and lines -/

theorem trim_append_newline (s : Bytes) : trim (s ++ [10]) = trim s := by
  by_cases hs : ∀ c ∈ s, isSpace c = true
  · have hnil : s.dropWhile isSpace = [] := dropWhile_eq_nil_iff.mpr hs
    have hnil' : (s ++ [10]).dropWhile isSpace = [] :=
      dropWhile_eq_nil_iff.mpr (forall_mem_append.mpr ⟨hs, forall_mem_singleton.mpr rfl⟩)
    rw [trim, trim, hnil, hnil']
  · have hne : s.dropWhile isSpace ≠ [] := fun h => hs (dropWhile_eq_nil_iff.mp h)
    have hdrop : (s ++ [10]).dropWhile isSpace = s.dropWhile isSpace ++ [10] := by
      rw [dropWhile_append, if_neg (by simpa using hne)]
    rw [trim, trim, hdrop, reverse_append, reverse_singleton, singleton_append,
      dropWhile_cons_of_pos (by decide)]

variable {s : Bytes} {c : UInt8}

theorem mem_of_mem_trim (h : c ∈ trim s) : c ∈ s := by
  have h := mem_reverse.mp h
  have h := (dropWhile_sublist _).mem h
  exact (dropWhile_sublist _).mem (mem_reverse.mp h)

theorem trim_of_no_space (h : ∀ c ∈ s, isSpace c = false) : trim s = s := by
  have hdrop : ∀ {t : Bytes}, (∀ c ∈ t, isSpace c = false) → t.dropWhile isSpace = t := by
    intro t ht
    cases t with
    | nil => rfl
    | cons c t => exact dropWhile_cons_of_neg (by simp [ht c (by simp)])
  rw [trim, hdrop h, hdrop (by simpa using h), reverse_reverse]

theorem fgetsFrom_append (line s u : Bytes) :
    fgetsFrom line (s ++ 10 :: u) = fgetsFrom line (s ++ [10]) ++ fgetsFrom [] u := by
  induction s generalizing line with
  | nil => simp [fgetsFrom]
  | cons c s ih =>
    simp only [cons_append, fgetsFrom]
    split
    · rw [ih, cons_append]
    · exact ih (line ++ [c])

theorem fgetsFrom_line {line s : Bytes} (hs : 10 ∉ s) (hlen : line.length + s.length ≤ 510) :
    fgetsFrom line (s ++ [10]) = [line ++ s ++ [10]] := by
  induction s generalizing line with
  | nil => simp [fgetsFrom]
  | cons c s ih =>
    simp only [mem_cons, not_or] at hs
    simp only [length_cons] at hlen
    have hc : ¬ (c = 10 ∨ line.length = 510) := by
      rintro (rfl | h)
      · exact hs.1 rfl
      · omega
    rw [cons_append, fgetsFrom, if_neg hc, ih hs.2 (by simp; omega)]
    simp

def OneLine (s : Bytes) : Prop := ∃ t : Bytes, 10 ∉ t ∧ (s = t ∨ s = t ++ [10])

theorem OneLine.of_not_mem (h : 10 ∉ s) : OneLine s := ⟨s, h, .inl rfl⟩

theorem OneLine.cString (h : OneLine s) : OneLine (cString s) := by
  obtain ⟨t, ht, rfl | rfl⟩ := h
  · exact .of_not_mem fun hmem => ht ((takeWhile_sublist _).mem hmem)
  · by_cases h0 : 0 ∈ t
    · have hcut : Agent.cString (t ++ [10]) = Agent.cString t := by
        rw [Agent.cString, takeWhile_append, if_neg]
        · rfl
        · intro hall
          have hself : t.takeWhile (· ≠ 0) <+: t := takeWhile_prefix _
          exact zero_not_mem_cString t (by rwa [Agent.cString, hself.eq_of_length hall])
      rw [hcut]
      exact .of_not_mem fun hmem => ht ((takeWhile_sublist _).mem hmem)
    · rw [cString_eq_self (by simpa using h0)]
      exact ⟨t, ht, .inr rfl⟩

theorem OneLine.suffix {s u : Bytes} (h : OneLine s) (hu : u <:+ s) : OneLine u := by
  obtain ⟨t, ht, rfl | rfl⟩ := h
  · exact .of_not_mem fun hmem => ht (hu.mem hmem)
  · rcases suffix_concat_iff.mp hu with rfl | ⟨v, rfl, hv⟩
    · exact .of_not_mem (by simp)
    · exact ⟨v, fun hmem => ht (hv.mem hmem), .inr rfl⟩

theorem OneLine.newline_not_mem_trim (h : OneLine s) : 10 ∉ trim s := by
  obtain ⟨t, ht, rfl | rfl⟩ := h
  · exact fun hmem => ht (mem_of_mem_trim hmem)
  · rw [trim_append_newline]
    exact fun hmem => ht (mem_of_mem_trim hmem)

/-- What `fgets` gives is one line at most. -/
theorem oneLine_of_mem_fgetsFrom {line s l : Bytes} (hline : 10 ∉ line)
    (h : l ∈ fgetsFrom line s) : OneLine l := by
  induction s generalizing line with
  | nil =>
    rw [fgetsFrom] at h
    split at h
    · cases h
    · obtain rfl := mem_singleton.mp h
      exact .of_not_mem hline
  | cons c s ih =>
    rw [fgetsFrom] at h
    by_cases hc : c = 10
    · rw [if_pos (.inl hc)] at h
      rcases mem_cons.mp h with rfl | h
      · exact ⟨line, hline, .inr (by rw [hc])⟩
      · exact ih (by simp) h
    · have hnext : 10 ∉ line ++ [c] := by simpa using ⟨hline, fun h => hc h.symm⟩
      split at h
      · rcases mem_cons.mp h with rfl | h
        · exact .of_not_mem hnext
        · exact ih (by simp) h
      · exact ih hnext h

theorem settings_append (s u : Bytes) :
    settings (s ++ 10 :: u) = settings (s ++ [10]) ++ settings u := by
  rw [settings, fgetsFrom_append, filterMap_append]
  rfl

theorem settings_flatMap (keys : List ConfigKey) (f : ConfigKey → Bytes) :
    settings (keys.flatMap fun k => f k ++ [10]) =
      keys.flatMap fun k => settings (f k ++ [10]) := by
  induction keys with
  | nil => rfl
  | cons k keys ih =>
    rw [flatMap_cons, flatMap_cons, append_assoc, singleton_append,
      settings_append, ih]

theorem newline_not_mem_of_settings {file : Bytes} {s : ConfigKey × Bytes}
    (h : s ∈ settings file) : 10 ∉ s.2 := by
  obtain ⟨l, hl, hs⟩ := mem_filterMap.mp h
  have hline : OneLine (cString l) := (oneLine_of_mem_fgetsFrom (by simp) hl).cString
  unfold setting at hs
  dsimp only at hs
  split at hs
  · cases hs
  · split at hs
    · cases hs
    · rename_i c v hv
      obtain ⟨k, -, rfl⟩ := Option.map_eq_some_iff.mp hs
      have hrest : OneLine (c :: v) := hline.suffix (hv ▸ dropWhile_suffix _)
      exact (hrest.suffix (suffix_cons c v)).newline_not_mem_trim

/-! ## What a saved file says -/

theorem mem_all (k : ConfigKey) : k ∈ ConfigKey.all := by
  cases k <;> decide

theorem keys_checked : (ConfigKey.all.all fun k =>
    ConfigKey.find (trim (lit k.text)) == some k &&
      ((lit k.text).all (fun c => c != 0 && c != 10 && c != 61) && (lit k.text).length ≤ 18 &&
        (lit k.text).head?.any fun c => c != 35 && c != 59)) = true := by
  decide +kernel

theorem find_text (k : ConfigKey) : ConfigKey.find (trim (lit k.text)) = some k := by
  have hk := List.all_eq_true.mp keys_checked k (mem_all k)
  rw [Bool.and_eq_true] at hk
  exact beq_iff_eq.mp hk.1

theorem text_plain (k : ConfigKey) :
    (∀ c ∈ lit k.text, c ≠ 0 ∧ c ≠ 10 ∧ c ≠ 61) ∧ (lit k.text).length ≤ 18 ∧
      (lit k.text).head? ≠ none ∧ (lit k.text).head? ≠ some 35 ∧ (lit k.text).head? ≠ some 59 := by
  have hk := List.all_eq_true.mp keys_checked k (mem_all k)
  simp only [Bool.and_eq_true, List.all_eq_true, bne_iff_ne, decide_eq_true_eq] at hk
  obtain ⟨-, ⟨hplain, hlen⟩, hhead⟩ := hk
  refine ⟨fun c hc => ⟨(hplain c hc).1.1, (hplain c hc).1.2, (hplain c hc).2⟩, hlen, ?_⟩
  cases h : (lit k.text).head? with
  | none =>
    rw [h] at hhead
    cases hhead
  | some c =>
    rw [h] at hhead
    simpa using hhead

variable {v : Bytes}

theorem setting_line (k : ConfigKey) (hv : 0 ∉ v) :
    setting ((lit k.text ++ 61 :: v) ++ [10]) = some (k, trim v) := by
  obtain ⟨hplain, -, hne, hhash, hsemi⟩ := text_plain k
  have hnoNul : 0 ∉ (lit k.text ++ 61 :: v) ++ [10] := by
    simpa using ⟨fun h => (hplain 0 h).1 rfl, hv⟩
  have hhead : ((lit k.text ++ 61 :: v) ++ [10]).head? = (lit k.text).head? := by
    rw [append_assoc]
    exact List.head?_append_of_ne_nil _ (by simpa using hne)
  have hkey : ∀ c ∈ lit k.text, (c != 61) = true := fun c hc => by simpa using (hplain c hc).2.2
  have htake : ((lit k.text ++ 61 :: v) ++ [10]).takeWhile (· != 61) = lit k.text := by
    rw [append_assoc, takeWhile_append_of_pos hkey]
    simp
  have hdrop : ((lit k.text ++ 61 :: v) ++ [10]).dropWhile (· != 61) = 61 :: (v ++ [10]) := by
    rw [append_assoc, dropWhile_append_of_pos hkey]
    simp
  simp only [setting, cString_eq_self hnoNul, hhead, hhash, hsemi, or_self, if_false, hdrop, htake,
    find_text, Option.map_some, trim_append_newline]

def firstLine (v : Bytes) : Bytes := v.takeWhile (· != 10)

theorem settings_line (k : ConfigKey) (hnul : 0 ∉ v) (hline : 10 ∉ v) (hlen : v.length ≤ 255) :
    settings ((lit k.text ++ 61 :: v) ++ [10]) = [(k, trim v)] := by
  obtain ⟨hplain, hkey, -⟩ := text_plain k
  have hbody : 10 ∉ lit k.text ++ 61 :: v := by
    simpa using ⟨fun h => (hplain 10 h).2.1 rfl, hline⟩
  rw [settings, fgetsFrom_line hbody (by simp; omega), nil_append, filterMap_cons,
    setting_line k hnul]
  rfl

/-- What one saved entry is read back as: its own setting, and those its value brings in. -/
theorem settings_entry (k : ConfigKey) (hnul : 0 ∉ v) (hlen : v.length ≤ 255) :
    settings ((lit k.text ++ 61 :: v) ++ [10]) = (k, trim (firstLine v)) :: injected v := by
  have hfirst : 0 ∉ firstLine v := fun h => hnul ((takeWhile_sublist _).mem h)
  have hline : 10 ∉ firstLine v := fun h => by simpa using mem_takeWhile_imp h
  have hshort : (firstLine v).length ≤ 255 :=
    Nat.le_trans (takeWhile_sublist _).length_le hlen
  have hsplit : firstLine v ++ v.dropWhile (· != 10) = v := takeWhile_append_dropWhile
  cases hrest : v.dropWhile (· != 10) with
  | nil =>
    rw [hrest, append_nil] at hsplit
    rw [injected, hrest, hsplit, settings_line k hnul (hsplit ▸ hline) hlen]
  | cons c rest =>
    have hc : c = 10 := by
      have h := List.head?_dropWhile_not (p := (· != (10 : UInt8))) (l := v)
      rw [hrest] at h
      simpa using h
    subst hc
    have htext : (lit k.text ++ 61 :: v) ++ [10] =
        (lit k.text ++ 61 :: firstLine v) ++ 10 :: (rest ++ [10]) := by
      rw [hrest] at hsplit
      conv_lhs => rw [← hsplit]
      simp
    rw [htext, settings_append, settings_line k hfirst hline hshort, injected, hrest]
    rfl

theorem injected_eq_nil (h : 10 ∉ v) : injected v = [] := by
  have hnil : v.dropWhile (· != 10) = [] :=
    dropWhile_eq_nil_iff.mpr fun c hc => by simpa using fun h10 : c = 10 => h (h10 ▸ hc)
  rw [injected, hnil]

theorem int32_chars {n : Int32} (h : c ∈ int32 n) : isDigit c = true ∨ c = 45 := by
  unfold int32 decimalInt at h
  split at h
  · rcases mem_cons.mp h with rfl | h
    · exact .inr rfl
    · exact .inl (decimal_digits h)
  · exact .inl (decimal_digits h)

theorem not_mem_int32 {n : Int32} (h : isDigit c = false ∧ c ≠ 45) : c ∉ int32 n :=
  fun hc => (int32_chars hc).elim (fun hd => by simp [h.1] at hd) h.2

theorem printed_fits (cfg : CtcConfig) (k : ConfigKey) :
    0 ∉ cfg.printed k ∧ (cfg.printed k).length ≤ 255 := by
  have htext : ∀ {n : Nat} (s : CString n), n ≤ 256 → 0 ∉ s.bytes ∧ s.bytes.length ≤ 255 :=
    fun s hn => ⟨s.noNul, by have := s.fits; omega⟩
  have hnumber : ∀ n : Int32, 0 ∉ int32 n ∧ (int32 n).length ≤ 255 :=
    fun n => ⟨not_mem_int32 (by decide), by have := int32_length n; omega⟩
  cases k
  case serverHost | agentId | name | token | serverFingerprint | boundServerId | boundServerIp =>
    exact htext _ (by decide)
  all_goals exact hnumber _

/-- What a saved file says, with the lines that its values bring in. -/
theorem settings_save (cfg : CtcConfig) :
    settings cfg.save = ConfigKey.all.flatMap fun k =>
      (k, trim (firstLine (cfg.printed k))) :: injected (cfg.printed k) := by
  have hcomment : settings (lit "# ctforge agent config" ++ [10]) = [] := by decide +kernel
  rw [CtcConfig.save, settings_append, hcomment, nil_append, settings_flatMap]
  refine flatMap_congr fun k _ => ?_
  exact settings_entry k (printed_fits cfg k).1 (printed_fits cfg k).2

/-! ## The setting that counts -/

theorem lastSetting_append (k : ConfigKey) (l m : List (ConfigKey × Bytes)) :
    lastSetting k (l ++ m) = (lastSetting k m).or (lastSetting k l) := by
  induction l with
  | nil => simp [lastSetting]
  | cons s l ih => rw [cons_append, lastSetting, ih, lastSetting, Option.or_assoc]

theorem mem_of_lastSetting {k : ConfigKey} {l : List (ConfigKey × Bytes)}
    (h : lastSetting k l = some v) : (k, v) ∈ l := by
  induction l with
  | nil => cases h
  | cons s l ih =>
    rw [lastSetting] at h
    rcases Option.or_eq_some_iff.mp h with h | ⟨-, h⟩
    · exact mem_cons_of_mem s (ih h)
    · split at h
      · rename_i hk
        obtain rfl := Option.some.inj h
        exact hk ▸ mem_cons_self
      · cases h

theorem lastSetting_flatMap {k d : ConfigKey} {keys : List ConfigKey}
    {f : ConfigKey → List (ConfigKey × Bytes)}
    (h : ∀ k' ∈ keys, k' ≠ d → lastSetting k (f k') = none) :
    lastSetting k (keys.flatMap f) = if d ∈ keys then lastSetting k (f d) else none := by
  induction keys with
  | nil => rfl
  | cons key keys ih =>
    rw [flatMap_cons, lastSetting_append,
      ih fun k' hk' => h k' (mem_cons_of_mem key hk')]
    by_cases hkey : key = d
    · subst hkey
      by_cases hmem : key ∈ keys <;> simp [hmem]
    · have hd : ¬ d = key := fun h => hkey h.symm
      rw [h key mem_cons_self hkey, Option.or_none]
      simp [hd]

theorem printed_read (cfg : CtcConfig) (v : Bytes) (key k : ConfigKey) :
    (cfg.read v key).printed k = if key = k then stored v k else cfg.printed k := by
  by_cases hk : key = k
  · subst hk
    rw [if_pos rfl]
    cases key <;> rfl
  · rw [if_neg hk]
    cases key <;> cases k <;> first | exact absurd rfl hk | rfl

theorem printed_foldl (l : List (ConfigKey × Bytes)) (cfg : CtcConfig) (k : ConfigKey) :
    (l.foldl (fun cfg s => cfg.read s.2 s.1) cfg).printed k =
      ((lastSetting k l).map fun v => stored v k).getD (cfg.printed k) := by
  induction l generalizing cfg with
  | nil => rfl
  | cons s l ih =>
    rw [foldl_cons, ih, lastSetting, printed_read]
    cases lastSetting k l with
    | some v => rfl
    | none => by_cases hs : s.1 = k <;> simp [hs]

theorem all_eq (k : ConfigKey) :
    ConfigKey.all = ConfigKey.all.takeWhile (· != k) ++ k :: k.after := by
  cases k <;> decide

theorem ne_of_mem_after {k k' : ConfigKey} (h : k' ∈ k.after) : k' ≠ k := by
  rintro rfl
  revert h
  cases k' <;> decide

theorem lastSetting_save (cfg : CtcConfig) (k : ConfigKey) (hk : injected (cfg.printed k) = []) :
    lastSetting k (settings cfg.save) =
      (lastSetting k (k.after.flatMap fun k' => injected (cfg.printed k'))).or
        (some (trim (firstLine (cfg.printed k)))) := by
  have hpieces : ∀ keys : List ConfigKey, k ∉ keys →
      lastSetting k (keys.flatMap fun k' =>
        (k', trim (firstLine (cfg.printed k'))) :: injected (cfg.printed k')) =
      lastSetting k (keys.flatMap fun k' => injected (cfg.printed k')) := by
    intro keys hkeys
    induction keys with
    | nil => rfl
    | cons key keys ih =>
      simp only [mem_cons, not_or] at hkeys
      rw [flatMap_cons, flatMap_cons, lastSetting_append, lastSetting_append, ih hkeys.2,
        lastSetting, if_neg fun h => hkeys.1 h.symm, Option.or_none]
  rw [settings_save]
  conv_lhs => rw [all_eq k]
  rw [flatMap_append, flatMap_cons, hk, lastSetting_append, lastSetting_append,
    hpieces _ fun h => ne_of_mem_after h rfl]
  simp [lastSetting]

end ConfigFile

open ConfigFile

/-! ## Requests, saves and restarts -/

/-- `config_set` as `handle_command` reads it; none if a key or a value is missing. -/
def configSetArgs : (payload : Option Bytes) → Except Fault (Option (Bytes × Bytes))
  | none => .ok none
  | some json => do
    match ← jsonGetString json (lit "key") 64 with
    | none => return none
    | some key => return (← jsonGetString json (lit "value") 256).map fun value => (key, value)

structure Deployed where
  cfg : CtcConfig
  file : Option Bytes

inductive ConfigEvent where
  /-- A `config_set` with this key and value. -/
  | configSet (key : CString 64) (value : CString 256)
  | save
  | restart (host : ConfigHost)

namespace Deployed

def step (s : Deployed) : ConfigEvent → Deployed
  | .configSet key value =>
    match s.cfg.set key.bytes value.bytes with
    | some cfg => ⟨cfg, some cfg.save⟩
    | none => s
  | .save => { s with file := some s.cfg.save }
  | .restart host => { s with cfg := load host s.file }

end Deployed

def CtcConfig.identity (cfg : CtcConfig) : Bytes × Bytes × Int32 × Int32 :=
  (cfg.agentId.bytes, cfg.token.bytes, cfg.useTls, cfg.tlsSkipVerify)

/-! ## Values that survive saving -/

theorem atoi_int32 (n : Int32) : atoi (int32 n) = n := by
  have hlo := n.le_toInt
  have hhi := n.toInt_lt
  have hread : strtol (decimalInt n.toInt ++ []) = n.toInt :=
    strtol_decimalInt (by omega) (by omega) (by simp)
  rw [append_nil] at hread
  rw [atoi, int32, hread, Int32.ofInt_toInt]

example : atoi (int32 (-30)) = -30 := by decide +kernel

theorem int32_inj {m n : Int32} : int32 m = int32 n ↔ m = n :=
  ⟨fun h => by rw [← atoi_int32 m, h, atoi_int32], fun h => by rw [h]⟩

namespace CtcConfig

/-- A configuration whose identity is read back as it was written, and whose texts are one
line each. `server_host`, which is written first, does not matter. -/
structure Plain (cfg : CtcConfig) : Prop where
  agentId : ConfigFile.trim cfg.agentId.bytes = cfg.agentId.bytes
  token : ConfigFile.trim cfg.token.bytes = cfg.token.bytes
  lines : ∀ k, k ≠ .serverHost → 10 ∉ cfg.printed k

theorem identity_eq_iff {cfg other : CtcConfig} :
    cfg.identity = other.identity ↔ ∀ k ∈ ConfigKey.identity, cfg.printed k = other.printed k := by
  simp [identity, ConfigKey.identity, printed, int32_inj]

theorem bufferOf_eq_take {m : Nat} (s : CString m) (n : Nat) :
    (bufferOf n s.bytes).bytes = s.bytes.take n :=
  congrArg (List.take n) (cString_eq_self s.noNul)

theorem bufferOf_bytes {n : Nat} (s : CString (n + 1)) : (bufferOf n s.bytes).bytes = s.bytes := by
  have hfits := s.fits
  rw [bufferOf_eq_take, take_of_length_le (by omega)]

theorem firstLine_of_not_mem {s : Bytes} (h : 10 ∉ s) : firstLine s = s :=
  takeWhile_eq_self_iff.mpr fun c hc => by simpa using fun h10 : c = 10 => h (h10 ▸ hc)

theorem trim_int32 (n : Int32) : ConfigFile.trim (int32 n) = int32 n := by
  refine trim_of_no_space fun c hc => ?_
  rcases int32_chars hc with hd | rfl
  · exact (isDigit_facts c hd).1
  · rfl

theorem atoi_line (n : Int32) : atoi (ConfigFile.trim (firstLine (int32 n))) = n := by
  rw [firstLine_of_not_mem (not_mem_int32 (by decide)), trim_int32, atoi_int32]

variable {cfg : CtcConfig} {k : ConfigKey}

theorem Plain.stored (h : cfg.Plain) (hk : k ∈ ConfigKey.identity) :
    stored (ConfigFile.trim (firstLine (cfg.printed k))) k = cfg.printed k := by
  simp only [ConfigKey.identity, mem_cons, not_mem_nil, or_false] at hk
  rcases hk with rfl | rfl | rfl | rfl
  · rw [firstLine_of_not_mem (h.lines .agentId (by decide))]
    exact (congrArg (fun s => (bufferOf 127 s).bytes) h.agentId).trans (bufferOf_bytes cfg.agentId)
  · rw [firstLine_of_not_mem (h.lines .token (by decide))]
    exact (congrArg (fun s => (bufferOf 255 s).bytes) h.token).trans (bufferOf_bytes cfg.token)
  · exact congrArg int32 (atoi_line cfg.useTls)
  · exact congrArg int32 (atoi_line cfg.tlsSkipVerify)

/-! ## One save and one restart -/

theorem not_mem_bufferOf {n : Nat} {s : Bytes} (h : c ∉ s) : c ∉ (bufferOf n s).bytes := fun hc =>
  h ((takeWhile_sublist _).mem (mem_of_mem_take hc))

theorem newline_not_mem_stored {v : Bytes} (h : 10 ∉ v) (k : ConfigKey) :
    10 ∉ ConfigFile.stored v k := by
  cases k
  case serverHost => exact not_mem_bufferOf fun hc => h ((takeWhile_sublist _).mem hc)
  case agentId | name | token | serverFingerprint | boundServerId | boundServerIp =>
    exact not_mem_bufferOf h
  all_goals exact not_mem_int32 (by decide)

theorem isSome_lastSetting {v : Bytes} {l : List (ConfigKey × Bytes)} (h : (k, v) ∈ l) :
    (lastSetting k l).isSome := by
  obtain ⟨before, after, rfl⟩ := append_of_mem h
  rw [lastSetting_append, lastSetting, if_pos rfl]
  cases lastSetting k after <;> simp

theorem newline_not_mem_load (host : ConfigHost) (cfg : CtcConfig) (k : ConfigKey) :
    10 ∉ (load host (some cfg.save)).printed k := by
  have hmem : (k, ConfigFile.trim (firstLine (cfg.printed k))) ∈ settings cfg.save := by
    rw [settings_save]
    refine mem_flatMap.mpr ⟨k, ?_, mem_cons_self⟩
    cases k <;> decide
  obtain ⟨v, hv⟩ := Option.isSome_iff_exists.mp (isSome_lastSetting hmem)
  rw [load, printed_foldl, hv]
  exact newline_not_mem_stored (newline_not_mem_of_settings (mem_of_lastSetting hv)) k

theorem printed_load_save (host : ConfigHost) (hk : injected (cfg.printed k) = []) :
    (load host (some cfg.save)).printed k = ConfigFile.stored
      ((lastSetting k (k.after.flatMap fun k' => injected (cfg.printed k'))).getD
        (ConfigFile.trim (firstLine (cfg.printed k)))) k := by
  rw [load, printed_foldl, lastSetting_save cfg k hk]
  cases lastSetting k (k.after.flatMap fun k' => injected (cfg.printed k')) <;> rfl

theorem serverHost_not_mem_after (k : ConfigKey) : .serverHost ∉ k.after := by
  cases k <;> decide

theorem Plain.injected (h : cfg.Plain) (hk : k ≠ .serverHost) :
    injected (cfg.printed k) = [] := injected_eq_nil (h.lines k hk)

theorem ne_serverHost (h : k ∈ ConfigKey.identity) : k ≠ .serverHost := by
  rintro rfl
  revert h
  decide

/-- The identity is that of `held`, and what is written behind a setting of it brings in no
line that would change it. -/
structure Safe (held cfg : CtcConfig) : Prop where
  identity : ∀ k ∈ ConfigKey.identity, cfg.printed k = held.printed k
  later : ∀ k ∈ ConfigKey.identity, ∀ k' ∈ k.after,
    ∀ v ∈ lastSetting k (ConfigFile.injected (cfg.printed k')),
      ConfigFile.stored v k = held.printed k

theorem Plain.safe {held cfg : CtcConfig} (h : cfg.Plain) (hid : cfg.identity = held.identity) :
    Safe held cfg where
  identity := identity_eq_iff.mp hid
  later k _ k' hk' v hv := by
    have hne : k' ≠ .serverHost := fun h => serverHost_not_mem_after k (h ▸ hk')
    rw [h.injected hne] at hv
    cases hv

theorem exists_of_lastSetting_flatMap {keys : List ConfigKey}
    {f : ConfigKey → List (ConfigKey × Bytes)} {v : Bytes}
    (h : lastSetting k (keys.flatMap f) = some v) : ∃ k' ∈ keys, lastSetting k (f k') = some v := by
  induction keys with
  | nil => cases h
  | cons key keys ih =>
    rw [flatMap_cons, lastSetting_append] at h
    rcases Option.or_eq_some_iff.mp h with h | ⟨-, h⟩
    · obtain ⟨k', hk', hv⟩ := ih h
      exact ⟨k', mem_cons_of_mem key hk', hv⟩
    · exact ⟨key, mem_cons_self, h⟩

/-- Loading a saved file keeps what the saved values brought in harmless. -/
theorem Safe.load {held cfg : CtcConfig} (h : Safe held cfg) (hheld : held.Plain)
    (host : ConfigHost) : Safe held (load host (some cfg.save)) where
  identity k hk := by
    have hprinted := h.identity k hk
    have hnone : ConfigFile.injected (cfg.printed k) = [] := by
      rw [hprinted]
      exact hheld.injected (ne_serverHost hk)
    rw [printed_load_save host hnone]
    cases hlast : lastSetting k
        (k.after.flatMap fun k' => ConfigFile.injected (cfg.printed k')) with
    | none =>
      rw [hprinted]
      exact hheld.stored hk
    | some v =>
      obtain ⟨k', hk', hv⟩ := exists_of_lastSetting_flatMap hlast
      exact h.later k hk k' hk' v hv
  later k _ k' _ v hv := by
    rw [injected_eq_nil (newline_not_mem_load host cfg k')] at hv
    cases hv

/-! ## One request -/

theorem set_eq_some {cfg cfg' : CtcConfig} {key value : Bytes} (h : cfg.set key value = some cfg') :
    ∃ d, ConfigKey.find key = some d ∧ d ∉ ConfigKey.identity ∧
      (∀ k, k ≠ d → cfg'.printed k = cfg.printed k) ∧
      if d ∈ ConfigKey.texts then cfg'.printed d = (bufferOf 127 value).bytes
      else 10 ∉ cfg'.printed d := by
  unfold set at h
  cases hd : ConfigKey.find key with
  | none => simp [hd] at h
  | some d =>
    refine ⟨d, rfl, ?_⟩
    have hnumber : ∀ n : Int32, 10 ∉ int32 n := fun _ => not_mem_int32 (by decide)
    cases d <;> simp only [hd, Option.some.injEq, reduceCtorEq] at h
    all_goals
      subst h
      refine ⟨by decide, fun k hk => by cases k <;> first | exact absurd rfl hk | rfl, ?_⟩
      first | exact hnumber _ | rfl

theorem set_ne_none {key value : Bytes} {d : ConfigKey} (hfind : ConfigKey.find key = some d)
    (hd : d ∈ ConfigKey.texts) : cfg.set key value ≠ none := by
  simp only [ConfigKey.texts, mem_cons, not_mem_nil, or_false] at hd
  rcases hd with rfl | rfl | rfl <;> simp [set, hfind]

/-- No value brings in, on a line behind a setting of the identity, another value for it. -/
def Harmless (cfg : CtcConfig) (key value : Bytes) : Prop :=
  ∀ d ∈ ConfigKey.find key, d ∈ ConfigKey.texts →
    ∀ k ∈ ConfigKey.identity, d ∈ k.after →
      ∀ v ∈ lastSetting k (ConfigFile.injected (value.take 127)),
        ConfigFile.stored v k = cfg.printed k

/-- A harmless value keeps the configuration safe. -/
theorem Safe.set {held cfg cfg' : CtcConfig} {key : Bytes} {value : CString 256}
    (h : Safe held cfg) (hharmless : cfg.Harmless key value.bytes)
    (hset : cfg.set key value.bytes = some cfg') : Safe held cfg' := by
  obtain ⟨d, hfind, hd, hothers, htext⟩ := set_eq_some hset
  have hidentity : ∀ k ∈ ConfigKey.identity, cfg'.printed k = cfg.printed k :=
    fun k hk => hothers k fun hkd => hd (hkd ▸ hk)
  refine ⟨fun k hk => (hidentity k hk).trans (h.identity k hk), fun k hk k' hk' v hv => ?_⟩
  by_cases hkd : k' = d
  · subst hkd
    split at htext
    · rename_i hcopied
      rw [htext, bufferOf_eq_take] at hv
      rw [hharmless k' hfind hcopied k hk hk' v hv, h.identity k hk]
    · rw [injected_eq_nil htext] at hv
      cases hv
  · rw [hothers k' hkd] at hv
    exact h.later k hk k' hk' v hv

/-- One setting and a restart keep the identity exactly if the value is harmless. -/
theorem Plain.load_set_iff {cfg cfg' : CtcConfig} {key : Bytes} {value : CString 256}
    (h : cfg.Plain) (hset : cfg.set key value.bytes = some cfg') (host : ConfigHost) :
    (load host (some cfg'.save)).identity = cfg.identity ↔ cfg.Harmless key value.bytes := by
  obtain ⟨d, hfind, hd, hothers, htext⟩ := set_eq_some hset
  -- behind a setting of the identity only the one that was set can bring in lines
  have hbehind : ∀ k ∈ ConfigKey.identity,
      lastSetting k (k.after.flatMap fun k' => ConfigFile.injected (cfg'.printed k')) =
        if d ∈ k.after then lastSetting k (ConfigFile.injected (cfg'.printed d)) else none := by
    intro k hk
    refine lastSetting_flatMap fun k' hk' hne => ?_
    rw [hothers k' hne, h.injected fun h => serverHost_not_mem_after k (h ▸ hk')]
    rfl
  have hprinted : ∀ k ∈ ConfigKey.identity, (load host (some cfg'.save)).printed k =
      ConfigFile.stored ((if d ∈ k.after then
        lastSetting k (ConfigFile.injected (cfg'.printed d)) else none).getD
          (ConfigFile.trim (firstLine (cfg.printed k)))) k := by
    intro k hk
    have hself := hothers k fun hkd => hd (hkd ▸ hk)
    have hnone : ConfigFile.injected (cfg'.printed k) = [] := by
      rw [hself]
      exact h.injected (ne_serverHost hk)
    rw [printed_load_save host hnone, hbehind k hk, hself]
  rw [identity_eq_iff]
  constructor
  · intro hall d' hd' hcopied k hk hafter v hv
    obtain rfl := Option.some.inj (hfind.symm.trans hd')
    have hvalue : cfg'.printed d = value.bytes.take 127 := by
      rw [if_pos hcopied] at htext
      rw [htext, bufferOf_eq_take]
    have hload := hprinted k hk
    rw [if_pos hafter, hvalue, hv, hall k hk] at hload
    exact hload.symm
  · intro hharmless k hk
    rw [hprinted k hk]
    by_cases hafter : d ∈ k.after
    · rw [if_pos hafter]
      cases hlast : lastSetting k (ConfigFile.injected (cfg'.printed d)) with
      | none => exact h.stored hk
      | some v =>
        split at htext
        · rename_i hcopied
          refine hharmless d hfind hcopied k hk hafter v ?_
          rw [htext, bufferOf_eq_take] at hlast
          exact hlast
        · rw [injected_eq_nil htext] at hlast
          cases hlast
    · rw [if_neg hafter]
      exact h.stored hk

end CtcConfig

/-! ## Runs -/

namespace Deployed

/-- Before the first request: the configuration survives saving, and the file holds its
identity. -/
structure Settled (s : Deployed) : Prop where
  plain : s.cfg.Plain
  file : ∀ host, (load host s.file).Plain ∧ (load host s.file).identity = s.cfg.identity

theorem settled_of_plain {cfg : CtcConfig} (h : cfg.Plain) : Settled ⟨cfg, some cfg.save⟩ where
  plain := h
  file host := by
    have hsafe := (h.safe rfl).load h host
    have hagent := hsafe.identity .agentId (by decide)
    have htoken := hsafe.identity .token (by decide)
    refine ⟨⟨?_, ?_, fun k _ => CtcConfig.newline_not_mem_load host cfg k⟩,
      CtcConfig.identity_eq_iff.mpr hsafe.identity⟩
    · exact (congrArg ConfigFile.trim hagent).trans (h.agentId.trans hagent.symm)
    · exact (congrArg ConfigFile.trim htoken).trans (h.token.trans htoken.symm)

def Harmless (s : Deployed) : ConfigEvent → Prop
  | .configSet key value => s.cfg.Harmless key.bytes value.bytes
  | _ => True

structure Kept (held : CtcConfig) (s : Deployed) : Prop where
  cfg : held.Safe s.cfg
  file : ∀ host, held.Safe (load host s.file)

/-- One step of a deployed agent with a harmless value keeps its identity. -/
theorem Kept.step {held : CtcConfig} (hheld : held.Plain) {s : Deployed} {e : ConfigEvent}
    (h : s.Kept held) (he : s.Harmless e) : (s.step e).Kept held := by
  cases e with
  | configSet key value =>
    unfold Deployed.step
    dsimp only
    split
    · rename_i cfg hset
      have hsafe := h.cfg.set he hset
      exact ⟨hsafe, hsafe.load hheld⟩
    · exact h
  | save => exact ⟨h.cfg, h.cfg.load hheld⟩
  | restart host => exact ⟨h.file host, h.file⟩

/-- From a configuration that survives saving, `agent_id`, `token`, `use_tls` and
`tls_skip_verify` are kept by every run in which no value brings in a line for one of them
behind its own; and one such value and a restart change them. -/
theorem identity_kept (s : Deployed) (h : s.Settled) :
    (∀ es, Along step Harmless s es →
      Throughout step (fun t => t.cfg.identity = s.cfg.identity) s es) ∧
    ∀ key value host, (exec step s [.configSet key value, .restart host]).cfg.identity =
      s.cfg.identity ↔ s.Harmless (.configSet key value) := by
  constructor
  · intro es hes
    have hstart : s.Kept s.cfg :=
      ⟨h.plain.safe rfl, fun host => (h.file host).1.safe (h.file host).2⟩
    have hrun := throughout_of_invariant (fun _ _ hs he => Kept.step h.plain hs he) hstart hes
    exact hrun.mono fun t ht => CtcConfig.identity_eq_iff.mpr ht.cfg.identity
  · intro key value host
    cases hset : s.cfg.set key.bytes value.bytes with
    | none =>
      have hstep : s.step (.configSet key value) = s := by simp [step, hset]
      rw [exec, hstep]
      refine iff_of_true (h.file host).2 fun d hd hcopied => ?_
      exact absurd hset (CtcConfig.set_ne_none hd hcopied)
    | some cfg =>
      have hstep : s.step (.configSet key value) = ⟨cfg, some cfg.save⟩ := by simp [step, hset]
      rw [exec, hstep]
      exact h.plain.load_set_iff hset host

def webHost : ConfigHost where
  hostname := some (bufferOf 127 (lit "web1"))
  primaryIpv4 := none

def webConfig : CtcConfig :=
  { CtcConfig.defaults webHost with token := bufferOf 255 (lit "secret"), useTls := 1 }

theorem webConfig_plain : webConfig.Plain where
  agentId := by decide +kernel
  token := by decide +kernel
  lines k _ := by cases k <;> decide +kernel

theorem web_identity_kept : let s : Deployed := ⟨webConfig, some webConfig.save⟩
    (∀ es, Along step Harmless s es →
      Throughout step (fun t => t.cfg.identity = s.cfg.identity) s es) ∧
    ∀ key value host, (exec step s [.configSet key value, .restart host]).cfg.identity =
      s.cfg.identity ↔ s.Harmless (.configSet key value) :=
  identity_kept ⟨webConfig, some webConfig.save⟩ (settled_of_plain webConfig_plain)

/-- A fingerprint with lines of its own. -/
theorem fingerprint_brings_in_settings : let s : Deployed := ⟨webConfig, some webConfig.save⟩
    let key : CString 64 := bufferOf 63 (lit "server_fingerprint")
    let value : CString 256 :=
      bufferOf 255 (lit "f\nagent_id=evil\ntoken=x\nuse_tls=0\ntls_skip_verify=1")
    let payload := lit "\x7b\"key\":\"server_fingerprint\",\"value\":\"f\\nagent_id=evil" ++
      lit "\\ntoken=x\\nuse_tls=0\\ntls_skip_verify=1\"\x7d"
    (configSetArgs (some payload)).toOption = some (some (key.bytes, value.bytes)) ∧
      s.cfg.identity = (lit "web1", lit "secret", 1, 0) ∧
      (exec step s [.configSet key value, .restart webHost]).cfg.identity =
        (lit "evil", lit "x", 0, 1) := by
  intro s key value payload
  dsimp only [s, key, value, payload]
  repeat rw [lit_ofList]
  decide +kernel

end Deployed

end CtForge.Agent
