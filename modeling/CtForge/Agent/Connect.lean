import CtForge.Agent.Tls
import CtForge.Lib.Prog

/-!
# How the agent reaches its server (`agent.c`, `binding.c`)

`ctc_conn_run` repeats one round: an agent that is not approved looks for a
server with a handshake (`ctc_scan_server`); an approved one connects
(`connect_server`), registers (`do_register`) and serves the connection until
it is lost. The register frame and the handshake frame both carry the agent's
token.

The network is a function from the number of a connection attempt to everything
that can happen in it. The state of the agent is its configuration, the table
of TLS connections, and a log of what it dialled and wrote.
-/

namespace CtForge.Agent

open CLang

/-- The fields of `ctc_config` that the functions below read or write. -/
structure Config where
  serverHost : Bytes
  serverHosts : Bytes
  serverPort : Int
  agentId : Bytes
  name : Bytes
  token : Bytes
  useTls : Bool
  tlsSkipVerify : Bool
  serverFingerprint : Bytes
  boundServerId : Bytes
  boundServerIp : Bytes
  boundServerPort : Int
  approved : Bool
  deriving DecidableEq, Repr

/-- The fingerprint argument of `ctc_tls_wrap`: null for an empty setting. -/
def Config.fingerprint (cfg : Config) : Option Bytes :=
  if cfg.serverFingerprint = [] then none else some cfg.serverFingerprint

/-- What `getaddrinfo`, `socket` and `connect` give for a host: `none` is a
failed lookup, and otherwise each address has a descriptor, or none, and tells
whether the connection is made. -/
abbrev Lookup := Option (List (Option Nat × Bool))

/-- What the server answers, as `ctc_recv` and `ctc_json_get_*` read it: the
type of the message and, where there is a payload, its `approved`, `server_id`
and `server_ip`. -/
structure Answer where
  type : Bytes
  payload : Option (Bool × Bytes × Bytes)
  deriving DecidableEq, Repr

/-- Everything that can happen in one connection attempt. `tcp` and `retry` are
the two lookups of `connect_host_with_tls`, `socket` is the connection of
`try_connect_handshake`; the two counts are what the writes of a frame return,
and `clock` is the time printed into it. -/
structure Attempt where
  tcp : Lookup
  socket : Option Nat
  handshake : Handshake
  retry : Lookup
  lenWritten : Int
  bodyWritten : Int
  answer : Option Answer
  clock : Bytes
  deriving Repr

structure Host where
  nodename : Bytes
  sysname : Bytes
  machine : Bytes
  osVersion : Bytes
  kernel : Bytes
  diskTotalKb : Bytes
  diskUsedKb : Bytes
  diskPercent : Bytes

inductive FrameKind where
  | register
  | handshake
  deriving DecidableEq, Repr

/-- A call of `ctc_tls_write`: the configuration at the time, and the TLS
connection the bytes go through, if there is one. -/
structure Write where
  cfg : Config
  kind : FrameKind
  ssl : Option Ssl
  bytes : Bytes
  deriving DecidableEq, Repr

inductive Event where
  | dial (cfg : Config) (host : Bytes) (attempt : Nat)
  | probe (cfg : Config) (host : Bytes) (port : Int) (attempt : Nat)
  | write (w : Write)
  deriving DecidableEq, Repr

structure State where
  cfg : Config
  tls : TlsMap
  attempts : Nat
  log : List Event

def State.start (cfg : Config) : State := ⟨cfg, .empty, 0, []⟩

namespace State

def emit (s : State) (e : Event) : State := { s with log := s.log ++ [e] }

def attempt (s : State) (e : Event) : State :=
  { s with attempts := s.attempts + 1, log := s.log ++ [e] }

def setCfg (s : State) (f : Config → Config) : State := { s with cfg := f s.cfg }

def cleanup (s : State) (fd : Nat) : State := { s with tls := s.tls.cleanup fd }

end State

variable (env : TlsEnv) (net : Nat → Attempt) (host : Host)

/-! ## Connecting -/

/-- `connect_host`: the first address that takes the connection. -/
def connectHost (l : Lookup) : Option Nat :=
  l.bind fun addrs => addrs.findSome? fun a => if a.2 then a.1 else none

/-- The TLS upgrade of a new socket, where the configuration asks for it; whether
the socket can be used. -/
def upgrade (fd : Nat) (h : Handshake) : Prog State Bool := do
  let s ← Prog.get
  if s.cfg.useTls = false then pure true
  else do
    let (rc, tls) ← Prog.call (ctcTlsWrap env s.tls fd s.cfg.fingerprint h)
    Prog.modify fun s => { s with tls := tls }
    pure (decide (0 ≤ rc))

/-- `connect_host_with_tls`: when the TLS handshake fails, the host is connected
again and the new socket is returned as it is. -/
def connectHostWithTls (name : Bytes) : Prog State (Option Nat) := do
  let s ← Prog.get
  let a := net s.attempts
  Prog.modify fun s => s.attempt (.dial s.cfg name s.attempts)
  match connectHost a.tcp with
  | none => pure none
  | some fd => do
    let wrapped ← upgrade env fd a.handshake
    if wrapped then pure (some fd) else pure (connectHost a.retry)

def isBlank (c : UInt8) : Bool := c = 32 || c = 9

def trim (s : Bytes) : Bytes := ((s.dropWhile isBlank).reverse.dropWhile isBlank).reverse

def hostList (hosts : Bytes) : List Bytes :=
  ((strtok (· = 44) (hosts.take 511)).map trim).filter (· ≠ [])

def connectHosts : List Bytes → Prog State (Option Nat)
  | [] => pure none
  | name :: names => do
    match ← connectHostWithTls env net name with
    | some fd => pure (some fd)
    | none => connectHosts names

/-- `connect_server`. -/
def connectServer : Prog State (Option Nat) := do
  let s ← Prog.get
  if s.cfg.serverHosts.contains 44 then connectHosts env net (hostList s.cfg.serverHosts)
  else connectHostWithTls env net s.cfg.serverHost

/-! ## The frames with the token -/

/-- `CTC_VERSION`. -/
def version : Bytes := lit "0.2.0"

def registerPayload (cfg : Config) : Bytes :=
  snprintf 1024 (lit "\x7b\"agent_id\":\"" ++ cfg.agentId ++ lit "\",\"name\":\"" ++ cfg.name ++
    lit "\",\"hostname\":\"" ++ host.nodename ++ lit "\",\"os\":\"" ++ host.sysname ++
    lit "\",\"arch\":\"" ++ host.machine ++ lit "\",\"version\":\"" ++ version ++ lit "\"\x7d")

def registerFrame (cfg : Config) (clock : Bytes) : Bytes :=
  snprintf 1400 (lit "\x7b\"id\":\"reg-" ++ clock ++
    lit "\",\"type\":\"register\",\"version\":1,\"token\":\"" ++ cfg.token ++
    lit "\",\"payload\":" ++ registerPayload host cfg ++ lit "\x7d")

def handshakePayload (cfg : Config) (boundServerId : Bytes) : Bytes :=
  snprintf 1536 (lit "\x7b\"agent_id\":\"" ++ cfg.agentId ++ lit "\",\"name\":\"" ++ cfg.name ++
    lit "\",\"hostname\":\"" ++ host.nodename ++ lit "\",\"os\":\"" ++ host.sysname ++
    lit "\",\"os_version\":\"" ++ host.osVersion ++ lit "\",\"kernel\":\"" ++ host.kernel ++
    lit "\",\"arch\":\"" ++ host.machine ++ lit "\",\"version\":\"" ++ version ++
    lit "\",\"disk_total_kb\":" ++ host.diskTotalKb ++ lit ",\"disk_used_kb\":" ++
    host.diskUsedKb ++ lit ",\"disk_percent\":" ++ host.diskPercent ++
    lit ",\"bound_server_id\":\"" ++ boundServerId ++ lit "\"\x7d")

def handshakeFrame (cfg : Config) (boundServerId clock : Bytes) : Bytes :=
  snprintf 2048 (lit "\x7b\"id\":\"hs-" ++ clock ++
    lit "\",\"type\":\"handshake_req\",\"version\":1,\"token\":\"" ++ cfg.token ++
    lit "\",\"payload\":" ++ handshakePayload host cfg boundServerId ++ lit "\x7d")

/-- `htonl`. -/
def be32 (n : Nat) : Bytes :=
  [UInt8.ofNat (n >>> 24), UInt8.ofNat (n >>> 16), UInt8.ofNat (n >>> 8), UInt8.ofNat n]

/-- `ctc_tls_write` of a piece of a frame. -/
def tlsWrite (kind : FrameKind) (fd : Nat) (bytes : Bytes) : Prog State Unit :=
  Prog.modify fun s => s.emit (.write ⟨s.cfg, kind, s.tls.sslOf fd, bytes⟩)

def writeFrame (kind : FrameKind) (fd : Nat) (full : Bytes) (a : Attempt) : Prog State Bool := do
  tlsWrite kind fd (be32 full.length)
  if a.lenWritten ≠ 4 then pure false
  else do
    tlsWrite kind fd full
    pure (a.bodyWritten = full.length)

/-- `do_register`, on the connection of the last attempt. -/
def doRegister (fd : Nat) : Prog State Bool := do
  let s ← Prog.get
  let a := net (s.attempts - 1)
  let sent ← writeFrame .register fd (registerFrame host s.cfg a.clock) a
  if sent = false then pure false
  else
    match a.answer with
    | none => pure false
    | some answer => pure (answer.type = lit "ack")

/-! ## Handshakes -/

/-- `ctc_binding`. -/
structure Binding where
  boundServerId : Bytes := []
  boundServerIp : Bytes := []
  boundServerPort : Int := 0
  approved : Bool := false
  deriving DecidableEq, Repr

/-- How `ctc_handshake` reads the answer: 0 approved, 1 not approved, -1. -/
def readHandshakeAck (cfg : Config) (answer : Answer) : Int × Binding :=
  if answer.type = lit "handshake_ack" then
    match answer.payload with
    | none => (1, {})
    | some (approved, serverId, serverIp) =>
      let sid := snprintf 128 serverId
      let sip := snprintf 64 serverIp
      if approved ∧ sid ≠ [] then
        (0, ⟨sid, snprintf 64 (if sip ≠ [] then sip else cfg.serverHost), cfg.serverPort, true⟩)
      else (1, {})
  else (-1, {})

/-- `ctc_handshake`. -/
def ctcHandshake (fd : Nat) (boundServerId : Bytes) (a : Attempt) :
    Prog State (Int × Binding) := do
  let s ← Prog.get
  let sent ← writeFrame .handshake fd (handshakeFrame host s.cfg boundServerId a.clock) a
  if sent = false then pure (-1, {})
  else
    match a.answer with
    | none => pure (-1, {})
    | some answer => pure (readHandshakeAck s.cfg answer)

/-- `try_connect_handshake`: when the TLS handshake fails, so does the call. -/
def tryConnectHandshake (name : Bytes) (port : Int) (boundServerId : Bytes) :
    Prog State (Int × Binding) := do
  let s ← Prog.get
  let a := net s.attempts
  Prog.modify fun s => s.attempt (.probe s.cfg name port s.attempts)
  match a.socket with
  | none => pure (-1, {})
  | some fd => do
    let wrapped ← upgrade env fd a.handshake
    if wrapped then do
      let result ← ctcHandshake host fd boundServerId a
      Prog.modify fun s => s.cleanup fd
      pure result
    else pure (-1, {})

/-- Whether a bound agent may take this server: an unbound one takes any. -/
def idMatches (cfg : Config) (got : Binding) : Bool :=
  cfg.boundServerId = [] || got.boundServerId = cfg.boundServerId

/-- The loop of `ctc_scan_server` over the configured addresses. -/
def scanHosts : List Bytes → Prog State (Int × Binding)
  | [] => pure (-1, {})
  | name :: names => do
    let s ← Prog.get
    let (rc, got) ← tryConnectHandshake env net host name s.cfg.serverPort s.cfg.boundServerId
    if rc = 0 ∧ idMatches s.cfg got then pure (0, got)
    else if rc = 1 then pure (1, got)
    else scanHosts names

/-- The loop of `ctc_scan_server` over the servers that answered the broadcast. -/
def scanCandidates : List (Bytes × Int) → Bool → Prog State (Int × Binding)
  | [], sawPending => pure (if sawPending then 1 else -1, {})
  | (ip, port) :: cands, sawPending => do
    let s ← Prog.get
    let (rc, got) ← tryConnectHandshake env net host ip port s.cfg.boundServerId
    if rc = 0 ∧ idMatches s.cfg got then do
      Prog.modify fun s => s.setCfg fun cfg =>
        { cfg with serverHost := snprintf 128 ip, serverPort := port }
      pure (0, { got with
        boundServerIp := if got.boundServerIp = [] then snprintf 64 ip else got.boundServerIp })
    else scanCandidates cands (sawPending || rc = 1)

/-- `ctc_scan_server`; `lan` is what `scan_lan` collects. -/
def ctcScanServer (lan : List (Bytes × Int)) : Prog State (Int × Binding) := do
  let s ← Prog.get
  let rest : Prog State (Int × Binding) :=
    if lan = [] then scanHosts env net host (hostList s.cfg.serverHosts)
    else scanCandidates env net host lan false
  if s.cfg.boundServerId ≠ [] ∧ s.cfg.boundServerIp ≠ [] then do
    let port := if 0 < s.cfg.boundServerPort then s.cfg.boundServerPort else s.cfg.serverPort
    let (rc, got) ←
      tryConnectHandshake env net host s.cfg.boundServerIp port s.cfg.boundServerId
    if rc = 0 then
      pure (if got.boundServerId = s.cfg.boundServerId then (0, got) else (-1, {}))
    else if rc = 1 then pure (1, got)
    else rest
  else rest

/-! ## The main loop -/

/-- What a round of `ctc_conn_run` meets: the servers that answer a broadcast,
and what the commands of a session make of the configuration. -/
structure Round where
  lan : List (Bytes × Int)
  session : Config → Config

def adoptBinding (got : Binding) (cfg : Config) : Config :=
  let ip := snprintf 64 (if got.boundServerIp ≠ [] then got.boundServerIp else cfg.serverHost)
  let port := if got.boundServerPort ≠ 0 then got.boundServerPort else cfg.serverPort
  { cfg with
    boundServerId := snprintf 128 got.boundServerId
    boundServerIp := ip
    boundServerPort := port
    approved := true
    serverHost := snprintf 128 ip
    serverPort := port }

def seekApproval (r : Round) : Prog State Bool := do
  let s ← Prog.get
  if s.cfg.approved then pure true
  else do
    let (rc, got) ← ctcScanServer env net host r.lan
    if rc = 0 then do
      Prog.modify fun s => s.setCfg (adoptBinding got)
      pure true
    else pure false

def dropApproval (cfg : Config) : Config := { cfg with approved := false }

def serveConnection (r : Round) : Prog State Unit := do
  match ← connectServer env net with
  | none => Prog.modify fun s => s.setCfg dropApproval
  | some fd =>
    let ok ← doRegister net host fd
    Prog.modify fun s => (s.cleanup fd).setCfg (if ok then r.session else dropApproval)

def connRound (r : Round) : Prog State Unit := do
  let approved ← seekApproval env net host r
  if approved then serveConnection env net host r else pure ()

/-- `ctc_conn_run` for as many rounds as it is given. -/
def ctcConnRun : List Round → Prog State Unit
  | [] => pure ()
  | r :: rounds => do
    connRound env net host r
    ctcConnRun rounds

end CtForge.Agent
