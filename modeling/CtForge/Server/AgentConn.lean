import CtForge.Server.Store

/-!
# Agent connections (`agentconn.go`, `discover.go`) over the store

Every goroutine that calls into the store is a task: an agent connection served
by `Handle`, a discovery packet, a removal, a `Load` of the approvals file. A
task stands before its next critical section; `Task.move` is what that section
writes, where the goroutine stands after it and what it answers meanwhile.

The tasks of one connection follow `Handle`: a `handshake_req` reads
(`ApprovalOf`, `GetAgent`), decides and writes (`Register`, `SetApproval`); a
`register` checks the approval, registers, enters the session table and is then
served until its connection ends, when the deferred cleanup takes it out again.
The message ID that an answer repeats is left out.
-/

namespace CtForge.Server

abbrev Tid := Nat

structure HandshakeReqPayload where
  agentId : String
  name : String := ""
  hostname : String := ""
  ip : String := ""
  os : String := ""
  osVersion : String := ""
  kernel : String := ""
  arch : String := ""
  version : String := ""
  diskTotalKB : Nat := 0
  diskUsedKB : Nat := 0
  diskPercent : ℚ := 0

structure RegisterPayload where
  agentId : String
  name : String := ""
  hostname : String := ""
  ip : String := ""
  os : String := ""
  arch : String := ""
  version : String := ""

structure DiscoverPayload where
  agentId : String
  name : String := ""
  hostname : String := ""
  ip : String := ""
  os : String := ""
  osVersion : String := ""
  kernel : String := ""
  arch : String := ""
  version : String := ""
  diskPercent : ℚ := 0

structure UninstallReqPayload where
  agentId : String
  hostname : String := ""
  reason : String := ""

structure HandshakeAckPayload where
  approved : Bool
  serverId : String := ""
  serverName : String := ""
  serverIp : String := ""
  serverPort : Int := 0
  message : String
  deriving DecidableEq

inductive Hello where
  | handshakeReq (token : String) (req : HandshakeReqPayload)
  | uninstallReq (token : String) (req : UninstallReqPayload)
  | register (token : String) (reg : RegisterPayload)

/-- A frame of a registered connection. `other` stands for the types that do not
reach the store and for payloads that do not decode. -/
inductive Message where
  | heartbeat (hb : HeartbeatPayload)
  | metrics (m : MetricsPayload)
  | log (e : LogEntry)
  | pong (timestamp : Int)
  | ctfDaemon (state message : String)
  | offline
  | other

inductive Reply where
  | error (text : String)
  | pendingApproval (serverId serverName message : String)
  | ack (ok : Bool) (message : String)
  | handshakeAck (p : HandshakeAckPayload)
  | uninstallAck (approved : Bool) (message : String)
  deriving DecidableEq

/-- What `NewServer` and `SetIdentity` set. -/
structure Identity where
  token : String
  serverId : String
  serverName : String := ""
  serverIp : String := ""
  serverPort : Int := 0

inductive Task where
  | idle
  -- handleHandshake
  | hsApprovalOf (req : HandshakeReqPayload)
  | hsGetAgent (req : HandshakeReqPayload) (state : Approval)
  | hsIsTombstoned (req : HandshakeReqPayload) (existing : Option Agent) (state : Approval)
  | hsRegister (req : HandshakeReqPayload) (existing : Option Agent) (state : Approval)
  | hsSetApproval (id : Id)
  -- Handle, from the approval check on, and its deferred cleanup
  | regApprovalOf (reg : RegisterPayload)
  | regIsTombstoned (reg : RegisterPayload)
  | regRegister (reg : RegisterPayload)
  | regSession (id : Id)
  | serving (id : Id)
  | dispatching (id : Id) (m : Message)
  | endSession (id : Id)
  | endSetOnline (id : Id)
  | endOffline (id : Id)
  -- handlePacket
  | discIsTombstoned (d : DiscoverPayload)
  | discStore (d : DiscoverPayload)
  -- handleUninstallReq and handleRemoteUninstall
  | unGet (req : UninstallReqPayload)
  | unAdd (req : UninstallReqPayload)
  | ruDecide (id : Id) (username : String)
  -- the deletion of a host and RemoveAgent
  | rmCheck (id : Id)
  | rmDelete (id : Id)
  | rmTombstone (id : Id)
  -- Load
  | load (rs : List PersistRecord)
  | loadStore (r : PersistRecord) (rs : List PersistRecord)
  | finished

/-! ## The agent records the handlers build -/

def registerAgent (reg : RegisterPayload) : Agent where
  agentId := reg.agentId
  name := reg.name
  hostname := reg.hostname
  ip := reg.ip
  os := reg.os
  arch := reg.arch
  version := reg.version

def discoverAgent (d : DiscoverPayload) : Agent where
  agentId := d.agentId
  name := d.name
  hostname := d.hostname
  ip := d.ip
  os := d.os
  osVersion := d.osVersion
  kernel := d.kernel
  arch := d.arch
  version := d.version
  diskPercent := d.diskPercent

def carryOver (a : Agent) : Option Agent → Agent
  | some e => { a with
      online := e.online
      lastSeen := e.lastSeen
      lastHB := e.lastHB
      lastMetric := e.lastMetric
      offlineCount := e.offlineCount
      alerts := e.alerts }
  | none => a

def handshakeAgent (srv : Identity) (req : HandshakeReqPayload) (existing : Option Agent)
    (state : Approval) : Agent :=
  let a := carryOver {
    agentId := req.agentId
    name := req.name
    hostname := req.hostname
    ip := req.ip
    os := req.os
    arch := req.arch
    version := req.version
    osVersion := req.osVersion
    kernel := req.kernel
    diskTotalKB := req.diskTotalKB
    diskUsedKB := req.diskUsedKB
    diskPercent := req.diskPercent } existing
  match state with
  | .approved => { a with approval := .approved, boundServerId := srv.serverId }
  | .rejected => { a with approval := .rejected }
  | _ => { a with approval := .pending, online := false }

theorem carryOver_agentId (a : Agent) (existing : Option Agent) :
    (carryOver a existing).agentId = a.agentId := by
  cases existing <;> rfl

@[simp] theorem handshakeAgent_agentId (srv : Identity) (req : HandshakeReqPayload)
    (existing : Option Agent) (state : Approval) :
    (handshakeAgent srv req existing state).agentId = req.agentId := by
  cases state <;> exact carryOver_agentId _ existing

theorem handshakeAgent_approval_ne (srv : Identity) (req : HandshakeReqPayload)
    (existing : Option Agent) {state : Approval} (h : state ≠ .approved) :
    (handshakeAgent srv req existing state).approval ≠ .approved := by
  cases state <;> simp_all [handshakeAgent]

/-! ## The handlers, section by section -/

structure Move where
  store : Store
  next : Task
  replies : List Reply := []

def handshakeAck (srv : Identity) (approved : Bool) (message : String) : Reply :=
  .handshakeAck {
    approved := approved
    serverId := srv.serverId
    serverName := srv.serverName
    serverIp := srv.serverIp
    serverPort := srv.serverPort
    message := message }

/-- The approvals that a handshake answers with `SetApproval("pending")`. -/
def Approval.undecided : Approval → Bool
  | .approved | .rejected => false
  | _ => true

/-- `handleHandshake` after its `Register`, whether that wrote or not. -/
def afterRegister (srv : Identity) (st : Store) (id : Id) : Approval → Move
  | .approved => ⟨st, .finished, [handshakeAck srv true "approved"]⟩
  | .rejected => ⟨st, .finished, [handshakeAck srv false "rejected by administrator"]⟩
  | _ => ⟨st, .hsSetApproval id, []⟩

/-- The store section of `dispatch`. -/
def dispatch (st : Store) (id : Id) (now : Time) : Message → Store
  | .heartbeat hb => st.updateHeartbeat id hb now
  | .metrics m => st.updateMetrics id m now
  | .log e => st.addLog id e
  | .pong timestamp =>
    if 0 < timestamp then st.recordLatency id (unixMilli now - timestamp : Int) now else st
  | .ctfDaemon state message => st.updateCtforgeDaemon id state message now
  | .offline => st.addOfflineEvent id now
  | .other => st

def boundElsewhere (srv : Identity) : Option Agent → Bool
  | some existing => existing.boundServerId != "" && existing.boundServerId != srv.serverId
  | none => false

namespace Task

/-- The next section of a task. The sections on the session table and the end of
`Load`, which concern more than the store, are steps of the system; until then
such a task stays where it is. -/
def move (srv : Identity) (st : Store) (now : Time) : Task → Move
  | hsApprovalOf req => ⟨st, hsGetAgent req (st.approvalOf req.agentId), []⟩
  | hsGetAgent req state =>
    let existing := st.getAgent req.agentId
    if boundElsewhere srv existing then
      ⟨st, finished, [handshakeAck srv false "already bound to another server"]⟩
    else ⟨st, hsIsTombstoned req existing state, []⟩
  | hsIsTombstoned req existing state =>
    if st.isTombstoned req.agentId then afterRegister srv st req.agentId state
    else ⟨st, hsRegister req existing state, []⟩
  | hsRegister req existing state =>
    afterRegister srv (st.register (handshakeAgent srv req existing state) now) req.agentId state
  | hsSetApproval id =>
    ⟨st.setApproval id .pending "" now, finished,
      [handshakeAck srv false "pending approval from administrator"]⟩
  | regApprovalOf reg =>
    match st.approvalOf reg.agentId with
    | .rejected => ⟨st, finished, [.error "rejected by administrator"]⟩
    | .approved => ⟨st, regIsTombstoned reg, []⟩
    | _ => ⟨st, finished, [.pendingApproval srv.serverId srv.serverName
        "pending approval from administrator"]⟩
  | regIsTombstoned reg =>
    if st.isTombstoned reg.agentId then ⟨st, regSession reg.agentId, []⟩
    else ⟨st, regRegister reg, []⟩
  | regRegister reg => ⟨st.register (registerAgent reg) now, regSession reg.agentId, []⟩
  | dispatching id m => ⟨dispatch st id now m, serving id, []⟩
  | endSetOnline id => ⟨st.setOnline id false now, endOffline id, []⟩
  | endOffline id => ⟨st.addOfflineEvent id now, finished, []⟩
  | discIsTombstoned d =>
    if st.isTombstoned d.agentId then ⟨st, finished, []⟩ else ⟨st, discStore d, []⟩
  | discStore d => ⟨st.discover (discoverAgent d) now, finished, []⟩
  | unGet req =>
    match st.getUninstallRequest req.agentId with
    | none => ⟨st, unAdd req, []⟩
    | some existing =>
      if existing.decidedAt = 0 then ⟨st, unAdd req, []⟩
      else if existing.approved then
        ⟨st, rmDelete req.agentId, [.uninstallAck true "approved, you may uninstall"]⟩
      else ⟨st, finished, [.uninstallAck false "rejected by administrator"]⟩
  | unAdd req =>
    ⟨st.addUninstallRequest {
        agentId := req.agentId
        hostname := req.hostname
        reason := req.reason
        atMs := unixMilli now },
      finished, [.uninstallAck false "waiting for administrator approval in console"]⟩
  | ruDecide id username => ⟨st.decideUninstall id true username now, rmDelete id, []⟩
  | rmCheck id =>
    match st.getAgent id with
    | some a => if a.online then ⟨st, finished, []⟩ else ⟨st, rmDelete id, []⟩
    | none => ⟨st, finished, []⟩
  | rmDelete id => ⟨st.removeRecords id, rmTombstone id, []⟩
  | rmTombstone id => ⟨st.tombstone id, finished, []⟩
  | load (r :: rs) =>
    if st.isTombstoned r.agentId then ⟨st, load rs, []⟩ else ⟨st, loadStore r rs, []⟩
  | loadStore r rs => ⟨st.loadRecord r, load rs, []⟩
  | task => ⟨st, task, []⟩

/-- The sections that take `agentsMu`. `UpdateMetrics` and `AddLog` take other
locks, though the first writes a record too. -/
def locksAgents : Task → Bool
  | hsApprovalOf _ | hsGetAgent .. | hsRegister .. | hsSetApproval _ => true
  | regApprovalOf _ | regRegister _ | endSetOnline _ | endOffline _ => true
  | dispatching _ (.metrics _) | dispatching _ (.log _) | dispatching _ .other => false
  | dispatching .. => true
  | discStore _ | rmCheck _ | rmDelete _ => true
  | _ => false

end Task

/-! ## Where connections and packets begin -/

def orDefault (field default : String) : String := if field = "" then default else field

/-- `Handle` up to its first critical section; `ip` is the remote address. -/
def greet (srv : Identity) (ip : String) : Option Hello → Task × List Reply
  | none => (.finished, [])
  | some (.handshakeReq token req) =>
    let id := orDefault req.agentId req.hostname
    if srv.token ≠ "" ∧ token ≠ srv.token then
      (.finished, [.handshakeAck { approved := false, message := "invalid token" }])
    else if id = "" then (.finished, [])
    else (.hsApprovalOf { req with agentId := id, ip := orDefault req.ip ip }, [])
  | some (.uninstallReq token req) =>
    if srv.token ≠ "" ∧ token ≠ srv.token then
      (.finished, [.uninstallAck false "invalid token"])
    else (.unGet req, [])
  | some (.register token reg) =>
    let id := orDefault reg.agentId reg.hostname
    if srv.token ≠ "" ∧ token ≠ srv.token then (.finished, [.error "unauthorized"])
    else if id = "" then (.finished, [.error "missing agent_id"])
    else (.regApprovalOf { reg with agentId := id, ip := orDefault reg.ip ip }, [])

/-- `handlePacket` on a beacon that decodes, up to its first critical section. -/
def beacon (ip : String) (d : DiscoverPayload) : Task :=
  let id := orDefault d.agentId d.hostname
  if id = "" then .finished
  else .discIsTombstoned { d with agentId := id, ip := orDefault d.ip ip }

end CtForge.Server
