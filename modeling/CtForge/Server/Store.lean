import Mathlib.Data.Rat.Init
import Mathlib.Logic.Function.Basic

/-!
# The host store of the server (`store.go`, `persist.go`)

The store keeps a record for every host that registered, was discovered on the
LAN or was loaded from disk, the metric series and the logs of the hosts, the
uninstall requests, and the tombstones of the hosts an administrator removed.

A Go map is a function to `Option`, and a record that is reached through a
pointer is replaced in the map. Every function below is one critical section:
`Register`, `Discover` and `Load` look at the tombstones in a section of their
own before they write, and `RemoveAgent` deletes and tombstones in two. The
clock is read once in a section, in nanoseconds since 1970.
-/

namespace CtForge.Server

abbrev Id := String

abbrev Time := Int

/-- `time.Time{}`, the zero time of Go. -/
def zeroTime : Time := -62135596800 * 1000000000

def unixMilli (t : Time) : Int := t / 1000000

def unixSeconds (t : Time) : Int := t / 1000000000

/-- The approval status of a host; only the four words mean something, but the
approvals file may hold any. -/
inductive Approval where
  | unset
  | pending
  | approved
  | rejected
  | other (text : String)
  deriving DecidableEq, Repr

structure HeartbeatPayload where
  timestamp : Int
  uptimeSec : Nat
  load1 : ℚ
  memPercent : ℚ
  diskPercent : ℚ
  deriving DecidableEq

structure MetricsPayload where
  timestamp : Int
  uptimeSec : Nat
  cpuPercent : ℚ
  load1 : ℚ
  load5 : ℚ
  load15 : ℚ
  memTotalKB : Nat
  memUsedKB : Nat
  memPercent : ℚ
  swapTotalKB : Nat
  swapUsedKB : Nat
  diskTotalKB : Nat
  diskUsedKB : Nat
  diskPercent : ℚ
  procs : Int
  deriving DecidableEq

structure Alert where
  id : String
  agentId : Id
  kind : String
  level : String
  title : String
  detail : String
  createdAt : Int
  resolved : Bool
  resolvedAt : Int
  deriving DecidableEq

structure Agent where
  agentId : Id
  name : String := ""
  hostname : String := ""
  remark : String := ""
  ip : String := ""
  os : String := ""
  arch : String := ""
  version : String := ""
  online : Bool := false
  lastSeen : Time := zeroTime
  lastHB : Option HeartbeatPayload := none
  lastMetric : Option MetricsPayload := none
  discovered : Bool := false
  approval : Approval := .unset
  osVersion : String := ""
  kernel : String := ""
  diskTotalKB : Nat := 0
  diskUsedKB : Nat := 0
  diskPercent : ℚ := 0
  boundServerId : String := ""
  approvedAt : Int := 0
  onlineAt : Int := 0
  offlineAt : Int := 0
  offlineCount : Nat := 0
  alerts : List Alert := []
  hbHistory : List Int := []
  latencyMs : ℚ := 0
  latencyHist : List ℚ := []
  lastPingAt : Int := 0
  ctforgeState : String := ""
  ctforgeMessage : String := ""
  ctforgeAt : Int := 0
  deriving DecidableEq

structure MetricPoint where
  timestamp : Int
  cpu : ℚ
  mem : ℚ
  disk : ℚ
  load1 : ℚ
  deriving DecidableEq

structure LogEntry where
  timestamp : Int
  level : String
  message : String
  deriving DecidableEq

structure UninstallRequest where
  agentId : Id
  hostname : String
  reason : String
  atMs : Int
  approved : Bool := false
  decidedAt : Int := 0
  decidedBy : String := ""
  deriving DecidableEq

structure PersistRecord where
  agentId : Id
  approval : Approval
  remark : String := ""
  boundServerId : String := ""
  approvedAt : Int := 0
  offlineCount : Nat := 0
  osVersion : String := ""
  kernel : String := ""
  diskTotalKB : Nat := 0
  diskUsedKB : Nat := 0
  diskPercent : ℚ := 0
  deriving DecidableEq

structure Store where
  agents : Id → Option Agent
  series : Id → Option (List MetricPoint)
  logs : Id → Option (List LogEntry)
  uninstallReq : Id → Option UninstallRequest
  tombstones : Id → Bool

/-- `New(dataDir)`, where the tombstone file of the directory lists `ids`. -/
def Store.new (ids : List Id) : Store where
  agents := fun _ => none
  series := fun _ => none
  logs := fun _ => none
  uninstallReq := fun _ => none
  tombstones := fun id => ids.contains id

def maxMetricPoints : Nat := 240

def maxLogEntries : Nat := 500

/-- The last `n` elements, as the appending functions keep them. -/
def lastN {α : Type} (n : Nat) (xs : List α) : List α := xs.drop (xs.length - n)

namespace Store

/-! ## Reading -/

def isTombstoned (s : Store) (id : Id) : Bool := s.tombstones id

def getAgent (s : Store) (id : Id) : Option Agent := s.agents id

def approvalOf (s : Store) (id : Id) : Approval :=
  match s.agents id with
  | some a => a.approval
  | none => .unset

def getUninstallRequest (s : Store) (id : Id) : Option UninstallRequest := s.uninstallReq id

/-! ## Records that come in -/

def putAgent (s : Store) (id : Id) (a : Agent) : Store :=
  { s with agents := Function.update s.agents id (some a) }

/-- What `Register` keeps of the record it replaces. -/
def keepStable (old a : Agent) : Agent :=
  let a := { a with
    lastMetric := old.lastMetric
    lastHB := old.lastHB
    approval := old.approval
    boundServerId := old.boundServerId
    approvedAt := old.approvedAt
    offlineCount := old.offlineCount
    alerts := old.alerts }
  if old.osVersion ≠ "" ∧ a.osVersion = "" then
    { a with
      osVersion := old.osVersion
      kernel := old.kernel
      diskTotalKB := old.diskTotalKB
      diskUsedKB := old.diskUsedKB
      diskPercent := old.diskPercent }
  else a

/-- The record that `Register` leaves for a host with the record `old?`. -/
def registered (old? : Option Agent) (a : Agent) (now : Time) : Agent :=
  let a := match old? with
    | some old => keepStable old a
    | none => a
  { a with online := true, onlineAt := unixMilli now, discovered := false, lastSeen := now }

/-- `Register`, past the tombstone check. -/
def register (s : Store) (a : Agent) (now : Time) : Store :=
  s.putAgent a.agentId (registered (s.agents a.agentId) a now)

/-- What `Discover` takes over into the record of a host that is offline. -/
def refresh (old a : Agent) (now : Time) : Agent :=
  { old with
    ip := if a.ip ≠ "" then a.ip else old.ip
    os := if a.os ≠ "" then a.os else old.os
    osVersion := if a.osVersion ≠ "" ∧ old.osVersion = "" then a.osVersion else old.osVersion
    kernel := if a.kernel ≠ "" ∧ old.kernel = "" then a.kernel else old.kernel
    arch := if a.arch ≠ "" then a.arch else old.arch
    version := if a.version ≠ "" then a.version else old.version
    diskPercent := if 0 < a.diskPercent then a.diskPercent else old.diskPercent
    discovered := if old.approval ≠ .approved then true else old.discovered
    approval := if old.approval = .unset then .pending else old.approval
    lastSeen := now }

/-- `Discover`, past the tombstone check. -/
def discover (s : Store) (a : Agent) (now : Time) : Store :=
  match s.agents a.agentId with
  | some old => if old.online then s else s.putAgent a.agentId (refresh old a now)
  | none =>
    s.putAgent a.agentId { a with
      online := false
      discovered := true
      lastSeen := now
      approval := if a.approval = .unset then .pending else a.approval }

def restored (old? : Option Agent) (r : PersistRecord) : Agent :=
  let a := match old? with
    | some a => a
    | none => { agentId := r.agentId }
  let a := { a with
    approval := r.approval
    remark := r.remark
    boundServerId := r.boundServerId
    approvedAt := r.approvedAt
    offlineCount := r.offlineCount }
  if r.osVersion ≠ "" then
    { a with
      osVersion := r.osVersion
      kernel := r.kernel
      diskTotalKB := r.diskTotalKB
      diskUsedKB := r.diskUsedKB
      diskPercent := r.diskPercent }
  else a

/-- One record of `Load`, past the tombstone check. -/
def loadRecord (s : Store) (r : PersistRecord) : Store :=
  s.putAgent r.agentId (restored (s.agents r.agentId) r)

/-! ## Changes to one record -/

/-- What the functions that change one field of a record share: a host that has
no record is left alone. -/
def withAgent (s : Store) (id : Id) (f : Agent → Agent) : Store :=
  match s.agents id with
  | some a => s.putAgent id (f a)
  | none => s

def setOnline (s : Store) (id : Id) (online : Bool) (now : Time) : Store :=
  s.withAgent id fun a => { a with online := online, lastSeen := now }

def updateHeartbeat (s : Store) (id : Id) (hb : HeartbeatPayload) (now : Time) : Store :=
  s.withAgent id fun a => { a with
    lastHB := some hb
    lastSeen := now
    online := true
    hbHistory := lastN 60 (a.hbHistory ++ [unixMilli now]) }

def recordLatency (s : Store) (id : Id) (ms : ℚ) (now : Time) : Store :=
  s.withAgent id fun a => { a with
    latencyMs := ms
    lastPingAt := unixMilli now
    latencyHist := lastN 60 (a.latencyHist ++ [ms]) }

def updateCtforgeDaemon (s : Store) (id : Id) (state message : String) (now : Time) : Store :=
  s.withAgent id fun a => { a with
    ctforgeState := state
    ctforgeMessage := message
    ctforgeAt := unixSeconds now }

def setApproval (s : Store) (id : Id) (state : Approval) (serverId : String) (now : Time) :
    Store :=
  s.withAgent id fun a =>
    if state = .approved then
      { a with approval := state, boundServerId := serverId, approvedAt := unixMilli now }
    else { a with approval := state }

def addOfflineEvent (s : Store) (id : Id) (now : Time) : Store :=
  s.withAgent id fun a => { a with
    offlineAt := unixMilli now
    offlineCount := a.offlineCount + 1
    online := false }

/-- `UpdateMetrics`: the record, if there is one, and the series in any case. -/
def updateMetrics (s : Store) (id : Id) (m : MetricsPayload) (now : Time) : Store :=
  let s := s.withAgent id fun a => { a with
    lastMetric := some m
    lastSeen := now
    online := true }
  let p : MetricPoint := ⟨m.timestamp, m.cpuPercent, m.memPercent, m.diskPercent, m.load1⟩
  let arr := (s.series id).getD [] ++ [p]
  { s with series := Function.update s.series id (some (lastN maxMetricPoints arr)) }

def addLog (s : Store) (id : Id) (e : LogEntry) : Store :=
  let arr := (s.logs id).getD [] ++ [e]
  { s with logs := Function.update s.logs id (some (lastN maxLogEntries arr)) }

/-! ## Removal -/

/-- Whether `PruneDiscovered` drops a record. -/
def stale (cutoff : Time) (a : Agent) : Bool := a.discovered && a.lastSeen < cutoff

def pruneDiscovered (s : Store) (timeout now : Time) : Store :=
  { s with agents := fun id => (s.agents id).filter fun a => !stale (now - timeout) a }

/-- The first section of `RemoveAgent`. -/
def removeRecords (s : Store) (id : Id) : Store :=
  { s with
    agents := Function.update s.agents id none
    series := Function.update s.series id none
    logs := Function.update s.logs id none }

/-- The second section of `RemoveAgent`. -/
def tombstone (s : Store) (id : Id) : Store :=
  { s with tombstones := Function.update s.tombstones id true }

/-! ## Uninstall requests -/

def addUninstallRequest (s : Store) (r : UninstallRequest) : Store :=
  { s with uninstallReq := Function.update s.uninstallReq r.agentId (some r) }

def decideUninstall (s : Store) (id : Id) (approved : Bool) (decidedBy : String) (now : Time) :
    Store :=
  match s.uninstallReq id with
  | some r =>
    let r := { r with approved := approved, decidedAt := unixMilli now, decidedBy := decidedBy }
    { s with uninstallReq := Function.update s.uninstallReq id (some r) }
  | none => s

/-! ## What becomes of one host's record -/

section Records

variable (s : Store) (id : Id) (now : Time)

theorem putAgent_agents (key : Id) (a : Agent) :
    (s.putAgent key a).agents id = if id = key then some a else s.agents id :=
  Function.update_apply ..

theorem register_agents (a : Agent) : (s.register a now).agents id =
    if id = a.agentId then some (registered (s.agents id) a now) else s.agents id := by
  rw [register, putAgent_agents]
  split <;> simp_all

theorem loadRecord_agents (r : PersistRecord) : (s.loadRecord r).agents id =
    if id = r.agentId then some (restored (s.agents id) r) else s.agents id := by
  rw [loadRecord, putAgent_agents]
  split <;> simp_all

theorem withAgent_agents (key : Id) (f : Agent → Agent) : (s.withAgent key f).agents id =
    if id = key then (s.agents id).map f else s.agents id := by
  unfold withAgent
  split
  · rename_i a h
    rw [putAgent_agents]
    split <;> simp_all
  · split <;> simp_all

theorem discover_agents_of_ne {a : Agent} (h : id ≠ a.agentId) :
    (s.discover a now).agents id = s.agents id := by
  unfold discover
  split
  · split
    · rfl
    · rw [putAgent_agents, if_neg h]
  · rw [putAgent_agents, if_neg h]

theorem discover_agents_some {a old : Agent} (h : s.agents a.agentId = some old) :
    (s.discover a now).agents a.agentId =
      some (if old.online then old else refresh old a now) := by
  simp only [discover, h]
  split
  · exact h
  · rw [putAgent_agents, if_pos rfl]

theorem discover_agents_none {a : Agent} (h : s.agents a.agentId = none) :
    (s.discover a now).agents a.agentId = some { a with
      online := false
      discovered := true
      lastSeen := now
      approval := if a.approval = .unset then .pending else a.approval } := by
  simp only [discover, h]
  rw [putAgent_agents, if_pos rfl]

theorem updateMetrics_agents (key : Id) (m : MetricsPayload) :
    (s.updateMetrics key m now).agents id =
      if id = key then
        (s.agents id).map fun a => { a with lastMetric := some m, lastSeen := now, online := true }
      else s.agents id :=
  withAgent_agents ..

end Records

@[simp] theorem registered_discovered (old? : Option Agent) (a : Agent) (now : Time) :
    (registered old? a now).discovered = false := rfl

@[simp] theorem registered_some_approval (old a : Agent) (now : Time) :
    (registered (some old) a now).approval = old.approval := by
  simp only [registered, keepStable]
  split <;> rfl

@[simp] theorem registered_none_approval (a : Agent) (now : Time) :
    (registered none a now).approval = a.approval := rfl

@[simp] theorem refresh_online (old a : Agent) (now : Time) :
    (refresh old a now).online = old.online := rfl

@[simp] theorem restored_approval (old? : Option Agent) (r : PersistRecord) :
    (restored old? r).approval = r.approval := by
  simp only [restored]
  split <;> rfl

theorem restored_some_discovered (old : Agent) (r : PersistRecord) :
    (restored (some old) r).discovered = old.discovered := by
  simp only [restored]
  split <;> rfl

theorem restored_some_online (old : Agent) (r : PersistRecord) :
    (restored (some old) r).online = old.online := by
  simp only [restored]
  split <;> rfl

theorem restored_none_online (r : PersistRecord) : (restored none r).online = false := by
  simp only [restored]
  split <;> rfl

end Store

end CtForge.Server
