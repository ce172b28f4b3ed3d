import CtForge.Server.Restore

/-!
# The alert engine (`monitor.go`)

Every thirty seconds `check` compares the figures of the approved hosts with its
thresholds. An alert lies in two places: in the record of its host, where it is resolved or
not, and in the map `alerted` of the engine, which keeps a second alert of the same level
away. The engine writes both, an administrator who resolves an alert writes the record only.

The link between the two places is `Engine.InStep`: what the engine remembers about a
threshold is an unresolved alert in the record.
-/

namespace CtForge.Server

open Runs List Function Option Store Bool

/-! ## The alerts of a record -/

def Alert.isOpen (kind : String) (al : Alert) : Bool := al.kind == kind && !al.resolved

def maxAlerts : Nat := 50

/-- The loop of `AddAlert`: the first unresolved alert of the kind takes over what is new. -/
def renewOpen (al : Alert) : List Alert → List Alert
  | [] => []
  | e :: es =>
    if e.isOpen al.kind then
      { e with detail := al.detail, level := al.level, createdAt := al.createdAt } :: es
    else e :: renewOpen al es

/-- The alerts of a record that `AddAlert` leaves. -/
def withAlert (alerts : List Alert) (al : Alert) : List Alert :=
  if alerts.any (Alert.isOpen al.kind) then renewOpen al alerts
  else lastN maxAlerts (alerts ++ [al])

/-- The alerts of a record that `ResolveAlert` leaves. -/
def withResolved (kind : String) (now : Time) (alerts : List Alert) : List Alert :=
  alerts.map fun al =>
    if al.isOpen kind then { al with resolved := true, resolvedAt := unixMilli now } else al

namespace Store

/-- `AddAlert`, which also says whether the alert is a new one. -/
def addAlert (st : Store) (al : Alert) : Store × Bool :=
  (st.withAgent al.agentId fun a => { a with alerts := withAlert a.alerts al },
    (st.agents al.agentId).any fun a => !a.alerts.any (Alert.isOpen al.kind))

def resolveAlert (st : Store) (id : Id) (kind : String) (now : Time) : Store :=
  st.withAgent id fun a => { a with alerts := withResolved kind now a.alerts }

def hasOpen (st : Store) (id : Id) (kind : String) : Bool :=
  (st.agents id).any fun a => a.alerts.any (Alert.isOpen kind)

end Store

/-! ## The engine -/

/-- `NetRxRate` and `NetTxRate` of a record, in bytes per second. -/
structure NetRates where
  rx : ℚ
  tx : ℚ
  deriving DecidableEq

/-- The engine, with the store and the rates of its records. `announced` are the alerts
that go on to the notification rules. -/
structure Engine where
  store : Store
  net : Id → NetRates
  alerted : String → Option String
  announced : List Alert

/-- The title and the detail that `check` writes into an alert of a kind. -/
abbrev AlertTexts := String → Agent → NetRates → Time → String × String

/-- The thresholds of `check`. -/
inductive Threshold where
  | highCpu
  | highMem
  | highDisk
  | netSpike
  deriving DecidableEq, Repr

namespace Threshold

def all : List Threshold := [highCpu, highMem, highDisk, netSpike]

def kind : Threshold → String
  | highCpu => "high_cpu"
  | highMem => "high_mem"
  | highDisk => "high_disk"
  | netSpike => "net_spike"

def level : Threshold → String
  | netSpike => "warning"
  | _ => "critical"

/-- The condition of `check` on the rates. -/
def spikes (r : NetRates) : Bool :=
  50 * 1024 * 1024 < r.rx || 50 * 1024 * 1024 < r.tx

/-- The condition of `check`, on the metrics and the rates of a record. -/
def exceeded (m : MetricsPayload) (r : NetRates) : Threshold → Bool
  | highCpu => 90 ≤ m.cpuPercent
  | highMem => 90 ≤ m.memPercent
  | highDisk => 90 ≤ m.diskPercent
  | netSpike => spikes r

/-- What `check` finds of a record, without metrics on its rates only. -/
def exceededBy (a : Agent) (r : NetRates) (k : Threshold) : Bool :=
  match a.lastMetric with
  | some m => k.exceeded m r
  | none => k == netSpike && spikes r

theorem kind_inj {k k' : Threshold} (h : k.kind = k'.kind) : k = k' := by
  cases k <;> cases k' <;> first | rfl | exact absurd h (by decide)

theorem kind_plain (k : Threshold) : '|' ∉ k.kind.toList := by cases k <;> decide

theorem kind_ne_offline (k : Threshold) : k.kind ≠ "offline" := by cases k <;> decide

end Threshold

/-- An unresolved alert of one of the thresholds. -/
def Alert.isThreshold (al : Alert) : Bool := Threshold.all.any fun k => al.isOpen k.kind

/-- With `n` more alerts the list pushes out no unresolved alert of a threshold: it is short
enough, or its oldest alerts are not such ones. -/
def HasRoom (n : Nat) (alerts : List Alert) : Prop :=
  ∀ al ∈ alerts.take (alerts.length + n - maxAlerts), al.isThreshold = false

instance (n : Nat) (alerts : List Alert) : Decidable (HasRoom n alerts) :=
  inferInstanceAs (Decidable (∀ al ∈ alerts.take (alerts.length + n - maxAlerts), _))

/-- The key of `alerted`. -/
def alertKey (id : Id) (kind : String) : String := id ++ "|" ++ kind

namespace Engine

/-- `NewEngine` over a store and the rates of its records. -/
def new (st : Store) (net : Id → NetRates) : Engine where
  store := st
  net := net
  alerted := fun _ => none
  announced := []

def raise (s : Engine) (id : Id) (kind level : String) (text : String × String) (now : Time) :
    Engine :=
  if s.alerted (alertKey id kind) = some level then s
  else
    let al : Alert :=
      { id := id ++ "-" ++ kind ++ "-" ++ toString (unixMilli now)
        agentId := id
        kind := kind
        level := level
        title := text.1
        detail := text.2
        createdAt := unixMilli now
        resolved := false
        resolvedAt := 0 }
    let added := s.store.addAlert al
    { s with
      store := added.1
      alerted := Function.update s.alerted (alertKey id kind) (some level)
      announced := if added.2 then s.announced ++ [al] else s.announced }

def clear (s : Engine) (id : Id) (kind : String) (now : Time) : Engine :=
  { s with
    store := s.store.resolveAlert id kind now
    alerted := Function.update s.alerted (alertKey id kind) none }

variable (texts : AlertTexts)

/-- What `check` does about one of the three figures of the metrics. -/
def checkFigure (s : Engine) (a : Agent) (now : Time) (k : Threshold) (high : Bool) : Engine :=
  if high then s.raise a.agentId k.kind k.level (texts k.kind a (s.net a.agentId) now) now
  else s.clear a.agentId k.kind now

def checkMetrics (s : Engine) (a : Agent) (now : Time) (m : MetricsPayload) : Engine :=
  let s := s.checkFigure texts a now .highCpu (90 ≤ m.cpuPercent)
  let s := s.checkFigure texts a now .highMem (90 ≤ m.memPercent)
  s.checkFigure texts a now .highDisk (90 ≤ m.diskPercent)

/-- The rates have no branch that clears: rates that have gone down again leave the alert. -/
def checkNet (s : Engine) (a : Agent) (now : Time) : Engine :=
  if Threshold.spikes (s.net a.agentId) then
    s.raise a.agentId "net_spike" "warning" (texts "net_spike" a (s.net a.agentId) now) now
  else s

/-- The turn of one record in the loop of `check`; `a` is the copy from `ListAgents`. -/
def checkAgent (now : Time) (s : Engine) (a : Agent) : Engine :=
  if a.approval ≠ .approved then s
  else if a.online = false then
    if a.lastSeen = zeroTime then s
    else if 60 < (now - a.lastSeen) / 1000000000 then
      s.raise a.agentId "offline" "warning" (texts "offline" a (s.net a.agentId) now) now
    else s
  else
    let s := s.clear a.agentId "offline" now
    match a.lastMetric with
    | some m => (s.checkMetrics texts a now m).checkNet texts a now
    | none => s.checkNet texts a now

/-- `check`, where `ListAgents` visits the hosts in the order `ids`. -/
def check (s : Engine) (ids : List Id) (now : Time) : Engine :=
  (ids.filterMap s.store.agents).foldl (checkAgent texts now) s

/-- The titles of `ReportAnomaly`. -/
def anomalyTitle (kind : String) : String :=
  if kind = "ssh_brute" then "SSH 暴力破解尝试"
  else if kind = "net_spike" then "网络流量异常"
  else if kind = "high_cpu" then "CPU 使用率过高"
  else "客户端异常"

/-- `OnAnomaly` with `ReportAnomaly`. -/
def reportAnomaly (s : Engine) (id : Id) (kind level detail : String) (now : Time) : Engine :=
  let hostname := match s.store.getAgent id with
    | some a => a.hostname
    | none => id
  s.raise id kind level (hostname ++ " " ++ anomalyTitle kind, detail) now

/-- `RecordNet`, the rates only. -/
def recordNet (s : Engine) (id : Id) (r : NetRates) : Engine :=
  match s.store.getAgent id with
  | some _ => { s with net := Function.update s.net id r }
  | none => s

end Engine

inductive EngineEvent where
  | metrics (id : Id) (m : MetricsPayload) (now : Time)
  | network (id : Id) (r : NetRates)
  | check (ids : List Id) (now : Time)
  | anomaly (id : Id) (kind level detail : String) (now : Time)
  /-- `handleAlertResolve`. -/
  | resolve (id : Id) (kind : String) (now : Time)

def EngineEvent.isCheck : EngineEvent → Bool
  | check _ _ => true
  | _ => false

namespace Engine

def step (texts : AlertTexts) (s : Engine) : EngineEvent → Engine
  | .metrics id m now => { s with store := s.store.updateMetrics id m now }
  | .network id r => s.recordNet id r
  | .check ids now => s.check texts ids now
  | .anomaly id kind level detail now => s.reportAnomaly id kind level detail now
  | .resolve id kind now => { s with store := s.store.resolveAlert id kind now }

/-- Every approved host that is online and has metrics has an unresolved alert of a
threshold exactly if its figures are over it. -/
def Reflects (s : Engine) : Prop :=
  ∀ id a m, s.store.agents id = some a → a.approval = .approved → a.online = true →
    a.lastMetric = some m →
    ∀ k : Threshold, s.store.hasOpen id k.kind = true ↔ k.exceeded m (s.net id) = true

/-- A `raise` adds an alert to the record, and neither finds one to renew nor returns. -/
def appends (s : Engine) (id : Id) (kind level : String) : Bool :=
  s.alerted (alertKey id kind) != some level && !s.store.hasOpen id kind

def RoomFor (s : Engine) (id : Id) (n : Nat) : Prop :=
  ∀ a ∈ s.store.agents id, HasRoom n a.alerts

/-- How many alerts a check adds to the record. -/
def additions (s : Engine) (now : Time) (a : Agent) : Nat :=
  if a.approval ≠ .approved then 0
  else if a.online = false then
    (a.lastSeen != zeroTime && 60 < (now - a.lastSeen) / 1000000000 &&
      s.appends a.agentId "offline" "warning").toNat
  else Threshold.all.countP fun k =>
    k.exceededBy a (s.net a.agentId) && s.appends a.agentId k.kind k.level

/-- The record is fit for a check: its list has room for what the check adds, and its rates
are over the threshold if there has ever been an alert of the network. -/
def Fit (s : Engine) (now : Time) (a : Agent) : Prop :=
  s.RoomFor a.agentId (s.additions now a) ∧
    (Threshold.spikes (s.net a.agentId) = true ∨
      s.alerted (alertKey a.agentId "net_spike") = none)

/-- An anomaly finds room in the list of its host, an administrator resolves no alert of a
threshold that the engine remembers, and a check visits every host and finds it fit. -/
def Kept (hosts : List Id) (s : Engine) : EngineEvent → Prop
  | .anomaly id kind level _ _ => s.RoomFor id (s.appends id kind level).toNat
  | .resolve id kind _ =>
    s.alerted (alertKey id kind) = none ∨ kind ∉ Threshold.all.map Threshold.kind
  | .check ids now => ids.Perm hosts ∧ ∀ a ∈ ids.filterMap s.store.agents, s.Fit now a
  | _ => True

instance (s : Engine) (id : Id) (n : Nat) : Decidable (s.RoomFor id n) :=
  inferInstanceAs (Decidable (∀ a ∈ s.store.agents id, HasRoom n a.alerts))

instance (s : Engine) (now : Time) (a : Agent) : Decidable (s.Fit now a) :=
  inferInstanceAs (Decidable (_ ∧ _))

instance (hosts : List Id) (s : Engine) (e : EngineEvent) : Decidable (Kept hosts s e) := by
  unfold Kept
  cases e <;> infer_instance

end Engine

/-! ## Unresolved alerts, one operation after the other -/

theorem any_renewOpen (al : Alert) (kind : String) (alerts : List Alert) :
    (renewOpen al alerts).any (Alert.isOpen kind) = alerts.any (Alert.isOpen kind) := by
  induction alerts with
  | nil => rfl
  | cons e es ih =>
    rw [renewOpen]
    split
    · rfl
    · rw [any_cons, any_cons, ih]

theorem any_withResolved (kind kind' : String) (now : Time) (alerts : List Alert) :
    (withResolved kind' now alerts).any (Alert.isOpen kind) =
      (kind != kind' && alerts.any (Alert.isOpen kind)) := by
  induction alerts with
  | nil => simp [withResolved]
  | cons e es ih =>
    rw [withResolved, map_cons, any_cons, ← withResolved, ih, any_cons,
      and_or_distrib_left]
    congr 1
    by_cases hopen : e.isOpen kind' = true
    · rw [if_pos hopen]
      simp only [Alert.isOpen, and_eq_true, beq_iff_eq, not_eq_true'] at hopen ⊢
      rw [hopen.1]
      by_cases hk : kind' = kind <;> simp [hk]
    · rw [if_neg hopen]
      by_cases hk : kind = kind'
      · rw [hk, bne_self_eq_false, Bool.false_and]
        exact Bool.eq_false_iff.mpr hopen
      · simp [hk]

theorem Alert.isThreshold_of_isOpen {al : Alert} (k : Threshold) (h : al.isOpen k.kind = true) :
    al.isThreshold = true :=
  List.any_eq_true.mpr ⟨k, by cases k <;> decide, h⟩

theorem map_renewOpen (al : Alert) (alerts : List Alert) :
    (renewOpen al alerts).map Alert.isThreshold = alerts.map Alert.isThreshold := by
  fun_induction renewOpen al alerts <;> simp_all [Alert.isThreshold, Alert.isOpen]

section Room

variable {n : Nat} {alerts : List Alert} (h : HasRoom n alerts)
include h

theorem HasRoom.mono {m : Nat} (hm : m ≤ n) : HasRoom m alerts :=
  fun al hal => h al (take_subset_take_left _ (by omega) hal)

theorem HasRoom.renewOpen (al : Alert) : HasRoom n (renewOpen al alerts) := by
  have hmap := map_renewOpen al alerts
  have hlen : (Server.renewOpen al alerts).length = alerts.length := by
    simpa using congrArg List.length hmap
  intro e he
  have hmem := mem_map_of_mem (f := Alert.isThreshold) he
  rw [map_take, hmap, hlen, ← map_take] at hmem
  obtain ⟨old, hold, heq⟩ := mem_map.mp hmem
  exact heq.symm.trans (h old hold)

theorem HasRoom.withResolved (kind : String) (now : Time) :
    HasRoom n (withResolved kind now alerts) := by
  intro e he
  rw [Server.withResolved, length_map, ← map_take] at he
  obtain ⟨old, hold, rfl⟩ := mem_map.mp he
  split
  · simp [Alert.isThreshold, Alert.isOpen]
  · exact h old hold

end Room

variable {n : Nat} {alerts : List Alert} {al : Alert}

/-- The alerts that a list pushes out for one more alert were in it before. -/
theorem HasRoom.lastN (h : HasRoom (n + 1) alerts) (hn : n < maxAlerts) :
    HasRoom n (lastN maxAlerts (alerts ++ [al])) := by
  intro e he
  rw [Server.lastN, take_drop] at he
  have hmem := mem_of_mem_drop he
  rw [maxAlerts] at hn
  rw [length_drop, length_append, length_singleton, maxAlerts,
    take_append_of_le_length (by omega)] at hmem
  exact h e (take_subset_take_left _ (by rw [maxAlerts]; omega) hmem)

theorem any_withAlert (hnew : al.resolved = false)
    (hroom : alerts.any (Alert.isOpen al.kind) = false → HasRoom 1 alerts) (k : Threshold) :
    (withAlert alerts al).any (Alert.isOpen k.kind) =
      (k.kind == al.kind || alerts.any (Alert.isOpen k.kind)) := by
  rw [withAlert]
  by_cases hopen : alerts.any (Alert.isOpen al.kind) = true
  · rw [if_pos hopen, any_renewOpen]
    by_cases hk : k.kind = al.kind
    · rw [hk, hopen, Bool.or_true]
    · simp [hk]
  · rw [if_neg hopen]
    have hall : (alerts ++ [al]).any (Alert.isOpen k.kind) =
        (k.kind == al.kind || alerts.any (Alert.isOpen k.kind)) := by
      rw [any_append, Bool.or_comm, BEq.comm]
      simp [Alert.isOpen, hnew]
    have hout : ((alerts ++ [al]).take ((alerts ++ [al]).length - maxAlerts)).any
        (Alert.isOpen k.kind) = false := by
      refine List.any_eq_false.mpr fun e he hek => ?_
      rw [length_append, length_singleton, maxAlerts, take_append_of_le_length (by omega)] at he
      have hnone := hroom (Bool.eq_false_iff.mpr hopen) e he
      rw [Alert.isThreshold_of_isOpen k hek] at hnone
      cases hnone
    rw [← hall, ← take_append_drop ((alerts ++ [al]).length - maxAlerts) (alerts ++ [al]),
      any_append, hout, Bool.false_or, take_append_drop, Server.lastN]

/-- A list with room for one more keeps the rest of its room. -/
theorem HasRoom.withAlert
    (h : HasRoom (n + (!alerts.any (Alert.isOpen al.kind)).toNat) alerts) (hn : n < maxAlerts) :
    HasRoom n (withAlert alerts al) := by
  rw [Server.withAlert]
  cases hopen : alerts.any (Alert.isOpen al.kind) with
  | true =>
    rw [if_pos rfl]
    exact (h.mono (Nat.le_add_right ..)).renewOpen al
  | false =>
    rw [if_neg Bool.false_ne_true]
    rw [hopen] at h
    exact h.lastN hn

namespace Store

variable (st : Store)

theorem hasOpen_withAgent (id key : Id) (kind : String) (f : Agent → Agent) :
    (st.withAgent key f).hasOpen id kind =
      if id = key then (st.agents id).any fun a => (f a).alerts.any (Alert.isOpen kind)
      else st.hasOpen id kind := by
  rw [hasOpen, withAgent_agents]
  split
  · exact Option.any_map ..
  · rfl

theorem hasOpen_resolveAlert (id key : Id) (kind kind' : String) (now : Time) :
    (st.resolveAlert key kind' now).hasOpen id kind =
      (!(id == key && kind == kind') && st.hasOpen id kind) := by
  rw [resolveAlert, hasOpen_withAgent]
  by_cases hid : id = key
  · rw [if_pos hid, hasOpen]
    cases st.agents id with
    | none => simp
    | some a => simp [any_withResolved, hid, bne]
  · simp [hid]

end Store

def Agent.withoutAlerts (a : Agent) : Agent := { a with alerts := [] }

namespace Engine

variable {texts : AlertTexts} {hosts : List Id} {s : Engine}

theorem alertKey_inj {id id' : Id} {kind kind' : String} (hid : '|' ∉ id.toList)
    (hkind : '|' ∉ kind.toList) (h : alertKey id kind = alertKey id' kind') :
    id = id' ∧ kind = kind' := by
  have hlist := congrArg String.toList h
  simp only [alertKey, String.toList_append, append_assoc] at hlist
  obtain ⟨h₁, -, h₂⟩ := (append_cons_inj_of_notMem hid hkind).mp hlist
  exact ⟨String.toList_injective h₁, String.toList_injective h₂⟩

theorem raise_alerted (s : Engine) (id : Id) (kind level : String) (text : String × String)
    (now : Time) : (s.raise id kind level text now).alerted =
      Function.update s.alerted (alertKey id kind) (some level) := by
  rw [raise]
  split
  · rename_i h
    rw [← h, update_eq_self]
  · rfl

theorem clear_alerted (s : Engine) (id : Id) (kind : String) (now : Time) :
    (s.clear id kind now).alerted = Function.update s.alerted (alertKey id kind) none := rfl

/-- The step from `s` to `s'` changes the alerts of the host and what is remembered of it,
and nothing else. -/
structure OnlyAlerts (id : Id) (s s' : Engine) : Prop where
  others : ∀ other, other ≠ id → s'.store.agents other = s.store.agents other
  record : (s'.store.agents id).map Agent.withoutAlerts =
    (s.store.agents id).map Agent.withoutAlerts
  net : s'.net = s.net
  alerted : ∀ other kind, '|' ∉ other.toList → '|' ∉ kind.toList → other ≠ id →
    s'.alerted (alertKey other kind) = s.alerted (alertKey other kind)

theorem OnlyAlerts.refl (id : Id) (s : Engine) : OnlyAlerts id s s :=
  ⟨fun _ _ => rfl, rfl, rfl, fun _ _ _ _ _ => rfl⟩

variable {id : Id}

theorem OnlyAlerts.trans {s s' s'' : Engine} (h : OnlyAlerts id s s') (h' : OnlyAlerts id s' s'') :
    OnlyAlerts id s s'' where
  others other hne := (h'.others other hne).trans (h.others other hne)
  record := h'.record.trans h.record
  net := h'.net.trans h.net
  alerted other kind ho hk hne := (h'.alerted other kind ho hk hne).trans
    (h.alerted other kind ho hk hne)

theorem onlyAlerts_clear (s : Engine) (id : Id) (kind : String) (now : Time) :
    OnlyAlerts id s (s.clear id kind now) where
  others other hne := by
    simp only [clear, Store.resolveAlert, withAgent_agents, if_neg hne]
  record := by
    simp only [clear, Store.resolveAlert, withAgent_agents, if_pos, Option.map_map]
    rfl
  net := rfl
  alerted _ _ ho hk hne := update_of_ne (fun heq => hne (alertKey_inj ho hk heq).1) ..

theorem onlyAlerts_raise (s : Engine) (id : Id) (kind level : String) (text : String × String)
    (now : Time) : OnlyAlerts id s (s.raise id kind level text now) := by
  rw [raise]
  split
  · exact .refl id s
  · refine ⟨fun other hne => ?_, ?_, rfl, fun _ _ ho hk hne =>
      update_of_ne (fun heq => hne (alertKey_inj ho hk heq).1) ..⟩
    · simp only [Store.addAlert, withAgent_agents, if_neg hne]
    · simp only [Store.addAlert, withAgent_agents, if_pos, Option.map_map]
      rfl

section

variable {s' : Engine} (h : OnlyAlerts id s s')
include h

theorem OnlyAlerts.withoutAlerts (other : Id) :
    (s'.store.agents other).map Agent.withoutAlerts =
      (s.store.agents other).map Agent.withoutAlerts := by
  by_cases hother : other = id
  · subst hother
    exact h.record
  · rw [h.others other hother]

theorem OnlyAlerts.agentId (other : Id) :
    (s'.store.agents other).map Agent.agentId = (s.store.agents other).map Agent.agentId := by
  have heq := congrArg (Option.map Agent.agentId) (h.withoutAlerts other)
  rwa [Option.map_map, Option.map_map] at heq

theorem OnlyAlerts.fit {a : Agent} {now : Time} (hplain : '|' ∉ a.agentId.toList)
    (hne : a.agentId ≠ id) (hfit : s.Fit now a) : s'.Fit now a := by
  have happends : ∀ kind level, '|' ∉ kind.toList →
      s'.appends a.agentId kind level = s.appends a.agentId kind level := by
    intro kind level hkind
    rw [appends, appends, Store.hasOpen, Store.hasOpen, h.others _ hne,
      h.alerted _ _ hplain hkind hne]
  have hadds : s'.additions now a = s.additions now a := by
    simp only [additions, h.net, happends _ _ (Threshold.kind_plain _),
      happends "offline" "warning" (by decide)]
  rw [Fit, RoomFor, hadds, h.others _ hne, h.net, h.alerted _ _ hplain (by decide) hne]
  exact hfit

end

variable {text : String × String} {now : Time} {kind level : String}

theorem roomFor_clear (h : s.RoomFor id n) (kind : String) (now : Time) :
    (s.clear id kind now).RoomFor id n := by
  intro b hb
  rw [clear, Store.resolveAlert, withAgent_agents, if_pos rfl, Option.mem_def,
    Option.map_eq_some_iff] at hb
  obtain ⟨a, ha, rfl⟩ := hb
  exact (h a ha).withResolved kind now

theorem roomFor_raise (h : s.RoomFor id (n + (s.appends id kind level).toNat))
    (hn : n < maxAlerts) : (s.raise id kind level text now).RoomFor id n := by
  rw [raise]
  split
  · exact fun a ha => (h a ha).mono (Nat.le_add_right ..)
  · rename_i hold
    intro b hb
    simp only [Store.addAlert, withAgent_agents, Option.mem_def, if_true,
      Option.map_eq_some_iff] at hb
    obtain ⟨a, ha, rfl⟩ := hb
    refine HasRoom.withAlert ?_ hn
    have happends : s.appends id kind level = !a.alerts.any (Alert.isOpen kind) := by
      rw [appends, bne_iff_ne.mpr hold, Bool.true_and, Store.hasOpen, ha, any_some]
    exact happends ▸ h a ha

/-- After `raise` there is an unresolved alert of the kind, if there was one or the engine
did not remember one of this level. -/
theorem hasOpen_raise (hroom : s.RoomFor id (s.appends id kind level).toNat) (id' : Id)
    (k : Threshold) :
    (s.raise id kind level text now).store.hasOpen id' k.kind =
      (s.store.hasOpen id' k.kind || (id' == id && k.kind == kind &&
        (s.store.agents id).isSome && s.alerted (alertKey id kind) != some level)) := by
  rw [raise]
  by_cases hold : s.alerted (alertKey id kind) = some level
  · rw [if_pos hold, hold, bne_self_eq_false, Bool.and_false, Bool.or_false]
  · rw [if_neg hold, show (s.alerted (alertKey id kind) != some level) = true from
      bne_iff_ne.mpr hold]
    simp only [Store.addAlert, hasOpen_withAgent]
    by_cases hid : id' = id
    · subst hid
      rw [if_pos rfl, Store.hasOpen]
      cases hrec : s.store.agents id' with
      | none => simp
      | some a =>
        simp only [any_some]
        rw [any_withAlert rfl fun hclosed => ?_]
        · simp [Bool.or_comm]
        · have happends : s.appends id' kind level = true := by
            rw [appends, bne_iff_ne.mpr hold, Store.hasOpen, hrec, any_some, hclosed]
            rfl
          exact (hroom a hrec).mono (by simp [happends])
    · simp [hid]

theorem hasOpen_clear (s : Engine) (id : Id) (kind : String) (now : Time) (id' : Id)
    (kind' : String) : (s.clear id kind now).store.hasOpen id' kind' =
      (!(id' == id && kind' == kind) && s.store.hasOpen id' kind') :=
  s.store.hasOpen_resolveAlert ..

/-! ## The two places stay in step -/

/-- The records lie under their ids, `hosts` are their hosts, and what the engine remembers
about a threshold of a host is an unresolved alert of its record. It remembers every
unresolved alert of the network. -/
structure InStep (hosts : List Id) (s : Engine) : Prop where
  keyed : s.store.Keyed
  ranges : s.store.Ranges hosts
  plain : ∀ id ∈ hosts, '|' ∉ id.toList
  linked : ∀ id ∈ hosts, ∀ k : Threshold, s.alerted (alertKey id k.kind) ≠ none →
    s.store.hasOpen id k.kind = true
  spiked : ∀ id ∈ hosts, s.store.hasOpen id "net_spike" = true →
    s.alerted (alertKey id "net_spike") ≠ none

variable {s' : Engine}

theorem InStep.of_linked (h : InStep hosts s)
    (hrec : ∀ id, (s'.store.agents id).map Agent.agentId = (s.store.agents id).map Agent.agentId)
    (hlinked : ∀ id ∈ hosts, ∀ k : Threshold, s'.alerted (alertKey id k.kind) ≠ none →
      s'.store.hasOpen id k.kind = true)
    (hspiked : ∀ id ∈ hosts, s'.store.hasOpen id "net_spike" = true →
      s'.alerted (alertKey id "net_spike") ≠ none) : InStep hosts s' where
  keyed id a ha := by
    have hid := hrec id
    rw [ha] at hid
    cases hold : s.store.agents id with
    | none => rw [hold] at hid; cases hid
    | some old =>
      rw [hold] at hid
      exact (some.inj hid).trans (h.keyed id old hold)
  ranges := ⟨h.ranges.nodup, fun id => by
    rw [h.ranges.mem_iff, ← isSome_map, ← hrec, isSome_map]⟩
  plain := h.plain
  linked := hlinked
  spiked := hspiked

/-- Raising an alert keeps the link where the list has room. -/
theorem InStep.raise (h : InStep hosts s)
    (hroom : s.RoomFor id (s.appends id kind level).toNat) :
    InStep hosts (s.raise id kind level text now) := by
  refine h.of_linked (onlyAlerts_raise s id kind level text now).agentId ?_ ?_
  · intro id' hid' k hmem
    rw [hasOpen_raise hroom, or_eq_true]
    by_cases hkey : alertKey id' k.kind = alertKey id kind
    · obtain ⟨rfl, rfl⟩ := alertKey_inj (h.plain id' hid') k.kind_plain hkey
      by_cases hold : s.alerted (alertKey id' k.kind) = some level
      · exact .inl (h.linked id' hid' k (by simp [hold]))
      · right
        simp [(h.ranges.mem_iff id').mp hid', hold]
    · rw [raise_alerted, update_of_ne hkey] at hmem
      exact .inl (h.linked id' hid' k hmem)
  · intro id' hid' hopen
    rw [raise_alerted]
    by_cases hkey : alertKey id' "net_spike" = alertKey id kind
    · simp [hkey]
    · rw [update_of_ne hkey]
      have hor := (hasOpen_raise hroom id' .netSpike).symm.trans hopen
      refine h.spiked id' hid' (((or_eq_true ..).mp hor).resolve_right fun hnew => hkey ?_)
      simp only [and_eq_true, beq_iff_eq, Threshold.kind] at hnew
      rw [hnew.1.1.1, hnew.1.1.2]

/-- Clearing an alert keeps the link. -/
theorem InStep.clear (h : InStep hosts s) (id : Id) (kind : String) (now : Time) :
    InStep hosts (s.clear id kind now) := by
  refine h.of_linked (onlyAlerts_clear s id kind now).agentId ?_ ?_
  · intro id' hid' k hmem
    by_cases hkey : alertKey id' k.kind = alertKey id kind
    · rw [clear_alerted, hkey, update_self] at hmem
      exact absurd rfl hmem
    · rw [clear_alerted, update_of_ne hkey] at hmem
      have hne : ¬ (id' = id ∧ k.kind = kind) := fun heq => hkey (by rw [heq.1, heq.2])
      rw [hasOpen_clear, h.linked id' hid' k hmem]
      simpa using not_and_or.mp hne
  · intro id' hid' hopen
    rw [hasOpen_clear, and_eq_true] at hopen
    rw [clear_alerted, update_of_ne fun hkey => ?_]
    · exact h.spiked id' hid' hopen.2
    · obtain ⟨rfl, rfl⟩ := alertKey_inj (h.plain id' hid') (by decide) hkey
      simp at hopen

/-! ## One turn of the loop -/

/-- `raise` and `clear` for the host preserve the property. -/
structure Stable (P : Engine → Prop) (id : Id) (now : Time) : Prop where
  raise : ∀ s kind level text, P s → P (raise s id kind level text now)
  clear : ∀ s kind, P s → P (clear s id kind now)

section Stable

variable {P : Engine → Prop} {a : Agent} {now : Time}

theorem Stable.checkFigure (hP : Stable P a.agentId now) (h : P s) (k : Threshold)
    (high : Bool) : P (s.checkFigure texts a now k high) := by
  rw [Engine.checkFigure]
  split
  · exact hP.raise _ _ _ _ h
  · exact hP.clear _ _ h

theorem Stable.checkMetrics (hP : Stable P a.agentId now) (h : P s) (m : MetricsPayload) :
    P (s.checkMetrics texts a now m) :=
  hP.checkFigure (hP.checkFigure (hP.checkFigure h _ _) _ _) _ _

theorem Stable.checkNet (hP : Stable P a.agentId now) (h : P s) : P (s.checkNet texts a now) := by
  rw [Engine.checkNet]
  split
  · exact hP.raise _ _ _ _ h
  · exact h

/-- A property that raising and clearing keep is kept by the check of a host. -/
theorem Stable.checkAgent (hP : Stable P a.agentId now) (h : P s) :
    P (s.checkAgent texts now a) := by
  rw [Engine.checkAgent]
  split
  · exact h
  · split
    · split
      · exact h
      · split
        · exact hP.raise _ _ _ _ h
        · exact h
    · cases a.lastMetric with
      | some m => exact hP.checkNet (hP.checkMetrics (hP.clear _ _ h) m)
      | none => exact hP.checkNet (hP.clear _ _ h)

theorem stable_onlyAlerts (s : Engine) (id : Id) (now : Time) :
    Stable (OnlyAlerts id s) id now where
  raise s' kind level text hs := hs.trans (onlyAlerts_raise s' id kind level text now)
  clear s' kind hs := hs.trans (onlyAlerts_clear s' id kind now)

end Stable

theorem onlyAlerts_checkAgent (texts : AlertTexts) (now : Time) (s : Engine) (a : Agent) :
    OnlyAlerts a.agentId s (s.checkAgent texts now a) :=
  (stable_onlyAlerts s a.agentId now).checkAgent (.refl a.agentId s)

/-- What the turn of a threshold leaves: an unresolved alert exactly if the figure is high,
the other thresholds as they were, and room for `n` more alerts. -/
structure Settled (hosts : List Id) (id : Id) (k : Threshold) (high : Bool) (n : Nat)
    (s s' : Engine) : Prop where
  inStep : InStep hosts s'
  room : s'.RoomFor id n
  hasOpen : s'.store.hasOpen id k.kind = high
  others : ∀ k' ≠ k, s'.store.hasOpen id k'.kind = s.store.hasOpen id k'.kind ∧
    s'.alerted (alertKey id k'.kind) = s.alerted (alertKey id k'.kind)

variable {k k' : Threshold}

theorem Settled.appends {high : Bool} (h : Settled hosts id k high n s s') {j : Threshold}
    (hj : j ≠ k) : s'.appends id j.kind j.level = s.appends id j.kind j.level := by
  rw [Engine.appends, (h.others j hj).1, (h.others j hj).2, Engine.appends]

theorem Threshold.key_ne (h : k' ≠ k) (id : Id) : alertKey id k'.kind ≠ alertKey id k.kind :=
  fun heq => h (k'.kind_inj (String.append_right_inj _ |>.mp heq))

theorem InStep.settled_raise (h : InStep hosts s) (hid : id ∈ hosts) (hn : n < maxAlerts)
    (hroom : s.RoomFor id (n + (s.appends id k.kind k.level).toNat)) :
    Settled hosts id k true n s (s.raise id k.kind k.level text now) := by
  have hone : s.RoomFor id (s.appends id k.kind k.level).toNat :=
    fun a ha => (hroom a ha).mono (Nat.le_add_left ..)
  refine ⟨h.raise hone, roomFor_raise hroom hn, ?_, fun k' hk => ?_⟩
  · rw [hasOpen_raise hone]
    by_cases hold : s.alerted (alertKey id k.kind) = some k.level
    · rw [h.linked id hid k (by simp [hold]), Bool.true_or]
    · simp [(h.ranges.mem_iff id).mp hid, hold]
  · have hkind : k'.kind ≠ k.kind := fun heq => hk (Threshold.kind_inj heq)
    rw [hasOpen_raise hone, raise_alerted, update_of_ne (Threshold.key_ne hk id)]
    simp [hkind]

theorem InStep.settled_clear (h : InStep hosts s) (hroom : s.RoomFor id n) :
    Settled hosts id k false n s (s.clear id k.kind now) := by
  refine ⟨h.clear id k.kind now, roomFor_clear hroom _ _, ?_, fun k' hk => ?_⟩
  · rw [hasOpen_clear]
    simp
  · have hkind : k'.kind ≠ k.kind := fun heq => hk (Threshold.kind_inj heq)
    rw [hasOpen_clear, clear_alerted, update_of_ne (Threshold.key_ne hk id)]
    simp [hkind]

variable {a : Agent} {m : MetricsPayload}

theorem InStep.settled_checkFigure (texts : AlertTexts) (now : Time) (h : InStep hosts s)
    (ha : a.agentId ∈ hosts) {high : Bool} (hn : n < maxAlerts)
    (hroom : s.RoomFor a.agentId (n + (high && s.appends a.agentId k.kind k.level).toNat)) :
    Settled hosts a.agentId k high n s (s.checkFigure texts a now k high) := by
  rw [checkFigure]
  cases high with
  | true => exact h.settled_raise ha hn hroom
  | false => exact h.settled_clear hroom

theorem InStep.settled_checkNet (texts : AlertTexts) (now : Time) (h : InStep hosts s)
    (ha : a.agentId ∈ hosts)
    (hnet : Threshold.spikes (s.net a.agentId) = true ∨
      s.alerted (alertKey a.agentId "net_spike") = none)
    (hroom : s.RoomFor a.agentId (Threshold.spikes (s.net a.agentId) &&
      s.appends a.agentId "net_spike" "warning").toNat) :
    Settled hosts a.agentId .netSpike (Threshold.spikes (s.net a.agentId)) 0 s
      (s.checkNet texts a now) := by
  rw [checkNet]
  cases hspike : Threshold.spikes (s.net a.agentId) with
  | true =>
    rw [hspike] at hroom
    exact h.settled_raise (k := .netSpike) ha (by decide)
      (by simpa [Threshold.kind, Threshold.level] using hroom)
  | false =>
    rw [hspike] at hroom
    refine ⟨h, hroom, Bool.eq_false_iff.mpr fun hopen => ?_, fun _ _ => ⟨rfl, rfl⟩⟩
    exact h.spiked _ ha hopen (hnet.resolve_left (by simp [hspike]))

theorem alerted_clear_offline (s : Engine) (id : Id) (now : Time) (k : Threshold) :
    (s.clear id "offline" now).alerted (alertKey id k.kind) = s.alerted (alertKey id k.kind) :=
  update_of_ne (fun heq => k.kind_ne_offline ((String.append_right_inj _).mp heq)) ..

theorem appends_clear_offline (s : Engine) (id : Id) (now : Time) (k : Threshold) :
    (s.clear id "offline" now).appends id k.kind k.level = s.appends id k.kind k.level := by
  rw [appends, alerted_clear_offline, hasOpen_clear, appends,
    beq_eq_false_iff_ne.mpr k.kind_ne_offline]
  simp

theorem Threshold.countP_all (p : Threshold → Bool) : Threshold.all.countP p =
    (p .netSpike).toNat + (p .highDisk).toNat + (p .highMem).toNat + (p .highCpu).toNat := by
  have hnat : ∀ b : Bool, b.toNat = if b = true then 1 else 0 := by decide
  simp only [Threshold.all, countP_cons, countP_nil, hnat]
  omega

/-- The turn of a host that is online and has metrics, one threshold after the other. -/
theorem InStep.checkMetrics_checkNet (texts : AlertTexts) (h : InStep hosts s)
    (ha : a.agentId ∈ hosts) (hm : a.lastMetric = some m)
    (hroom : s.RoomFor a.agentId (Threshold.all.countP fun k =>
      k.exceededBy a (s.net a.agentId) && s.appends a.agentId k.kind k.level))
    (hnet : Threshold.spikes (s.net a.agentId) = true ∨
      s.alerted (alertKey a.agentId "net_spike") = none) :
    InStep hosts ((s.checkMetrics texts a now m).checkNet texts a now) ∧ ∀ k : Threshold,
      ((s.checkMetrics texts a now m).checkNet texts a now).store.hasOpen a.agentId k.kind =
        k.exceeded m (s.net a.agentId) := by
  have hsum := Threshold.countP_all fun k =>
    k.exceededBy a (s.net a.agentId) && s.appends a.agentId k.kind k.level
  simp only [Threshold.exceededBy, hm] at hroom hsum
  rw [hsum] at hroom
  have hle : ∀ p : Bool, p.toNat ≤ 1 := Bool.toNat_le
  have h₁ := h.settled_checkFigure texts now (k := .highCpu) ha
    (by rw [maxAlerts]; grind) hroom
  have hroom₂ := h₁.room
  rw [← h₁.appends (j := .highMem) (by decide)] at hroom₂
  have h₂ := h₁.inStep.settled_checkFigure texts now (k := .highMem) ha
    (by rw [maxAlerts]; grind) hroom₂
  have hroom₃ := h₂.room
  rw [← h₁.appends (j := .highDisk) (by decide), ← h₂.appends (j := .highDisk) (by decide)]
    at hroom₃
  have h₃ : Settled hosts a.agentId .highDisk _ _ _ (s.checkMetrics texts a now m) :=
    h₂.inStep.settled_checkFigure texts now ha (by rw [maxAlerts]; grind) hroom₃
  have honly : OnlyAlerts a.agentId s (s.checkMetrics texts a now m) :=
    (stable_onlyAlerts s a.agentId now).checkMetrics (.refl a.agentId s) m
  have hsame : (s.checkMetrics texts a now m).alerted (alertKey a.agentId "net_spike") =
      s.alerted (alertKey a.agentId "net_spike") :=
    (h₃.others .netSpike (by decide)).2.trans
      ((h₂.others .netSpike (by decide)).2.trans (h₁.others .netSpike (by decide)).2)
  have hroom₄ := h₃.room
  rw [← h₁.appends (j := .netSpike) (by decide), ← h₂.appends (j := .netSpike) (by decide),
    ← h₃.appends (j := .netSpike) (by decide)] at hroom₄
  have h₄ := h₃.inStep.settled_checkNet texts now ha
    (by rw [honly.net, hsame]; exact hnet) (by rw [honly.net]; exact hroom₄)
  rw [honly.net] at h₄
  refine ⟨h₄.inStep, fun k => ?_⟩
  cases k with
  | netSpike => exact h₄.hasOpen
  | highDisk => exact (h₄.others .highDisk (by decide)).1.trans h₃.hasOpen
  | highMem =>
    exact (h₄.others .highMem (by decide)).1.trans
      ((h₃.others .highMem (by decide)).1.trans h₂.hasOpen)
  | highCpu =>
    exact (h₄.others .highCpu (by decide)).1.trans ((h₃.others .highCpu (by decide)).1.trans
      ((h₂.others .highCpu (by decide)).1.trans h₁.hasOpen))

/-- The check of one host keeps the link, and the alerts of the host reflect its figures. -/
theorem InStep.checkAgent (texts : AlertTexts) (h : InStep hosts s) (ha : a.agentId ∈ hosts)
    (hfit : s.Fit now a) :
    InStep hosts (s.checkAgent texts now a) ∧
      (a.approval = .approved → a.online = true → ∀ m, a.lastMetric = some m →
        ∀ k : Threshold, (s.checkAgent texts now a).store.hasOpen a.agentId k.kind =
          k.exceeded m (s.net a.agentId)) := by
  obtain ⟨hroom, hnet⟩ := hfit
  rw [additions] at hroom
  rw [Engine.checkAgent]
  by_cases happroved : a.approval = .approved
  · rw [if_neg (not_not_intro happroved)] at hroom ⊢
    by_cases honline : a.online = false
    · rw [if_pos honline] at hroom ⊢
      refine ⟨?_, fun _ hon => by rw [hon] at honline; cases honline⟩
      split
      · exact h
      · split
        · rename_i hseen hlong
          refine h.raise ?_
          rw [bne_iff_ne.mpr hseen, decide_eq_true hlong] at hroom
          exact hroom
        · exact h
    · rw [if_neg honline] at hroom ⊢
      have h₀ := h.clear a.agentId "offline" now
      have hroom₀ := roomFor_clear hroom "offline" now
      have hnet₀ := hnet.imp_right (alerted_clear_offline s a.agentId now .netSpike).trans
      simp only [← appends_clear_offline s a.agentId now] at hroom₀
      cases hm : a.lastMetric with
      | some m =>
        obtain ⟨hstep, hopen⟩ := h₀.checkMetrics_checkNet texts ha hm hroom₀ hnet₀
        exact ⟨hstep, fun _ _ m' hm' => by cases hm'; exact hopen⟩
      | none =>
        refine ⟨(h₀.settled_checkNet texts now ha hnet₀ ?_).inStep, fun _ _ _ hm' => by cases hm'⟩
        simp only [Threshold.countP_all, Threshold.exceededBy, hm] at hroom₀
        exact hroom₀
  · rw [if_pos happroved]
    exact ⟨h, fun hap => absurd hap happroved⟩

/-! ## The whole loop -/

section Loop

variable {now : Time} {as : List Agent}

theorem foldl_checkAgent_others {id : Id} (hid : ∀ a ∈ as, a.agentId ≠ id) (s : Engine) :
    (as.foldl (checkAgent texts now) s).store.agents id = s.store.agents id := by
  induction as generalizing s with
  | nil => rfl
  | cons a as ih =>
    rw [foldl_cons, ih fun b hb => hid b (mem_cons_of_mem a hb)]
    exact (onlyAlerts_checkAgent texts now s a).others id (hid a mem_cons_self).symm

theorem foldl_checkAgent_net (as : List Agent) (s : Engine) :
    (as.foldl (checkAgent texts now) s).net = s.net := by
  induction as generalizing s with
  | nil => rfl
  | cons a as ih => exact (ih _).trans (onlyAlerts_checkAgent texts now s a).net

theorem foldl_checkAgent_withoutAlerts (texts : AlertTexts) (now : Time) (as : List Agent)
    (s : Engine) (id : Id) :
    ((as.foldl (checkAgent texts now) s).store.agents id).map Agent.withoutAlerts =
      (s.store.agents id).map Agent.withoutAlerts := by
  induction as generalizing s with
  | nil => rfl
  | cons a as ih => exact (ih _).trans ((onlyAlerts_checkAgent texts now s a).withoutAlerts id)

theorem InStep.foldl_checkAgent (texts : AlertTexts) (h : InStep hosts s)
    (hnodup : (as.map Agent.agentId).Nodup) (hmem : ∀ a ∈ as, a.agentId ∈ hosts)
    (hfit : ∀ a ∈ as, s.Fit now a) :
    InStep hosts (as.foldl (Engine.checkAgent texts now) s) ∧
      ∀ a ∈ as, a.approval = .approved → a.online = true → ∀ m, a.lastMetric = some m →
        ∀ k : Threshold,
          (as.foldl (Engine.checkAgent texts now) s).store.hasOpen a.agentId k.kind =
            k.exceeded m (s.net a.agentId) := by
  induction as generalizing s with
  | nil => exact ⟨h, fun a ha => by cases ha⟩
  | cons b as ih =>
    obtain ⟨hb, hnodup⟩ := nodup_cons.mp hnodup
    have hothers : ∀ c ∈ as, c.agentId ≠ b.agentId := fun c hc heq =>
      hb (heq ▸ mem_map_of_mem hc)
    have honly := onlyAlerts_checkAgent texts now s b
    have hmem' := fun c hc => hmem c (mem_cons_of_mem b hc)
    obtain ⟨hstep, hopen⟩ := h.checkAgent texts (hmem b mem_cons_self)
      (hfit b mem_cons_self)
    obtain ⟨hlast, hrest⟩ := ih hstep hnodup hmem' fun c hc =>
      honly.fit (h.plain _ (hmem' c hc)) (hothers c hc) (hfit c (mem_cons_of_mem b hc))
    refine ⟨hlast, fun a ha happroved honline m hm k => ?_⟩
    rcases mem_cons.mp ha with rfl | ha
    · rw [foldl_cons, Store.hasOpen, foldl_checkAgent_others hothers, ← Store.hasOpen]
      exact hopen happroved honline m hm k
    · rw [← honly.net]
      exact hrest a ha happroved honline m hm k

end Loop

/-! ## Runs -/

theorem InStep.map_agentId (h : InStep hosts s) {ids : List Id} (hids : ids.Perm hosts) :
    (ids.filterMap s.store.agents).map Agent.agentId = ids := by
  rw [map_filterMap]
  calc ids.filterMap (fun id => (s.store.agents id).map Agent.agentId)
      = ids.filterMap some := by
        refine filterMap_congr fun id hid => ?_
        obtain ⟨a, ha⟩ := isSome_iff_exists.mp
          ((h.ranges.mem_iff id).mp (hids.mem_iff.mp hid))
        rw [ha, map_some, h.keyed id a ha]
    _ = ids := filterMap_some

/-- A check of all hosts keeps the link and reflects the figures. -/
theorem InStep.check (h : InStep hosts s) {ids : List Id}
    (hkept : Kept hosts s (.check ids now)) :
    InStep hosts (s.check texts ids now) ∧ (s.check texts ids now).Reflects := by
  obtain ⟨hids, hfit⟩ := hkept
  have hmap := h.map_agentId hids
  have hmem : ∀ a ∈ ids.filterMap s.store.agents, a.agentId ∈ hosts := fun a ha =>
    hids.mem_iff.mp (hmap ▸ mem_map_of_mem ha)
  obtain ⟨hstep, hopen⟩ := h.foldl_checkAgent texts
    (hmap.symm ▸ hids.nodup_iff.mpr h.ranges.nodup) hmem hfit
  refine ⟨hstep, fun id a m ha happroved honline hm k => ?_⟩
  have hbare := foldl_checkAgent_withoutAlerts texts now (ids.filterMap s.store.agents) s id
  rw [Engine.check] at ha
  rw [ha] at hbare
  obtain ⟨old, hold, heq⟩ := map_eq_some_iff.mp hbare.symm
  have hid : old.agentId = id := h.keyed id old hold
  have hin : id ∈ ids := hids.mem_iff.mpr ((h.ranges.mem_iff id).mpr (by rw [hold]; rfl))
  have hold' := hopen old (mem_filterMap.mpr ⟨id, hin, hold⟩)
    ((congrArg Agent.approval heq).trans happroved)
    ((congrArg Agent.online heq).trans honline) m ((congrArg Agent.lastMetric heq).trans hm) k
  rw [hid] at hold'
  rw [Engine.check, foldl_checkAgent_net, hold']

theorem hasOpen_updateMetrics (st : Store) (key : Id) (m : MetricsPayload) (now : Time) (id : Id)
    (kind : String) : (st.updateMetrics key m now).hasOpen id kind = st.hasOpen id kind := by
  rw [Store.hasOpen, updateMetrics_agents]
  split
  · rw [Option.any_map]
    rfl
  · rfl

/-- Resolving an alert that the engine does not remember keeps the link. -/
theorem InStep.resolve (h : InStep hosts s) {kind : String}
    (hkept : s.alerted (alertKey id kind) = none ∨ kind ∉ Threshold.all.map Threshold.kind) :
    InStep hosts { s with store := s.store.resolveAlert id kind now } := by
  refine h.of_linked (onlyAlerts_clear s id kind now).agentId (fun id' hid' k hmem => ?_)
    fun id' hid' hopen => ?_
  · have hne : ¬ (id' = id ∧ k.kind = kind) := by
      rintro ⟨rfl, rfl⟩
      exact hkept.elim hmem fun hk => hk (by cases k <;> decide)
    rw [hasOpen_resolveAlert, h.linked id' hid' k hmem]
    simpa using not_and_or.mp hne
  · rw [hasOpen_resolveAlert, and_eq_true] at hopen
    exact h.spiked id' hid' hopen.2

/-- Every step that is kept keeps the link. -/
theorem InStep.step (h : InStep hosts s) {e : EngineEvent} (hkept : Kept hosts s e) :
    InStep hosts (s.step texts e) := by
  cases e with
  | metrics id m now =>
    refine h.of_linked (fun other => ?_) (fun id' hid' k hmem => ?_) fun id' hid' hopen => ?_
    · simp only [Engine.step, updateMetrics_agents]
      split
      · exact Option.map_map ..
      · rfl
    · exact (hasOpen_updateMetrics ..).trans (h.linked id' hid' k hmem)
    · exact h.spiked id' hid' ((hasOpen_updateMetrics ..).symm.trans hopen)
  | network id r =>
    simp only [Engine.step, recordNet]
    split
    · exact ⟨h.keyed, h.ranges, h.plain, h.linked, h.spiked⟩
    · exact h
  | check ids now => exact (h.check hkept).1
  | anomaly id kind level detail now => exact h.raise hkept
  | resolve id kind now => exact h.resolve hkept

theorem inStep_new {st : Store} (hkeyed : st.Keyed) (hranges : st.Ranges hosts)
    (hplain : ∀ id ∈ hosts, '|' ∉ id.toList)
    (hquiet : ∀ id ∈ hosts, st.hasOpen id "net_spike" = false) (net : Id → NetRates) :
    InStep hosts (Engine.new st net) where
  keyed := hkeyed
  ranges := hranges
  plain := hplain
  linked _ _ _ hmem := absurd rfl hmem
  spiked id hid hopen := absurd hopen (by simp [Engine.new, hquiet id hid])

end Engine

/-- Immediately after a check the unresolved alerts of the thresholds are those of the
figures, in every run whose steps are kept. -/
theorem alerts_reflect_thresholds (texts : AlertTexts) (st : Store) (hosts : List Id)
    (hkeyed : st.Keyed) (hranges : st.Ranges hosts) (hplain : ∀ id ∈ hosts, '|' ∉ id.toList)
    (hquiet : ∀ id ∈ hosts, st.hasOpen id "net_spike" = false)
    (net : Id → NetRates) (es : List EngineEvent)
    (hkept : Along (Engine.step texts) (Engine.Kept hosts) (Engine.new st net) es) :
    Along (Engine.step texts) (fun s e => e.isCheck = true → (s.step texts e).Reflects)
      (Engine.new st net) es := by
  refine along_of_invariant (I := Engine.InStep hosts) (fun s e h he => h.step he) ?_
    (Engine.inStep_new hkeyed hranges hplain hquiet net) hkept
  intro s e h he hcheck
  cases e with
  | check ids now => exact (h.check he).2
  | _ => cases hcheck

/-! ## Runs of one host -/

def watched (id : Id) : Store :=
  (Store.new []).putAgent id
    { agentId := id, hostname := "web", online := true, approval := .approved }

theorem watched_agents (id other : Id) : (watched id).agents other =
    if other = id then
      some { agentId := id, hostname := "web", online := true, approval := .approved }
    else none :=
  putAgent_agents ..

theorem watched_keyed (id : Id) : (watched id).Keyed := by
  intro other a ha
  rw [watched_agents] at ha
  split at ha
  · rename_i hother
    obtain rfl := some.inj ha
    exact hother.symm
  · cases ha

theorem watched_ranges (id : Id) : (watched id).Ranges [id] := by
  refine ⟨by simp, fun other => ?_⟩
  rw [watched_agents, mem_singleton]
  by_cases hother : other = id <;> simp [hother]

def metricsOf (cpu : ℚ) : MetricsPayload where
  timestamp := 0
  uptimeSec := 0
  cpuPercent := cpu
  load1 := 0
  load5 := 0
  load15 := 0
  memTotalKB := 0
  memUsedKB := 0
  memPercent := 0
  swapTotalKB := 0
  swapUsedKB := 0
  diskTotalKB := 0
  diskUsedKB := 0
  diskPercent := 0
  procs := 0

def noTexts : AlertTexts := fun _ _ _ _ => ("", "")

def watch (id : Id) (es : List EngineEvent) : Engine :=
  exec (Engine.step noTexts) (Engine.new (watched id) fun _ => ⟨0, 0⟩) es

/-- The processor is busy for a check and idle for the next, and an administrator resolves
the alert of an anomaly. -/
theorem busy_host_reflected :
    Along (Engine.step noTexts)
      (fun s e => e.isCheck = true → (s.step noTexts e).Reflects)
      (Engine.new (watched "h1") fun _ => ⟨0, 0⟩)
      [.metrics "h1" (metricsOf 95) 0, .check ["h1"] 0, .anomaly "h1" "ssh_brute" "critical" "" 0,
        .resolve "h1" "ssh_brute" 0, .metrics "h1" (metricsOf 5) 0, .check ["h1"] 0,
        .network "h1" ⟨99999999, 0⟩, .check ["h1"] 0] :=
  alerts_reflect_thresholds noTexts (watched "h1") ["h1"] (watched_keyed "h1")
    (watched_ranges "h1") (by decide) (by decide) _ _ (by decide +kernel)

theorem Engine.not_reflects (s : Engine) (id : Id) (k : Threshold)
    (h : ((s.store.agents id).any fun a => a.approval = .approved && a.online &&
      a.lastMetric.any fun m => s.store.hasOpen id k.kind != k.exceeded m (s.net id)) = true) :
    ¬ s.Reflects := by
  intro hs
  obtain ⟨a, ha, hprops⟩ := (any_eq_true _ _).mp h
  simp only [and_eq_true, decide_eq_true_eq] at hprops
  obtain ⟨⟨happroved, honline⟩, hmetric⟩ := hprops
  obtain ⟨m, hm, hdiffer⟩ := (any_eq_true _ _).mp hmetric
  exact (bne_iff_ne.mp hdiffer) (eq_iff_iff.mpr (hs id a m ha happroved honline hm k))

/-- An administrator, rates that go down, 50 anomalies and an id with a bar each leave alerts
that do not say what the figures say. -/
theorem alerts_stray_from_thresholds :
    ¬ (watch "h1" [.metrics "h1" (metricsOf 95) 0, .check ["h1"] 0, .resolve "h1" "high_cpu" 0,
      .check ["h1"] 0]).Reflects ∧
    ¬ (watch "h1" [.metrics "h1" (metricsOf 5) 0, .network "h1" ⟨99999999, 0⟩, .check ["h1"] 0,
      .network "h1" ⟨0, 0⟩, .check ["h1"] 0]).Reflects ∧
    ¬ (watch "h1" ([.metrics "h1" (metricsOf 95) 0, .check ["h1"] 0] ++
      (List.range 50).map (fun n =>
        .anomaly "h1" (String.ofList (List.replicate n 'x')) "critical" "" 0) ++
      [.check ["h1"] 0])).Reflects ∧
    ¬ (watch "h1|a" [.anomaly "h1" "a|high_cpu" "critical" "" 0,
      .metrics "h1|a" (metricsOf 95) 0, .check ["h1|a"] 0]).Reflects := by
  refine ⟨Engine.not_reflects _ "h1" .highCpu ?_, Engine.not_reflects _ "h1" .netSpike ?_,
    Engine.not_reflects _ "h1" .highCpu ?_, Engine.not_reflects _ "h1|a" .highCpu ?_⟩ <;>
  decide +kernel

/-! ## The lists of alerts -/

open Engine

/-- Not over the limit, and at most one unresolved alert of each kind. -/
def Neat (alerts : List Alert) : Prop :=
  alerts.length ≤ maxAlerts ∧ ∀ kind, alerts.countP (Alert.isOpen kind) ≤ 1

theorem renewOpen_counts (al : Alert) (alerts : List Alert) :
    (renewOpen al alerts).length = alerts.length ∧ ∀ kind,
      (renewOpen al alerts).countP (Alert.isOpen kind) = alerts.countP (Alert.isOpen kind) := by
  fun_induction renewOpen al alerts <;> simp_all [countP_cons, Alert.isOpen]

section

variable {alerts : List Alert} (h : Neat alerts)
include h

theorem neat_withAlert (al : Alert) : Neat (withAlert alerts al) := by
  rw [withAlert]
  split
  · simpa only [Neat, renewOpen_counts] using h
  · rename_i hnone
    refine ⟨by rw [lastN, length_drop]; omega, fun kind => ?_⟩
    refine Nat.le_trans (drop_sublist _ _).countP_le ?_
    rw [countP_append, countP_singleton]
    by_cases hkind : al.kind = kind
    · rw [← hkind, countP_eq_zero.mpr (by simpa using hnone)]
      split <;> simp
    · simpa [Alert.isOpen, hkind] using h.2 kind

theorem neat_withResolved (kind : String) (now : Time) : Neat (withResolved kind now alerts) := by
  refine ⟨by simpa [withResolved] using h.1, fun other => Nat.le_trans ?_ (h.2 other)⟩
  rw [withResolved, countP_map]
  refine countP_mono_left fun al _ hal => ?_
  grind [Alert.isOpen]

end

def Engine.AllNeat (s : Engine) : Prop := ∀ id a, s.store.agents id = some a → Neat a.alerts

variable {s : Engine}

theorem Engine.AllNeat.withAgent (h : s.AllNeat) {f : Agent → Agent}
    (hf : ∀ a, Neat a.alerts → Neat (f a).alerts) (id : Id) :
    ∀ key a, (s.store.withAgent id f).agents key = some a → Neat a.alerts := by
  intro key b hb
  rw [withAgent_agents] at hb
  split at hb
  · obtain ⟨a, ha, rfl⟩ := map_eq_some_iff.mp hb
    exact hf a (h key a ha)
  · exact h key b hb

theorem stable_neat (id : Id) (now : Time) : Stable Engine.AllNeat id now where
  raise s kind level text h := by
    rw [raise]
    split
    · exact h
    · exact h.withAgent (fun _ ha => neat_withAlert ha _) id
  clear s kind h := h.withAgent (fun _ ha => neat_withResolved ha kind now) id

theorem Engine.AllNeat.step (h : s.AllNeat) (texts : AlertTexts) (e : EngineEvent) :
    (s.step texts e).AllNeat := by
  cases e with
  | metrics id m now =>
    exact h.withAgent (f := fun a =>
      { a with lastMetric := some m, lastSeen := now, online := true }) (fun _ ha => ha) id
  | network id r =>
    simp only [Engine.step, recordNet]
    split <;> exact h
  | check ids now =>
    exact foldlRecOn _ _ h fun _ hs a _ => (stable_neat a.agentId now).checkAgent hs
  | anomaly id kind level detail now => exact (stable_neat id now).raise _ _ _ _ h
  | resolve id kind now => exact (stable_neat id now).clear s kind h

/-- No run puts more than 50 alerts into a record, or two unresolved ones of a kind. -/
theorem alerts_stay_neat (texts : AlertTexts) (h : s.AllNeat) (es : List EngineEvent) :
    (exec (Engine.step texts) s es).AllNeat :=
  exec_of_invariant (C := fun _ _ => True) (fun _ e hs _ => hs.step texts e) h
    (along_of_forall fun _ _ _ => trivial)

/-- Sixty kinds of anomalies fill the list, one of them comes again with another level, and
an administrator resolves it. -/
def crowd : List EngineEvent :=
  (List.range 60).map (fun n =>
    .anomaly "h1" (String.ofList (List.replicate n 'x')) "critical" "" 0) ++
  [.anomaly "h1" (String.ofList (List.replicate 59 'x')) "warning" "" 0,
    .resolve "h1" (String.ofList (List.replicate 59 'x')) 0]

theorem crowd_stays_neat : (watch "h1" crowd).AllNeat ∧
    ((watch "h1" crowd).store.agents "h1").any (fun a => a.alerts.length = 50 &&
      (a.alerts.countP Alert.resolved = 1 && a.alerts.countP (·.level = "warning") = 1)) := by
  refine ⟨alerts_stay_neat noTexts (fun id a ha => ?_) crowd, by decide +kernel⟩
  rw [Engine.new, watched_agents] at ha
  split at ha <;> cases ha
  simp [Neat]

end CtForge.Server
