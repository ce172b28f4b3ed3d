import CtForge.Server.System

/-!
# What a step does to the record of one host

`Task.Leaves` says once which stores the sections of the tasks can leave. They
act on the record of one host at a time: `Task.Writes` lists, for a fixed host,
the records that a section can leave, and `Rewrites` those that a step of the
system can leave; `step_rewrites` is the inversion that the invariants on records
are proved from. `Step.beside` does the same for the series, the logs and the
tombstones.
-/

namespace CtForge.Server

/-- What `dispatch` does to the record of the host that sent the message. -/
def Message.touch (now : Time) : Message → Agent → Agent
  | .heartbeat hb, a => { a with
      lastHB := some hb
      lastSeen := now
      online := true
      hbHistory := lastN 60 (a.hbHistory ++ [unixMilli now]) }
  | .metrics m, a => { a with lastMetric := some m, lastSeen := now, online := true }
  | .pong timestamp, a =>
    if 0 < timestamp then
      { a with
        latencyMs := (unixMilli now - timestamp : Int)
        lastPingAt := unixMilli now
        latencyHist := lastN 60 (a.latencyHist ++ [((unixMilli now - timestamp : Int) : ℚ)]) }
    else a
  | .ctfDaemon state message, a => { a with
      ctforgeState := state
      ctforgeMessage := message
      ctforgeAt := unixSeconds now }
  | .offline, a => { a with
      offlineAt := unixMilli now
      offlineCount := a.offlineCount + 1
      online := false }
  | _, a => a

def Message.flag : Message → Bool → Bool
  | .heartbeat _, _ | .metrics _, _ => true
  | .offline, _ => false
  | _, online => online

section Touch

variable (m : Message) (now : Time) (a : Agent)

@[simp] theorem Message.touch_approval : (m.touch now a).approval = a.approval := by
  cases m <;> simp only [Message.touch]
  split <;> rfl

@[simp] theorem Message.touch_discovered : (m.touch now a).discovered = a.discovered := by
  cases m <;> simp only [Message.touch]
  split <;> rfl

@[simp] theorem Message.touch_online : (m.touch now a).online = m.flag a.online := by
  cases m <;> simp only [Message.touch, Message.flag]
  split <;> rfl

end Touch

theorem dispatch_agents (st : Store) (key id : Id) (now : Time) (m : Message) :
    (dispatch st key now m).agents id =
      if id = key then (st.agents id).map (m.touch now) else st.agents id := by
  have keep : st.agents id =
      if id = key then (st.agents id).map (fun a => a) else st.agents id := by simp
  cases m with
  | heartbeat hb | ctfDaemon state message | offline => exact Store.withAgent_agents ..
  | metrics m => exact Store.updateMetrics_agents ..
  | log e | other => exact keep
  | pong timestamp =>
    have htouch (a : Agent) : Message.touch now (.pong timestamp) a =
        if 0 < timestamp then _ else a := rfl
    by_cases h : 0 < timestamp
    · simp only [dispatch, if_pos h, funext htouch]
      exact Store.withAgent_agents ..
    · simp only [dispatch, if_neg h, funext htouch]
      exact keep

def decided (srv : Identity) (approve : Bool) (now : Time) (a : Agent) : Agent :=
  if approve then
    { a with approval := .approved, boundServerId := srv.serverId, approvedAt := unixMilli now }
  else { a with approval := .rejected }

theorem setDecision_agents (srv : Identity) (st : Store) (key id : Id) (approve : Bool)
    (now : Time) : (setDecision srv st key approve now).agents id =
      if id = key then (st.agents id).map (decided srv approve now) else st.agents id := by
  rw [setDecision, Store.setApproval, Store.withAgent_agents]
  cases approve <;> rfl

@[simp] theorem decided_discovered (srv : Identity) (approve : Bool) (now : Time) (a : Agent) :
    (decided srv approve now a).discovered = a.discovered := by
  cases approve <;> rfl

@[simp] theorem decided_online (srv : Identity) (approve : Bool) (now : Time) (a : Agent) :
    (decided srv approve now a).online = a.online := by
  cases approve <;> rfl

inductive Task.Leaves (srv : Identity) (st : Store) (now : Time) : Task → Store → Prop
  | keep (task : Task) : Leaves srv st now task st
  | hsRegister (req : HandshakeReqPayload) (existing : Option Agent) (state : Approval) :
      Leaves srv st now (.hsRegister req existing state)
        (st.register (handshakeAgent srv req existing state) now)
  | hsSetApproval (id : Id) :
      Leaves srv st now (.hsSetApproval id) (st.setApproval id .pending "" now)
  | regRegister (reg : RegisterPayload) :
      Leaves srv st now (.regRegister reg) (st.register (registerAgent reg) now)
  | dispatching (id : Id) (m : Message) :
      Leaves srv st now (.dispatching id m) (dispatch st id now m)
  | endSetOnline (id : Id) : Leaves srv st now (.endSetOnline id) (st.setOnline id false now)
  | endOffline (id : Id) : Leaves srv st now (.endOffline id) (st.addOfflineEvent id now)
  | discStore (d : DiscoverPayload) :
      Leaves srv st now (.discStore d) (st.discover (discoverAgent d) now)
  | unAdd (req : UninstallReqPayload) (r : UninstallRequest) :
      Leaves srv st now (.unAdd req) (st.addUninstallRequest r)
  | ruDecide (id : Id) (username : String) :
      Leaves srv st now (.ruDecide id username) (st.decideUninstall id true username now)
  | rmDelete (id : Id) : Leaves srv st now (.rmDelete id) (st.removeRecords id)
  | rmTombstone (id : Id) : Leaves srv st now (.rmTombstone id) (st.tombstone id)
  | loadStore (r : PersistRecord) (rs : List PersistRecord) :
      Leaves srv st now (.loadStore r rs) (st.loadRecord r)

theorem afterRegister_store (srv : Identity) (st : Store) (id : Id) (state : Approval) :
    (afterRegister srv st id state).store = st := by
  cases state <;> rfl

/-- The inversion of a section: the stores that it can leave. -/
theorem Task.move_leaves (srv : Identity) (st : Store) (now : Time) (task : Task) :
    task.Leaves srv st now (task.move srv st now).store := by
  cases task with
  | hsGetAgent req state | regApprovalOf reg | regIsTombstoned reg | discIsTombstoned d =>
    simp only [move]
    split <;> exact .keep _
  | hsIsTombstoned req existing state =>
    simp only [move]
    split
    · rw [afterRegister_store]
      exact .keep _
    · exact .keep _
  | hsRegister req existing state =>
    rw [move, afterRegister_store]
    exact .hsRegister req existing state
  | hsSetApproval id => exact .hsSetApproval id
  | regRegister reg => exact .regRegister reg
  | dispatching id m => exact .dispatching id m
  | endSetOnline id => exact .endSetOnline id
  | endOffline id => exact .endOffline id
  | discStore d => exact .discStore d
  | unGet req =>
    simp only [move]
    split
    · exact .keep _
    · split
      · exact .keep _
      · split <;> exact .keep _
  | unAdd req => exact .unAdd req _
  | ruDecide id username => exact .ruDecide id username
  | rmCheck id =>
    simp only [move]
    split
    · split <;> exact .keep _
    · exact .keep _
  | rmDelete id => exact .rmDelete id
  | rmTombstone id => exact .rmTombstone id
  | load rs =>
    cases rs with
    | nil => exact .keep _
    | cons r rs =>
      simp only [move]
      split <;> exact .keep _
  | loadStore r rs => exact .loadStore r rs
  | _ => exact .keep _

/-- The records of `id` that the next section of a task can leave. -/
inductive Task.Writes (srv : Identity) (st : Store) (now : Time) (id : Id) :
    Task → Option Agent → Prop
  | keep (task : Task) : Task.Writes srv st now id task (st.agents id)
  | handshake (req : HandshakeReqPayload) (existing : Option Agent) (state : Approval)
      (h : req.agentId = id) :
      Task.Writes srv st now id (.hsRegister req existing state)
        (some (Store.registered (st.agents id) (handshakeAgent srv req existing state) now))
  | pending :
      Task.Writes srv st now id (.hsSetApproval id)
        ((st.agents id).map fun a => { a with approval := .pending })
  | register (reg : RegisterPayload) (h : reg.agentId = id) :
      Task.Writes srv st now id (.regRegister reg)
        (some (Store.registered (st.agents id) (registerAgent reg) now))
  | message (m : Message) :
      Task.Writes srv st now id (.dispatching id m) ((st.agents id).map (m.touch now))
  | setOffline :
      Task.Writes srv st now id (.endSetOnline id)
        ((st.agents id).map fun a => { a with online := false, lastSeen := now })
  | offlineEvent :
      Task.Writes srv st now id (.endOffline id)
        ((st.agents id).map (Message.touch now .offline))
  | discoverNew (d : DiscoverPayload) (h : d.agentId = id) (hnone : st.agents id = none) :
      Task.Writes srv st now id (.discStore d)
        (some { discoverAgent d with discovered := true, lastSeen := now, approval := .pending })
  | discoverKnown (d : DiscoverPayload) (h : d.agentId = id) {old : Agent}
      (hsome : st.agents id = some old) (hoff : old.online = false) :
      Task.Writes srv st now id (.discStore d)
        (some (Store.refresh old (discoverAgent d) now))
  | delete : Task.Writes srv st now id (.rmDelete id) none
  | load (r : PersistRecord) (rs : List PersistRecord) (h : r.agentId = id) :
      Task.Writes srv st now id (.loadStore r rs) (some (Store.restored (st.agents id) r))

theorem discStore_writes (srv : Identity) (st : Store) (now : Time) (id : Id)
    (d : DiscoverPayload) :
    Task.Writes srv st now id (.discStore d) ((st.discover (discoverAgent d) now).agents id) := by
  by_cases h : d.agentId = id
  · subst h
    cases hrec : st.agents d.agentId with
    | none =>
      have hnew := Store.discover_agents_none st now (a := discoverAgent d) hrec
      exact hnew ▸ .discoverNew d rfl hrec
    | some old =>
      have hold := Store.discover_agents_some st now (a := discoverAgent d) hrec
      cases hon : old.online with
      | true =>
        rw [hon, if_pos rfl, ← hrec] at hold
        exact hold ▸ .keep _
      | false =>
        rw [hon, if_neg Bool.false_ne_true] at hold
        exact hold ▸ .discoverKnown d rfl hrec hon
  · rw [Store.discover_agents_of_ne st id now (Ne.symm h)]
    exact .keep _

variable {srv : Identity} {task : Task} {now : Time}

theorem Task.Writes.at_key {st : Store} {id : Id} {key : Id} {r : Option Agent}
    (h : id = key → task.Writes srv st now id r) :
    task.Writes srv st now id (if id = key then r else st.agents id) := by
  split
  · rename_i hkey
    exact h hkey
  · exact .keep task

/-- Of a store that a section leaves, the record of one host. -/
theorem Task.Leaves.writes {st st' : Store} (h : task.Leaves srv st now st')
    (id : Id) : task.Writes srv st now id (st'.agents id) := by
  cases h with
  | keep task => exact .keep task
  | hsRegister req existing state =>
    rw [Store.register_agents, handshakeAgent_agentId]
    exact .at_key fun h => .handshake req existing state h.symm
  | hsSetApproval key =>
    simp only [Store.setApproval, Store.withAgent_agents]
    exact .at_key fun h => h ▸ .pending
  | regRegister reg =>
    rw [Store.register_agents]
    exact .at_key fun h => .register reg h.symm
  | dispatching key m =>
    rw [dispatch_agents]
    exact .at_key fun h => h ▸ .message m
  | endSetOnline key =>
    rw [Store.setOnline, Store.withAgent_agents]
    exact .at_key fun h => h ▸ .setOffline
  | endOffline key =>
    rw [Store.addOfflineEvent, Store.withAgent_agents]
    exact .at_key fun h => h ▸ .offlineEvent
  | discStore d => exact discStore_writes srv st now id d
  | unAdd req r | rmTombstone key => exact .keep _
  | ruDecide key username =>
    simp only [Store.decideUninstall]
    split <;> exact .keep _
  | rmDelete key =>
    simp only [Store.removeRecords, Function.update_apply]
    exact .at_key fun h => h ▸ .delete
  | loadStore r rs =>
    rw [Store.loadRecord_agents]
    exact .at_key fun h => .load r rs h.symm

/-! ## Beside the records -/

structure Store.SameBeside (st st' : Store) : Prop where
  series : st'.series = st.series
  logs : st'.logs = st.logs
  tombstones : st'.tombstones = st.tombstones

section Beside

variable (st : Store)

theorem Store.SameBeside.refl : st.SameBeside st := ⟨rfl, rfl, rfl⟩

theorem putAgent_sameBeside (id : Id) (a : Agent) : st.SameBeside (st.putAgent id a) :=
  ⟨rfl, rfl, rfl⟩

theorem withAgent_sameBeside (id : Id) (f : Agent → Agent) : st.SameBeside (st.withAgent id f) := by
  unfold Store.withAgent
  split
  · exact putAgent_sameBeside st id _
  · exact .refl st

theorem discover_sameBeside (a : Agent) (now : Time) : st.SameBeside (st.discover a now) := by
  unfold Store.discover
  split
  · split
    · exact .refl st
    · exact putAgent_sameBeside st _ _
  · exact putAgent_sameBeside st _ _

theorem updateMetrics_series {id key : Id} (h : id ≠ key) (m : MetricsPayload) (now : Time) :
    (st.updateMetrics key m now).series id = st.series id :=
  (Function.update_of_ne h _ _).trans (congrFun (withAgent_sameBeside st key _).series id)

theorem updateMetrics_logs (key : Id) (m : MetricsPayload) (now : Time) :
    (st.updateMetrics key m now).logs = st.logs :=
  (withAgent_sameBeside st key _).logs

theorem updateMetrics_tombstones (key : Id) (m : MetricsPayload) (now : Time) :
    (st.updateMetrics key m now).tombstones = st.tombstones :=
  (withAgent_sameBeside st key _).tombstones

theorem addLog_logs {id key : Id} (h : id ≠ key) (e : LogEntry) :
    (st.addLog key e).logs id = st.logs id :=
  Function.update_of_ne h _ _

theorem decideUninstall_sameBeside (id : Id) (approved : Bool) (username : String) (now : Time) :
    st.SameBeside (st.decideUninstall id approved username now) := by
  unfold Store.decideUninstall
  split <;> exact ⟨rfl, rfl, rfl⟩

end Beside

inductive Task.WritesBeside (st : Store) : Task → Store → Prop
  | same (task : Task) {st' : Store} (h : st.SameBeside st') : WritesBeside st task st'
  | metrics (id : Id) (m : MetricsPayload) (now : Time) :
      WritesBeside st (.dispatching id (.metrics m)) (st.updateMetrics id m now)
  | log (id : Id) (e : LogEntry) : WritesBeside st (.dispatching id (.log e)) (st.addLog id e)
  | delete (id : Id) : WritesBeside st (.rmDelete id) (st.removeRecords id)
  | tombstone (id : Id) : WritesBeside st (.rmTombstone id) (st.tombstone id)

theorem dispatch_writesBeside (st : Store) (id : Id) (now : Time) (m : Message) :
    Task.WritesBeside st (.dispatching id m) (dispatch st id now m) := by
  cases m with
  | heartbeat hb | ctfDaemon state message | offline => exact .same _ (withAgent_sameBeside st id _)
  | metrics m => exact .metrics id m now
  | log e => exact .log id e
  | pong timestamp =>
    simp only [dispatch]
    split
    · exact .same _ (withAgent_sameBeside st id _)
    · exact .same _ (.refl st)
  | other => exact .same _ (.refl st)

theorem Task.Leaves.writesBeside {st st' : Store} (h : task.Leaves srv st now st') :
    task.WritesBeside st st' := by
  cases h with
  | keep task => exact .same task (.refl st)
  | hsRegister req existing state | regRegister reg | loadStore r rs =>
    exact .same _ (putAgent_sameBeside st _ _)
  | hsSetApproval id | endSetOnline id | endOffline id =>
    exact .same _ (withAgent_sameBeside st id _)
  | dispatching id m => exact dispatch_writesBeside st id now m
  | discStore d => exact .same _ (discover_sameBeside st _ now)
  | unAdd req r => exact .same _ ⟨rfl, rfl, rfl⟩
  | ruDecide id username => exact .same _ (decideUninstall_sameBeside st id true username now)
  | rmDelete id => exact .delete id
  | rmTombstone id => exact .tombstone id

/-! ## Steps of the system -/

/-- The records of `id` that a step of the system can leave. -/
inductive Rewrites (srv : Identity) (s : Sys) (id : Id) : Event → Option Agent → Prop
  | keep (e : Event) : Rewrites srv s id e (s.store.agents id)
  | prune (now : Time) :
      Rewrites srv s id (.prune now)
        ((s.store.agents id).filter fun a => !Store.stale (now - pruneTimeout) a)
  | decide (approve : Bool) (now : Time) :
      Rewrites srv s id (.decide id approve now)
        ((s.store.agents id).map (decided srv approve now))
  | run (t : Tid) (now : Time) {r : Option Agent}
      (h : (s.tasks t).Writes srv s.store now id r) : Rewrites srv s id (.run t now) r

theorem closeConn_store (s : Sys) (old : Option Tid) : (s.closeConn old).store = s.store := by
  cases old <;> rfl

theorem leaveSession_store (s : Sys) (t : Tid) (id : Id) :
    (s.leaveSession t id).store = s.store := by
  unfold Sys.leaveSession
  split <;> rfl

/-- Of a state that a step leaves, the record of one host. -/
theorem Step.rewrites {s s' : Sys} {e : Event} (h : Step srv s e s') (id : Id) :
    Rewrites srv s id e (s'.store.agents id) := by
  cases h with
  | prune now => exact .prune now
  | decide key approve now =>
    simp only [setDecision_agents]
    split
    · rename_i hkey
      exact hkey ▸ .decide approve now
    · exact .keep _
  | decideUninstall key approved username now =>
    simp only [Store.decideUninstall]
    split <;> exact .keep _
  | enterSession now htask =>
    simp only [Sys.goto, Sys.enterSession, closeConn_store]
    exact .keep _
  | leaveSession now htask =>
    simp only [Sys.goto, leaveSession_store]
    exact .keep _
  | move t now => exact .run t now ((Task.move_leaves srv s.store now (s.tasks t)).writes id)
  | _ => exact .keep _

theorem Step.beside {s s' : Sys} {e : Event} (h : Step srv s e s') :
    s.store.SameBeside s'.store ∨
      ∃ t now, e = .run t now ∧ (s.tasks t).WritesBeside s.store s'.store := by
  cases h with
  | prune now => exact .inl ⟨rfl, rfl, rfl⟩
  | decide key approve now => exact .inl (withAgent_sameBeside s.store key _)
  | decideUninstall key approved username now =>
    exact .inl (decideUninstall_sameBeside s.store key approved username now)
  | enterSession now htask =>
    rw [Sys.goto, Sys.enterSession, closeConn_store]
    exact .inl (.refl _)
  | leaveSession now htask =>
    rw [Sys.goto, leaveSession_store]
    exact .inl (.refl _)
  | move t now => exact .inr ⟨t, now, rfl,
    (Task.move_leaves srv s.store now (s.tasks t)).writesBeside⟩
  | _ => exact .inl (.refl _)

/-- The inversion of a step, for the record of one host. -/
theorem step_rewrites (srv : Identity) (s : Sys) (e : Event) (id : Id) :
    Rewrites srv s id e ((step srv s e).store.agents id) :=
  (step_spec srv s e).rewrites id

end CtForge.Server
