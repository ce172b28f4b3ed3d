import CtForge.Server.Records

/-!
# How often a host went offline

`AddOfflineEvent` is called from two places: the deferred cleanup of a connection, and the
handler of the notice that a host sends before it goes. `Accounting` is the server with
the connections that have ended and the notices that were handled, by host.
-/

namespace CtForge.Server

open Runs Option

/-! ## The server with its accounts -/

def recordCount : Option Agent → Nat
  | some a => a.offlineCount
  | none => 0

/-- `OfflineCountOf`. -/
def Store.offlineCountOf (st : Store) (id : Id) : Nat := recordCount (st.agents id)

/-- The step completes the deferred cleanup of a registered connection of `id`. -/
def endsConnection (srv : Identity) (s : Sys) (id : Id) : Event → Bool
  | .run t now =>
    match s.tasks t, (step srv s (.run t now)).tasks t with
    | .endOffline key, .finished => key == id
    | _, _ => false
  | _ => false

/-- The step handles an offline notice of `id`. -/
def handlesNotice (srv : Identity) (s : Sys) (id : Id) : Event → Bool
  | .run t now =>
    match s.tasks t, (step srv s (.run t now)).tasks t with
    | .dispatching key .offline, .serving _ => key == id
    | _, _ => false
  | _ => false

structure Accounting where
  sys : Sys
  ended : Id → Nat
  notices : Id → Nat

namespace Accounting

def start (st : Store) : Accounting where
  sys := Sys.start st
  ended := fun _ => 0
  notices := fun _ => 0

def step (srv : Identity) (s : Accounting) (e : Event) : Accounting where
  sys := Server.step srv s.sys e
  ended := fun id => s.ended id + (endsConnection srv s.sys id e).toNat
  notices := fun id => s.notices id + (handlesNotice srv s.sys id e).toNat

end Accounting

/-- The events of connections, beacons and decisions; the removal of hosts and `Load` are
left out. -/
def Event.ofConnections : Event → Bool
  | .accept _ _ (some (.uninstallReq ..)) => false
  | .accept .. | .receive .. | .hangup _ | .packet .. | .decide .. | .decideUninstall .. => true
  | .run .. => true
  | _ => false

/-! ## Where the tasks of such a run stand -/

/-- The task belongs to a removal, an uninstall request or `Load`. -/
def Task.disturbs : Task → Bool
  | .unGet _ | .unAdd _ | .ruDecide .. | .rmCheck _ | .rmDelete _ | .rmTombstone _ => true
  | .load _ | .loadStore .. => true
  | _ => false

def Task.knows : Task → Option Id
  | .hsIsTombstoned req (some _) _ | .hsRegister req (some _) _ => some req.agentId
  | .regIsTombstoned reg | .regRegister reg => some reg.agentId
  | .regSession id | .serving id | .dispatching id _ => some id
  | .endSession id | .endSetOnline id | .endOffline id => some id
  | _ => none

/-- No task disturbs the records, and every record that a task has seen is there. -/
structure Calm (s : Sys) : Prop where
  quiet : ∀ t, (s.tasks t).disturbs = false
  known : ∀ t id, (s.tasks t).knows = some id → (s.store.agents id).isSome = true

section Tasks

variable {srv : Identity} {s : Sys} {st : Store} {now : Time}

theorem approvalOf_known {id : Id} (h : st.approvalOf id = .approved) :
    (st.agents id).isSome = true := by
  unfold Store.approvalOf at h
  split at h
  · rename_i a ha
    rw [ha]
    rfl
  · cases h

variable {task : Task}

/-- The next section of a task that disturbs nothing leads to one that does not either, and
what that one has seen the task had seen, or sees now. -/
theorem Task.move_calm (h : task.disturbs = false) :
    (task.move srv st now).next.disturbs = false ∧
    ∀ id, (task.move srv st now).next.knows = some id →
      task.knows = some id ∨ (st.agents id).isSome = true := by
  cases task with
  | hsGetAgent req state =>
    by_cases hbound : boundElsewhere srv (st.getAgent req.agentId) = true
    · simp only [Task.move, if_pos hbound]
      exact ⟨rfl, fun id hid => by cases hid⟩
    · simp only [Task.move, if_neg hbound]
      refine ⟨rfl, fun id hid => .inr ?_⟩
      cases hrec : st.getAgent req.agentId with
      | none =>
        rw [hrec] at hid
        cases hid
      | some a =>
        rw [hrec] at hid
        obtain rfl := some.inj hid
        exact isSome_iff_exists.mpr ⟨a, hrec⟩
  | hsIsTombstoned req existing state =>
    simp only [Task.move]
    split
    · cases state <;> exact ⟨rfl, fun id hid => by cases hid⟩
    · refine ⟨rfl, fun id hid => .inl ?_⟩
      cases existing <;> exact hid
  | hsRegister req existing state =>
    cases state <;> exact ⟨rfl, fun id hid => by cases hid⟩
  | regApprovalOf reg =>
    simp only [Task.move]
    split
    · exact ⟨rfl, fun id hid => by cases hid⟩
    · rename_i happ
      refine ⟨rfl, fun id hid => .inr ?_⟩
      obtain rfl := some.inj hid
      exact approvalOf_known happ
    · exact ⟨rfl, fun id hid => by cases hid⟩
  | regIsTombstoned reg =>
    simp only [Task.move]
    split <;> exact ⟨rfl, fun id hid => .inl hid⟩
  | discIsTombstoned d =>
    simp only [Task.move]
    split <;> exact ⟨rfl, fun id hid => by cases hid⟩
  | hsApprovalOf req | hsSetApproval id | discStore d | endOffline id =>
    exact ⟨rfl, fun id hid => by cases hid⟩
  | unGet req | unAdd req | ruDecide id username | rmCheck id | rmDelete id | rmTombstone id
  | load rs | loadStore r rs => cases h
  | _ => exact ⟨rfl, fun id hid => .inl hid⟩

theorem greet_calm (srv : Identity) (ip : String) {hello : Option Hello}
    (h : ∀ token req, hello ≠ some (.uninstallReq token req)) :
    (greet srv ip hello).1.disturbs = false ∧ (greet srv ip hello).1.knows = none := by
  rcases hello with _ | ⟨token, req⟩ | ⟨token, req⟩ | ⟨token, reg⟩
  · exact ⟨rfl, rfl⟩
  · simp only [greet]
    split
    · exact ⟨rfl, rfl⟩
    · split <;> exact ⟨rfl, rfl⟩
  · exact absurd rfl (h token req)
  · simp only [greet]
    split
    · exact ⟨rfl, rfl⟩
    · split <;> exact ⟨rfl, rfl⟩

theorem beacon_calm (ip : String) (d : DiscoverPayload) :
    (beacon ip d).disturbs = false ∧ (beacon ip d).knows = none := by
  simp only [beacon]
  split <;> exact ⟨rfl, rfl⟩

/-- The task `t` may stand there next: it disturbs nothing, and what it has seen is there. -/
def CalmNext (s : Sys) (t : Tid) (task : Task) : Prop :=
  task.disturbs = false ∧
    ∀ id, task.knows = some id → (s.tasks t).knows = some id ∨ (s.store.agents id).isSome = true

theorem Calm.keep (hs : Calm s) (t : Tid) : CalmNext s t (s.tasks t) :=
  ⟨hs.quiet t, fun _ hid => .inl hid⟩

theorem Calm.goto (hs : Calm s) (s' : Sys) (htasks : s'.tasks = s.tasks) {u : Tid}
    (hnext : CalmNext s u task) (replies : List Reply) (t : Tid) :
    CalmNext s t ((s'.goto u task replies).tasks t) := by
  rw [goto_tasks, htasks]
  split
  · rename_i hu
    exact hu ▸ hnext
  · exact hs.keep t

theorem Calm.spawn (hs : Calm s) (u : Tid) (hcalm : task.disturbs = false ∧ task.knows = none)
    (replies : List Reply) (t : Tid) : CalmNext s t ((s.spawn u task replies).tasks t) := by
  unfold Sys.spawn
  split
  · refine hs.goto s rfl ⟨hcalm.1, fun id hid => ?_⟩ replies t
    rw [hcalm.2] at hid
    cases hid
  · exact hs.keep t

/-- Where the tasks of a calm server stand after a step. -/
theorem Calm.tasks_after (hs : Calm s) {e : Event} (he : e.ofConnections = true) (t : Tid) :
    CalmNext s t ((step srv s e).tasks t) := by
  have hsame : ∀ {u : Tid} {task : Task} (next : Task), s.tasks u = task →
      next.disturbs = false → next.knows = task.knows → CalmNext s u next := by
    rintro u task next rfl hdisturbs hknows
    exact ⟨hdisturbs, fun id hid => .inl (hknows ▸ hid)⟩
  cases e with
  | accept u ip hello =>
    refine hs.spawn u (greet_calm srv ip fun token req hhello => ?_) _ t
    rw [hhello] at he
    cases he
  | receive u m =>
    simp only [step]
    split
    · rename_i id htask
      split
      · exact hs.keep t
      · exact hs.goto s rfl (hsame (.dispatching id m) htask rfl rfl) _ t
    · exact hs.keep t
  | hangup u =>
    simp only [step]
    split
    · rename_i id htask
      exact hs.goto s rfl (hsame (.endSession id) htask rfl rfl) _ t
    · exact hs.keep t
  | packet u ip d => exact hs.spawn u (beacon_calm ip d) _ t
  | decide key approve now =>
    simp only [step]
    split <;> exact hs.keep t
  | decideUninstall key approved username now => exact hs.keep t
  | run u now =>
    simp only [step, advance]
    split
    · rename_i id htask
      exact hs.goto (s.enterSession u id) (closeConn_tasks ..)
        (hsame (.serving id) htask rfl rfl) _ t
    · rename_i id htask
      exact hs.goto _ (leaveSession_tasks ..) (hsame (.endSetOnline id) htask rfl rfl) _ t
    · rename_i htask
      have hquiet := hs.quiet u
      rw [htask] at hquiet
      cases hquiet
    · split
      · exact hs.keep t
      · exact hs.goto s rfl (Task.move_calm (hs.quiet u)) [] t
  | prune now | remoteUninstall u key username | delete u key | load u rs => cases he

end Tasks

/-! ## The record of one host -/

section Records

variable {srv : Identity} {s : Sys} {id : Id} {e : Event}

theorem Calm.record_stays (hs : Calm s) (he : e.ofConnections = true)
    (hrec : (s.store.agents id).isSome = true) :
    ((step srv s e).store.agents id).isSome = true := by
  have hrw := step_rewrites srv s e id
  generalize (step srv s e).store.agents id = after at hrw
  cases hrw with
  | keep e => exact hrec
  | prune now => cases he
  | decide approve now => rwa [isSome_map]
  | run t now hw =>
    have hquiet := hs.quiet t
    generalize s.tasks t = task at hw hquiet
    cases hw with
    | keep task => exact hrec
    | pending | message m | setOffline | offlineEvent => rwa [isSome_map]
    | delete => cases hquiet
    | _ => rfl

theorem Calm.after_step (hs : Calm s) (he : e.ofConnections = true) : Calm (step srv s e) := by
  refine ⟨fun t => (hs.tasks_after he t).1, fun t id hid => ?_⟩
  rcases (hs.tasks_after he t).2 id hid with hknown | hrec
  · exact hs.record_stays he (hs.known t id hknown)
  · exact hs.record_stays he hrec

theorem recordCount_map {r : Option Agent} {f : Agent → Agent}
    (hf : ∀ a, (f a).offlineCount = a.offlineCount) : recordCount (r.map f) = recordCount r := by
  cases r with
  | none => rfl
  | some a => exact hf a

theorem registered_count (old? : Option Agent) {a : Agent} (now : Time)
    (hnew : old? = none → a.offlineCount = 0) :
    (Store.registered old? a now).offlineCount = recordCount old? := by
  cases old? with
  | none => exact hnew rfl
  | some old =>
    simp only [Store.registered, Store.keepStable]
    split <;> rfl

theorem handshakeAgent_count (srv : Identity) (req : HandshakeReqPayload)
    (existing : Option Agent) (state : Approval) :
    (handshakeAgent srv req existing state).offlineCount = recordCount existing := by
  cases existing <;> cases state <;> rfl

/-- The task is about to count for `id`. -/
def Task.counts (id : Id) : Task → Bool
  | .endOffline key | .dispatching key .offline => key == id
  | _ => false

variable {st : Store}

/-- A task that does not count leaves the count of a record alone. -/
theorem Task.Writes.offlineCount {now : Time} {task : Task} {r : Option Agent}
    (hw : task.Writes srv st now id r) (hcounts : task.counts id = false)
    (hquiet : task.disturbs = false)
    (hknown : task.knows = some id → (st.agents id).isSome = true) :
    recordCount r = st.offlineCountOf id := by
  cases hw with
  | keep task => rfl
  | handshake req existing state hid =>
    refine registered_count _ now fun hnone => ?_
    rw [handshakeAgent_count]
    cases existing with
    | none => rfl
    | some e =>
      have hsome := hknown (congrArg some hid)
      rw [hnone] at hsome
      cases hsome
  | pending | setOffline => exact recordCount_map fun _ => rfl
  | register reg hid => exact registered_count _ now fun _ => rfl
  | message m =>
    refine recordCount_map fun a => ?_
    cases m with
    | offline => simp [Task.counts] at hcounts
    | pong timestamp =>
      simp only [Message.touch]
      split <;> rfl
    | _ => rfl
  | offlineEvent => simp [Task.counts] at hcounts
  | discoverNew d hid hnone =>
    rw [Store.offlineCountOf, hnone]
    rfl
  | discoverKnown d hid hsome hoff =>
    rw [Store.offlineCountOf, hsome]
    rfl
  | delete | load p rs hid => cases hquiet

variable {key : Id}

variable {t : Tid}

end Records

end CtForge.Server
