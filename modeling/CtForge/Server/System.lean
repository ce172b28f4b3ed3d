import CtForge.Lib.Runs
import CtForge.Server.AgentConn

/-!
# The server as a transition system

The state is the store, the session table and where every task stands. One step
lets one task take its next critical section, or lets the network, the
administrator or the pruning timer act; an event that does not apply leaves the
state as it is. A run is a list of events, so that a statement about every run
is a statement about every interleaving of critical sections.

`Load` holds `agentsMu` across its sections, and while it does no other section
that needs the lock is taken. An administrator's approval looks for the record
and then calls `SetApproval`, which does nothing for a host without one; the
decision is the single section of `SetApproval`. Discovery packets are handled
by one goroutine in the code and by any number of tasks here.

`step_spec` says once what a step can do; the invariants of the other modules
are proved from it.
-/

namespace CtForge.Server

open Function

structure Sys where
  store : Store
  sessions : Id → Option Tid
  tasks : Tid → Task
  closed : Tid → Bool
  /-- The `Load` that holds `agentsMu`. -/
  loader : Option Tid
  sent : Tid → List Reply

def Sys.start (store : Store) : Sys where
  store := store
  sessions := fun _ => none
  tasks := fun _ => .idle
  closed := fun _ => false
  loader := none
  sent := fun _ => []

inductive Event where
  /-- A connection comes in and sends its first frame, or none that decodes. -/
  | accept (t : Tid) (ip : String) (hello : Option Hello)
  | receive (t : Tid) (m : Message)
  /-- `Decode` fails on a served connection. -/
  | hangup (t : Tid)
  | packet (t : Tid) (ip : String) (d : DiscoverPayload)
  | prune (now : Time)
  | decide (id : Id) (approve : Bool) (now : Time)
  | decideUninstall (id : Id) (approved : Bool) (username : String) (now : Time)
  | remoteUninstall (t : Tid) (id : Id) (username : String)
  | delete (t : Tid) (id : Id)
  | load (t : Tid) (rs : List PersistRecord)
  | run (t : Tid) (now : Time)

namespace Sys

def goto (s : Sys) (t : Tid) (task : Task) (replies : List Reply) : Sys :=
  { s with
    tasks := Function.update s.tasks t task
    sent := Function.update s.sent t (s.sent t ++ replies) }

def spawn (s : Sys) (t : Tid) (task : Task) (replies : List Reply) : Sys :=
  match s.tasks t with
  | .idle => s.goto t task replies
  | _ => s

def closeConn (s : Sys) : Option Tid → Sys
  | some old => { s with closed := Function.update s.closed old true }
  | none => s

/-- The connection `t` of `id` takes the entry of the session table; the one that
had it is closed. -/
def enterSession (s : Sys) (t : Tid) (id : Id) : Sys :=
  { s.closeConn (s.sessions id) with sessions := Function.update s.sessions id (some t) }

/-- The connection `t` of `id` gives its entry back, if it still has it. -/
def leaveSession (s : Sys) (t : Tid) (id : Id) : Sys :=
  if s.sessions id = some t then { s with sessions := Function.update s.sessions id none } else s

end Sys

/-- The pruning timer's `timeout`, three minutes. -/
def pruneTimeout : Time := 180 * 1000000000

/-- What the administrator's decision calls `SetApproval` with. -/
def verdict (approve : Bool) : Approval := if approve then .approved else .rejected

def setDecision (srv : Identity) (st : Store) (id : Id) (approve : Bool) (now : Time) : Store :=
  st.setApproval id (verdict approve) (if approve then srv.serverId else "") now

/-- One critical section of the task `t`. -/
def advance (srv : Identity) (s : Sys) (t : Tid) (now : Time) : Sys :=
  match s.tasks t with
  | .regSession id => (s.enterSession t id).goto t (.serving id) [.ack true "registered"]
  | .endSession id => (s.leaveSession t id).goto t (.endSetOnline id) []
  | .load [] => { s.goto t .finished [] with loader := none }
  | task =>
    if task.locksAgents && s.loader.isSome then s
    else
      let m := task.move srv s.store now
      { s.goto t m.next m.replies with store := m.store }

def step (srv : Identity) (s : Sys) : Event → Sys
  | .accept t ip hello => s.spawn t (greet srv ip hello).1 (greet srv ip hello).2
  | .receive t m =>
    match s.tasks t with
    | .serving id => if s.closed t then s else s.goto t (.dispatching id m) []
    | _ => s
  | .hangup t =>
    match s.tasks t with
    | .serving id => s.goto t (.endSession id) []
    | _ => s
  | .packet t ip d => s.spawn t (beacon ip d) []
  | .prune now =>
    if s.loader.isSome then s
    else { s with store := s.store.pruneDiscovered pruneTimeout now }
  | .decide id approve now =>
    if s.loader.isSome then s else { s with store := setDecision srv s.store id approve now }
  | .decideUninstall id approved username now =>
    { s with store := s.store.decideUninstall id approved username now }
  | .remoteUninstall t id username =>
    if (s.sessions id).isSome then s.spawn t (.ruDecide id username) [] else s
  | .delete t id => s.spawn t (.rmCheck id) []
  | .load t rs =>
    match s.tasks t, s.loader with
    | .idle, none => { s.goto t (.load rs) [] with loader := some t }
    | _, _ => s
  | .run t now => advance srv s t now

/-! ## What a step can do -/

def Task.fresh : Task → Bool
  | .hsApprovalOf _ | .regApprovalOf _ | .unGet _ | .discIsTombstoned _ => true
  | .rmCheck _ | .ruDecide .. | .finished => true
  | _ => false

inductive Step (srv : Identity) (s : Sys) : Event → Sys → Prop
  | stay (e : Event) : Step srv s e s
  | enter {e : Event} {t : Tid} {task : Task} (replies : List Reply) (hidle : s.tasks t = .idle)
      (hfresh : task.fresh = true) : Step srv s e (s.goto t task replies)
  | receive {t : Tid} {id : Id} (m : Message) (htask : s.tasks t = .serving id)
      (hopen : s.closed t = false) :
      Step srv s (.receive t m) (s.goto t (.dispatching id m) [])
  | hangup {t : Tid} {id : Id} (htask : s.tasks t = .serving id) :
      Step srv s (.hangup t) (s.goto t (.endSession id) [])
  | prune (now : Time) :
      Step srv s (.prune now) { s with store := s.store.pruneDiscovered pruneTimeout now }
  | decide (id : Id) (approve : Bool) (now : Time) :
      Step srv s (.decide id approve now)
        { s with store := setDecision srv s.store id approve now }
  | decideUninstall (id : Id) (approved : Bool) (username : String) (now : Time) :
      Step srv s (.decideUninstall id approved username now)
        { s with store := s.store.decideUninstall id approved username now }
  | lock {t : Tid} (rs : List PersistRecord) (hidle : s.tasks t = .idle)
      (hfree : s.loader = none) :
      Step srv s (.load t rs) { s.goto t (.load rs) [] with loader := some t }
  | unlock {t : Tid} (now : Time) (htask : s.tasks t = .load []) :
      Step srv s (.run t now) { s.goto t .finished [] with loader := none }
  | enterSession {t : Tid} {id : Id} (now : Time) (htask : s.tasks t = .regSession id) :
      Step srv s (.run t now)
        ((s.enterSession t id).goto t (.serving id) [.ack true "registered"])
  | leaveSession {t : Tid} {id : Id} (now : Time) (htask : s.tasks t = .endSession id) :
      Step srv s (.run t now) ((s.leaveSession t id).goto t (.endSetOnline id) [])
  | move (t : Tid) (now : Time) :
      Step srv s (.run t now)
        { s.goto t ((s.tasks t).move srv s.store now).next
            ((s.tasks t).move srv s.store now).replies with
          store := ((s.tasks t).move srv s.store now).store }

theorem greet_fresh (srv : Identity) (ip : String) (hello : Option Hello) :
    (greet srv ip hello).1.fresh = true := by
  rcases hello with _ | ⟨token, req⟩ | ⟨token, req⟩ | ⟨token, reg⟩ <;> simp only [greet]
  · rfl
  · split
    · rfl
    · split <;> rfl
  · split <;> rfl
  · split
    · rfl
    · split <;> rfl

theorem beacon_fresh (ip : String) (d : DiscoverPayload) : (beacon ip d).fresh = true := by
  simp only [beacon]
  split <;> rfl

variable {task : Task}

theorem Step.spawn (srv : Identity) (s : Sys) (e : Event) (t : Tid) (replies : List Reply)
    (hfresh : task.fresh = true) : Step srv s e (s.spawn t task replies) := by
  unfold Sys.spawn
  split
  · rename_i hidle
    exact .enter replies hidle hfresh
  · exact .stay e

theorem advance_spec (srv : Identity) (s : Sys) (t : Tid) (now : Time) :
    Step srv s (.run t now) (advance srv s t now) := by
  unfold advance
  split
  · rename_i id htask
    exact .enterSession now htask
  · rename_i id htask
    exact .leaveSession now htask
  · rename_i htask
    exact .unlock now htask
  · split
    · exact .stay _
    · exact .move t now

/-- What one step of the server can do. -/
theorem step_spec (srv : Identity) (s : Sys) (e : Event) : Step srv s e (step srv s e) := by
  cases e with
  | accept t ip hello => exact .spawn srv s _ t _ (greet_fresh srv ip hello)
  | receive t m =>
    simp only [step]
    split
    · rename_i id htask
      split
      · exact .stay _
      · rename_i hopen
        exact .receive m htask (by simpa using hopen)
    · exact .stay _
  | hangup t =>
    simp only [step]
    split
    · rename_i id htask
      exact .hangup htask
    · exact .stay _
  | packet t ip d => exact .spawn srv s _ t _ (beacon_fresh ip d)
  | prune now =>
    simp only [step]
    split
    · exact .stay _
    · exact .prune now
  | decide id approve now =>
    simp only [step]
    split
    · exact .stay _
    · exact .decide id approve now
  | decideUninstall id approved username now => exact .decideUninstall id approved username now
  | remoteUninstall t id username =>
    simp only [step]
    split
    · exact .spawn srv s _ t _ rfl
    · exact .stay _
  | delete t id => exact .spawn srv s _ t _ rfl
  | load t rs =>
    simp only [step]
    split
    · rename_i hidle hfree
      exact .lock rs hidle hfree
    · exact .stay _
  | run t now => exact advance_spec srv s t now

inductive Task.Follows (st : Store) : Task → Task → Prop
  | stay (task : Task) : Follows st task task
  | finish (task : Task) : Follows st task .finished
  | hsGetAgent (req : HandshakeReqPayload) :
      Follows st (.hsApprovalOf req) (.hsGetAgent req (st.approvalOf req.agentId))
  | hsIsTombstoned (req : HandshakeReqPayload) (existing : Option Agent) (state : Approval) :
      Follows st (.hsGetAgent req state) (.hsIsTombstoned req existing state)
  | hsRegister {req : HandshakeReqPayload} (existing : Option Agent) (state : Approval)
      (h : st.isTombstoned req.agentId = false) :
      Follows st (.hsIsTombstoned req existing state) (.hsRegister req existing state)
  | hsSkipped (req : HandshakeReqPayload) (existing : Option Agent) {state : Approval}
      (h : state.undecided = true) :
      Follows st (.hsIsTombstoned req existing state) (.hsSetApproval req.agentId)
  | hsSetApproval (req : HandshakeReqPayload) (existing : Option Agent) {state : Approval}
      (h : state.undecided = true) :
      Follows st (.hsRegister req existing state) (.hsSetApproval req.agentId)
  | regIsTombstoned {reg : RegisterPayload} (h : st.approvalOf reg.agentId = .approved) :
      Follows st (.regApprovalOf reg) (.regIsTombstoned reg)
  | regRegister {reg : RegisterPayload} (h : st.isTombstoned reg.agentId = false) :
      Follows st (.regIsTombstoned reg) (.regRegister reg)
  | regSkipped {reg : RegisterPayload} (h : st.isTombstoned reg.agentId = true) :
      Follows st (.regIsTombstoned reg) (.regSession reg.agentId)
  | regSession (reg : RegisterPayload) : Follows st (.regRegister reg) (.regSession reg.agentId)
  | serving (id : Id) (m : Message) : Follows st (.dispatching id m) (.serving id)
  | endOffline (id : Id) : Follows st (.endSetOnline id) (.endOffline id)
  | discStore {d : DiscoverPayload} (h : st.isTombstoned d.agentId = false) :
      Follows st (.discIsTombstoned d) (.discStore d)
  | unAdd (req : UninstallReqPayload) : Follows st (.unGet req) (.unAdd req)
  | unRemove (req : UninstallReqPayload) : Follows st (.unGet req) (.rmDelete req.agentId)
  | ruRemove (id : Id) (username : String) : Follows st (.ruDecide id username) (.rmDelete id)
  | rmDelete (id : Id) : Follows st (.rmCheck id) (.rmDelete id)
  | rmTombstone (id : Id) : Follows st (.rmDelete id) (.rmTombstone id)
  | loadSkip (r : PersistRecord) (rs : List PersistRecord) : Follows st (.load (r :: rs)) (.load rs)
  | loadStore {r : PersistRecord} (rs : List PersistRecord)
      (h : st.isTombstoned r.agentId = false) : Follows st (.load (r :: rs)) (.loadStore r rs)
  | loadNext (r : PersistRecord) (rs : List PersistRecord) :
      Follows st (.loadStore r rs) (.load rs)

theorem afterRegister_next (srv : Identity) (st : Store) (id : Id) (state : Approval) :
    (afterRegister srv st id state).next =
      if state.undecided then .hsSetApproval id else .finished := by
  cases state <;> rfl

/-- Where a task goes next. -/
theorem Task.move_follows (srv : Identity) (st : Store) (now : Time) (task : Task) :
    task.Follows st (task.move srv st now).next := by
  cases task with
  | hsApprovalOf req => exact .hsGetAgent req
  | hsGetAgent req state =>
    simp only [move]
    split
    · exact .finish _
    · exact .hsIsTombstoned req _ state
  | hsIsTombstoned req existing state =>
    simp only [move]
    split
    · rw [afterRegister_next]
      split
      · exact .hsSkipped req existing ‹_›
      · exact .finish _
    · exact .hsRegister existing state (Bool.eq_false_iff.mpr ‹_›)
  | hsRegister req existing state =>
    simp only [move, afterRegister_next]
    split
    · exact .hsSetApproval req existing ‹_›
    · exact .finish _
  | regApprovalOf reg =>
    simp only [move]
    split
    · exact .finish _
    · exact .regIsTombstoned ‹_›
    · exact .finish _
  | regIsTombstoned reg =>
    simp only [move]
    split
    · exact .regSkipped ‹_›
    · exact .regRegister (Bool.eq_false_iff.mpr ‹_›)
  | regRegister reg => exact .regSession reg
  | dispatching id m => exact .serving id m
  | endSetOnline id => exact .endOffline id
  | discIsTombstoned d =>
    simp only [move]
    split
    · exact .finish _
    · exact .discStore (Bool.eq_false_iff.mpr ‹_›)
  | unGet req =>
    simp only [move]
    split
    · exact .unAdd req
    · split
      · exact .unAdd req
      · split
        · exact .unRemove req
        · exact .finish _
  | ruDecide id username => exact .ruRemove id username
  | rmCheck id =>
    simp only [move]
    split
    · split
      · exact .finish _
      · exact .rmDelete id
    · exact .finish _
  | rmDelete id => exact .rmTombstone id
  | load rs =>
    cases rs with
    | nil => exact .stay _
    | cons r rs =>
      simp only [move]
      split
      · exact .loadSkip r rs
      · exact .loadStore rs (Bool.eq_false_iff.mpr ‹_›)
  | loadStore r rs => exact .loadNext r rs
  | hsSetApproval id | endOffline id | discStore d | unAdd req | rmTombstone id => exact .finish _
  | idle | regSession id | serving id | endSession id | finished => exact .stay _

def Task.onStore : Task → Bool
  | .regSession _ | .endSession _ | .load [] => false
  | _ => true

variable {s : Sys}

theorem step_run (srv : Identity) {t : Tid} (now : Time) (htask : s.tasks t = task)
    (hstore : task.onStore = true) :
    step srv s (.run t now) = s ∨
      step srv s (.run t now) =
        { s.goto t (task.move srv s.store now).next (task.move srv s.store now).replies with
          store := (task.move srv s.store now).store } := by
  simp only [step, advance, htask]
  split
  · cases hstore
  · cases hstore
  · cases hstore
  · split
    · exact .inl rfl
    · exact .inr rfl

/-- Where the task `t` can stand after a step. -/
inductive Goes (s : Sys) (t : Tid) : Event → Task → Prop
  | keep (e : Event) : Goes s t e (s.tasks t)
  | enter {e : Event} {task : Task} (hidle : s.tasks t = .idle) (hfresh : task.fresh = true) :
      Goes s t e task
  | receive {id : Id} (m : Message) (htask : s.tasks t = .serving id) :
      Goes s t (.receive t m) (.dispatching id m)
  | hangup {id : Id} (htask : s.tasks t = .serving id) :
      Goes s t (.hangup t) (.endSession id)
  | lock (rs : List PersistRecord) (hidle : s.tasks t = .idle) :
      Goes s t (.load t rs) (.load rs)
  | unlock (now : Time) (htask : s.tasks t = .load []) : Goes s t (.run t now) .finished
  | enterSession {id : Id} (now : Time) (htask : s.tasks t = .regSession id) :
      Goes s t (.run t now) (.serving id)
  | leaveSession {id : Id} (now : Time) (htask : s.tasks t = .endSession id) :
      Goes s t (.run t now) (.endSetOnline id)
  | move (now : Time) {task : Task} (h : (s.tasks t).Follows s.store task) :
      Goes s t (.run t now) task

theorem goto_tasks (s : Sys) (t u : Tid) (task : Task) (replies : List Reply) :
    (s.goto t task replies).tasks u = if u = t then task else s.tasks u :=
  update_apply ..

theorem closeConn_tasks (s : Sys) (old : Option Tid) : (s.closeConn old).tasks = s.tasks := by
  cases old <;> rfl

theorem leaveSession_tasks (s : Sys) (t : Tid) (id : Id) :
    (s.leaveSession t id).tasks = s.tasks := by
  unfold Sys.leaveSession
  split <;> rfl

variable {e : Event}

theorem Goes.at_task {t u : Tid} (h : Goes s t e task) :
    Goes s u e (if u = t then task else s.tasks u) := by
  split
  · rename_i hu
    exact hu ▸ h
  · exact .keep e

variable {srv : Identity}

/-- Where one goroutine stands after a step. -/
theorem Step.goes {s s' : Sys} (h : Step srv s e s') (u : Tid) : Goes s u e (s'.tasks u) := by
  cases h with
  | enter replies hidle hfresh =>
    rw [goto_tasks]
    exact .at_task (.enter hidle hfresh)
  | receive m htask hopen =>
    rw [goto_tasks]
    exact .at_task (.receive m htask)
  | hangup htask =>
    rw [goto_tasks]
    exact .at_task (.hangup htask)
  | lock rs hidle hfree =>
    simp only [goto_tasks]
    exact .at_task (.lock rs hidle)
  | unlock now htask =>
    simp only [goto_tasks]
    exact .at_task (.unlock now htask)
  | enterSession now htask =>
    rw [goto_tasks, Sys.enterSession, closeConn_tasks]
    exact .at_task (.enterSession now htask)
  | leaveSession now htask =>
    rw [goto_tasks, leaveSession_tasks]
    exact .at_task (.leaveSession now htask)
  | move t now =>
    simp only [goto_tasks]
    exact .at_task (.move now (Task.move_follows srv s.store now (s.tasks t)))
  | _ => exact .keep _

theorem step_tasks_of_ne {t : Tid} (hidle : s.tasks t ≠ .idle)
    (hserving : ∀ id, s.tasks t ≠ .serving id) (he : ∀ now, e ≠ .run t now) :
    (step srv s e).tasks t = s.tasks t := by
  have hgoes := (step_spec srv s e).goes t
  generalize (step srv s e).tasks t = task at hgoes
  cases hgoes with
  | keep => rfl
  | enter h | lock rs h => exact absurd h hidle
  | receive m h | hangup h => exact absurd h (hserving _)
  | _ => exact absurd rfl (he _)

theorem step_goes (srv : Identity) (s : Sys) (e : Event) (t : Tid) :
    Goes s t e ((step srv s e).tasks t) :=
  (step_spec srv s e).goes t

theorem Step.sessions {s s' : Sys} (h : Step srv s e s') :
    s'.sessions = s.sessions ∨
      (∃ t id, s.tasks t = .regSession id ∧
        s'.sessions = Function.update s.sessions id (some t)) ∨
      ∃ t id, s.sessions id = some t ∧ s'.tasks t = .endSetOnline id ∧
        s'.sessions = Function.update s.sessions id none := by
  cases h with
  | @enterSession t id now htask => exact .inr (.inl ⟨t, id, htask, rfl⟩)
  | @leaveSession t id now htask =>
    by_cases hown : s.sessions id = some t
    · refine .inr (.inr ⟨t, id, hown, ?_, ?_⟩)
      · rw [goto_tasks, if_pos rfl]
      · rw [Sys.leaveSession, if_pos hown, Sys.goto]
    · rw [Sys.leaveSession, if_neg hown]
      exact .inl rfl
  | _ => exact .inl rfl

/-- An entry of the session table was there, or a registration took it. -/
theorem Step.session {s s' : Sys} (h : Step srv s e s') {id : Id} {t : Tid}
    (hentry : s'.sessions id = some t) :
    s.sessions id = some t ∨ ∃ now, e = .run t now ∧ s.tasks t = .regSession id := by
  cases h with
  | @enterSession u key now htask =>
    simp only [Sys.goto, Sys.enterSession, update_apply] at hentry
    split at hentry
    · rename_i hid
      obtain rfl := Option.some.inj hentry
      exact .inr ⟨now, rfl, hid ▸ htask⟩
    · exact .inl hentry
  | @leaveSession u key now htask =>
    simp only [Sys.goto, Sys.leaveSession] at hentry
    split at hentry
    · simp only [update_apply] at hentry
      split at hentry
      · cases hentry
      · exact .inl hentry
    · exact .inl hentry
  | _ => exact .inl hentry

end CtForge.Server
