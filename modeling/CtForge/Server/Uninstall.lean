import CtForge.Server.Records

/-!
# Who approves an uninstall

An agent asks to be uninstalled on a connection of its own. The server answers by the
request record of the host: it is made by the first question, decided from the console
or by a remote uninstall, and loaded from the uninstall file at start. `Ledger` is the
server with what was last written into the record of each host.
-/

namespace CtForge.Server

open CtForge.Runs List Function

/-! ## The system with the uninstall file -/

/-- `LoadUninstall` on a file with the requests `rs`, in one section. -/
def Store.loadUninstall (st : Store) (rs : List UninstallRequest) : Store :=
  rs.foldl Store.addUninstallRequest st

inductive UninstallEvent where
  | sys (e : Event)
  | reload (rs : List UninstallRequest)

def uninstallStep (srv : Identity) (s : Sys) : UninstallEvent → Sys
  | .sys e => step srv s e
  | .reload rs => { s with store := s.store.loadUninstall rs }

/-! ## Writes to a request record -/

inductive Entry where
  | requested
  | decided (approved : Bool) (username : String)
  | loaded (r : UninstallRequest)

def Entry.approves : Entry → Bool
  | .requested => false
  | .decided approved _ => approved
  | .loaded r => r.approved && r.decidedAt != 0

/-- `DecideUninstall` writes only where there is a record. -/
def decision (s : Sys) (id key : Id) (approved : Bool) (username : String) : Option Entry :=
  if key = id ∧ (s.store.uninstallReq id).isSome then some (.decided approved username) else none

/-- What the step writes into the record of `id`, if it writes it. -/
def entry (s : Sys) (id : Id) : UninstallEvent → Option Entry
  | .sys (.decideUninstall key approved username _) => decision s id key approved username
  | .sys (.run t _) =>
    match s.tasks t with
    | .unAdd req => if req.agentId = id then some .requested else none
    | .ruDecide key username => decision s id key true username
    | _ => none
  | .sys _ => none
  | .reload rs => (rs.reverse.find? fun r => r.agentId == id).map .loaded

def UninstallEvent.ofAdministrator (s : Sys) : UninstallEvent → Bool
  | .sys (.decideUninstall ..) | .sys (.remoteUninstall ..) | .reload _ => true
  | .sys (.run t _) =>
    match s.tasks t with
    | .ruDecide .. => true
    | _ => false
  | .sys _ => false

structure Ledger where
  sys : Sys
  last : Id → Option Entry

namespace Ledger

def start (st : Store) : Ledger where
  sys := Sys.start st
  last := fun id => (st.uninstallReq id).map .loaded

def step (srv : Identity) (s : Ledger) (e : UninstallEvent) : Ledger where
  sys := uninstallStep srv s.sys e
  last := fun id => (entry s.sys id e).or (s.last id)

end Ledger

/-- What the step adds to the answers on the connection `t`. -/
def answers (srv : Identity) (s : Sys) (e : UninstallEvent) (t : Tid) : List Reply :=
  ((uninstallStep srv s e).sent t).drop (s.sent t).length

/-- An approval is sent on a connection that just read the record of the host it asks for,
and that record was approved by its last entry. -/
def AckApproved (srv : Identity) (s : Ledger) (e : UninstallEvent) : Prop :=
  ∀ t text, .uninstallAck true text ∈ answers srv s.sys e t →
    ∃ req now r w, e = .sys (.run t now) ∧ s.sys.tasks t = .unGet req ∧
      s.sys.store.getUninstallRequest req.agentId = some r ∧
      s.last req.agentId = some w ∧ w.approves = true

/-- A step that is not an administrator's leaves every record, or puts an undecided one in
its place, and starts no remote uninstall. -/
def AgentsDecideNothing (srv : Identity) (s : Ledger) (e : UninstallEvent) : Prop :=
  e.ofAdministrator s.sys = false →
    (∀ id, (uninstallStep srv s.sys e).store.uninstallReq id = s.sys.store.uninstallReq id ∨
      ∃ r, (uninstallStep srv s.sys e).store.uninstallReq id = some r ∧
        r.approved = false ∧ r.decidedAt = 0) ∧
    ∀ t id username, (uninstallStep srv s.sys e).tasks t = .ruDecide id username →
      s.sys.tasks t = .ruDecide id username

/-! ## The record after a step -/

/-- What the entry makes of the record `old?`. -/
inductive RecordsRequest (old? : Option UninstallRequest) :
    Option Entry → Option UninstallRequest → Prop
  | keep : RecordsRequest old? none old?
  | request {r : UninstallRequest} (hopen : r.approved = false) (hnew : r.decidedAt = 0) :
      RecordsRequest old? (some .requested) (some r)
  | decide {r : UninstallRequest} (username : String) :
      RecordsRequest old? (some (.decided r.approved username)) (some r)
  | load (r : UninstallRequest) : RecordsRequest old? (some (.loaded r)) (some r)

theorem loadUninstall_uninstallReq (st : Store) (rs : List UninstallRequest) (id : Id) :
    (st.loadUninstall rs).uninstallReq id =
      (rs.reverse.find? fun r => r.agentId == id).or (st.uninstallReq id) := by
  induction rs generalizing st with
  | nil => rfl
  | cons r rs ih =>
    rw [Store.loadUninstall, foldl_cons, ← Store.loadUninstall, ih, reverse_cons,
      List.find?_append, Option.or_assoc]
    congr 1
    by_cases hid : r.agentId = id
    · simp [Store.addUninstallRequest, hid]
    · simp [Store.addUninstallRequest, hid, update_of_ne (Ne.symm hid)]

theorem decideUninstall_records (s : Sys) (id key : Id) (approved : Bool) (username : String)
    (now : Time) : RecordsRequest (s.store.uninstallReq id) (decision s id key approved username)
      ((s.store.decideUninstall key approved username now).uninstallReq id) := by
  by_cases hkey : key = id
  · subst hkey
    cases hrec : s.store.uninstallReq key with
    | none => simpa [decision, hrec, Store.decideUninstall] using .keep
    | some r =>
      simp only [decision, hrec, Store.decideUninstall, update_self]
      exact .decide (r := { r with
        approved := approved, decidedAt := unixMilli now, decidedBy := username }) username
  · have hother : (s.store.decideUninstall key approved username now).uninstallReq id =
        s.store.uninstallReq id := by
      unfold Store.decideUninstall
      split
      · exact update_of_ne (Ne.symm hkey) ..
      · rfl
    rw [hother, decision, if_neg (fun h => hkey h.1)]
    exact .keep

theorem withAgent_uninstallReq (st : Store) (id : Id) (f : Agent → Agent) :
    (st.withAgent id f).uninstallReq = st.uninstallReq := by
  unfold Store.withAgent
  split <;> rfl

theorem dispatch_uninstallReq (st : Store) (id : Id) (now : Time) (m : Message) :
    (dispatch st id now m).uninstallReq = st.uninstallReq := by
  cases m with
  | log e | other => rfl
  | pong timestamp =>
    simp only [dispatch]
    split
    · exact withAgent_uninstallReq ..
    · rfl
  | _ => exact withAgent_uninstallReq ..

def Task.onRequest : Task → Bool
  | .unAdd _ | .ruDecide .. => true
  | _ => false

variable {task : Task}

/-- A task that is not about requests leaves them alone. -/
theorem Task.move_uninstallReq (srv : Identity) (st : Store) (now : Time)
    (h : task.onRequest = false) : (task.move srv st now).store.uninstallReq = st.uninstallReq := by
  cases task with
  | hsGetAgent req state | regApprovalOf reg | regIsTombstoned reg | discIsTombstoned d =>
    simp only [move]
    split <;> rfl
  | hsIsTombstoned req existing state =>
    simp only [move]
    split
    · cases state <;> rfl
    · rfl
  | hsRegister req existing state => cases state <;> rfl
  | hsSetApproval id | endSetOnline id | endOffline id => exact withAgent_uninstallReq ..
  | dispatching id m => exact dispatch_uninstallReq ..
  | discStore d =>
    simp only [move, Store.discover]
    split
    · split <;> rfl
    · rfl
  | unGet req =>
    simp only [move]
    split
    · rfl
    · split
      · rfl
      · split <;> rfl
  | rmCheck id =>
    simp only [move]
    split
    · split <;> rfl
    · rfl
  | load rs =>
    cases rs with
    | nil => rfl
    | cons r rs =>
      simp only [move]
      split <;> rfl
  | unAdd req | ruDecide id username => cases h
  | _ => rfl

variable {srv : Identity} {s : Sys}

theorem Step.uninstallReq {s' : Sys} {e : Event} (h : Step srv s e s')
    (hrun : ∀ t now, e = .run t now → (s.tasks t).onRequest = false)
    (hother : ∀ id approved username now, e ≠ .decideUninstall id approved username now) :
    s'.store.uninstallReq = s.store.uninstallReq := by
  cases h with
  | decide id approve now => exact withAgent_uninstallReq ..
  | decideUninstall id approved username now => exact absurd rfl (hother id approved username now)
  | enterSession now htask => exact congrArg Store.uninstallReq (closeConn_store ..)
  | leaveSession now htask => exact congrArg Store.uninstallReq (leaveSession_store ..)
  | move t now => exact Task.move_uninstallReq srv s.store now (hrun t now rfl)
  | _ => rfl

theorem run_records (srv : Identity) (s : Sys) (t : Tid) (now : Time) (id : Id) :
    RecordsRequest (s.store.uninstallReq id) (entry s id (.sys (.run t now)))
      ((step srv s (.run t now)).store.uninstallReq id) := by
  have hquiet : (s.tasks t).onRequest = false →
      (step srv s (.run t now)).store.uninstallReq id = s.store.uninstallReq id := by
    intro htask
    refine congrFun ((step_spec srv s (.run t now)).uninstallReq ?_ (by simp)) id
    intro u when he
    cases he
    exact htask
  cases htask : s.tasks t with
  | unAdd req =>
    simp only [entry, step, advance, htask, Task.locksAgents, Bool.false_and, Bool.false_eq_true,
      if_false, Task.move, Store.addUninstallRequest, update_apply, eq_comm]
    split
    · exact .request rfl rfl
    · exact .keep
  | ruDecide key username =>
    simp only [entry, step, advance, htask, Task.locksAgents, Bool.false_and, Bool.false_eq_true,
      if_false, Task.move]
    exact decideUninstall_records s id key true username now
  | _ =>
    rw [hquiet (by rw [htask]; rfl)]
    simp only [entry, htask]
    exact .keep

theorem step_records (srv : Identity) (s : Sys) (e : UninstallEvent) (id : Id) :
    RecordsRequest (s.store.uninstallReq id) (entry s id e)
      ((uninstallStep srv s e).store.uninstallReq id) := by
  cases e with
  | sys e =>
    cases e with
    | run t now => exact run_records srv s t now id
    | decideUninstall key approved username now =>
      exact decideUninstall_records s id key approved username now
    | _ =>
      simp only [uninstallStep]
      rw [(step_spec srv s _).uninstallReq (by simp) (by simp)]
      exact .keep
  | reload rs =>
    simp only [uninstallStep, entry, loadUninstall_uninstallReq]
    cases rs.reverse.find? fun r => r.agentId == id with
    | none => exact .keep
    | some r => exact .load r

/-! ## The answers -/

theorem afterRegister_answers (srv : Identity) (st : Store) (id : Id) (state : Approval)
    (text : String) : .uninstallAck true text ∉ (afterRegister srv st id state).replies := by
  cases state <;> simp [afterRegister, handshakeAck]

variable {text : String} {now : Time}

/-- A task answers with an approval only for a request that was decided so. -/
theorem Task.move_approves {st : Store}
    (h : .uninstallAck true text ∈ (task.move srv st now).replies) :
    ∃ req r, task = .unGet req ∧ st.getUninstallRequest req.agentId = some r ∧
      r.approved = true ∧ r.decidedAt ≠ 0 := by
  cases task with
  | unGet req =>
    simp only [move] at h
    split at h
    · simp at h
    · rename_i r hr
      split at h
      · simp at h
      · rename_i hdecided
        split at h
        · rename_i happroved
          exact ⟨req, r, rfl, hr, happroved, hdecided⟩
        · simp at h
  | hsGetAgent req state =>
    simp only [move] at h
    split at h <;> simp [handshakeAck] at h
  | hsIsTombstoned req existing state =>
    simp only [move] at h
    split at h
    · exact absurd h (afterRegister_answers srv st req.agentId state text)
    · simp at h
  | hsRegister req existing state =>
    exact absurd h (afterRegister_answers srv _ req.agentId state text)
  | hsSetApproval id => simp [move, handshakeAck] at h
  | regApprovalOf reg | regIsTombstoned reg | discIsTombstoned d =>
    simp only [move] at h
    split at h <;> simp at h
  | rmCheck id =>
    simp only [move] at h
    split at h
    · split at h <;> simp at h
    · simp at h
  | load rs =>
    cases rs with
    | nil => simp [move] at h
    | cons r rs =>
      simp only [move] at h
      split at h <;> simp at h
  | _ => simp [move] at h

theorem greet_answers (srv : Identity) (ip : String) (hello : Option Hello) (text : String) :
    .uninstallAck true text ∉ (greet srv ip hello).2 := by
  rcases hello with _ | ⟨token, req⟩ | ⟨token, req⟩ | ⟨token, reg⟩ <;> simp only [greet]
  · simp
  · split
    · simp
    · split <;> simp
  · split <;> simp
  · split
    · simp
    · split <;> simp

variable {replies : List Reply}

theorem mem_goto_sent (s' : Sys) (task : Task) (hsent : s'.sent = s.sent) {t u : Tid} {r : Reply}
    (h : r ∈ ((s'.goto u task replies).sent t).drop (s.sent t).length) : u = t ∧ r ∈ replies := by
  simp only [Sys.goto, update_apply, hsent] at h
  split at h
  · rename_i hu
    rw [hu, drop_left] at h
    exact ⟨hu.symm, h⟩
  · rw [drop_length] at h
    cases h

theorem not_mem_same_sent {s' : Sys} (hsent : s'.sent = s.sent) {t : Tid} {r : Reply} :
    r ∉ (s'.sent t).drop (s.sent t).length := by
  rw [hsent, drop_length]
  exact not_mem_nil

theorem mem_spawn_sent {t u : Tid} {r : Reply}
    (h : r ∈ ((s.spawn u task replies).sent t).drop (s.sent t).length) : r ∈ replies := by
  unfold Sys.spawn at h
  split at h
  · exact (mem_goto_sent s task rfl h).2
  · exact absurd h (not_mem_same_sent rfl)

theorem closeConn_sent (s : Sys) (old : Option Tid) : (s.closeConn old).sent = s.sent := by
  cases old <;> rfl

theorem leaveSession_sent (s : Sys) (t : Tid) (id : Id) : (s.leaveSession t id).sent = s.sent := by
  unfold Sys.leaveSession
  split <;> rfl

theorem run_approves {t u : Tid}
    (h : .uninstallAck true text ∈ answers srv s (.sys (.run u now)) t) :
    u = t ∧ ∃ req r, s.tasks t = .unGet req ∧
      s.store.getUninstallRequest req.agentId = some r ∧ r.approved = true ∧ r.decidedAt ≠ 0 := by
  simp only [answers, uninstallStep, step, advance] at h
  split at h
  · rename_i id htask
    have hreply := (mem_goto_sent (s.enterSession u id) (.serving id) (closeConn_sent s _) h).2
    simp at hreply
  · rename_i id htask
    exact absurd (mem_goto_sent _ (.endSetOnline id) (leaveSession_sent s u id) h).2
      not_mem_nil
  · exact absurd (mem_goto_sent s .finished rfl h).2 not_mem_nil
  · split at h
    · exact absurd h (not_mem_same_sent rfl)
    · obtain ⟨rfl, hreply⟩ := mem_goto_sent s ((s.tasks u).move srv s.store now).next rfl h
      exact ⟨rfl, Task.move_approves hreply⟩

variable {e : UninstallEvent}

theorem answers_approve {t : Tid} (h : .uninstallAck true text ∈ answers srv s e t) :
    ∃ req now r, e = .sys (.run t now) ∧ s.tasks t = .unGet req ∧
      s.store.getUninstallRequest req.agentId = some r ∧ r.approved = true ∧ r.decidedAt ≠ 0 := by
  cases e with
  | reload rs => exact absurd h (not_mem_same_sent rfl)
  | sys e =>
    cases e with
    | run u now =>
      obtain ⟨rfl, req, r, hread⟩ := run_approves h
      exact ⟨req, now, r, rfl, hread⟩
    | accept u ip hello => exact absurd (mem_spawn_sent h) (greet_answers srv ip hello text)
    | packet u ip d | delete u id => exact absurd (mem_spawn_sent h) not_mem_nil
    | receive u m =>
      simp only [answers, uninstallStep, step] at h
      split at h
      · split at h
        · exact absurd h (not_mem_same_sent rfl)
        · exact absurd (mem_goto_sent s _ rfl h).2 not_mem_nil
      · exact absurd h (not_mem_same_sent rfl)
    | hangup u =>
      simp only [answers, uninstallStep, step] at h
      split at h
      · exact absurd (mem_goto_sent s _ rfl h).2 not_mem_nil
      · exact absurd h (not_mem_same_sent rfl)
    | remoteUninstall u id username =>
      simp only [answers, uninstallStep, step] at h
      split at h
      · exact absurd (mem_spawn_sent h) not_mem_nil
      · exact absurd h (not_mem_same_sent rfl)
    | load u rs =>
      simp only [answers, uninstallStep, step] at h
      split at h
      · exact absurd (mem_goto_sent s (.load rs) rfl h).2 not_mem_nil
      · exact absurd h (not_mem_same_sent rfl)
    | prune now | decide id approve now =>
      simp only [answers, uninstallStep, step] at h
      split at h <;> exact absurd h (not_mem_same_sent rfl)
    | decideUninstall id approved username now => exact absurd h (not_mem_same_sent rfl)

/-! ## Every run -/

def Accounted (s : Ledger) : Prop :=
  ∀ id r, s.sys.store.uninstallReq id = some r → r.approved = true → r.decidedAt ≠ 0 →
    ∃ w, s.last id = some w ∧ w.approves = true

theorem start_accounted (st : Store) : Accounted (Ledger.start st) := by
  intro id r hr happroved hdecided
  have hr : st.uninstallReq id = some r := hr
  exact ⟨.loaded r, by simp [Ledger.start, hr], by simp [Entry.approves, happroved, hdecided]⟩

theorem step_accounted (srv : Identity) {s : Ledger} (h : Accounted s) (e : UninstallEvent) :
    Accounted (s.step srv e) := by
  intro id r hr happroved hdecided
  have hrecords := step_records srv s.sys e id
  have hr : (uninstallStep srv s.sys e).store.uninstallReq id = some r := hr
  rw [hr] at hrecords
  have hlast : (s.step srv e).last id = (entry s.sys id e).or (s.last id) := rfl
  rw [hlast]
  generalize entry s.sys id e = w at hrecords
  generalize hafter : some r = after at hrecords
  cases hrecords with
  | keep =>
    obtain ⟨w, hw⟩ := h id r hafter.symm happroved hdecided
    exact ⟨w, hw⟩
  | request hopen hnew =>
    cases hafter
    rw [hopen] at happroved
    cases happroved
  | decide username =>
    cases hafter
    exact ⟨_, rfl, happroved⟩
  | load r =>
    cases hafter
    exact ⟨_, rfl, by simp [Entry.approves, happroved, hdecided]⟩

theorem ack_approved {s : Ledger} (h : Accounted s) (e : UninstallEvent) : AckApproved srv s e := by
  intro t text hack
  obtain ⟨req, now, r, he, htask, hr, happroved, hdecided⟩ := answers_approve hack
  obtain ⟨w, hw, happroves⟩ := h req.agentId r hr happroved hdecided
  exact ⟨req, now, r, w, he, htask, hr, hw, happroves⟩

theorem entry_of_agent (h : e.ofAdministrator s = false) (id : Id) :
    entry s id e = none ∨ entry s id e = some .requested := by
  cases e with
  | reload rs => cases h
  | sys e =>
    cases e with
    | run t now =>
      cases htask : s.tasks t with
      | unAdd req =>
        simp only [entry, htask]
        split
        · exact .inr rfl
        · exact .inl rfl
      | ruDecide key username => simp [UninstallEvent.ofAdministrator, htask] at h
      | _ => exact .inl (by simp only [entry, htask])
    | decideUninstall key approved username now => cases h
    | _ => exact .inl rfl

section RemoteUninstalls

variable {srv : Identity} {s : Sys} {t u : Tid} {id : Id} {username : String}

theorem ruDecide_of_update {tasks : Tid → Task} {task : Task}
    (hne : task = .ruDecide id username → tasks u = task)
    (h : Function.update tasks u task t = .ruDecide id username) :
    tasks t = .ruDecide id username := by
  rw [update_apply] at h
  split at h
  · rename_i hu
    rw [hu, hne h, h]
  · exact h

theorem ruDecide_of_spawn {task : Task} (hne : task ≠ .ruDecide id username)
    (h : (s.spawn u task replies).tasks t = .ruDecide id username) :
    s.tasks t = .ruDecide id username := by
  unfold Sys.spawn at h
  split at h
  · exact ruDecide_of_update (fun heq => absurd heq hne) h
  · exact h

theorem greet_ne_ruDecide (ip : String) (hello : Option Hello) :
    (greet srv ip hello).1 ≠ .ruDecide id username := by
  rcases hello with _ | ⟨token, req⟩ | ⟨token, req⟩ | ⟨token, reg⟩ <;> simp only [greet]
  · simp
  · split
    · simp
    · split <;> simp
  · split <;> simp
  · split
    · simp
    · split <;> simp

theorem beacon_ne_ruDecide (ip : String) (d : DiscoverPayload) :
    beacon ip d ≠ .ruDecide id username := by
  simp only [beacon]
  split <;> simp

theorem Task.Follows.ruDecide {st : Store} {task next : Task} (h : task.Follows st next)
    (hnext : next = .ruDecide id username) : task = next := by
  cases h with
  | stay => rfl
  | _ => cases hnext

theorem ruDecide_of_run (h : (step srv s (.run u now)).tasks t = .ruDecide id username) :
    s.tasks t = .ruDecide id username := by
  simp only [step, advance] at h
  split at h
  · rename_i key htask
    exact closeConn_tasks s (s.sessions key) ▸ ruDecide_of_update (by simp) h
  · rename_i key htask
    exact leaveSession_tasks s u key ▸ ruDecide_of_update (by simp) h
  · exact ruDecide_of_update (by simp) h
  · split at h
    · exact h
    · exact ruDecide_of_update (Task.move_follows srv s.store now (s.tasks u)).ruDecide h

theorem ruDecide_before (hagent : e.ofAdministrator s = false)
    (h : (uninstallStep srv s e).tasks t = .ruDecide id username) :
    s.tasks t = .ruDecide id username := by
  cases e with
  | reload rs => cases hagent
  | sys e =>
    cases e with
    | run u now => exact ruDecide_of_run h
    | accept u ip hello => exact ruDecide_of_spawn (greet_ne_ruDecide ip hello) h
    | packet u ip d => exact ruDecide_of_spawn (beacon_ne_ruDecide ip d) h
    | delete u key => exact ruDecide_of_spawn (by simp) h
    | remoteUninstall u key name | decideUninstall key approved name now => cases hagent
    | receive u m =>
      simp only [uninstallStep, step] at h
      split at h
      · split at h
        · exact h
        · exact ruDecide_of_update (by simp) h
      · exact h
    | hangup u | load u rs =>
      simp only [uninstallStep, step] at h
      split at h
      · exact ruDecide_of_update (by simp) h
      · exact h
    | prune now | decide key approve now =>
      simp only [uninstallStep, step] at h
      split at h <;> exact h

end RemoteUninstalls

theorem agents_decide_nothing (srv : Identity) (s : Ledger) (e : UninstallEvent) :
    AgentsDecideNothing srv s e := by
  intro hagent
  refine ⟨?_, fun t id username h => ruDecide_before hagent h⟩
  intro id
  have hrecords := step_records srv s.sys e id
  generalize (uninstallStep srv s.sys e).store.uninstallReq id = after at hrecords
  obtain hnone | hrequested := entry_of_agent hagent id
  · rw [hnone] at hrecords
    cases hrecords
    exact .inl rfl
  · rw [hrequested] at hrecords
    cases hrecords with
    | request hopen hnew => exact .inr ⟨_, rfl, hopen, hnew⟩

/-- In every run, an `uninstall_ack` that approves is sent for a host only if the last write of
its record was an approving decision, or the record was loaded as decided and approved; and no
step on behalf of an agent decides a record. -/
theorem uninstalls_are_approved (srv : Identity) (st : Store) (es : List UninstallEvent) :
    Along (Ledger.step srv) (fun s e => AckApproved srv s e ∧ AgentsDecideNothing srv s e)
      (Ledger.start st) es := by
  have hstep : ∀ (s : Ledger) (e : UninstallEvent), Accounted s → True →
      Accounted (s.step srv e) := fun s e h _ => step_accounted srv h e
  have hrun : Along (Ledger.step srv) (fun _ _ => True) (Ledger.start st) es :=
    along_of_forall (by simp)
  refine along_of_invariant hstep ?_ (start_accounted st) hrun
  intro s e h _
  exact ⟨ack_approved h e, agents_decide_nothing srv s e⟩

end CtForge.Server
