import CtForge.Server.Uninstall

/-!
# What becomes of an uninstall decision

The handler of an uninstall request reads the record of the host in one section and
replaces an undecided one in another. An administrator's decision can fall between them.

The uninstall file is written when a request comes in and when the approval of a host
changes, not when a request is decided.
-/

namespace CtForge.Server

open Runs List Function Option

/-! ## Handlers and decisions side by side -/

/-- The step is an administrator's decision on the request of `id`. -/
def decidesRequest (s : Sys) (id : Id) (e : Event) : Bool :=
  match entry s id (.sys e) with
  | some (.decided _ _) => true
  | _ => false

def KeepsDecisions (srv : Identity) (s : Sys) (e : Event) : Prop :=
  ∀ id r, s.store.uninstallReq id = some r → r.decidedAt ≠ 0 →
    (step srv s e).store.uninstallReq id = some r ∨ decidesRequest s id e = true

/-- A handler that is about to put a request into the store finds none that is decided. -/
def NoLateRequest (s : Sys) (e : Event) : Prop :=
  ∀ t now req, e = .run t now → s.tasks t = .unAdd req →
    ∀ r, s.store.uninstallReq req.agentId = some r → r.decidedAt = 0

/-- A decision on the request of `id` finds no handler of `id` between its sections. -/
def DecidesInPeace (s : Sys) (e : Event) : Prop :=
  ∀ id, decidesRequest s id e = true → ∀ t req, s.tasks t = .unAdd req → req.agentId ≠ id

section Handlers

variable {srv : Identity} {s : Sys} {e : Event} {id : Id}

theorem decision_ne_requested (key : Id) (approved : Bool) (username : String) :
    decision s id key approved username ≠ some .requested := by
  unfold decision
  split <;> simp

theorem entry_requested (h : entry s id (.sys e) = some .requested) :
    ∃ t now req, e = .run t now ∧ s.tasks t = .unAdd req ∧ req.agentId = id := by
  cases e with
  | run t now =>
    simp only [entry] at h
    split at h
    · rename_i req htask
      split at h
      · rename_i hid
        exact ⟨t, now, req, rfl, htask, hid⟩
      · cases h
    · exact absurd h (decision_ne_requested _ _ _)
    · cases h
  | decideUninstall key approved username now => exact absurd h (decision_ne_requested _ _ _)
  | _ => cases h

variable {req : UninstallReqPayload}

theorem entry_unAdd {t : Tid} (htask : s.tasks t = .unAdd req) (now : Time) :
    entry s req.agentId (.sys (.run t now)) = some .requested := by
  simp [entry, htask]

theorem entry_not_loaded {r : UninstallRequest} : entry s id (.sys e) ≠ some (.loaded r) := by
  have hdecision : ∀ key approved username,
      decision s id key approved username ≠ some (.loaded r) := by
    intro key approved username
    unfold decision
    split <;> simp
  intro h
  cases e with
  | run t now =>
    simp only [entry] at h
    split at h
    · split at h <;> cases h
    · exact hdecision _ _ _ h
    · cases h
  | decideUninstall key approved username now => exact hdecision _ _ _ h
  | _ => cases h

/-- What a step does to the request of a host: nothing, a decision, or a new request from a
handler that stands before its second section. -/
theorem request_after (srv : Identity) (s : Sys) (e : Event) (id : Id) :
    (step srv s e).store.uninstallReq id = s.store.uninstallReq id ∨
    decidesRequest s id e = true ∨
    ((∃ t now req, e = .run t now ∧ s.tasks t = .unAdd req ∧ req.agentId = id) ∧
      ∃ r, (step srv s e).store.uninstallReq id = some r ∧ r.decidedAt = 0) := by
  have hrecords : RecordsRequest (s.store.uninstallReq id) (entry s id (.sys e))
      ((step srv s e).store.uninstallReq id) := step_records srv s (.sys e) id
  generalize (step srv s e).store.uninstallReq id = after at hrecords
  cases hentry : entry s id (.sys e) with
  | none =>
    rw [hentry] at hrecords
    cases hrecords
    exact .inl rfl
  | some w =>
    cases w with
    | requested =>
      rw [hentry] at hrecords
      cases hrecords with
      | request hopen hnew => exact .inr (.inr ⟨entry_requested hentry, _, rfl, hnew⟩)
    | decided approved username => exact .inr (.inl (by simp [decidesRequest, hentry]))
    | loaded r => exact absurd hentry entry_not_loaded

theorem keepsDecisions_iff (srv : Identity) (s : Sys) (e : Event) :
    KeepsDecisions srv s e ↔ NoLateRequest s e := by
  constructor
  · rintro hkeeps t now req rfl htask r hr
    by_contra hdecided
    have hentry := entry_unAdd htask now
    have hrecords := step_records srv s (.sys (.run t now)) req.agentId
    rw [hentry] at hrecords
    rcases hkeeps req.agentId r hr hdecided with hsame | hdecides
    · rw [uninstallStep, hsame] at hrecords
      cases hrecords with
      | request hopen hnew => exact hdecided hnew
    · rw [decidesRequest, hentry] at hdecides
      cases hdecides
  · intro hlate id r hr hdecided
    rcases request_after srv s e id with hsame | hdecides | ⟨⟨t, now, req, rfl, htask, rfl⟩, -⟩
    · exact .inl (hsame.trans hr)
    · exact .inr hdecides
    · exact absurd (hlate t now req rfl htask r hr) hdecided

/-- Every handler before its second section has an undecided record ahead of it, or none. -/
def HandlersCurrent (s : Sys) : Prop :=
  ∀ t req, s.tasks t = .unAdd req →
    ∀ r, s.store.uninstallReq req.agentId = some r → r.decidedAt = 0

theorem start_handlersCurrent (st : Store) : HandlersCurrent (Sys.start st) := by
  intro t req htask
  cases htask

variable {now : Time}

theorem undecided_of_unGet {st : Store}
    (hnext : ((Task.unGet req).move srv st now).next = .unAdd req) {r : UninstallRequest}
    (hr : st.uninstallReq req.agentId = some r) : r.decidedAt = 0 := by
  by_contra hdecided
  simp only [Task.move, Store.getUninstallRequest, hr, if_neg hdecided] at hnext
  split at hnext <;> cases hnext

theorem unAdd_before {t : Tid} (htask : (step srv s e).tasks t = .unAdd req) :
    s.tasks t = .unAdd req ∨ ∃ now, e = .run t now ∧ s.tasks t = .unGet req := by
  have hgoes := step_goes srv s e t
  rw [htask] at hgoes
  generalize hnext : Task.unAdd req = next at hgoes
  cases hgoes with
  | keep e => exact .inl rfl
  | enter hidle hfresh =>
    rw [← hnext] at hfresh
    cases hfresh
  | move now hfollows =>
    rw [← hnext] at hfollows
    generalize hbefore : s.tasks t = before at hfollows
    cases hfollows with
    | stay => exact .inl hnext
    | unAdd => exact .inr ⟨now, rfl, rfl⟩
  | _ => cases hnext

theorem step_handlersCurrent (h : HandlersCurrent s) (hpeace : DecidesInPeace s e) :
    HandlersCurrent (step srv s e) := by
  intro t req htask r hr
  rcases unAdd_before htask with hbefore | ⟨now, rfl, hget⟩
  · rcases request_after srv s e req.agentId with hsame | hdecides | ⟨-, r', hr', hnew⟩
    · exact h t req hbefore r (hsame ▸ hr)
    · exact absurd rfl (hpeace req.agentId hdecides t req hbefore)
    · rw [hr] at hr'
      obtain rfl := some.inj hr'
      exact hnew
  · rcases step_run srv now hget rfl with hstay | hmove
    · rw [hstay, hget] at htask
      cases htask
    · rw [hmove] at htask hr
      have hnext : ((Task.unGet req).move srv s.store now).next = .unAdd req := by
        simpa [goto_tasks] using htask
      have hstore : ((Task.unGet req).move srv s.store now).store.uninstallReq =
          s.store.uninstallReq := Task.move_uninstallReq srv s.store now rfl
      exact undecided_of_unGet hnext (hstore ▸ hr)

end Handlers

/-- A run keeps every decision until the next one exactly if no handler replaces a record that
was decided since it looked; it is enough that no decision is made while a handler of the host
stands between its two sections. -/
theorem decisions_kept_iff (srv : Identity) (st : Store) (es : List Event) :
    (Along (step srv) (KeepsDecisions srv) (Sys.start st) es ↔
      Along (step srv) NoLateRequest (Sys.start st) es) ∧
    (Along (step srv) DecidesInPeace (Sys.start st) es →
      Along (step srv) (KeepsDecisions srv) (Sys.start st) es) := by
  have hiff : KeepsDecisions srv = NoLateRequest := by
    funext s e
    exact propext (keepsDecisions_iff srv s e)
  rw [hiff]
  refine ⟨Iff.rfl, fun hpeace => ?_⟩
  have hstep : ∀ (s : Sys) (e : Event), HandlersCurrent s → DecidesInPeace s e →
      HandlersCurrent (step srv s e) := fun s e h hpeace => step_handlersCurrent h hpeace
  refine along_of_invariant hstep ?_ (start_handlersCurrent st) hpeace
  intro s e h _ t now req _ htask
  exact h t req htask

def asks (t : Tid) : Event := .accept t "10.0.0.1" (some (.uninstallReq "" ⟨"h1", "", ""⟩))

/-- A host asks twice, and the request is approved after the second handler has looked. -/
def lateRequest : List Event :=
  [asks 0, .run 0 1000000, .run 0 1000000, asks 1, .run 1 2000000,
    .decideUninstall "h1" true "admin" 3000000, .run 1 4000000]

/-- A request that was looked at before the approval replaces it. -/
theorem late_request_undoes_approval :
    ((exec (step ⟨"", "srv", "", "", 0⟩) (Sys.start (Store.new []))
      (lateRequest.take 6)).store.uninstallReq "h1").map
        (fun r => (r.approved, r.decidedBy, r.decidedAt)) = some (true, "admin", 3) ∧
    ((exec (step ⟨"", "srv", "", "", 0⟩) (Sys.start (Store.new []))
      lateRequest).store.uninstallReq "h1").map
        (fun r => (r.approved, r.decidedBy, r.decidedAt)) = some (false, "", 0) ∧
    ¬ Along (step ⟨"", "srv", "", "", 0⟩) (KeepsDecisions ⟨"", "srv", "", "", 0⟩)
      (Sys.start (Store.new [])) lateRequest := by
  refine ⟨by decide, by decide, ?_⟩
  rintro ⟨-, -, -, -, -, -, hlast, -⟩
  exact absurd (hlast "h1" _ rfl (by decide)) (by decide)

/-- An approval that comes before the host asks again is kept. -/
theorem decisions_kept_before_repeated_request :
    Along (step ⟨"", "srv", "", "", 0⟩) (KeepsDecisions ⟨"", "srv", "", "", 0⟩)
      (Sys.start ((Store.new []).addUninstallRequest ⟨"h1", "", "", 1, false, 0, ""⟩))
      [.decideUninstall "h1" true "admin" 3000000, asks 0, .run 0 4000000] := by
  refine (decisions_kept_iff _ _ _).2 ⟨?_, ?_, ?_, trivial⟩
  · intro id _ t req htask
    cases htask
  · intro id h
    cases h
  · intro id h
    cases h

/-! ## The uninstall file -/

/-- `handleUninstallReq` as a whole, past the check of the token: the store it leaves, and
whether it calls `NotifyApprovalChange`. -/
def Store.handleUninstallReq (st : Store) (req : UninstallReqPayload) (now : Time) :
    Store × Bool :=
  let r : UninstallRequest := {
    agentId := req.agentId
    hostname := req.hostname
    reason := req.reason
    atMs := unixMilli now }
  match st.getUninstallRequest req.agentId with
  | none => (st.addUninstallRequest r, true)
  | some existing =>
    if existing.decidedAt = 0 then (st.addUninstallRequest r, true) else (st, false)

/-- The server, its uninstall file by host, and for each host the decision that was last
acknowledged; `unsaved` says that there was one since the file was written. -/
structure UninstallServer where
  store : Store
  file : Id → Option UninstallRequest
  acked : Id → Option (Bool × String) := fun _ => none
  unsaved : Bool := false

inductive FileEvent where
  /-- `handleUninstallReq`. -/
  | request (req : UninstallReqPayload) (now : Time)
  /-- `handleUninstallDecide` answers with success. -/
  | decide (id : Id) (approved : Bool) (username : String) (now : Time)
  /-- `handleRemoteUninstall` answers with success. -/
  | remoteUninstall (id : Id) (username : String) (now : Time)
  /-- `handleApprovalAction` calls `NotifyApprovalChange`. -/
  | approval
  | restart

namespace UninstallServer

/-- `SaveUninstall`. -/
def saveUninstall (s : UninstallServer) : UninstallServer :=
  { s with file := s.store.uninstallReq, unsaved := false }

/-- `DecideUninstall`, and the answer to the administrator. -/
def decideUninstall (s : UninstallServer) (id : Id) (approved : Bool) (username : String)
    (now : Time) : UninstallServer :=
  { s with
    store := s.store.decideUninstall id approved username now
    acked := Function.update s.acked id (some (approved, username))
    unsaved := true }

/-- A new process, after `LoadUninstall`. -/
def boot (file : Id → Option UninstallRequest) : UninstallServer where
  store := { Store.new [] with uninstallReq := file }
  file := file

def step (s : UninstallServer) : FileEvent → UninstallServer
  | .request req now =>
    let (st, notifies) := s.store.handleUninstallReq req now
    if notifies then { s with store := st }.saveUninstall else { s with store := st }
  | .decide id approved username now => s.decideUninstall id approved username now
  | .remoteUninstall id username now => s.decideUninstall id true username now
  | .approval => s.saveUninstall
  | .restart => { boot s.file with acked := s.acked }

end UninstallServer

def RecordsDecision (r? : Option UninstallRequest) (d : Bool × String) : Prop :=
  ∃ r, r? = some r ∧ r.decidedAt ≠ 0 ∧ r.approved = d.1 ∧ r.decidedBy = d.2

def Durable (s : UninstallServer) : Prop :=
  ∀ id d, s.acked id = some d → RecordsDecision (s.store.uninstallReq id) d

/-- A decision is for a request that is there, by a clock past the epoch; a restart finds the
file written since the last decision. -/
def SavedInTime (s : UninstallServer) : FileEvent → Prop
  | .decide id _ _ now | .remoteUninstall id _ now =>
    (s.store.uninstallReq id).isSome = true ∧ unixMilli now ≠ 0
  | .restart => s.unsaved = false
  | _ => True

section File

/-- The handler as a whole is its two sections. -/
theorem handleUninstallReq_sections (srv : Identity) (st : Store) (req : UninstallReqPayload)
    (now : Time) : st.handleUninstallReq req now =
      match ((Task.unGet req).move srv st now).next with
      | .unAdd req => (((Task.unAdd req).move srv st now).store, true)
      | _ => (st, false) := by
  simp only [Store.handleUninstallReq, Task.move]
  cases st.getUninstallRequest req.agentId with
  | none => rfl
  | some existing =>
    by_cases hopen : existing.decidedAt = 0
    · simp only [if_pos hopen]
    · simp only [if_neg hopen]
      cases existing.approved <;> rfl

variable {s : UninstallServer} {id : Id} {d : Bool × String}

theorem handleUninstallReq_decided {st : Store} (h : RecordsDecision (st.uninstallReq id) d)
    (req : UninstallReqPayload) (now : Time) :
    RecordsDecision ((st.handleUninstallReq req now).1.uninstallReq id) d := by
  obtain ⟨r, hr, hdecided, happroved, hby⟩ := h
  by_cases hid : req.agentId = id
  · subst hid
    refine ⟨r, ?_, hdecided, happroved, hby⟩
    simp only [Store.handleUninstallReq, Store.getUninstallRequest, hr, if_neg hdecided]
  · have hadd : ∀ r' : UninstallRequest, r'.agentId = req.agentId →
        (st.addUninstallRequest r').uninstallReq id = some r := by
      intro r' hr'
      exact (update_of_ne (by rw [hr']; exact Ne.symm hid) _ _).trans hr
    refine ⟨r, ?_, hdecided, happroved, hby⟩
    simp only [Store.handleUninstallReq]
    split
    · exact hadd _ rfl
    · split
      · exact hadd _ rfl
      · exact hr

theorem decideUninstall_recorded {st : Store} {key : Id} {approved : Bool} {username : String}
    (hkey : (st.uninstallReq key).isSome = true) (hnow : unixMilli now ≠ 0)
    (h : id ≠ key → RecordsDecision (st.uninstallReq id) d)
    (hd : id = key → d = (approved, username)) :
    RecordsDecision ((st.decideUninstall key approved username now).uninstallReq id) d := by
  obtain ⟨r, hr⟩ := isSome_iff_exists.mp hkey
  simp only [Store.decideUninstall, hr]
  by_cases hid : id = key
  · subst hid
    rw [hd rfl]
    exact ⟨_, update_self _ _ _, hnow, rfl, rfl⟩
  · rw [update_of_ne hid]
    exact h hid

/-- The acknowledged decisions are in the store, and in the file unless there was one since
it was written. -/
structure Backed (s : UninstallServer) : Prop where
  durable : Durable s
  onDisk : s.unsaved = false → ∀ id d, s.acked id = some d → RecordsDecision (s.file id) d

theorem Backed.saveUninstall (h : Durable s) : Backed s.saveUninstall :=
  ⟨h, fun _ id d hd => h id d hd⟩

/-- A decision on a request that is there is in the store. -/
theorem Backed.decideUninstall (h : Backed s) {key : Id} (approved : Bool) (username : String)
    (hkey : (s.store.uninstallReq key).isSome = true) (hnow : unixMilli now ≠ 0) :
    Backed (s.decideUninstall key approved username now) := by
  refine ⟨?_, fun hsaved => by cases hsaved⟩
  intro id d hd
  refine decideUninstall_recorded hkey hnow ?_ ?_
  · intro hid
    exact h.durable id d ((update_of_ne hid _ _).symm.trans hd)
  · rintro rfl
    have hself : (s.decideUninstall id approved username now).acked id =
        some (approved, username) := update_self _ _ _
    rw [hself] at hd
    exact (some.inj hd).symm

/-- One step keeps the acknowledged decisions in the store. -/
theorem Backed.step (h : Backed s) {e : FileEvent} (he : SavedInTime s e) : Backed (s.step e) := by
  cases e with
  | request req now =>
    have hstore : Durable { s with store := (s.store.handleUninstallReq req now).1 } :=
      fun id d hd => handleUninstallReq_decided (h.durable id d hd) req now
    simp only [UninstallServer.step]
    split
    · exact Backed.saveUninstall hstore
    · exact ⟨hstore, h.onDisk⟩
  | decide key approved username now => exact h.decideUninstall approved username he.1 he.2
  | remoteUninstall key username now => exact h.decideUninstall true username he.1 he.2
  | approval => exact Backed.saveUninstall h.durable
  | restart => exact ⟨h.onDisk he, fun _ => h.onDisk he⟩

end File

/-- The decisions that were acknowledged are in the store, across restarts, if each was for a
request that was there and the file was written between it and the next restart. -/
theorem acknowledged_decisions_survive (file : Id → Option UninstallRequest)
    (es : List FileEvent) (h : Along UninstallServer.step SavedInTime (.boot file) es) :
    Throughout UninstallServer.step Durable (.boot file) es := by
  have hboot : Backed (.boot file) := by
    refine ⟨?_, ?_⟩
    · intro id d hd
      cases hd
    · intro _ id d hd
      cases hd
  have hstep : ∀ (s : UninstallServer) (e : FileEvent), Backed s → SavedInTime s e →
      Backed (s.step e) := fun s e hs he => hs.step he
  exact (throughout_of_invariant hstep hboot h).mono fun s hs => hs.durable

/-- A request is approved, another host asks, and the server restarts. -/
theorem acknowledged_decision_survives :
    Throughout UninstallServer.step Durable (.boot fun _ => none)
      [.request ⟨"h1", "", ""⟩ 1000000, .decide "h1" true "admin" 2000000,
        .request ⟨"h2", "", ""⟩ 3000000, .restart] :=
  acknowledged_decisions_survive _ _ ⟨trivial, ⟨by decide, by decide⟩, trivial, rfl, trivial⟩

def approvedThenRestarted : UninstallServer :=
  exec UninstallServer.step (.boot fun _ => none)
    [.request ⟨"h1", "", ""⟩ 1000000, .decide "h1" true "admin" 2000000, .restart]

def approvedUnasked : UninstallServer :=
  exec UninstallServer.step (.boot fun _ => none) [.decide "h2" true "admin" 2000000, .restart]

/-- A decision that a restart undoes. -/
theorem restart_forgets_decision :
    (approvedThenRestarted.acked "h1" = some (true, "admin") ∧
      (approvedThenRestarted.store.uninstallReq "h1").map
        (fun r => (r.approved, r.decidedBy, r.decidedAt)) = some (false, "", 0)) ∧
    (approvedUnasked.acked "h2" = some (true, "admin") ∧
      approvedUnasked.store.uninstallReq "h2" = none) := by
  decide

end CtForge.Server
