import CtForge.Server.Records

/-!
# Who approves a host

A handshake reads the approval of its host, decides by it, and only then writes:
`Register`, and for a host it read as undecided `SetApproval("pending")`. Between
the read and the writes the administrator may decide and the record may be
dropped.
-/

namespace CtForge.Server

open CtForge.Runs Option

/-! ## Handshakes between their read and their writes -/

def Task.read : Task → Option (Id × Approval)
  | .hsGetAgent req state => some (req.agentId, state)
  | .hsIsTombstoned req _ state => some (req.agentId, state)
  | .hsRegister req _ state => some (req.agentId, state)
  | _ => none

/-- The task is a handshake that will set `id` back to pending. -/
def Task.WillPend (id : Id) (task : Task) : Prop :=
  task = .hsSetApproval id ∨ ∃ state, task.read = some (id, state) ∧ state.undecided = true

variable {task : Task}

theorem fresh_read (h : task.fresh = true) : task.read = none := by
  cases task <;> first | rfl | cases h

variable {st : Store} {id : Id}

theorem Task.Follows.read_eq {task next : Task} (h : task.Follows st next) {state : Approval}
    (hread : next.read = some (id, state)) :
    task.read = some (id, state) ∨
      ∃ req, task = .hsApprovalOf req ∧ req.agentId = id ∧ st.approvalOf id = state := by
  cases h with
  | stay | hsIsTombstoned req existing state | hsRegister existing state h => exact .inl hread
  | hsGetAgent req =>
    obtain ⟨rfl, rfl⟩ : req.agentId = id ∧ st.approvalOf req.agentId = state := by
      simpa [Task.read] using hread
    exact .inr ⟨req, rfl, rfl, rfl⟩
  | _ => cases hread

theorem Task.Follows.willPend {task next : Task} (h : task.Follows st next)
    (hnext : next.WillPend id) : task.WillPend id ∨ (st.approvalOf id).undecided = true := by
  obtain rfl | ⟨state, hread, hstate⟩ := hnext
  · cases h with
    | stay => exact .inl (.inl rfl)
    | hsSkipped req existing hstate | hsSetApproval req existing hstate =>
      exact .inl (.inr ⟨_, rfl, hstate⟩)
  · obtain hold | ⟨req, -, -, happ⟩ := h.read_eq hread
    · exact .inl (.inr ⟨state, hold, hstate⟩)
    · exact .inr (happ ▸ hstate)

variable {t : Tid} {e : Event} {s : Sys}

theorem Goes.read_eq (h : Goes s t e task) {state : Approval}
    (hread : task.read = some (id, state)) :
    (s.tasks t).read = some (id, state) ∨
      ∃ now req, e = .run t now ∧ s.tasks t = .hsApprovalOf req ∧
        s.store.approvalOf id = state := by
  cases h with
  | keep => exact .inl hread
  | enter hidle hfresh =>
    rw [fresh_read hfresh] at hread
    cases hread
  | move now h =>
    obtain hold | ⟨req, htask, -, happ⟩ := h.read_eq hread
    · exact .inl hold
    · exact .inr ⟨now, req, rfl, htask, happ⟩
  | _ => cases hread

theorem Goes.willPend (h : Goes s t e task) (htask : task.WillPend id) :
    (s.tasks t).WillPend id ∨ (s.store.approvalOf id).undecided = true := by
  cases h with
  | keep => exact .inl htask
  | enter hidle hfresh =>
    obtain rfl | ⟨state, hread, -⟩ := htask
    · cases hfresh
    · rw [fresh_read hfresh] at hread
      cases hread
  | move now h => exact h.willPend htask
  | _ => simp [Task.WillPend, Task.read] at htask

theorem approvalOf_eq_approved :
    st.approvalOf id = .approved ↔ ∃ a, st.agents id = some a ∧ a.approval = .approved := by
  unfold Store.approvalOf
  cases st.agents id <;> simp

/-! ## An approval and the handshakes of its host -/

/-- The section is `RemoveAgent` or `Load` on the record of `id`. -/
def Task.replaces (id : Id) : Task → Bool
  | .rmDelete key => key == id
  | .loadStore r _ => r.agentId == id
  | _ => false

/-- The step neither drops the record of `id` nor reloads it from the approvals
file. -/
def KeepsRecord (id : Id) (s : Sys) : Event → Prop
  | .prune now => ∀ a, s.store.agents id = some a → Store.stale (now - pruneTimeout) a = false
  | .run t _ => (s.tasks t).replaces id = false
  | _ => True

/-- An administrator approves `id` only while no handshake will set it back. -/
def DecidesAlone (id : Id) (s : Sys) : Event → Prop
  | .decide key true _ => key = id → ∀ t, ¬ (s.tasks t).WillPend id
  | _ => True

def Event.decides (id : Id) : Event → Bool
  | .decide key _ _ => key == id
  | _ => false

structure Settled (id : Id) (s : Sys) : Prop where
  approved : s.store.approvalOf id = .approved
  alone : ∀ t, ¬ (s.tasks t).WillPend id

variable {now : Time} {r : Option Agent} {srv : Identity}

/-- No task takes a settled approval away. -/
theorem Settled.writes (hs : Settled id s) (h : (s.tasks t).Writes srv s.store now id r)
    (hkeep : KeepsRecord id s (.run t now)) : ∃ a, r = some a ∧ a.approval = .approved := by
  obtain ⟨a, ha, happ⟩ := approvalOf_eq_approved.mp hs.approved
  simp only [KeepsRecord] at hkeep
  generalize htask : s.tasks t = task at h hkeep
  cases h with
  | keep => exact ⟨a, ha, happ⟩
  | pending => exact absurd (.inl htask) (hs.alone t)
  | delete => simp [Task.replaces] at hkeep
  | load r rs hid => simp [Task.replaces, hid] at hkeep
  | discoverNew d hid hnone =>
    rw [ha] at hnone
    cases hnone
  | discoverKnown d hid hsome hoff =>
    obtain rfl : a = _ := some.inj (ha.symm.trans hsome)
    exact ⟨_, rfl, by simp [Store.refresh, happ]⟩
  | _ =>
    rw [ha]
    exact ⟨_, rfl, by simp [happ]⟩

/-- One step of the server keeps an approval settled. -/
theorem Settled.after_step (hs : Settled id s) (hkeep : KeepsRecord id s e)
    (he : e.decides id = false) : Settled id (step srv s e) := by
  constructor
  · rw [approvalOf_eq_approved]
    have hrec := step_rewrites srv s e id
    generalize (step srv s e).store.agents id = r at hrec
    obtain ⟨a, ha, happ⟩ := approvalOf_eq_approved.mp hs.approved
    cases hrec with
    | keep => exact ⟨a, ha, happ⟩
    | prune now => exact ⟨a, by simp [ha, hkeep a ha], happ⟩
    | decide approve now => simp [Event.decides] at he
    | run t now h => exact hs.writes h hkeep
  · intro t ht
    obtain hold | hundecided := (step_goes srv s e t).willPend ht
    · exact hs.alone t hold
    · rw [hs.approved] at hundecided
      cases hundecided

theorem decide_tasks (srv : Identity) (s : Sys) (id : Id) (approve : Bool) (now : Time) :
    (step srv s (.decide id approve now)).tasks = s.tasks := by
  simp only [step]
  split <;> rfl

/-- An approval stays until the administrator decides again, in every run in which an
administrator approves the host only while no handshake that read it as undecided has writes
left. -/
theorem approval_outlives_handshakes (srv : Identity) (id : Id) (s : Sys) (es fs : List Event)
    (now : Time) (hkeep : Along (step srv) (KeepsRecord id) s (es ++ .decide id true now :: fs))
    (halone : Along (step srv) (DecidesAlone id) s (es ++ .decide id true now :: fs))
    (hdone : (exec (step srv) s (es ++ [.decide id true now])).store.approvalOf id = .approved)
    (hadmin : ∀ e ∈ fs, e.decides id = false) :
    Throughout (step srv) (fun s => s.store.approvalOf id = .approved)
      (exec (step srv) s (es ++ [.decide id true now])) fs := by
  obtain ⟨-, hfree, -⟩ := along_append.mp halone
  obtain ⟨-, -, hkeep⟩ := along_append.mp hkeep
  rw [exec_append] at hdone ⊢
  have hsettled : Settled id (step srv (exec (step srv) s es) (.decide id true now)) :=
    ⟨hdone, by
      rw [decide_tasks]
      exact hfree rfl⟩
  have hothers (s : Sys) : Along (step srv) (fun _ e => e.decides id = false) s fs :=
    along_of_forall fun e he _ => hadmin e he
  exact (throughout_of_invariant (fun s e hs h => hs.after_step h.1 h.2) hsettled
    (hkeep.and (hothers _))).mono fun _ hs => hs.approved

/-- A handshake of `h` from an address of the LAN. -/
def handshakeOf (t : Tid) : Event :=
  .accept t "10.0.0.5" (some (.handshakeReq "" { agentId := "h", hostname := "h" }))

def console : Identity where
  token := ""
  serverId := "console"

/-- A handshake after the approval leaves it alone. -/
theorem approval_outlives_one_handshake :
    Throughout (step console) (fun s => s.store.approvalOf "h" = .approved)
      (exec (step console) (Sys.start ((Store.new []).putAgent "h" { agentId := "h" }))
        ([] ++ [.decide "h" true 1]))
      [handshakeOf 0, .run 0 2, .run 0 3, .run 0 4, .run 0 5] := by
  refine approval_outlives_handshakes console "h" _ [] _ 1 ?_ ?_ (by decide)
    (by decide)
  · refine ⟨trivial, trivial, ?_, ?_, ?_, ?_, trivial⟩ <;> simp only [KeepsRecord] <;>
      decide
  · refine ⟨?_, trivial, trivial, trivial, trivial, trivial, trivial⟩
    simp [DecidesAlone, Sys.start, Task.WillPend, Task.read]

/-- A handshake that read the host as undecided writes after the approval. -/
theorem late_handshake_withdraws_approval :
    let es : List Event := [handshakeOf 0, .run 0 1, .run 0 2, .run 0 3, .run 0 4]
    let s := Sys.start (Store.new [])
    (exec (step console) s (es ++ [.decide "h" true 5])).store.approvalOf "h" = .approved ∧
      (exec (step console) s (es ++ [.decide "h" true 5, .run 0 6])).store.approvalOf "h" =
        .pending := by
  decide

/-! ## Where approvals come from -/

/-- The section is `Load` writing an approved record of `id`. -/
def Task.restores (id : Id) : Task → Bool
  | .loadStore r _ => r.agentId == id && r.approval == .approved
  | _ => false

/-- The step is an approval of `id` by the administrator or by `Load`. -/
def grants (id : Id) (s : Sys) : Event → Bool
  | .decide key approve _ => key == id && approve
  | .run t _ => (s.tasks t).restores id
  | _ => false

/-- The step drops no record that a handshake read as approved and has yet to
register. -/
def KeepsReadRecords (s : Sys) : Event → Prop
  | .prune now => ∀ t id a, (s.tasks t).read = some (id, .approved) → s.store.agents id = some a →
      Store.stale (now - pruneTimeout) a = false
  | .run t _ => ∀ id, s.tasks t = .rmDelete id → ∀ u, (s.tasks u).read ≠ some (id, .approved)
  | _ => True

def ReadersKnown (s : Sys) : Prop :=
  ∀ t id, (s.tasks t).read = some (id, .approved) → ∃ a, s.store.agents id = some a

theorem Task.Writes.known (h : task.Writes srv st now id r) {a : Agent}
    (ha : st.agents id = some a) (hdelete : task ≠ .rmDelete id) : ∃ a', r = some a' := by
  cases h with
  | delete => exact absurd rfl hdelete
  | _ => simp [ha]

/-- One step keeps the records that handshakes have read as approved. -/
theorem ReadersKnown.after_step (hs : ReadersKnown s) (hkeep : KeepsReadRecords s e) :
    ReadersKnown (step srv s e) := by
  intro t id hread
  have hrec := step_rewrites srv s e id
  generalize (step srv s e).store.agents id = r at hrec
  obtain hold | ⟨now, req, rfl, htask, happ⟩ := (step_goes srv s e t).read_eq hread
  · obtain ⟨a, ha⟩ := hs t id hold
    cases hrec with
    | keep => exact ⟨a, ha⟩
    | prune now => exact ⟨a, by simp [ha, hkeep t id a hold ha]⟩
    | decide approve now => simp [ha]
    | run u now h => exact h.known ha fun hdelete => hkeep id hdelete t hold
  · obtain ⟨a, ha, -⟩ := approvalOf_eq_approved.mp happ
    cases hrec with
    | keep => exact ⟨a, ha⟩
    | run u now h => exact h.known ha (by simp [htask])

theorem registered_approved {a : Agent}
    (h : (Store.registered (st.agents id) a now).approval = .approved) :
    st.approvalOf id = .approved ∨ st.agents id = none ∧ a.approval = .approved := by
  cases hrec : st.agents id with
  | none =>
    rw [hrec, Store.registered_none_approval] at h
    exact .inr ⟨rfl, h⟩
  | some old =>
    rw [hrec, Store.registered_some_approval] at h
    exact .inl (approvalOf_eq_approved.mpr ⟨old, hrec, h⟩)

/-- A section that leaves a host approved found it so or restored it, unless a
handshake approves a host that has no record. -/
theorem ReadersKnown.writes (hs : ReadersKnown s) {a : Agent}
    (h : (s.tasks t).Writes srv s.store now id (some a)) (happ : a.approval = .approved) :
    s.store.approvalOf id = .approved ∨ grants id s (.run t now) = true := by
  have hmap {f : Agent → Agent} (hr : some a = (s.store.agents id).map f)
      (hf : ∀ a, (f a).approval = a.approval) : s.store.approvalOf id = .approved := by
    obtain ⟨old, hold, rfl⟩ := map_eq_some_iff.mp hr.symm
    exact approvalOf_eq_approved.mpr ⟨old, hold, hf old ▸ happ⟩
  generalize htask : s.tasks t = task at h
  generalize hr : some a = r at h
  cases h with
  | keep => exact .inl (approvalOf_eq_approved.mpr ⟨a, hr.symm, happ⟩)
  | handshake req existing state hid =>
    obtain rfl := some.inj hr
    obtain hold | ⟨hnone, hnew⟩ := registered_approved happ
    · exact .inl hold
    · have hstate : state = .approved := by
        by_contra hne
        exact handshakeAgent_approval_ne srv req existing hne hnew
      obtain ⟨b, hb⟩ := hs t id (by rw [htask, Task.read, hid, hstate])
      rw [hnone] at hb
      cases hb
  | pending =>
    obtain ⟨old, hold, rfl⟩ := map_eq_some_iff.mp hr.symm
    cases happ
  | register reg hid =>
    obtain rfl := some.inj hr
    obtain hold | ⟨-, hnew⟩ := registered_approved happ
    · exact .inl hold
    · cases hnew
  | message m => exact .inl (hmap hr (m.touch_approval now))
  | setOffline | offlineEvent => exact .inl (hmap hr fun _ => rfl)
  | discoverNew d hid hnone =>
    obtain rfl := some.inj hr
    cases happ
  | discoverKnown d hid hsome hoff =>
    obtain rfl := some.inj hr
    simp only [Store.refresh] at happ
    split at happ
    · cases happ
    · exact .inl (approvalOf_eq_approved.mpr ⟨_, hsome, happ⟩)
  | delete => cases hr
  | load p rs hid =>
    obtain rfl := some.inj hr
    rw [Store.restored_approval] at happ
    exact .inr (by simp [grants, Task.restores, htask, hid, happ])

theorem ReadersKnown.granted (hs : ReadersKnown s) (id : Id)
    (hafter : (step srv s e).store.approvalOf id = .approved) :
    s.store.approvalOf id = .approved ∨ grants id s e = true := by
  obtain ⟨a, ha, happ⟩ := approvalOf_eq_approved.mp hafter
  have hrec := step_rewrites srv s e id
  rw [ha] at hrec
  generalize hr : some a = r at hrec
  cases hrec with
  | keep => exact .inl (approvalOf_eq_approved.mpr ⟨a, hr.symm, happ⟩)
  | prune now =>
    exact .inl (approvalOf_eq_approved.mpr ⟨a, (filter_eq_some_iff.mp hr.symm).1, happ⟩)
  | decide approve now =>
    obtain ⟨old, hold, rfl⟩ := map_eq_some_iff.mp hr.symm
    cases approve with
    | true => exact .inr (by simp [grants])
    | false => cases happ
  | run t now h => exact hs.writes (hr ▸ h) happ

/-- Only the administrator and `Load` approve a host, in every run in which no record is dropped
while a handshake that read it as approved has yet to register. -/
theorem approvals_are_granted (srv : Identity) (ids : List Id) (es : List Event)
    (hkeep : Along (step srv) KeepsReadRecords (Sys.start (Store.new ids)) es) :
    Along (step srv) (fun s e => ∀ id, (step srv s e).store.approvalOf id = .approved →
        s.store.approvalOf id = .approved ∨ grants id s e = true)
        (Sys.start (Store.new ids)) es ∧
      ∀ id, (exec (step srv) (Sys.start (Store.new ids)) es).store.approvalOf id = .approved →
        ∃ fs e gs, es = fs ++ e :: gs ∧
          grants id (exec (step srv) (Sys.start (Store.new ids)) fs) e = true := by
  have hstart : ReadersKnown (Sys.start (Store.new ids)) := by
    simp [ReadersKnown, Sys.start, Task.read]
  have hstep : ∀ s e, ReadersKnown s → KeepsReadRecords s e → ReadersKnown (step srv s e) :=
    fun s e hs => hs.after_step
  refine ⟨along_of_invariant hstep (fun s e hs _ => hs.granted) hstart hkeep, fun id happ => ?_⟩
  have hunset : ¬ (Sys.start (Store.new ids)).store.approvalOf id = .approved := by
    simp [Sys.start, Store.approvalOf, Store.new]
  obtain ⟨fs, e, gs, rfl, hbefore, hafter⟩ :=
    exists_step_of_exec (P := fun s : Sys => s.store.approvalOf id = .approved) hunset happ
  have hknown : ReadersKnown (exec (step srv) (Sys.start (Store.new ids)) fs) :=
    exec_of_invariant hstep hstart (along_append.mp hkeep).1
  exact ⟨fs, e, gs, rfl, (hknown.granted id hafter).resolve_left hbefore⟩

theorem approvals_are_granted_found_host :
    let es : List Event := [.packet 0 "10.0.0.5" { agentId := "h" }, .run 0 1, .run 0 2,
      .decide "h" true 3]
    ∃ fs e gs, es = fs ++ e :: gs ∧
      grants "h" (exec (step console) (Sys.start (Store.new [])) fs) e = true := by
  refine (approvals_are_granted console [] _ ?_).2 "h" (by decide)
  refine ⟨trivial, ?_, ?_, trivial, trivial⟩ <;> intro id htask <;> cases htask

/-- A host that the administrator rejected approves itself. -/
theorem stale_handshake_approves : let found : DiscoverPayload := { agentId := "h" }
    let es : List Event := [.packet 0 "10.0.0.5" found, .run 0 1, .run 0 2, .decide "h" true 3,
      handshakeOf 1, .run 1 (pruneTimeout + 4), .run 1 (pruneTimeout + 5),
      .run 1 (pruneTimeout + 6), .decide "h" false (pruneTimeout + 7), .prune (pruneTimeout + 8)]
    let s := exec (step console) (Sys.start (Store.new [])) es
    let e := Event.run 1 (pruneTimeout + 9)
    s.store.approvalOf "h" ≠ .approved ∧ (step console s e).store.approvalOf "h" = .approved ∧
      grants "h" s e = false := by
  decide

/-! ## Decisions and the pruning timer -/

/-- The section is `Discover` on the record of `id`. -/
def Task.discovers (id : Id) : Task → Bool
  | .discStore d => d.agentId == id
  | _ => false

/-- The administrator decides on `id` only when its record is not marked as
discovered, and no beacon finds it rejected and offline. -/
def LeavesUnmarked (id : Id) (s : Sys) : Event → Prop
  | .decide key _ _ => key = id → ∀ a ∈ s.store.agents id, a.discovered = false
  | .run t _ => (s.tasks t).discovers id = true → ∀ a ∈ s.store.agents id,
      a.online = true ∨ a.approval ≠ .rejected
  | _ => True

instance (id : Id) (s : Sys) : ∀ e, Decidable (LeavesUnmarked id s e)
  | .decide key _ _ =>
    inferInstanceAs (Decidable (key = id → ∀ a ∈ s.store.agents id, a.discovered = false))
  | .run t _ => inferInstanceAs (Decidable ((s.tasks t).discovers id = true →
      ∀ a ∈ s.store.agents id, a.online = true ∨ a.approval ≠ .rejected))
  | .accept .. | .receive .. | .hangup .. | .packet .. | .prune .. => .isTrue trivial
  | .decideUninstall .. | .remoteUninstall .. | .delete .. | .load .. => .isTrue trivial

def Unmarked (id : Id) (s : Sys) : Prop :=
  ∃ a, s.store.agents id = some a ∧ a.discovered = false

theorem verdict_ne_unset (approve : Bool) : verdict approve ≠ .unset := by
  cases approve <;> decide

variable {approve : Bool}

/-- No write of a task marks a decided host as discovered. -/
theorem Unmarked.writes (hs : Unmarked id s) (h : (s.tasks t).Writes srv s.store now id r)
    (hleave : LeavesUnmarked id s (.run t now)) (happ : s.store.approvalOf id = verdict approve) :
    r = none ∨ ∃ a, r = some a ∧ a.discovered = false := by
  obtain ⟨a, ha, hmark⟩ := hs
  simp only [LeavesUnmarked] at hleave
  simp only [Store.approvalOf, ha] at happ
  generalize s.tasks t = task at h hleave
  cases h with
  | delete => exact .inl rfl
  | keep => exact .inr ⟨a, ha, hmark⟩
  | discoverNew d hid hnone =>
    rw [ha] at hnone
    cases hnone
  | discoverKnown d hid hsome hoff =>
    obtain rfl : a = _ := some.inj (ha.symm.trans hsome)
    -- a beacon marks a record that is offline and not approved
    obtain hon | hrej := hleave (by simp [Task.discovers, hid]) a ha
    · rw [hoff] at hon
      cases hon
    · have happroved : a.approval = .approved := by
        cases approve with
        | true => exact happ
        | false => exact absurd happ hrej
      exact .inr ⟨_, rfl, by simp [Store.refresh, happroved, hmark]⟩
  | load p rs hid => exact .inr ⟨_, rfl, by rw [ha, Store.restored_some_discovered, hmark]⟩
  | _ =>
    rw [ha]
    exact .inr ⟨_, rfl, by simp [hmark]⟩

theorem Unmarked.after_step (hs : Unmarked id s) (hleave : LeavesUnmarked id s e)
    (happ : s.store.approvalOf id = verdict approve)
    (hafter : (step srv s e).store.approvalOf id = verdict approve) :
    Unmarked id (step srv s e) := by
  have hrec := step_rewrites srv s e id
  unfold Unmarked Store.approvalOf at *
  generalize (step srv s e).store.agents id = r at hrec hafter
  obtain ⟨a, ha, hmark⟩ := hs
  cases hrec with
  | keep => exact ⟨a, ha, hmark⟩
  | prune now => exact ⟨a, by simp [ha, Store.stale, hmark], hmark⟩
  | decide approve now => exact ⟨decided srv approve now a, by simp [ha], by simp [hmark]⟩
  | run t now h =>
    obtain rfl | hsome := Unmarked.writes ⟨a, ha, hmark⟩ h hleave happ
    · exact absurd hafter.symm (verdict_ne_unset approve)
    · exact hsome

theorem unmarked_of_decide (hleave : LeavesUnmarked id s (.decide id approve now))
    (hafter : (step srv s (.decide id approve now)).store.approvalOf id = verdict approve) :
    Unmarked id (step srv s (.decide id approve now)) := by
  have hrec := step_rewrites srv s (.decide id approve now) id
  unfold Unmarked Store.approvalOf at *
  generalize (step srv s (.decide id approve now)).store.agents id = r at hrec hafter
  cases r with
  | none => exact absurd hafter.symm (verdict_ne_unset approve)
  | some a =>
    refine ⟨a, rfl, ?_⟩
    generalize hr : some a = r at hrec
    cases hrec with
    | keep => exact hleave rfl a hr.symm
    | decide =>
      obtain ⟨old, hold, rfl⟩ := map_eq_some_iff.mp hr.symm
      rw [decided_discovered]
      exact hleave rfl old hold

theorem Unmarked.prune (hs : Unmarked id s) (now : Time) :
    ∃ a, s.store.agents id = some a ∧ (step srv s (.prune now)).store.agents id = some a := by
  obtain ⟨a, ha, hmark⟩ := hs
  have hrec := step_rewrites srv s (.prune now) id
  generalize (step srv s (.prune now)).store.agents id = r at hrec
  cases hrec with
  | keep => exact ⟨a, ha, ha⟩
  | prune => exact ⟨a, ha, by simp [ha, Store.stale, hmark]⟩

/-- The timer drops no record that the administrator decided on, in every run in which the
administrator decides on hosts that are not marked as discovered and no beacon of a rejected
host marks it again. -/
theorem decision_survives_pruning (srv : Identity) (id : Id) (s : Sys) (es fs : List Event)
    (approve : Bool) (now later : Time)
    (hleave : Along (step srv) (LeavesUnmarked id) s (es ++ .decide id approve now :: fs))
    (hsince : Throughout (step srv) (fun s => s.store.approvalOf id = verdict approve)
      (step srv (exec (step srv) s es) (.decide id approve now)) fs) :
    let s' := exec (step srv) s (es ++ .decide id approve now :: fs)
    ∃ a, s'.store.agents id = some a ∧ (step srv s' (.prune later)).store.agents id = some a := by
  obtain ⟨-, hdecide, hleave⟩ := along_append.mp hleave
  have hunmarked : Unmarked id (step srv (exec (step srv) s es) (.decide id approve now)) :=
    unmarked_of_decide hdecide hsince.start
  intro s'
  have hlast : Unmarked id s' := by
    rw [show s' = _ from exec_append ..]
    exact exec_of_invariant (fun s e hs h => hs.after_step h.1 h.2.1 h.2.2) hunmarked
      (hleave.and hsince.along)
  exact hlast.prune later

/-- A known host is approved, seen on the LAN again and pruned for much later. -/
theorem decision_survives_one_beacon :
    let s := Sys.start ((Store.new []).putAgent "h" { agentId := "h" })
    let fs : List Event := [.packet 0 "10.0.0.5" { agentId := "h" }, .run 0 2, .run 0 3]
    let s' := exec (step console) s ([] ++ .decide "h" true 1 :: fs)
    ∃ a, s'.store.agents "h" = some a ∧
      (step console s' (.prune (2 * pruneTimeout))).store.agents "h" = some a := by
  exact decision_survives_pruning console "h" _ [] _ true 1 (2 * pruneTimeout)
    (by decide) (by decide)

/-- The timer drops the record of an approved host. -/
theorem approved_host_is_pruned :
    let es : List Event := [.packet 0 "10.0.0.5" { agentId := "h" }, .run 0 1, .run 0 2]
    let s := exec (step console) (Sys.start (Store.new [])) (es ++ [.decide "h" true 3])
    s.store.approvalOf "h" = .approved ∧
      (step console s (.prune (pruneTimeout + 4))).store.agents "h" = none := by
  decide

end CtForge.Server
