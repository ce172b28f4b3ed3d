import CtForge.Server.Approval
import CtForge.Server.Presence

/-!
# Who is admitted

`Handle` looks at the approval of a host once, before it registers the connection.
A rejection, a removal, a handshake or a reload that takes the approval away later
acts on the store alone: the session stays, and commands go to it.
-/

namespace CtForge.Server

open CtForge.Runs

/-- The registration passed the approval check of `id` and has no session yet. -/
def Task.registers (id : Id) : Task → Bool
  | .regIsTombstoned reg | .regRegister reg => reg.agentId == id
  | .regSession key => key == id
  | _ => false

def Admitted (id : Id) (s : Sys) : Prop :=
  (s.sessions id).isSome = true ∨ ∃ t, (s.tasks t).registers id = true

/-- The section takes the approval of `id` away, or its record. -/
def Task.withdraws (id : Id) : Task → Bool
  | .rmDelete key | .hsSetApproval key => key == id
  | .loadStore r _ => r.agentId == id && r.approval != .approved
  | _ => false

/-- The step takes no approval and no record of an admitted host away, and writes
no record of a removed one. -/
def KeepsAdmitted (s : Sys) : Event → Prop
  | .decide id false _ => ¬ Admitted id s
  | .prune now => ∀ id a, s.store.agents id = some a →
      Store.stale (now - pruneTimeout) a = true → ¬ Admitted id s
  | .run t _ => ∀ id, ((s.tasks t).withdraws id = true → ¬ Admitted id s) ∧
      ((s.tasks t).creates id = true → ¬ Removed id s)
  | _ => True

/-- The store has a record of `id`, and it is approved. -/
def Approved (id : Id) (st : Store) : Prop :=
  ∃ a, st.agents id = some a ∧ a.approval = .approved

/-! ## What a step keeps -/

variable {srv : Identity} {id : Id}

/-- A task that does not withdraw the approval leaves the record approved. -/
theorem Task.Writes.approved {st : Store} {now : Time} {task : Task} {r : Option Agent}
    (h : task.Writes srv st now id r) {a : Agent} (ha : st.agents id = some a)
    (happ : a.approval = .approved) (htask : task.withdraws id = false) :
    ∃ a', r = some a' ∧ a'.approval = .approved := by
  cases h with
  | keep => exact ⟨a, ha, happ⟩
  | handshake req existing state hid | register reg hid => exact ⟨_, rfl, by simp [ha, happ]⟩
  | pending | delete => simp [Task.withdraws] at htask
  | message m => exact ⟨m.touch now a, by simp [ha], by simp [happ]⟩
  | setOffline => exact ⟨{ a with online := false, lastSeen := now }, by simp [ha], happ⟩
  | offlineEvent => exact ⟨Message.touch now .offline a, by simp [ha], by simp [happ]⟩
  | discoverNew d hid hnone => simp [hnone] at ha
  | discoverKnown d hid hsome hoff =>
    obtain rfl := Option.some.inj (hsome.symm.trans ha)
    exact ⟨_, rfl, by simp [Store.refresh, happ]⟩
  | load p rs hid => exact ⟨_, rfl, by simpa [Task.withdraws, hid] using htask⟩

variable {s : Sys} {e : Event}

/-- A step that keeps the admitted leaves an approved record approved. -/
theorem Rewrites.approved {r : Option Agent} (h : Rewrites srv s id e r)
    (happ : Approved id s.store) (hadm : Admitted id s) (hkeeps : KeepsAdmitted s e) :
    ∃ a', r = some a' ∧ a'.approval = .approved := by
  obtain ⟨a, ha, happ⟩ := happ
  cases h with
  | keep => exact ⟨a, ha, happ⟩
  | prune now =>
    have hfresh : Store.stale (now - pruneTimeout) a = false := by
      exact Bool.eq_false_iff.mpr fun hstale => hkeeps id a ha hstale hadm
    exact ⟨a, by simp [ha, hfresh], happ⟩
  | decide approve now =>
    cases approve with
    | true => exact ⟨decided srv true now a, by simp [ha], rfl⟩
    | false => exact absurd hadm hkeeps
  | run t now h =>
    exact h.approved ha happ (Bool.eq_false_iff.mpr fun hw => (hkeeps id).1 hw hadm)

theorem registers_before {t : Tid} {task : Task} (hgoes : Goes s t e task)
    (hreg : task.registers id = true) :
    (s.tasks t).registers id = true ∨
      ∃ now reg, e = .run t now ∧ s.tasks t = .regApprovalOf reg ∧ reg.agentId = id ∧
        s.store.approvalOf id = .approved := by
  cases hgoes with
  | keep => exact .inl hreg
  | enter hidle hfresh => cases task <;> simp [Task.registers, Task.fresh] at hreg hfresh
  | move now hfollows =>
    generalize htask : s.tasks t = old at hfollows
    cases hfollows with
    | stay | regRegister h | regSkipped h | regSession reg => exact .inl hreg
    | @regIsTombstoned reg happ =>
      obtain rfl := beq_iff_eq.mp hreg
      exact .inr ⟨now, reg, rfl, rfl, rfl, happ⟩
    | _ => simp [Task.registers] at hreg
  | _ => simp [Task.registers] at hreg

theorem admitted_before (hadm : Admitted id (step srv s e)) :
    Admitted id s ∨ ∃ t now reg, e = .run t now ∧ s.tasks t = .regApprovalOf reg ∧
      reg.agentId = id ∧ s.store.approvalOf id = .approved := by
  obtain hsession | ⟨t, hreg⟩ := hadm
  · obtain hsession | ⟨t, htask⟩ := session_before hsession
    · exact .inl (.inl hsession)
    · exact .inl (.inr ⟨t, by simp [htask, Task.registers]⟩)
  · obtain hreg | ⟨now, reg, hchecked⟩ := registers_before (step_goes srv s e t) hreg
    · exact .inl (.inr ⟨t, hreg⟩)
    · exact .inr ⟨t, now, reg, hchecked⟩

theorem step_regApprovalOf_store {t : Tid} {now : Time} {reg : RegisterPayload}
    (htask : s.tasks t = .regApprovalOf reg) : (step srv s (.run t now)).store = s.store := by
  obtain hblocked | htaken := step_run srv now htask rfl
  · rw [hblocked]
  · rw [htaken]
    simp only [Task.move]
    split <;> rfl

/-! ## Every run -/

structure Vetted (s : Sys) : Prop where
  approved : ∀ id, Admitted id s → Approved id s.store
  removed : ∀ id, Removed id s → s.store.agents id = none

theorem vetted_start (ids : List Id) : Vetted (Sys.start (Store.new ids)) where
  approved id h := by
    obtain h | ⟨t, h⟩ := h <;> cases h
  removed _ _ := rfl

theorem Vetted.approved_step (hs : Vetted s) (hkeeps : KeepsAdmitted s e)
    (hadm : Admitted id (step srv s e)) : Approved id (step srv s e).store := by
  obtain hbefore | ⟨t, now, reg, rfl, htask, -, happ⟩ := admitted_before hadm
  · exact (step_rewrites srv s e id).approved (hs.approved id hbefore) hbefore hkeeps
  · rw [step_regApprovalOf_store htask]
    exact approvalOf_eq_approved.mp happ

theorem Vetted.removed_step (hs : Vetted s) (hkeeps : KeepsAdmitted s e)
    (hrem : Removed id (step srv s e)) : (step srv s e).store.agents id = none := by
  have hkept (hold : Removed id s) : (step srv s e).store.agents id = none := by
    refine (step_rewrites srv s e id).absent (hs.removed id hold) ?_
    rintro t now rfl
    exact Bool.eq_false_iff.mpr fun hcreates => (hkeeps id).2 hcreates hold
  obtain hlisted | ⟨t, ht⟩ := hrem
  · exact hkept (tombstoned_before hlisted)
  · obtain hold | ⟨now, rfl, htask⟩ := tombstoning_before ht
    · exact hkept (.inr ⟨t, hold⟩)
    · exact (absent_of_delete htask ht).agents

theorem Vetted.after_step (hs : Vetted s) (hkeeps : KeepsAdmitted s e) : Vetted (step srv s e) where
  approved _ := hs.approved_step hkeeps
  removed _ := hs.removed_step hkeeps

theorem Vetted.session (hs : Vetted s) (h : (s.sessions id).isSome = true) :
    s.store.approvalOf id = .approved ∧ s.store.isTombstoned id = false := by
  obtain ⟨a, ha, happ⟩ := hs.approved id (.inl h)
  refine ⟨approvalOf_eq_approved.mpr ⟨a, ha, happ⟩, Bool.eq_false_iff.mpr ?_⟩
  intro hlisted
  have hnone := hs.removed id (.inl hlisted)
  rw [hnone] at ha
  cases ha

/-- Every host with a session is approved and not removed, in every run in which the approval of
a host that is admitted is not taken away, its record is neither deleted nor pruned, and no
section writes a record of a removed host. -/
theorem sessions_are_approved (srv : Identity) (ids : List Id) (es : List Event)
    (hkeeps : Along (step srv) KeepsAdmitted (Sys.start (Store.new ids)) es) :
    Throughout (step srv)
      (fun s => ∀ id, (s.sessions id).isSome = true →
        s.store.approvalOf id = .approved ∧ s.store.isTombstoned id = false)
      (Sys.start (Store.new ids)) es := by
  have hstep : ∀ s e, Vetted s → KeepsAdmitted s e → Vetted (step srv s e) := by
    intro s e hs hkeep
    exact hs.after_step hkeep
  have hrun := throughout_of_invariant hstep (vetted_start ids) hkeeps
  refine hrun.mono ?_
  intro s hs id h
  exact hs.session h

/-- A host that the approvals file lists as approved registers, and is served. -/
theorem approved_host_has_session : let srv : Identity := { token := "", serverId := "console" }
    let es : List Event := [.load 0 [{ agentId := "h", approval := .approved }], .run 0 1, .run 0 2,
      .run 0 3, .accept 1 "10.0.0.5" (some (.register "" { agentId := "h" })), .run 1 4, .run 1 5,
      .run 1 6, .run 1 7]
    let s := exec (step srv) (Sys.start (Store.new ["gone"])) es
    s.sessions "h" = some 1 ∧
      Throughout (step srv)
        (fun s => ∀ id, (s.sessions id).isSome = true →
          s.store.approvalOf id = .approved ∧ s.store.isTombstoned id = false)
        (Sys.start (Store.new ["gone"])) es := by
  refine ⟨by decide, sessions_are_approved _ _ _ ?_⟩
  have silent {s : Sys} {t : Tid} {now : Time} (h : ∀ id, (s.tasks t).withdraws id = false ∧
      (s.tasks t).creates id = false) : KeepsAdmitted s (.run t now) := by
    intro id
    simp [h id]
  have writes {s : Sys} {t : Tid} {now : Time} (hkeep : ∀ id, (s.tasks t).withdraws id = false)
      (hcreates : ∀ id, (s.tasks t).creates id = true → id = "h")
      (hlisted : s.store.isTombstoned "h" = false) (hfree : ∀ t, (s.tasks t).removes = false) :
      KeepsAdmitted s (.run t now) := by
    intro id
    refine ⟨by simp [hkeep id], ?_⟩
    intro hid hrem
    obtain rfl := hcreates id hid
    obtain h | ⟨u, h⟩ := hrem
    · rw [hlisted] at h
      cases h
    · have hu := hfree u
      rw [h] at hu
      cases hu
  refine ⟨trivial, silent ?_, writes ?_ ?_ ?_ ?_, silent ?_, trivial, silent ?_, silent ?_,
    writes ?_ ?_ ?_ ?_, silent ?_, trivial⟩
  · exact fun id => ⟨rfl, rfl⟩
  · intro id
    change ("h" == id && false) = false
    exact Bool.and_false _
  · intro id hid
    exact (beq_iff_eq.mp hid).symm
  · decide
  · intro t
    rcases t with _ | t <;> rfl
  · exact fun id => ⟨rfl, rfl⟩
  · exact fun id => ⟨rfl, rfl⟩
  · exact fun id => ⟨rfl, rfl⟩
  · exact fun id => rfl
  · intro id hid
    exact (beq_iff_eq.mp hid).symm
  · decide
  · intro t
    rcases t with _ | _ | t <;> rfl
  · exact fun id => ⟨rfl, rfl⟩

/-- A host that is rejected while it is connected, and one that is uninstalled from the console,
keep their sessions. -/
theorem rejected_host_keeps_session : let srv : Identity := { token := "", serverId := "console" }
    let comes (t : Tid) (id : Id) : List Event :=
      [.accept t "10.0.0.5" (some (.register "" { agentId := id })), .run t 2, .run t 2, .run t 2,
        .run t 2]
    let es : List Event := [.load 0 [{ agentId := "h", approval := .approved },
        { agentId := "u", approval := .approved }], .run 0 1, .run 0 1, .run 0 1, .run 0 1,
        .run 0 1] ++
      comes 1 "h" ++ comes 2 "u" ++
      [.decide "h" false 3, .remoteUninstall 3 "u" "admin", .run 3 4, .run 3 4, .run 3 4]
    let s := exec (step srv) (Sys.start (Store.new [])) es
    (∀ t, (s.tasks t).atRest = true) ∧ s.sessions "h" = some 1 ∧ s.sessions "u" = some 2 ∧
      s.store.approvalOf "h" = .rejected ∧ s.store.isTombstoned "u" = true := by
  refine ⟨fun t => ?_, by decide, by decide, by decide, by decide⟩
  rcases t with _ | _ | _ | _ | t
  · decide
  · decide
  · decide
  · decide
  · rfl

end CtForge.Server
