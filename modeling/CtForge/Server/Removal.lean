import CtForge.Server.Records

/-!
# Removed hosts

`RemoveAgent` deletes what the store has of a host and then, in a section of its
own, puts the host on the tombstone list. `Register`, `Discover` and `Load` look
at that list in a section before the one they write in; `UpdateMetrics` and
`AddLog` do not look at it at all.
-/

namespace CtForge.Server

open CtForge.Runs Function

/-- The section leaves a record of `id`, also where there was none. -/
def Task.creates (id : Id) : Task → Bool
  | .hsRegister req _ _ => req.agentId == id
  | .regRegister reg => reg.agentId == id
  | .discStore d => d.agentId == id
  | .loadStore r _ => r.agentId == id
  | _ => false

/-- The section puts something of `id` into the store that need not be there. -/
def Task.inserts (id : Id) : Task → Bool
  | .dispatching key (.metrics _) | .dispatching key (.log _) => key == id
  | task => task.creates id

def Task.atRest : Task → Bool
  | .idle | .serving _ | .finished => true
  | _ => false

/-- The store has no record, no metrics and no logs of `id`. -/
structure Absent (id : Id) (st : Store) : Prop where
  agents : st.agents id = none
  series : st.series id = none
  logs : st.logs id = none

/-- `RemoveAgent(id)` has deleted; it has put `id` on the list or will. -/
def Removed (id : Id) (s : Sys) : Prop :=
  s.store.isTombstoned id = true ∨ ∃ t, s.tasks t = .rmTombstone id

def SparesRemoved (s : Sys) : Event → Prop
  | .run t _ => ∀ id, (s.tasks t).inserts id = true → ¬ Removed id s
  | _ => True

/-! ## What a step keeps away -/

variable {task : Task} {id : Id}

theorem Task.creates_eq_false (h : task.inserts id = false) : task.creates id = false := by
  unfold Task.inserts at h
  split at h
  · rfl
  · rfl
  · exact h

variable {srv : Identity}

theorem Task.Writes.absent {st : Store} {now : Time} {r : Option Agent}
    (h : task.Writes srv st now id r) (hnone : st.agents id = none)
    (htask : task.creates id = false) : r = none := by
  cases h with
  | keep => exact hnone
  | handshake req existing state hid | register reg hid | discoverNew d hid
  | discoverKnown d hid | load p rs hid => simp [Task.creates, hid] at htask
  | delete => rfl
  | _ => simp [hnone]

variable {e : Event} {s : Sys}

theorem Rewrites.absent {r : Option Agent} (h : Rewrites srv s id e r)
    (hnone : s.store.agents id = none)
    (hspare : ∀ t now, e = .run t now → (s.tasks t).creates id = false) : r = none := by
  cases h with
  | keep => exact hnone
  | prune now | decide approve now => simp [hnone]
  | run t now h => exact h.absent hnone (hspare t now rfl)

/-- A task that inserts nothing of a host leaves it without series and logs. -/
theorem Task.WritesBeside.absent {st st' : Store} (h : task.WritesBeside st st')
    (htask : task.inserts id = false) (hseries : st.series id = none) (hlogs : st.logs id = none) :
    st'.series id = none ∧ st'.logs id = none := by
  cases h with
  | same task hsame => exact ⟨hsame.series ▸ hseries, hsame.logs ▸ hlogs⟩
  | metrics key m now =>
    have hne : id ≠ key := by
      rintro rfl
      simp [Task.inserts] at htask
    exact ⟨(updateMetrics_series st hne m now).trans hseries,
      updateMetrics_logs st key m now ▸ hlogs⟩
  | log key e =>
    have hne : id ≠ key := by
      rintro rfl
      simp [Task.inserts] at htask
    exact ⟨hseries, (addLog_logs st hne e).trans hlogs⟩
  | delete key =>
    simp only [Store.removeRecords, update_apply]
    constructor <;> split <;> first | rfl | assumption
  | tombstone key => exact ⟨hseries, hlogs⟩

theorem Absent.after_step (h : Absent id s.store)
    (hspare : ∀ t now, e = .run t now → (s.tasks t).inserts id = false) :
    Absent id (step srv s e).store := by
  obtain ⟨hagents, hseries, hlogs⟩ := h
  have hrec := (step_rewrites srv s e id).absent hagents fun t now he =>
    Task.creates_eq_false (hspare t now he)
  obtain hsame | ⟨t, now, rfl, hbeside⟩ := (step_spec srv s e).beside
  · exact ⟨hrec, hsame.series ▸ hseries, hsame.logs ▸ hlogs⟩
  · obtain ⟨hseries, hlogs⟩ := hbeside.absent (hspare t now rfl) hseries hlogs
    exact ⟨hrec, hseries, hlogs⟩

/-! ## Removal -/

theorem tombstoned_before (h : (step srv s e).store.isTombstoned id = true) : Removed id s := by
  obtain hsame | ⟨t, now, rfl, hbeside⟩ := (step_spec srv s e).beside
  · exact .inl ((congrFun hsame.tombstones id).symm.trans h)
  · unfold Store.isTombstoned at h
    generalize htask : s.tasks t = task at hbeside
    generalize (step srv s (.run t now)).store = st' at h hbeside
    cases hbeside with
    | same task hsame => exact .inl ((congrFun hsame.tombstones id).symm.trans h)
    | metrics key m now => exact .inl ((congrFun (updateMetrics_tombstones ..) id).symm.trans h)
    | log key e | delete key => exact .inl h
    | tombstone key =>
      by_cases hkey : id = key
      · exact .inr ⟨t, hkey ▸ htask⟩
      · exact .inl ((update_of_ne hkey _ _).symm.trans h)

theorem tombstoning_before {t : Tid} (h : (step srv s e).tasks t = .rmTombstone id) :
    s.tasks t = .rmTombstone id ∨ ∃ now, e = .run t now ∧ s.tasks t = .rmDelete id := by
  have hgoes := step_goes srv s e t
  generalize (step srv s e).tasks t = task at h hgoes
  cases hgoes with
  | keep => exact .inl h
  | enter hidle hfresh =>
    subst h
    cases hfresh
  | move now hfollows =>
    subst h
    generalize s.tasks t = old at hfollows
    cases hfollows with
    | stay => exact .inl rfl
    | rmTombstone => exact .inr ⟨now, rfl, rfl⟩
  | _ => cases h

theorem absent_of_delete {t : Tid} {now : Time} (htask : s.tasks t = .rmDelete id)
    (hnext : (step srv s (.run t now)).tasks t = .rmTombstone id) :
    Absent id (step srv s (.run t now)).store := by
  obtain hblocked | htaken := step_run srv now htask rfl
  · rw [hblocked, htask] at hnext
    cases hnext
  · rw [htaken]
    exact ⟨update_self .., update_self .., update_self ..⟩

def RemovedAbsent (s : Sys) : Prop :=
  ∀ id, Removed id s → Absent id s.store

/-- One step that spares the removed hosts leaves nothing of them. -/
theorem RemovedAbsent.after_step (hs : RemovedAbsent s) (hspare : SparesRemoved s e) :
    RemovedAbsent (step srv s e) := by
  intro id h
  have hkept (hold : Removed id s) : Absent id (step srv s e).store := by
    refine (hs id hold).after_step ?_
    rintro t now rfl
    exact Bool.eq_false_iff.mpr fun hins => hspare id hins hold
  obtain hlisted | ⟨t, ht⟩ := h
  · exact hkept (tombstoned_before hlisted)
  · obtain hold | ⟨now, rfl, htask⟩ := tombstoning_before ht
    · exact hkept (.inr ⟨t, hold⟩)
    · exact absent_of_delete htask ht

/-- The store has nothing of a host on the list, in every run in which no section writes
anything of a host that is on the list or between the two sections of its removal. -/
theorem removed_hosts_stay_away (srv : Identity) (ids : List Id) (es : List Event)
    (hspare : Along (step srv) SparesRemoved (Sys.start (Store.new ids)) es) :
    Throughout (step srv) (fun s => ∀ id, s.store.isTombstoned id = true → Absent id s.store)
      (Sys.start (Store.new ids)) es := by
  have hstart : RemovedAbsent (Sys.start (Store.new ids)) := fun id _ => ⟨rfl, rfl, rfl⟩
  exact (throughout_of_invariant (fun s e hs => hs.after_step) hstart hspare).mono
    fun s hs id h => hs id (.inl h)

/-- A host asks to be uninstalled, and again once the administrator agreed. -/
theorem uninstalled_host_stays_away : let srv : Identity := { token := "", serverId := "console" }
    let ask (t : Tid) : Event := .accept t "10.0.0.5" (some (.uninstallReq "" { agentId := "h" }))
    let es : List Event := [ask 0, .run 0 1, .run 0 2, .decideUninstall "h" true "admin" 2000000,
      ask 1, .run 1 2000001, .run 1 2000002, .run 1 2000003]
    (exec (step srv) (Sys.start (Store.new [])) es).store.isTombstoned "h" = true ∧
      Throughout (step srv) (fun s => ∀ id, s.store.isTombstoned id = true → Absent id s.store)
        (Sys.start (Store.new [])) es := by
  refine ⟨by decide, removed_hosts_stay_away _ [] _ ?_⟩
  refine ⟨trivial, ?_, ?_, trivial, trivial, ?_, ?_, ?_, trivial⟩ <;> intro id hins <;> cases hins

/-- A registration that passed the check before the removal writes the record after it. -/
theorem removed_host_comes_back : let srv : Identity := { token := "", serverId := "console" }
    let es : List Event := [.load 0 [{ agentId := "h", approval := .approved }], .run 0 1, .run 0 2,
      .run 0 3, .accept 1 "10.0.0.5" (some (.register "" { agentId := "h" })), .run 1 4, .run 1 5,
      .delete 2 "h", .run 2 6, .run 2 7, .run 2 8, .run 1 9, .run 1 10]
    let s := exec (step srv) (Sys.start (Store.new [])) es
    (∀ t, (s.tasks t).atRest = true) ∧ s.store.isTombstoned "h" = true ∧
      (s.store.agents "h").isSome = true := by
  refine ⟨fun t => ?_, by decide, by decide⟩
  rcases t with _ | _ | _ | t
  · decide
  · decide
  · decide
  · rfl

end CtForge.Server
