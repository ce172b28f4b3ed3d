import CtForge.Server.Removal

/-!
# Online hosts and the session table

The online flag of a record and the entry of the session table are written in
different sections: `Register` sets the flag before a connection takes the entry,
and the deferred cleanup gives the entry back before it clears the flag. Between
the two, other connections of the host may do the same, and a handshake sets the
flag without taking an entry at all.
-/

namespace CtForge.Server

open CtForge.Runs Function Option

/-! ## The two sides of the mirror -/

def Online (id : Id) (s : Sys) : Prop := ∃ a, s.store.agents id = some a ∧ a.online = true

instance (id : Id) (s : Sys) : Decidable (Online id s) :=
  inferInstanceAs (Decidable (∃ a ∈ s.store.agents id, a.online = true))

/-- A connection of `id` has the entry of the session table or is about to. -/
def Live (id : Id) (s : Sys) : Prop :=
  (s.sessions id).isSome = true ∨ ∃ t, s.tasks t = .regSession id

/-- A connection of `id` gave its entry back and has yet to clear the flag. -/
def Clearing (id : Id) (s : Sys) : Prop := ∃ t, s.tasks t = .endSetOnline id

def Task.transient : Task → Bool
  | .regApprovalOf _ | .regIsTombstoned _ | .regRegister _ | .regSession _ => true
  | .endSession _ | .endSetOnline _ | .endOffline _ => true
  | _ => false

def Task.setsOnline : Task → Option Id
  | .hsRegister req _ _ => some req.agentId
  | .dispatching id (.heartbeat _) | .dispatching id (.metrics _) => some id
  | _ => none

def Task.clearsOnline : Task → Option Id
  | .endSetOnline id | .endOffline id | .dispatching id .offline => some id
  | _ => none

def Task.removes : Task → Bool
  | .rmDelete _ | .rmTombstone _ => true
  | _ => false

/-- The step is none of a removal; it sets the flag of a host only while the host
has a session, unless it is the registration itself, and clears it only while the
host has none. -/
def Orderly (s : Sys) : Event → Prop
  | .run t _ => (s.tasks t).removes = false ∧
      (∀ id, (s.tasks t).setsOnline = some id → Live id s) ∧
      ∀ id, (s.tasks t).clearsOnline = some id → ¬ Live id s
  | _ => True

/-! ## The flag, step by step -/

variable {now : Time} {task : Task} {srv : Identity} {st : Store} {id : Id}

/-- A record that a task leaves online was so before, or the task set it. -/
theorem Task.Writes.online_before {a : Agent} (h : task.Writes srv st now id (some a))
    (hon : a.online = true) :
    (∃ old, st.agents id = some old ∧ old.online = true) ∨ task.setsOnline = some id ∨
      ∃ reg, task = .regRegister reg ∧ reg.agentId = id := by
  have hmap {f : Agent → Agent} (hr : some a = (st.agents id).map f)
      (hf : ∀ old, (f old).online = true → old.online = true) :
      ∃ old, st.agents id = some old ∧ old.online = true := by
    obtain ⟨old, hold, rfl⟩ := map_eq_some_iff.mp hr.symm
    exact ⟨old, hold, hf old hon⟩
  generalize hr : some a = r at h
  cases h with
  | keep => exact .inl ⟨a, hr.symm, hon⟩
  | handshake req existing state hid => exact .inr (.inl (by simp [Task.setsOnline, hid]))
  | pending => exact .inl (hmap hr fun _ h => h)
  | register reg hid => exact .inr (.inr ⟨reg, rfl, hid⟩)
  | message m =>
    cases m with
    | heartbeat hb | metrics m => exact .inr (.inl (by simp [Task.setsOnline]))
    | offline => exact .inl (hmap hr fun _ h => by cases h)
    | _ => exact .inl (hmap hr fun old h => by simpa [Message.flag] using h)
  | setOffline | offlineEvent => exact .inl (hmap hr fun _ h => by cases h)
  | discoverNew d hid hnone =>
    obtain rfl := some.inj hr
    cases hon
  | discoverKnown d hid hsome hoff =>
    obtain rfl := some.inj hr
    exact .inl ⟨_, hsome, hon⟩
  | delete => cases hr
  | load p rs hid =>
    obtain rfl := some.inj hr
    cases hrec : st.agents id with
    | none =>
      rw [hrec, Store.restored_none_online] at hon
      cases hon
    | some old =>
      rw [hrec, Store.restored_some_online] at hon
      exact .inl ⟨old, rfl, hon⟩

theorem Task.Writes.online_after {r : Option Agent} (h : task.Writes srv st now id r)
    {old : Agent} (hold : st.agents id = some old) (hon : old.online = true)
    (hclear : task.clearsOnline ≠ some id) (hrem : task.removes = false) :
    ∃ a, r = some a ∧ a.online = true := by
  cases h with
  | keep => exact ⟨old, hold, hon⟩
  | message m =>
    refine ⟨m.touch now old, by rw [hold]; rfl, ?_⟩
    rw [Message.touch_online, hon]
    cases m <;> first | rfl | simp [Task.clearsOnline] at hclear
  | setOffline | offlineEvent => simp [Task.clearsOnline] at hclear
  | discoverNew d hid hnone =>
    rw [hold] at hnone
    cases hnone
  | discoverKnown d hid hsome hoff =>
    obtain rfl := some.inj (hold.symm.trans hsome)
    rw [hon] at hoff
    cases hoff
  | delete => cases hrem
  | load p rs hid => exact ⟨_, rfl, by rw [hold, Store.restored_some_online, hon]⟩
  | pending => exact ⟨{ old with approval := .pending }, by rw [hold]; rfl, hon⟩
  | _ => exact ⟨_, rfl, rfl⟩

/-- A section leaves no record that is online and marked as discovered, if it found
none and brings only unmarked hosts online. -/
theorem Task.Writes.unmarked {a : Agent} (h : task.Writes srv st now id (some a))
    (hon : a.online = true) (hold : ∀ old, st.agents id = some old →
      old.online = true ∨ task.setsOnline = some id → old.discovered = false) :
    a.discovered = false := by
  generalize hr : some a = r at h
  cases h with
  | keep => exact hold a hr.symm (.inl hon)
  | handshake req existing state hid | register reg hid =>
    obtain rfl := some.inj hr
    rfl
  | pending =>
    obtain ⟨old, hsome, rfl⟩ := map_eq_some_iff.mp hr.symm
    exact hold old hsome (.inl hon)
  | message m =>
    obtain ⟨old, hsome, rfl⟩ := map_eq_some_iff.mp hr.symm
    rw [Message.touch_online] at hon
    rw [Message.touch_discovered]
    refine hold old hsome ?_
    cases m with
    | heartbeat hb | metrics m => exact .inr (by simp [Task.setsOnline])
    | offline => cases hon
    | _ => exact .inl hon
  | setOffline | offlineEvent =>
    obtain ⟨old, -, rfl⟩ := map_eq_some_iff.mp hr.symm
    cases hon
  | discoverNew d hid hnone =>
    obtain rfl := some.inj hr
    cases hon
  | discoverKnown d hid hsome hoff =>
    obtain rfl := some.inj hr
    rw [Store.refresh_online, hoff] at hon
    cases hon
  | delete => cases hr
  | load p rs hid =>
    obtain rfl := some.inj hr
    cases hrec : st.agents id with
    | none =>
      rw [hrec, Store.restored_none_online] at hon
      cases hon
    | some old =>
      rw [hrec, Store.restored_some_online] at hon
      rw [Store.restored_some_discovered]
      exact hold old hrec (.inl hon)

def MarkedOffline (s : Sys) : Prop :=
  ∀ id a, s.store.agents id = some a → a.online = true → a.discovered = false

variable {e : Event} {s : Sys}

theorem online_after (hs : MarkedOffline s) (hon : Online id s) (horderly : Orderly s e)
    (hclear : ∀ t now, e = .run t now → (s.tasks t).clearsOnline ≠ some id) :
    Online id (step srv s e) := by
  obtain ⟨old, hold, honline⟩ := hon
  have hrec := step_rewrites srv s e id
  unfold Online
  generalize (step srv s e).store.agents id = r at hrec
  cases hrec with
  | keep => exact ⟨old, hold, honline⟩
  | prune now => exact ⟨old, by simp [hold, Store.stale, hs id old hold honline], honline⟩
  | decide approve now => exact ⟨decided srv approve now old, by simp [hold], by simp [honline]⟩
  | run t now h => exact h.online_after hold honline (hclear t now rfl) horderly.1

/-- A host that is online after a step was so before, or the step set it. -/
theorem online_before (hon : Online id (step srv s e)) :
    Online id s ∨ (∃ t now, e = .run t now ∧ (s.tasks t).setsOnline = some id) ∨
      ∃ t, (step srv s e).tasks t = .regSession id := by
  by_cases hold : Online id s
  · exact .inl hold
  obtain ⟨a, ha, honline⟩ := hon
  have hrec := step_rewrites srv s e id
  rw [ha] at hrec
  generalize hr : some a = r at hrec
  cases hrec with
  | keep => exact absurd ⟨a, hr.symm, honline⟩ hold
  | prune now => exact absurd ⟨a, (filter_eq_some_iff.mp hr.symm).1, honline⟩ hold
  | decide approve now =>
    obtain ⟨old, hsome, rfl⟩ := map_eq_some_iff.mp hr.symm
    exact absurd ⟨old, hsome, by simpa using honline⟩ hold
  | run t now h =>
    subst hr
    obtain hon | hset | ⟨reg, htask, hid⟩ := h.online_before honline
    · exact absurd hon hold
    · exact .inr (.inl ⟨t, now, rfl, hset⟩)
    · refine .inr (.inr ⟨t, ?_⟩)
      -- the record changed, so the registration was not waiting for the lock
      obtain hblocked | htaken := step_run srv now htask rfl
      · rw [hblocked] at ha
        exact absurd ⟨a, ha, honline⟩ hold
      · simp [htaken, goto_tasks, Task.move, hid]

/-! ## The session table, step by step -/

theorem session_before (h : ((step srv s e).sessions id).isSome = true) : Live id s := by
  obtain heq | ⟨t, key, htask, heq⟩ | ⟨t, key, -, -, heq⟩ := (step_spec srv s e).sessions
  · exact .inl (heq ▸ h)
  · rw [heq, update_apply] at h
    split at h
    · rename_i hid
      exact .inr ⟨t, hid ▸ htask⟩
    · exact .inl h
  · rw [heq, update_apply] at h
    split at h
    · cases h
    · exact .inl h

theorem session_after (h : (s.sessions id).isSome = true) :
    ((step srv s e).sessions id).isSome = true ∨ Clearing id (step srv s e) := by
  obtain heq | ⟨t, key, htask, heq⟩ | ⟨t, key, -, hnext, heq⟩ := (step_spec srv s e).sessions
  · exact .inl (heq ▸ h)
  · rw [heq, update_apply]
    split
    · exact .inl rfl
    · exact .inl h
  · by_cases hid : id = key
    · exact .inr ⟨t, hid ▸ hnext⟩
    · rw [heq, update_of_ne hid]
      exact .inl h

theorem online_of_register {t : Tid} {reg : RegisterPayload} (htask : s.tasks t = .regRegister reg)
    (hnext : (step srv s (.run t now)).tasks t = .regSession id) :
    Online reg.agentId (step srv s (.run t now)) := by
  obtain hblocked | htaken := step_run srv now htask rfl
  · rw [hblocked, htask] at hnext
    cases hnext
  · rw [htaken]
    exact ⟨_, (Store.register_agents ..).trans (if_pos rfl), rfl⟩

theorem regSession_before {t : Tid} (h : (step srv s e).tasks t = .regSession id) :
    s.tasks t = .regSession id ∨ Online id (step srv s e) ∨
      ∃ reg, s.tasks t = .regIsTombstoned reg ∧ s.store.isTombstoned reg.agentId = true := by
  have hgoes := step_goes srv s e t
  generalize htask : (step srv s e).tasks t = task at h hgoes
  cases hgoes with
  | keep => exact .inl h
  | enter hidle hfresh =>
    subst h
    cases hfresh
  | move now hfollows =>
    generalize hold : s.tasks t = old at hfollows
    cases hfollows with
    | stay => exact .inl h
    | regSkipped hlisted => exact .inr (.inr ⟨_, rfl, hlisted⟩)
    | regSession reg =>
      obtain rfl : reg.agentId = id := by simpa using h
      exact .inr (.inl (online_of_register hold htask))
    | _ => cases h
  | _ => cases h

theorem regSession_after {t : Tid} (h : s.tasks t = .regSession id) : Live id (step srv s e) := by
  by_cases he : ∃ now, e = .run t now
  · obtain ⟨now, rfl⟩ := he
    simp only [step, advance, h]
    exact .inl (by simp [Sys.goto, Sys.enterSession])
  · exact .inr ⟨t, (step_tasks_of_ne (by simp [h]) (by simp [h]) (by simpa using he)).trans h⟩

theorem clearing_after (h : Clearing id s) (hon : Online id (step srv s e)) :
    Clearing id (step srv s e) := by
  obtain ⟨t, ht⟩ := h
  by_cases he : ∃ now, e = .run t now
  · obtain ⟨now, rfl⟩ := he
    obtain hblocked | htaken := step_run srv now ht rfl
    · rw [hblocked]
      exact ⟨t, ht⟩
    · rw [htaken] at hon
      obtain ⟨a, ha, honline⟩ := hon
      simp only [Task.move, Store.setOnline, Store.withAgent_agents, if_true] at ha
      obtain ⟨old, -, rfl⟩ := map_eq_some_iff.mp ha
      cases honline
  · exact ⟨t, (step_tasks_of_ne (by simp [ht]) (by simp [ht]) (by simpa using he)).trans ht⟩

/-! ## The tombstone list without removals -/

theorem tombstones_step (h : Orderly s e) :
    (step srv s e).store.tombstones = s.store.tombstones := by
  obtain hsame | ⟨t, now, rfl, hbeside⟩ := (step_spec srv s e).beside
  · exact hsame.tombstones
  · have hrem : (s.tasks t).removes = false := h.1
    generalize s.tasks t = task at hrem hbeside
    generalize (step srv s (.run t now)).store = st' at hbeside
    cases hbeside with
    | same task hsame => exact hsame.tombstones
    | metrics key m now => exact updateMetrics_tombstones ..
    | log key e | delete key => rfl
    | tombstone key => cases hrem

/-- The task found that `id` is not on the tombstone list, or that it is approved. -/
def Task.pastCheck (id : Id) : Task → Bool
  | .regIsTombstoned reg => reg.agentId == id
  | task => task.creates id

structure Unlisted (s : Sys) : Prop where
  agents : ∀ id, s.store.isTombstoned id = true → s.store.agents id = none
  tasks : ∀ t id, (s.tasks t).pastCheck id = true → s.store.isTombstoned id = false

theorem Task.pastCheck_of_creates (h : task.creates id = true) : task.pastCheck id = true := by
  cases task <;> first | exact h | cases h

theorem fresh_pastCheck (h : task.fresh = true) : task.pastCheck id = false := by
  cases task <;> first | rfl | cases h

theorem Unlisted.approved (hs : Unlisted s) (happ : s.store.approvalOf id = .approved) :
    s.store.isTombstoned id = false := by
  refine Bool.eq_false_iff.mpr fun hlisted => ?_
  rw [Store.approvalOf, hs.agents id hlisted] at happ
  cases happ

theorem Unlisted.follows (hs : Unlisted s) {task next : Task}
    (hold : ∀ id, task.pastCheck id = true → s.store.isTombstoned id = false)
    (h : task.Follows s.store next) (hnext : next.pastCheck id = true) :
    s.store.isTombstoned id = false := by
  have hkey {key : Id} (hfree : s.store.isTombstoned key = false) (hid : (key == id) = true) :
      s.store.isTombstoned id = false := beq_iff_eq.mp hid ▸ hfree
  cases h with
  | stay => exact hold id hnext
  | hsRegister existing state hfree | regRegister hfree | discStore hfree
  | loadStore rs hfree => exact hkey hfree hnext
  | regIsTombstoned happ => exact hkey (hs.approved happ) hnext
  | _ => cases hnext

/-- One orderly step leaves no record of a removed host, and no task of one past the check. -/
theorem Unlisted.after_step (hs : Unlisted s) (h : Orderly s e) : Unlisted (step srv s e) := by
  have hlist (id : Id) : (step srv s e).store.isTombstoned id = s.store.isTombstoned id :=
    congrFun (tombstones_step h) id
  constructor
  · intro id hlisted
    rw [hlist] at hlisted
    refine (step_rewrites srv s e id).absent (hs.agents id hlisted) fun t now _ => ?_
    refine Bool.eq_false_iff.mpr fun hcreates => ?_
    rw [hs.tasks t id (Task.pastCheck_of_creates hcreates)] at hlisted
    cases hlisted
  · intro t id hpast
    rw [hlist]
    have hgoes := step_goes srv s e t
    generalize (step srv s e).tasks t = task at hpast hgoes
    cases hgoes with
    | keep => exact hs.tasks t id hpast
    | enter hidle hfresh =>
      rw [fresh_pastCheck hfresh] at hpast
      cases hpast
    | move now hfollows => exact hs.follows (hs.tasks t) hfollows hpast
    | _ => cases hpast

/-! ## The mirror -/

structure Mirror (s : Sys) : Prop where
  online : ∀ id, Live id s → Online id s
  backed : ∀ id, Online id s → Live id s ∨ Clearing id s
  marked : MarkedOffline s
  unlisted : Unlisted s

theorem Mirror.start (ids : List Id) : Mirror (Sys.start (Store.new ids)) where
  online := by simp [Live, Sys.start]
  backed := by simp [Online, Sys.start, Store.new]
  marked := by simp [MarkedOffline, Sys.start, Store.new]
  unlisted := ⟨fun _ _ => rfl, by simp [Sys.start, Task.pastCheck, Task.creates]⟩

theorem Mirror.stays_online (hs : Mirror s) (horderly : Orderly s e) (hlive : Live id s) :
    Online id (step srv s e) := by
  refine online_after hs.marked (hs.online id hlive) horderly ?_
  rintro t now rfl
  exact fun hclear => horderly.2.2 id hclear hlive

theorem Mirror.online_step (hs : Mirror s) (horderly : Orderly s e) (id : Id)
    (hlive : Live id (step srv s e)) : Online id (step srv s e) := by
  obtain hsession | ⟨t, ht⟩ := hlive
  · exact hs.stays_online horderly (session_before hsession)
  · obtain hold | hon | ⟨reg, htask, hlisted⟩ := regSession_before ht
    · exact hs.stays_online horderly (.inr ⟨t, hold⟩)
    · exact hon
    · rw [hs.unlisted.tasks t reg.agentId (by simp [htask, Task.pastCheck])] at hlisted
      cases hlisted

theorem Mirror.backed_step (hs : Mirror s) (horderly : Orderly s e) (id : Id)
    (hon : Online id (step srv s e)) : Live id (step srv s e) ∨ Clearing id (step srv s e) := by
  have hlive (h : Live id s) : Live id (step srv s e) ∨ Clearing id (step srv s e) := by
    obtain hsession | ⟨t, ht⟩ := h
    · exact (session_after hsession).imp_left .inl
    · exact .inl (regSession_after ht)
  obtain hold | ⟨t, now, rfl, hset⟩ | hreg := online_before hon
  · obtain h | h := hs.backed id hold
    · exact hlive h
    · exact .inr (clearing_after h hon)
  · exact hlive (horderly.2.1 id hset)
  · exact .inl (.inr hreg)

theorem Mirror.marked_step (hs : Mirror s) (horderly : Orderly s e) :
    MarkedOffline (step srv s e) := by
  intro id a ha hon
  have hrec := step_rewrites srv s e id
  rw [ha] at hrec
  generalize hr : some a = r at hrec
  cases hrec with
  | keep => exact hs.marked id a hr.symm hon
  | prune now => exact hs.marked id a (filter_eq_some_iff.mp hr.symm).1 hon
  | decide approve now =>
    obtain ⟨old, hold, rfl⟩ := map_eq_some_iff.mp hr.symm
    simpa using hs.marked id old hold (by simpa using hon)
  | run t now h =>
    subst hr
    refine h.unmarked hon fun old hold hflag => hs.marked id old hold ?_
    obtain honline | hset := hflag
    · exact honline
    · obtain ⟨b, hb, hbon⟩ := hs.online id (horderly.2.1 id hset)
      obtain rfl := some.inj (hb.symm.trans hold)
      exact hbon

theorem Mirror.after_step (hs : Mirror s) (horderly : Orderly s e) : Mirror (step srv s e) where
  online := hs.online_step horderly
  backed := hs.backed_step horderly
  marked := hs.marked_step horderly
  unlisted := hs.unlisted.after_step horderly

/-- Between registrations and cleanups a host is online if and only if it has an entry, in every
run without removals in which a handshake, a heartbeat or a metrics report of a host is stored
only while the host has a session, and a cleanup or an offline notice only while it has none. -/
theorem online_mirrors_sessions (srv : Identity) (ids : List Id) (es : List Event)
    (horderly : Along (step srv) Orderly (Sys.start (Store.new ids)) es) :
    Throughout (step srv)
      (fun s => (∀ t, (s.tasks t).transient = false) →
        ∀ id, Online id s ↔ (s.sessions id).isSome = true)
      (Sys.start (Store.new ids)) es := by
  refine (throughout_of_invariant (fun s e hs => hs.after_step) (Mirror.start ids) horderly).mono ?_
  intro s hs hcalm id
  have hnone {t : Tid} {task : Task} (ht : s.tasks t = task) (htask : task.transient = true) :
      False := by
    rw [← ht, hcalm t] at htask
    cases htask
  constructor
  · intro hon
    obtain (hsession | ⟨t, ht⟩) | ⟨t, ht⟩ := hs.backed id hon
    · exact hsession
    · exact (hnone ht rfl).elim
    · exact (hnone ht rfl).elim
  · exact fun hsession => hs.online id (.inl hsession)

/-- An approved host registers and reports once. -/
theorem online_mirrors_one_session : let srv : Identity := { token := "", serverId := "console" }
    let es : List Event := [.load 0 [{ agentId := "h", approval := .approved }], .run 0 1, .run 0 2,
      .run 0 3, .accept 1 "10.0.0.5" (some (.register "" { agentId := "h" })), .run 1 4, .run 1 5,
      .run 1 6, .run 1 7, .receive 1 (.heartbeat ⟨5, 5, 0, 0, 0⟩), .run 1 8]
    Throughout (step srv)
      (fun s => (∀ t, (s.tasks t).transient = false) →
        ∀ id, Online id s ↔ (s.sessions id).isSome = true)
      (Sys.start (Store.new [])) es := by
  refine online_mirrors_sessions _ [] _ ?_
  have silent {s : Sys} {t : Tid} {now : Time} (h : (s.tasks t).removes = false ∧
      (s.tasks t).setsOnline = none ∧ (s.tasks t).clearsOnline = none) :
      Orderly s (.run t now) := by
    simp [Orderly, h]
  have report {s : Sys} {t : Tid} {now : Time} (h : (s.tasks t).removes = false ∧
      (s.tasks t).setsOnline = some "h" ∧ (s.sessions "h").isSome = true ∧
      (s.tasks t).clearsOnline = none) : Orderly s (.run t now) := by
    simp [Orderly, Live, h]
  exact ⟨trivial, silent (by decide), silent (by decide), silent (by decide),
    trivial, silent (by decide), silent (by decide), silent (by decide),
    silent (by decide), trivial, report (by decide), trivial⟩

/-- One handshake of an approved host shows it online, without a session. -/
theorem handshake_shows_host_online : let srv : Identity := { token := "", serverId := "console" }
    let es : List Event := [.load 0 [{ agentId := "h", approval := .approved }], .run 0 1, .run 0 2,
      .run 0 3, .accept 1 "10.0.0.5" (some (.handshakeReq "" { agentId := "h" })), .run 1 4,
      .run 1 5, .run 1 6, .run 1 7]
    let s := exec (step srv) (Sys.start (Store.new [])) es
    (∀ t, (s.tasks t).transient = false) ∧ Online "h" s ∧ s.sessions "h" = none := by
  refine ⟨fun t => ?_, by decide, by decide⟩
  rcases t with _ | _ | t
  · decide
  · decide
  · rfl

end CtForge.Server
