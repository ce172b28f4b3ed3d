import CtForge.Server.Persist
import CtForge.Server.Records

/-!
# What a restart restores (`persist.go`)

`Save` writes a record for every host with an approval, `Load` puts the records back into
a new store and passes over the tombstones. The version of the system, the kernel and the
figures of the disk go together: `Load` takes them only from a record with a version.

The records of a store lie under their own ids (`Store.Keyed`), in every run of the
server (`run_keyed`).
-/

namespace CtForge.Server

open Runs List Option

/-! ## Saving and loading -/

namespace Store

def Keyed (st : Store) : Prop := ∀ id a, st.agents id = some a → a.agentId = id

/-- `ids` are the hosts of the store, in an order in which `range` may visit them. -/
structure Ranges (st : Store) (ids : List Id) : Prop where
  nodup : ids.Nodup
  mem_iff : ∀ id, id ∈ ids ↔ (st.agents id).isSome = true

/-- The list that `Save` marshals, where `range` visits the hosts in the order `ids`. -/
def saved (st : Store) (ids : List Id) : List PersistRecord := ids.filterMap st.persistRecords

/-- `Load` of a file with the records `rs`. -/
def load (st : Store) (rs : List PersistRecord) : Store :=
  rs.foldl (fun st r => if st.isTombstoned r.agentId then st else st.loadRecord r) st

/-- A new store with the tombstones of `st`. -/
def renewed (st : Store) : Store := { Store.new [] with tombstones := st.tombstones }

/-- `st'` has the records of `st` that have an approval and no tombstone, up to what a
record of the file holds, and no others. -/
structure Restores (st st' : Store) : Prop where
  same : ∀ id a, st.agents id = some a → a.approval ≠ .unset → st.isTombstoned id = false →
    ∃ b, st'.agents id = some b ∧ b.persistRecord = a.persistRecord
  only : ∀ id b, st'.agents id = some b →
    st.isTombstoned id = false ∧ ∃ a, st.agents id = some a ∧ a.approval ≠ .unset

end Store

def Agent.Restorable (a : Agent) : Prop :=
  a.osVersion ≠ "" ∨
    (a.kernel = "" ∧ a.diskTotalKB = 0 ∧ a.diskUsedKB = 0 ∧ a.diskPercent = 0)

namespace Store

variable {st : Store} {ids : List Id} {rs : List PersistRecord}

/-! ## The loop of `Load` -/

theorem load_cons (st : Store) (r : PersistRecord) (rs : List PersistRecord) :
    st.load (r :: rs) =
      (if st.isTombstoned r.agentId then st else st.loadRecord r).load rs := rfl

theorem loadNext_tombstones (st : Store) (r : PersistRecord) :
    (if st.isTombstoned r.agentId then st else st.loadRecord r).tombstones = st.tombstones := by
  split <;> rfl

variable {r : PersistRecord} {id : Id}

theorem loadNext_agents_of_ne (st : Store) (h : r.agentId ≠ id) :
    (if st.isTombstoned r.agentId then st else st.loadRecord r).agents id = st.agents id := by
  split
  · rfl
  · rw [loadRecord_agents, if_neg (Ne.symm h)]

theorem load_agents_of_not_mem (h : ∀ r ∈ rs, r.agentId ≠ id) :
    (st.load rs).agents id = st.agents id := by
  induction rs generalizing st with
  | nil => rfl
  | cons r rs ih =>
    rw [load_cons, ih fun r' hr' => h r' (mem_cons_of_mem r hr'),
      loadNext_agents_of_ne st (h r mem_cons_self)]

theorem load_agents_of_tombstone (h : st.isTombstoned id = true) :
    (st.load rs).agents id = st.agents id := by
  induction rs generalizing st with
  | nil => rfl
  | cons r rs ih =>
    have hnext : (if st.isTombstoned r.agentId then st else st.loadRecord r).isTombstoned id
        = true := by
      rw [isTombstoned, loadNext_tombstones]
      exact h
    rw [load_cons, ih hnext]
    by_cases hid : r.agentId = id
    · rw [hid, if_pos h]
    · exact loadNext_agents_of_ne st hid

/-- A saved record is restored into its host. -/
theorem load_agents_of_mem (hnodup : (rs.map PersistRecord.agentId).Nodup) (hr : r ∈ rs)
    (htomb : st.isTombstoned r.agentId = false) :
    (st.load rs).agents r.agentId = some (restored (st.agents r.agentId) r) := by
  induction rs generalizing st with
  | nil => cases hr
  | cons r' rs ih =>
    rw [map_cons, nodup_cons] at hnodup
    rw [load_cons]
    rcases mem_cons.mp hr with rfl | hr
    · have hrest : ∀ r' ∈ rs, r'.agentId ≠ r.agentId := by
        intro r' hr' heq
        exact hnodup.1 (heq ▸ mem_map_of_mem hr')
      rw [load_agents_of_not_mem hrest, htomb, if_neg Bool.false_ne_true, loadRecord_agents,
        if_pos rfl]
    · have hne : r'.agentId ≠ r.agentId := by
        intro heq
        exact hnodup.1 (heq ▸ mem_map_of_mem hr)
      have hnext : (if st.isTombstoned r'.agentId then st else st.loadRecord r').isTombstoned
          r.agentId = false := by
        rw [isTombstoned, loadNext_tombstones]
        exact htomb
      rw [ih hnodup.2 hr hnext, loadNext_agents_of_ne st hne]

/-! ## The list of `Save` -/

theorem persistRecords_eq_some :
    st.persistRecords id = some r ↔
      ∃ a, st.agents id = some a ∧ a.approval ≠ .unset ∧ a.persistRecord = r := by
  simp only [persistRecords, bind_eq_some_iff]
  constructor
  · rintro ⟨a, ha, hr⟩
    split at hr
    · cases hr
    · exact ⟨a, ha, ‹_›, some.inj hr⟩
  · rintro ⟨a, ha, happ, hr⟩
    exact ⟨a, ha, by rw [if_neg happ, hr]⟩

theorem Keyed.persistRecords_agentId (h : st.Keyed) (hr : st.persistRecords id = some r) :
    r.agentId = id := by
  obtain ⟨a, ha, -, rfl⟩ := persistRecords_eq_some.mp hr
  exact h id a ha

theorem Keyed.mem_saved (h : st.Keyed) (hids : st.Ranges ids) :
    r ∈ st.saved ids ↔ st.persistRecords r.agentId = some r := by
  rw [saved, mem_filterMap]
  constructor
  · rintro ⟨id, -, hr⟩
    rwa [h.persistRecords_agentId hr]
  · intro hr
    obtain ⟨a, ha, -⟩ := persistRecords_eq_some.mp hr
    exact ⟨r.agentId, (hids.mem_iff _).mpr (by rw [ha]; rfl), hr⟩

/-- No host is saved twice. -/
theorem Keyed.nodup_saved (h : st.Keyed) (hnodup : ids.Nodup) :
    ((st.saved ids).map PersistRecord.agentId).Nodup := by
  have hsub : ((st.saved ids).map PersistRecord.agentId).Sublist ids := by
    induction ids with
    | nil => exact .slnil
    | cons id ids ih =>
      have hrest := ih (nodup_cons.mp hnodup).2
      cases hr : st.persistRecords id with
      | none =>
        rw [saved, filterMap_cons_none hr]
        exact hrest.cons id
      | some r =>
        rw [saved, filterMap_cons_some hr, map_cons, h.persistRecords_agentId hr]
        exact hrest.cons_cons id
  exact hnodup.sublist hsub

/-! ## The round trip -/

theorem restored_persistRecord_iff (a : Agent) :
    (restored none a.persistRecord).persistRecord = a.persistRecord ↔ a.Restorable := by
  by_cases hos : a.osVersion = ""
  · simp [restored, Agent.persistRecord, Agent.Restorable, hos]
    exact fun _ => and_congr eq_comm (and_congr eq_comm eq_comm)
  · simp [restored, Agent.persistRecord, Agent.Restorable, hos]

variable (st ids)

/-- The record of a host after saving and loading. -/
theorem Keyed.reloaded (h : st.Keyed) (hids : st.Ranges ids) (id : Id) :
    (st.renewed.load (st.saved ids)).agents id =
      if st.isTombstoned id then none else (st.persistRecords id).map (restored none) := by
  by_cases htomb : st.isTombstoned id = true
  · rw [if_pos htomb]
    exact load_agents_of_tombstone htomb
  · rw [if_neg htomb]
    cases hr : st.persistRecords id with
    | some r =>
      obtain rfl := h.persistRecords_agentId hr
      have hmem : r ∈ st.saved ids := (h.mem_saved hids).mpr hr
      exact load_agents_of_mem (h.nodup_saved hids.nodup) hmem (Bool.eq_false_iff.mpr htomb)
    | none =>
      have hno : ∀ r ∈ st.saved ids, r.agentId ≠ id := by
        rintro r hmem rfl
        rw [(h.mem_saved hids).mp hmem] at hr
        cases hr
      exact load_agents_of_not_mem hno

/-- The store that is loaded has the same records as the one that was saved exactly if no host
has a kernel or figures of its disk without a version of its system. -/
theorem save_load_restores_iff (hkeyed : st.Keyed) (hids : st.Ranges ids) :
    st.Restores (st.renewed.load (st.saved ids)) ↔
      ∀ id a, st.agents id = some a → a.approval ≠ .unset → st.isTombstoned id = false →
        a.Restorable := by
  have hback : ∀ id a, st.agents id = some a → a.approval ≠ .unset →
      st.isTombstoned id = false →
      (st.renewed.load (st.saved ids)).agents id = some (restored none a.persistRecord) := by
    intro id a ha happ htomb
    rw [hkeyed.reloaded st ids hids, htomb, if_neg Bool.false_ne_true,
      persistRecords_eq_some.mpr ⟨a, ha, happ, rfl⟩]
    rfl
  constructor
  · intro hrestores id a ha happ htomb
    obtain ⟨b, hb, heq⟩ := hrestores.same id a ha happ htomb
    rw [hback id a ha happ htomb] at hb
    obtain rfl := some.inj hb
    exact (restored_persistRecord_iff a).mp heq
  · intro hall
    refine ⟨?_, ?_⟩
    · intro id a ha happ htomb
      exact ⟨_, hback id a ha happ htomb,
        (restored_persistRecord_iff a).mpr (hall id a ha happ htomb)⟩
    · intro id b hb
      rw [hkeyed.reloaded st ids hids] at hb
      split at hb
      · cases hb
      · rename_i htomb
        obtain ⟨r, hr, -⟩ := map_eq_some_iff.mp hb
        obtain ⟨a, ha, happ, -⟩ := persistRecords_eq_some.mp hr
        exact ⟨Bool.eq_false_iff.mpr htomb, a, ha, happ⟩

end Store

/-! ## Records lie under their ids -/

section Keyed

variable {srv : Identity} {st : Store} {now : Time} {id : Id}

theorem registered_agentId (old? : Option Agent) (a : Agent) :
    (Store.registered old? a now).agentId = a.agentId := by
  cases old? with
  | none => rfl
  | some old =>
    simp only [Store.registered, Store.keepStable]
    split <;> rfl

theorem restored_agentId {old? : Option Agent} {r : PersistRecord}
    (h : ∀ a, old? = some a → a.agentId = r.agentId) :
    (Store.restored old? r).agentId = r.agentId := by
  cases old? with
  | none =>
    simp only [Store.restored]
    split <;> rfl
  | some old =>
    simp only [Store.restored]
    split <;> exact h old rfl

theorem touch_agentId (m : Message) (a : Agent) : (m.touch now a).agentId = a.agentId := by
  cases m <;> simp only [Message.touch]
  split <;> rfl

theorem mem_map_agentId {r : Option Agent} {f : Agent → Agent} {b : Agent}
    (h : ∀ a, r = some a → a.agentId = id) (hb : r.map f = some b)
    (hf : ∀ a, (f a).agentId = a.agentId) : b.agentId = id := by
  obtain ⟨a, ha, rfl⟩ := map_eq_some_iff.mp hb
  rw [hf, h a ha]

/-- A task writes a record under its own id. -/
theorem Task.Writes.agentId {task : Task} {r : Option Agent}
    (hw : task.Writes srv st now id r) (h : ∀ a, st.agents id = some a → a.agentId = id)
    {b : Agent} (hb : r = some b) : b.agentId = id := by
  cases hw with
  | keep task => exact h b hb
  | handshake req existing state hid =>
    obtain rfl := some.inj hb
    rw [registered_agentId, handshakeAgent_agentId, hid]
  | pending | setOffline => exact mem_map_agentId h hb fun _ => rfl
  | register reg hid =>
    obtain rfl := some.inj hb
    rw [registered_agentId]
    exact hid
  | message m => exact mem_map_agentId h hb (touch_agentId m)
  | offlineEvent => exact mem_map_agentId h hb (touch_agentId .offline)
  | discoverNew d hid hnone =>
    obtain rfl := some.inj hb
    exact hid
  | @discoverKnown d hid old hsome hoff =>
    obtain rfl := some.inj hb
    exact h old hsome
  | delete => cases hb
  | load rec rs hid =>
    obtain rfl := some.inj hb
    rw [restored_agentId, hid]
    rw [hid]
    exact h

theorem step_keyed {s : Sys} (h : s.store.Keyed) (e : Event) : (step srv s e).store.Keyed := by
  intro id b hb
  have hrw := step_rewrites srv s e id
  rw [hb] at hrw
  generalize hr : some b = r at hrw
  cases hrw with
  | keep e => exact h id b hr.symm
  | prune now =>
    exact h id b (filter_eq_some_iff.mp hr.symm).1
  | decide approve now =>
    refine mem_map_agentId (h id) hr.symm fun a => ?_
    cases approve <;> rfl
  | run t now hw => exact hw.agentId (h id) hr.symm

/-- In every run of the server the records of the store lie under their own ids. -/
theorem run_keyed (srv : Identity) (ids : List Id) (es : List Event) :
    (exec (step srv) (Sys.start (Store.new ids)) es).store.Keyed := by
  have hstep : ∀ (s : Sys) (e : Event), s.store.Keyed → True → (step srv s e).store.Keyed :=
    fun s e hs _ => step_keyed hs e
  have hnew : (Store.new ids).Keyed := by simp [Store.Keyed, Store.new]
  exact exec_of_invariant hstep hnew (along_of_forall fun _ _ _ => trivial)

end Keyed

/-! ## One host -/

def Store.heard (d : DiscoverPayload) : Store := (Store.new []).discover (discoverAgent d) 0

theorem heard_agents (d : DiscoverPayload) (id : Id) :
    (Store.heard d).agents id = if id = d.agentId then
      some { discoverAgent d with discovered := true, lastSeen := 0, approval := .pending }
      else none := by
  exact Function.update_apply _ _ _ _

theorem heard_keyed (d : DiscoverPayload) : (Store.heard d).Keyed := by
  intro id a ha
  rw [heard_agents] at ha
  split at ha
  · rename_i hid
    obtain rfl := some.inj ha
    exact hid.symm
  · cases ha

theorem heard_ranges (d : DiscoverPayload) : (Store.heard d).Ranges [d.agentId] := by
  refine ⟨by simp, fun id => ?_⟩
  rw [heard_agents, mem_singleton]
  by_cases hid : id = d.agentId <;> simp [hid]

def beaconOf (osVersion : String) : DiscoverPayload where
  agentId := "h1"
  ip := "10.0.0.1"
  osVersion := osVersion
  kernel := "6.6.0"
  diskPercent := 12

theorem save_load_restores_known_system :
    (Store.heard (beaconOf "24.03")).Restores
      ((Store.heard (beaconOf "24.03")).renewed.load
        ((Store.heard (beaconOf "24.03")).saved ["h1"])) := by
  refine (Store.save_load_restores_iff _ ["h1"] (heard_keyed _) (heard_ranges _)).mpr ?_
  intro id a ha _ _
  rw [heard_agents] at ha
  split at ha
  · obtain rfl := some.inj ha
    exact .inl (by decide)
  · cases ha

/-- A beacon without a version is enough for a host to lose its kernel. -/
theorem beacon_loses_kernel :
    (exec (step ⟨"", "srv", "", "", 0⟩) (Sys.start (Store.new []))
      [.packet 0 "10.0.0.1" (beaconOf ""), .run 0 0, .run 0 0]).store = Store.heard (beaconOf "") ∧
    ¬ (Store.heard (beaconOf "")).Restores
      ((Store.heard (beaconOf "")).renewed.load ((Store.heard (beaconOf "")).saved ["h1"])) := by
  refine ⟨rfl, fun h => ?_⟩
  obtain ⟨b, hb, heq⟩ := h.same "h1" _ rfl (by decide) rfl
  have hkernel : (((Store.heard (beaconOf "")).renewed.load
      ((Store.heard (beaconOf "")).saved ["h1"])).agents "h1").map Agent.kernel = some "" := by
    decide
  rw [hb] at hkernel
  have hk : b.kernel = "6.6.0" := congrArg PersistRecord.kernel heq
  rw [map_some, hk] at hkernel
  exact absurd hkernel (by decide)

end CtForge.Server
