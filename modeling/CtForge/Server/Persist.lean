import CtForge.Lib.Runs
import CtForge.Server.Store

/-!
# The approvals file (`persist.go`)

Every change of the store that is to survive a restart is followed by `SaveAsync`, which
starts a goroutine. It takes a snapshot under the lock of the store and writes it under
the lock of the persister; between the two it holds neither. Any number of savers can be
under way, in any order.
-/

namespace CtForge.Server

open Runs Function Option

/-! ## Snapshots and savers -/

abbrev Records := Id → Option PersistRecord

def Agent.persistRecord (a : Agent) : PersistRecord where
  agentId := a.agentId
  approval := a.approval
  remark := a.remark
  boundServerId := a.boundServerId
  approvedAt := a.approvedAt
  offlineCount := a.offlineCount
  osVersion := a.osVersion
  kernel := a.kernel
  diskTotalKB := a.diskTotalKB
  diskUsedKB := a.diskUsedKB
  diskPercent := a.diskPercent

/-- What `Save` collects; a host without an approval is passed over. -/
def Store.persistRecords (s : Store) : Records := fun id =>
  (s.agents id).bind fun a => if a.approval = .unset then none else some a.persistRecord

/-- A goroutine of `SaveAsync`; `age` counts the changes that its snapshot saw. -/
inductive Saver where
  | idle
  | started
  | holding (records : Records) (age : Nat)
  | finished

def Saver.waiting : Saver → Option Nat
  | .holding _ age => some age
  | _ => none

def Saver.isDone : Saver → Bool
  | .idle | .finished => true
  | _ => false

/-- The store, the file and the savers. `changes` counts the changes of the store,
`fileAge` those that the snapshot in the file saw, and `pending` says that the last of
them has not been followed by `SaveAsync` yet. -/
structure Persistence where
  store : Store
  changes : Nat := 0
  pending : Bool := false
  file : Option Records
  fileAge : Nat := 0
  savers : Nat → Saver := fun _ => .idle
  count : Nat := 0

inductive PersistEvent where
  | change (store : Store)
  | saveAsync
  | snapshot (i : Nat)
  | write (i : Nat)

namespace Persistence

def step (s : Persistence) : PersistEvent → Persistence
  | .change store => { s with store := store, changes := s.changes + 1, pending := true }
  | .saveAsync =>
    { s with
      savers := Function.update s.savers s.count .started
      count := s.count + 1
      pending := false }
  | .snapshot i =>
    match s.savers i with
    | .started =>
      { s with
        savers := Function.update s.savers i (.holding s.store.persistRecords s.changes) }
    | _ => s
  | .write i =>
    match s.savers i with
    | .holding records age =>
      { s with
        file := some records
        fileAge := age
        savers := Function.update s.savers i .finished }
    | _ => s

def start (store : Store) (file : Option Records) : Persistence where
  store := store
  file := file

/-! ## What is to hold -/

/-- Once all savers that were started have finished, and no change is without one, the
file has the records of the store. -/
def Saved (s : Persistence) : Prop :=
  0 < s.count → s.pending = false → (∀ i, (s.savers i).isDone = true) →
    s.file = some s.store.persistRecords

def KeepsNewer (s : Persistence) : PersistEvent → Prop
  | .write i => ∀ age ∈ (s.savers i).waiting, s.fileAge ≤ age
  | _ => True

instance (s : Persistence) : (e : PersistEvent) → Decidable (s.KeepsNewer e)
  | .change _ | .saveAsync | .snapshot _ => inferInstanceAs (Decidable True)
  | .write i => inferInstanceAs (Decidable (∀ age ∈ (s.savers i).waiting, s.fileAge ≤ age))

/-- A saver writes only while none with an older snapshot has yet to write. -/
def InOrder (s : Persistence) : PersistEvent → Prop
  | .write i => ∀ j < s.count, ∀ age ∈ (s.savers i).waiting, ∀ other ∈ (s.savers j).waiting,
      age ≤ other
  | _ => True

instance (s : Persistence) : (e : PersistEvent) → Decidable (s.InOrder e)
  | .change _ | .saveAsync | .snapshot _ => inferInstanceAs (Decidable True)
  | .write i => inferInstanceAs (Decidable (∀ j < s.count, ∀ age ∈ (s.savers i).waiting,
      ∀ other ∈ (s.savers j).waiting, age ≤ other))

/-! ## The invariant -/

/-- A saver that is under way will bring the file up to date, or it is. -/
inductive Covered (s : Persistence) : Prop
  | started (i : Nat) (h : s.savers i = .started)
  | waiting (i : Nat) (records : Records) (h : s.savers i = .holding records s.changes)
  | written (hage : s.fileAge = s.changes) (hfile : s.file = some s.store.persistRecords)

structure Consistent (s : Persistence) : Prop where
  unused : ∀ i, s.count ≤ i → s.savers i = .idle
  fileAge_le : s.fileAge ≤ s.changes
  age_le : ∀ i records age, s.savers i = .holding records age → age ≤ s.changes
  newer : ∀ i records age, s.savers i = .holding records age → s.fileAge ≤ age
  current : ∀ i records, s.savers i = .holding records s.changes →
    records = s.store.persistRecords
  covered : 0 < s.count → s.pending = false → s.Covered

theorem consistent_start (store : Store) (file : Option Records) :
    (start store file).Consistent where
  unused _ _ := rfl
  fileAge_le := Nat.le_refl 0
  age_le _ _ _ h := by cases h
  newer _ _ _ h := by cases h
  current _ _ h := by cases h
  covered h _ := absurd h (Nat.lt_irrefl 0)

variable {s : Persistence}

theorem Consistent.change (h : s.Consistent) (store : Store) :
    (s.step (.change store)).Consistent where
  unused := h.unused
  fileAge_le := Nat.le_succ_of_le h.fileAge_le
  age_le i records age hi := Nat.le_succ_of_le (h.age_le i records age hi)
  newer := h.newer
  current i records hi := absurd (h.age_le i records _ hi) (Nat.not_succ_le_self s.changes)
  covered _ hpending := by cases hpending

theorem holding_update {savers : Nat → Saver} {i j : Nat} {next : Saver} {records : Records}
    {age : Nat} (hnext : next.waiting = none)
    (h : Function.update savers i next j = .holding records age) :
    savers j = .holding records age := by
  rw [update_apply] at h
  split at h
  · subst h
    cases hnext
  · exact h

theorem Consistent.saveAsync (h : s.Consistent) : (s.step .saveAsync).Consistent where
  unused i hi := by
    have hcount : s.count + 1 ≤ i := hi
    exact (update_of_ne (by omega) _ _).trans (h.unused i (by omega))
  fileAge_le := h.fileAge_le
  age_le i records age hi := h.age_le i records age (holding_update rfl hi)
  newer i records age hi := h.newer i records age (holding_update rfl hi)
  current i records hi := h.current i records (holding_update rfl hi)
  covered _ _ := .started s.count (update_self ..)

/-- A snapshot is as new as the store. -/
theorem Consistent.snapshot (h : s.Consistent) {i : Nat} (hi : s.savers i = .started) :
    (s.step (.snapshot i)).Consistent := by
  have hstep : s.step (.snapshot i) = { s with
      savers := Function.update s.savers i (.holding s.store.persistRecords s.changes) } := by
    simp [step, hi]
  rw [hstep]
  -- a waiting snapshot is the new one or was there before
  have hholding : ∀ {j records age}, Function.update s.savers i
      (.holding s.store.persistRecords s.changes) j = .holding records age →
        (s.store.persistRecords = records ∧ s.changes = age) ∨
          s.savers j = .holding records age := by
    intro j records age hj
    rw [update_apply] at hj
    split at hj
    · exact .inl (Saver.holding.inj hj)
    · exact .inr hj
  refine ⟨?_, h.fileAge_le, ?_, ?_, ?_, ?_⟩
  · intro j hj
    have hne : j ≠ i := by
      rintro rfl
      rw [h.unused j hj] at hi
      cases hi
    exact (update_of_ne hne _ _).trans (h.unused j hj)
  · intro j records age hj
    rcases hholding hj with ⟨-, rfl⟩ | hj
    · exact Nat.le_refl _
    · exact h.age_le j records age hj
  · intro j records age hj
    rcases hholding hj with ⟨-, rfl⟩ | hj
    · exact h.fileAge_le
    · exact h.newer j records age hj
  · intro j records hj
    rcases hholding hj with ⟨rfl, -⟩ | hj
    · rfl
    · exact h.current j records hj
  · exact fun _ _ => .waiting i s.store.persistRecords (update_self ..)

/-- A write in order keeps the file that of the newest snapshot written. -/
theorem Consistent.write (h : s.Consistent) {i : Nat} {records : Records} {age : Nat}
    (hi : s.savers i = .holding records age) (horder : s.InOrder (.write i)) :
    (s.step (.write i)).Consistent := by
  have hstep : s.step (.write i) = { s with
      file := some records
      fileAge := age
      savers := Function.update s.savers i .finished } := by
    simp [step, hi]
  have hcount : ∀ {j : Nat} {r : Records} {a : Nat}, s.savers j = .holding r a → j < s.count := by
    intro j r a hj
    by_contra hlt
    rw [h.unused j (by omega)] at hj
    cases hj
  rw [hstep]
  refine ⟨?_, h.age_le i records age hi, ?_, ?_, ?_, ?_⟩
  · intro j hj
    have hne : j ≠ i := by
      rintro rfl
      exact absurd (hcount hi) (Nat.not_lt.mpr hj)
    exact (update_of_ne hne _ _).trans (h.unused j hj)
  · exact fun j r a hj => h.age_le j r a (holding_update rfl hj)
  · intro j r a hj
    have hj := holding_update rfl hj
    refine horder j (hcount hj) age ?_ a ?_
    · rw [hi]
      rfl
    · rw [hj]
      rfl
  · exact fun j r hj => h.current j r (holding_update rfl hj)
  · intro hpos hpending
    -- a snapshot that saw every change makes the file current
    have hlast : age = s.changes → some records = some s.store.persistRecords := by
      rintro rfl
      rw [h.current i records hi]
    cases h.covered hpos hpending with
    | started j hj =>
      refine .started j ((update_of_ne ?_ _ _).trans hj)
      rintro rfl
      rw [hi] at hj
      cases hj
    | waiting j r hj =>
      by_cases hji : j = i
      · subst hji
        rw [hi] at hj
        have hage := (Saver.holding.inj hj).2
        exact .written hage (hlast hage)
      · exact .waiting j r ((update_of_ne hji _ _).trans hj)
    | written hage _ =>
      have hle := h.newer i records age hi
      have hge := h.age_le i records age hi
      have hage' : age = s.changes := by omega
      exact .written hage' (hlast hage')

theorem Consistent.step (h : s.Consistent) {e : PersistEvent} (horder : s.InOrder e) :
    (s.step e).Consistent := by
  cases e with
  | change store => exact h.change store
  | saveAsync => exact h.saveAsync
  | snapshot i =>
    cases hi : s.savers i with
    | started => exact h.snapshot hi
    | _ =>
      have hstep : s.step (.snapshot i) = s := by simp [Persistence.step, hi]
      rw [hstep]
      exact h
  | write i =>
    cases hi : s.savers i with
    | holding records age => exact h.write hi horder
    | _ =>
      have hstep : s.step (.write i) = s := by simp [Persistence.step, hi]
      rw [hstep]
      exact h

theorem Consistent.saved (h : s.Consistent) : s.Saved := by
  intro hpos hpending hdone
  cases h.covered hpos hpending with
  | started i hi => exact absurd (hdone i) (by rw [hi]; decide)
  | waiting i records hi => exact absurd (hdone i) (by rw [hi]; exact Bool.false_ne_true)
  | written _ hfile => exact hfile

theorem Consistent.keepsNewer (h : s.Consistent) (e : PersistEvent) : s.KeepsNewer e := by
  cases e with
  | write i =>
    intro age hage
    cases hi : s.savers i with
    | holding records a =>
      rw [hi] at hage
      obtain rfl := some.inj hage
      exact h.newer i records a hi
    | _ =>
      rw [hi] at hage
      cases hage
  | _ => trivial

/-- If no saver writes while one with an older snapshot has yet to write, the file is that of
the store whenever all savers are done, and no snapshot replaces a newer one. -/
theorem saves_in_order_keep_file_current (store : Store) (file : Option Records)
    (es : List PersistEvent) (h : Along step InOrder (start store file) es) :
    Throughout step Saved (start store file) es ∧
      Along step KeepsNewer (start store file) es := by
  have hstep : ∀ s e, Consistent s → InOrder s e → Consistent (s.step e) :=
    fun _ _ hs horder => hs.step horder
  have hstart := consistent_start store file
  refine ⟨(throughout_of_invariant hstep hstart h).mono fun _ hs => hs.saved, ?_⟩
  exact along_of_invariant hstep (fun _ e hs _ => hs.keepsNewer e) hstart h

def pendingHost : Store := (Store.new []).putAgent "h1" { agentId := "h1", approval := .pending }

def approvedHost : Store := pendingHost.setApproval "h1" .approved "srv" 0

theorem two_saves_in_order :
    let es : List PersistEvent := [.change pendingHost, .saveAsync, .snapshot 0,
      .change approvedHost, .saveAsync, .snapshot 1, .write 0, .write 1]
    Throughout step Saved (start (Store.new []) none) es ∧
      Along step KeepsNewer (start (Store.new []) none) es :=
  saves_in_order_keep_file_current (Store.new []) none _ (by decide)

/-- Two savers that write in the other order. -/
theorem old_snapshot_written_last :
    let es : List PersistEvent := [.change pendingHost, .saveAsync, .snapshot 0,
      .change approvedHost, .saveAsync, .snapshot 1, .write 1, .write 0]
    let s := exec step (start (Store.new []) none) es
    s.file.map (fun records => (records "h1").map PersistRecord.approval) =
        some (some .pending) ∧
      (s.store.persistRecords "h1").map PersistRecord.approval = some .approved ∧
      ¬ s.Saved ∧ ¬ Along step KeepsNewer (start (Store.new []) none) es := by
  intro es s
  have hfile : s.file.map (fun records => (records "h1").map PersistRecord.approval) =
      some (some .pending) := by decide
  have hstore : (s.store.persistRecords "h1").map PersistRecord.approval = some .approved := by
    decide
  refine ⟨hfile, hstore, fun hsaved => ?_, by decide⟩
  have hdone : ∀ i, (s.savers i).isDone = true := by
    intro i
    rcases i with _ | _ | i
    · rfl
    · rfl
    · rfl
  rw [hsaved (by decide) rfl hdone, map_some, hstore] at hfile
  cases hfile

end Persistence

end CtForge.Server
