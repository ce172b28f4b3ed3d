import CtForge.Server.System

/-!
# The session table and the connection that registered last

A connection registers when it takes the entry of its host, in the section of `Handle`
that closes the connection it replaces; it gives the entry back in the first section of
its deferred cleanup, if it still has it. `Table` is the server with what the table
does not hold: which connection of each host registered last, and which connections
were replaced while they were served.
-/

namespace CtForge.Server

open CtForge.Runs Function

/-! ## Registrations -/

/-- The goroutine serves a connection of `id` and has not given its entry back. -/
def Task.connected (id : Id) : Task → Bool
  | .serving key | .dispatching key _ | .endSession key => key == id
  | _ => false

def registering (s : Sys) : Event → Option (Tid × Id)
  | .run t _ =>
    match s.tasks t with
    | .regSession id => some (t, id)
    | _ => none
  | _ => none

structure Table where
  sys : Sys
  newest : Id → Option Tid
  replaced : Tid → Bool

namespace Table

def start (st : Store) : Table where
  sys := Sys.start st
  newest := fun _ => none
  replaced := fun _ => false

def step (srv : Identity) (s : Table) (e : Event) : Table :=
  match registering s.sys e with
  | some (t, id) =>
    { sys := Server.step srv s.sys e
      newest := Function.update s.newest id (some t)
      replaced := fun u => s.replaced u || (s.sys.tasks u).connected id }
  | none => { s with sys := Server.step srv s.sys e }

structure Current (s : Table) : Prop where
  entry_newest : ∀ id t, s.sys.sessions id = some t → s.newest id = some t
  newest_entry : ∀ id t, s.newest id = some t → (s.sys.tasks t).connected id = true →
    s.sys.sessions id = some t
  replaced_closed : ∀ t, s.replaced t = true → s.sys.closed t = true

def CleanupSpares (srv : Identity) (s : Table) (e : Event) : Prop :=
  ∀ t now id, e = .run t now → s.sys.tasks t = .endSession id →
    ∀ key u, s.sys.sessions key = some u → u ≠ t →
      (s.step srv e).sys.sessions key = some u

end Table

/-! ## What a step does to connections -/

theorem Task.move_connected (srv : Identity) (st : Store) (now : Time) (task : Task) (id : Id) :
    (task.move srv st now).next.connected id = task.connected id := by
  have hfollows := Task.move_follows srv st now task
  cases task with
  | serving key | dispatching key m | endSession key => rfl
  | _ =>
    generalize (Task.move srv st now _).next = next at hfollows
    cases hfollows <;> rfl

structure Quiet (s s' : Sys) : Prop where
  sessions : s'.sessions = s.sessions
  closed : s'.closed = s.closed
  connected : ∀ u id, (s'.tasks u).connected id = (s.tasks u).connected id

theorem Quiet.refl (s : Sys) : Quiet s s := ⟨rfl, rfl, fun _ _ => rfl⟩

theorem connected_goto {s : Sys} {t : Tid} {task : Task} (replies : List Reply)
    (h : ∀ id, task.connected id = (s.tasks t).connected id) (u : Tid) (id : Id) :
    ((s.goto t task replies).tasks u).connected id = (s.tasks u).connected id := by
  rw [goto_tasks]
  split
  · rename_i hu
    rw [hu, h]
  · rfl

theorem Task.fresh_not_connected {task : Task} (h : task.fresh = true) (id : Id) :
    task.connected id = false := by
  cases task <;> first | rfl | cases h

theorem Step.quiet {srv : Identity} {s s' : Sys} {e : Event} (h : Step srv s e s')
    (henter : ∀ t now id, e = .run t now → s.tasks t ≠ .regSession id)
    (hleave : ∀ t now id, e = .run t now → s.tasks t ≠ .endSession id) : Quiet s s' := by
  cases h with
  | stay => exact .refl s
  | enter replies hidle hfresh =>
    refine ⟨rfl, rfl, connected_goto replies fun id => ?_⟩
    rw [hidle, Task.fresh_not_connected hfresh]
    rfl
  | receive m htask hopen | hangup htask | unlock now htask =>
    exact ⟨rfl, rfl, connected_goto [] fun id => by rw [htask]; rfl⟩
  | lock rs hidle hfree => exact ⟨rfl, rfl, connected_goto [] fun id => by rw [hidle]; rfl⟩
  | enterSession now htask => exact absurd htask (henter _ now _ rfl)
  | leaveSession now htask => exact absurd htask (hleave _ now _ rfl)
  | move t now =>
    have hnext := Task.move_connected srv s.store now (s.tasks t)
    exact ⟨rfl, rfl, connected_goto ((s.tasks t).move srv s.store now).replies hnext⟩
  | _ => exact ⟨rfl, rfl, fun _ _ => rfl⟩

theorem enterSession_closed (s : Sys) (t u : Tid) (id : Id) :
    (s.enterSession t id).closed u = true ↔ s.closed u = true ∨ s.sessions id = some u := by
  cases hentry : s.sessions id with
  | none => simp [Sys.enterSession, Sys.closeConn, hentry]
  | some old =>
    simp only [Sys.enterSession, Sys.closeConn, hentry, update_apply, Option.some.injEq]
    split
    · rename_i hu
      exact iff_of_true rfl (.inr hu.symm)
    · rename_i hu
      exact (or_iff_left fun heq => hu heq.symm).symm

theorem leaveSession_sessions (s : Sys) (t u : Tid) (id key : Id) :
    (s.leaveSession t id).sessions key = some u ↔
      s.sessions key = some u ∧ ¬ (key = id ∧ u = t) := by
  unfold Sys.leaveSession
  split
  · rename_i hown
    simp only [update_apply]
    split
    · rename_i hkey
      subst hkey
      simp only [hown, Option.some.injEq, reduceCtorEq, false_iff]
      rintro ⟨rfl, hother⟩
      exact hother ⟨trivial, rfl⟩
    · rename_i hkey
      simp [hkey]
  · rename_i hown
    constructor
    · intro hentry
      refine ⟨hentry, ?_⟩
      rintro ⟨rfl, rfl⟩
      exact hown hentry
    · exact And.left

theorem leaveSession_closed (s : Sys) (t : Tid) (id : Id) :
    (s.leaveSession t id).closed = s.closed := by
  unfold Sys.leaveSession
  split <;> rfl

namespace Table

/-- The connection `t` of `id` registers. -/
def registered (s : Table) (t : Tid) (id : Id) : Table where
  sys := (s.sys.enterSession t id).goto t (.serving id) [.ack true "registered"]
  newest := Function.update s.newest id (some t)
  replaced := fun u => s.replaced u || (s.sys.tasks u).connected id

/-- The connection `t` of `id` gives its entry back. -/
def cleaned (s : Table) (t : Tid) (id : Id) : Table :=
  { s with sys := (s.sys.leaveSession t id).goto t (.endSetOnline id) [] }

inductive Step (s : Table) : Event → Table → Prop
  | register {t : Tid} {id : Id} (now : Time) (htask : s.sys.tasks t = .regSession id) :
      Step s (.run t now) (s.registered t id)
  | cleanup {t : Tid} {id : Id} (now : Time) (htask : s.sys.tasks t = .endSession id) :
      Step s (.run t now) (s.cleaned t id)
  | quiet {e : Event} {sys : Sys} (h : Quiet s.sys sys)
      (hleave : ∀ t now id, e = .run t now → s.sys.tasks t ≠ .endSession id) :
      Step s e { s with sys := sys }

/-- What one step does to the session table. -/
theorem step_spec (srv : Identity) (s : Table) (e : Event) : Step s e (s.step srv e) := by
  have hquiet : registering s.sys e = none →
      (∀ t now id, e = .run t now → s.sys.tasks t ≠ .regSession id) →
      (∀ t now id, e = .run t now → s.sys.tasks t ≠ .endSession id) →
      Step s e (s.step srv e) := by
    intro hnone henter hleave
    simp only [step, hnone]
    exact .quiet ((Server.step_spec srv s.sys e).quiet henter hleave) hleave
  cases e with
  | run t now =>
    cases htask : s.sys.tasks t with
    | regSession id =>
      simp only [step, registering, htask, Server.step, advance]
      exact .register now htask
    | endSession id =>
      simp only [step, registering, htask, Server.step, advance]
      exact .cleanup now htask
    | _ =>
      refine hquiet (by simp only [registering, htask]) ?_ ?_
      all_goals
        intro u when id he
        cases he
        simp [htask]
  | _ => exact hquiet rfl (by simp) (by simp)

/-! ## Every run -/

/-- What holds besides: the connection in an entry is served, and a connection that is
served and did not register last was closed. -/
structure Inv (s : Table) : Prop extends Current s where
  entry_connected : ∀ id t, s.sys.sessions id = some t → (s.sys.tasks t).connected id = true
  older_closed : ∀ id t, (s.sys.tasks t).connected id = true → s.newest id = some t ∨
    s.sys.closed t = true

theorem start_inv (st : Store) : (start st).Inv where
  entry_newest := by simp [start, Sys.start]
  newest_entry := by simp [start]
  replaced_closed := by simp [start]
  entry_connected := by simp [start, Sys.start]
  older_closed := by simp [start, Sys.start, Task.connected]

variable {s : Table}

/-- A step that touches neither the table nor its tasks keeps the invariant. -/
theorem Inv.quiet (hi : s.Inv) {sys : Sys} (h : Quiet s.sys sys) : Inv { s with sys := sys } where
  entry_newest := by
    intro id t hentry
    exact hi.entry_newest id t (h.sessions ▸ hentry)
  newest_entry := by
    intro id t hnewest hconn
    rw [h.connected] at hconn
    exact h.sessions ▸ hi.newest_entry id t hnewest hconn
  replaced_closed := by
    intro t hrep
    exact h.closed ▸ hi.replaced_closed t hrep
  entry_connected := by
    intro id t hentry
    rw [h.connected]
    exact hi.entry_connected id t (h.sessions ▸ hentry)
  older_closed := by
    intro id t hconn
    rw [h.connected] at hconn
    exact h.closed ▸ hi.older_closed id t hconn

/-- The connection that a registration replaces is closed: it is the newest and has the
entry, or was closed before. -/
theorem Inv.closed_of_connected (hi : s.Inv) {u : Tid} {id : Id}
    (hconn : (s.sys.tasks u).connected id = true) (t : Tid) :
    (s.sys.enterSession t id).closed u = true := by
  rw [enterSession_closed]
  obtain hnewest | hclosed := hi.older_closed id u hconn
  · exact .inr (hi.newest_entry id u hnewest hconn)
  · exact .inl hclosed

section Updates

variable (s : Table) (t u : Tid) (id key : Id)

theorem registered_sessions : (s.registered t id).sys.sessions key =
    if key = id then some t else s.sys.sessions key :=
  update_apply ..

theorem registered_newest : (s.registered t id).newest key =
    if key = id then some t else s.newest key :=
  update_apply ..

theorem registered_connected : ((s.registered t id).sys.tasks u).connected key = true ↔
    u = t ∧ key = id ∨ u ≠ t ∧ (s.sys.tasks u).connected key = true := by
  rw [registered, goto_tasks, Sys.enterSession, closeConn_tasks]
  split
  · rename_i hu
    rw [Task.connected, beq_iff_eq, eq_comm]
    simp [hu]
  · rename_i hu
    simp [hu]

theorem cleaned_sessions : (s.cleaned t id).sys.sessions key = some u ↔
    s.sys.sessions key = some u ∧ ¬ (key = id ∧ u = t) :=
  leaveSession_sessions ..

theorem cleaned_closed : (s.cleaned t id).sys.closed = s.sys.closed := leaveSession_closed ..

theorem cleaned_connected : ((s.cleaned t id).sys.tasks u).connected key = true ↔
    u ≠ t ∧ (s.sys.tasks u).connected key = true := by
  rw [cleaned, goto_tasks, leaveSession_tasks]
  split
  · rename_i hu
    simp [hu, Task.connected]
  · rename_i hu
    simp [hu]

end Updates

/-- A registration takes the entry of the host, and closes the connection it replaces. -/
theorem Inv.register (hi : s.Inv) {t : Tid} {id : Id}
    (htask : s.sys.tasks t = .regSession id) : (s.registered t id).Inv := by
  have hclosed : ∀ u, s.sys.closed u = true → (s.registered t id).sys.closed u = true :=
    fun u h => (enterSession_closed s.sys t u id).mpr (.inl h)
  constructor
  · constructor
    · intro key u hentry
      rw [registered_sessions] at hentry
      rw [registered_newest]
      split at hentry
      · rw [if_pos ‹_›, hentry]
      · rw [if_neg ‹_›, hi.entry_newest key u hentry]
    · intro key u hnewest hconn
      rw [registered_newest] at hnewest
      rw [registered_sessions]
      split at hnewest
      · rw [if_pos ‹_›, hnewest]
      · rename_i hkey
        obtain ⟨-, rfl⟩ | ⟨-, hconn⟩ := (registered_connected ..).mp hconn
        · exact absurd rfl hkey
        · rw [if_neg hkey]
          exact hi.newest_entry key u hnewest hconn
    · intro u hrep
      obtain hrep | hconn := Bool.or_eq_true_iff.mp hrep
      · exact hclosed u (hi.replaced_closed u hrep)
      · exact hi.closed_of_connected hconn t
  · intro key u hentry
    rw [registered_sessions] at hentry
    rw [registered_connected]
    split at hentry
    · exact .inl ⟨(Option.some.inj hentry).symm, ‹_›⟩
    · have hconn := hi.entry_connected key u hentry
      refine .inr ⟨?_, hconn⟩
      rintro rfl
      rw [htask] at hconn
      cases hconn
  · intro key u hconn
    obtain ⟨rfl, rfl⟩ | ⟨hu, hconn⟩ := (registered_connected ..).mp hconn
    · exact .inl (by rw [registered_newest, if_pos rfl])
    · by_cases hkey : key = id
      · exact .inr (hi.closed_of_connected (hkey ▸ hconn) t)
      · rw [registered_newest, if_neg hkey]
        exact (hi.older_closed key u hconn).imp_right (hclosed u)

/-- A cleanup gives back the entry only if it still has it. -/
theorem Inv.cleanup (hi : s.Inv) {t : Tid} {id : Id}
    (htask : s.sys.tasks t = .endSession id) : (s.cleaned t id).Inv := by
  constructor
  · constructor
    · intro key u hentry
      exact hi.entry_newest key u ((cleaned_sessions ..).mp hentry).1
    · intro key u hnewest hconn
      obtain ⟨hu, hconn⟩ := (cleaned_connected ..).mp hconn
      exact (cleaned_sessions ..).mpr ⟨hi.newest_entry key u hnewest hconn, fun h => hu h.2⟩
    · intro u hrep
      rw [cleaned_closed]
      exact hi.replaced_closed u hrep
  · intro key u hentry
    obtain ⟨hentry, hother⟩ := (cleaned_sessions ..).mp hentry
    have hconn := hi.entry_connected key u hentry
    refine (cleaned_connected ..).mpr ⟨?_, hconn⟩
    rintro rfl
    rw [htask] at hconn
    exact hother ⟨(beq_iff_eq.mp hconn).symm, rfl⟩
  · intro key u hconn
    rw [cleaned_closed]
    exact hi.older_closed key u ((cleaned_connected ..).mp hconn).2

theorem Inv.step (srv : Identity) (hi : s.Inv) (e : Event) : (s.step srv e).Inv := by
  have hstep := step_spec srv s e
  generalize s.step srv e = s' at hstep
  cases hstep with
  | register now htask => exact hi.register htask
  | cleanup now htask => exact hi.cleanup htask
  | quiet h hleave => exact hi.quiet h

theorem cleanup_spares (srv : Identity) (s : Table) (e : Event) : s.CleanupSpares srv e := by
  intro t now id he htask key u hentry hu
  have hstep := step_spec srv s e
  generalize s.step srv e = s' at hstep
  cases hstep with
  | register when htask' =>
    cases he
    rw [htask] at htask'
    cases htask'
  | @cleanup t' id' when htask' =>
    cases he
    exact (cleaned_sessions ..).mpr ⟨hentry, fun h => hu h.2⟩
  | quiet h hleave => exact absurd htask (hleave t now id he)

/-- In every run, the entry of a host is the connection that registered last, it is there until
that connection begins its cleanup, every replaced connection was closed, and no cleanup touches
the entry of another connection. -/
theorem sessions_hold_newest (srv : Identity) (st : Store) (es : List Event) :
    Throughout (step srv) Current (start st) es ∧
    Along (step srv) (CleanupSpares srv) (start st) es := by
  have hstep : ∀ (s : Table) (e : Event), s.Inv → True → (s.step srv e).Inv :=
    fun s e hi _ => hi.step srv e
  have hrun : Along (step srv) (fun _ _ => True) (start st) es := along_of_forall (by simp)
  constructor
  · exact (throughout_of_invariant hstep (start_inv st) hrun).mono fun s hi => hi.toCurrent
  · exact along_of_forall fun e _ s => cleanup_spares srv s e

end Table

end CtForge.Server
