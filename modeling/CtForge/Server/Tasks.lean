import CtForge.Lib.Runs
import CtForge.Server.Accounts
import Mathlib.Data.List.Forall2

/-!
# Scheduled tasks (`tasks.go`)

A task runs when a tick finds its `NextRunAt` passed, and the tick moves that time on: to
the next minute that matches the cron expression, which `NextRun` looks for within 366 days.
If there is none the time stays. The file is written by `Create`, `Update` and `Delete`, but
not by a tick, and a restart reads it back.

Times are in milliseconds and minutes are counted from the epoch; which fields a minute has
in the time zone of the server is left open (`Calendar`). A tick is one step for every task.
-/

namespace CtForge.Server

open Runs List Function Option

/-! ## Cron expressions -/

/-- `strconv.Atoi`. -/
def goAtoi (s : List Char) : Option Int :=
  let digits := if s.head? = some '-' ∨ s.head? = some '+' then s.tail else s
  if digits.isEmpty || !digits.all Char.isDigit then none
  else
    let n : Int := Nat.ofDigitChars 10 digits 0
    let n := if s.head? = some '-' then -n else n
    if -9223372036854775808 ≤ n ∧ n ≤ 9223372036854775807 then some n else none

/-- The text before the first `c` and the text behind it. -/
def cutAt (c : Char) (s : List Char) : Option (List Char × List Char) :=
  match s.dropWhile (· != c) with
  | [] => none
  | _ :: rest => some (s.takeWhile (· != c), rest)

/-- The loop `for i := lo; i <= hi; i += step`; none if it takes more rounds. -/
def cronLoop (hi step : Int) : (rounds : Nat) → (i : Int) → Option (List Int)
  | 0, _ => none
  | rounds + 1, i =>
    if i ≤ hi then (cronLoop hi step rounds ((i + step).bmod 18446744073709551616)).map (i :: ·)
    else some []

def parseRange (base : List Char) (min max : Int) : Option (Int × Int) :=
  if base = ['*'] ∨ base = [] then some (min, max)
  else
    match cutAt '-' base with
    | some (a, b) => do return (← goAtoi a, ← goAtoi b)
    | none => (goAtoi base).map fun v => (v, v)

/-- An item of a field, past the check of its range. -/
structure CronItem where
  lo : Int
  hi : Int
  step : Int

def parseStep (part : List Char) : Option (List Char × Int) :=
  match cutAt '/' part with
  | some (base, s) => (goAtoi s).bind fun step => if step ≤ 0 then none else some (base, step)
  | none => some (part, 1)

def parseItem (min max : Int) (part : List Char) : Option CronItem :=
  (parseStep part).bind fun (base, step) => (parseRange base min max).bind fun (lo, hi) =>
    if lo < min ∨ hi > max ∨ lo > hi then none else some ⟨lo, hi, step⟩

/-- `parseField`, where each loop ends within the rounds. -/
def parseField (rounds : Nat) (s : List Char) (min max : Int) : Option (List Int) :=
  ((s.splitOn ',').mapM fun part =>
    (parseItem min max part).bind fun it => cronLoop it.hi it.step rounds it.lo).map List.flatten

structure Cron where
  minute : List Int
  hour : List Int
  day : List Int
  month : List Int
  week : List Int

/-- `ParseCron`. No range has more than 60 numbers, so its loops end within 128 rounds, those
that wrap around included. -/
def parseCron (expr : String) : Option Cron :=
  match fieldsOf expr.toList with
  | [minute, hour, day, month, week] => do
    return {
      minute := ← parseField 128 minute 0 59
      hour := ← parseField 128 hour 0 23
      day := ← parseField 128 day 1 31
      month := ← parseField 128 month 1 12
      week := ← parseField 128 week 0 6 }
  | _ => none

/-- The fields of a minute that `NextRun` compares. -/
structure Civil where
  minute : Int
  hour : Int
  day : Int
  month : Int
  weekday : Int

/-- The fields of every minute since the epoch in some time zone. -/
abbrev Calendar := Int → Civil

/-- The proleptic Gregorian calendar; a year begins with March here. -/
def utc : Calendar := fun m =>
  let days := m / 1440
  let z := days + 719468
  let doe := z % 146097
  let yoe := (doe - doe / 1460 + doe / 36524 - doe / 146096) / 365
  let doy := doe - (365 * yoe + yoe / 4 - yoe / 100)
  let mp := (5 * doy + 2) / 153
  { minute := m % 60
    hour := m / 60 % 24
    day := doy - (153 * mp + 2) / 5 + 1
    month := if mp < 10 then mp + 3 else mp - 9
    weekday := (days + 4) % 7 }

def Cron.matches (c : Cron) (f : Civil) : Bool :=
  c.minute.contains f.minute && c.hour.contains f.hour && c.day.contains f.day &&
    c.month.contains f.month && c.week.contains f.weekday

section

variable (cal : Calendar)

/-- The loop of `NextRun`. -/
def searchRun (c : Cron) : (steps : Nat) → (minute : Int) → Option Int
  | 0, _ => none
  | steps + 1, t => if c.matches (cal t) then some t else searchRun c steps (t + 1)

/-- `NextRun`: a minute. -/
def nextRun (expr : String) (now : Time) : Option Int :=
  (parseCron expr).bind fun c => searchRun cal c (366 * 24 * 60) (now / 60000 + 1)

def CronMatches (expr : String) (minute : Int) : Prop :=
  ∃ c, parseCron expr = some c ∧ c.matches (cal minute) = true

theorem searchRun_spec {c : Cron} {steps : Nat} {t m : Int}
    (h : searchRun cal c steps t = some m) : t ≤ m ∧ c.matches (cal m) = true := by
  induction steps generalizing t with
  | zero => cases h
  | succ steps ih =>
    rw [searchRun] at h
    split at h
    · obtain rfl := some.inj h
      exact ⟨Int.le_refl t, ‹_›⟩
    · obtain ⟨hle, hmatch⟩ := ih h
      exact ⟨by omega, hmatch⟩

theorem nextRun_spec {expr : String} {now : Time} {m : Int} (h : nextRun cal expr now = some m) :
    now < 60000 * m ∧ CronMatches cal expr m := by
  obtain ⟨c, hc, hm⟩ := bind_eq_some_iff.mp h
  obtain ⟨hle, hmatch⟩ := searchRun_spec cal hm
  have hlt : ∀ n k : Int, n / 60000 + 1 ≤ k → n < 60000 * k := by
    intro n k h
    omega
  exact ⟨hlt now m hle, c, hc, hmatch⟩

/-! ## The manager -/

end

structure ScheduledTask where
  id : String := ""
  name : String := ""
  enabled : Bool
  cron : String
  command : String
  timeoutSec : Int := 0
  agents : List String := []
  createdAt : Time := 0
  nextRunAt : Time := 0

/-- The fields that `Update` takes from a request. -/
structure TaskPatch where
  name : String := ""
  enabled : Bool
  cron : String := ""
  command : String := ""
  timeoutSec : Int := 0
  agents : Option (List String) := none

structure TaskRun where
  task : ScheduledTask
  time : Time

/-- The tasks in memory and in the file, and the runs so far, the last one first. -/
structure Scheduler where
  now : Time
  tasks : String → Option ScheduledTask := fun _ => none
  file : String → Option ScheduledTask := fun _ => none
  runs : List TaskRun := []

/-- What happens; `saved` says whether the file could be written. -/
inductive TaskEvent where
  | advance (ms : Nat)
  | create (t : ScheduledTask) (fresh : String) (saved : Bool)
  | update (id : String) (patch : TaskPatch) (saved : Bool)
  | delete (id : String) (saved : Bool)
  | tick (id : String)
  | restart

namespace Scheduler

/-- Memory after a change, and the file if `save` wrote it. -/
def store (s : Scheduler) (tasks : String → Option ScheduledTask) (saved : Bool) : Scheduler :=
  { s with tasks := tasks, file := if saved then tasks else s.file }

variable (cal : Calendar)

def create (s : Scheduler) (t : ScheduledTask) (fresh : String) (saved : Bool) : Scheduler :=
  if t.cron = "" ∨ t.command = "" ∨ (parseCron t.cron).isNone then s
  else
    let t := { t with
      id := if t.id = "" then fresh else t.id
      timeoutSec := if t.timeoutSec ≤ 0 then 60 else t.timeoutSec
      createdAt := s.now
      nextRunAt := ((nextRun cal t.cron s.now).map (60000 * ·)).getD t.nextRunAt }
    s.store (Function.update s.tasks t.id (some t)) saved

/-- The part of `Update` behind the check of the expression. -/
def applyPatch (now : Time) (old : ScheduledTask) (patch : TaskPatch) : ScheduledTask :=
  { old with
    cron := if patch.cron = "" then old.cron else patch.cron
    nextRunAt := if patch.cron = "" then old.nextRunAt
      else ((nextRun cal patch.cron now).map (60000 * ·)).getD old.nextRunAt
    command := if patch.command = "" then old.command else patch.command
    timeoutSec := if patch.timeoutSec > 0 then patch.timeoutSec else old.timeoutSec
    agents := patch.agents.getD old.agents }

/-- `Update`. The name and the switch are changed even if the expression is refused. -/
def update (s : Scheduler) (id : String) (patch : TaskPatch) (saved : Bool) : Scheduler :=
  match s.tasks id with
  | none => s
  | some old =>
    let old := { old with
      name := if patch.name = "" then old.name else patch.name
      enabled := patch.enabled }
    if patch.cron ≠ "" ∧ (parseCron patch.cron).isNone then
      { s with tasks := Function.update s.tasks id (some old) }
    else s.store (Function.update s.tasks id (some (applyPatch cal s.now old patch))) saved

end Scheduler

def ScheduledTask.due (t : ScheduledTask) (now : Time) : Bool :=
  t.enabled && decide (0 < t.nextRunAt) && decide (t.nextRunAt ≤ now)

namespace Scheduler

variable (cal : Calendar)

/-- What `tick` does with one task. -/
def tick (s : Scheduler) (id : String) : Scheduler :=
  match s.tasks id with
  | none => s
  | some t =>
    if t.due s.now then
      { s with
        runs := ⟨t, s.now⟩ :: s.runs
        tasks := match nextRun cal t.cron s.now with
          | some m => Function.update s.tasks id (some { t with nextRunAt := 60000 * m })
          | none => s.tasks }
    else s

def step (s : Scheduler) : TaskEvent → Scheduler
  | .advance ms => { s with now := s.now + ms }
  | .create t fresh saved => s.create cal t fresh saved
  | .update id patch saved => s.update cal id patch saved
  | .delete id saved => s.store (Function.update s.tasks id none) saved
  | .tick id => s.tick cal id
  | .restart => { s with tasks := s.file }

end Scheduler

/-! ## Charging runs to minutes -/

/-- A minute that a run can be charged to: it matches the expression in force, begins after
the creation of the task and not after the tick. -/
def TaskRun.Charged (cal : Calendar) (r : TaskRun) (minute : Int) : Prop :=
  CronMatches cal r.task.cron minute ∧ r.task.createdAt < 60000 * minute ∧
    60000 * minute ≤ r.time

/-- Every run has a minute, and no two runs of a task have the same. -/
def Chargeable (cal : Calendar) (runs : List TaskRun) : Prop :=
  ∃ minutes, List.Forall₂ (TaskRun.Charged cal) runs minutes ∧
    ((runs.map fun r => r.task.id).zip minutes).Nodup

/-- A task in order: a time that is set is a matching minute after its creation. -/
structure ScheduledTask.Planned (cal : Calendar) (now : Time) (t : ScheduledTask) : Prop where
  created : t.createdAt ≤ now
  next : 0 < t.nextRunAt →
    ∃ m, t.nextRunAt = 60000 * m ∧ CronMatches cal t.cron m ∧ t.createdAt < t.nextRunAt

theorem ScheduledTask.Planned.mono {cal : Calendar} {now later : Time} {t : ScheduledTask}
    (h : t.Planned cal now) (hle : now ≤ later) : t.Planned cal later :=
  ⟨Int.le_trans h.created hle, h.next⟩

theorem planned_next {cal : Calendar} {now : Time} {t : ScheduledTask} (hcreated : t.createdAt ≤ now)
    {m : Int} (hm : nextRun cal t.cron now = some m) (hnext : t.nextRunAt = 60000 * m) :
    t.Planned cal now where
  created := hcreated
  next _ := by
    obtain ⟨hlt, hmatch⟩ := nextRun_spec cal hm
    refine ⟨m, hnext, hmatch, ?_⟩
    rw [hnext]
    exact Int.lt_of_le_of_lt hcreated hlt

namespace Scheduler

variable (cal : Calendar)

def TasksPlanned (now : Time) (tasks : String → Option ScheduledTask) : Prop :=
  ∀ id t, tasks id = some t → t.id = id ∧ t.Planned cal now

def Ahead (runs : List TaskRun) (tasks : String → Option ScheduledTask) : Prop :=
  ∀ id t, tasks id = some t → 0 < t.nextRunAt →
    ∀ r ∈ runs, r.task.id = id → r.task.nextRunAt < t.nextRunAt

structure OnTime (r : TaskRun) : Prop where
  pos : 0 < r.task.nextRunAt
  passed : r.task.nextRunAt ≤ r.time
  planned : r.task.Planned cal r.time

structure Consistent (s : Scheduler) : Prop where
  tasks : TasksPlanned cal s.now s.tasks
  file : TasksPlanned cal s.now s.file
  ahead : Ahead s.runs s.tasks
  onTime : ∀ r ∈ s.runs, OnTime cal r
  past : ∀ r ∈ s.runs, r.time ≤ s.now
  increasing : s.runs.Pairwise fun r r' =>
    r.task.id = r'.task.id → r'.task.nextRunAt < r.task.nextRunAt

/-- What a step needs: an expression that is set, or that is due, matches within 366 days
(or no time was set for the task before), and a task is not read back with a time at
which it has already run. -/
def InSchedule (s : Scheduler) : TaskEvent → Prop
  | .create t _ _ => (nextRun cal t.cron s.now).isSome ∨ t.nextRunAt ≤ 0
  | .update id patch _ => ∀ old ∈ s.tasks id, patch.cron ≠ "" → (parseCron patch.cron).isSome →
      (nextRun cal patch.cron s.now).isSome ∨ old.nextRunAt ≤ 0
  | .tick id => ∀ t ∈ s.tasks id, t.due s.now = true → (nextRun cal t.cron s.now).isSome
  | .restart => ∀ id t, s.file id = some t → 0 < t.nextRunAt →
      ∀ r ∈ s.runs, r.task.id = id → r.time < t.nextRunAt
  | _ => True

variable {cal}

theorem OnTime.charged {r : TaskRun} (h : OnTime cal r) :
    r.Charged cal (r.task.nextRunAt / 60000) := by
  obtain ⟨m, hm, hmatch, hcreated⟩ := h.planned.next h.pos
  have hdiv : r.task.nextRunAt / 60000 = m := by
    rw [hm]
    exact Int.mul_ediv_cancel_left m (by decide)
  rw [hdiv]
  exact ⟨hmatch, hm ▸ hcreated, hm ▸ h.passed⟩

theorem OnTime.aligned {r : TaskRun} (h : OnTime cal r) :
    60000 * (r.task.nextRunAt / 60000) = r.task.nextRunAt := by
  obtain ⟨m, hm, -, -⟩ := h.planned.next h.pos
  rw [hm, Int.mul_ediv_cancel_left m (by decide)]

variable {s : Scheduler}

theorem Consistent.chargeable (h : s.Consistent cal) : Chargeable cal s.runs := by
  refine ⟨s.runs.map fun r => r.task.nextRunAt / 60000, ?_, ?_⟩
  · rw [forall₂_map_right_iff, forall₂_same]
    exact fun r hr => (h.onTime r hr).charged
  · rw [zip_map', List.Nodup, pairwise_map]
    refine h.increasing.imp_of_mem fun {r r'} hr hr' hlt heq => ?_
    obtain ⟨hid, hminute⟩ := Prod.mk.inj heq
    have hlt := hlt hid
    rw [← (h.onTime r hr).aligned, ← (h.onTime r' hr').aligned, hminute] at hlt
    exact Int.lt_irrefl _ hlt

variable {t : ScheduledTask} {id : String}

theorem TasksPlanned.update {now : Time} {tasks : String → Option ScheduledTask}
    (h : TasksPlanned cal now tasks) (hid : t.id = id) (ht : t.Planned cal now) :
    TasksPlanned cal now (Function.update tasks id (some t)) := by
  intro id' t' h'
  rw [update_apply] at h'
  split at h'
  · obtain rfl := some.inj h'
    exact ⟨hid.trans ‹id' = id›.symm, ht⟩
  · exact h id' t' h'

theorem Ahead.update {runs : List TaskRun} {tasks : String → Option ScheduledTask}
    (h : Ahead runs tasks)
    (ht : 0 < t.nextRunAt → ∀ r ∈ runs, r.task.id = id → r.task.nextRunAt < t.nextRunAt) :
    Ahead runs (Function.update tasks id (some t)) := by
  intro id' t' h'
  rw [update_apply] at h'
  split at h'
  · rename_i hid
    obtain rfl := some.inj h'
    rw [hid]
    exact ht
  · exact h id' t' h'

theorem Consistent.store (h : s.Consistent cal) (hid : t.id = id) (ht : t.Planned cal s.now)
    (hahead : 0 < t.nextRunAt → ∀ r ∈ s.runs, r.task.id = id → r.task.nextRunAt < t.nextRunAt)
    (saved : Bool) : (s.store (Function.update s.tasks id (some t)) saved).Consistent cal where
  tasks := h.tasks.update hid ht
  file := by
    cases saved with
    | true => exact h.tasks.update hid ht
    | false => exact h.file
  ahead := h.ahead.update hahead
  onTime := h.onTime
  past := h.past
  increasing := h.increasing

theorem Consistent.lt_next (h : s.Consistent cal) {expr : String} {m : Int}
    (hm : nextRun cal expr s.now = some m) : ∀ r ∈ s.runs, r.task.nextRunAt < 60000 * m :=
  fun r hr => Int.lt_of_le_of_lt (Int.le_trans (h.onTime r hr).passed (h.past r hr))
    (nextRun_spec cal hm).1

theorem Consistent.store_next (h : s.Consistent cal) (hid : t.id = id)
    (hcreated : t.createdAt ≤ s.now)
    (hnext : (∃ m, nextRun cal t.cron s.now = some m ∧ t.nextRunAt = 60000 * m) ∨ t.nextRunAt ≤ 0)
    (saved : Bool) : (s.store (Function.update s.tasks id (some t)) saved).Consistent cal := by
  rcases hnext with ⟨m, hm, hnext⟩ | hzero
  · refine h.store hid (planned_next hcreated hm hnext) (fun _ r hr _ => ?_) saved
    rw [hnext]
    exact h.lt_next hm r hr
  · have hneg : ¬ 0 < t.nextRunAt := Int.not_lt.mpr hzero
    exact h.store hid ⟨hcreated, fun hpos => absurd hpos hneg⟩ (fun hpos => absurd hpos hneg) saved

theorem Consistent.create (h : s.Consistent cal) {fresh : String} {saved : Bool}
    (hc : s.InSchedule cal (.create t fresh saved)) :
    (s.create cal t fresh saved).Consistent cal := by
  unfold Scheduler.create
  split
  · exact h
  · dsimp only
    refine h.store_next ?_ ?_ ?_ saved
    · rfl
    · exact Int.le_refl s.now
    · cases hnext : nextRun cal t.cron s.now with
      | some m => exact .inl ⟨m, rfl, rfl⟩
      | none => exact .inr (by simpa [InSchedule, hnext] using hc)

/-- An update in schedule sets a time at which the task has not run yet. -/
theorem Consistent.update (h : s.Consistent cal) {patch : TaskPatch} {saved : Bool}
    (hc : s.InSchedule cal (.update id patch saved)) :
    (s.update cal id patch saved).Consistent cal := by
  unfold Scheduler.update
  cases hold : s.tasks id with
  | none => exact h
  | some old =>
    obtain ⟨hid, hplanned⟩ := h.tasks id old hold
    have hahead := h.ahead id old hold
    dsimp only
    generalize hswitched : { old with
      name := if patch.name = "" then old.name else patch.name
      enabled := patch.enabled } = switched
    -- the name and the switch do not matter
    have hsame : switched.id = id ∧ switched.Planned cal s.now ∧
        switched.nextRunAt = old.nextRunAt := by
      subst hswitched
      exact ⟨hid, ⟨hplanned.created, hplanned.next⟩, rfl⟩
    obtain ⟨hid, hplanned, htime⟩ := hsame
    rw [← htime] at hahead
    split
    · exact h.store hid hplanned hahead false
    · rename_i hparse
      generalize hpatched : applyPatch cal s.now switched patch = new
      have hnewId : new.id = id := by
        subst hpatched
        exact hid
      have hcreated : new.createdAt ≤ s.now := by
        subst hpatched
        exact hplanned.created
      by_cases hcron : patch.cron = ""
      · have hnewTime : new.nextRunAt = switched.nextRunAt := by
          subst hpatched
          exact if_pos hcron
        have hplan : new.Planned cal s.now := by
          subst hpatched
          refine ⟨hplanned.created, ?_⟩
          simp only [applyPatch, hcron, if_true]
          exact hplanned.next
        refine h.store hnewId hplan ?_ saved
        rw [hnewTime]
        exact hahead
      · have hnewCron : new.cron = patch.cron := by
          subst hpatched
          exact if_neg hcron
        have hnewTime : new.nextRunAt =
            ((nextRun cal patch.cron s.now).map (60000 * ·)).getD switched.nextRunAt := by
          subst hpatched
          exact if_neg hcron
        have hsome : (parseCron patch.cron).isSome := by
          cases hp : parseCron patch.cron with
          | none => exact absurd ⟨hcron, by simp [hp]⟩ hparse
          | some c => rfl
        refine h.store_next hnewId hcreated ?_ saved
        rw [hnewCron, hnewTime, htime]
        cases hnext : nextRun cal patch.cron s.now with
        | some m => exact .inl ⟨m, rfl, rfl⟩
        | none => exact .inr (by simpa [hnext] using hc old hold hcron hsome)

theorem Consistent.delete (h : s.Consistent cal) (id : String) (saved : Bool) :
    (s.store (Function.update s.tasks id none) saved).Consistent cal := by
  have hfewer : ∀ {id' t}, Function.update s.tasks id none id' = some t → s.tasks id' = some t := by
    intro id' t h'
    rw [update_apply] at h'
    split at h'
    · cases h'
    · exact h'
  have htasks : TasksPlanned cal s.now (Function.update s.tasks id none) :=
    fun id' t h' => h.tasks id' t (hfewer h')
  refine ⟨htasks, ?_, fun id' t h' => h.ahead id' t (hfewer h'), h.onTime, h.past, h.increasing⟩
  cases saved with
  | true => exact htasks
  | false => exact h.file

/-- A tick charges its run to the minute it was due at. -/
theorem Consistent.tick (h : s.Consistent cal) (hc : s.InSchedule cal (.tick id)) :
    (s.tick cal id).Consistent cal := by
  unfold Scheduler.tick
  cases ht : s.tasks id with
  | none => exact h
  | some t =>
    by_cases hdue : t.due s.now = true
    · obtain ⟨m, hm⟩ := isSome_iff_exists.mp (hc t ht hdue)
      obtain ⟨hid, hplanned⟩ := h.tasks id t ht
      obtain ⟨hpos, hpassed⟩ : 0 < t.nextRunAt ∧ t.nextRunAt ≤ s.now := by
        simp only [ScheduledTask.due, Bool.and_eq_true, decide_eq_true_eq] at hdue
        exact ⟨hdue.1.2, hdue.2⟩
      have hrun : OnTime cal ⟨t, s.now⟩ := ⟨hpos, hpassed, hplanned⟩
      have hlater : t.nextRunAt < 60000 * m := Int.lt_of_le_of_lt hpassed (nextRun_spec cal hm).1
      have hnext : ({ t with nextRunAt := 60000 * m } : ScheduledTask).Planned cal s.now :=
        planned_next hplanned.created hm rfl
      simp only [hdue, if_true, hm]
      refine ⟨h.tasks.update hid hnext, h.file, ?_, ?_, ?_, ?_⟩
      · intro id' t' h' hpos r hr hrid
        simp only [update_apply] at h'
        split at h'
        · obtain rfl := some.inj h'
          rcases mem_cons.mp hr with rfl | hr
          · exact hlater
          · exact h.lt_next hm r hr
        · rcases mem_cons.mp hr with rfl | hr
          · exact absurd (hrid.symm.trans hid) ‹¬ id' = id›
          · exact h.ahead id' t' h' hpos r hr hrid
      · exact forall_mem_cons.mpr ⟨hrun, h.onTime⟩
      · exact forall_mem_cons.mpr ⟨Int.le_refl _, h.past⟩
      · refine pairwise_cons.mpr ⟨fun r hr hrid => ?_, h.increasing⟩
        exact h.ahead id t ht hpos r hr (hrid.symm.trans hid)
    · simp only [hdue]
      exact h

theorem Consistent.restart (h : s.Consistent cal) (hc : s.InSchedule cal .restart) :
    (s.step cal .restart).Consistent cal where
  tasks := h.file
  file := h.file
  ahead id t ht hpos r hr hrid :=
    Int.lt_of_le_of_lt (h.onTime r hr).passed (hc id t ht hpos r hr hrid)
  onTime := h.onTime
  past := h.past
  increasing := h.increasing

/-- One step in schedule keeps runs, plans and the file consistent. -/
theorem Consistent.step (h : s.Consistent cal) {e : TaskEvent} (hc : s.InSchedule cal e) :
    (s.step cal e).Consistent cal := by
  cases e with
  | advance ms =>
    have hle : s.now ≤ s.now + ms := Int.le_add_of_nonneg_right (Int.natCast_nonneg ms)
    exact ⟨fun id t ht => ⟨(h.tasks id t ht).1, (h.tasks id t ht).2.mono hle⟩,
      fun id t ht => ⟨(h.file id t ht).1, (h.file id t ht).2.mono hle⟩, h.ahead, h.onTime,
      fun r hr => Int.le_trans (h.past r hr) hle, h.increasing⟩
  | create t fresh saved => exact h.create hc
  | update id patch saved => exact h.update hc
  | delete id saved => exact h.delete id saved
  | tick id => exact h.tick hc
  | restart => exact h.restart hc

theorem consistent_start (now : Time) : Consistent cal { now := now } where
  tasks _ _ h := by cases h
  file _ _ h := by cases h
  ahead _ _ h := by cases h
  onTime _ h := by cases h
  past _ h := by cases h
  increasing := List.Pairwise.nil

/-- Every run can be charged to a matching minute of its own, as long as the expressions that
are set or due match within 366 days and no task is read back with a time at which it has
already run. -/
theorem runs_charged_to_minutes (cal : Calendar) (now : Time) (es : List TaskEvent)
    (h : Along (step cal) (InSchedule cal) { now := now } es) :
    Throughout (step cal) (fun s => Chargeable cal s.runs) { now := now } es := by
  have hstep : ∀ s e, Consistent cal s → InSchedule cal s e → Consistent cal (step cal s e) :=
    fun _ _ hs hc => hs.step hc
  exact (throughout_of_invariant hstep (consistent_start now) h).mono fun _ hs => hs.chargeable

def everyMinute : ScheduledTask where
  enabled := true
  cron := "* * * * *"
  command := "true"

theorem two_runs_charged :
    let es : List TaskEvent := [.create everyMinute "task-1" true, .advance 30000, .tick "task-1",
      .advance 60000, .tick "task-1"]
    Throughout (step utc) (fun s => Chargeable utc s.runs) { now := 30000 } es := by
  intro es
  refine runs_charged_to_minutes utc 30000 es ⟨?_, trivial, ?_, trivial, ?_, trivial⟩
  · exact .inl (by decide)
  · unfold InSchedule
    decide
  · unfold InSchedule
    decide

/-- A restart after a run. -/
theorem restart_repeats_a_run :
    let es : List TaskEvent := [.create everyMinute "task-1" true, .advance 30000, .tick "task-1",
      .restart, .advance 30000, .tick "task-1"]
    let s := exec (step utc) { now := 30000 } es
    s.runs.map (fun r => (r.task.id, r.task.createdAt, r.time)) =
        [("task-1", 30000, 90000), ("task-1", 30000, 60000)] ∧
      ¬ Chargeable utc s.runs := by
  intro es s
  have hruns : s.runs.map (fun r => (r.task.id, r.task.createdAt, r.time)) =
      [("task-1", 30000, 90000), ("task-1", 30000, 60000)] := by decide
  refine ⟨hruns, ?_⟩
  rintro ⟨minutes, hcharged, hnodup⟩
  generalize s.runs = runs at hruns hcharged hnodup
  -- only minute 1 begins after the creation and not after either tick
  have honly : ∀ {r : TaskRun} {m : Int}, r.Charged utc m → r.task.createdAt = 30000 →
      r.time ≤ 90000 → m = 1 := by
    rintro r m ⟨-, hcreated, htime⟩ hc hle
    have hlt : 30000 < 60000 * m := hc ▸ hcreated
    have hle : 60000 * m ≤ 90000 := Int.le_trans htime hle
    omega
  cases hcharged with
  | nil => simp at hruns
  | cons hfirst hrest =>
    cases hrest with
    | nil => simp at hruns
    | cons hsecond hrest =>
      simp only [map_cons, List.cons.injEq, Prod.mk.injEq] at hruns
      obtain ⟨⟨hid, hc, ht⟩, ⟨hid', hc', ht'⟩, -⟩ := hruns
      have hm := honly hfirst hc (Int.le_of_eq ht)
      have hm' := honly hsecond hc' (ht' ▸ by decide)
      simp [hid, hid', hm, hm'] at hnodup

end Scheduler

end CtForge.Server
