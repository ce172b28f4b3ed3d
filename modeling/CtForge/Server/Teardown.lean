import CtForge.Server.Forwards
import CtForge.Server.System
import CtForge.Server.Terminals

/-!
# The end of a connection, beyond the store

`main` hangs callbacks on a connection. When it has registered, `OnOnline` records
the event and completes the last offline event of the host; at the end of its
cleanup `OnOffline` records the offline event, closes the port forwards of the host
and drops its terminal sessions. All of them go by the ID of the host. `Hub` adds
them to the server: the forwards, the terminals and the history, where each
connection stands in its callbacks, and the requests that are opening a forward or
a terminal on the connection they looked up.

`turn` numbers the connections in the order in which they took an entry of the
session table, so that the connection with the greater turn is the successor.
-/

namespace CtForge.Server

open CtForge.Runs Function

/-! ## Forwards and the history -/

/-- The IDs that `CloseByAgent` lists before it closes them one by one. -/
def forwardsOfAgent (forwards : AList fun _ : String => ActiveForward) (agentId : Id) :
    List String :=
  (forwards.entries.filter fun e => e.2.fwd.agentId == agentId).map Sigma.fst

variable {f : ActiveForward}

theorem lookup_of_erase {forwards : AList fun _ : String => ActiveForward} {id key : String}
    (hf : (forwards.erase id).lookup key = some f) : forwards.lookup key = some f := by
  by_cases hkey : key = id
  · subst hkey
    simp at hf
  · rwa [AList.lookup_erase_ne hkey] at hf

inductive HistoryKind where
  | online | offline
  deriving DecidableEq

structure HistoryEvent where
  agentId : Id
  kind : HistoryKind
  atMs : Int
  durationS : Int := 0
  deriving DecidableEq

def historyMax : Nat := 5000

/-- `Record`: the history keeps its last events. -/
def record (events : List HistoryEvent) (e : HistoryEvent) : List HistoryEvent :=
  (events ++ [e]).drop (events.length + 1 - historyMax)

def completeFirst (agentId : Id) (nowMs : Int) : List HistoryEvent → List HistoryEvent
  | [] => []
  | e :: es =>
    if e.agentId = agentId ∧ e.kind = .offline ∧ e.durationS = 0 then
      { e with durationS := (nowMs - e.atMs).tdiv 1000 } :: es
    else e :: completeFirst agentId nowMs es

def closeOfflineEvent (events : List HistoryEvent) (agentId : Id) (nowMs : Int) :
    List HistoryEvent :=
  (completeFirst agentId nowMs events.reverse).reverse

/-! ## The hub -/

inductive Hook where
  | idle
  -- OnOnline
  | recordOnline (id : Id)
  | closeOffline (id : Id)
  -- OnOffline, from the event that AddOfflineEvent returned on
  | recordOffline (id : Id)
  | listForwards (id : Id)
  | closeForwards (id : Id) (ids : List String)
  | listTerms (id : Id)
  | dropTerms (id : Id) (ids : List String)

inductive Call where
  | idle
  | forward (f : ActiveForward)
  | terminal (ts : TermSession)

structure Hub where
  sys : Sys
  forwards : AList fun _ : String => ActiveForward
  terms : TermRegistry
  history : List HistoryEvent
  hooks : Tid → Hook
  calls : Nat → Call
  turn : Tid → Nat
  turns : Nat

def Hub.start (store : Store) (history : List HistoryEvent) : Hub where
  sys := Sys.start store
  forwards := ∅
  terms := .empty
  history := history
  hooks := fun _ => .idle
  calls := fun _ => .idle
  turn := fun _ => 0
  turns := 0

inductive HubEvent where
  | sys (e : Event)
  /-- The next section of a callback of the connection `t`. -/
  | hook (t : Tid) (now : Time)
  /-- `Create` looks up the connection of the host. -/
  | forward (k : Nat) (f : Forward) (newID : String) (now : Time)
  | forwardOpened (k : Nat) (ok : Bool)
  | closeForward (id : String)
  /-- A web client or the gateway looks up the connection for a new session. -/
  | terminal (k : Nat) (ts : TermSession)
  | terminalOpened (k : Nat) (ok : Bool)
  | removeTerminal (id : String)

def Event.actor : Event → Option Tid
  | .run t _ | .receive t _ | .hangup t => some t
  | _ => none

namespace Hub

def setHook (h : Hub) (t : Tid) (hook : Hook) : Hub :=
  { h with hooks := Function.update h.hooks t hook }

def busy (h : Hub) (e : Event) : Bool :=
  match e.actor with
  | some t =>
    match h.hooks t with
    | .idle => false
    | _ => true
  | none => false

/-- The connection `t` took the entry of `id`. -/
def entered (h : Hub) (t : Tid) (id : Id) : Hub :=
  { h.setHook t (.recordOnline id) with
    turn := Function.update h.turn t (h.turns + 1)
    turns := h.turns + 1 }

/-- The callbacks that the section just taken by `t` leads to; `s` is the state
that it found. -/
def called (h : Hub) (s : Sys) (t : Tid) : Hub :=
  match s.tasks t with
  | .regSession id => h.entered t id
  | .endOffline id =>
    match h.sys.tasks t with
    | .finished =>
      h.setHook t (if (s.store.agents id).isSome then .recordOffline id else .listForwards id)
    | _ => h
  | _ => h

def onSys (srv : Identity) (h : Hub) (e : Event) : Hub :=
  let h' := { h with sys := Server.step srv h.sys e }
  match e with
  | .run t _ => h'.called h.sys t
  | _ => h'

/-- One section of the callbacks of `t`. -/
def onHook (h : Hub) (t : Tid) (now : Time) : Hub :=
  match h.hooks t with
  | .idle => h
  | .recordOnline id =>
    { h.setHook t (.closeOffline id) with
      history := record h.history { agentId := id, kind := .online, atMs := unixMilli now } }
  | .closeOffline id =>
    { h.setHook t .idle with history := closeOfflineEvent h.history id (unixMilli now) }
  | .recordOffline id =>
    { h.setHook t (.listForwards id) with
      history := record h.history { agentId := id, kind := .offline, atMs := unixMilli now } }
  | .listForwards id => h.setHook t (.closeForwards id (forwardsOfAgent h.forwards id))
  | .closeForwards id [] => h.setHook t (.listTerms id)
  | .closeForwards id (k :: ks) =>
    { h.setHook t (.closeForwards id ks) with forwards := h.forwards.erase k }
  | .listTerms id => h.setHook t (.dropTerms id (h.terms.idsOfAgent id))
  | .dropTerms _ [] => h.setHook t .idle
  | .dropTerms id (k :: ks) => { h.setHook t (.dropTerms id ks) with terms := h.terms.remove k }

def setCall (h : Hub) (k : Nat) (call : Call) : Hub :=
  { h with calls := Function.update h.calls k call }

def step (srv : Identity) (h : Hub) : HubEvent → Hub
  | .sys e => if h.busy e then h else h.onSys srv e
  | .hook t now => h.onHook t now
  | .forward k f newID now =>
    match h.calls k, h.sys.sessions f.agentId with
    | .idle, some u => h.setCall k (.forward { fwd := f.filled newID now, agent := u })
    | _, _ => h
  | .forwardOpened k ok =>
    match h.calls k with
    | .forward f =>
      if ok then { h.setCall k .idle with forwards := h.forwards.insert f.fwd.id f }
      else h.setCall k .idle
    | _ => h
  | .closeForward id => { h with forwards := h.forwards.erase id }
  | .terminal k ts =>
    match h.calls k, h.sys.sessions ts.agentId with
    | .idle, some u => h.setCall k (.terminal { ts with ac := u })
    | _, _ => h
  | .terminalOpened k ok =>
    match h.calls k with
    | .terminal ts =>
      if ok then { h.setCall k .idle with terms := h.terms.add ts } else h.setCall k .idle
    | _ => h
  | .removeTerminal id => { h with terms := h.terms.remove id }

end Hub

/-! ## What a cleanup may strike -/

inductive Part where
  | record | forward | terminal

/-- The goroutine serves a connection of `id`, or has its cleanup ahead. -/
def Task.serves (id : Id) : Task → Bool
  | .serving key | .dispatching key _ | .endSession key => key == id
  | .endSetOnline key | .endOffline key => key == id
  | _ => false

/-- The callback of `OnOffline` has the part ahead for `id`. -/
def Hook.ahead (id : Id) : Part → Hook → Bool
  | _, .recordOffline key => key == id
  | .forward, .listForwards key | .forward, .closeForwards key _ => key == id
  | .terminal, .listForwards key | .terminal, .closeForwards key _ => key == id
  | .terminal, .listTerms key | .terminal, .dropTerms key _ => key == id
  | _, _ => false

namespace Hub

variable (h : Hub)

/-- The connection `u` took its entry after `t`. -/
def Newer (t u : Tid) : Prop := h.turn t < h.turn u

instance (t u : Tid) : Decidable (h.Newer t u) :=
  inferInstanceAs (Decidable (h.turn t < h.turn u))

/-- The connection `t` of `id` has that part of its cleanup ahead. -/
def Owes (part : Part) (t : Tid) (id : Id) : Prop :=
  (h.sys.tasks t).serves id = true ∨ (h.hooks t).ahead id part = true

/-- The connection `u` has the entry of `id` and recorded it online. -/
def Announced (id : Id) (u : Tid) : Prop :=
  h.sys.sessions id = some u ∧ h.hooks u ≠ .recordOnline id

/-- What `u` holds of a part for `id`: its online event, or the forward or the
terminal `key`. -/
def Holds (key : String) (id : Id) (u : Tid) : Part → Prop
  | .record => h.Announced id u
  | .forward => ∃ f, h.forwards.lookup key = some f ∧ f.fwd.agentId = id ∧ f.agent = u
  | .terminal => ∃ ts, h.terms.session key = some ts ∧ ts.agentId = id ∧ ts.ac = u

/-- What the step gives `u` to hold. -/
def Opens (key : String) (id : Id) (u : Tid) : HubEvent → Part → Prop
  | .hook t _, .record => t = u ∧ h.hooks t = .recordOnline id
  | .forwardOpened k true, .forward =>
    ∃ f, h.calls k = .forward f ∧ f.fwd.id = key ∧ f.fwd.agentId = id ∧ f.agent = u
  | .terminalOpened k true, .terminal =>
    ∃ ts, h.calls k = .terminal ts ∧ ts.id = key ∧ ts.agentId = id ∧ ts.ac = u
  | _, _ => False

/-- A connection comes to hold a part only when no older connection of the host
has that part of its cleanup ahead. -/
def Waits (e : HubEvent) : Prop :=
  ∀ key id u part, h.Opens key id u e part → ∀ t, h.Owes part t id → ¬ h.Newer t u

/-- The step of a callback of `t` closes nothing that a newer connection of its
host opened, and records the host offline only while no newer connection that
recorded it online has its entry. -/
def Spares (srv : Identity) : HubEvent → Prop
  | .hook t now => ∀ id,
      (∀ ids, h.hooks t = .closeForwards id ids → ∀ key f, h.forwards.lookup key = some f →
        f.fwd.agentId = id → h.Newer t f.agent →
        ((h.step srv (.hook t now)).forwards.lookup key) = some f) ∧
      (∀ ids, h.hooks t = .dropTerms id ids → ∀ key ts, h.terms.session key = some ts →
        ts.agentId = id → h.Newer t ts.ac →
        (h.step srv (.hook t now)).terms.session key = some ts) ∧
      (h.hooks t = .recordOffline id → ∀ u, h.Announced id u → ¬ h.Newer t u)
  | _ => True

end Hub

/-! ## What a step of the hub can do -/

def Call.conn : Call → Option Tid
  | .idle => none
  | .forward f => some f.agent
  | .terminal ts => some ts.ac

namespace Hub

inductive Step (srv : Identity) (h : Hub) : HubEvent → Hub → Prop
  | stay (e : HubEvent) : Step srv h e h
  | sys (e : Event) (hpass : ∀ t now id, e = .run t now → h.sys.tasks t ≠ .regSession id) :
      Step srv h (.sys e) { h with sys := Server.step srv h.sys e }
  | enter {t : Tid} {id : Id} (now : Time) (htask : h.sys.tasks t = .regSession id)
      (hidle : h.hooks t = .idle) :
      Step srv h (.sys (.run t now))
        ({ h with sys := Server.step srv h.sys (.run t now) }.entered t id)
  | leave {t : Tid} {id : Id} (now : Time) {hook : Hook}
      (htask : h.sys.tasks t = .endOffline id) (hidle : h.hooks t = .idle)
      (hhook : hook = .recordOffline id ∨ hook = .listForwards id) :
      Step srv h (.sys (.run t now))
        ({ h with sys := Server.step srv h.sys (.run t now) }.setHook t hook)
  | hook (t : Tid) (now : Time) : Step srv h (.hook t now) (h.onHook t now)
  | call (e : HubEvent) (k : Nat) {call : Call}
      (hconn : ∀ u, call.conn = some u → ∃ id, h.sys.sessions id = some u) :
      Step srv h e (h.setCall k call)
  | forward {k : Nat} {f : ActiveForward} (hcall : h.calls k = .forward f) :
      Step srv h (.forwardOpened k true)
        { h.setCall k .idle with forwards := h.forwards.insert f.fwd.id f }
  | closeForward (id : String) :
      Step srv h (.closeForward id) { h with forwards := h.forwards.erase id }
  | terminal {k : Nat} {ts : TermSession} (hcall : h.calls k = .terminal ts) :
      Step srv h (.terminalOpened k true) { h.setCall k .idle with terms := h.terms.add ts }
  | removeTerminal (id : String) :
      Step srv h (.removeTerminal id) { h with terms := h.terms.remove id }

variable {srv : Identity} {h : Hub} {now : Time} {t : Tid}

theorem hooks_of_not_busy (hbusy : ¬ h.busy (.run t now) = true) : h.hooks t = .idle := by
  simp only [busy, Event.actor] at hbusy
  split at hbusy
  · assumption
  · exact absurd rfl hbusy

theorem run_spec (hidle : h.hooks t = .idle) :
    Step srv h (.sys (.run t now)) (h.onSys srv (.run t now)) := by
  have hpass : (∀ id, h.sys.tasks t ≠ .regSession id) →
      Step srv h (.sys (.run t now)) { h with sys := Server.step srv h.sys (.run t now) } := by
    intro hother
    refine .sys _ ?_
    intro u when id he
    cases he
    exact hother id
  simp only [onSys, called]
  split
  · rename_i id htask
    exact .enter now htask hidle
  · rename_i id htask
    split
    · refine .leave now htask hidle ?_
      split
      · exact .inl rfl
      · exact .inr rfl
    · exact hpass (by simp [htask])
  · rename_i hother _
    exact hpass hother

/-- What one step of the hub can do. -/
theorem step_spec (srv : Identity) (h : Hub) (e : HubEvent) : Step srv h e (h.step srv e) := by
  cases e with
  | sys e =>
    simp only [step]
    split
    · exact .stay _
    · rename_i hbusy
      cases e with
      | run t now => exact run_spec (hooks_of_not_busy hbusy)
      | _ => exact .sys _ (by simp)
  | hook t now => exact .hook t now
  | forward k f newID now =>
    simp only [step]
    split
    · rename_i u _ hsession
      refine .call _ k ?_
      intro v hv
      exact ⟨f.agentId, hsession.trans hv⟩
    · exact .stay _
  | forwardOpened k ok =>
    simp only [step]
    split
    · rename_i f hcall
      split
      · rename_i hok
        exact hok ▸ .forward hcall
      · exact .call _ k (by simp [Call.conn])
    · exact .stay _
  | closeForward id => exact .closeForward id
  | terminal k ts =>
    simp only [step]
    split
    · rename_i u _ hsession
      refine .call _ k ?_
      intro v hv
      exact ⟨ts.agentId, hsession.trans hv⟩
    · exact .stay _
  | terminalOpened k ok =>
    simp only [step]
    split
    · rename_i ts hcall
      split
      · rename_i hok
        exact hok ▸ .terminal hcall
      · exact .call _ k (by simp [Call.conn])
    · exact .stay _
  | removeTerminal id => exact .removeTerminal id

/-! ### The tasks and the turns -/

@[simp] theorem onHook_sys (h : Hub) (t : Tid) (now : Time) : (h.onHook t now).sys = h.sys := by
  unfold onHook
  split <;> rfl

@[simp] theorem onHook_calls (h : Hub) (t : Tid) (now : Time) :
    (h.onHook t now).calls = h.calls := by
  unfold onHook
  split <;> rfl

@[simp] theorem onHook_turn (h : Hub) (t : Tid) (now : Time) : (h.onHook t now).turn = h.turn := by
  unfold onHook
  split <;> rfl

@[simp] theorem onHook_turns (h : Hub) (t : Tid) (now : Time) :
    (h.onHook t now).turns = h.turns := by
  unfold onHook
  split <;> rfl

variable {h' : Hub} {e : HubEvent}

theorem Step.sys_eq (hs : Step srv h e h') :
    h'.sys = h.sys ∨ ∃ e', e = .sys e' ∧ h'.sys = Server.step srv h.sys e' := by
  cases hs with
  | sys e' hpass => exact .inr ⟨e', rfl, rfl⟩
  | enter now htask hidle | leave now htask hidle hhook => exact .inr ⟨_, rfl, rfl⟩
  | hook t now => exact .inl (onHook_sys h t now)
  | _ => exact .inl rfl

theorem Step.turn (hs : Step srv h e h') (t : Tid) :
    h'.turn t = h.turn t ∨
      (∃ id, h.sys.tasks t = .regSession id ∧ h'.sys.tasks t = .serving id) ∧
        h'.turn t = h.turns + 1 := by
  cases hs with
  | @enter t' id now htask hidle =>
    simp only [entered, update_apply]
    split
    · rename_i ht
      refine .inr ⟨⟨id, ht ▸ htask, ?_⟩, rfl⟩
      simp [setHook, Server.step, advance, htask, ht, goto_tasks]
    · exact .inl rfl
  | hook t' now => exact .inl (by rw [onHook_turn])
  | _ => exact .inl rfl

theorem Step.turns_le_succ (hs : Step srv h e h') : h'.turns ≤ h.turns + 1 := by
  cases hs with
  | enter now htask hidle => exact Nat.le_refl _
  | hook t now =>
    rw [onHook_turns]
    exact Nat.le_succ _
  | _ => exact Nat.le_succ _

theorem Step.turn_le (hs : Step srv h e h') (hle : ∀ t, h.turn t ≤ h.turns) (t : Tid) :
    h'.turn t ≤ h'.turns := by
  cases hs with
  | enter now htask hidle =>
    simp only [entered, update_apply]
    split
    · exact Nat.le_refl _
    · exact Nat.le_succ_of_le (hle t)
  | hook t' now =>
    rw [onHook_turn, onHook_turns]
    exact hle t
  | _ => exact hle t

/-! ### What is owed -/

variable {id : Id}

theorem serves_before {s : Sys} {e : Event} {task : Task} (hgoes : Goes s t e task)
    (hserves : task.serves id = true) :
    (s.tasks t).serves id = true ∨ ∃ now, e = .run t now ∧ s.tasks t = .regSession id := by
  cases hgoes with
  | keep => exact .inl hserves
  | enter hidle hfresh => cases task <;> simp [Task.serves, Task.fresh] at hserves hfresh
  | receive m htask | hangup htask | leaveSession now htask =>
    exact .inl (by simpa [htask, Task.serves] using hserves)
  | lock rs hidle | unlock now htask => simp [Task.serves] at hserves
  | enterSession now htask =>
    obtain rfl := beq_iff_eq.mp hserves
    exact .inr ⟨now, rfl, htask⟩
  | move now hfollows =>
    generalize s.tasks t = old at hfollows
    cases hfollows with
    | stay | serving key m | endOffline key => exact .inl hserves
    | _ => simp [Task.serves] at hserves

variable {t : Tid} {u : Tid}

theorem onHook_hooks_of_ne (hne : u ≠ t) (now : Time) : (h.onHook t now).hooks u = h.hooks u := by
  unfold onHook
  split <;> simp [setHook, hne]

variable {part : Part}

theorem onHook_ahead (hahead : ((h.onHook t now).hooks u).ahead id part = true) :
    (h.hooks u).ahead id part = true := by
  by_cases hu : u = t
  · subst hu
    cases hhook : h.hooks u with
    | closeForwards key ids | dropTerms key ids =>
      cases ids <;> cases part <;> simp_all [onHook, setHook, Hook.ahead]
    | _ => cases part <;> simp_all [onHook, setHook, Hook.ahead]
  · rwa [onHook_hooks_of_ne hu] at hahead

/-- A connection that owes a part of its cleanup owed it before, or has just entered. -/
theorem Step.owes (hs : Step srv h e h') (howes : h'.Owes part t id) :
    h.Owes part t id ∨ h'.turn t = h.turns + 1 := by
  cases hs with
  | stay => exact .inl howes
  | sys e hpass =>
    obtain hserves | hahead := howes
    · obtain hbefore | ⟨now, he, htask⟩ := serves_before (step_goes srv h.sys e t) hserves
      · exact .inl (.inl hbefore)
      · exact absurd htask (hpass t now id he)
    · exact .inl (.inr hahead)
  | @enter t' key now htask hidle =>
    by_cases ht : t = t'
    · subst ht
      exact .inr (by simp [entered])
    · obtain hserves | hahead := howes
      · obtain hbefore | ⟨when, he, -⟩ :=
          serves_before (step_goes srv h.sys (.run t' now) t) hserves
        · exact .inl (.inl hbefore)
        · cases he
          exact absurd rfl ht
      · exact .inl (.inr (by simpa [entered, setHook, ht] using hahead))
  | @leave t' key now hook htask hidle hhook =>
    obtain hserves | hahead := howes
    · obtain hbefore | ⟨when, he, hreg⟩ :=
        serves_before (step_goes srv h.sys (.run t' now) t) hserves
      · exact .inl (.inl hbefore)
      · cases he
        rw [htask] at hreg
        cases hreg
    · by_cases ht : t = t'
      · subst ht
        have hid : key = id := by
          obtain rfl | rfl := hhook <;> cases part <;> simp_all [setHook, Hook.ahead]
        exact .inl (.inl (by simp [htask, Task.serves, hid]))
      · exact .inl (.inr (by simpa [setHook, ht] using hahead))
  | hook t' now =>
    obtain hserves | hahead := howes
    · exact .inl (.inl (by rwa [onHook_sys] at hserves))
    · exact .inl (.inr (onHook_ahead hahead))
  | _ => exact .inl howes

/-! ### What is held -/

variable {key : String}

theorem onHook_forwards (hf : (h.onHook t now).forwards.lookup key = some f) :
    h.forwards.lookup key = some f := by
  unfold onHook at hf
  split at hf <;> first | exact hf | exact lookup_of_erase hf

theorem onHook_terms {ts : TermSession} (hts : (h.onHook t now).terms.session key = some ts) :
    h.terms.session key = some ts := by
  unfold onHook at hts
  split at hts <;> first | exact hts | exact TermRegistry.session_of_remove hts

/-- A connection that has announced its host had done so, or does it now. -/
theorem Step.announced (hs : Step srv h e h') (hann : h'.Announced id u) :
    h.Announced id u ∨ ∃ now, e = .hook u now ∧ h.hooks u = .recordOnline id := by
  obtain ⟨hentry, hhook⟩ := hann
  cases hs with
  | sys e hpass =>
    obtain hbefore | ⟨now, he, htask⟩ := (Server.step_spec srv h.sys e).session hentry
    · exact .inl ⟨hbefore, hhook⟩
    · exact absurd htask (hpass u now id he)
  | @enter t key now htask hidle =>
    obtain hbefore | ⟨when, he, hreg⟩ :=
      (Server.step_spec srv h.sys (.run t now)).session hentry
    · refine .inl ⟨hbefore, ?_⟩
      intro honline
      by_cases hu : u = t
      · subst hu
        rw [hidle] at honline
        cases honline
      · exact hhook (by simpa [entered, setHook, hu] using honline)
    · cases he
      rw [htask] at hreg
      obtain rfl := Task.regSession.inj hreg
      exact absurd (by simp [entered, setHook]) hhook
  | @leave t key now hook htask hidle hcall =>
    obtain hbefore | ⟨when, he, hreg⟩ :=
      (Server.step_spec srv h.sys (.run t now)).session hentry
    · refine .inl ⟨hbefore, ?_⟩
      intro honline
      by_cases hu : u = t
      · subst hu
        rw [hidle] at honline
        cases honline
      · exact hhook (by simpa [setHook, hu] using honline)
    · cases he
      rw [htask] at hreg
      cases hreg
  | hook t now =>
    rw [onHook_sys] at hentry
    by_cases honline : h.hooks u = .recordOnline id
    · by_cases hu : u = t
      · subst hu
        exact .inr ⟨now, rfl, honline⟩
      · rw [onHook_hooks_of_ne hu] at hhook
        exact absurd honline hhook
    · exact .inl ⟨hentry, honline⟩
  | _ => exact .inl ⟨hentry, hhook⟩

/-- What a connection holds it held before, or opens now. -/
theorem Step.holds (hs : Step srv h e h') (hholds : h'.Holds key id u part) :
    h.Holds key id u part ∨ h.Opens key id u e part := by
  cases part with
  | record =>
    obtain hbefore | ⟨now, rfl, hhook⟩ := hs.announced hholds
    · exact .inl hbefore
    · exact .inr ⟨rfl, hhook⟩
  | forward =>
    obtain ⟨f, hf, hid, hconn⟩ := hholds
    cases hs with
    | hook t now => exact .inl ⟨f, onHook_forwards hf, hid, hconn⟩
    | @forward k g hcall =>
      by_cases hkey : key = g.fwd.id
      · subst hkey
        simp only [AList.lookup_insert, Option.some.injEq] at hf
        subst hf
        exact .inr ⟨g, hcall, rfl, hid, hconn⟩
      · simp only [AList.lookup_insert_ne hkey] at hf
        exact .inl ⟨f, hf, hid, hconn⟩
    | closeForward name => exact .inl ⟨f, lookup_of_erase hf, hid, hconn⟩
    | _ => exact .inl ⟨f, hf, hid, hconn⟩
  | terminal =>
    obtain ⟨ts, hts, hid, hconn⟩ := hholds
    cases hs with
    | hook t now => exact .inl ⟨ts, onHook_terms hts, hid, hconn⟩
    | @terminal k new hcall =>
      obtain hbefore | ⟨hkey, heq⟩ := TermRegistry.session_of_add hts
      · exact .inl ⟨ts, hbefore, hid, hconn⟩
      · subst heq
        exact .inr ⟨new, hcall, hkey, hid, hconn⟩
    | removeTerminal name => exact .inl ⟨ts, TermRegistry.session_of_remove hts, hid, hconn⟩
    | _ => exact .inl ⟨ts, hts, hid, hconn⟩

end Hub

/-! ## Every run -/

def Task.admitted : Task → Bool
  | .serving _ | .dispatching .. | .endSession _ | .endSetOnline _ | .endOffline _ => true
  | .finished => true
  | _ => false

theorem Goes.admitted {s : Sys} {e : Event} {task : Task} (hgoes : Goes s t e task)
    (hadm : (s.tasks t).admitted = true) : task.admitted = true := by
  cases hgoes with
  | keep => exact hadm
  | enter hidle hfresh | lock rs hidle =>
    rw [hidle] at hadm
    cases hadm
  | move now hfollows =>
    generalize s.tasks t = old at hadm hfollows
    cases hfollows with
    | stay => exact hadm
    | _ => first | rfl | cases hadm
  | _ => rfl

namespace Hub

/-- Turns go to connections in the order of their entries, what is held is held on
connections that have one, and no connection owes the cleanup of what a newer one
holds. -/
structure Ordered (h : Hub) : Prop where
  turn_le : ∀ t, h.turn t ≤ h.turns
  admitted : ∀ t, h.turn t ≠ 0 → (h.sys.tasks t).admitted = true
  sessions : ∀ id u, h.sys.sessions id = some u → h.turn u ≠ 0
  calls : ∀ k u, (h.calls k).conn = some u → h.turn u ≠ 0
  held : ∀ key id u part, h.Holds key id u part → h.turn u ≠ 0
  safe : ∀ key id u part t, h.Holds key id u part → h.Owes part t id → ¬ h.Newer t u

theorem ordered_start (store : Store) (history : List HistoryEvent) :
    (start store history).Ordered where
  turn_le _ := Nat.le_refl _
  admitted _ h := absurd rfl h
  sessions _ _ h := by cases h
  calls _ _ h := by cases h
  held _ _ _ part h := by
    cases part with
    | record => cases h.1
    | forward =>
      obtain ⟨f, hf, -⟩ := h
      simp [start] at hf
    | terminal =>
      obtain ⟨ts, hts, -⟩ := h
      simp [start, TermRegistry.session] at hts
  safe _ _ _ _ _ _ _ := Nat.lt_irrefl 0

variable {srv : Identity} {h h' : Hub} {e : HubEvent}

theorem Step.turn_stands (hs : Step srv h e h') (hord : h.Ordered)
    (ht : h.turn t ≠ 0) : h'.turn t = h.turn t := by
  obtain heq | ⟨⟨id, htask, -⟩, -⟩ := hs.turn t
  · exact heq
  · have hadm := hord.admitted t ht
    rw [htask] at hadm
    cases hadm

theorem Step.admitted (hs : Step srv h e h') (hord : h.Ordered) (ht : h'.turn t ≠ 0) :
    (h'.sys.tasks t).admitted = true := by
  obtain heq | ⟨⟨id, -, hserving⟩, -⟩ := hs.turn t
  · have hadm := hord.admitted t (heq ▸ ht)
    obtain hsys | ⟨e', -, hsys⟩ := hs.sys_eq
    · rwa [hsys]
    · rw [hsys]
      exact (step_goes srv h.sys e' t).admitted hadm
  · rw [hserving]
    rfl

variable {u : Tid} {id : Id}

/-- A connection in the session table has a turn. -/
theorem Step.sessions (hs : Step srv h e h') (hord : h.Ordered)
    (hentry : h'.sys.sessions id = some u) : h'.turn u ≠ 0 := by
  have hkeep : h.sys.sessions id = some u → h'.turn u ≠ 0 := by
    intro hbefore
    have hu := hord.sessions id u hbefore
    rwa [hs.turn_stands hord hu]
  cases hs with
  | sys e hpass =>
    obtain hbefore | ⟨now, he, htask⟩ := (Server.step_spec srv h.sys e).session hentry
    · exact hkeep hbefore
    · exact absurd htask (hpass u now id he)
  | @enter t key now htask hidle =>
    obtain hbefore | ⟨when, he, -⟩ :=
      (Server.step_spec srv h.sys (.run t now)).session hentry
    · exact hkeep hbefore
    · cases he
      simp [entered]
  | @leave t key now hook htask hidle hcall =>
    obtain hbefore | ⟨when, he, hreg⟩ :=
      (Server.step_spec srv h.sys (.run t now)).session hentry
    · exact hkeep hbefore
    · cases he
      rw [htask] at hreg
      cases hreg
  | hook t now => exact hkeep (by rwa [onHook_sys] at hentry)
  | _ => exact hkeep hentry

theorem Step.calls (hs : Step srv h e h') (hord : h.Ordered) {k : Nat}
    (hcall : (h'.calls k).conn = some u) : h'.turn u ≠ 0 := by
  have hbefore : h.turn u ≠ 0 := by
    cases hs with
    | hook t now => exact hord.calls k u (by rwa [onHook_calls] at hcall)
    | call e key hconn =>
      simp only [setCall, update_apply] at hcall
      split at hcall
      · obtain ⟨id, hentry⟩ := hconn u hcall
        exact hord.sessions id u hentry
      · exact hord.calls k u hcall
    | forward hf | terminal hts =>
      simp only [setCall, update_apply] at hcall
      split at hcall
      · cases hcall
      · exact hord.calls k u hcall
    | _ => exact hord.calls k u hcall
  rwa [hs.turn_stands hord hbefore]

variable {key : String} {part : Part}

theorem Step.turn_of_opens (hs : Step srv h e h') (hord : h.Ordered)
    (hopens : h.Opens key id u e part) (hholds : h'.Holds key id u part) : h'.turn u ≠ 0 := by
  have hcalls : ∀ k, (h.calls k).conn = some u → h'.turn u ≠ 0 := by
    intro k hcall
    have hu := hord.calls k u hcall
    rwa [hs.turn_stands hord hu]
  unfold Opens at hopens
  split at hopens
  · exact hs.sessions hord hholds.1
  · obtain ⟨f, hcall, -, -, hconn⟩ := hopens
    exact hcalls _ (by rw [hcall, Call.conn, hconn])
  · obtain ⟨ts, hcall, -, -, hconn⟩ := hopens
    exact hcalls _ (by rw [hcall, Call.conn, hconn])
  · cases hopens

theorem Step.turn_eq_of_opens (hs : Step srv h e h') (hopens : h.Opens key id u e part) :
    h'.turn = h.turn := by
  cases hs with
  | enter now htask hidle => cases part <;> cases hopens
  | hook t now => exact onHook_turn h t now
  | _ => rfl

theorem Step.held (hs : Step srv h e h') (hord : h.Ordered) (hholds : h'.Holds key id u part) :
    h'.turn u ≠ 0 := by
  obtain hbefore | hopens := hs.holds hholds
  · have hu := hord.held key id u part hbefore
    rwa [hs.turn_stands hord hu]
  · exact hs.turn_of_opens hord hopens hholds

theorem Step.safe (hs : Step srv h e h') (hord : h.Ordered) (hwaits : h.Waits e)
    (hholds : h'.Holds key id u part) (howes : h'.Owes part t id) : ¬ h'.Newer t u := by
  -- a connection that has just taken its entry is the newest
  obtain hbefore | hnew := hs.turn t
  · obtain howed | hlast := hs.owes howes
    · obtain hheld | hopens := hs.holds hholds
      · rw [Newer, hbefore, hs.turn_stands hord (hord.held key id u part hheld)]
        exact hord.safe key id u part t hheld howed
      · rw [Newer, hs.turn_eq_of_opens hopens]
        exact hwaits key id u part hopens t howed
    · have hle := hord.turn_le t
      omega
  · intro hnewer
    have hle := hs.turn_le hord.turn_le u
    have hlast : h'.turn t = h'.turns := by
      have ht := hs.turn_le hord.turn_le t
      have hturns := hs.turns_le_succ
      omega
    exact absurd hnewer (by rw [Newer]; omega)

theorem Ordered.after_step (hord : h.Ordered) (hwaits : h.Waits e) : (h.step srv e).Ordered where
  turn_le := (step_spec srv h e).turn_le hord.turn_le
  admitted _ ht := (step_spec srv h e).admitted hord ht
  sessions _ _ hentry := (step_spec srv h e).sessions hord hentry
  calls _ _ hcall := (step_spec srv h e).calls hord hcall
  held _ _ _ _ hholds := (step_spec srv h e).held hord hholds
  safe _ _ _ _ _ hholds howes := (step_spec srv h e).safe hord hwaits hholds howes

theorem Ordered.spares (hord : h.Ordered) : h.Spares srv e := by
  cases e with
  | hook t now =>
    intro id
    refine ⟨?_, ?_, ?_⟩
    · intro ids hhook key f hf hid hnewer
      have howes : h.Owes .forward t id := .inr (by simp [hhook, Hook.ahead])
      exact absurd hnewer (hord.safe key id f.agent .forward t ⟨f, hf, hid, rfl⟩ howes)
    · intro ids hhook key ts hts hid hnewer
      have howes : h.Owes .terminal t id := .inr (by simp [hhook, Hook.ahead])
      exact absurd hnewer (hord.safe key id ts.ac .terminal t ⟨ts, hts, hid, rfl⟩ howes)
    · intro hhook u hann
      have howes : h.Owes .record t id := .inr (by simp [hhook, Hook.ahead])
      exact hord.safe "" id u .record t hann howes
  | _ => exact trivial

end Hub

/-- No cleanup closes a forward or a terminal that was opened on a newer connection of the host,
nor records the host offline after a newer connection recorded it online, in every run in which
a connection opens forwards and terminals and records its host online only when no older
connection of the host has that part of its cleanup ahead. -/
theorem cleanup_spares_successor (srv : Identity) (store : Store) (history : List HistoryEvent)
    (es : List HubEvent) (hrun : Along (Hub.step srv) Hub.Waits (.start store history) es) :
    Along (Hub.step srv) (fun h e => h.Spares srv e) (.start store history) es := by
  have hstep : ∀ (h : Hub) (e : HubEvent), h.Ordered → h.Waits e → (h.step srv e).Ordered := by
    intro h e hord hwaits
    exact hord.after_step hwaits
  have hspares : ∀ (h : Hub) (e : HubEvent), h.Ordered → h.Waits e → h.Spares srv e := by
    intro h e hord _
    exact hord.spares
  exact along_of_invariant hstep hspares (Hub.ordered_start store history) hrun

/-! ## A reconnection -/

theorem Hook.ahead_terminal {id : Id} {part : Part} {hook : Hook}
    (h : hook.ahead id part = true) : hook.ahead id .terminal = true := by
  cases part <;> cases hook <;> first | exact h | cases h

namespace Hub

/-- Every connection that has some cleanup of `id` ahead took its entry no earlier
than `u`. -/
def ClearFor (h : Hub) (id : Id) (u : Tid) : Prop :=
  ∀ t, h.turn u ≤ h.turn t ∨
    (h.sys.tasks t).serves id = false ∧ (h.hooks t).ahead id .terminal = false

variable {h : Hub}

theorem ClearFor.not_newer {id : Id} (hclear : h.ClearFor id u) (part : Part) (t : Tid)
    (howes : h.Owes part t id) : ¬ h.Newer t u := by
  obtain hle | ⟨hserves, hahead⟩ := hclear t
  · exact Nat.not_lt.mpr hle
  · obtain h | h := howes
    · rw [hserves] at h
      cases h
    · rw [Hook.ahead_terminal h] at hahead
      cases hahead

theorem waits_sys (e : Event) : h.Waits (.sys e) := by
  intro key id u part hopens
  cases part <;> cases hopens

theorem waits_look (k : Nat) (f : Forward) (newID : String) (now : Time) :
    h.Waits (.forward k f newID now) := by
  intro key id u part hopens
  cases part <;> cases hopens

theorem waits_hook (hook : Hook) (hhook : h.hooks t = hook)
    (hother : ∀ id, hook ≠ .recordOnline id) (now : Time) : h.Waits (.hook t now) := by
  intro key id u part hopens
  cases part with
  | record => exact absurd (hhook.symm.trans hopens.2) (hother id)
  | forward | terminal => cases hopens

theorem waits_online {id : Id} (hhook : h.hooks t = .recordOnline id)
    (hclear : h.ClearFor id t) (now : Time) : h.Waits (.hook t now) := by
  intro key id' u part hopens
  cases part with
  | record =>
    obtain ⟨rfl, honline⟩ := hopens
    obtain rfl := Hook.recordOnline.inj (hhook.symm.trans honline)
    exact hclear.not_newer _
  | forward | terminal => cases hopens

theorem waits_opened {k : Nat} (hcall : h.calls k = .forward f)
    (hclear : h.ClearFor f.fwd.agentId f.agent) : h.Waits (.forwardOpened k true) := by
  intro key id u part hopens
  cases part with
  | record | terminal => cases hopens
  | forward =>
    obtain ⟨g, hg, -, rfl, rfl⟩ := hopens
    obtain rfl := Call.forward.inj (hcall.symm.trans hg)
    exact hclear.not_newer _

end Hub

/-- The sections of `Handle` on the connection `t` of a host, up to its entry. -/
def comesUp (t : Tid) : List HubEvent :=
  [.sys (.accept t "10.0.0.5" (some (.register "" { agentId := "h" }))), .sys (.run t 1),
    .sys (.run t 1), .sys (.run t 1), .sys (.run t 1)]

/-- The sections of the cleanup of the connection `t`, up to `OnOffline`. -/
def goesDown (t : Tid) : List HubEvent :=
  [.sys (.hangup t), .sys (.run t 2), .sys (.run t 2), .sys (.run t 2)]

def approvedHost : List HubEvent :=
  [.sys (.load 0 [{ agentId := "h", approval := .approved }]), .sys (.run 0 1), .sys (.run 0 1),
    .sys (.run 0 1)]

/-- A host reconnects; its old connection is cleaned up, the new one records the
host online and a forward is opened on it. -/
theorem successor_opens_forward : let srv : Identity := { token := "", serverId := "console" }
    let es := approvedHost ++ comesUp 1 ++ [.hook 1 1, .hook 1 1] ++ comesUp 2 ++ goesDown 1 ++
      [.hook 1 2, .hook 1 2, .hook 1 2, .hook 1 2, .hook 1 2, .hook 2 3, .hook 2 3,
        .forward 0 { id := "", agentId := "h", targetPort := 80, localPort := 8080 } "pf" 3,
        .forwardOpened 0 true]
    let h := exec (Hub.step srv) (.start (Store.new []) []) es
    (∃ f, h.forwards.lookup "pf" = some f ∧ f.agent = 2) ∧
      Along (Hub.step srv) (fun h e => h.Spares srv e) (.start (Store.new []) []) es := by
  refine ⟨⟨_, rfl, rfl⟩, cleanup_spares_successor _ _ _ _ ?_⟩
  open Hub in
  refine ⟨waits_sys _, waits_sys _, waits_sys _, waits_sys _, waits_sys _, waits_sys _,
    waits_sys _, waits_sys _, waits_sys _, waits_online rfl ?_ _,
    waits_hook (.closeOffline "h") rfl (by simp) _,
    waits_sys _, waits_sys _, waits_sys _, waits_sys _, waits_sys _, waits_sys _, waits_sys _,
    waits_sys _, waits_sys _, waits_hook (.recordOffline "h") rfl (by simp) _,
    waits_hook (.listForwards "h") rfl (by simp) _,
    waits_hook (.closeForwards "h" []) rfl (by simp) _,
    waits_hook (.listTerms "h") rfl (by simp) _,
    waits_hook (.dropTerms "h" []) rfl (by simp) _, waits_online rfl ?_ _,
    waits_hook (.closeOffline "h") rfl (by simp) _, waits_look _ _ _ _,
    waits_opened rfl ?_, trivial⟩
  all_goals
    intro t
    rcases t with _ | _ | _ | t
    · decide
    · decide
    · decide
    · exact .inr ⟨rfl, rfl⟩

/-- A host that reconnects before its old connection is cleaned up. -/
theorem cleanup_strikes_successor : let srv : Identity := { token := "", serverId := "console" }
    let shell : TermSession :=
      { id := "term", agentId := "h", createdAt := 0, ac := 0, owner := "alice",
        state := { suspended := false, updatedAt := 0 } }
    let es := approvedHost ++ comesUp 1 ++ [.hook 1 1, .hook 1 1] ++ comesUp 2 ++
      [.hook 2 1, .hook 2 1,
        .forward 0 { id := "", agentId := "h", targetPort := 80, localPort := 8080 } "pf" 1,
        .forwardOpened 0 true, .terminal 1 shell, .terminalOpened 1 true] ++ goesDown 1
    let cleanup := List.replicate 7 (HubEvent.hook 1 2)
    let h := exec (Hub.step srv) (.start (Store.new []) []) es
    let h' := exec (Hub.step srv) h cleanup
    ¬ Along (Hub.step srv) (fun h e => h.Spares srv e) (.start (Store.new []) []) (es ++ cleanup) ∧
      h'.sys.sessions "h" = some 2 ∧ h.Newer 1 2 ∧
      (h.forwards.lookup "pf").map ActiveForward.agent = some 2 ∧
      (h'.forwards.lookup "pf").isNone = true ∧
      (h.terms.session "term").map TermSession.ac = some 2 ∧ h'.terms.session "term" = none ∧
      h.history.map HistoryEvent.kind = [.online, .online] ∧
      h'.history.map HistoryEvent.kind = [.online, .online, .offline] := by
  refine ⟨?_, by decide, by decide, by decide, by decide,
    by decide, by decide, by decide, by decide⟩
  intro hall
  obtain ⟨-, hspares, -⟩ := along_append.mp hall
  refine (hspares "h").2.2 rfl 2 ⟨rfl, ?_⟩ (by decide)
  change Hook.idle ≠ _
  simp

end CtForge.Server
