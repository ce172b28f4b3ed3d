import CtForge.Lib.Base64
import CtForge.Lib.Runs
import CtForge.Server.AgentConn

/-!
# Port forwards (`portfwd.go`)

A forward belongs to an agent and listens on the server; every TCP connection that is
accepted there gets an identifier. The data that the agent sends back names a forward and
a connection, and `dispatch` hands it to `OnData` without the agent it came from.

A forward outlives its entry in the table: a handler that has looked it up keeps it. So the
forwards and the connections stand in tables of objects, and `OnData` is two steps, one
under the lock of the manager and one under that of the forward.
-/

namespace CtForge.Server

open CLang Runs List Function Option

/-! ## Forwards and connections -/

structure Forward where
  id : String := ""
  agentId : Id
  targetHost : String := ""
  targetPort : Int
  localHost : String := ""
  localPort : Int
  createdAt : Int := 0
  createdBy : String := ""

/-- `agent` is the connection of the host, and `conns` maps connection identifiers to accepted
connections. -/
structure ActiveForward where
  fwd : Forward
  agent : Tid
  conns : String → Option Nat := fun _ => none

/-- What `Create` fills in; `newID` is the ID it draws. -/
def Forward.filled (f : Forward) (newID : String) (now : Time) : Forward :=
  { f with
    id := orDefault f.id newID
    targetHost := orDefault f.targetHost "127.0.0.1"
    localHost := orDefault f.localHost "127.0.0.1"
    createdAt := unixMilli now }

inductive PfEffect where
  | wrote (data : Bytes)
  | closed
  deriving DecidableEq

/-- A connection accepted by a forward of `owner`, and what the messages of agents did to
it. -/
structure LocalConn where
  owner : Id
  effects : List (Id × PfEffect) := []

structure PortForwardDataPayload where
  forwardId : String
  connId : String
  dataBase64 : Bytes := []
  closed : Bool := false

/-- A call of `OnData` that has looked up its forward. -/
structure PfHandler where
  sender : Id
  payload : PortForwardDataPayload
  forward : Nat

structure PfManager where
  forwards : String → Option Nat := fun _ => none
  objects : Nat → Option ActiveForward := fun _ => none
  count : Nat := 0
  conns : Nat → Option LocalConn := fun _ => none
  accepted : Nat := 0
  handlers : Tid → Option PfHandler := fun _ => none

inductive PfEvent where
  /-- `Create` past the consent of the agent and the listener. -/
  | create (f : Forward) (agent : Tid) (newID : String) (now : Time)
  | accept (i : Nat) (connId : String)
  | localClosed (i : Nat) (connId : String)
  /-- A `pf_data` message of `sender`. -/
  | data (t : Tid) (sender : Id) (payload : PortForwardDataPayload)
  | finish (t : Tid)
  /-- `Close`; `CloseByAgent` is one for each forward of the agent. -/
  | close (id : String)

/-! ## The manager -/

namespace PfManager

def setObject (m : PfManager) (i : Nat) (af : ActiveForward) : PfManager :=
  { m with objects := Function.update m.objects i (some af) }

def create (m : PfManager) (f : Forward) (agent : Tid) (newID : String) (now : Time) : PfManager :=
  let f := f.filled newID now
  let m := m.setObject m.count { fwd := f, agent }
  { m with forwards := Function.update m.forwards f.id (some m.count), count := m.count + 1 }

/-- `handleConn` up to its loop. -/
def handleConn (m : PfManager) (i : Nat) (connId : String) : PfManager :=
  match m.objects i with
  | none => m
  | some af =>
    let m := m.setObject i { af with conns := Function.update af.conns connId (some m.accepted) }
    { m with
      conns := Function.update m.conns m.accepted (some { owner := af.fwd.agentId })
      accepted := m.accepted + 1 }

def closeConn (m : PfManager) (i : Nat) (connId : String) : PfManager :=
  match m.objects i with
  | none => m
  | some af => m.setObject i { af with conns := Function.update af.conns connId none }

def close (m : PfManager) (id : String) : PfManager :=
  match m.forwards id with
  | none => m
  | some i =>
    let m := { m with forwards := Function.update m.forwards id none }
    match m.objects i with
    | none => m
    | some af => m.setObject i { af with conns := fun _ => none }

/-- What a message of `sender` does to a connection. -/
def affect (m : PfManager) (c : Nat) (sender : Id) (effect : PfEffect) : PfManager :=
  match m.conns c with
  | none => m
  | some conn =>
    { m with
      conns := Function.update m.conns c
        (some { conn with effects := conn.effects ++ [(sender, effect)] }) }

/-- The part of `OnData` under the lock of the manager. -/
def onData (m : PfManager) (t : Tid) (sender : Id) (p : PortForwardDataPayload) : PfManager :=
  match m.handlers t, m.forwards p.forwardId with
  | none, some i => { m with handlers := Function.update m.handlers t (some ⟨sender, p, i⟩) }
  | _, _ => m

end PfManager

def PortForwardDataPayload.effect (p : PortForwardDataPayload) : Option PfEffect :=
  if p.closed then some .closed
  else match Base64.decode p.dataBase64 with
    | none | some [] => none
    | some data => some (.wrote data)

namespace PfManager

def reached (m : PfManager) (h : PfHandler) : Option (Nat × PfEffect) := do
  let af ← m.objects h.forward
  let effect ← h.payload.effect
  let c ← af.conns h.payload.connId
  return (c, effect)

/-- The rest of `OnData`. -/
def finish (m : PfManager) (t : Tid) : PfManager :=
  match m.handlers t with
  | none => m
  | some h =>
    let m := { m with handlers := Function.update m.handlers t none }
    match m.reached h with
    | none => m
    | some (c, .closed) => (m.affect c h.sender .closed).closeConn h.forward h.payload.connId
    | some (c, .wrote data) => m.affect c h.sender (.wrote data)

def step (m : PfManager) : PfEvent → PfManager
  | .create f agent newID now => m.create f agent newID now
  | .accept i connId => m.handleConn i connId
  | .localClosed i connId => m.closeConn i connId
  | .data t sender p => m.onData t sender p
  | .finish t => m.finish t
  | .close id => m.close id

/-! ## Isolation -/

def Isolated (m : PfManager) : Prop :=
  ∀ c conn, m.conns c = some conn → ∀ effect ∈ conn.effects, effect.1 = conn.owner

/-- A message that names a connection, and asks to close it or has data for it, comes from
the agent of the forward. -/
def Authentic (m : PfManager) : PfEvent → Prop
  | .finish t => ∀ h ∈ m.handlers t, ∀ af ∈ m.objects h.forward,
      (af.conns h.payload.connId).isSome → h.payload.effect.isSome → af.fwd.agentId = h.sender
  | _ => True

structure Owned (m : PfManager) : Prop where
  unused : ∀ c, m.accepted ≤ c → m.conns c = none
  owner : ∀ i af, m.objects i = some af → ∀ connId c, af.conns connId = some c →
    ∃ conn, m.conns c = some conn ∧ conn.owner = af.fwd.agentId

theorem owned_empty : ({} : PfManager).Owned where
  unused _ _ := rfl
  owner _ _ h := by cases h

variable {m : PfManager}

theorem Owned.setObject (h : m.Owned) {i : Nat} {af : ActiveForward}
    (haf : ∀ connId c, af.conns connId = some c →
      ∃ conn, m.conns c = some conn ∧ conn.owner = af.fwd.agentId) : (m.setObject i af).Owned where
  unused := h.unused
  owner j other hj connId c hc := by
    simp only [PfManager.setObject, update_apply] at hj
    split at hj
    · obtain rfl := some.inj hj
      exact haf connId c hc
    · exact h.owner j other hj connId c hc

theorem Owned.tables (h : m.Owned) (forwards : String → Option Nat) (count : Nat)
    (handlers : Tid → Option PfHandler) :
    { m with forwards := forwards, count := count, handlers := handlers }.Owned :=
  ⟨h.unused, h.owner⟩

theorem Owned.closeConn (h : m.Owned) (i : Nat) (connId : String) :
    (m.closeConn i connId).Owned := by
  unfold PfManager.closeConn
  split
  · exact h
  · rename_i af haf
    refine h.setObject fun other c hc => ?_
    simp only [update_apply] at hc
    split at hc
    · cases hc
    · exact h.owner i af haf other c hc

/-- A new connection belongs to the agent of its forward. -/
theorem Owned.handleConn (h : m.Owned) (i : Nat) (connId : String) :
    (m.handleConn i connId).Owned := by
  unfold PfManager.handleConn
  split
  · exact h
  · rename_i af haf
    -- the connections there are keep their owners beside the new one
    have hkeep : ∀ {c : Nat} {conn : LocalConn}, m.conns c = some conn →
        Function.update m.conns m.accepted (some { owner := af.fwd.agentId }) c = some conn := by
      intro c conn hc
      have hne : c ≠ m.accepted := by
        rintro rfl
        rw [h.unused _ (Nat.le_refl _)] at hc
        cases hc
      rw [update_of_ne hne, hc]
    refine ⟨fun c hc => ?_, fun j other hj id c hc => ?_⟩
    · have hne : c ≠ m.accepted := Nat.ne_of_gt hc
      exact (update_of_ne hne _ _).trans (h.unused c (Nat.le_of_succ_le hc))
    · simp only [PfManager.setObject, update_apply m.objects] at hj
      split at hj
      · obtain rfl := some.inj hj
        simp only [update_apply af.conns] at hc
        split at hc
        · obtain rfl := some.inj hc
          exact ⟨_, update_self .., rfl⟩
        · obtain ⟨conn, hconn, howner⟩ := h.owner i af haf id c hc
          exact ⟨conn, hkeep hconn, howner⟩
      · obtain ⟨conn, hconn, howner⟩ := h.owner j other hj id c hc
        exact ⟨conn, hkeep hconn, howner⟩

theorem Owned.close (h : m.Owned) (id : String) : (m.close id).Owned := by
  unfold PfManager.close
  split
  · exact h
  · have htable := h.tables (Function.update m.forwards id none) m.count m.handlers
    dsimp only
    split
    · exact htable
    · exact htable.setObject fun _ _ hc => by cases hc

/-- What a message does to a connection leaves its owner alone. -/
theorem Owned.affect (h : m.Owned) (c : Nat) (sender : Id) (effect : PfEffect) :
    (m.affect c sender effect).Owned := by
  unfold PfManager.affect
  split
  · exact h
  · rename_i conn hconn
    refine ⟨fun d hd => ?_, fun i af haf connId d hd => ?_⟩
    · have hne : d ≠ c := by
        rintro rfl
        rw [h.unused d hd] at hconn
        cases hconn
      exact (update_of_ne hne _ _).trans (h.unused d hd)
    · obtain ⟨other, hother, howner⟩ := h.owner i af haf connId d hd
      by_cases hdc : d = c
      · subst hdc
        obtain rfl := some.inj (hconn.symm.trans hother)
        exact ⟨_, update_self .., howner⟩
      · exact ⟨other, (update_of_ne hdc _ _).trans hother, howner⟩

/-- One step keeps the connections of a forward with its agent. -/
theorem Owned.step (h : m.Owned) (e : PfEvent) : (m.step e).Owned := by
  cases e with
  | create f agent newID now =>
    exact (h.setObject fun _ _ hc => by cases hc).tables _ _ _
  | accept i connId => exact h.handleConn i connId
  | localClosed i connId => exact h.closeConn i connId
  | data t sender p =>
    simp only [PfManager.step, onData]
    split
    · exact h.tables _ _ _
    · exact h
  | finish t =>
    simp only [PfManager.step, PfManager.finish]
    split
    · exact h
    · have htable := h.tables m.forwards m.count (Function.update m.handlers t none)
      split
      · exact htable
      · exact (htable.affect _ _ _).closeConn _ _
      · exact htable.affect _ _ _
  | close id => exact h.close id

/-! ## What one step does to the connections -/

theorem conns_closeConn (m : PfManager) (i : Nat) (connId : String) :
    (m.closeConn i connId).conns = m.conns := by
  unfold closeConn
  split <;> rfl

theorem conns_close (m : PfManager) (id : String) : (m.close id).conns = m.conns := by
  unfold close
  split
  · rfl
  · dsimp only
    split <;> rfl

theorem conns_onData (m : PfManager) (t : Tid) (sender : Id) (p : PortForwardDataPayload) :
    (m.onData t sender p).conns = m.conns := by
  unfold onData
  split <;> rfl

/-- A finished handler leaves the connections alone, or does to the one that it reached
what its payload asks for. -/
theorem conns_finish (m : PfManager) (t : Tid) :
    (m.finish t).conns = m.conns ∧ (∀ h ∈ m.handlers t, m.reached h = none) ∨
      ∃ h c effect, m.handlers t = some h ∧ m.reached h = some (c, effect) ∧
        (m.finish t).conns = (m.affect c h.sender effect).conns := by
  cases ht : m.handlers t with
  | none => exact .inl ⟨by simp [finish, ht], by simp⟩
  | some h =>
    have haffect : ∀ c effect, ({ m with
        handlers := Function.update m.handlers t none } : PfManager).affect c h.sender effect =
          { m.affect c h.sender effect with
            handlers := Function.update m.handlers t none } := by
      intro c effect
      simp only [affect]
      split <;> rfl
    have hreached : ({ m with
        handlers := Function.update m.handlers t none } : PfManager).reached h =
          m.reached h := rfl
    cases hr : m.reached h with
    | none =>
      refine .inl ⟨?_, by simp [hr]⟩
      simp only [finish, ht, hreached, hr]
    | some target =>
      obtain ⟨c, effect⟩ := target
      refine .inr ⟨h, c, effect, rfl, hr, ?_⟩
      cases effect with
      | closed => simp only [finish, ht, hreached, hr, conns_closeConn, haffect]
      | wrote data => simp only [finish, ht, hreached, hr, haffect]

theorem isolated_congr {m n : PfManager} (h : m.conns = n.conns) : m.Isolated ↔ n.Isolated := by
  unfold Isolated
  rw [h]

theorem Isolated.handleConn (h : m.Isolated) (i : Nat) (connId : String) :
    (m.handleConn i connId).Isolated := by
  unfold PfManager.handleConn
  split
  · exact h
  · intro c conn hc
    simp only [PfManager.setObject, update_apply m.conns] at hc
    split at hc
    · obtain rfl := some.inj hc
      simp
    · exact h c conn hc

theorem isolated_affect_iff (h : m.Isolated) {c : Nat} {conn : LocalConn}
    (hc : m.conns c = some conn) (sender : Id) (effect : PfEffect) :
    (m.affect c sender effect).Isolated ↔ conn.owner = sender := by
  have hconns : (m.affect c sender effect).conns = Function.update m.conns c
      (some { conn with effects := conn.effects ++ [(sender, effect)] }) := by
    simp only [affect, hc]
  unfold Isolated
  rw [hconns]
  constructor
  · intro hall
    exact (hall c _ (update_self ..) (sender, effect) (by simp)).symm
  · rintro rfl d other hd
    rw [update_apply] at hd
    split at hd
    · obtain rfl := some.inj hd
      intro e he
      rcases mem_append.mp he with he | he
      · exact h c conn hc e he
      · obtain rfl := mem_singleton.mp he
        rfl
    · exact h d other hd

theorem reached_eq_some {h : PfHandler} {c : Nat} {effect : PfEffect}
    (hr : m.reached h = some (c, effect)) :
    ∃ af, m.objects h.forward = some af ∧ h.payload.effect = some effect ∧
      af.conns h.payload.connId = some c := by
  simp only [reached, bind_eq_bind, bind_eq_some_iff, Option.pure_def,
    Option.some.injEq, Prod.mk.injEq] at hr
  obtain ⟨af, haf, e, he, d, hd, rfl, rfl⟩ := hr
  exact ⟨af, haf, he, hd⟩

theorem reached_eq_none {h : PfHandler} (hr : m.reached h = none) {af : ActiveForward}
    (haf : m.objects h.forward = some af) (hc : (af.conns h.payload.connId).isSome) :
    ¬ h.payload.effect.isSome := by
  intro he
  obtain ⟨c, hc⟩ := isSome_iff_exists.mp hc
  obtain ⟨effect, he⟩ := isSome_iff_exists.mp he
  simp [reached, haf, hc, he] at hr

theorem isolated_step_iff (howned : m.Owned) (h : m.Isolated) (e : PfEvent) :
    (m.step e).Isolated ↔ m.Authentic e := by
  cases e with
  | create f agent newID now => exact iff_of_true h trivial
  | accept i connId => exact iff_of_true (h.handleConn i connId) trivial
  | localClosed i connId =>
    exact iff_of_true ((isolated_congr (conns_closeConn m i connId)).mpr h) trivial
  | data t sender p =>
    exact iff_of_true ((isolated_congr (conns_onData m t sender p)).mpr h) trivial
  | close id => exact iff_of_true ((isolated_congr (conns_close m id)).mpr h) trivial
  | finish t =>
    rcases conns_finish m t with ⟨hconns, hnone⟩ | ⟨handler, c, effect, ht, hr, hconns⟩
    · refine iff_of_true ((isolated_congr hconns).mpr h) fun handler hh af haf hc he => ?_
      exact absurd he (reached_eq_none (hnone handler hh) haf hc)
    · obtain ⟨af, haf, heffect, hc⟩ := reached_eq_some hr
      obtain ⟨conn, hconn, howner⟩ := howned.owner _ af haf _ c hc
      have hiff : (m.step (.finish t)).Isolated ↔ conn.owner = handler.sender :=
        (isolated_congr hconns).trans (isolated_affect_iff h hconn _ _)
      rw [hiff, howner]
      simp only [Authentic, mem_def, ht, Option.some.injEq]
      constructor
      · rintro hsender _ rfl other hother - -
        obtain rfl := some.inj (haf.symm.trans hother)
        exact hsender
      · intro hall
        exact hall handler rfl af haf (by rw [hc]; rfl) (by rw [heffect]; rfl)

/-- In a run, no connection is written to or closed by a message of another agent than its
forward's if and only if every message that reaches a connection comes from the agent of the
forward it names. -/
theorem forwards_isolated_iff (es : List PfEvent) :
    Throughout step Isolated {} es ↔ Along step Authentic {} es := by
  have howned : ∀ m e, Owned m → Owned (step m e) := fun _ e h => h.step e
  have hstep : ∀ m e, Owned m → Isolated m → (Isolated (step m e) ↔ Authentic m e) :=
    fun _ e howned h => isolated_step_iff howned h e
  exact throughout_iff_along_of_invariant howned hstep owned_empty fun _ _ h => by cases h

/-- An agent that closes another agent's connection. -/
theorem foreign_message_closes :
    let es : List PfEvent := [
      .create { agentId := "a", targetPort := 8080, localPort := 80 } 0 "pf-1" 0, .accept 0 "c-1",
      .data 0 "b" { forwardId := "pf-1", connId := "c-1", closed := true }, .finish 0]
    let m := exec step {} es
    (m.conns 0).map LocalConn.owner = some "a" ∧
      (m.conns 0).map LocalConn.effects = some [("b", .closed)] ∧ ¬ m.Isolated := by
  intro es m
  have hconn : m.conns 0 = some { owner := "a", effects := [("b", .closed)] } := by
    rfl
  refine ⟨congrArg _ hconn, congrArg _ hconn, fun h => ?_⟩
  exact absurd (h 0 _ hconn ("b", .closed) (by simp)) (by decide)

end PfManager

end CtForge.Server
