import CtForge.Lib.CLang
import CtForge.Server.Requests

/-!
# The channels of a connection (`agentconn.go`)

`OpenTerm` registers an output channel under a session ID and returns it once its message
is sent; `Request` registers a reply channel under a message ID. The goroutine that reads
the connection looks a channel up, deletes its entry if nothing may follow, and then sends
to the channel or closes it. The calls on the connection come in between.
-/

namespace CtForge.Server.TermChannels

open CLang Runs Requests Function

/-! ## Output channels -/

/-- What the `OpenTerm` that made a channel has done. -/
inductive Opening where
  | unused | sending | returned | failed
  deriving DecidableEq

structure TermChan where
  sid : String := ""
  queue : List Bytes := []
  closed : Bool := false
  opening : Opening := .unused
  /-- The chunks of the session for which `deliverTermOutput` found the channel. -/
  delivered : List Bytes := []
  received : List Bytes := []

/-- Nothing is lost between what was delivered and what the consumer received or still
finds in the channel. -/
def TermChan.Whole (c : TermChan) : Prop := c.received ++ c.queue = c.delivered

/-- The terminals of a connection. The channels are numbered in the order of their creation. -/
structure Terms where
  term : String → Option Nat := fun _ => none
  chans : Nat → TermChan := fun _ => {}
  count : Nat := 0
  /-- The channel that `deliverTermOutput` looked up, and what it has for it. -/
  hand : Option (Nat × Bytes × Bool) := none
  serving : Bool := true
  fault : Bool := false

inductive TermEvent where
  | openTerm (sid : String)
  /-- `SendNoWait` of the `OpenTerm` that made the channel returns. -/
  | opened (k : Nat) (ok : Bool)
  | closeTerm (sid : String)
  | output (sid : String) (data : Bytes) (closed : Bool)
  /-- The rest of `deliverTermOutput`. -/
  | deliver
  | receive (k : Nat)
  /-- `Decode` fails and `Handle` returns. -/
  | hangUp

namespace Terms

def setChan (s : Terms) (k : Nat) (f : TermChan → TermChan) : Terms :=
  { s with chans := update s.chans k (f (s.chans k)) }

def forget (s : Terms) (sid : String) : Terms := { s with term := update s.term sid none }

def capacity : Nat := 64

def step (s : Terms) : TermEvent → Terms
  | .openTerm sid =>
    { s with
      term := update s.term sid (some s.count)
      chans := update s.chans s.count { sid := sid, opening := .sending }
      count := s.count + 1 }
  | .opened k ok =>
    if (s.chans k).opening ≠ .sending then s
    else if ok then s.setChan k fun c => { c with opening := .returned }
    else (s.forget (s.chans k).sid).setChan k fun c => { c with opening := .failed }
  | .closeTerm sid => s.forget sid
  | .output sid data closed =>
    match s.hand, s.term sid with
    | none, some k =>
      if s.serving then
        { s with
          term := if closed then update s.term sid none else s.term
          hand := some (k, data, closed) }
      else s
    | _, _ => s
  | .deliver =>
    match s.hand with
    | none => s
    | some (k, data, closed) =>
      { s with fault := s.fault || (s.chans k).closed, hand := none }.setChan k fun c => { c with
        queue := if c.queue.length < capacity then c.queue ++ [data] else c.queue
        delivered := c.delivered ++ [data]
        closed := c.closed || closed }
  | .receive k =>
    s.setChan k fun c => { c with queue := c.queue.tail, received := c.received ++ c.queue.take 1 }
  | .hangUp => if s.hand = none then { s with serving := false } else s

structure Sound (s : Terms) : Prop where
  quiet : s.fault = false
  registered : ∀ sid k, s.term sid = some k →
    k < s.count ∧ (s.chans k).sid = sid ∧ (s.chans k).closed = false
  hand : ∀ k data closed, s.hand = some (k, data, closed) →
    k < s.count ∧ (s.chans k).closed = false ∧ (closed → ∀ sid, s.term sid ≠ some k)

variable {s : Terms}

theorem Sound.step (h : s.Sound) (e : TermEvent) : (s.step e).Sound := by
  obtain ⟨hquiet, hregistered, hhand⟩ := h
  cases e with
  | output sid data closed =>
    simp only [Terms.step]
    split
    · split
      · cases closed <;> constructor <;> grind
      · exact ⟨hquiet, hregistered, hhand⟩
    · exact ⟨hquiet, hregistered, hhand⟩
  | deliver =>
    simp only [Terms.step, setChan]
    split <;> constructor <;> grind
  | opened k ok =>
    simp only [Terms.step, setChan, forget]
    split_ifs <;> constructor <;> grind
  | hangUp =>
    simp only [Terms.step]
    split <;> exact ⟨hquiet, hregistered, hhand⟩
  | openTerm sid | closeTerm sid | receive k =>
    simp only [Terms.step, setChan, forget]
    constructor <;> grind

/-! ## Loss -/

/-- The channel is closed or registered on a connection that is being served, or it is
about to be closed. -/
def Safe (s : Terms) (k : Nat) : Prop :=
  (s.chans k).closed = true ∨ s.serving = true ∧ s.term (s.chans k).sid = some k ∨
    ∃ data, s.hand = some (k, data, true)

def Held (s : Terms) : Prop := ∀ k, (s.chans k).opening = .returned → s.Safe k

/-- No consumer has the channel that is registered for the session. -/
def Free (s : Terms) (sid : String) : Prop :=
  ∀ k, s.term sid = some k → (s.chans k).opening ≠ .returned

def Orderly (s : Terms) : TermEvent → Prop
  | .openTerm sid | .closeTerm sid => s.Free sid
  | .opened k ok => (s.chans k).opening = .sending →
      if ok then s.Safe k else s.Free (s.chans k).sid
  | .hangUp => s.hand = none → ∀ sid, s.Free sid
  | _ => True

theorem held_step_iff (hs : s.Sound) (h : s.Held) (e : TermEvent) :
    (s.step e).Held ↔ s.Orderly e := by
  obtain ⟨-, hregistered, hhand⟩ := hs
  cases e with
  | openTerm sid | closeTerm sid =>
    simp only [Held, Safe, Orderly, Free, step, forget] at h ⊢
    constructor <;> grind
  | opened k ok =>
    simp only [Held, Safe, Orderly, Free, step, forget, setChan] at h ⊢
    cases ok <;> split <;> constructor <;> grind
  | output sid data closed =>
    refine iff_of_true ?_ trivial
    simp only [Held, Safe, step] at h ⊢
    split
    · split
      -- A channel that loses its entry here is the one in hand.
      · cases closed <;> simp <;> grind
      · exact h
    · exact h
  | deliver =>
    refine iff_of_true ?_ trivial
    simp only [Held, Safe, step, setChan] at h ⊢
    split <;> grind
  | receive k =>
    refine iff_of_true ?_ trivial
    simp only [Held, Safe, step, setChan] at h ⊢
    grind
  | hangUp =>
    simp only [Held, Safe, Orderly, Free, step] at h ⊢
    split <;> constructor <;> grind

/-- Every channel that `OpenTerm` returned can still be closed exactly if each stays registered
until the agent closes its session. -/
theorem consumers_held_iff (es : List TermEvent) :
    Throughout step Held {} es ↔ Along step Orderly {} es :=
  throughout_iff_along_of_invariant (fun _ e h => h.step e) (fun _ e hs h => held_step_iff hs h e)
    ⟨rfl, by simp, by simp⟩ fun k h => by cases h

/-- `CloseTerm` forgets the channel and does not close it. -/
theorem closed_terminal_waits :
    ¬ Throughout step Held {} [.openTerm "s", .opened 0 true, .closeTerm "s"] := by
  intro h
  rcases h.last 0 rfl with hclosed | ⟨-, hget⟩ | ⟨data, hhand⟩
  · cases hclosed
  · cases hget
  · cases hhand

end Terms

/-! ## Messages of the agent -/

/-- A connection; `sent` counts the messages that the reader sent to a reply channel. -/
structure Conn where
  terms : Terms := {}
  link : Link := {}
  sent : Nat → Nat := fun _ => 0

inductive ConnEvent where
  | term (e : TermEvent)
  | request (e : LinkEvent)
  /-- The agent sends a reply with any ID. -/
  | reply (a : Answer)

/-- The count after an event. -/
def counted (s : Link) (sent : Nat → Nat) : LinkEvent → Nat → Nat
  | .send => s.sending.elim sent fun item => update sent item.1 (sent item.1 + 1)
  | _ => sent

/-- That the reader has one channel in hand at a time is not used. -/
def Conn.step (c : Conn) : ConnEvent → Conn
  | .term e => { c with terms := c.terms.step e }
  | .request e => { c with link := c.link.step e, sent := counted c.link c.sent e }
  | .reply a => { c with link.replies := c.link.replies ++ [a] }

/-- No channel that the reader may still find, or has in hand, was sent a message. -/
structure Once (s : Link) (sent : Nat → Nat) : Prop where
  found : ∀ id k, s.pending id = some k → sent k = 0 ∧ ∀ a, s.sending ≠ some (k, a)
  unused : ∀ k, (s.calls k).begun = false → sent k = 0 ∧ ∀ a, s.sending ≠ some (k, a)
  sending : ∀ k a, s.sending = some (k, a) → sent k = 0
  empty : ∀ k, sent k = 0 → s.chans k = none
  once : ∀ k, sent k ≤ 1

section

variable {s : Link} {sent : Nat → Nat}

theorem Once.of_quiet (h : Once s sent) {t : Link}
    (hpending : ∀ id k, t.pending id = some k → s.pending id = some k ∨ (s.calls k).begun = false)
    (hcalls : ∀ k, (t.calls k).begun = false → (s.calls k).begun = false)
    (hsending : t.sending = s.sending) (hchans : ∀ k, s.chans k = none → t.chans k = none) :
    Once t sent where
  found id k hk := hsending ▸ (hpending id k hk).elim (h.found id k) (h.unused k)
  unused k hk := hsending ▸ h.unused k (hcalls k hk)
  sending k a hk := h.sending k a (hsending ▸ hk)
  empty k hk := hchans k (h.empty k hk)
  once := h.once

theorem Once.load (h : Once s sent) (hheld : Held s) : Once (s.step .load) sent := by
  simp only [Link.step, Link.loadAndDelete, Link.setPending]
  split
  · split
    · obtain ⟨hfound, hunused, hsending, hempty, honce⟩ := h
      have hown := fun id k => hheld id k
      have hbegun : ∀ call : Call, call.begun = false → call.held = none := by
        rintro (_ | _ | _ | _ | _ | _) <;> simp [Call.begun, Call.held]
      constructor <;> grind [update_apply]
    · exact ⟨h.found, h.unused, h.sending, h.empty, h.once⟩
  · exact h

theorem Once.step (h : Once s sent) (hheld : Held s) (e : LinkEvent) :
    Once (s.step e) (counted s sent e) := by
  cases e with
  | load => exact h.load hheld
  | send =>
    rcases hs : s.sending with _ | ⟨k, a⟩
    · simpa [Link.step, counted, hs] using h
    · obtain ⟨hfound, hunused, hsending, hempty, honce⟩ := h
      have hk := hempty k (hsending k a hs)
      simp only [Link.step, counted, hs, hk, Link.setChan, Option.elim_some]
      constructor <;> grind [update_apply]
  | _ =>
    simp only [Link.step, Link.goto, Link.setPending, Link.setChan, counted]
    split
    · apply h.of_quiet <;> grind [update_apply, Call.begun]
    · exact h

end

/-- No message of the agent makes the reader send on a closed channel or close one twice, and no
reply makes it wait: the channel is empty, and it is sent one message at most. -/
theorem dispatch_never_faults (es : List ConnEvent) :
    let c := exec Conn.step {} es
    c.terms.fault = false ∧ (∀ k, c.sent k ≤ 1) ∧
      ∀ k a, c.link.sending = some (k, a) → c.link.chans k = none := by
  have hrun : (exec Conn.step {} es).terms.Sound ∧ Held (exec Conn.step {} es).link ∧
      Once (exec Conn.step {} es).link (exec Conn.step {} es).sent := by
    refine exec_of_invariant (I := fun c : Conn => c.terms.Sound ∧ Held c.link ∧ Once c.link c.sent)
      (C := fun _ _ => True) (fun c e ⟨hterms, hheld, honce⟩ _ => ?_)
      ⟨⟨rfl, by simp, by simp⟩, by simp [Held], by simp, by simp, by simp, by simp, by simp⟩
      (along_of_forall fun _ _ _ => trivial)
    cases e with
    | term e => exact ⟨hterms.step e, hheld, honce⟩
    | request e => exact ⟨hterms, hheld.step e, honce.step hheld e⟩
    | reply a => exact ⟨hterms, hheld, honce.1, honce.2, honce.3, honce.4, honce.5⟩
  obtain ⟨hterms, -, honce⟩ := hrun
  exact ⟨hterms.quiet, honce.once, fun k a hk => honce.empty k (honce.sending k a hk)⟩

end CtForge.Server.TermChannels
