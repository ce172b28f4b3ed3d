import CtForge.Lib.Runs

/-!
# Requests to an agent and their replies (`agentconn.go`)

`Request` takes an ID from the clock, stores a channel under it in `pending`, writes the
message and waits for the channel or its timeout; when it returns, it deletes the entry of
its ID. The goroutine that serves the connection reads the replies: it loads and deletes
the entry of a reply's ID and sends the reply to the channel it found.

`Link` is one connection, with the calls of `Request` on it numbered. The agent answers
any request it read, whenever it likes. One step is one operation on `pending`, a channel,
the connection or the clock.
-/

namespace CtForge.Server

open CtForge.Runs List Function Option

namespace Requests

/-- `fmt.Sprintf("req-%d", time.Now().UnixNano())`. -/
def reqId (clock : Int) : String := "req-" ++ toString clock

inductive AnswerType where
  | ack
  | error
  | taskResult
  deriving DecidableEq, Repr

/-- A reply of the agent; `origin` is the call whose request it answers. -/
structure Answer where
  origin : Nat
  id : String
  type : AnswerType
  payload : String
  deriving DecidableEq, Repr

/-- How a call ends: with the message it received, which may be an error, or without. -/
inductive Outcome where
  | received (a : Answer)
  | writeFailed
  | timedOut
  deriving DecidableEq, Repr

/-- Where a call of `Request` stands: it has its ID, has stored its channel, waits in the
`select`, has its deferred `Delete` ahead, or has returned. -/
inductive Call where
  | idle
  | named (id : String)
  | stored (id : String)
  | waiting (id : String)
  | leaving (id : String) (o : Outcome)
  | returned (id : String) (o : Outcome)
  deriving DecidableEq, Repr

structure Link where
  calls : Nat → Call := fun _ => .idle
  pending : String → Option Nat := fun _ => none
  chans : Nat → Option Answer := fun _ => none
  written : List (Nat × String) := []
  replies : List Answer := []
  /-- The channel that `dispatch` loaded, and the reply it has yet to send to it. -/
  sending : Option (Nat × Answer) := none
  readings : List Int := []

inductive LinkEvent where
  | call (k : Nat) (clock : Int)
  | store (k : Nat)
  | transmit (k : Nat)
  /-- `write` returns. -/
  | write (k : Nat) (ok : Bool)
  /-- The agent answers the request at a position of `written`. -/
  | answer (i : Nat) (type : AnswerType) (payload : String)
  /-- `LoadAndDelete` for the next reply. -/
  | load
  | send
  | receive (k : Nat)
  | timeout (k : Nat)
  | delete (k : Nat)

namespace Link

def goto (s : Link) (k : Nat) (c : Call) : Link := { s with calls := Function.update s.calls k c }

def setPending (s : Link) (id : String) (entry : Option Nat) : Link :=
  { s with pending := Function.update s.pending id entry }

def setChan (s : Link) (k : Nat) (a : Option Answer) : Link :=
  { s with chans := Function.update s.chans k a }

/-- `LoadAndDelete(a.ID)`, and what comes after. -/
def loadAndDelete (s : Link) (a : Answer) : Link :=
  match s.pending a.id with
  | some k => { s.setPending a.id none with sending := some (k, a) }
  | none => s

def step (s : Link) : LinkEvent → Link
  | .call k clock =>
    match s.calls k with
    | .idle => { s.goto k (.named (reqId clock)) with readings := clock :: s.readings }
    | _ => s
  | .store k =>
    match s.calls k with
    | .named id => (s.goto k (.stored id)).setPending id (some k)
    | _ => s
  | .transmit k =>
    match s.calls k with
    | .stored id => { s with written := s.written ++ [(k, id)] }
    | _ => s
  | .write k ok =>
    match s.calls k with
    | .stored id => s.goto k (if ok then .waiting id else .leaving id .writeFailed)
    | _ => s
  | .answer i type payload =>
    match s.written[i]? with
    | some (k, id) => { s with replies := s.replies ++ [⟨k, id, type, payload⟩] }
    | none => s
  | .load =>
    match s.sending, s.replies with
    | none, a :: rest => { s with replies := rest }.loadAndDelete a
    | _, _ => s
  | .send =>
    match s.sending with
    | some (k, a) =>
      match s.chans k with
      | none => { s.setChan k (some a) with sending := none }
      | some _ => s
    | none => s
  | .receive k =>
    match s.calls k, s.chans k with
    | .waiting id, some a => (s.goto k (.leaving id (.received a))).setChan k none
    | _, _ => s
  | .timeout k =>
    match s.calls k with
    | .waiting id => s.goto k (.leaving id .timedOut)
    | _ => s
  | .delete k =>
    match s.calls k with
    | .leaving id o => (s.goto k (.returned id o)).setPending id none
    | _ => s

end Link

/-! ## What is to hold -/

def Call.received : Call → Option Answer
  | .leaving _ (.received a) | .returned _ (.received a) => some a
  | _ => none

def Call.awaits : Call → Bool
  | .stored _ | .waiting _ => true
  | _ => false

/-- Every call has its own reply, and a loaded channel has room. -/
structure Matched (s : Link) : Prop where
  received : ∀ k a, (s.calls k).received = some a → a.origin = k
  room : ∀ k a, s.sending = some (k, a) → a.origin = k ∧ s.chans k = none

/-- The next reply goes to its request, if that still waits and nothing came for it. -/
def Kept (s : Link) : LinkEvent → Prop
  | .load => ∀ a rest, s.sending = none → s.replies = a :: rest →
      (s.calls a.origin).awaits = true → s.chans a.origin = none →
      (s.step .load).sending = some (a.origin, a)
  | _ => True

def FreshReading (s : Link) : LinkEvent → Prop
  | .call _ clock => clock ∉ s.readings
  | _ => True

/-! ## IDs -/

theorem minus_not_mem_repr (n : Nat) : '-' ∉ n.repr.toList := by
  rw [Nat.toList_repr]
  intro h
  exact absurd (Nat.isDigit_of_mem_toDigits (by decide) (by decide) h) (by decide)

theorem repr_injective {a b : Nat} (h : a.repr.toList = b.repr.toList) : a = b := by
  rw [Nat.toList_repr, Nat.toList_repr] at h
  have hparsed := congrArg (fun digits => Nat.ofDigitChars 10 digits 0) h
  simpa using hparsed

theorem reqId_injective {a b : Int} (h : reqId a = reqId b) : a = b := by
  have htext : (toString a).toList = (toString b).toList := by
    have hlists := congrArg String.toList h
    rwa [reqId, reqId, String.toList_append, String.toList_append,
      append_cancel_left_eq] at hlists
  have hneg : ∀ n : Nat, (toString (Int.negSucc n)).toList = '-' :: (n + 1).repr.toList :=
    fun n => String.toList_append
  cases a with
  | ofNat m =>
    cases b with
    | ofNat n => exact congrArg Int.ofNat (repr_injective htext)
    | negSucc n =>
      refine absurd ?_ (minus_not_mem_repr m)
      rw [show m.repr.toList = (toString (Int.ofNat m)).toList from rfl, htext, hneg]
      exact mem_cons_self
  | negSucc m =>
    cases b with
    | ofNat n =>
      refine absurd ?_ (minus_not_mem_repr n)
      rw [show n.repr.toList = (toString (Int.ofNat n)).toList from rfl, ← htext, hneg]
      exact mem_cons_self
    | negSucc n =>
      rw [hneg, hneg, List.cons.injEq] at htext
      exact congrArg Int.negSucc (Nat.succ_inj.mp (repr_injective htext.2))

/-! ## The invariant -/

def Call.id : Call → Option String
  | .idle => none
  | .named id | .stored id | .waiting id | .leaving id _ | .returned id _ => some id

def Call.begun : Call → Bool
  | .idle | .named _ => false
  | _ => true

/-- Nothing is on its way to the channel of `k`, and nothing is in it. -/
def Link.Empty (s : Link) (k : Nat) : Prop := s.chans k = none ∧ ∀ a, s.sending ≠ some (k, a)

structure Inv (s : Link) : Prop extends Matched s where
  named : ∀ k id, (s.calls k).id = some id → ∃ clock ∈ s.readings, reqId clock = id
  distinct : ∀ j k id, (s.calls j).id = some id → (s.calls k).id = some id → j = k
  pending : ∀ id k, s.pending id = some k →
    (s.calls k).id = some id ∧ (s.calls k).begun = true ∧ s.Empty k
  written : ∀ k id, (k, id) ∈ s.written → (s.calls k).id = some id
  replies : ∀ a ∈ s.replies, (s.calls a.origin).id = some a.id
  chan : ∀ k a, s.chans k = some a → a.origin = k
  unused : ∀ k, (s.calls k).begun = false → s.Empty k
  awaited : ∀ k id, (s.calls k).id = some id → (s.calls k).awaits = true → s.Empty k →
    s.pending id = some k

theorem start_inv : Inv {} where
  received := by simp [Call.received]
  room := by simp
  named := by simp [Call.id]
  distinct := by simp [Call.id]
  pending := by simp
  written := by simp
  replies := by simp
  chan := by simp
  unused := by simp [Link.Empty]
  awaited := by simp [Call.id]

section Steps

variable {s : Link} {k : Nat} {id : String}

theorem goto_calls (s : Link) (k j : Nat) (c : Call) :
    (s.goto k c).calls j = if j = k then c else s.calls j := update_apply ..

theorem goto_id (hid : (s.calls k).id = some id) {c : Call} (hc : c.id = some id) (j : Nat) :
    ((s.goto k c).calls j).id = (s.calls j).id := by
  rw [goto_calls]
  split
  · rename_i hj
    rw [hj, hid, hc]
  · rfl

theorem Inv.goto (h : Inv s) {c : Call} (hid : (s.calls k).id = some id) (hc : c.id = some id)
    (hbegun : c.begun = true) (hreceived : ∀ a, c.received = some a → a.origin = k)
    (hawaits : c.awaits = true → (s.calls k).awaits = true) : Inv (s.goto k c) := by
  have hids := goto_id hid hc
  constructor
  · constructor
    · intro j a ha
      rw [goto_calls] at ha
      split at ha
      · rename_i hj
        exact hj ▸ hreceived a ha
      · exact h.received j a ha
    · exact h.room
  · intro j key hj
    exact h.named j key (hids j ▸ hj)
  · intro i j key hi hj
    exact h.distinct i j key (hids i ▸ hi) (hids j ▸ hj)
  · intro key j hj
    obtain ⟨hjid, hjbegun, hempty⟩ := h.pending key j hj
    refine ⟨hids j ▸ hjid, ?_, hempty⟩
    rw [goto_calls]
    split
    · exact hbegun
    · exact hjbegun
  · intro j key hj
    rw [hids]
    exact h.written j key hj
  · intro a ha
    rw [hids]
    exact h.replies a ha
  · exact h.chan
  · intro j hj
    rw [goto_calls] at hj
    split at hj
    · rw [hbegun] at hj
      cases hj
    · exact h.unused j hj
  · intro j key hj haw hempty
    rw [hids] at hj
    rw [goto_calls] at haw
    split at haw
    · rename_i hjk
      exact h.awaited j key hj (hjk ▸ hawaits haw) hempty
    · exact h.awaited j key hj haw hempty

/-- Entering a call into `pending` keeps the invariant. -/
theorem Inv.store (h : Inv s) (hcall : s.calls k = .named id) :
    Inv ((s.goto k (.stored id)).setPending id (some k)) := by
  have hid : (s.calls k).id = some id := by
    rw [hcall]
    rfl
  have hids := goto_id hid (c := .stored id) rfl
  constructor
  · constructor
    · intro j a ha
      simp only [Link.setPending, goto_calls] at ha
      split at ha
      · cases ha
      · exact h.received j a ha
    · exact h.room
  · intro j key hj
    exact h.named j key (hids j ▸ hj)
  · intro i j key hi hj
    exact h.distinct i j key (hids i ▸ hi) (hids j ▸ hj)
  · intro key j hj
    simp only [Link.setPending, update_apply] at hj ⊢
    rw [hids]
    split at hj
    · rename_i hkey
      obtain rfl := some.inj hj
      refine ⟨hkey ▸ hid, ?_, h.unused k (by rw [hcall]; rfl)⟩
      rw [goto_calls, if_pos rfl]
      rfl
    · obtain ⟨hjid, hjbegun, hempty⟩ := h.pending key j hj
      refine ⟨hjid, ?_, hempty⟩
      rw [goto_calls]
      split
      · rfl
      · exact hjbegun
  · intro j key hj
    exact (hids j).trans (h.written j key hj)
  · intro a ha
    exact (hids a.origin).trans (h.replies a ha)
  · exact h.chan
  · intro j hj
    simp only [Link.setPending, goto_calls] at hj
    split at hj
    · cases hj
    · exact h.unused j hj
  · intro j key hj haw hempty
    simp only [Link.setPending, goto_calls, update_apply] at hj haw ⊢
    split at haw
    · rename_i hjk
      rw [if_pos hjk] at hj
      rw [if_pos (some.inj hj).symm, hjk]
    · rename_i hjk
      rw [if_neg hjk] at hj
      rw [if_neg fun hkey : key = id => hjk (h.distinct j k id (hkey ▸ hj) hid)]
      exact h.awaited j key hj haw hempty

theorem Inv.clearPending (h : Inv s)
    (hid : ∀ k, (s.calls k).id = some id → (s.calls k).awaits = true → ¬ s.Empty k) :
    Inv (s.setPending id none) := by
  refine { h with pending := ?_, awaited := ?_ }
  · intro key j hj
    simp only [Link.setPending, update_apply] at hj
    split at hj
    · cases hj
    · exact h.pending key j hj
  · intro j key hj haw hempty
    simp only [Link.setPending, update_apply]
    split
    · rename_i hkey
      exact absurd hempty (hid j (hkey ▸ hj) haw)
    · exact h.awaited j key hj haw hempty

/-- A call with a new reading of the clock has an ID of its own. -/
theorem Inv.call (h : Inv s) (hidle : s.calls k = .idle) {clock : Int}
    (hfresh : clock ∉ s.readings) :
    Inv { s.goto k (.named (reqId clock)) with readings := clock :: s.readings } := by
  -- a call that has an ID is another one, and its ID is another
  have hother : ∀ {j key}, ((s.goto k (.named (reqId clock))).calls j).id = some key →
      j = k ∧ key = reqId clock ∨ (s.calls j).id = some key ∧ key ≠ reqId clock := by
    intro j key hj
    rw [goto_calls] at hj
    split at hj
    · exact .inl ⟨‹_›, (some.inj hj).symm⟩
    · refine .inr ⟨hj, ?_⟩
      rintro rfl
      obtain ⟨c, hc, hceq⟩ := h.named j _ hj
      exact hfresh (reqId_injective hceq ▸ hc)
  have hids : ∀ {j key}, (s.calls j).id = some key →
      ((s.goto k (.named (reqId clock))).calls j).id = some key := by
    intro j key hj
    rw [goto_calls]
    split
    · rename_i hjk
      rw [hjk, hidle] at hj
      cases hj
    · exact hj
  refine { h with
    received := ?_
    named := ?_
    distinct := ?_
    pending := ?_
    written := ?_
    replies := ?_
    unused := ?_
    awaited := ?_ }
  · intro j a ha
    simp only [goto_calls] at ha
    split at ha
    · cases ha
    · exact h.received j a ha
  · intro j key hj
    obtain ⟨-, rfl⟩ | ⟨hj, -⟩ := hother hj
    · exact ⟨clock, mem_cons_self, rfl⟩
    · obtain ⟨c, hc, hceq⟩ := h.named j key hj
      exact ⟨c, mem_cons_of_mem clock hc, hceq⟩
  · intro i j key hi hj
    obtain ⟨rfl, rfl⟩ | ⟨hi, hikey⟩ := hother hi
    · obtain ⟨rfl, -⟩ | ⟨-, hne⟩ := hother hj
      · rfl
      · exact absurd rfl hne
    · obtain ⟨-, rfl⟩ | ⟨hj, -⟩ := hother hj
      · exact absurd rfl hikey
      · exact h.distinct i j key hi hj
  · intro key j hj
    obtain ⟨hid, hbegun, hempty⟩ := h.pending key j hj
    refine ⟨hids hid, ?_, hempty⟩
    simp only [goto_calls]
    split
    · rename_i hjk
      rw [hjk, hidle] at hbegun
      cases hbegun
    · exact hbegun
  · intro j key hj
    exact hids (h.written j key hj)
  · intro a ha
    exact hids (h.replies a ha)
  · intro j hj
    simp only [goto_calls] at hj
    split at hj
    · rename_i hjk
      exact h.unused j (by rw [hjk, hidle]; rfl)
    · exact h.unused j hj
  · intro j key hj haw hempty
    simp only [goto_calls] at haw
    split at haw
    · cases haw
    · rename_i hjk
      obtain ⟨hj', -⟩ | ⟨hj, -⟩ := hother hj
      · exact absurd hj' hjk
      · exact h.awaited j key hj haw hempty

theorem Inv.transmit (h : Inv s) (hcall : s.calls k = .stored id) :
    Inv { s with written := s.written ++ [(k, id)] } := by
  refine { h with written := ?_ }
  intro j key hj
  obtain hj | hj := mem_append.mp hj
  · exact h.written j key hj
  · cases mem_singleton.mp hj
    rw [hcall]
    rfl

theorem Inv.answer (h : Inv s) (hwritten : (k, id) ∈ s.written) (type : AnswerType)
    (payload : String) : Inv { s with replies := s.replies ++ [⟨k, id, type, payload⟩] } := by
  refine { h with replies := ?_ }
  intro a ha
  obtain ha | ha := mem_append.mp ha
  · exact h.replies a ha
  · cases mem_singleton.mp ha
    exact h.written k id hwritten

variable {a : Answer}

theorem Inv.origin_of_pending (h : Inv s) (ha : a ∈ s.replies) (hpend : s.pending a.id = some k) :
    a.origin = k :=
  h.distinct a.origin k a.id (h.replies a ha) (h.pending a.id k hpend).1

/-- A reply finds the entry of its own call, and takes it out. -/
theorem Inv.load (h : Inv s) {rest : List Answer} (hreplies : s.replies = a :: rest)
    (hfree : s.sending = none) : Inv ({ s with replies := rest }.loadAndDelete a) := by
  have hrest : Inv { s with replies := rest } := by
    refine { h with replies := ?_ }
    intro b hb
    exact h.replies b (hreplies ▸ mem_cons_of_mem a hb)
  unfold Link.loadAndDelete
  split
  · rename_i k hpend
    have hpend : s.pending a.id = some k := hpend
    have horigin := h.origin_of_pending (hreplies ▸ mem_cons_self) hpend
    obtain ⟨hid, hbegun, hempty⟩ := h.pending a.id k hpend
    have hother : ∀ {j key}, (s.calls j).id = some key → key ≠ a.id → j ≠ k := by
      rintro j key hj hne rfl
      exact hne (some.inj (hj.symm.trans hid))
    have hsend : ∀ {j}, j ≠ k → s.Empty j →
        Link.Empty { ({ s with replies := rest }.setPending a.id none) with
          sending := some (k, a) } j := by
      intro j hj he
      refine ⟨he.1, fun b hb => ?_⟩
      cases some.inj hb
      exact hj rfl
    refine { hrest with
      room := ?_
      pending := ?_
      unused := ?_
      awaited := ?_ }
    · intro j b hb
      cases some.inj hb
      exact ⟨horigin, hempty.1⟩
    · intro key j hj
      simp only [Link.setPending, update_apply] at hj
      split at hj
      · cases hj
      · rename_i hkey
        obtain ⟨hjid, hjbegun, hjempty⟩ := h.pending key j hj
        exact ⟨hjid, hjbegun, hsend (hother hjid hkey) hjempty⟩
    · intro j hj
      refine hsend ?_ (h.unused j hj)
      rintro rfl
      rw [show (s.calls j).begun = false from hj] at hbegun
      cases hbegun
    · intro j key hj haw hjempty
      have hjk : j ≠ k := by
        rintro rfl
        exact hjempty.2 a rfl
      have hkey : key ≠ a.id := by
        rintro rfl
        exact hjk (h.distinct j k _ hj hid)
      simp only [Link.setPending, update_apply, if_neg hkey]
      exact h.awaited j key hj haw ⟨hjempty.1, by simp [hfree]⟩
  · exact hrest

theorem Inv.send (h : Inv s) (hsending : s.sending = some (k, a)) :
    Inv { s.setChan k (some a) with sending := none } := by
  have hempty : ∀ j, j ≠ k → s.chans j = none →
      Link.Empty { s.setChan k (some a) with sending := none } j := by
    intro j hj hnone
    refine ⟨?_, by simp⟩
    simp only [Link.setChan, update_of_ne hj]
    exact hnone
  have hnot : ∀ j, s.Empty j → j ≠ k := by
    rintro j hj rfl
    exact hj.2 a hsending
  refine { h with
    room := ?_
    pending := ?_
    chan := ?_
    unused := ?_
    awaited := ?_ }
  · intro j b hb
    cases hb
  · intro key j hj
    obtain ⟨hjid, hjbegun, hjempty⟩ := h.pending key j hj
    exact ⟨hjid, hjbegun, hempty j (hnot j hjempty) hjempty.1⟩
  · intro j b hb
    simp only [Link.setChan, update_apply] at hb
    split at hb
    · rename_i hj
      obtain rfl := some.inj hb
      exact hj ▸ (h.room k a hsending).1
    · exact h.chan j b hb
  · intro j hj
    have hjempty := h.unused j hj
    exact hempty j (hnot j hjempty) hjempty.1
  · intro j key hj haw hjempty
    have hjk : j ≠ k := by
      rintro rfl
      simp [Link.Empty, Link.setChan] at hjempty
    refine h.awaited j key hj haw ⟨?_, ?_⟩
    · have hnone := hjempty.1
      simp only [Link.setChan, update_of_ne hjk] at hnone
      exact hnone
    · intro b hb
      rw [hsending] at hb
      cases hb
      exact hjk rfl

theorem Inv.clearChan (h : Inv s) (hleft : (s.calls k).awaits = false) :
    Inv (s.setChan k none) := by
  have hempty : ∀ j, s.Empty j → (s.setChan k none).Empty j := by
    intro j hj
    refine ⟨?_, hj.2⟩
    simp only [Link.setChan, update_apply]
    split
    · rfl
    · exact hj.1
  refine { h with
    room := ?_
    pending := ?_
    chan := ?_
    unused := ?_
    awaited := ?_ }
  · intro j a ha
    refine ⟨(h.room j a ha).1, ?_⟩
    simp only [Link.setChan, update_apply]
    split
    · rfl
    · exact (h.room j a ha).2
  · intro key j hj
    obtain ⟨hjid, hjbegun, hjempty⟩ := h.pending key j hj
    exact ⟨hjid, hjbegun, hempty j hjempty⟩
  · intro j a ha
    simp only [Link.setChan, update_apply] at ha
    split at ha
    · cases ha
    · exact h.chan j a ha
  · intro j hj
    exact hempty j (h.unused j hj)
  · intro j key hj haw hjempty
    have hjk : j ≠ k := by
      rintro rfl
      rw [show (s.calls j).awaits = true from haw] at hleft
      cases hleft
    have hnone := hjempty.1
    simp only [Link.setChan, update_of_ne hjk] at hnone
    exact h.awaited j key hj haw ⟨hnone, hjempty.2⟩

end Steps

/-! ## Every run -/

/-- One step keeps the entries, the calls and the replies in order. -/
theorem Inv.step {s : Link} (h : Inv s) {e : LinkEvent} (hfresh : FreshReading s e) :
    Inv (s.step e) := by
  cases e with
  | call k clock =>
    simp only [Link.step]
    split
    · exact h.call ‹_› hfresh
    · exact h
  | store k =>
    simp only [Link.step]
    split
    · exact h.store ‹_›
    · exact h
  | transmit k =>
    simp only [Link.step]
    split
    · exact h.transmit ‹_›
    · exact h
  | write k ok =>
    simp only [Link.step]
    split
    · rename_i id hcall
      have hid : (s.calls k).id = some id := by
        rw [hcall]
        rfl
      cases ok with
      | true => exact h.goto hid rfl rfl (by simp [Call.received]) fun _ => by rw [hcall]; rfl
      | false => exact h.goto hid rfl rfl (by simp [Call.received]) (by simp [Call.awaits])
    · exact h
  | answer i type payload =>
    simp only [Link.step]
    split
    · exact h.answer (mem_of_getElem? ‹_›) type payload
    · exact h
  | load =>
    simp only [Link.step]
    split
    · exact h.load ‹_› ‹_›
    · exact h
  | send =>
    simp only [Link.step]
    split
    · split
      · exact h.send ‹_›
      · exact h
    · exact h
  | receive k =>
    simp only [Link.step]
    split
    · rename_i id a hcall hchan
      have hid : (s.calls k).id = some id := by
        rw [hcall]
        rfl
      refine Inv.clearChan (h.goto hid rfl rfl ?_ (by simp [Call.awaits])) ?_
      · intro b hb
        obtain rfl := some.inj hb
        exact h.chan k _ hchan
      · rw [goto_calls, if_pos rfl]
        rfl
    · exact h
  | timeout k =>
    simp only [Link.step]
    split
    · rename_i id hcall
      have hid : (s.calls k).id = some id := by
        rw [hcall]
        rfl
      exact h.goto hid rfl rfl (by simp [Call.received]) (by simp [Call.awaits])
    · exact h
  | delete k =>
    simp only [Link.step]
    split
    · rename_i id o hcall
      have hid : (s.calls k).id = some id := by
        rw [hcall]
        rfl
      refine Inv.clearPending (h.goto hid rfl rfl ?_ (by simp [Call.awaits])) ?_
      · intro a ha
        refine h.received k a ?_
        rw [hcall]
        cases o <;> exact ha
      · intro j hj haw
        rw [goto_id hid rfl] at hj
        rw [h.distinct j k id hj hid, goto_calls, if_pos rfl] at haw
        cases haw
    · exact h

theorem Inv.kept {s : Link} (h : Inv s) (e : LinkEvent) : Kept s e := by
  cases e with
  | load =>
    intro a rest hfree hreplies hawaits hchan
    have hpend := h.awaited a.origin a.id (h.replies a (hreplies ▸ mem_cons_self)) hawaits
      ⟨hchan, by simp [hfree]⟩
    simp only [Link.step, hfree, hreplies, Link.loadAndDelete, hpend]
  | _ => trivial

/-- In every run in which no two calls read the same time, every call that receives a reply
receives its own, no reply blocks the goroutine that serves the connection, and none is
discarded while its request waits for it. -/
theorem replies_reach_their_request (es : List LinkEvent)
    (hrun : Along Link.step FreshReading {} es) :
    Throughout Link.step Matched {} es ∧ Along Link.step Kept {} es := by
  have hstep : ∀ (s : Link) (e : LinkEvent), Inv s → FreshReading s e → Inv (s.step e) :=
    fun s e h hfresh => h.step hfresh
  constructor
  · exact (throughout_of_invariant hstep start_inv hrun).mono fun s h => h.toMatched
  · exact along_of_invariant hstep (fun s e h _ => h.kept e) start_inv hrun

def twoRequests (first second : Int) : List LinkEvent :=
  [.call 0 first, .store 0, .call 1 second, .store 1, .transmit 0, .write 0 true, .transmit 1,
    .write 1 true, .answer 1 .ack "one", .answer 0 .ack "zero", .load, .send, .load, .send,
    .receive 0, .receive 1, .delete 0, .delete 1]

theorem replies_reach_two_requests :
    Throughout Link.step Matched {} (twoRequests 7 8) ∧
      (exec Link.step {} (twoRequests 7 8)).calls 0 =
        .returned "req-7" (.received ⟨0, "req-7", .ack, "zero"⟩) ∧
      (exec Link.step {} (twoRequests 7 8)).calls 1 =
        .returned "req-8" (.received ⟨1, "req-8", .ack, "one"⟩) := by
  have hfresh : Along Link.step FreshReading {} (twoRequests 7 8) := by
    have hsecond : (8 : Int) ∉ [(7 : Int)] := by decide
    refine ⟨not_mem_nil, trivial, hsecond, trivial, ?_⟩
    repeat' constructor
  exact ⟨(replies_reach_their_request _ hfresh).1, by decide, by decide⟩

/-- A run of two calls that read the same time. -/
theorem replies_cross :
    let es : List LinkEvent := [.call 0 7, .store 0, .transmit 0, .write 0 true, .call 1 7,
      .store 1, .transmit 1, .write 1 true, .answer 0 .ack "zero", .answer 1 .ack "one", .load,
      .send, .receive 1, .load, .timeout 0]
    (exec Link.step {} es).calls 1 = .leaving "req-7" (.received ⟨0, "req-7", .ack, "zero"⟩) ∧
      (exec Link.step {} es).calls 0 = .leaving "req-7" .timedOut ∧
      ¬ Throughout Link.step Matched {} es := by
  intro es
  have hcross : (exec Link.step {} es).calls 1 =
      .leaving "req-7" (.received ⟨0, "req-7", .ack, "zero"⟩) := by decide
  refine ⟨hcross, by decide, ?_⟩
  intro h
  have hown := h.last.received 1 ⟨0, "req-7", .ack, "zero"⟩ (by rw [hcross]; rfl)
  cases hown

/-! ## No entry stays behind -/

/-- The ID whose entry the call has yet to delete. -/
def Call.held : Call → Option String
  | .stored id | .waiting id | .leaving id _ => some id
  | _ => none

/-- An entry is under the ID of its call, which has yet to delete it. -/
def Held (s : Link) : Prop := ∀ id k, s.pending id = some k → (s.calls k).held = some id

theorem Held.step {s : Link} (h : Held s) (e : LinkEvent) : Held (s.step e) := by
  intro id j
  have hold := h id j
  cases e with
  | load =>
    simp only [Link.step, Link.loadAndDelete, Link.setPending]
    split
    · split <;> grind [update_apply]
    · exact hold
  | _ =>
    simp only [Link.step, Link.goto, Link.setPending, Link.setChan]
    split <;> grind [update_apply, Call.held]

/-- No run leaves an entry of a call that has returned. -/
theorem entries_in_progress (es : List LinkEvent) : Held (exec Link.step {} es) :=
  exec_of_invariant (C := fun _ _ => True) (fun _ e h _ => h.step e) (by simp [Held])
    (along_of_forall fun _ _ _ => trivial)

end Requests

end CtForge.Server
