import CtForge.Lib.Runs
import CtForge.Agent.Frames

/-!
# The agent's control connection (`net.c`, `terminal.c`, `portforward.c`)

Three kinds of threads write frames to one socket: the main loop without a lock, the
reader of a terminal under the mutex of its slot, and the readers of port forwards under
`g_send_mu`. A frame is at least two writes, and each write may take only a part.
Opening a terminal initialises the mutex of the slot again, whoever holds it.
-/

namespace CtForge.Agent

open CLang Runs List Function Option

/-! ## Threads and frames -/

inductive Mutex where
  | slot (i : Nat)
  | send
  deriving DecidableEq, Repr

inductive Thread where
  | main
  | terminal (slot n : Nat)
  | forward (n : Nat)
  deriving DecidableEq, Repr

/-- The mutex a thread takes around `ctc_send`. -/
def Thread.mutex : Thread → Option Mutex
  | .main => none
  | .terminal i _ => some (.slot i)
  | .forward _ => some .send

/-- Where a thread is: `writing buf next` is inside of `write_all`, with the rest of its
buffer and the buffer of the call after it. -/
inductive Phase where
  | outside
  | inside
  | writing (buf next : Bytes)
  | leaving
  deriving DecidableEq, Repr

/-- Where a thread calls `ctc_send`, and where it is when that returns. -/
def Thread.ready (t : Thread) : Phase := if t.mutex.isNone then .outside else .inside

def Thread.done (t : Thread) : Phase := if t.mutex.isNone then .outside else .leaving

/-- The two buffers that `send_frame` writes; none where it returns -1 at once. -/
def sendFrame (json : Bytes) : Option (Bytes × Bytes) :=
  let len := json.length % 4294967296
  if len == 0 || len > ctcMaxMsg then none else some (bigEndian len, json.take len)

/-- After `buf`, of which nothing is left, comes `next`. -/
def Thread.after (t : Thread) (buf next : Bytes) : Phase :=
  if buf.isEmpty then if next.isEmpty then t.done else .writing next [] else .writing buf next

/-! ## The channel -/

/-- The slots in use, the readers that were started, and what was written. A write that
failed with no signal leaves the socket broken: it takes no more bytes. -/
structure Channel where
  phase : Thread → Phase := fun _ => .outside
  locked : Mutex → Bool := fun _ => false
  used : Nat → Bool := fun _ => false
  readers : Nat → Nat := fun _ => 0
  forwards : Nat := 0
  stream : Bytes := []
  broken : Bool := false

inductive StreamEvent where
  | openTerm (i : Nat)
  | closeTerm (i : Nat)
  | accept
  | lock (t : Thread)
  | begin (t : Thread) (json : Bytes)
  | write (t : Thread) (n : Nat)
  | fail (t : Thread)
  | unlock (t : Thread)
  deriving DecidableEq, Repr

def Channel.started (s : Channel) : Thread → Bool
  | .main => true
  | .terminal i n => n < s.readers i
  | .forward n => n < s.forwards

def Channel.goto (s : Channel) (t : Thread) (p : Phase) : Channel :=
  { s with phase := Function.update s.phase t p }

def Channel.setLocked (s : Channel) (m : Mutex) (b : Bool) : Channel :=
  { s with locked := Function.update s.locked m b }

/-- `ctc_term_open` on the slot that it finds. -/
def Channel.openTerm (s : Channel) (i : Nat) : Channel :=
  { s.setLocked (.slot i) false with
    used := Function.update s.used i true
    readers := Function.update s.readers i (s.readers i + 1) }

/-- A write that takes `n` bytes. -/
def Channel.writeSome (s : Channel) (t : Thread) (n : Nat) (buf next : Bytes) : Channel :=
  { s.goto t (t.after (buf.drop n) next) with stream := s.stream ++ buf.take n }

/-- One step of the threads; an event that cannot happen changes nothing. The main loop
opens and closes terminals and accepts connections, between two frames of its own. -/
def Channel.step (s : Channel) : StreamEvent → Channel
  | .openTerm i =>
    if s.phase .main = .outside ∧ i < 8 ∧ s.used i = false ∧ ∀ j < i, s.used j = true then
      s.openTerm i
    else s
  | .closeTerm i =>
    if s.phase .main = .outside then { s with used := Function.update s.used i false } else s
  | .accept => if s.phase .main = .outside then { s with forwards := s.forwards + 1 } else s
  | .lock t =>
    match t.mutex with
    | none => s
    | some m =>
      if s.started t = true ∧ s.phase t = .outside ∧ s.locked m = false then
        (s.setLocked m true).goto t .inside
      else s
  | .begin t json =>
    if s.phase t = t.ready then
      match sendFrame json with
      | none => s.goto t t.done
      | some (len, body) => s.goto t (.writing len body)
    else s
  | .write t n =>
    match s.phase t with
    | .writing buf next =>
      if s.broken = false ∧ 0 < n ∧ n ≤ buf.length then s.writeSome t n buf next else s
    | _ => s
  | .fail t =>
    match s.phase t with
    | .writing _ _ => { s.goto t t.done with broken := true }
    | _ => s
  | .unlock t =>
    match t.mutex with
    | none => s
    | some m => if s.phase t = .leaving then (s.setLocked m false).goto t .outside else s

/-! ## What is to hold -/

def Phase.midFrame : Phase → Bool
  | .writing _ _ => true
  | _ => false

def Sendable (json : Bytes) : Prop := 0 < json.length ∧ json.length ≤ ctcMaxMsg

def frame (json : Bytes) : Bytes := bigEndian json.length ++ json

/-- The stream is made of whole frames, and what follows them is the beginning of the
frame that a thread is writing, or at which the connection broke. -/
def Channel.Whole (s : Channel) : Prop :=
  ∃ (jsons : List Bytes) (part : Bytes), (∀ json ∈ jsons, Sendable json) ∧
    s.stream = jsons.flatMap frame ++ part ∧
    (part = [] ∨ (s.broken = true ∨ ∃ t, (s.phase t).midFrame = true) ∧
      ∃ json, Sendable json ∧ part <+: frame json)

/-- Frames under different mutexes are not begun inside of each other, and no slot is
opened under a reader in its critical section. -/
def Serial (s : Channel) : StreamEvent → Prop
  | .begin t _ => ∀ u : Thread, u.mutex ≠ t.mutex → (s.phase u).midFrame = false
  | .openTerm i => ∀ n, s.phase (.terminal i n) = .outside
  | _ => True

/-! ## Mutual exclusion -/

@[simp]
theorem goto_phase (s : Channel) (t : Thread) (p : Phase) :
    (s.goto t p).phase = Function.update s.phase t p := rfl

@[simp]
theorem goto_locked (s : Channel) (t : Thread) (p : Phase) : (s.goto t p).locked = s.locked := rfl

structure Locks (s : Channel) : Prop where
  held : ∀ t m, t.mutex = some m → s.phase t ≠ .outside → s.locked m = true
  single : ∀ t u, t.mutex = u.mutex → s.phase t ≠ .outside → s.phase u ≠ .outside → t = u

variable {t : Thread}

theorem Thread.eq_main (h : t.mutex = none) : t = .main := by
  cases t with
  | main => rfl
  | terminal i n | forward n => cases h

variable {s : Channel}

theorem Locks.congr {s s' : Channel} (h : Locks s) (hphase : s'.phase = s.phase)
    (hlocked : s'.locked = s.locked) : Locks s' := by
  constructor
  · rw [hphase, hlocked]
    exact h.held
  · rw [hphase]
    exact h.single

theorem Locks.goto (h : Locks s) (ht : t.mutex = none ∨ s.phase t ≠ .outside) (p : Phase) :
    Locks (s.goto t p) := by
  have hback : ∀ u, u.mutex ≠ none → (s.goto t p).phase u ≠ .outside → s.phase u ≠ .outside := by
    intro u hu hphase
    by_cases hut : u = t
    · subst hut
      exact ht.resolve_left hu
    · rwa [goto_phase, update_of_ne hut] at hphase
  constructor
  · intro u m hm hphase
    exact h.held u m hm (hback u (by simp [hm]) hphase)
  · intro u v huv hu hv
    by_cases hnone : u.mutex = none
    · rw [Thread.eq_main hnone, Thread.eq_main (huv.symm.trans hnone)]
    · exact h.single u v huv (hback u hnone hu) (hback v (huv ▸ hnone) hv)

theorem Thread.ready_held (h : s.phase t = t.ready) : t.mutex = none ∨ s.phase t ≠ .outside := by
  by_cases hnone : t.mutex = none
  · exact .inl hnone
  · right
    rw [h, Thread.ready, if_neg (by simpa using hnone)]
    simp

/-- Taking a free mutex lets one thread in. -/
theorem locks_lock (h : Locks s) {m : Mutex} (hm : t.mutex = some m) (hfree : s.locked m = false) :
    Locks ((s.setLocked m true).goto t .inside) := by
  have hfresh : ∀ u, u.mutex = some m → s.phase u = .outside := by
    intro u hu
    by_contra hphase
    rw [h.held u m hu hphase] at hfree
    cases hfree
  constructor
  · intro u k hk hphase
    by_cases hkm : k = m
    · simp [Channel.setLocked, hkm]
    · have hut : u ≠ t := by
        rintro rfl
        exact hkm (some.inj (hk.symm.trans hm))
      rw [goto_phase, update_of_ne hut] at hphase
      simp only [goto_locked, Channel.setLocked, update_of_ne hkm]
      exact h.held u k hk hphase
  · intro u v huv hu hv
    by_cases hmu : u.mutex = some m
    · have honly : ∀ w, w.mutex = some m →
          ((s.setLocked m true).goto t .inside).phase w ≠ .outside → w = t := by
        intro w hw hphase
        by_contra hwt
        rw [goto_phase, update_of_ne hwt] at hphase
        exact hphase (hfresh w hw)
      rw [honly u hmu hu, honly v (huv ▸ hmu) hv]
    · have hne : ∀ w, w.mutex ≠ some m → w ≠ t := by
        rintro w hw rfl
        exact hw hm
      rw [goto_phase, update_of_ne (hne u hmu)] at hu
      rw [goto_phase, update_of_ne (hne v (huv ▸ hmu))] at hv
      exact h.single u v huv hu hv

theorem locks_unlock (h : Locks s) {m : Mutex} (hm : t.mutex = some m)
    (hphase : s.phase t = .leaving) : Locks ((s.setLocked m false).goto t .outside) := by
  have hback : ∀ u, ((s.setLocked m false).goto t .outside).phase u ≠ .outside →
      u ≠ t ∧ s.phase u ≠ .outside := by
    intro u hu
    have hut : u ≠ t := by
      rintro rfl
      simp at hu
    rw [goto_phase, update_of_ne hut] at hu
    exact ⟨hut, hu⟩
  constructor
  · intro u k hk hu
    obtain ⟨hut, hin⟩ := hback u hu
    have hkm : k ≠ m := by
      rintro rfl
      exact hut (h.single u t (hk.trans hm.symm) hin (by simp [hphase]))
    simp only [goto_locked, Channel.setLocked, update_of_ne hkm]
    exact h.held u k hk hin
  · intro u v huv hu hv
    exact h.single u v huv (hback u hu).2 (hback v hv).2

theorem locks_openTerm (h : Locks s) {i : Nat} (hout : ∀ n, s.phase (.terminal i n) = .outside) :
    Locks (s.openTerm i) := by
  constructor
  · intro t m hm hphase
    have hmi : m ≠ .slot i := by
      rintro rfl
      cases t with
      | main | forward n => cases hm
      | terminal j n =>
        cases hm
        exact hphase (hout n)
    change Function.update s.locked (.slot i) false m = true
    rw [update_of_ne hmi]
    exact h.held t m hm hphase
  · exact h.single

variable {e : StreamEvent}

/-- One step keeps the locks: of the threads under one mutex at most one is inside a frame. -/
theorem locks_step (h : Locks s) (hserial : Serial s e) : Locks (s.step e) := by
  cases e with
  | openTerm i =>
    simp only [Channel.step]
    split_ifs
    · exact locks_openTerm h hserial
    · exact h
  | closeTerm i | accept =>
    simp only [Channel.step]
    split_ifs
    · exact h.congr rfl rfl
    · exact h
  | lock t =>
    simp only [Channel.step]
    split
    · exact h
    · split_ifs with hguard
      · exact locks_lock h ‹_› hguard.2.2
      · exact h
  | begin t json =>
    simp only [Channel.step]
    split_ifs with hready
    · have ht := Thread.ready_held hready
      split
      · exact h.goto ht _
      · exact h.goto ht _
    · exact h
  | write t n =>
    simp only [Channel.step]
    split
    · rename_i buf next hphase
      split_ifs
      · exact (h.goto (.inr (by simp [hphase])) _).congr rfl rfl
      · exact h
    · exact h
  | fail t =>
    simp only [Channel.step]
    split
    · rename_i buf next hphase
      exact (h.goto (.inr (by simp [hphase])) _).congr rfl rfl
    · exact h
  | unlock t =>
    simp only [Channel.step]
    split
    · exact h
    · split_ifs with hphase
      · exact locks_unlock h ‹_› hphase
      · exact h

/-! ## Whole frames -/

/-- What stands behind the whole frames, together with what its thread has still to write,
is a frame. -/
structure Pending (s : Channel) (part : Bytes) : Prop where
  broken : s.broken = true → part = [] ∨ ∃ json, Sendable json ∧ part <+: frame json
  writing : s.broken = false → ∀ t buf next, s.phase t = .writing buf next →
    ∃ json, Sendable json ∧ part ++ (buf ++ next) = frame json
  idle : s.broken = false → (∀ t, (s.phase t).midFrame = false) → part = []

structure Written (s : Channel) : Prop where
  alone : ∀ t u, (s.phase t).midFrame = true → (s.phase u).midFrame = true → t = u
  text : ∃ (jsons : List Bytes) (part : Bytes), (∀ json ∈ jsons, Sendable json) ∧
    s.stream = jsons.flatMap frame ++ part ∧ Pending s part

theorem midFrame_of_eq {p : Phase} {buf next : Bytes} (h : p = .writing buf next) :
    p.midFrame = true := by
  rw [h]
  rfl

theorem Written.congr {s s' : Channel} (h : Written s) (hphase : ∀ t, s'.phase t = s.phase t ∨
      (s'.phase t).midFrame = false ∧ (s.phase t).midFrame = false)
    (hstream : s'.stream = s.stream) (hbroken : s'.broken = s.broken) : Written s' := by
  have hmid : ∀ t, (s'.phase t).midFrame = (s.phase t).midFrame := by
    intro t
    rcases hphase t with heq | ⟨hnew, hold⟩
    · rw [heq]
    · rw [hnew, hold]
  obtain ⟨jsons, part, hjsons, htext, hpending⟩ := h.text
  constructor
  · intro t u ht hu
    exact h.alone t u (hmid t ▸ ht) (hmid u ▸ hu)
  · refine ⟨jsons, part, hjsons, hstream.trans htext, ?_⟩
    constructor
    · rw [hbroken]
      exact hpending.broken
    · intro hb t buf next ht
      rcases hphase t with heq | ⟨hnew, -⟩
      · exact hpending.writing (hbroken ▸ hb) t buf next (heq ▸ ht)
      · rw [midFrame_of_eq ht] at hnew
        cases hnew
    · intro hb hidle
      exact hpending.idle (hbroken ▸ hb) fun t => (hmid t).symm.trans (hidle t)

theorem Written.goto {s s' : Channel} (h : Written s) {p : Phase}
    (hphase : s'.phase = Function.update s.phase t p) (hp : p.midFrame = false)
    (ht : (s.phase t).midFrame = false) (hstream : s'.stream = s.stream)
    (hbroken : s'.broken = s.broken) : Written s' := by
  refine h.congr ?_ hstream hbroken
  intro u
  by_cases hut : u = t
  · subst hut
    right
    rw [hphase, update_self]
    exact ⟨hp, ht⟩
  · left
    rw [hphase, update_of_ne hut]

theorem Thread.ready_midFrame (t : Thread) : t.ready.midFrame = false := by
  unfold Thread.ready
  split_ifs <;> rfl

theorem Thread.done_midFrame (t : Thread) : t.done.midFrame = false := by
  unfold Thread.done
  split_ifs <;> rfl

variable {json : Bytes}

theorem nobody_writes (hlocks : Locks s) (hserial : Serial s (.begin t json))
    (hready : s.phase t = t.ready) (u : Thread) : (s.phase u).midFrame = false := by
  by_cases hmutex : u.mutex = t.mutex
  · by_contra hmid
    have hu : s.phase u ≠ .outside := by
      intro hout
      rw [hout] at hmid
      exact hmid rfl
    have hut : u = t := by
      rcases Thread.ready_held hready with hnone | ht
      · rw [Thread.eq_main hnone, Thread.eq_main (hmutex.trans hnone)]
      · exact hlocks.single u t hmutex hu ht
    rw [hut, hready, Thread.ready_midFrame] at hmid
    exact hmid rfl
  · exact hserial u hmutex

theorem sendFrame_frame {len body : Bytes} (h : sendFrame json = some (len, body)) :
    Sendable body ∧ len ++ body = frame body := by
  simp only [sendFrame] at h
  split_ifs at h with hsize
  cases h
  have hlen : (json.take (json.length % 4294967296)).length = json.length % 4294967296 := by
    rw [length_take]
    exact Nat.min_eq_left (Nat.mod_le _ _)
  simp only [Bool.or_eq_true, beq_iff_eq, decide_eq_true_eq, not_or, not_lt] at hsize
  refine ⟨⟨?_, ?_⟩, ?_⟩
  · rw [hlen]
    exact Nat.pos_of_ne_zero hsize.1
  · rw [hlen]
    exact hsize.2
  · rw [frame, hlen]

theorem written_begin (h : Written s) {len body : Bytes}
    (hidle : ∀ u, (s.phase u).midFrame = false) (hframe : sendFrame json = some (len, body)) :
    Written (s.goto t (.writing len body)) := by
  have honly : ∀ u, ((s.goto t (.writing len body)).phase u).midFrame = true → u = t := by
    intro u hu
    by_contra hut
    rw [goto_phase, update_of_ne hut, hidle u] at hu
    cases hu
  obtain ⟨jsons, part, hjsons, htext, hpending⟩ := h.text
  constructor
  · intro u v hu hv
    rw [honly u hu, honly v hv]
  · refine ⟨jsons, part, hjsons, htext, hpending.broken, ?_, ?_⟩
    · intro hb u buf next hu
      obtain rfl := honly u (midFrame_of_eq hu)
      rw [goto_phase, update_self] at hu
      cases hu
      obtain ⟨hsend, heq⟩ := sendFrame_frame hframe
      refine ⟨body, hsend, ?_⟩
      rw [hpending.idle hb hidle]
      exact heq
    · intro hb hnone
      have := hnone t
      rw [goto_phase, update_self] at this
      cases this

theorem Thread.after_cases (t : Thread) (buf next : Bytes) :
    t.after buf next = t.done ∧ buf ++ next = [] ∨
      ∃ b n, t.after buf next = .writing b n ∧ b ++ n = buf ++ next := by
  unfold Thread.after
  split_ifs with hbuf hnext
  · left
    simp [isEmpty_iff.mp hbuf, isEmpty_iff.mp hnext]
  · right
    exact ⟨next, [], rfl, by simp [isEmpty_iff.mp hbuf]⟩
  · right
    exact ⟨buf, next, rfl, rfl⟩

/-- A write that takes a part moves the frame in progress on. -/
theorem written_write (h : Written s) {n : Nat} {buf next : Bytes}
    (hphase : s.phase t = .writing buf next) (hb : s.broken = false) :
    Written (s.writeSome t n buf next) := by
  have hself : (s.writeSome t n buf next).phase t = t.after (buf.drop n) next :=
    update_self t _ _
  have honly : ∀ u, ((s.writeSome t n buf next).phase u).midFrame = true → u = t := by
    intro u hu
    by_contra hut
    have hold : (s.writeSome t n buf next).phase u = s.phase u := update_of_ne hut _ _
    rw [hold] at hu
    exact hut (h.alone u t hu (midFrame_of_eq hphase))
  obtain ⟨jsons, part, hjsons, htext, hpending⟩ := h.text
  obtain ⟨json, hjson, hframe⟩ := hpending.writing hb t buf next hphase
  have hstream : (s.writeSome t n buf next).stream =
      jsons.flatMap frame ++ (part ++ buf.take n) := by
    change s.stream ++ buf.take n = _
    rw [htext, append_assoc]
  have hrest : part ++ buf.take n ++ (buf.drop n ++ next) = frame json := by
    rw [← hframe, append_assoc, ← append_assoc (buf.take n), take_append_drop]
  constructor
  · intro u v hu hv
    rw [honly u hu, honly v hv]
  · rcases t.after_cases (buf.drop n) next with ⟨hdone, hnil⟩ | ⟨b, m, hafter, heq⟩
    · -- the frame is complete
      refine ⟨jsons ++ [json], [], ?_, ?_, fun _ => .inl rfl, ?_, fun _ _ => rfl⟩
      · simpa [or_imp, forall_and] using ⟨hjsons, hjson⟩
      · rw [hnil, append_nil] at hrest
        rw [hstream, hrest]
        simp
      · intro _ u c d hu
        obtain rfl := honly u (midFrame_of_eq hu)
        rw [hself, hdone] at hu
        have hmid := Thread.done_midFrame u
        rw [midFrame_of_eq hu] at hmid
        cases hmid
    · refine ⟨jsons, part ++ buf.take n, hjsons, hstream, ?_, ?_, ?_⟩
      · intro hbroken
        exact absurd (hb.symm.trans hbroken) (by simp)
      · intro _ u c d hu
        obtain rfl := honly u (midFrame_of_eq hu)
        rw [hself, hafter] at hu
        cases hu
        exact ⟨json, hjson, by rw [heq, hrest]⟩
      · intro _ hidle
        have hmid := hidle t
        rw [hself, midFrame_of_eq hafter] at hmid
        cases hmid

theorem written_fail (h : Written s) {buf next : Bytes} (hphase : s.phase t = .writing buf next) :
    Written { s.goto t t.done with broken := true } := by
  have hback : ∀ u, ((s.goto t t.done).phase u).midFrame = true → (s.phase u).midFrame = true := by
    intro u hu
    by_cases hut : u = t
    · rw [hut]
      exact midFrame_of_eq hphase
    · rwa [goto_phase, update_of_ne hut] at hu
  obtain ⟨jsons, part, hjsons, htext, hpending⟩ := h.text
  constructor
  · intro u v hu hv
    exact h.alone u v (hback u hu) (hback v hv)
  · refine ⟨jsons, part, hjsons, htext, ?_, ?_, ?_⟩
    · intro _
      by_cases hb : s.broken = true
      · exact hpending.broken hb
      · obtain ⟨json, hjson, hframe⟩ := hpending.writing (by simpa using hb) t buf next hphase
        exact .inr ⟨json, hjson, ⟨buf ++ next, hframe⟩⟩
    · intro hb
      cases hb
    · intro hb
      cases hb

/-- One step keeps the stream whole. -/
theorem written_step (hlocks : Locks s) (h : Written s) (hserial : Serial s e) :
    Written (s.step e) := by
  cases e with
  | openTerm i | closeTerm i | accept =>
    simp only [Channel.step]
    split_ifs
    · exact h.congr (fun _ => .inl rfl) rfl rfl
    · exact h
  | lock t =>
    simp only [Channel.step]
    split
    · exact h
    · split_ifs with hguard
      · exact h.goto rfl rfl (by simp [hguard.2.1, Phase.midFrame]) rfl rfl
      · exact h
  | begin t json =>
    simp only [Channel.step]
    split_ifs with hready
    · have hidle := nobody_writes hlocks hserial hready
      split
      · exact h.goto rfl t.done_midFrame (hidle t) rfl rfl
      · exact written_begin h hidle ‹_›
    · exact h
  | write t n =>
    simp only [Channel.step]
    split
    · rename_i buf next hphase
      split_ifs with hguard
      · exact written_write h hphase hguard.1
      · exact h
    · exact h
  | fail t =>
    simp only [Channel.step]
    split
    · rename_i buf next hphase
      exact written_fail h hphase
    · exact h
  | unlock t =>
    simp only [Channel.step]
    split
    · exact h
    · split_ifs with hphase
      · exact h.goto rfl rfl (by simp [hphase, Phase.midFrame]) rfl rfl
      · exact h

theorem Written.whole (h : Written s) : s.Whole := by
  obtain ⟨jsons, part, hjsons, htext, hpending⟩ := h.text
  refine ⟨jsons, part, hjsons, htext, ?_⟩
  by_cases hb : s.broken = true
  · exact (hpending.broken hb).imp_right fun hpart => ⟨.inl hb, hpart⟩
  · have hb : s.broken = false := by simpa using hb
    by_cases hmid : ∃ t, (s.phase t).midFrame = true
    · obtain ⟨t, ht⟩ := hmid
      cases hphase : s.phase t with
      | writing buf next =>
        obtain ⟨json, hjson, hframe⟩ := hpending.writing hb t buf next hphase
        exact .inr ⟨.inr ⟨t, ht⟩, json, hjson, ⟨buf ++ next, hframe⟩⟩
      | outside | inside | leaving =>
        rw [hphase] at ht
        cases ht
    · exact .inl (hpending.idle hb (by simpa using hmid))

def Channel.fresh : Channel := {}

theorem locks_fresh : Locks Channel.fresh :=
  ⟨fun _ _ _ h => absurd rfl h, fun _ _ _ h => absurd rfl h⟩

theorem written_fresh : Written Channel.fresh := by
  have hidle : ∀ t, (Channel.fresh.phase t).midFrame = false := fun _ => rfl
  constructor
  · intro t u ht
    rw [hidle t] at ht
    cases ht
  · refine ⟨[], [], by simp, rfl, fun _ => .inl rfl, ?_, fun _ _ => rfl⟩
    intro _ t buf next h
    cases h

/-- If a frame is begun only while no thread under another mutex is inside of one, and a slot is
opened only while none of its readers is in its critical section, the stream is made of whole
frames and the one in progress. -/
theorem frames_stay_whole (es : List StreamEvent) (h : Along Channel.step Serial Channel.fresh es) :
    Throughout Channel.step Channel.Whole Channel.fresh es := by
  have hstep : ∀ (s : Channel) (e : StreamEvent), (Locks s ∧ Written s) → Serial s e →
      Locks (s.step e) ∧ Written (s.step e) := by
    rintro s e ⟨hlocks, hwritten⟩ hserial
    exact ⟨locks_step hlocks hserial, written_step hlocks hwritten hserial⟩
  have hrun := throughout_of_invariant hstep ⟨locks_fresh, written_fresh⟩ h
  exact hrun.mono fun s hs => hs.2.whole

/-! ## Two runs -/

def StreamEvent.thread : StreamEvent → Option Thread
  | .openTerm _ | .closeTerm _ | .accept => none
  | .lock t | .begin t _ | .write t _ | .fail t | .unlock t => some t

theorem step_phase_of_ne (s : Channel) {u : Thread} (h : e.thread ≠ some u) :
    (s.step e).phase u = s.phase u := by
  have hgoto : ∀ t p, some t ≠ some u → Function.update s.phase t p u = s.phase u := by
    intro t p ht
    exact update_of_ne (fun hu => ht (congrArg some hu.symm)) _ _
  cases e with
  | openTerm i | closeTerm i | accept =>
    simp only [Channel.step]
    split_ifs <;> rfl
  | lock t | begin t json | write t n | fail t | unlock t =>
    simp only [Channel.step]
    repeat' split
    all_goals first
      | rfl
      | exact hgoto t _ h

theorem exec_idle {es : List StreamEvent} (threads : List Thread)
    (hes : ∀ e ∈ es, ∀ t ∈ e.thread, t ∈ threads) (hs : ∀ t, (s.phase t).midFrame = false)
    (hdone : ∀ t ∈ threads, ((exec Channel.step s es).phase t).midFrame = false) (t : Thread) :
    ((exec Channel.step s es).phase t).midFrame = false := by
  by_cases ht : t ∈ threads
  · exact hdone t ht
  · have hphase : (exec Channel.step s es).phase t = s.phase t := by
      clear hdone hs
      induction es generalizing s with
      | nil => rfl
      | cons e es ih =>
        have hne : e.thread ≠ some t := fun he => ht (hes e mem_cons_self t he)
        exact (ih fun f hf => hes f (mem_cons_of_mem e hf)).trans (step_phase_of_ne s hne)
    rw [hphase]
    exact hs t

def heartbeatText : Bytes := lit "\x7b\"type\":\"heartbeat\",\"version\":1\x7d"

def outputText : Bytes := lit "\x7b\"type\":\"terminal_output\",\"version\":1\x7d"

/-- A terminal's output, and then a heartbeat. -/
theorem output_then_heartbeat : let reader := Thread.terminal 0 0
    let es : List StreamEvent := [.openTerm 0, .lock reader, .begin reader outputText,
      .write reader 4, .write reader 30, .write reader 8, .unlock reader,
      .begin .main heartbeatText, .write .main 4, .write .main 32]
    Throughout Channel.step Channel.Whole Channel.fresh es ∧
      (exec Channel.step Channel.fresh es).stream = frame outputText ++ frame heartbeatText := by
  intro reader es
  have hidle : ∀ n, n ∈ [2, 7] → ∀ t,
      ((exec Channel.step Channel.fresh (es.take n)).phase t).midFrame = false := by
    intro n hn
    refine exec_idle [.main, reader] ?_ (fun _ => rfl) ?_
    · revert n
      decide
    · revert n
      decide
  refine ⟨frames_stay_whole es ?_, by decide⟩
  exact ⟨fun _ => rfl, trivial, fun u _ => hidle 2 (by simp) u, trivial, trivial, trivial, trivial,
    fun u _ => hidle 7 (by simp) u, trivial, trivial, trivial⟩

def nextFrame (stream : Bytes) : Option (Bytes × Bytes) := do
  let (be, stream) ← readAll 4 stream
  let len := be.foldl (fun n b => 256 * n + b.toNat) 0
  if len == 0 || len > ctcMaxMsg then none
  readAll len stream

theorem nextFrame_frame (h : Sendable json) (rest : Bytes) :
    nextFrame (frame json ++ rest) = some (json, rest) := by
  have hmax : json.length ≤ 33554432 := h.2
  have hhead : readAll 4 (bigEndian json.length ++ (json ++ rest)) =
      some (bigEndian json.length, json ++ rest) := readAll_append (bigEndian json.length) _
  have hsize : (json.length == 0 || decide (json.length > ctcMaxMsg)) = false := by
    have hne : json.length ≠ 0 := Nat.pos_iff_ne_zero.mp h.1
    have hle : ¬ json.length > ctcMaxMsg := Nat.not_lt.mpr h.2
    simp [length_eq_zero_iff.not.mp hne, hle]
  rw [frame, append_assoc, nextFrame, hhead]
  simp only [bind_eq_bind, bind_some, bigEndian_value (show json.length < 4294967296
    by omega), hsize, readAll_append]
  rfl

/-- The main loop and a terminal's reader, interleaved. -/
theorem heartbeat_splits_output : let reader := Thread.terminal 0 0
    let es : List StreamEvent := [.openTerm 0, .lock reader, .begin .main heartbeatText,
      .write .main 4, .begin reader outputText, .write reader 4, .write reader 38,
      .unlock reader, .write .main 32]
    (exec Channel.step Channel.fresh es).stream =
        bigEndian 32 ++ frame outputText ++ heartbeatText ∧
      ¬ Throughout Channel.step Channel.Whole Channel.fresh es := by
  intro reader es
  have hstream : (exec Channel.step Channel.fresh es).stream =
      bigEndian 32 ++ frame outputText ++ heartbeatText := by decide
  refine ⟨hstream, ?_⟩
  intro h
  have hidle : ∀ t, ((exec Channel.step Channel.fresh es).phase t).midFrame = false :=
    exec_idle [.main, reader] (by decide) (fun _ => rfl) (by decide)
  have hbroken : (exec Channel.step Channel.fresh es).broken = false := by decide
  obtain ⟨jsons, part, hjsons, htext, hpart⟩ := h.last
  rw [hbroken] at hpart
  have hnil : part = [] := by simpa [hidle] using hpart
  rw [hstream, hnil, append_nil] at htext
  -- the first frame swallows the beginning of the output; what follows is no frame
  have hsecond : (nextFrame (bigEndian 32 ++ frame outputText ++ heartbeatText)).map
      (fun p => (p.2.isEmpty, nextFrame p.2)) = some (false, none) := by decide
  cases jsons with
  | nil => exact absurd htext (by decide)
  | cons json jsons =>
    rw [flatMap_cons] at htext
    rw [htext, nextFrame_frame (hjsons json mem_cons_self)] at hsecond
    cases jsons with
    | nil => simp at hsecond
    | cons other jsons =>
      rw [flatMap_cons, map_some, nextFrame_frame (hjsons other (by simp))] at hsecond
      simp at hsecond

end CtForge.Agent
