import CtForge.Agent.Send
import CtForge.Agent.Commands

/-!
# Remote commands (`ctc_cmd_exec_json`)

The agent starts a shell with two pipes, reads both with `select` until they are closed or the
time is over, and then waits for the child. Time is counted in nanoseconds; it passes in
`select`, which takes between a nanosecond and a second, and in `waitpid`. What the child does
is any sequence of such rounds and any end, or none.
-/

namespace CtForge.Agent

open CLang Json List

/-! ## The child -/

/-- What one `read` into 4095 bytes returns. -/
structure Chunk where
  data : Bytes
  nonempty : data ≠ []
  fits : data.length ≤ 4095

/-- What a pipe has when `select` returns: nothing, data, or its end. -/
inductive PipeEvent where
  | idle
  | data (chunk : Chunk)
  | closed

/-- One call of `select` and the reads behind it. -/
structure PipeRound where
  wait : Nat
  pos : 0 < wait
  interval : wait ≤ 1000000000
  out : PipeEvent
  err : PipeEvent

inductive WaitStatus where
  | exited (status : UInt8)
  | signaled (sig : Fin 127)
  deriving DecidableEq, Repr

structure Child where
  t0 : Nat
  tstart : Nat
  order : t0 ≤ tstart
  rounds : Nat → PipeRound
  exits : Option (Nat × WaitStatus)

/-! ## The loop -/

/-- The differences of `tv_sec` and `tv_nsec`, in milliseconds. -/
def elapsedMs (t u : Nat) : Int :=
  ((u / 1000000000 : Nat) - (t / 1000000000 : Nat) : Int) * 1000 +
    ((u % 1000000000 : Nat) - (t % 1000000000 : Nat) : Int).tdiv 1000000

structure Pipe where
  isOpen : Bool := true
  buffer : Bytes := []

/-- The read from one pipe: `xb_put` appends a C string. -/
def Pipe.take (p : Pipe) : PipeEvent → Pipe
  | .idle => p
  | .data chunk => if p.isOpen then { p with buffer := p.buffer ++ cString chunk.data } else p
  | .closed => { p with isOpen := false }

structure Reading where
  now : Nat
  out : Pipe := {}
  err : Pipe := {}

def Reading.step (s : Reading) (r : PipeRound) : Reading :=
  { now := s.now + r.wait, out := s.out.take r.out, err := s.err.take r.err }

/-- The loop, from round `i` on; at its end it says whether the time was over. -/
def readLoop (tstart deadlineMs : Nat) (rounds : Nat → PipeRound) :
    (fuel i : Nat) → Reading → Option (Reading × Bool)
  | 0, _, _ => none
  | fuel + 1, i, s =>
    if !s.out.isOpen && !s.err.isOpen then some (s, false)
    else if elapsedMs tstart s.now ≥ deadlineMs then some (s, true)
    else readLoop tstart deadlineMs rounds fuel (i + 1) (s.step (rounds i))

def execTimeout (timeoutSec : Int) : Nat :=
  if timeoutSec ≤ 0 ∨ timeoutSec > 300 then 60 else timeoutSec.toNat

def execLoop (child : Child) (timeoutSec : Int) : Option (Reading × Bool) :=
  readLoop child.tstart (1000 * execTimeout timeoutSec) child.rounds
    (1000000000 * execTimeout timeoutSec + 1) 0 { now := child.tstart }

/-- `waitpid` at the end of the loop: when it returns, and with what. A child that was sent
`SIGKILL` is gone. -/
def waitChild (child : Child) (now : Nat) (timedOut : Bool) : Option (Nat × WaitStatus) :=
  match child.exits with
  | none => if timedOut then some (now, .signaled 9) else none
  | some (t, status) =>
    if timedOut then some (now, if t ≤ now then status else .signaled 9)
    else some (max now t, status)

def exitCode (status : WaitStatus) (timedOut : Bool) : Int32 :=
  if timedOut then 124
  else
    match status with
    | .exited status => .ofNat status.toNat
    | .signaled sig => .ofNat (128 + sig.val)

def execReply (out err : Bytes) (status : WaitStatus) (timedOut : Bool) (durationMs : Int64) :
    Bytes :=
  let eOut := xesc (out.take (128 * 1024))
  let eErr := xesc (err.take (32 * 1024))
  snprintf (eOut.length + eErr.length + 256) (object
    [("ok", Json.bool (!timedOut && exitCode status timedOut == 0)),
      ("exit_code", int32 (exitCode status timedOut)), ("stdout", string eOut),
      ("stderr", string eErr), ("duration_ms", int64 durationMs),
        ("timed_out", Json.bool timedOut)])

/-- When `ctc_cmd_exec_json` returns, and with what. -/
structure ExecResult where
  returned : Nat
  timedOut : Bool
  reply : Bytes

def afterLoop (child : Child) (s : Reading) (timedOut : Bool) : Except Fault ExecResult :=
  match waitChild child s.now timedOut with
  | none => .error .diverged
  | some (t, status) =>
    .ok { returned := t, timedOut := timedOut,
          reply := execReply s.out.buffer s.err.buffer status timedOut
            (.ofInt (elapsedMs child.t0 t)) }

/-- `ctc_cmd_exec_json` once the child is there. -/
def runChild (child : Child) (timeoutSec : Int) : Except Fault ExecResult :=
  match execLoop child timeoutSec with
  | none => .error .diverged
  | some (s, timedOut) => afterLoop child s timedOut

inductive Spawn where
  | pipeFailed
  | forkFailed
  | started (child : Child)

def execFailed (stderr : String) : Bytes :=
  object [("ok", Json.bool false), ("exit_code", decimalInt (-1)), ("stdout", string []),
    ("stderr", string (lit stderr)), ("duration_ms", decimal 0)]

/-- `ctc_cmd_exec_json`. -/
def cmdExecJson (command : Bytes) (timeoutSec : Int) (spawn : Spawn) : Except Fault Bytes :=
  if command.isEmpty then .ok (execFailed "")
  else
    match spawn with
    | .pipeFailed => .ok (execFailed "pipe failed")
    | .forkFailed => .ok (execFailed "fork failed")
    | .started child => (runChild child timeoutSec).map ExecResult.reply

/-! ## The clock -/

theorem le_elapsedMs {t u : Nat} (h : t ≤ u) : ((u - t) / 1000000 : Nat) ≤ elapsedMs t u := by
  have hu := Nat.div_add_mod u 1000000000
  have ht := Nat.div_add_mod t 1000000000
  unfold elapsedMs
  by_cases hnsec : t % 1000000000 ≤ u % 1000000000
  · rw [Int.tdiv_eq_ediv_of_nonneg (by omega)]
    omega
  · have hneg : ((u % 1000000000 : Nat) - (t % 1000000000 : Nat) : Int) =
        -((t % 1000000000 : Nat) - (u % 1000000000 : Nat) : Int) := by omega
    rw [hneg, Int.neg_tdiv, Int.tdiv_eq_ediv_of_nonneg (by omega)]
    omega

theorem lt_deadline {t u deadlineMs : Nat} (h : t ≤ u) (hlt : elapsedMs t u < deadlineMs) :
    u < t + deadlineMs * 1000000 := by
  have hle := le_elapsedMs h
  omega

/-! ## What the loop does -/

/-- The state after `n` rounds. -/
def Child.after (child : Child) : Nat → Reading
  | 0 => { now := child.tstart }
  | n + 1 => (child.after n).step (child.rounds n)

def Reading.isClosed (s : Reading) : Bool := !s.out.isOpen && !s.err.isOpen

variable (child : Child)

theorem after_now (n : Nat) : child.tstart + n ≤ (child.after n).now := by
  induction n with
  | zero => exact Nat.le_refl _
  | succ n ih =>
    have hpos := (child.rounds n).pos
    simp only [Child.after, Reading.step]
    omega

theorem readLoop_succ (deadlineMs fuel i : Nat) :
    readLoop child.tstart deadlineMs child.rounds (fuel + 1) i (child.after i) =
      if (child.after i).isClosed then some (child.after i, false)
      else if elapsedMs child.tstart (child.after i).now ≥ deadlineMs then some (child.after i, true)
      else readLoop child.tstart deadlineMs child.rounds fuel (i + 1) (child.after (i + 1)) := rfl

/-- The loop ends after some round: both pipes are closed, or the time is over. -/
structure EndsAfter (deadlineMs i n : Nat) (timedOut : Bool) : Prop where
  from_le : i ≤ n
  goes_on : ∀ j, i ≤ j → j < n → (child.after j).isClosed = false ∧
    elapsedMs child.tstart (child.after j).now < deadlineMs
  ends : if timedOut then (child.after n).isClosed = false ∧
      (deadlineMs : Int) ≤ elapsedMs child.tstart (child.after n).now
    else (child.after n).isClosed = true

/-- The loop comes to an end, at most a second after its deadline. -/
theorem loop_ends (deadlineMs fuel i : Nat)
    (hfuel : child.tstart + deadlineMs * 1000000 < (child.after i).now + fuel) (hpos : 0 < fuel) :
    ∃ n timedOut, readLoop child.tstart deadlineMs child.rounds fuel i (child.after i) =
        some (child.after n, timedOut) ∧ EndsAfter child deadlineMs i n timedOut := by
  induction fuel generalizing i with
  | zero => exact absurd hpos (Nat.lt_irrefl 0)
  | succ fuel ih =>
    rw [readLoop_succ]
    by_cases hclosed : (child.after i).isClosed = true
    · rw [if_pos hclosed]
      exact ⟨i, false, rfl, Nat.le_refl i, fun j hij hji => absurd hij (by omega), hclosed⟩
    · rw [if_neg hclosed]
      have hopen : (child.after i).isClosed = false := by simpa using hclosed
      by_cases hover : elapsedMs child.tstart (child.after i).now ≥ deadlineMs
      · rw [if_pos hover]
        exact ⟨i, true, rfl, Nat.le_refl i, fun j hij hji => absurd hij (by omega), hopen, hover⟩
      · rw [if_neg hover]
        have hnow := after_now child i
        have hlt := lt_deadline (by omega) (Int.not_le.mp hover)
        have hnext : (child.after (i + 1)).now = (child.after i).now + (child.rounds i).wait := rfl
        have hwait := (child.rounds i).pos
        obtain ⟨n, timedOut, hrun, hends⟩ := ih (i + 1) (by omega) (by omega)
        refine ⟨n, timedOut, hrun, by have := hends.from_le; omega, fun j hij hjn => ?_, hends.ends⟩
        rcases Nat.eq_or_lt_of_le hij with rfl | hij
        · exact ⟨hopen, Int.not_le.mp hover⟩
        · exact hends.goes_on j hij hjn

variable (timeoutSec : Int)

/-- One interval of `select` after the time limit. -/
def Child.limit : Nat := child.tstart + 1000000000 * execTimeout timeoutSec + 1000000000

theorem execLoop_ends : ∃ n timedOut, execLoop child timeoutSec = some (child.after n, timedOut) ∧
    EndsAfter child (1000 * execTimeout timeoutSec) 0 n timedOut :=
  loop_ends child _ _ 0 (by simp only [Child.after]; omega) (Nat.succ_pos _)

theorem now_le_limit {n : Nat} {timedOut : Bool}
    (h : EndsAfter child (1000 * execTimeout timeoutSec) 0 n timedOut) :
    (child.after n).now ≤ child.limit timeoutSec := by
  cases n with
  | zero =>
    simp only [Child.after, Child.limit]
    omega
  | succ n =>
    have hbefore := (h.goes_on n (Nat.zero_le n) (Nat.lt_succ_self n)).2
    have hnow := after_now child n
    have hlt := lt_deadline (by omega) hbefore
    have hwait := (child.rounds n).interval
    simp only [Child.after, Reading.step, Child.limit]
    omega

/-! ## The chunks -/

def piped : List PipeEvent → Option Bytes
  | [] => none
  | .idle :: events => piped events
  | .data chunk :: events => (piped events).map (chunk.data ++ ·)
  | .closed :: _ => some []

theorem take_closed (p : Pipe) (hclosed : p.isOpen = false) (e : PipeEvent) : p.take e = p := by
  obtain ⟨isOpen, buffer⟩ := p
  cases hclosed
  cases e <;> rfl

theorem foldl_take_closed (events : List PipeEvent) (p : Pipe) (hclosed : p.isOpen = false) :
    events.foldl Pipe.take p = p := by
  induction events with
  | nil => rfl
  | cons e events ih => rw [foldl_cons, take_closed p hclosed e, ih]

/-- The pipe collects what the child wrote, in whatever chunks. -/
theorem foldl_take {events : List PipeEvent} {text : Bytes} (h : piped events = some text)
    (hnul : 0 ∉ text) (buffer : Bytes) :
    events.foldl Pipe.take ⟨true, buffer⟩ = ⟨false, buffer ++ text⟩ := by
  induction events generalizing text buffer with
  | nil => cases h
  | cons e events ih =>
    cases e with
    | idle => exact ih h hnul buffer
    | closed =>
      cases h
      rw [foldl_cons, append_nil]
      exact foldl_take_closed events ⟨false, buffer⟩ rfl
    | data chunk =>
      obtain ⟨rest, hrest, rfl⟩ := Option.map_eq_some_iff.mp h
      obtain ⟨hchunk, hnul⟩ : 0 ∉ chunk.data ∧ 0 ∉ rest := by simpa using hnul
      rw [foldl_cons, Pipe.take, if_pos rfl, cString_eq_self hchunk, ← append_assoc]
      exact ih hrest hnul (buffer ++ chunk.data)

def Child.outEvents (n : Nat) : List PipeEvent := (List.range n).map fun i => (child.rounds i).out

def Child.errEvents (n : Nat) : List PipeEvent := (List.range n).map fun i => (child.rounds i).err

theorem after_pipes (n : Nat) : (child.after n).out = (child.outEvents n).foldl Pipe.take {} ∧
    (child.after n).err = (child.errEvents n).foldl Pipe.take {} := by
  induction n with
  | zero => exact ⟨rfl, rfl⟩
  | succ n ih =>
    simp only [Child.outEvents, Child.errEvents] at ih
    simp only [Child.after, Reading.step, Child.outEvents, Child.errEvents, range_succ,
      map_append, foldl_append, ← ih.1, ← ih.2]
    exact ⟨rfl, rfl⟩

/-- In the first `n` rounds the child gives `out` and `err` and the ends of both pipes, and the
time limit is not reached before. -/
structure Delivers (n : Nat) (out err : Bytes) : Prop where
  out : piped (child.outEvents n) = some out
  err : piped (child.errEvents n) = some err
  inTime : ∀ i < n, elapsedMs child.tstart (child.after i).now < (1000 * execTimeout timeoutSec : Nat)

theorem after_closed {m n : Nat} (hmn : m ≤ n) (hclosed : (child.after m).isClosed = true) :
    (child.after n).out = (child.after m).out ∧ (child.after n).err = (child.after m).err := by
  induction n, hmn using Nat.le_induction with
  | base => exact ⟨rfl, rfl⟩
  | succ n _ ih =>
    obtain ⟨hout, herr⟩ : (child.after m).out.isOpen = false ∧
      (child.after m).err.isOpen = false := by
      simpa [Reading.isClosed] using hclosed
    simp only [Child.after, Reading.step, ih.1, ih.2]
    exact ⟨take_closed _ hout _, take_closed _ herr _⟩

/-- A child that delivers its texts and closes its pipes in time has them in the buffers. -/
theorem execLoop_delivers {n : Nat} {out err : Bytes} (h : Delivers child timeoutSec n out err)
    (hout : 0 ∉ out) (herr : 0 ∉ err) :
    ∃ s, execLoop child timeoutSec = some (s, false) ∧ s.out.buffer = out ∧ s.err.buffer = err := by
  obtain ⟨hpout, hperr⟩ := after_pipes child n
  have hpout : (child.after n).out = ⟨false, out⟩ := hpout.trans (foldl_take h.out hout [])
  have hperr : (child.after n).err = ⟨false, err⟩ := hperr.trans (foldl_take h.err herr [])
  have hclosed : (child.after n).isClosed = true := by
    rw [Reading.isClosed, hpout, hperr]
    rfl
  obtain ⟨m, timedOut, hloop, hends⟩ := execLoop_ends child timeoutSec
  have hmn : m ≤ n := by
    by_contra hlt
    have hopen := (hends.goes_on n (Nat.zero_le n) (by omega)).1
    rw [hclosed] at hopen
    cases hopen
  cases timedOut with
  | true =>
    obtain ⟨hopen, hover⟩ := hends.ends
    rcases Nat.eq_or_lt_of_le hmn with rfl | hlt
    · rw [hclosed] at hopen
      cases hopen
    · exact absurd (h.inTime m hlt) (Int.not_lt.mpr hover)
  | false =>
    have hsame := after_closed child hmn hends.ends
    refine ⟨_, hloop, ?_, ?_⟩
    · rw [← hsame.1, hpout]
    · rw [← hsame.2, hperr]

/-! ## The time limit -/

def Child.ExitedBy (t : Nat) : Prop := ∃ u status, child.exits = some (u, status) ∧ u ≤ t

/-- The call returns in time, and a child that is still there is reported as timed out. -/
def RespectsLimit : Prop := ∃ r, runChild child timeoutSec = .ok r ∧
  r.returned ≤ child.limit timeoutSec ∧ (¬ child.ExitedBy r.returned → r.timedOut = true)

/-- The clock when round `n` begins. -/
def Child.clock : Nat → Nat
  | 0 => child.tstart
  | n + 1 => Child.clock n + (child.rounds n).wait

/-- The ends of both pipes are read in the first `n` rounds. -/
def Child.ClosesBy (n : Nat) : Prop :=
  (∃ i < n, (child.rounds i).out = .closed) ∧ ∃ i < n, (child.rounds i).err = .closed

/-- A pipe is open when a round begins at which the time is over. -/
def Child.OpenAtDeadline : Prop :=
  ∃ n, (1000 * execTimeout timeoutSec : Nat) ≤ elapsedMs child.tstart (child.clock n) ∧
    ¬ child.ClosesBy n

theorem after_now_eq (n : Nat) : (child.after n).now = child.clock n := by
  induction n with
  | zero => rfl
  | succ n ih => rw [Child.after, Reading.step, ih, Child.clock]

theorem take_isOpen (p : Pipe) (e : PipeEvent) :
    (p.take e).isOpen = false ↔ p.isOpen = false ∨ e = .closed := by
  cases e with
  | idle => simp [Pipe.take]
  | data chunk =>
    simp only [Pipe.take]
    split <;> simp
  | closed => simp [Pipe.take]

theorem isClosed_iff (n : Nat) : (child.after n).isClosed = true ↔ child.ClosesBy n := by
  have hpipes : ((child.after n).out.isOpen = false ↔ ∃ i < n, (child.rounds i).out = .closed) ∧
      ((child.after n).err.isOpen = false ↔ ∃ i < n, (child.rounds i).err = .closed) := by
    induction n with
    | zero => simp [Child.after]
    | succ n ih =>
      simp only [Child.after, Reading.step, take_isOpen, ih.1, ih.2, Nat.lt_succ_iff_lt_or_eq,
        or_and_right, exists_or, exists_eq_left, and_self]
  simp [Reading.isClosed, Child.ClosesBy, hpipes.1, hpipes.2]

/-- Pipes that are closed after `m` rounds are closed after more. -/
theorem ClosesBy.mono {m n : Nat} (hmn : m ≤ n) (h : child.ClosesBy m) : child.ClosesBy n := by
  obtain ⟨⟨i, hi, hout⟩, j, hj, herr⟩ := h
  exact ⟨⟨i, by omega, hout⟩, j, by omega, herr⟩

/-- The loop times out exactly if a pipe is open at the deadline. -/
theorem timedOut_iff {n : Nat} {timedOut : Bool}
    (h : EndsAfter child (1000 * execTimeout timeoutSec) 0 n timedOut) :
    timedOut = true ↔ child.OpenAtDeadline timeoutSec := by
  cases timedOut with
  | true =>
    obtain ⟨hopen, hover⟩ := h.ends
    refine iff_of_true rfl ⟨n, after_now_eq child n ▸ hover, ?_⟩
    rw [← isClosed_iff, hopen]
    exact Bool.false_ne_true
  | false =>
    refine iff_of_false Bool.false_ne_true ?_
    rintro ⟨m, hover, hopen⟩
    rcases Nat.lt_or_ge m n with hlt | hge
    · have hbefore := (h.goes_on m (Nat.zero_le m) hlt).2
      rw [after_now_eq] at hbefore
      omega
    · exact hopen (ClosesBy.mono child hge ((isClosed_iff child n).mp h.ends))

/-- The call returns in time, with a report that fits, exactly if one of the pipes is open when
the time is over, or the child exits within one interval of `select` after it. -/
theorem exec_within_limit_iff : RespectsLimit child timeoutSec ↔
    child.OpenAtDeadline timeoutSec ∨ child.ExitedBy (child.limit timeoutSec) := by
  obtain ⟨n, timedOut, hloop, hends⟩ := execLoop_ends child timeoutSec
  have hnow := now_le_limit child timeoutSec hends
  have hcall : runChild child timeoutSec = afterLoop child (child.after n) timedOut := by
    rw [runChild, hloop]
  unfold RespectsLimit
  rw [hcall, ← timedOut_iff child timeoutSec hends, afterLoop]
  cases hexits : child.exits with
  | none =>
    have hnever : ∀ t, ¬ child.ExitedBy t := by
      rintro t ⟨u, status, hsome, -⟩
      rw [hexits] at hsome
      cases hsome
    cases timedOut with
    | true =>
      rw [waitChild, hexits]
      exact iff_of_true ⟨_, rfl, hnow, fun _ => rfl⟩ (.inl rfl)
    | false =>
      rw [waitChild, hexits]
      refine iff_of_false ?_ ?_
      · rintro ⟨r, hr, -⟩
        cases hr
      · rintro (htimedOut | hexited)
        · cases htimedOut
        · exact hnever _ hexited
  | some exit =>
    obtain ⟨u, status⟩ := exit
    have hexited : ∀ t, child.ExitedBy t ↔ u ≤ t := by
      intro t
      simp [Child.ExitedBy, hexits]
    cases timedOut with
    | true =>
      rw [waitChild, hexits]
      exact iff_of_true ⟨_, rfl, hnow, fun _ => rfl⟩ (.inl rfl)
    | false =>
      rw [waitChild, hexits, hexited]
      constructor
      · rintro ⟨r, hr, hreturned, -⟩
        cases hr
        exact .inr ((Nat.le_max_right _ _).trans hreturned)
      · rintro (htimedOut | hle)
        · cases htimedOut
        · refine ⟨_, rfl, Nat.max_le.mpr ⟨hnow, hle⟩, fun hnot => ?_⟩
          exact absurd ((hexited _).mpr (Nat.le_max_right _ _)) hnot

def stayingChild : Child where
  t0 := 0
  tstart := 0
  order := Nat.le_refl 0
  rounds := fun _ => ⟨1000000, by decide, by decide, .closed, .closed⟩
  exits := none

/-- A child that closes its pipes and stays is waited for without end. -/
theorem closed_pipes_hang : runChild stayingChild 5 = .error .diverged ∧
    ¬ RespectsLimit stayingChild 5 := by
  have hcloses : Delivers stayingChild 5 1 [] [] := by
    refine ⟨rfl, rfl, fun i hi => ?_⟩
    obtain rfl := Nat.lt_one_iff.mp hi
    decide
  obtain ⟨s, hloop, -, -⟩ := execLoop_delivers stayingChild 5 hcloses (by simp) (by simp)
  have hcall : runChild stayingChild 5 = .error .diverged := by
    rw [runChild, hloop]
    rfl
  refine ⟨hcall, ?_⟩
  rintro ⟨r, hr, -⟩
  rw [hcall] at hr
  cases hr

/-! ## The reply -/

def isOutputChar (c : Char) : Bool := 32 ≤ c.toNat || c == '\n' || c == '\t'

def WaitStatus.code : WaitStatus → Nat
  | .exited status => status.toNat
  | .signaled sig => 128 + sig.val

theorem escapeWith_raw {control : UInt8 → Bytes} {s : Bytes}
    (h : ∀ b ∈ s, GoString.isRaw b = true) : escapeWith control s = s := by
  have hbyte : ∀ b ∈ s, escapeByte control b = [b] := by
    intro b hb
    have hraw := h b hb
    simp only [GoString.isRaw, Bool.and_eq_true, decide_eq_true_eq, bne_iff_ne] at hraw
    obtain ⟨⟨hlow, hquote⟩, hback⟩ := hraw
    simp [escapeByte, hquote, hback, UInt8.not_lt.mpr hlow]
  rw [escapeWith, flatMap_congr hbyte, flatMap_singleton']

theorem unquotes_xesc_char {c : Char} (h : isOutputChar c = true) :
    Unquotes (xesc (String.utf8EncodeChar c)) (String.utf8EncodeChar c) := by
  by_cases hquote : c = '"'
  · subst hquote
    exact unquotes_escape fun _ => rfl
  by_cases hback : c = '\\'
  · subst hback
    exact unquotes_escape fun _ => rfl
  by_cases hlow : 32 ≤ c.toNat
  · rw [xesc, escapeWith_raw fun b hb => GoString.utf8EncodeChar_raw hquote hback hlow hb]
    exact unquotes_char hlow hquote hback
  · have hcontrol : c = '\n' ∨ c = '\t' := by simpa [isOutputChar, hlow] using h
    rcases hcontrol with rfl | rfl
    · exact unquotes_escape fun _ => rfl
    · exact unquotes_escape fun _ => rfl

theorem unquotes_xesc {text : List Char} (h : text.all isOutputChar = true) :
    Unquotes (xesc (utf8 text)) (utf8 text) := by
  have hescape : xesc (utf8 text) = text.flatMap fun c => xesc (String.utf8EncodeChar c) := by
    rw [xesc, escapeWith, utf8, flatMap_assoc]
    rfl
  rw [hescape]
  exact Unquotes.flatMap fun c hc => unquotes_xesc_char (all_eq_true.mp h c hc)

theorem utf8_no_nul {text : List Char} (h : text.all isOutputChar = true) : 0 ∉ utf8 text := by
  intro hmem
  obtain ⟨c, hc, hzero⟩ := mem_flatMap.mp hmem
  have hout := all_eq_true.mp h c hc
  rw [zero_mem_utf8EncodeChar_iff] at hzero
  have hnul : c = Char.ofNat 0 := Char.toNat_inj.mp hzero
  rw [hnul] at hout
  exact absurd hout (by decide)

def execValue (out err : List Char) (status : WaitStatus) (durationMs : Int64) : Value :=
  .obj [(lit "ok", .bool (status.code == 0)), (lit "exit_code", .num (decimal status.code)),
    (lit "stdout", .str (utf8 out)), (lit "stderr", .str (utf8 err)),
    (lit "duration_ms", .num (int64 durationMs)), (lit "timed_out", .bool false)]

theorem toInt_exitCode (status : WaitStatus) : (exitCode status false).toInt = status.code := by
  cases status with
  | exited status =>
    have hlt := status.toNat_lt
    exact Int32.toInt_ofNat_of_lt (by omega)
  | signaled sig =>
    have hlt := sig.isLt
    exact Int32.toInt_ofNat_of_lt (by omega)

theorem exitCode_exact (status : WaitStatus) :
    int32 (exitCode status false) = decimal status.code ∧
      (exitCode status false == 0) = (status.code == 0) := by
  have hcode := toInt_exitCode status
  refine ⟨by rw [int32, hcode]; rfl, ?_⟩
  rw [Bool.eq_iff_iff, beq_iff_eq, beq_iff_eq, ← Int32.toInt_inj, hcode]
  exact Int.natCast_eq_zero

/-- The reply is read as the two outputs, the status and the duration. -/
theorem decodes_execReply {out err : List Char} (hout : out.all isOutputChar = true)
    (herr : err.all isOutputChar = true) (hlen : (utf8 out).length ≤ 128 * 1024)
    (hlen' : (utf8 err).length ≤ 32 * 1024) (status : WaitStatus) (durationMs : Int64) :
    Decodes (execReply (utf8 out) (utf8 err) status false durationMs)
      (execValue out err status durationMs) := by
  obtain ⟨hcode, hok⟩ := exitCode_exact status
  have hfits := length_object_le [("ok", Json.bool (!false && exitCode status false == 0)),
    ("exit_code", int32 (exitCode status false)), ("stdout", string (xesc (utf8 out))),
    ("stderr", string (xesc (utf8 err))), ("duration_ms", int64 durationMs),
    ("timed_out", Json.bool false)]
  have hkeys : keysLength ["ok", "exit_code", "stdout", "stderr", "duration_ms",
    "timed_out"] = 67 := by
    decide
  have hbool : ∀ b, (Json.bool b).length ≤ 5 := by decide
  have hok5 := hbool (!false && exitCode status false == 0)
  have hint := int32_length (exitCode status false)
  have hduration := int64_length durationMs
  simp only [map_cons, map_nil, hkeys, valuesLength, length_string] at hfits
  rw [execReply, take_of_length_le hlen, take_of_length_le hlen', snprintf_eq_self]
  · rw [hcode, hok]
    exact decodes_object (member_cons (decodes_bool _)
      (member_cons (decodes_decimal _)
      (member_cons (decodes_string (body_xesc _) (unquotes_xesc hout))
      (member_cons (decodes_string (body_xesc _) (unquotes_xesc herr))
      (member_cons (decodes_decimalInt _)
      (member_cons (decodes_bool _) .nil))))))
  · have hfalse : (Json.bool false).length = 5 := by decide
    omega

/-- What the child wrote, in whatever chunks, is what the server decodes. -/
theorem exec_output_decodes (child : Child) (timeoutSec : Int) (n : Nat) (out err : List Char)
    (hout : out.all isOutputChar = true) (herr : err.all isOutputChar = true)
    (hlen : (utf8 out).length ≤ 128 * 1024) (hlen' : (utf8 err).length ≤ 32 * 1024)
    (h : Delivers child timeoutSec n (utf8 out) (utf8 err)) (t : Nat) (status : WaitStatus)
    (hexits : child.exits = some (t, status)) (command : Bytes) (hcommand : command ≠ [])
    (type : String) (htype : type = "ack" ∨ type = "error") (id : Bytes)
    (hid : isPlainText id = true) :
    ∃ reply durationMs, cmdExecJson command timeoutSec (.started child) = .ok reply ∧
      decode reply = some (execValue out err status durationMs) ∧
      decode (sendText type id [] reply) =
        some (messageValue type id [] (execValue out err status durationMs)) := by
  obtain ⟨s, hloop, hsout, hserr⟩ :=
    execLoop_delivers child timeoutSec h (utf8_no_nul hout) (utf8_no_nul herr)
  have hwait : waitChild child s.now false = some (max s.now t, status) := by
    rw [waitChild, hexits]
    rfl
  have hdecodes := decodes_execReply hout herr hlen hlen' status
    (.ofInt (elapsedMs child.t0 (max s.now t)))
  have hcall : cmdExecJson command timeoutSec (.started child) =
      .ok (execReply (utf8 out) (utf8 err) status false
        (.ofInt (elapsedMs child.t0 (max s.now t)))) := by
    rw [cmdExecJson, if_neg (by simpa using hcommand), runChild, hloop]
    simp only [afterLoop, hwait, hsout, hserr]
    rfl
  refine ⟨_, _, hcall, hdecodes.decode, ?_⟩
  rcases htype with rfl | rfl
  · exact decode_sendText (by decide) (by decide) hid rfl hdecodes
  · exact decode_sendText (by decide) (by decide) hid rfl hdecodes

/-- A child that writes `a"`, then a newline, and exits with status 3. -/
def talkingChild : Child where
  t0 := 0
  tstart := 0
  order := Nat.le_refl 0
  rounds := fun i => ⟨1000000, by decide, by decide,
    if i = 0 then .data ⟨[97, 34], by decide, by decide⟩
    else if i = 1 then .data ⟨[10], by decide, by decide⟩ else .closed, .closed⟩
  exits := some (2000000, .exited 3)

theorem talkingChild_is_heard :
    Delivers talkingChild 60 3 (utf8 ['a', '"', '\n']) (utf8 []) ∧
      ∃ reply durationMs, cmdExecJson (lit "x") 60 (.started talkingChild) = .ok reply ∧
        decode reply = some (execValue ['a', '"', '\n'] [] (.exited 3) durationMs) ∧
        decode (sendText "ack" (lit "req-1") [] reply) = some (messageValue "ack" (lit "req-1") []
          (execValue ['a', '"', '\n'] [] (.exited 3) durationMs)) := by
  have hdelivers : Delivers talkingChild 60 3 (utf8 ['a', '"', '\n']) (utf8 []) := by
    refine ⟨by decide, by decide, ?_⟩
    decide
  exact ⟨hdelivers, exec_output_decodes talkingChild 60 3 ['a', '"', '\n'] [] (by decide)
    (by decide) (by decide) (by decide) hdelivers 2000000 (.exited 3) rfl (lit "x") (by decide)
    "ack" (.inl rfl) (lit "req-1") (by decide)⟩

end CtForge.Agent
