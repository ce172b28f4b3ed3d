import CtForge.Agent.Frames
import CtForge.Server.System

/-!
# Connections without the registration token

`Handle` reads the first frame of a connection, decodes its envelope and then, by its
type, its payload; each of the three handlers compares the token of the envelope
before it looks at the store. What `json.Unmarshal` makes of a text is a parameter.

Two runs are compared: one in which a connection comes in, sends any bytes and is
served, and the same run without it. `Sys.mask` forgets where one goroutine stands and
what it answered; the other goroutines take the same steps over a masked state.
-/

namespace CtForge.Server

open CtForge.Runs CLang List Function Option
open CtForge.Agent (readAll maxMessageSize)

/-! ## The first frame (`protocol.go`) -/

/-- The members of a message that `Handle` looks at. -/
structure Envelope where
  type : String
  token : String := ""
  payload : Bytes := []

/-- What `json.Unmarshal` makes of a text, by the type it is decoded to. -/
structure Unmarshaller where
  message : Bytes → Option Envelope
  handshakeReq : Bytes → Option HandshakeReqPayload
  uninstallReq : Bytes → Option UninstallReqPayload
  register : Bytes → Option RegisterPayload

namespace Unmarshaller

variable (u : Unmarshaller)

/-- `Decode` on a connection that carries the bytes `stream` and then ends, or is silent
until its deadline. -/
def decode (stream : Bytes) : Option Envelope := do
  let (hdr, rest) ← readAll 4 stream
  let n := hdr.foldl (fun n b => 256 * n + b.toNat) 0
  if n == 0 || n > maxMessageSize then none
  let (buf, _) ← readAll n rest
  let m ← u.message buf
  if m.type == "" then none else some m

/-- `DecodePayload`; without a payload every field is zero. -/
def decodePayload {α : Type} (unmarshal : Bytes → Option α) (zero : α) (m : Envelope) : Option α :=
  if m.payload.isEmpty then some zero else unmarshal m.payload

/-- What `Handle` goes by: one of three types whose payload decodes. -/
def hello (stream : Bytes) : Option Hello := do
  let m ← u.decode stream
  if m.type == "handshake_req" then
    (decodePayload u.handshakeReq { agentId := "" } m).map (.handshakeReq m.token)
  else if m.type == "uninstall_req" then
    (decodePayload u.uninstallReq { agentId := "" } m).map (.uninstallReq m.token)
  else if m.type == "register" then
    (decodePayload u.register { agentId := "" } m).map (.register m.token)
  else none

def Carries (token : String) (stream : Bytes) : Prop :=
  ∃ m, u.decode stream = some m ∧ m.token = token

end Unmarshaller

def Hello.token : Hello → String
  | .handshakeReq token _ | .uninstallReq token _ | .register token _ => token

variable {stream : Bytes} {u : Unmarshaller}

theorem Unmarshaller.hello_token {h : Hello} (hhello : u.hello stream = some h) :
    ∃ m, u.decode stream = some m ∧ m.token = h.token := by
  obtain ⟨m, hm, hrest⟩ := bind_eq_some_iff.mp hhello
  refine ⟨m, hm, ?_⟩
  split_ifs at hrest
  all_goals
    obtain ⟨p, -, rfl⟩ := map_eq_some_iff.mp hrest
    rfl

variable {srv : Identity}

theorem greet_stranger (htoken : srv.token ≠ "")
    (hstream : ¬ u.Carries srv.token stream) (ip : String) :
    (greet srv ip (u.hello stream)).1 = .finished := by
  cases hhello : u.hello stream with
  | none => rfl
  | some h =>
    obtain ⟨m, hm, hmtoken⟩ := Unmarshaller.hello_token hhello
    have hother : srv.token ≠ "" ∧ h.token ≠ srv.token :=
      ⟨htoken, fun heq => hstream ⟨m, hm, hmtoken.trans heq⟩⟩
    cases h with
    | handshakeReq token req | uninstallReq token req | register token reg =>
      simp only [greet, if_pos (show _ ∧ token ≠ _ from hother)]

/-! ## One goroutine out of sight -/

def Event.goroutine : Event → Option Tid
  | .accept t .. | .receive t _ | .hangup t | .packet t .. | .run t _ => some t
  | .remoteUninstall t .. | .delete t _ | .load t _ => some t
  | .prune _ | .decide .. | .decideUninstall .. => none

/-- The state with the goroutine `t` put elsewhere. -/
def Sys.mask (s : Sys) (t : Tid) (task : Task) (replies : List Reply) : Sys :=
  { s with
    tasks := Function.update s.tasks t task
    sent := Function.update s.sent t replies }

section Mask

variable (s : Sys) {t u : Tid} (task : Task) (replies : List Reply)

theorem mask_loader : (s.mask t task replies).loader = s.loader := rfl

theorem mask_tasks_of_ne (h : u ≠ t) : (s.mask t task replies).tasks u = s.tasks u :=
  update_of_ne h ..

theorem mask_goto (h : u ≠ t) (next : Task) (answers : List Reply) :
    (s.mask t task replies).goto u next answers = (s.goto u next answers).mask t task replies := by
  simp only [Sys.goto, Sys.mask, update_of_ne h, update_comm h]

theorem mask_self : s.mask t (s.tasks t) (s.sent t) = s := by
  simp only [Sys.mask, update_eq_self]

theorem mask_spawn (h : u ≠ t) (next : Task) (answers : List Reply) :
    (s.mask t task replies).spawn u next answers =
      (s.spawn u next answers).mask t task replies := by
  simp only [Sys.spawn, mask_tasks_of_ne s task replies h]
  split
  · exact mask_goto s task replies h next answers
  · rfl

theorem mask_enterSession (id : Id) :
    (s.mask t task replies).enterSession u id = (s.enterSession u id).mask t task replies := by
  simp only [Sys.enterSession, Sys.mask]
  cases s.sessions id <;> rfl

theorem mask_leaveSession (id : Id) :
    (s.mask t task replies).leaveSession u id = (s.leaveSession u id).mask t task replies := by
  by_cases hown : s.sessions id = some u
  · rw [Sys.leaveSession, if_pos (by exact hown), Sys.leaveSession, if_pos hown]
    rfl
  · rw [Sys.leaveSession, if_neg (by exact hown), Sys.leaveSession, if_neg hown]

theorem mask_advance (srv : Identity) (h : u ≠ t) (now : Time) :
    advance srv (s.mask t task replies) u now = (advance srv s u now).mask t task replies := by
  simp only [advance, mask_tasks_of_ne s task replies h]
  split
  · rw [mask_enterSession, mask_goto _ task replies h]
  · rw [mask_leaveSession, mask_goto _ task replies h]
  · rw [mask_goto _ task replies h]
    rfl
  · by_cases hlock : ((s.tasks u).locksAgents && s.loader.isSome) = true
    · rw [if_pos (by exact hlock), if_pos hlock]
    · rw [if_neg (by exact hlock), if_neg hlock, mask_goto _ task replies h]
      rfl

/-- The other goroutines take the same steps over a masked state. -/
theorem mask_step (srv : Identity) {e : Event} (h : e.goroutine ≠ some t) :
    step srv (s.mask t task replies) e = (step srv s e).mask t task replies := by
  cases e with
  | accept u ip hello =>
    exact mask_spawn s task replies (fun hu => h (congrArg some hu)) _ _
  | receive u m =>
    have hu : u ≠ t := fun hu => h (congrArg some hu)
    simp only [step, mask_tasks_of_ne s task replies hu]
    split
    · by_cases hclosed : s.closed u = true
      · rw [if_pos (by exact hclosed), if_pos hclosed]
      · rw [if_neg (by exact hclosed), if_neg hclosed, mask_goto s task replies hu]
    · rfl
  | hangup u =>
    have hu : u ≠ t := fun hu => h (congrArg some hu)
    simp only [step, mask_tasks_of_ne s task replies hu]
    split
    · exact mask_goto s task replies hu _ _
    · rfl
  | packet u ip d | delete u id =>
    exact mask_spawn s task replies (fun hu => h (congrArg some hu)) _ _
  | prune now | decide id approve now =>
    by_cases hlock : s.loader.isSome = true
    · rw [step, if_pos (by exact hlock), step, if_pos hlock]
    · rw [step, if_neg (by exact hlock), step, if_neg hlock]
      rfl
  | decideUninstall id approved username now => rfl
  | remoteUninstall u id username =>
    have hu : u ≠ t := fun hu => h (congrArg some hu)
    by_cases hentry : (s.sessions id).isSome = true
    · rw [step, if_pos (by exact hentry), step, if_pos hentry, mask_spawn s task replies hu]
    · rw [step, if_neg (by exact hentry), step, if_neg hentry]
  | load u rs =>
    have hu : u ≠ t := fun hu => h (congrArg some hu)
    simp only [step, mask_tasks_of_ne s task replies hu, mask_loader]
    split
    · rw [mask_goto s task replies hu]
      rfl
    · rfl
  | run u now => exact mask_advance s task replies srv (fun hu => h (congrArg some hu)) now

end Mask

/-! ## Two runs -/

/-- What the goroutine `t` of a connection that sent `stream` can do. -/
inductive OfConnection (u : Unmarshaller) (t : Tid) (stream : Bytes) : Event → Prop
  | accept (ip : String) : OfConnection u t stream (.accept t ip (u.hello stream))
  | receive (m : Message) : OfConnection u t stream (.receive t m)
  | hangup : OfConnection u t stream (.hangup t)
  | run (now : Time) : OfConnection u t stream (.run t now)

/-- The goroutine has not begun, or its `Handle` returned. -/
def Task.away : Task → Bool
  | .idle | .finished => true
  | _ => false

/-- The two states differ in the goroutine `t` only; it is away in the first and has
not begun in the second. -/
def DifferAt (t : Tid) (s s' : Sys) : Prop :=
  (s.tasks t).away = true ∧ ∃ replies, s' = s.mask t .idle replies

variable {t : Tid}

theorem DifferAt.goto {s s' : Sys} (h : DifferAt t s s') {task : Task}
    (htask : task.away = true) (answers : List Reply) : DifferAt t (s.goto t task answers) s' := by
  obtain ⟨-, replies, rfl⟩ := h
  refine ⟨?_, replies, ?_⟩
  · rwa [goto_tasks, if_pos rfl]
  · simp only [Sys.mask, Sys.goto, update_idem]

theorem stranger_step (htoken : srv.token ≠ "")
    (hstream : ¬ u.Carries srv.token stream) {s s' : Sys} (h : DifferAt t s s')
    {e : Event} (he : OfConnection u t stream e) : DifferAt t (step srv s e) s' := by
  have haway := h.1
  cases he with
  | accept ip =>
    simp only [step, Sys.spawn]
    split
    · exact h.goto (by rw [greet_stranger htoken hstream]; rfl) _
    · exact h
  | receive m | hangup =>
    simp only [step]
    split
    · rename_i htask
      rw [htask] at haway
      cases haway
    · exact h
  | run now =>
    cases htask : s.tasks t with
    | idle | finished =>
      simp only [step, advance, htask, Task.locksAgents, Task.move]
      exact h.goto rfl []
    | _ =>
      rw [htask] at haway
      cases haway

/-- A step of another goroutine keeps two states apart in the one goroutine only. -/
theorem DifferAt.step {s s' : Sys} (h : DifferAt t s s') (srv : Identity) {e : Event}
    (he : e.goroutine ≠ some t) : DifferAt t (step srv s e) (step srv s' e) := by
  obtain ⟨haway, replies, rfl⟩ := h
  have hkeep : (Server.step srv s e).tasks t = s.tasks t := by
    have hself := mask_step s (s.tasks t) (s.sent t) srv he
    rw [mask_self] at hself
    rw [hself]
    exact update_self ..
  exact ⟨by rw [hkeep]; exact haway, replies, mask_step s .idle replies srv he⟩

theorem runs_differ_at (htoken : srv.token ≠ "")
    (hstream : ¬ u.Carries srv.token stream) {es : List Event}
    (hes : ∀ e ∈ es, e.goroutine = some t → OfConnection u t stream e) {s s' : Sys}
    (h : DifferAt t s s') :
    DifferAt t (exec (step srv) s es)
      (exec (step srv) s' (es.filter fun e => e.goroutine ≠ some t)) := by
  induction es generalizing s s' with
  | nil => exact h
  | cons e es ih =>
    obtain ⟨hhead, hrest⟩ := forall_mem_cons.mp hes
    by_cases he : e.goroutine = some t
    · rw [filter_cons_of_neg (by simpa using he)]
      exact ih hrest (stranger_step htoken hstream h (hhead he))
    · rw [filter_cons_of_pos (by simpa using he)]
      exact ih hrest (h.step srv he)

/-- If the first frame does not carry the token, the two runs have the same store and the same
session table. -/
theorem strangers_change_nothing (srv : Identity) (htoken : srv.token ≠ "") (u : Unmarshaller)
    (stream : Bytes) (hstream : ¬ u.Carries srv.token stream) (t : Tid) (s : Sys)
    (hnew : s.tasks t = .idle) (es : List Event)
    (hes : ∀ e ∈ es, e.goroutine = some t → OfConnection u t stream e) :
    let others := es.filter fun e => e.goroutine ≠ some t
    (exec (step srv) s es).store = (exec (step srv) s others).store ∧
    (exec (step srv) s es).sessions = (exec (step srv) s others).sessions ∧
    ((exec (step srv) s es).tasks t).away = true := by
  intro others
  have hstart : DifferAt t s s := by
    refine ⟨by rw [hnew]; rfl, s.sent t, ?_⟩
    conv_lhs => rw [← mask_self s (t := t), hnew]
  obtain ⟨haway, replies, hmask⟩ := runs_differ_at htoken hstream hes hstart
  rw [hmask]
  exact ⟨rfl, rfl, haway⟩

def guess : Bytes := lit "\x7b\"type\":\"register\",\"token\":\"guess\"\x7d"

/-- What `json.Unmarshal` gives for the message above, which has no payload. -/
def guesser : Unmarshaller where
  message := fun data =>
    if data = guess then some { type := "register", token := "guess" } else none
  handshakeReq := fun _ => none
  uninstallReq := fun _ => none
  register := fun _ => none

/-- A host that guesses the token is told so, and nothing else happens. -/
theorem guess_changes_nothing : let srv : Identity := { token := "secret", serverId := "s" }
    let stream : Bytes := [0, 0, 0, 35] ++ guess
    let es : List Event := [.accept 0 "" (guesser.hello stream), .prune 0, .run 0 0]
    let s := Sys.start (Store.new [])
    ¬ guesser.Carries "secret" stream ∧
      (exec (step srv) s es).sent 0 = [.error "unauthorized"] ∧
      (exec (step srv) s es).store = (exec (step srv) s [.prune 0]).store ∧
      (exec (step srv) s es).sessions = (exec (step srv) s [.prune 0]).sessions := by
  intro srv stream es s
  have hdecode : (guesser.decode stream).map Envelope.token = some "guess" := by
    decide +kernel
  have hstream : ¬ guesser.Carries srv.token stream := by
    rintro ⟨m, hm, htoken⟩
    rw [hm, map_some, htoken] at hdecode
    exact absurd hdecode (by decide)
  have hsame := strangers_change_nothing srv (by decide) guesser stream hstream 0 s rfl es (by
    intro e he _
    simp only [es, mem_cons, not_mem_nil, or_false] at he
    obtain rfl | rfl | rfl := he
    · exact .accept ""
    · rename_i h
      cases h
    · exact .run 0)
  exact ⟨hstream, by decide +kernel, hsame.1, hsame.2.1⟩

end CtForge.Server
