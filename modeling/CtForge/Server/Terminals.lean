import Mathlib.Data.List.AList
import CtForge.Server.AgentConn

/-!
# Terminal sessions (`terminal.go`)

The registry maps session IDs to session objects. An object outlives its entry:
a socket that is attached to it keeps it, so the objects stand in a list and the
registry holds their positions. What a session's lock guards is `TermState`; the
rest of a session never changes.

A WebSocket request attaches to the session it names or opens a new one; its
frames are then terminal input or controls until the socket ends.
-/

namespace CtForge.Server

/-! ## Messages to an agent -/

open List Option

inductive MsgType where
  | terminalOpen | terminalInput | terminalClose
  | configGet | configSet
  | fileList | fileRead | fileWrite | fileDelete | fileRename | fileMkdir
  | serviceList | serviceAction
  | pkgUpdates | pkgUpgrade | pkgHistory
  | securityAudit | ping
  | sysUserList | sysUserPasswd | sysUserLock | sysLog
  | netTraffic | netConn
  | cmdExec | taskRun | offline
  | pfOpen | pfClose | pfAccept | pfData
  | upgrade | uninstall
  | hardware | diskIo
  | dockerList | dockerAction | dockerLogs | dockerImages
  | dockerInspect | dockerCreate | dockerCompose
  | ctfLsmod | ctfInsmod | ctfRmmod | ctfMod | ctfStatus
  deriving DecidableEq, Repr

/-- A message sent over the connection `conn` of `agent`. -/
structure Sent where
  conn : Tid
  agent : Id
  type : MsgType
  session : String := ""
  deriving DecidableEq, Repr

/-! ## Sessions and their registry -/

/-- What `mu` of a session guards. -/
structure TermState where
  ws : Option Nat := none
  buffer : List UInt8 := []
  suspended : Bool
  pumping : Bool := false
  remark : String := ""
  closed : Bool := false
  cols : Int := 120
  rows : Int := 32
  updatedAt : Time
  deriving DecidableEq

structure TermSession where
  id : String
  agentId : Id
  createdAt : Time
  ac : Tid
  owner : String
  sshOut : Bool := false
  state : TermState
  deriving DecidableEq

structure TermRegistry where
  objs : List TermSession
  sessions : AList fun _ : String => Nat
  named : ∀ id r, sessions.lookup id = some r → ∃ ts, objs[r]? = some ts ∧ ts.id = id

namespace TermRegistry

def empty : TermRegistry where
  objs := []
  sessions := ∅
  named := by simp

def add (reg : TermRegistry) (ts : TermSession) : TermRegistry where
  objs := reg.objs ++ [ts]
  sessions := reg.sessions.insert ts.id reg.objs.length
  named := by
    intro id r h
    by_cases hid : id = ts.id
    · subst hid
      rw [AList.lookup_insert] at h
      obtain rfl := some.inj h
      exact ⟨ts, by simp, rfl⟩
    · rw [AList.lookup_insert_ne hid] at h
      obtain ⟨old, hold, hname⟩ := reg.named id r h
      have hr : r < reg.objs.length := (List.getElem?_eq_some_iff.mp hold).1
      exact ⟨old, by rw [List.getElem?_append_left hr, hold], hname⟩

def get (reg : TermRegistry) (id : String) : Option Nat := reg.sessions.lookup id

def remove (reg : TermRegistry) (id : String) : TermRegistry where
  objs := reg.objs
  sessions := reg.sessions.erase id
  named := by
    intro key r h
    by_cases hkey : key = id
    · subst hkey
      simp at h
    · rw [AList.lookup_erase_ne hkey] at h
      exact reg.named key r h

/-- A section under the lock of the object `r`. -/
def modify (reg : TermRegistry) (r : Nat) (f : TermState → TermState) : TermRegistry where
  objs := reg.objs.modify r fun ts => { ts with state := f ts.state }
  sessions := reg.sessions
  named := by
    intro id key h
    obtain ⟨ts, hts, hname⟩ := reg.named id key h
    rw [List.getElem?_modify, hts]
    split
    · exact ⟨_, rfl, hname⟩
    · exact ⟨ts, rfl, hname⟩

/-- The session that `id` names. -/
def session (reg : TermRegistry) (id : String) : Option TermSession :=
  (reg.get id).bind fun r => reg.objs[r]?

def all (reg : TermRegistry) : List TermSession :=
  reg.sessions.keys.filterMap reg.session

/-- The IDs that `closeByAgent` lists before it deletes them one by one. -/
def idsOfAgent (reg : TermRegistry) (agentId : Id) : List String :=
  (reg.all.filter fun ts => ts.agentId == agentId).map TermSession.id

variable {id : String} {ts : TermSession} {reg : TermRegistry}

theorem session_id (h : reg.session id = some ts) : ts.id = id := by
  obtain ⟨r, hr, hobj⟩ := bind_eq_some_iff.mp h
  obtain ⟨ts', hts, hname⟩ := reg.named id r hr
  obtain rfl := some.inj (hobj.symm.trans hts)
  exact hname

theorem get_ne_none (h : reg.session id = some ts) : reg.get id ≠ none := by
  intro hnone
  rw [session, hnone] at h
  cases h

theorem mem_all : ts ∈ reg.all ↔ reg.session ts.id = some ts := by
  constructor
  · intro h
    obtain ⟨id, -, hid⟩ := mem_filterMap.mp h
    rw [session_id hid]
    exact hid
  · intro h
    obtain ⟨r, hr, -⟩ := bind_eq_some_iff.mp h
    have hkey : ts.id ∈ reg.sessions.keys :=
      AList.mem_keys.mpr (AList.lookup_isSome.mp (isSome_iff_exists.mpr ⟨r, hr⟩))
    exact mem_filterMap.mpr ⟨ts.id, hkey, h⟩

@[simp] theorem get_empty (id : String) : empty.get id = none := AList.lookup_empty id

theorem get_add (reg : TermRegistry) (ts : TermSession) (id : String) :
    (reg.add ts).get id = if id = ts.id then some reg.objs.length else reg.get id := by
  split
  · rename_i hid
    rw [hid]
    exact AList.lookup_insert reg.sessions
  · exact AList.lookup_insert_ne ‹_›

theorem get_remove (reg : TermRegistry) (key id : String) :
    (reg.remove key).get id = if id = key then none else reg.get id := by
  split
  · rename_i hid
    rw [hid]
    exact AList.lookup_erase key reg.sessions
  · exact AList.lookup_erase_ne ‹_›

theorem session_of_remove {key id : String}
    (h : (reg.remove key).session id = some ts) : reg.session id = some ts := by
  obtain ⟨r, hr, hobj⟩ := bind_eq_some_iff.mp h
  rw [get_remove] at hr
  split at hr
  · cases hr
  · exact bind_eq_some_iff.mpr ⟨r, hr, hobj⟩

theorem session_of_add {new : TermSession} (h : (reg.add new).session id = some ts) :
    reg.session id = some ts ∨ new.id = id ∧ new = ts := by
  obtain ⟨r, hr, hobj⟩ := bind_eq_some_iff.mp h
  rw [get_add] at hr
  split at hr
  · rename_i hid
    obtain rfl := some.inj hr
    exact .inr ⟨hid.symm, by simpa [add] using hobj⟩
  · obtain ⟨old, hold, -⟩ := reg.named id r hr
    have hlt : r < reg.objs.length := (List.getElem?_eq_some_iff.mp hold).1
    refine .inl (bind_eq_some_iff.mpr ⟨r, hr, ?_⟩)
    rwa [add, List.getElem?_append_left hlt] at hobj

end TermRegistry

/-! ## Listing -/

def afterColon (name : String) : List Char :=
  (name.toList.reverse.takeWhile (· != ':')).reverse

structure TermView where
  id : String
  agentId : Id
  owner : String
  remark : String
  createdAt : Int
  updatedAt : Int
  suspended : Bool
  attached : Bool
  buffered : Nat

def TermSession.view (ts : TermSession) : TermView where
  id := ts.id
  agentId := ts.agentId
  owner := ts.owner
  remark := ts.state.remark
  createdAt := unixMilli ts.createdAt
  updatedAt := unixMilli ts.state.updatedAt
  suspended := ts.state.suspended
  attached := ts.state.ws.isSome
  buffered := ts.state.buffer.length

/-- The owner `got` is shown to `want`. `EqualFold` compares names letter by letter
in the representatives that `fold` gives of their case orbits. -/
def shownTo (fold : Char → Char) (got want : String) : Bool :=
  (afterColon want).isEmpty || (afterColon got).map fold == (afterColon want).map fold

def TermRegistry.list (fold : Char → Char) (reg : TermRegistry) (owner : String) : List TermView :=
  (reg.all.filter fun ts => shownTo fold ts.owner owner).map TermSession.view

/-! ## Sockets -/

structure Control where
  type : String
  cols : Int := 0
  rows : Int := 0
  remark : String := ""

inductive Frame where
  | control (c : Control)
  /-- Any other frame, and whether the agent's connection takes the message. -/
  | input (data : List UInt8) (taken : Bool)

/-- A socket that is attached to the object `obj`. -/
structure Socket where
  ws : Nat
  user : String
  obj : Nat
  sid : String
  ac : Tid
  agentId : Id

def Socket.message (sock : Socket) (type : MsgType) : Sent where
  conn := sock.ac
  agent := sock.agentId
  type := type
  session := sock.sid

namespace TermRegistry

/-- The attachment of a socket to the object `r`, with the output it replays. -/
def attach (reg : TermRegistry) (r : Nat) (ts : TermSession) (ws : Nat) (user : String)
    (suspend : Bool) : TermRegistry × Socket × List UInt8 :=
  (reg.modify r fun st => { st with ws := some ws, suspended := suspend },
    { ws := ws, user := user, obj := r, sid := ts.id, ac := ts.ac, agentId := ts.agentId },
    ts.state.buffer)

/-- A web client takes over the output of a session that came from the gateway. -/
def startPump (reg : TermRegistry) (r : Nat) (ts : TermSession) : TermRegistry :=
  if ts.sshOut then reg.modify r fun st => { st with pumping := true } else reg

def detach (reg : TermRegistry) (sock : Socket) : TermRegistry × List Sent :=
  let left := reg.modify sock.obj fun st =>
    if st.ws = some sock.ws then { st with ws := none } else st
  let keep := (reg.objs[sock.obj]?).any fun ts => ts.state.suspended && !ts.state.closed
  if keep then (left, []) else (left.remove sock.sid, [sock.message .terminalClose])

def onFrame (reg : TermRegistry) (sock : Socket) : Frame → TermRegistry × List Sent × Bool
  | .control c =>
    if c.type = "resize" then
      (reg.modify sock.obj fun st => { st with cols := c.cols, rows := c.rows }, [], false)
    else if c.type = "close" then (reg.remove sock.sid, [sock.message .terminalClose], true)
    else if c.type = "suspend" then
      (reg.modify sock.obj fun st => { st with
          suspended := c.cols == 1
          remark := if c.remark = "" then st.remark else c.remark }, [], false)
    else (reg, [], false)
  | .input _ taken =>
    if taken then (reg, [sock.message .terminalInput], false) else (reg, [], true)

def serve (reg : TermRegistry) (sock : Socket) : List Frame → TermRegistry × List Sent
  | [] => reg.detach sock
  | f :: fs =>
    match reg.onFrame sock f with
    | (reg', sent, true) => ((reg'.detach sock).1, sent ++ (reg'.detach sock).2)
    | (reg', sent, false) => ((reg'.serve sock fs).1, sent ++ (reg'.serve sock fs).2)

end TermRegistry

/-! ## Requests -/

/-- A request for `/ws/terminal` whose upgrade succeeds. -/
structure WsRequest where
  agentId : String := ""
  sessionId : String := ""
  suspend : Bool := false
  ws : Nat
  /-- What `newSessionID` draws. -/
  newID : String
  /-- The agent's connection takes the message of `OpenTerm`. -/
  opened : Bool := true
  now : Time

inductive WsAnswer where
  | refused (status : Nat) (text : String)
  | failed
  | attached (sock : Socket) (replay : List UInt8)

structure WsResult where
  reg : TermRegistry
  sent : List Sent
  answer : WsAnswer

def WsRequest.openedID (q : WsRequest) : String :=
  if q.sessionId = "" then q.newID else q.sessionId

def WsRequest.existing (q : WsRequest) (reg : TermRegistry) : Option (Nat × TermSession) :=
  if q.sessionId = "" then none
  else (reg.get q.sessionId).bind fun r => (reg.objs[r]?).map (r, ·)

/-- The session that a request of `user` opens on the connection `ac`. -/
def WsRequest.newSession (q : WsRequest) (user : String) (ac : Tid) : TermSession where
  id := q.openedID
  agentId := q.agentId
  createdAt := q.now
  ac := ac
  owner := user
  state := { suspended := q.suspend, updatedAt := q.now }

/-- `terminalWS` for a user with a valid token, up to the attachment. -/
def terminalWS (agents : Id → Option Tid) (reg : TermRegistry) (user : String) (q : WsRequest) :
    WsResult :=
  match q.existing reg with
  | some (r, ts) =>
    let (reg', sock, replay) := (reg.startPump r ts).attach r ts q.ws user q.suspend
    ⟨reg', [], .attached sock replay⟩
  | none =>
    if q.agentId = "" then ⟨reg, [], .refused 400 "missing agent_id"⟩
    else
      match agents q.agentId with
      | none => ⟨reg, [], .refused 502 "agent offline"⟩
      | some ac =>
        if q.opened then
          let ts := q.newSession user ac
          let (reg', sock, replay) := (reg.add ts).attach reg.objs.length ts q.ws user q.suspend
          ⟨reg', [sock.message .terminalOpen], .attached sock replay⟩
        else ⟨reg, [], .failed⟩

/-- The ID in a path below `/api/terminals/`. -/
def terminalId (rest : String) : String :=
  if 6 < rest.length ∧ rest.toList.drop (rest.length - 6) = "/close".toList then
    String.ofList (rest.toList.take (rest.length - 6))
  else rest

/-- `handleTerminalByID` for a `POST` or `DELETE`. -/
def handleTerminalByID (reg : TermRegistry) (rest : String) : Option (TermRegistry × List Sent) :=
  (reg.get (terminalId rest)).bind fun r => (reg.objs[r]?).map fun ts =>
    ((reg.modify r fun st => { st with ws := none }).remove (terminalId rest),
      [{ conn := ts.ac, agent := ts.agentId, type := .terminalClose, session := terminalId rest }])

inductive TermRequest where
  | socket (q : WsRequest) (frames : List Frame)
  | close (rest : String)
  | list

/-- What a request of a user does: the session it attaches to, the messages it
sends, the registry it leaves and the sessions it shows. -/
structure TermOutcome where
  reg : TermRegistry
  attached : Option String := none
  sent : List Sent := []
  shown : List TermView := []

def TermRequest.run (fold : Char → Char) (agents : Id → Option Tid) (reg : TermRegistry)
    (user : String) : TermRequest → TermOutcome
  | .socket q frames =>
    let res := terminalWS agents reg user q
    match res.answer with
    | .attached sock _ =>
      let (reg', sent) := res.reg.serve sock frames
      { reg := reg', attached := some sock.sid, sent := res.sent ++ sent }
    | _ => { reg := res.reg, sent := res.sent }
  | .close rest =>
    match handleTerminalByID reg rest with
    | some (reg', sent) => { reg := reg', sent := sent }
    | none => { reg := reg }
  | .list => { reg := reg, shown := reg.list fold user }

/-! ## Owners -/

/-- The session was created by `user`, over the web or through the gateway. -/
def Owns (user : String) (ts : TermSession) : Prop :=
  ts.owner = user ∨ ts.owner = "ssh:" ++ user

instance (user : String) (ts : TermSession) : Decidable (Owns user ts) :=
  inferInstanceAs (Decidable (_ ∨ _))

/-- The request attached to the session, sent a message for it, closed it or
showed it. -/
def TermOutcome.Touches (o : TermOutcome) (ts : TermSession) : Prop :=
  o.attached = some ts.id ∨ (∃ m ∈ o.sent, m.session = ts.id) ∨ o.reg.get ts.id = none ∨
    ∃ v ∈ o.shown, v.id = ts.id

/-- The request names a session of the user or none; a listing finds no other
owner's sessions under the user's name. -/
def TermRequest.NamesOwn (fold : Char → Char) (reg : TermRegistry) (user : String) :
    TermRequest → Prop
  | .socket q _ => q.sessionId ≠ "" → ∀ ts, reg.session q.sessionId = some ts → Owns user ts
  | .close rest => ∀ ts, reg.session (terminalId rest) = some ts → Owns user ts
  | .list => ∀ ts ∈ reg.all, shownTo fold ts.owner user = true → Owns user ts

/-- The ID that `newSessionID` draws is not in use. -/
def TermRequest.Fresh (reg : TermRegistry) : TermRequest → Prop
  | .socket q _ => reg.get q.newID = none
  | _ => True

/-! ## A socket stays with its session -/

/-- Nothing but the session `sid` was spoken to or removed. -/
structure Confined (sid : String) (reg reg' : TermRegistry) (sent : List Sent) : Prop where
  get : ∀ id, id ≠ sid → reg'.get id = reg.get id
  sent : ∀ m ∈ sent, m.session = sid

theorem Confined.trans {sid : String} {a b c : TermRegistry} {xs ys : List Sent}
    (hab : Confined sid a b xs) (hbc : Confined sid b c ys) : Confined sid a c (xs ++ ys) where
  get id hid := (hbc.get id hid).trans (hab.get id hid)
  sent m hm := (mem_append.mp hm).elim (hab.sent m) (hbc.sent m)

namespace TermRegistry

variable (reg : TermRegistry) (sock : Socket)

theorem detach_confined : Confined sock.sid reg (reg.detach sock).1 (reg.detach sock).2 := by
  unfold detach
  dsimp only
  split
  · exact ⟨fun _ _ => rfl, by simp⟩
  · refine ⟨fun id hid => ?_, by simp [Socket.message]⟩
    rw [get_remove, if_neg hid]
    rfl

theorem onFrame_confined (f : Frame) :
    Confined sock.sid reg (reg.onFrame sock f).1 (reg.onFrame sock f).2.1 := by
  cases f with
  | control c =>
    simp only [onFrame]
    split
    · exact ⟨fun _ _ => rfl, by simp⟩
    · split
      · exact ⟨fun id hid => by rw [get_remove, if_neg hid], by simp [Socket.message]⟩
      · split
        · exact ⟨fun _ _ => rfl, by simp⟩
        · exact ⟨fun _ _ => rfl, by simp⟩
  | input data taken =>
    simp only [onFrame]
    split
    · exact ⟨fun _ _ => rfl, by simp [Socket.message]⟩
    · exact ⟨fun _ _ => rfl, by simp⟩

theorem serve_confined (fs : List Frame) :
    Confined sock.sid reg (reg.serve sock fs).1 (reg.serve sock fs).2 := by
  induction fs generalizing reg with
  | nil => exact detach_confined reg sock
  | cons f fs ih =>
    have hframe := onFrame_confined reg sock f
    simp only [serve]
    split
    · rename_i reg' sent heq
      rw [heq] at hframe
      exact hframe.trans (detach_confined reg' sock)
    · rename_i reg' sent heq
      rw [heq] at hframe
      exact hframe.trans (ih reg')

end TermRegistry

variable {ts : TermSession} {q : WsRequest}

theorem WsRequest.existing_some {r : Nat} (h : q.existing reg = some (r, ts)) :
    q.sessionId ≠ "" ∧ reg.session q.sessionId = some ts := by
  unfold existing at h
  split at h
  · cases h
  · rename_i hname
    obtain ⟨key, hkey, hobj⟩ := bind_eq_some_iff.mp h
    obtain ⟨ts', hts, heq⟩ := map_eq_some_iff.mp hobj
    cases heq
    exact ⟨hname, by simp [TermRegistry.session, hkey, hts]⟩

theorem WsRequest.existing_none (h : q.existing reg = none)
    (hfresh : reg.get q.newID = none) : reg.get q.openedID = none := by
  unfold existing at h
  unfold openedID
  split at h
  · rename_i hname
    rw [if_pos hname]
    exact hfresh
  · rename_i hname
    rw [if_neg hname]
    cases hget : reg.get q.sessionId with
    | none => rfl
    | some r =>
      obtain ⟨ts, hts, -⟩ := reg.named _ r hget
      simp [hget, hts] at h

theorem startPump_get (reg : TermRegistry) (r : Nat) (ts : TermSession) (id : String) :
    (reg.startPump r ts).get id = reg.get id := by
  unfold TermRegistry.startPump
  split <;> rfl

variable {user : String} {agents : Id → Option Tid}

theorem terminalWS_attached {sock : Socket} {replay : List UInt8}
    (h : (terminalWS agents reg user q).answer = .attached sock replay)
    (hfresh : reg.get q.newID = none) :
    Confined sock.sid reg (terminalWS agents reg user q).reg (terminalWS agents reg user q).sent ∧
      (reg.get sock.sid = none ∨
        ∃ ts, q.sessionId ≠ "" ∧ reg.session q.sessionId = some ts ∧ sock.sid = ts.id) := by
  unfold terminalWS at h ⊢
  split at h
  · rename_i r ts hexisting
    cases h
    obtain ⟨hname, hts⟩ := WsRequest.existing_some hexisting
    refine ⟨⟨fun id _ => startPump_get reg r ts id, by simp⟩, .inr ⟨ts, hname, hts, rfl⟩⟩
  · rename_i hexisting
    have hfree := WsRequest.existing_none hexisting hfresh
    split at h
    · cases h
    · rename_i hagent
      rw [if_neg hagent]
      split at h
      · cases h
      · split at h
        · rename_i hopened
          cases h
          rw [if_pos hopened]
          refine ⟨⟨fun id hid => ?_, fun m hm => ?_⟩, .inl hfree⟩
          · exact (TermRegistry.get_add reg _ id).trans (if_neg hid)
          · rw [mem_singleton.mp hm]
            rfl
        · cases h

theorem terminalWS_unattached
    (h : ∀ sock replay, (terminalWS agents reg user q).answer ≠ .attached sock replay) :
    (terminalWS agents reg user q).reg = reg ∧ (terminalWS agents reg user q).sent = [] := by
  unfold terminalWS at h ⊢
  split
  · rename_i hexisting
    rw [hexisting] at h
    exact absurd rfl (h _ _)
  · split
    · exact ⟨rfl, rfl⟩
    · split
      · exact ⟨rfl, rfl⟩
      · split
        · simp_all
        · exact ⟨rfl, rfl⟩

variable {fold : Char → Char}

/-- A socket touches only the session that it names. -/
theorem socket_touches {frames : List Frame}
    (hfresh : reg.get q.newID = none) (hts : reg.session ts.id = some ts)
    (h : ((TermRequest.socket q frames).run fold agents reg user).Touches ts) :
    q.sessionId ≠ "" ∧ reg.session q.sessionId = some ts := by
  have hget := TermRegistry.get_ne_none hts
  simp only [TermRequest.run] at h
  split at h
  · rename_i sock replay hanswer
    obtain ⟨hopen, hsid⟩ := terminalWS_attached hanswer hfresh
    have hconf := hopen.trans (TermRegistry.serve_confined _ sock frames)
    have heq : ts.id = sock.sid := by
      by_contra hne
      obtain hatt | ⟨m, hm, hsession⟩ | hgone | ⟨v, hv, -⟩ := h
      · exact hne (some.inj hatt).symm
      · exact hne (hsession ▸ hconf.sent m hm)
      · exact hget ((hconf.get ts.id hne).symm.trans hgone)
      · cases hv
    obtain hfree | ⟨ts', hname, hnamed, hid⟩ := hsid
    · exact absurd (heq ▸ hfree) hget
    · rw [heq, hid, TermRegistry.session_id hnamed] at hts
      exact ⟨hname, hts⟩
  · rename_i hanswer
    obtain ⟨hreg, hsent⟩ := terminalWS_unattached hanswer
    obtain hatt | ⟨m, hm, -⟩ | hgone | ⟨v, hv, -⟩ := h
    · cases hatt
    · simp [hsent] at hm
    · exact absurd (hreg ▸ hgone) hget
    · cases hv

theorem socket_attaches {frames : List Frame} (hname : q.sessionId ≠ "")
    (hts : reg.session q.sessionId = some ts) :
    ((TermRequest.socket q frames).run fold agents reg user).Touches ts := by
  obtain ⟨r, hr, hobj⟩ := bind_eq_some_iff.mp hts
  have hexisting : q.existing reg = some (r, ts) := by
    simp [WsRequest.existing, hname, hr, hobj]
  exact .inl (by simp [TermRequest.run, terminalWS, hexisting, TermRegistry.attach])

/-- A request to close touches the session that it names. -/
theorem close_touches_iff {user rest : String} (hts : reg.session ts.id = some ts) :
    ((TermRequest.close rest).run fold agents reg user).Touches ts ↔
      reg.session (terminalId rest) = some ts := by
  have hget := TermRegistry.get_ne_none hts
  cases hkey : reg.get (terminalId rest) with
  | none => simp [TermRequest.run, handleTerminalByID, TermOutcome.Touches, TermRegistry.session,
      hkey, hget]
  | some r =>
    obtain ⟨closed, hobj, hname⟩ := reg.named _ r hkey
    have hsession : reg.session (terminalId rest) = some closed := by
      simp [TermRegistry.session, hkey, hobj]
    have htouch : ((TermRequest.close rest).run fold agents reg user).Touches ts ↔
        ts.id = terminalId rest := by
      simp only [TermRequest.run, handleTerminalByID, TermOutcome.Touches, hkey, hobj,
        bind_some, map_some, TermRegistry.get_remove]
      constructor
      · rintro (h | ⟨m, hm, hm'⟩ | h | ⟨v, hv, -⟩)
        · cases h
        · rw [mem_singleton.mp hm] at hm'
          exact hm'.symm
        · by_contra hne
          rw [if_neg hne] at h
          exact hget h
        · cases hv
      · intro h
        exact .inr (.inr (.inl (if_pos h)))
    rw [htouch, hsession]
    constructor
    · intro h
      rw [h, hsession] at hts
      exact hts
    · intro h
      rw [← some.inj h]
      exact hname

theorem list_touches_iff (hts : reg.session ts.id = some ts) :
    (TermRequest.list.run fold agents reg user).Touches ts ↔
      shownTo fold ts.owner user = true := by
  have hget := TermRegistry.get_ne_none hts
  simp only [TermRequest.run, TermOutcome.Touches, TermRegistry.list]
  constructor
  · rintro (h | ⟨m, hm, -⟩ | h | ⟨v, hv, hid⟩)
    · cases h
    · cases hm
    · exact absurd h hget
    · obtain ⟨ts', hmem, rfl⟩ := mem_map.mp hv
      obtain ⟨hall, hshown⟩ := mem_filter.mp hmem
      have hts' : reg.session ts.id = some ts' := by
        have := TermRegistry.mem_all.mp hall
        rwa [show ts'.id = ts.id from hid] at this
      obtain rfl := some.inj (hts.symm.trans hts')
      exact hshown
  · intro h
    have hmem : ts ∈ reg.all.filter fun ts => shownTo fold ts.owner user :=
      mem_filter.mpr ⟨TermRegistry.mem_all.mpr hts, h⟩
    exact .inr (.inr (.inr ⟨ts.view, mem_map_of_mem hmem, rfl⟩))

/-- A request touches no session of another user if and only if it names none and, for a
listing, no other user's name agrees with the requester's after the last colon and up to case.
-/
theorem terminals_respect_owners (fold : Char → Char) (agents : Id → Option Tid)
    (reg : TermRegistry) (user : String) (req : TermRequest) (hfresh : req.Fresh reg) :
    (∀ ts ∈ reg.all, (req.run fold agents reg user).Touches ts → Owns user ts) ↔
      req.NamesOwn fold reg user := by
  simp only [TermRegistry.mem_all]
  cases req with
  | socket q frames =>
    constructor
    · intro h hname ts hts
      have hid := TermRegistry.session_id hts
      exact h ts (hid.symm ▸ hts) (socket_attaches hname hts)
    · intro h ts hts htouch
      obtain ⟨hname, hnamed⟩ := socket_touches hfresh hts htouch
      exact h hname ts hnamed
  | close rest =>
    constructor
    · intro h ts hnamed
      have hts : reg.session ts.id = some ts := (TermRegistry.session_id hnamed).symm ▸ hnamed
      exact h ts hts ((close_touches_iff hts).mpr hnamed)
    · intro h ts hts htouch
      exact h ts ((close_touches_iff hts).mp htouch)
  | list =>
    simp only [TermRequest.NamesOwn, TermRegistry.mem_all]
    constructor
    · intro h ts hts hshown
      exact h ts hts ((list_touches_iff hts).mpr hshown)
    · intro h ts hts htouch
      exact h ts hts ((list_touches_iff hts).mp htouch)

/-- A user comes back to a session that the gateway registered for them. -/
theorem owner_attaches : let ts : TermSession :=
      { id := "s1", agentId := "h", createdAt := 0, ac := 1, owner := "ssh:alice",
        state := { suspended := true, updatedAt := 0 } }
    let req : TermRequest := .socket { sessionId := "s1", ws := 7, newID := "n", now := 5 } []
    ∀ ts' ∈ (TermRegistry.empty.add ts).all,
      (req.run Char.toLower (fun _ => none) (TermRegistry.empty.add ts) "alice").Touches ts' →
        Owns "alice" ts' := by
  refine (terminals_respect_owners _ _ _ _ _ ?_).mpr ?_
  · change TermRegistry.get _ "n" = none
    decide
  · intro _ ts hts
    exact .inr (some.inj hts ▸ rfl)

/-- A user who attaches to another user's session. -/
theorem stranger_attaches : let ts : TermSession :=
      { id := "s1", agentId := "h", createdAt := 0, ac := 1, owner := "alice",
        state := { suspended := true, updatedAt := 0 } }
    let reg := TermRegistry.empty.add ts
    let req : TermRequest := .socket { sessionId := "s1", ws := 7, newID := "n", now := 5 }
      [.input [108, 115, 10] true]
    let o := req.run Char.toLower (fun _ => none) reg "mallory"
    reg.session "s1" = some ts ∧ ¬ Owns "mallory" ts ∧ o.attached = some "s1" ∧
      o.sent.map Sent.type = [.terminalInput, .terminalClose] ∧
      ((TermRequest.close "s1/close").run Char.toLower (fun _ => none) reg "mallory").Touches ts ∧
      (TermRequest.list.run Char.toLower (fun _ => none) reg "mallory:Alice").Touches ts := by
  refine ⟨by decide, by decide, by decide, by decide, ?_, ?_⟩
  · exact (close_touches_iff (by decide)).mpr (by decide)
  · exact (list_touches_iff (by decide)).mpr (by decide)

end CtForge.Server
