import CtForge.Server.Api
import CtForge.Server.Sessions

/-!
# The console: requests over HTTP, WebSocket and SSH

`Console` is what the three entrances share: the accounts, the grants, the session
table of the agents and the terminal sessions. A deed is one request, one frame of a
socket, or one line or one read of a gateway shell; `Console.handle` is what it
changes, what it sends to agents and on whose behalf. The rest of the world, that
is the hosts that come and go and the grants that administrators write, changes by
deeds of its own.
-/

namespace CtForge.Server

open CtForge.Runs Function Option

/-! ## The gateway (`sshgateway.go`) -/

structure Shell where
  user : String
  sid : String
  remark : String := ""
  wantSuspend : Bool := false
  termSess : String := ""
  agentId : Id := ""
  conn : Option Tid := none
  resumed : Bool := false
  registryTS : Option Nat := none

inductive Credential where
  | password (username password : String)
  | publicKey (blob : String)

def Shell.message (sh : Shell) (conn : Tid) (type : MsgType) : Sent where
  conn := conn
  agent := sh.agentId
  type := type
  session := sh.termSess

/-- `NewTermSessionForSuspend` for the terminal of the shell. -/
def Shell.suspended (sh : Shell) (conn : Tid) (now : Time) : TermSession where
  id := sh.termSess
  agentId := sh.agentId
  createdAt := now
  ac := conn
  owner := "ssh:" ++ sh.user
  sshOut := true
  state := { suspended := true, remark := sh.remark, updatedAt := now }

/-- The session that `resumeSuspended` finds: one that ends in the name of the user,
up to case, and has the ID or the host asked for. -/
def resumable (fold : Char → Char) (reg : TermRegistry) (user target : String) :
    Option TermSession :=
  reg.all.find? fun ts => (afterColon ts.owner).map fold == user.toList.map fold &&
    (ts.agentId == target || ts.id == target)

/-- The session that `deleteSuspended` finds. -/
def deletable (reg : TermRegistry) (user target : String) : Option TermSession :=
  reg.all.find? fun ts => ts.id == target &&
    (("ssh:" ++ user).toList.isPrefixOf ts.owner.toList ||
      ("sess:" ++ user).toList.isPrefixOf ts.owner.toList)

/-! ## The console -/

structure Console where
  auth : AuthManager
  perms : Option PermManager
  agents : Id → Option Tid
  store : Store
  hosts : List Id
  forwards : String → Option (Id × Tid)
  aiEnabled : Bool
  terms : TermRegistry
  sockets : Nat → Option Socket
  shells : Nat → Option Shell

inductive Deed where
  -- accounts, over HTTP
  | login (username password token : String) (now : Time)
  | logout (token : String)
  | gcSessions (now : Time)
  | createAccount (token username password : String) (role : Role) (display : String) (now : Time)
  | updateAccount (token username : String) (role : Option Role) (disabled : Option Bool)
      (password : String) (now : Time)
  | deleteAccount (token username : String) (now : Time)
  | changePassword (token oldPwd newPwd : String) (now : Time)
  | setSSHPublicKeys (token : String) (keys : List String) (now : Time)
  -- the world
  | world (perms : Option PermManager) (agents : Id → Option Tid) (store : Store) (hosts : List Id)
      (forwards : String → Option (Id × Tid))
  -- agents, over HTTP
  | http (token : String) (r : HttpRequest) (now : Time)
  | closeTerminal (token rest : String) (now : Time)
  -- web terminals
  | wsOpen (token : String) (q : WsRequest)
  | wsFrame (ws : Nat) (f : Frame)
  | wsEnd (ws : Nat)
  -- the gateway
  | sshLogin (k : Nat) (cred : Credential) (sid : String)
  /-- A number on the list of hosts, which stands for `target`. -/
  | sshConnect (k : Nat) (target : Id) (suspend : Bool) (remark : String) (opened : Bool) (now : Time)
  /-- `hasChannel`: the agent's connection still has the output of the session. -/
  | sshResume (k : Nat) (target remark : String) (hasChannel opened : Bool)
  | sshDelete (k : Nat) (target : String)
  | sshInput (k : Nat)
  /-- The terminal of a shell ends: the channel broke, or the remote shell left. -/
  | sshEnd (k : Nat) (disconnected : Bool) (now : Time)

structure Effect where
  next : Console
  user : String := ""
  sent : List Sent := []

namespace Console

def env (c : Console) (s : AuthSession) (now : Time) : Env where
  session := s
  auth := c.auth
  perms := c.perms
  agents := c.agents
  store := c.store
  forwards := c.forwards
  aiEnabled := c.aiEnabled
  now := now

def withSession (c : Console) (token : String) (now : Time) (f : AuthSession → Effect) : Effect :=
  match c.auth.verify token now with
  | some s => f s
  | none => { next := c }

def asAdmin (c : Console) (token : String) (now : Time) (f : AuthManager) : Effect :=
  c.withSession token now fun s =>
    if s.role.atLeast .admin then { next := { c with auth := f }, user := s.username }
    else { next := c, user := s.username }

def orElse (m : AuthManager) : Except String AuthManager → AuthManager
  | .ok m' => m'
  | .error _ => m

def setShell (c : Console) (k : Nat) (sh : Option Shell) : Console :=
  { c with shells := Function.update c.shells k sh }

def authenticate (bc : Bcrypt) (c : Console) : Credential → Option Account
  | .password username password => c.auth.checkPassword bc username password
  | .publicKey blob => c.auth.findAccountByPublicKey blob

def openSocket (c : Console) (s : AuthSession) (q : WsRequest) : Effect :=
  let res := terminalWS c.agents c.terms s.username q
  match res.answer with
  | .attached sock _ =>
    { next := { c with
        terms := res.reg
        sockets := Function.update c.sockets q.ws (some sock) }
      user := s.username
      sent := res.sent }
  | _ => { next := { c with terms := res.reg }, user := s.username, sent := res.sent }

def endSocket (c : Console) (sock : Socket) (terms : TermRegistry) (sent : List Sent) : Effect where
  next := { c with
    terms := (terms.detach sock).1
    sockets := Function.update c.sockets sock.ws none }
  user := sock.user
  sent := sent ++ (terms.detach sock).2

def socketFrame (c : Console) (sock : Socket) (f : Frame) : Effect :=
  match c.terms.onFrame sock f with
  | (terms, sent, true) => c.endSocket sock terms sent
  | (terms, sent, false) => { next := { c with terms := terms }, user := sock.user, sent := sent }

/-- `connectAgent` up to its loops. -/
def connectAgent (c : Console) (k : Nat) (sh : Shell) (target : Id) (suspend : Bool)
    (remark : String) (opened : Bool) (now : Time) : Effect :=
  match c.agents target with
  | none => { next := c, user := sh.user }
  | some conn =>
    let sh := { sh with
      termSess := "ssh-" ++ sh.sid ++ "-" ++ target
      agentId := target
      remark := remark
      wantSuspend := suspend
      conn := some conn
      resumed := false }
    if opened then
      if suspend then
        { next := { c.setShell k (some { sh with registryTS := some c.terms.objs.length }) with
            terms := c.terms.add (sh.suspended conn now) }
          user := sh.user
          sent := [sh.message conn .terminalOpen] }
      else
        { next := c.setShell k (some sh), user := sh.user, sent := [sh.message conn .terminalOpen] }
    else { next := c, user := sh.user }

/-- `resumeToAgent` up to its loops. -/
def resumeToAgent (fold : Char → Char) (c : Console) (k : Nat) (sh : Shell)
    (target remark : String) (hasChannel opened : Bool) : Effect :=
  match resumable fold c.terms sh.user target with
  | none => { next := c, user := sh.user }
  | some ts =>
    match c.agents ts.agentId with
    | none => { next := c, user := sh.user }
    | some conn =>
      let sh := { sh with
        termSess := ts.id
        agentId := ts.agentId
        remark := if remark ≠ "" then remark else ts.state.remark
        conn := some conn
        resumed := true }
      if hasChannel then { next := c.setShell k (some sh), user := sh.user }
      else if opened then
        { next := c.setShell k (some sh), user := sh.user, sent := [sh.message conn .terminalOpen] }
      else { next := c, user := sh.user }

def deleteSuspended (c : Console) (sh : Shell) (target : String) : Effect :=
  match deletable c.terms sh.user target with
  | none => { next := c, user := sh.user }
  | some ts =>
    { next := { c with terms := c.terms.remove target }
      user := sh.user
      sent := (c.agents ts.agentId).toList.map fun conn =>
        { conn := conn, agent := ts.agentId, type := .terminalClose, session := target } }

/-- `SetSuspended(true)` on the session of the shell, which is registered first
where the shell has none. -/
def suspendShell (c : Console) (sh : Shell) (conn : Tid) (now : Time) : TermRegistry :=
  match sh.registryTS with
  | some r => c.terms.modify r fun st => { st with suspended := true }
  | none => c.terms.add (sh.suspended conn now)

/-- The end of `connectAgent` or `resumeToAgent`. -/
def endShell (c : Console) (k : Nat) (sh : Shell) (conn : Tid) (disconnected : Bool) (now : Time) :
    Effect :=
  let back := c.setShell k (some { sh with conn := none, wantSuspend := false })
  if sh.resumed then { next := back, user := sh.user }
  else if disconnected || sh.wantSuspend then
    { next := { back with terms := c.suspendShell sh conn now }, user := sh.user }
  else { next := back, user := sh.user, sent := [sh.message conn .terminalClose] }

def handle (bc : Bcrypt) (fold : Char → Char) (c : Console) : Deed → Effect
  | .login username password token now =>
    { next := { c with auth := orElse c.auth (c.auth.login bc username password token now) } }
  | .logout token => { next := { c with auth := c.auth.logout token } }
  | .gcSessions now => { next := { c with auth := c.auth.gcSessions now } }
  | .createAccount token username password role display now =>
    c.asAdmin token now (orElse c.auth (c.auth.createAccount bc username password role display now))
  | .updateAccount token username role disabled password now =>
    c.asAdmin token now (c.auth.updateAccount bc username role disabled password).1
  | .deleteAccount token username now =>
    c.asAdmin token now (orElse c.auth (c.auth.deleteAccount username))
  | .changePassword token oldPwd newPwd now =>
    c.withSession token now fun s =>
      { next := { c with auth := orElse c.auth (c.auth.changePassword bc s.username oldPwd newPwd) }
        user := s.username }
  | .setSSHPublicKeys token keys now =>
    c.withSession token now fun s =>
      { next := { c with auth := orElse c.auth (c.auth.setSSHPublicKeys s.username keys) }
        user := s.username }
  | .world perms agents store hosts forwards =>
    { next := { c with
        perms := perms
        agents := agents
        store := store
        hosts := hosts
        forwards := forwards } }
  | .http token r now =>
    c.withSession token now fun s =>
      { next := c, user := s.username, sent := (route (c.env s now) r).sent (c.env s now) }
  | .closeTerminal token rest now =>
    c.withSession token now fun s =>
      match handleTerminalByID c.terms rest with
      | some (terms, sent) =>
        { next := { c with terms := terms }, user := s.username, sent := sent }
      | none => { next := c, user := s.username }
  | .wsOpen token q =>
    match c.sockets q.ws with
    | some _ => { next := c }
    | none => c.withSession token q.now fun s => c.openSocket s q
  | .wsFrame ws f =>
    match c.sockets ws with
    | some sock => c.socketFrame sock f
    | none => { next := c }
  | .wsEnd ws =>
    match c.sockets ws with
    | some sock => c.endSocket sock c.terms []
    | none => { next := c }
  | .sshLogin k cred sid =>
    match c.shells k, c.authenticate bc cred with
    | none, some a =>
      { next := c.setShell k (some { user := a.username, sid := sid }), user := a.username }
    | _, _ => { next := c }
  | .sshConnect k target suspend remark opened now =>
    match c.shells k with
    | some sh =>
      if sh.conn = none ∧ target ∈ c.hosts then
        c.connectAgent k sh target suspend remark opened now
      else { next := c, user := sh.user }
    | none => { next := c }
  | .sshResume k target remark hasChannel opened =>
    match c.shells k with
    | some sh =>
      if sh.conn = none then c.resumeToAgent fold k sh target remark hasChannel opened
      else { next := c, user := sh.user }
    | none => { next := c }
  | .sshDelete k target =>
    match c.shells k with
    | some sh =>
      if sh.conn = none then c.deleteSuspended sh target else { next := c, user := sh.user }
    | none => { next := c }
  | .sshInput k =>
    match c.shells k with
    | some sh =>
      { next := c, user := sh.user
        sent := sh.conn.toList.map fun conn => sh.message conn .terminalInput }
    | none => { next := c }
  | .sshEnd k disconnected now =>
    match c.shells k with
    | some sh =>
      match sh.conn with
      | some conn => c.endShell k sh conn disconnected now
      | none => { next := c.setShell k none, user := sh.user }
    | none => { next := c }

def step (bc : Bcrypt) (fold : Char → Char) (c : Console) (d : Deed) : Console :=
  (c.handle bc fold d).next

end Console

/-! ## Operators -/

namespace AuthManager

def IsOperator (m : AuthManager) (username : String) : Prop :=
  (m.roleOf username).any (Role.atLeast · .operator) = true

instance (m : AuthManager) (username : String) : Decidable (m.IsOperator username) :=
  inferInstanceAs (Decidable (_ = true))

def Current (m : AuthManager) : Prop :=
  ∀ token s, m.sessions token = some s → s.role.atLeast .operator = true → m.IsOperator s.username

def Demotes (m : AuthManager) (username : String) (role : Option Role) : Prop :=
  (∃ r, role = some r ∧ r.atLeast .operator = false) ∧
    ∃ token s, m.sessions token = some s ∧ s.username = username ∧ s.role.atLeast .operator = true

variable {m m' : AuthManager} {username : String}

theorem isOperator_iff : m.IsOperator username ↔
    ∃ st, m.status username = some st ∧ st.1.atLeast .operator = true := by
  simp [IsOperator, roleOf, status, any_eq_true]

/-- An operation that demotes nobody with a session keeps the roles current. -/
theorem Current.of_effect (h : m.Current) {op : AuthOp} (heffect : m.Effect op m')
    (hrole : ∀ username role disabled password,
      op = .updateAccount username role disabled password → ¬ m.Demotes username role) :
    m'.Current := by
  intro token s hs hop
  cases heffect with
  | quiet _ hstatus hsessions =>
    rw [isOperator_iff, hstatus, ← isOperator_iff]
    exact h token s (hsessions token s hs) hop
  | unknown _ => exact h token s hs hop
  | refused _ => exact h token s hs hop
  | login haccount hstatus hsessions =>
    rw [isOperator_iff, hstatus, ← isOperator_iff]
    rcases hsessions token s hs with hold | ⟨rfl, rfl⟩
    · exact h token s hold hop
    · exact isOperator_iff.mpr ⟨_, haccount, hop⟩
  | create hfresh hstatus hsessions =>
    rw [hsessions] at hs
    obtain ⟨st, hst, hlevel⟩ := isOperator_iff.mp (h token s hs hop)
    rw [isOperator_iff, hstatus, update_of_ne fun heq => ?_]
    · exact ⟨st, hst, hlevel⟩
    · rw [heq, hfresh] at hst
      cases hst
  | @update username _ role _ _ _ _ haccount hstatus hsessions =>
    have hs := ((hsessions token s).mp hs).1
    obtain ⟨st, hst, hlevel⟩ := isOperator_iff.mp (h token s hs hop)
    rw [isOperator_iff, hstatus]
    by_cases hname : s.username = username
    · rw [hname, haccount] at hst
      rw [hname, update_self]
      refine ⟨_, rfl, ?_⟩
      cases role with
      | none =>
        obtain rfl := some.inj hst
        exact hlevel
      | some r =>
        by_contra hlow
        exact hrole _ _ _ _ rfl ⟨⟨r, rfl, Bool.eq_false_iff.mpr hlow⟩, token, s, hs, hname, hop⟩
    · exact ⟨st, (update_of_ne hname ..).trans hst, hlevel⟩
  | delete _ hstatus hsessions =>
    obtain ⟨hs, hother⟩ := hsessions token s hs
    rw [isOperator_iff, hstatus, update_of_ne hother, ← isOperator_iff]
    exact h token s hs hop

end AuthManager

/-! ## Who may do what -/

namespace Console

variable {bc : Bcrypt} {fold : Char → Char} {c : Console}

/-- Only operators use web terminals and gateway shells, and no operator is demoted
whose sessions have the role. -/
def OperatorsOnly (c : Console) : Deed → Prop
  | .wsOpen token q => ∀ s, c.auth.verify token q.now = some s → c.auth.IsOperator s.username
  | .wsFrame ws _ => ∀ sock, c.sockets ws = some sock → c.auth.IsOperator sock.user
  | .sshConnect k .. | .sshResume k .. | .sshInput k =>
    ∀ sh, c.shells k = some sh → c.auth.IsOperator sh.user
  | .updateAccount _ username role .. => ¬ c.auth.Demotes username role
  | _ => True

def ForOperators (bc : Bcrypt) (fold : Char → Char) (c : Console) (d : Deed) : Prop :=
  ∀ m ∈ (c.handle bc fold d).sent, m.type.guarded = true →
    c.auth.IsOperator (c.handle bc fold d).user

/-! ### The accounts along a run -/

variable {now : Time} {token : String}

theorem withSession_auth {f : AuthSession → Effect}
    (hf : ∀ s, c.auth.verify token now = some s → (f s).next.auth = c.auth) :
    (c.withSession token now f).next.auth = c.auth := by
  unfold withSession
  split
  · exact hf _ ‹_›
  · rfl

variable {m : AuthManager}

theorem orElse_eq_after (m : AuthManager) (res : Except String AuthManager) :
    orElse m res = m.after res := by
  cases res <;> rfl

theorem asAdmin_current (hc : c.auth.Current) (hm : m.Current) :
    (c.asAdmin token now m).next.auth.Current := by
  unfold asAdmin withSession
  split
  · dsimp only
    split
    · exact hm
    · exact hc
  · exact hc

/-- The accounts stay as they are, and what is sent is sent on behalf of the user. -/
def ActsFor (c : Console) (user : String) (e : Effect) : Prop :=
  e.next.auth = c.auth ∧ e.user = user

theorem openSocket_actsFor (s : AuthSession) (q : WsRequest) :
    c.ActsFor s.username (c.openSocket s q) := by
  unfold openSocket
  dsimp only
  split <;> exact ⟨rfl, rfl⟩

theorem socketFrame_actsFor (sock : Socket) (f : Frame) :
    c.ActsFor sock.user (c.socketFrame sock f) := by
  unfold socketFrame
  split <;> exact ⟨rfl, rfl⟩

theorem connectAgent_actsFor (k : Nat) (sh : Shell) (target : Id) (suspend : Bool)
    (remark : String) (opened : Bool) (now : Time) :
    c.ActsFor sh.user (c.connectAgent k sh target suspend remark opened now) := by
  unfold connectAgent
  split
  · exact ⟨rfl, rfl⟩
  · dsimp only
    split
    · split <;> exact ⟨rfl, rfl⟩
    · exact ⟨rfl, rfl⟩

theorem resumeToAgent_actsFor (k : Nat) (sh : Shell) (target remark : String)
    (hasChannel opened : Bool) :
    c.ActsFor sh.user (c.resumeToAgent fold k sh target remark hasChannel opened) := by
  unfold resumeToAgent
  split
  · exact ⟨rfl, rfl⟩
  · split
    · exact ⟨rfl, rfl⟩
    · dsimp only
      split
      · exact ⟨rfl, rfl⟩
      · split <;> exact ⟨rfl, rfl⟩

theorem deleteSuspended_auth (sh : Shell) (target : String) :
    (c.deleteSuspended sh target).next.auth = c.auth := by
  unfold deleteSuspended
  split <;> rfl

theorem endShell_auth (k : Nat) (sh : Shell) (conn : Tid) (disconnected : Bool) (now : Time) :
    (c.endShell k sh conn disconnected now).next.auth = c.auth := by
  unfold endShell
  dsimp only
  split
  · rfl
  · split <;> rfl

def Deed.onAccounts : Deed → Bool
  | .login .. | .logout _ | .gcSessions _ | .createAccount .. | .updateAccount .. => true
  | .deleteAccount .. | .changePassword .. | .setSSHPublicKeys .. => true
  | _ => false

variable {d : Deed}

/-- A deed that is not about accounts leaves them alone. -/
theorem handle_auth (hd : Deed.onAccounts d = false) : (c.handle bc fold d).next.auth = c.auth := by
  cases d with
  | world => rfl
  | http token r now => exact withSession_auth fun s _ => rfl
  | closeTerminal token rest now =>
    refine withSession_auth fun s _ => ?_
    split <;> rfl
  | wsOpen token q =>
    simp only [handle]
    split
    · rfl
    · exact withSession_auth fun s _ => (openSocket_actsFor s q).1
  | wsFrame ws f =>
    simp only [handle]
    split
    · exact (socketFrame_actsFor _ f).1
    · rfl
  | wsEnd ws | sshLogin k cred sid | sshInput k =>
    simp only [handle]
    split <;> rfl
  | sshConnect k target suspend remark opened now =>
    simp only [handle]
    split
    · split
      · exact (connectAgent_actsFor ..).1
      · rfl
    · rfl
  | sshResume k target remark hasChannel opened =>
    simp only [handle]
    split
    · split
      · exact (resumeToAgent_actsFor ..).1
      · rfl
    · rfl
  | sshDelete k target =>
    simp only [handle]
    split
    · split
      · exact deleteSuspended_auth ..
      · rfl
    · rfl
  | sshEnd k disconnected now =>
    simp only [handle]
    split
    · split
      · exact endShell_auth ..
      · rfl
    · rfl
  | _ => cases hd

theorem current_step (hc : c.auth.Current) (hd : c.OperatorsOnly d) :
    (c.step bc fold d).auth.Current := by
  have hperform : ∀ now op, (∀ username role disabled password,
      op = .updateAccount username role disabled password → ¬ c.auth.Demotes username role) →
        (c.auth.perform bc now op).Current :=
    fun now op => hc.of_effect (AuthManager.perform_effect bc c.auth now op)
  by_cases haccounts : Deed.onAccounts d = false
  · rw [step, handle_auth haccounts]
    exact hc
  · cases d with
    | login username password token now =>
      simp only [step, handle, orElse_eq_after]
      exact hperform now (.login username password token) (by simp)
    | logout token => exact hperform 0 (.logout token) (by simp)
    | gcSessions now => exact hperform now .gcSessions (by simp)
    | createAccount token username password role display now =>
      simp only [step, handle, orElse_eq_after]
      exact asAdmin_current hc (hperform now (.createAccount username password role display)
        (by simp))
    | updateAccount token username role disabled password now =>
      refine asAdmin_current hc (hperform now (.updateAccount username role disabled password) ?_)
      rintro _ _ _ _ ⟨⟩
      exact hd
    | deleteAccount token username now =>
      simp only [step, handle, orElse_eq_after]
      exact asAdmin_current hc (hperform now (.deleteAccount username) (by simp))
    | changePassword token oldPwd newPwd now =>
      simp only [step, handle, withSession, orElse_eq_after]
      split
      · exact hperform now (.changePassword _ oldPwd newPwd) (by simp)
      · exact hc
    | setSSHPublicKeys token keys now =>
      simp only [step, handle, withSession, orElse_eq_after]
      split
      · exact hperform now (.setSSHPublicKeys _ keys) (by simp)
      · exact hc
    | _ => exact absurd rfl haccounts

/-! ### The messages of a deed -/

theorem verify_session {s : AuthSession} (h : m.verify token now = some s) :
    m.sessions token = some s :=
  (filter_eq_some_iff.mp h).1

theorem http_forOperators (hc : c.auth.Current) (token : String) (r : HttpRequest) (now : Time) :
    c.ForOperators bc fold (.http token r now) := by
  intro m hm hguarded
  simp only [handle, withSession] at hm ⊢
  split at hm
  · rename_i s hs
    obtain ⟨hguards, conn, type, -, htype, rfl⟩ := Endpoint.mem_sent.mp hm
    have hrole := hguards operator (route_vetted ⟨type, htype, hguarded⟩)
    exact hc token s (verify_session hs) hrole
  · cases hm

theorem detach_not_guarded (reg : TermRegistry) (sock : Socket) :
    ∀ m ∈ (reg.detach sock).2, m.type.guarded = false := by
  unfold TermRegistry.detach
  dsimp only
  split
  · simp
  · simp [Socket.message, MsgType.guarded]

theorem handleTerminalByID_not_guarded {reg terms : TermRegistry} {rest : String}
    {sent : List Sent} (h : handleTerminalByID reg rest = some (terms, sent)) :
    ∀ m ∈ sent, m.type.guarded = false := by
  obtain ⟨r, -, h⟩ := bind_eq_some_iff.mp h
  obtain ⟨ts, -, h⟩ := map_eq_some_iff.mp h
  obtain ⟨-, rfl⟩ := Prod.mk.inj h
  simp [MsgType.guarded]

theorem forOperators_of_not_guarded (h : ∀ m ∈ (c.handle bc fold d).sent, m.type.guarded = false) :
    c.ForOperators bc fold d := by
  intro m hm hguarded
  rw [h m hm] at hguarded
  cases hguarded

theorem forOperators_of_sent_nil (h : (c.handle bc fold d).sent = []) : c.ForOperators bc fold d :=
  forOperators_of_not_guarded (by simp [h])

theorem withSession_sent {f : AuthSession → Effect} (hf : ∀ s, (f s).sent = []) :
    (c.withSession token now f).sent = [] := by
  unfold withSession
  split
  · exact hf _
  · rfl

theorem asAdmin_sent : (c.asAdmin token now m).sent = [] := by
  refine withSession_sent fun s => ?_
  split <;> rfl

theorem handle_sent (hd : Deed.onAccounts d = true) : (c.handle bc fold d).sent = [] := by
  cases d with
  | createAccount | updateAccount | deleteAccount => exact asAdmin_sent
  | changePassword | setSSHPublicKeys => exact withSession_sent fun s => rfl
  | login | logout | gcSessions => rfl
  | _ => cases hd

/-- One deed sends commands on behalf of operators only. -/
theorem forOperators_step (hc : c.auth.Current) (hd : c.OperatorsOnly d) :
    c.ForOperators bc fold d := by
  cases d with
  | http token r now => exact http_forOperators hc token r now
  | closeTerminal token rest now =>
    refine forOperators_of_not_guarded ?_
    simp only [handle, withSession]
    split
    · split
      · exact handleTerminalByID_not_guarded ‹_›
      · simp
    · simp
  | wsOpen token q =>
    intro m hm hguarded
    simp only [handle, withSession] at hm ⊢
    split at hm
    · cases hm
    · rename_i hfree
      split at hm
      · rename_i s hs
        rw [(openSocket_actsFor s q).2]
        exact hd s hs
      · cases hm
  | wsFrame ws f =>
    intro m hm hguarded
    simp only [handle] at hm ⊢
    split at hm
    · rename_i sock hsock
      rw [(socketFrame_actsFor sock f).2]
      exact hd sock hsock
    · cases hm
  | wsEnd ws =>
    refine forOperators_of_not_guarded ?_
    simp only [handle]
    split
    · simpa [endSocket] using detach_not_guarded c.terms _
    · simp
  | sshConnect k target suspend remark opened now =>
    intro m hm hguarded
    simp only [handle] at hm ⊢
    split at hm
    · rename_i sh hsh
      split
      · rw [(connectAgent_actsFor ..).2]
        exact hd sh hsh
      · exact hd sh hsh
    · cases hm
  | sshResume k target remark hasChannel opened =>
    intro m hm hguarded
    simp only [handle] at hm ⊢
    split at hm
    · rename_i sh hsh
      split
      · rw [(resumeToAgent_actsFor ..).2]
        exact hd sh hsh
      · exact hd sh hsh
    · cases hm
  | sshDelete k target =>
    refine forOperators_of_not_guarded ?_
    simp only [handle]
    split
    · split
      · unfold deleteSuspended
        split
        · simp
        · simp [MsgType.guarded]
      · simp
    · simp
  | sshInput k =>
    intro m hm hguarded
    simp only [handle] at hm ⊢
    split at hm
    · rename_i sh hsh
      exact hd sh hsh
    · cases hm
  | sshEnd k disconnected now =>
    refine forOperators_of_not_guarded ?_
    simp only [handle]
    split
    · split
      · unfold endShell
        dsimp only
        split
        · simp
        · split
          · simp
          · simp [Shell.message, MsgType.guarded]
      · simp
    · simp
  | sshLogin k cred sid =>
    refine forOperators_of_not_guarded ?_
    simp only [handle]
    split <;> simp
  | world => exact forOperators_of_sent_nil rfl
  | _ => exact forOperators_of_sent_nil (handle_sent rfl)

end Console

def Console.start (accounts : AList fun _ : String => Account) (perms : Option PermManager)
    (agents : Id → Option Tid) (store : Store) (hosts : List Id) (aiEnabled : Bool) : Console where
  auth := { accounts := accounts, sessions := fun _ => none }
  perms := perms
  agents := agents
  store := store
  hosts := hosts
  forwards := fun _ => none
  aiEnabled := aiEnabled
  terms := .empty
  sockets := fun _ => none
  shells := fun _ => none

/-- A terminal, a command or a change of a file reaches an agent only on behalf of an operator,
in every run in which only operators use web terminals and gateway shells and no operator with a
session is demoted. -/
theorem commands_need_operator (bc : Bcrypt) (fold : Char → Char)
    (accounts : AList fun _ : String => Account) (perms : Option PermManager)
    (agents : Id → Option Tid) (store : Store) (hosts : List Id) (aiEnabled : Bool) (ds : List Deed)
    (hrun : Along (Console.step bc fold) Console.OperatorsOnly
      (.start accounts perms agents store hosts aiEnabled) ds) :
    Along (Console.step bc fold) (Console.ForOperators bc fold)
      (.start accounts perms agents store hosts aiEnabled) ds := by
  have hstart : (Console.start accounts perms agents store hosts aiEnabled).auth.Current := by
    intro token s hs
    cases hs
  have hstep : ∀ (c : Console) (d : Deed), c.auth.Current → c.OperatorsOnly d →
      (c.step bc fold d).auth.Current := by
    intro c d hc hd
    exact Console.current_step hc hd
  have hsent : ∀ (c : Console) (d : Deed), c.auth.Current → c.OperatorsOnly d →
      c.ForOperators bc fold d := by
    intro c d hc hd
    exact Console.forOperators_step hc hd
  exact along_of_invariant hstep hsent hstart hrun

/-! ## An operator and a viewer -/

def plain : Bcrypt where
  generate := some
  compare := fun hash password => hash == password

def staff : AList fun _ : String => Account :=
  ((∅ : AList fun _ : String => Account).insert "olga"
    { username := "olga", password := "olga-pw", role := .operator, createdAt := 0 }).insert "vera"
    { username := "vera", password := "vera-pw", role := .viewer, createdAt := 0 }

/-- A console with the host `h`. -/
def office : Console :=
  .start staff none (fun id => if id = "h" then some 7 else none) (Store.new []) ["h"] false

def execOn (id : Id) : HttpRequest where
  method := .post
  path := "/api/agents/" ++ id ++ "/exec"
  str := fun key => if key = "command" then "id" else ""

/-- An operator runs a command and types into a terminal; a viewer is refused. -/
theorem operator_runs_command :
    let ds : List Deed := [.login "olga" "olga-pw" "t1" 0, .login "vera" "vera-pw" "t2" 0,
      .http "t1" (execOn "h") 1, .http "t2" (execOn "h") 1,
      .wsOpen "t1" { agentId := "h", ws := 0, newID := "s", now := 1 },
      .wsFrame 0 (.input [105, 100, 10] true)]
    let c := exec (Console.step plain id) office (ds.take 2)
    (c.handle plain id (.http "t1" (execOn "h") 1)).sent.map Sent.type = [.cmdExec] ∧
      (c.handle plain id (.http "t2" (execOn "h") 1)).sent = [] ∧
      Along (Console.step plain id) (Console.ForOperators plain id) office ds := by
  refine ⟨by decide, by decide, commands_need_operator _ _ _ _ _ _ _ _ _ ?_⟩
  refine ⟨trivial, trivial, trivial, trivial, ?_, ?_, trivial⟩
  · intro s hs
    revert s
    decide
  · intro sock hsock
    revert sock
    decide

/-- A viewer who gets a shell on a host, over the web and through the gateway. -/
theorem viewer_opens_terminal : let ds : List Deed := [.login "vera" "vera-pw" "t" 0,
      .wsOpen "t" { agentId := "h", ws := 0, newID := "s", now := 1 },
      .sshLogin 0 (.password "vera" "vera-pw") "1", .sshConnect 0 "h" false "" true 1]
    let c := exec (Console.step plain id) office ds
    ¬ c.auth.IsOperator "vera" ∧
      ¬ Along (Console.step plain id) (Console.ForOperators plain id) office ds ∧
      (c.handle plain id (.wsFrame 0 (.input [105, 100, 10] true))).user = "vera" ∧
      (c.handle plain id (.wsFrame 0 (.input [105, 100, 10] true))).sent =
        [{ conn := 7, agent := "h", type := .terminalInput, session := "s" }] ∧
      (c.handle plain id (.sshInput 0)).user = "vera" ∧
      (c.handle plain id (.sshInput 0)).sent =
        [{ conn := 7, agent := "h", type := .terminalInput, session := "ssh-1-h" }] := by
  refine ⟨by decide, ?_, by decide, by decide, by decide,
    by decide⟩
  rintro ⟨-, hopen, -⟩
  have hbad := hopen { conn := 7, agent := "h", type := .terminalOpen, session := "s" }
    (by decide) rfl
  revert hbad
  decide

end CtForge.Server
