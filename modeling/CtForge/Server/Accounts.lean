import Mathlib.Data.List.AList
import CtForge.Server.Store

/-!
# Accounts, grants and what they allow (`auth.go`, `perms.go`)

An account has a role. A login gives out a token, and the session behind it keeps
the role that the account had then. A grant adds permission points, the machines
they are for and a time until which they hold; `hasPerm` asks it, and falls back on
the role of the account where there is no grant or one without permissions.

The password hashes are those of `bcrypt`, which stands outside: `Bcrypt` is what
it computes. The audit log and the files the managers are saved to are left out.
-/

namespace CtForge.Server

/-! ## Roles and accounts -/

inductive Role where
  | viewer
  | operator
  | admin
  | other (name : String)
  deriving DecidableEq, Repr

/-- The order of `requireRole`; a name that it does not list counts as a viewer. -/
def Role.order : Role → Nat
  | .operator => 1
  | .admin => 2
  | _ => 0

def Role.atLeast (role min : Role) : Bool := min.order ≤ role.order

structure Bcrypt where
  /-- `GenerateFromPassword`, which may fail. -/
  generate : String → Option String
  /-- `CompareHashAndPassword` finds that the hash is of the password. -/
  compare : String → String → Bool

structure Account where
  username : String
  password : String
  role : Role
  displayName : String := ""
  mustChange : Bool := false
  disabled : Bool := false
  createdAt : Time
  lastLogin : Time := zeroTime
  sshPublicKeys : List String := []

structure AuthSession where
  token : String
  username : String
  role : Role
  createdAt : Time
  expiresAt : Time

structure AuthManager where
  accounts : AList fun _ : String => Account
  sessions : String → Option AuthSession

def sessionTime : Time := 43200 * 1000000000

/-- `unicode.IsSpace`. -/
def isSpace (c : Char) : Bool :=
  let n := c.toNat
  (0x09 ≤ n && n ≤ 0x0d) || n == 0x20 || n == 0x85 || n == 0xa0 || n == 0x1680 ||
    (0x2000 ≤ n && n ≤ 0x200a) || n == 0x2028 || n == 0x2029 || n == 0x202f || n == 0x205f ||
    n == 0x3000

/-- `strings.Fields`. -/
def fieldsOf (s : List Char) : List (List Char) := (s.splitOnP isSpace).filter (!·.isEmpty)

def fields (line : String) : List String := (fieldsOf line.toList).map String.ofList

def Account.hasKey (a : Account) (blob : String) : Bool :=
  a.sshPublicKeys.any fun k => 2 ≤ (fields k).length && (fields k)[1]? == some blob

namespace AuthManager

def putAccount (m : AuthManager) (username : String) (a : Account) : AuthManager :=
  { m with accounts := m.accounts.insert username a }

def checkPassword (bc : Bcrypt) (m : AuthManager) (username password : String) : Option Account :=
  (m.accounts.lookup username).filter fun a => !a.disabled && bc.compare a.password password

def findAccountByPublicKey (m : AuthManager) (blob : String) : Option Account :=
  (m.accounts.entries.map Sigma.snd).find? fun a => !a.disabled && a.hasKey blob

def setSSHPublicKeys (m : AuthManager) (username : String) (keys : List String) :
    Except String AuthManager :=
  match m.accounts.lookup username with
  | none => .error "账户不存在"
  | some a => .ok (m.putAccount username { a with sshPublicKeys := keys })

/-- The session that a login of `a` opens under the token it draws. -/
def newSession (a : Account) (username token : String) (now : Time) : AuthSession where
  token := token
  username := username
  role := a.role
  createdAt := now
  expiresAt := now + sessionTime

def login (bc : Bcrypt) (m : AuthManager) (username password token : String) (now : Time) :
    Except String AuthManager :=
  match m.accounts.lookup username with
  | none => .error "用户名或密码错误"
  | some a =>
    if a.disabled then .error "账户已被禁用"
    else if bc.compare a.password password = false then .error "用户名或密码错误"
    else
      let s := newSession a username token now
      .ok { m.putAccount username { a with lastLogin := now } with
        sessions := Function.update m.sessions token (some s) }

def verify (m : AuthManager) (token : String) (now : Time) : Option AuthSession :=
  (m.sessions token).filter fun s => now ≤ s.expiresAt

def logout (m : AuthManager) (token : String) : AuthManager :=
  { m with sessions := Function.update m.sessions token none }

def keepSessions (m : AuthManager) (keep : AuthSession → Bool) : AuthManager :=
  { m with sessions := fun token => (m.sessions token).filter keep }

def gcSessions (m : AuthManager) (now : Time) : AuthManager :=
  m.keepSessions fun s => now ≤ s.expiresAt

def kick (m : AuthManager) (username : String) : AuthManager :=
  m.keepSessions fun s => s.username != username

def createAccount (bc : Bcrypt) (m : AuthManager) (username password : String) (role : Role)
    (display : String) (now : Time) : Except String AuthManager :=
  if username.utf8ByteSize < 3 then .error "用户名至少 3 个字符"
  else if password.utf8ByteSize < 6 then .error "密码至少 6 个字符"
  else if (m.accounts.lookup username).isSome then .error "用户名已存在"
  else
    match bc.generate password with
    | none => .error "bcrypt"
    | some hash => .ok (m.putAccount username {
        username := username
        password := hash
        role := role
        displayName := display
        createdAt := now
        mustChange := true })

/-- `UpdateAccount`. The role and the lock are written before the password is
checked, and stay when the check fails. -/
def updateAccount (bc : Bcrypt) (m : AuthManager) (username : String) (role : Option Role)
    (disabled : Option Bool) (password : String) : AuthManager × Option String :=
  match m.accounts.lookup username with
  | none => (m, some "账户不存在")
  | some a =>
    let a := { a with role := role.getD a.role, disabled := disabled.getD a.disabled }
    let m := m.putAccount username a
    let m := if disabled = some true then m.kick username else m
    if password = "" then (m, none)
    else if password.utf8ByteSize < 6 then (m, some "密码至少 6 个字符")
    else
      match bc.generate password with
      | none => (m, some "bcrypt")
      | some hash => (m.putAccount username { a with password := hash, mustChange := true }, none)

def deleteAccount (m : AuthManager) (username : String) : Except String AuthManager :=
  if username = "admin" then .error "不能删除内置管理员"
  else if (m.accounts.lookup username).isNone then .error "账户不存在"
  else .ok ({ m with accounts := m.accounts.erase username }.kick username)

def changePassword (bc : Bcrypt) (m : AuthManager) (username oldPwd newPwd : String) :
    Except String AuthManager :=
  match m.accounts.lookup username with
  | none => .error "账户不存在"
  | some a =>
    if bc.compare a.password oldPwd = false then .error "原密码错误"
    else if newPwd.utf8ByteSize < 6 then .error "新密码至少 6 个字符"
    else
      match bc.generate newPwd with
      | none => .error "bcrypt"
      | some hash => .ok (m.putAccount username { a with password := hash, mustChange := false })

def roleOf (m : AuthManager) (username : String) : Option Role :=
  (m.accounts.lookup username).map Account.role

end AuthManager

/-! ## Permission points, groups and grants -/

inductive Perm where
  | agentView | agentMetrics | agentLogs | terminal | fileView | fileEdit | cmdExec
  | service | pkg | sysUser | sysLog | security | portForward | upgrade | uninstall
  | deploy | approval | task | alert | notify | accounts | audit | stats | topology
  | ai | group
  /-- `PermBilling`, which stands for every permission. -/
  | all
  | other (name : String)
  deriving DecidableEq, Repr

def readonlyPerms : List Perm :=
  [.agentView, .agentMetrics, .agentLogs, .sysLog, .security, .stats, .topology]

def operatorPerms : List Perm :=
  readonlyPerms ++ [.terminal, .fileView, .service, .pkg, .cmdExec]

def advancedPerms : List Perm :=
  operatorPerms ++ [.fileEdit, .sysUser, .portForward, .upgrade, .uninstall, .task, .alert]

def permLevel (p : Perm) : Nat :=
  if p ∈ readonlyPerms then 1
  else if p ∈ operatorPerms then 2
  else if p ∈ advancedPerms then 3
  else if p = .all then 4
  else 0

structure Group where
  id : String
  agents : List Id

structure MachineScope where
  all : Bool := false
  groups : List String := []
  agents : List Id := []

structure Grant where
  username : String
  permissions : List Perm
  scope : MachineScope
  expiresAt : Int := 0

namespace Grant

def valid (g : Grant) (now : Time) : Bool := g.expiresAt == 0 || unixMilli now < g.expiresAt

def has (g : Grant) (perm : Perm) : Bool := g.permissions.any fun p => p == .all || p == perm

def canAccess (g : Grant) (agentId : Id) (agentGroups : List String) : Bool :=
  g.scope.all || g.scope.agents.contains agentId ||
    agentGroups.any fun ag => g.scope.groups.contains ag

end Grant

structure PermManager where
  groups : AList fun _ : String => Group
  grants : String → Option Grant

namespace PermManager

def groupsOfAgent (m : PermManager) (agentId : Id) : List String :=
  (m.groups.entries.filter fun e => e.2.agents.contains agentId).map Sigma.fst

def inScope (m : PermManager) (g : Grant) (agentId : Id) : Bool :=
  g.canAccess agentId (m.groupsOfAgent agentId)

def check (m : PermManager) (username : String) (perm : Perm) (agentId : Id) (now : Time) : Bool :=
  match m.grants username with
  | none => false
  | some g => g.valid now && g.has perm && (agentId == "" || m.inScope g agentId)

end PermManager

def Role.allows (perm : Perm) : Role → Bool
  | .admin => true
  | .operator => perm != .accounts && perm != .notify && perm != .group
  | _ => permLevel perm ≤ 1

/-- `hasPerm`; a console without a permission manager allows everything. -/
def hasPerm (perms : Option PermManager) (auth : AuthManager) (username : String) (perm : Perm)
    (agentId : Id) (now : Time) : Bool :=
  match perms with
  | none => true
  | some pm =>
    match pm.grants username with
    | none => (auth.roleOf username).any (Role.allows perm)
    | some g =>
      if g.permissions = [] then (auth.roleOf username).any (Role.allows perm)
      else pm.check username perm agentId now

end CtForge.Server
