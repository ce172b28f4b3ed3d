import CtForge.Lib.Runs
import CtForge.Server.Accounts

/-!
# Accounts and sessions over time (`auth.go`)

The operations of the account manager, in any order and at any times. Each holds the
lock of the manager for as long as it lasts, so a run is a sequence of them.

* **`Effect`**: what an operation can do to the accounts and to the sessions.
-/

namespace CtForge.Server

open Runs List Function Option

/-! ## The manager at work -/

structure AuthSystem where
  auth : AuthManager
  now : Time

inductive AuthOp where
  | login (username password token : String)
  | logout (token : String)
  | createAccount (username password : String) (role : Role) (display : String)
  | updateAccount (username : String) (role : Option Role) (disabled : Option Bool)
      (password : String)
  | deleteAccount (username : String)
  | changePassword (username oldPwd newPwd : String)
  | setSSHPublicKeys (username : String) (keys : List String)
  | gcSessions
  | advance (time : Nat)

def AuthOp.lowers : AuthOp → Bool
  | .updateAccount .. | .deleteAccount _ => true
  | _ => false

def AuthManager.after (m : AuthManager) (result : Except String AuthManager) : AuthManager :=
  result.toOption.getD m

def AuthManager.perform (bc : Bcrypt) (m : AuthManager) (now : Time) : AuthOp → AuthManager
  | .login username password token => m.after (m.login bc username password token now)
  | .logout token => m.logout token
  | .createAccount username password role display =>
    m.after (m.createAccount bc username password role display now)
  | .updateAccount username role disabled password =>
    (m.updateAccount bc username role disabled password).1
  | .deleteAccount username => m.after (m.deleteAccount username)
  | .changePassword username oldPwd newPwd => m.after (m.changePassword bc username oldPwd newPwd)
  | .setSSHPublicKeys username keys => m.after (m.setSSHPublicKeys username keys)
  | .gcSessions => m.gcSessions now
  | .advance _ => m

def AuthOp.time : AuthOp → Nat
  | .advance time => time
  | _ => 0

def AuthSystem.step (bc : Bcrypt) (s : AuthSystem) (op : AuthOp) : AuthSystem where
  auth := s.auth.perform bc s.now op
  now := s.now + op.time

/-- The manager as `NewManager` makes it, with the accounts of the file: nobody is
logged in. -/
def AuthSystem.start (accounts : AList fun _ : String => Account) (now : Time) : AuthSystem where
  auth := { accounts := accounts, sessions := fun _ => none }
  now := now

/-- `createDefaultAdmin`, with the hash that it computed. -/
def defaultAdmin (hash : String) (now : Time) : Account where
  username := "admin"
  password := hash
  role := .admin
  displayName := "Administrator"
  mustChange := true
  createdAt := now

def AuthSystem.first (hash : String) (now : Time) : AuthSystem :=
  .start (AList.singleton "admin" (defaultAdmin hash now)) now

/-! ## What an operation does -/

namespace AuthManager

def status (m : AuthManager) (username : String) : Option (Role × Bool) :=
  (m.accounts.lookup username).map fun a => (a.role, a.disabled)

inductive Effect (m : AuthManager) : AuthOp → AuthManager → Prop
  | quiet {op : AuthOp} {m' : AuthManager} (hop : op.lowers = false)
      (hstatus : m'.status = m.status)
      (hsessions : ∀ token s, m'.sessions token = some s → m.sessions token = some s) :
      Effect m op m'
  | unknown {username password : String} {role : Option Role} {disabled : Option Bool}
      (hnone : m.status username = none) :
      Effect m (.updateAccount username role disabled password) m
  | refused {username : String} (h : username = "admin" ∨ m.status username = none) :
      Effect m (.deleteAccount username) m
  | login {username password token : String} {m' : AuthManager} {role : Role}
      (haccount : m.status username = some (role, false)) (hstatus : m'.status = m.status)
      (hsessions : ∀ key s, m'.sessions key = some s →
        m.sessions key = some s ∨ s.username = username ∧ s.role = role) :
      Effect m (.login username password token) m'
  | create {username password display : String} {role : Role} {m' : AuthManager}
      (hfresh : m.status username = none)
      (hstatus : m'.status = Function.update m.status username (some (role, false)))
      (hsessions : m'.sessions = m.sessions) :
      Effect m (.createAccount username password role display) m'
  | update {username password : String} {role : Option Role} {disabled : Option Bool}
      {m' : AuthManager} {r : Role} {d : Bool} (haccount : m.status username = some (r, d))
      (hstatus : m'.status =
        Function.update m.status username (some (role.getD r, disabled.getD d)))
      (hsessions : ∀ token s, m'.sessions token = some s ↔
        m.sessions token = some s ∧ (disabled = some true → s.username ≠ username)) :
      Effect m (.updateAccount username role disabled password) m'
  | delete {username : String} {m' : AuthManager} (hname : username ≠ "admin")
      (hstatus : m'.status = Function.update m.status username none)
      (hsessions : ∀ token s, m'.sessions token = some s →
        m.sessions token = some s ∧ s.username ≠ username) :
      Effect m (.deleteAccount username) m'

variable {m : AuthManager}

theorem status_putAccount (username : String) (a : Account) : (m.putAccount username a).status =
    Function.update m.status username (some (a.role, a.disabled)) := by
  funext other
  by_cases hname : other = username
  · subst hname
    simp [status, putAccount]
  · simp [status, putAccount, AList.lookup_insert_ne hname, update_of_ne hname]

variable {username : String}

theorem status_keepAccount {a b : Account} (ha : m.accounts.lookup username = some a)
    (hrole : b.role = a.role) (hdisabled : b.disabled = a.disabled) :
    (m.putAccount username b).status = m.status := by
  have hstatus : m.status username = some (b.role, b.disabled) := by
    simp [status, ha, hrole, hdisabled]
  rw [status_putAccount, ← hstatus, update_eq_self]

variable {op : AuthOp}

theorem after_effect (hop : op.lowers = false)
    {result : Except String AuthManager} (h : ∀ m', result = .ok m' → m.Effect op m') :
    m.Effect op (m.after result) := by
  cases result with
  | error e => exact .quiet hop rfl fun _ _ hs => hs
  | ok m' => exact h m' rfl

variable {m' : AuthManager} {now : Time} {bc : Bcrypt}

theorem login_effect {username password token : String}
    (h : m.login bc username password token now = .ok m') :
    m.Effect (.login username password token) m' := by
  unfold AuthManager.login at h
  split at h
  · cases h
  · rename_i a ha
    split at h
    · cases h
    · rename_i hdisabled
      split at h
      · cases h
      · obtain rfl := Except.ok.inj h
        have hstatus : m.status username = some (a.role, false) := by
          simp [status, ha, hdisabled]
        refine .login hstatus (status_keepAccount (b := { a with lastLogin := now }) ha rfl rfl) ?_
        intro key s hs
        simp only [update_apply] at hs
        split at hs
        · obtain rfl := some.inj hs
          exact .inr ⟨rfl, rfl⟩
        · exact .inl hs

variable {role : Role}

theorem createAccount_effect {username password display : String}
    (h : m.createAccount bc username password role display now = .ok m') :
    m.Effect (.createAccount username password role display) m' := by
  unfold AuthManager.createAccount at h
  split at h
  · cases h
  · split at h
    · cases h
    · split at h
      · cases h
      · rename_i hnone
        split at h
        · cases h
        · obtain rfl := Except.ok.inj h
          refine .create ?_ (status_putAccount username _) rfl
          simpa [status] using hnone

theorem deleteAccount_effect (username : String) :
    m.Effect (.deleteAccount username) (m.after (m.deleteAccount username)) := by
  unfold AuthManager.deleteAccount
  split
  · exact .refused (.inl ‹_›)
  · rename_i hname
    split
    · rename_i hnone
      exact .refused (.inr (by simpa [status] using hnone))
    · refine .delete hname ?_ ?_
      · funext other
        by_cases hother : other = username
        · subst hother
          simp [after, Except.toOption, status, kick, keepSessions]
        · simp [after, Except.toOption, status, kick, keepSessions, AList.lookup_erase_ne hother,
            update_of_ne hother]
      · intro token s hs
        obtain ⟨hs, hkeep⟩ := filter_eq_some_iff.mp hs
        exact ⟨hs, by simpa using hkeep⟩

theorem changePassword_effect {username oldPwd newPwd : String}
    (h : m.changePassword bc username oldPwd newPwd = .ok m') :
    m.Effect (.changePassword username oldPwd newPwd) m' := by
  unfold AuthManager.changePassword at h
  split at h
  · cases h
  · rename_i a ha
    split at h
    · cases h
    · split at h
      · cases h
      · split at h
        · cases h
        · obtain rfl := Except.ok.inj h
          exact .quiet rfl (status_keepAccount ha rfl rfl) fun _ _ hs => hs

theorem setSSHPublicKeys_effect {keys : List String}
    (h : m.setSSHPublicKeys username keys = .ok m') :
    m.Effect (.setSSHPublicKeys username keys) m' := by
  unfold AuthManager.setSSHPublicKeys at h
  split at h
  · cases h
  · rename_i a ha
    obtain rfl := Except.ok.inj h
    exact .quiet rfl (status_keepAccount ha rfl rfl) fun _ _ hs => hs

theorem setStatus_effect (password : String) {a : Account}
    (ha : m.accounts.lookup username = some a) (role : Option Role) (disabled : Option Bool)
    (hstatus : m'.status = Function.update m.status username
      (some (role.getD a.role, disabled.getD a.disabled)))
    (hsessions : m'.sessions = if disabled = some true then (m.kick username).sessions
      else m.sessions) : m.Effect (.updateAccount username role disabled password) m' := by
  refine .update (r := a.role) (d := a.disabled) ?_ hstatus ?_
  · simp [status, ha]
  · intro token s
    rw [hsessions]
    split
    · rename_i hdisabled
      have hkick : (m.kick username).sessions token = some s ↔
          m.sessions token = some s ∧ (s.username != username) = true :=
        filter_eq_some_iff
      rw [hkick]
      simp [hdisabled]
    · rename_i hdisabled
      simp [hdisabled]

theorem updateAccount_effect (bc : Bcrypt) (username : String) (role : Option Role)
    (disabled : Option Bool) (password : String) :
    m.Effect (.updateAccount username role disabled password)
      (m.updateAccount bc username role disabled password).1 := by
  unfold AuthManager.updateAccount
  split
  · rename_i hnone
    exact .unknown (by simp [status, hnone])
  · rename_i a ha
    generalize hb : { a with role := role.getD a.role, disabled := disabled.getD a.disabled } = b
    have hstatus : (if disabled = some true then (m.putAccount username b).kick username
        else m.putAccount username b).status =
          Function.update m.status username (some (role.getD a.role,
            disabled.getD a.disabled)) := by
      subst hb
      split <;> exact status_putAccount username _
    have hsessions : (if disabled = some true then (m.putAccount username b).kick username
        else m.putAccount username b).sessions =
          if disabled = some true then (m.kick username).sessions else m.sessions := by
      split <;> rfl
    have hset := setStatus_effect password ha role disabled hstatus hsessions
    dsimp only
    split
    · exact hset
    · split
      · exact hset
      · split
        · exact hset
        · refine setStatus_effect password ha role disabled ?_ hsessions
          rw [status_putAccount, hstatus, update_idem]
          subst hb
          rfl

/-- What an operation can do to the accounts and to the sessions. -/
theorem perform_effect (bc : Bcrypt) (m : AuthManager) (now : Time) (op : AuthOp) :
    m.Effect op (m.perform bc now op) := by
  cases op with
  | login username password token => exact after_effect rfl fun _ => login_effect
  | logout token =>
    refine .quiet rfl rfl fun key s hs => ?_
    simp only [perform, logout, update_apply] at hs
    split at hs
    · cases hs
    · exact hs
  | createAccount username password role display =>
    exact after_effect rfl fun _ => createAccount_effect
  | updateAccount username role disabled password =>
    exact updateAccount_effect bc username role disabled password
  | deleteAccount username => exact deleteAccount_effect username
  | changePassword username oldPwd newPwd => exact after_effect rfl fun _ => changePassword_effect
  | setSSHPublicKeys username keys => exact after_effect rfl fun _ => setSSHPublicKeys_effect
  | gcSessions => exact .quiet rfl rfl fun token s hs => (filter_eq_some_iff.mp hs).1
  | advance time => exact .quiet rfl rfl fun _ _ hs => hs

theorem status_eq_some {disabled : Bool} :
    m.status username = some (role, disabled) ↔
      ∃ a, m.accounts.lookup username = some a ∧ a.role = role ∧ a.disabled = disabled := by
  simp [status]

theorem roleOf_eq_some :
    m.roleOf username = some role ↔ ∃ disabled, m.status username = some (role, disabled) := by
  simp only [roleOf, status_eq_some, map_eq_some_iff]
  constructor
  · rintro ⟨a, ha, hrole⟩
    exact ⟨a.disabled, a, ha, hrole, rfl⟩
  · rintro ⟨_, a, ha, hrole, -⟩
    exact ⟨a, ha, hrole⟩

theorem verify_eq_some {token : String} {s : AuthSession} :
    m.verify token now = some s ↔ m.sessions token = some s ∧ now ≤ s.expiresAt := by
  simp [verify, filter_eq_some_iff]

end AuthManager

open AuthManager

/-! ## Sessions and the accounts behind them -/

def AuthSystem.Backed (s : AuthSystem) : Prop :=
  ∀ token sess, s.auth.sessions token = some sess →
    ∃ role, s.auth.status sess.username = some (role, false)

variable {s : AuthSystem}

/-- One operation keeps every session backed by a live account. -/
theorem AuthSystem.Backed.step (h : s.Backed) (bc : Bcrypt) (op : AuthOp) :
    (s.step bc op).Backed := by
  intro token sess hs
  have heffect := perform_effect bc s.auth s.now op
  change (s.auth.perform bc s.now op).sessions token = some sess at hs
  change ∃ role, (s.auth.perform bc s.now op).status sess.username = some (role, false)
  generalize s.auth.perform bc s.now op = m' at heffect hs ⊢
  cases heffect with
  | quiet _ hstatus hsessions =>
    rw [hstatus]
    exact h token sess (hsessions token sess hs)
  | unknown | refused => exact h token sess hs
  | login haccount hstatus hsessions =>
    rw [hstatus]
    rcases hsessions token sess hs with hs | ⟨hname, -⟩
    · exact h token sess hs
    · rw [hname]
      exact ⟨_, haccount⟩
  | create hfresh hstatus hsessions =>
    rw [hsessions] at hs
    obtain ⟨role, hrole⟩ := h token sess hs
    rw [hstatus, update_of_ne]
    · exact ⟨role, hrole⟩
    · intro hname
      rw [hname, hfresh] at hrole
      cases hrole
  | @update username _ _ disabled _ _ _ haccount hstatus hsessions =>
    obtain ⟨hs, hkick⟩ := (hsessions token sess).mp hs
    obtain ⟨role, hrole⟩ := h token sess hs
    rw [hstatus, update_apply]
    split
    · rename_i hname
      rw [hname, haccount] at hrole
      obtain ⟨-, rfl⟩ := Prod.mk.inj (some.inj hrole)
      cases disabled with
      | none => exact ⟨_, rfl⟩
      | some b =>
        cases b with
        | false => exact ⟨_, rfl⟩
        | true => exact absurd hname (hkick rfl)
    · exact ⟨role, hrole⟩
  | delete hname hstatus hsessions =>
    obtain ⟨hs, hother⟩ := hsessions token sess hs
    rw [hstatus, update_of_ne hother]
    exact h token sess hs

/-- A token that is accepted belongs to an account that exists and is not disabled, and its
session has not expired. -/
theorem sessions_have_live_accounts (bc : Bcrypt) (accounts : AList fun _ : String => Account)
    (now : Time) (ops : List AuthOp) :
    Throughout (AuthSystem.step bc)
      (fun s => ∀ token sess, s.auth.verify token s.now = some sess →
        (∃ a, s.auth.accounts.lookup sess.username = some a ∧ a.disabled = false) ∧
          s.now ≤ sess.expiresAt)
      (AuthSystem.start accounts now) ops := by
  have hbacked : Throughout (AuthSystem.step bc) AuthSystem.Backed
      (AuthSystem.start accounts now) ops := by
    refine throughout_of_invariant (C := fun _ _ => True) (fun s op h _ => h.step bc op) ?_
      (along_of_forall fun _ _ _ => trivial)
    intro token sess hs
    cases hs
  refine hbacked.mono fun s h token sess hverify => ?_
  obtain ⟨hs, htime⟩ := verify_eq_some.mp hverify
  obtain ⟨role, hrole⟩ := h token sess hs
  obtain ⟨a, ha, -, hdisabled⟩ := status_eq_some.mp hrole
  exact ⟨⟨a, ha, hdisabled⟩, htime⟩

/-! ## Roles -/

/-- Every session that `Verify` accepts has the role of its account; where `requireRole`
lets it pass, it would let the account pass as it is now. -/
def AuthSystem.RolesCurrent (s : AuthSystem) : Prop :=
  ∀ token sess, s.auth.verify token s.now = some sess →
    s.auth.roleOf sess.username = some sess.role ∧
      ∀ min, sess.role.atLeast min = true →
        (s.auth.roleOf sess.username).any (Role.atLeast · min) = true

theorem AuthSystem.rolesCurrent_iff : s.RolesCurrent ↔ ∀ token sess,
    s.auth.verify token s.now = some sess → s.auth.roleOf sess.username = some sess.role := by
  constructor
  · exact fun h token sess hverify => (h token sess hverify).1
  · intro h token sess hverify
    have hrole := h token sess hverify
    exact ⟨hrole, fun min hmin => by rw [hrole]; exact hmin⟩

/-- An update gives no other role to an account with an open session, or it disables the
account, which ends its sessions. -/
def AuthSystem.KeepsRoles (s : AuthSystem) : AuthOp → Prop
  | .updateAccount username role disabled _ =>
    disabled = some true ∨ ∀ token sess, s.auth.verify token s.now = some sess →
      sess.username = username → role = none ∨ role = some sess.role
  | _ => True

theorem AuthSystem.keepsRoles_of_not_lowers (h : op.lowers = false) : s.KeepsRoles op := by
  cases op with
  | updateAccount => cases h
  | _ => trivial

/-- One operation keeps the roles current exactly if it changes no role with a session open. -/
theorem AuthSystem.RolesCurrent.step_iff (h : s.RolesCurrent) (bc : Bcrypt) (op : AuthOp) :
    (s.step bc op).RolesCurrent ↔ s.KeepsRoles op := by
  rw [rolesCurrent_iff] at h
  have hbefore : ∀ token sess, s.auth.sessions token = some sess →
      s.now + op.time ≤ sess.expiresAt →
        ∃ d, s.auth.status sess.username = some (sess.role, d) := by
    intro token sess hs htime
    refine roleOf_eq_some.mp (h token sess (verify_eq_some.mpr ⟨hs, Int.le_trans ?_ htime⟩))
    exact Int.le_add_of_nonneg_right (Int.natCast_nonneg _)
  have hafter : (s.step bc op).RolesCurrent ↔ ∀ token sess,
      (s.auth.perform bc s.now op).sessions token = some sess → s.now + op.time ≤ sess.expiresAt →
      ∃ d, (s.auth.perform bc s.now op).status sess.username = some (sess.role, d) := by
    simp only [rolesCurrent_iff, AuthSystem.step, verify_eq_some, roleOf_eq_some, and_imp]
  rw [hafter]
  have heffect := perform_effect bc s.auth s.now op
  generalize s.auth.perform bc s.now op = m' at heffect ⊢
  cases heffect with
  | quiet hop hstatus hsessions =>
    refine iff_of_true ?_ (keepsRoles_of_not_lowers hop)
    intro token sess hs
    rw [hstatus]
    exact hbefore token sess (hsessions token sess hs)
  | unknown hnone =>
    refine iff_of_true hbefore (.inr ?_)
    intro token sess hverify hname
    obtain ⟨d, hd⟩ := roleOf_eq_some.mp (h token sess hverify)
    rw [hname, hnone] at hd
    cases hd
  | refused => exact iff_of_true hbefore trivial
  | login haccount hstatus hsessions =>
    refine iff_of_true ?_ trivial
    intro token sess hs htime
    rw [hstatus]
    rcases hsessions token sess hs with hs | ⟨hname, hrole⟩
    · exact hbefore token sess hs htime
    · rw [hname, hrole]
      exact ⟨_, haccount⟩
  | create hfresh hstatus hsessions =>
    refine iff_of_true ?_ trivial
    intro token sess hs htime
    rw [hsessions] at hs
    obtain ⟨d, hd⟩ := hbefore token sess hs htime
    rw [hstatus, update_of_ne]
    · exact ⟨d, hd⟩
    · intro hname
      rw [hname, hfresh] at hd
      cases hd
  | @update username _ role disabled _ r d haccount hstatus hsessions =>
    -- the sessions of the account that the update leaves have the role that it had
    have hrole : ∀ token sess, s.auth.verify token s.now = some sess → sess.username = username →
        sess.role = r := by
      intro token sess hverify hname
      obtain ⟨d', hd'⟩ := roleOf_eq_some.mp (h token sess hverify)
      rw [hname, haccount] at hd'
      exact (Prod.mk.inj (some.inj hd')).1.symm
    have htime : s.now + (AuthOp.updateAccount username role disabled ‹_›).time = s.now :=
      Int.add_zero s.now
    constructor
    · intro hafter
      by_cases hdisabled : disabled = some true
      · exact .inl hdisabled
      refine .inr fun token sess hverify hname => ?_
      obtain ⟨hs, hexpires⟩ := verify_eq_some.mp hverify
      obtain ⟨d', hd'⟩ := hafter token sess
        ((hsessions token sess).mpr ⟨hs, fun hd => absurd hd hdisabled⟩)
        (by rwa [htime])
      rw [hname, hstatus, update_self] at hd'
      have hnew := (Prod.mk.inj (some.inj hd')).1
      cases role with
      | none => exact .inl rfl
      | some x => exact .inr (congrArg some hnew)
    · intro hkeeps token sess hs hexpires
      obtain ⟨hs, hkick⟩ := (hsessions token sess).mp hs
      rw [hstatus, update_apply]
      split
      · rename_i hname
        rw [htime] at hexpires
        have hverify := verify_eq_some.mpr ⟨hs, hexpires⟩
        rcases hkeeps with hdisabled | hkeeps
        · exact absurd hname (hkick hdisabled)
        · rcases hkeeps token sess hverify hname with rfl | rfl
          · exact ⟨_, by rw [hrole token sess hverify hname]; rfl⟩
          · exact ⟨_, rfl⟩
      · exact hbefore token sess hs hexpires
  | delete hname hstatus hsessions =>
    refine iff_of_true ?_ trivial
    intro token sess hs htime
    obtain ⟨hs, hother⟩ := hsessions token sess hs
    rw [hstatus, update_of_ne hother]
    exact hbefore token sess hs htime

/-- The sessions keep the roles of their accounts exactly if no role is changed while a session
of the account is open. -/
theorem session_roles_current_iff (bc : Bcrypt) (accounts : AList fun _ : String => Account)
    (now : Time) (ops : List AuthOp) :
    Throughout (AuthSystem.step bc) AuthSystem.RolesCurrent (AuthSystem.start accounts now) ops ↔
      Along (AuthSystem.step bc) AuthSystem.KeepsRoles (AuthSystem.start accounts now) ops := by
  refine throughout_iff_along (fun s op h => h.step_iff bc op) ?_
  intro token sess hs
  cases hs

/-- An operator logs in and is made a viewer; the token still passes as an operator's. -/
theorem demoted_operator_keeps_token :
    let bc : Bcrypt := { generate := some, compare := fun hash password => hash == password }
    let ops : List AuthOp := [.createAccount "carol" "secret1" .operator "",
      .login "carol" "secret1" "t1", .updateAccount "carol" (some .viewer) none ""]
    let s := exec (AuthSystem.step bc) (AuthSystem.first "admin123" 0) ops
    (s.auth.verify "t1" s.now).map (fun sess => (sess.username, sess.role)) =
        some ("carol", .operator) ∧
      s.auth.roleOf "carol" = some .viewer ∧ ¬ s.RolesCurrent := by
  intro bc ops s
  have hsess : (s.auth.verify "t1" s.now).map (fun sess => (sess.username, sess.role)) =
      some ("carol", .operator) := by decide
  have hrole : s.auth.roleOf "carol" = some .viewer := by decide
  refine ⟨hsess, hrole, fun hcurrent => ?_⟩
  obtain ⟨sess, hverify, heq⟩ := map_eq_some_iff.mp hsess
  obtain ⟨hname, hoperator⟩ := Prod.mk.inj heq
  have hrole' := (hcurrent "t1" sess hverify).1
  rw [hname, hoperator, hrole] at hrole'
  cases hrole'

/-! ## Administrators -/

def AuthManager.ActiveAdmin (m : AuthManager) (username : String) : Prop :=
  m.status username = some (.admin, false)

def AuthSystem.HasAdmin (s : AuthSystem) : Prop :=
  ∃ username a, s.auth.accounts.lookup username = some a ∧ a.role = .admin ∧ a.disabled = false

/-- An update or a deletion that leaves an administrator: another one is there, or the
update takes nothing, or the deletion is refused. -/
def AuthSystem.SparesAdmin (s : AuthSystem) : AuthOp → Prop
  | .updateAccount username role disabled _ =>
    (∃ other ≠ username, s.auth.ActiveAdmin other) ∨
      (role = none ∨ role = some .admin) ∧ disabled ≠ some true
  | .deleteAccount username => username = "admin" ∨ ∃ other ≠ username, s.auth.ActiveAdmin other
  | _ => True

theorem AuthSystem.hasAdmin_iff : s.HasAdmin ↔ ∃ username, s.auth.ActiveAdmin username := by
  simp only [HasAdmin, ActiveAdmin, status_eq_some]

theorem AuthSystem.sparesAdmin_of_not_lowers (h : op.lowers = false) : s.SparesAdmin op := by
  cases op with
  | updateAccount | deleteAccount => cases h
  | _ => trivial

/-- One operation keeps an administrator exactly if it spares the last one. -/
theorem AuthSystem.HasAdmin.step_iff (h : s.HasAdmin) (bc : Bcrypt) (op : AuthOp) :
    (s.step bc op).HasAdmin ↔ s.SparesAdmin op := by
  obtain ⟨admin, hadmin⟩ := hasAdmin_iff.mp h
  rw [hasAdmin_iff]
  change (∃ username, (s.auth.perform bc s.now op).status username = some (.admin, false)) ↔ _
  have heffect := perform_effect bc s.auth s.now op
  generalize s.auth.perform bc s.now op = m' at heffect ⊢
  cases heffect with
  | quiet hop hstatus _ =>
    exact iff_of_true ⟨admin, hstatus ▸ hadmin⟩ (sparesAdmin_of_not_lowers hop)
  | @unknown username _ _ _ hnone =>
    refine iff_of_true ⟨admin, hadmin⟩ (.inl ⟨admin, ?_, hadmin⟩)
    rintro rfl
    rw [ActiveAdmin, hnone] at hadmin
    cases hadmin
  | @refused username hrefused =>
    refine iff_of_true ⟨admin, hadmin⟩ (hrefused.imp_right fun hnone => ⟨admin, ?_, hadmin⟩)
    rintro rfl
    rw [ActiveAdmin, hnone] at hadmin
    cases hadmin
  | login _ hstatus _ => exact iff_of_true ⟨admin, hstatus ▸ hadmin⟩ trivial
  | create hfresh hstatus _ =>
    refine iff_of_true ⟨admin, ?_⟩ trivial
    rw [hstatus, update_of_ne]
    · exact hadmin
    · rintro rfl
      rw [ActiveAdmin, hfresh] at hadmin
      cases hadmin
  | @update username _ role disabled _ r d haccount hstatus _ =>
    rw [hstatus]
    constructor
    · rintro ⟨other, hother⟩
      by_cases hname : other = username
      · rw [hname, update_self] at hother
        obtain ⟨hrole, hdisabled⟩ := Prod.mk.inj (some.inj hother)
        refine .inr ⟨?_, ?_⟩
        · cases role with
          | none => exact .inl rfl
          | some x => exact .inr (congrArg some hrole)
        · rintro rfl
          cases hdisabled
      · rw [update_of_ne hname] at hother
        exact .inl ⟨other, hname, hother⟩
    · rintro (⟨other, hname, hother⟩ | ⟨hrole, hdisabled⟩)
      · exact ⟨other, by rw [update_of_ne hname]; exact hother⟩
      · refine ⟨admin, ?_⟩
        by_cases hname : admin = username
        · subst hname
          obtain ⟨rfl, rfl⟩ := Prod.mk.inj (some.inj (haccount.symm.trans hadmin))
          have hrole' : role.getD Role.admin = .admin := by rcases hrole with rfl | rfl <;> rfl
          have hdisabled' : disabled.getD false = false := by
            rcases disabled with _ | _ | _
            · rfl
            · rfl
            · exact absurd rfl hdisabled
          rw [update_self, hrole', hdisabled']
        · rw [update_of_ne hname]
          exact hadmin
  | delete hname hstatus _ =>
    rw [hstatus]
    constructor
    · rintro ⟨other, hother⟩
      rw [update_apply] at hother
      split at hother
      · cases hother
      · exact .inr ⟨other, ‹_›, hother⟩
    · rintro (hbuiltin | ⟨other, hne, hother⟩)
      · exact absurd hbuiltin hname
      · exact ⟨other, by rw [update_of_ne hne]; exact hother⟩

/-- An administrator who can log in remains exactly if none of the updates and deletions takes
the last one. -/
theorem some_admin_stays_iff (bc : Bcrypt) (hash : String) (now : Time) (ops : List AuthOp) :
    Throughout (AuthSystem.step bc) AuthSystem.HasAdmin (AuthSystem.first hash now) ops ↔
      Along (AuthSystem.step bc) AuthSystem.SparesAdmin (AuthSystem.first hash now) ops := by
  refine throughout_iff_along (fun s op h => h.step_iff bc op) ?_
  exact ⟨"admin", defaultAdmin hash now, AList.lookup_insert ∅, rfl, rfl⟩

/-- The only administrator is disabled; nobody can enable the account again. -/
theorem last_admin_is_disabled :
    let bc : Bcrypt := { generate := some, compare := fun hash password => hash == password }
    let ops : List AuthOp := [.updateAccount "admin" none (some true) "",
      .login "admin" "admin123" "t1"]
    let s := exec (AuthSystem.step bc) (AuthSystem.first "admin123" 0) ops
    (s.auth.accounts.entries.map fun e => (e.1, e.2.role, e.2.disabled)) =
        [("admin", .admin, true)] ∧
      s.auth.verify "t1" s.now = none ∧ ¬ s.HasAdmin := by
  intro bc ops s
  have hentries : (s.auth.accounts.entries.map fun e => (e.1, e.2.role, e.2.disabled)) =
      [("admin", .admin, true)] := by decide
  refine ⟨hentries, by decide, ?_⟩
  rintro ⟨username, a, ha, -, hdisabled⟩
  have hmem := mem_map_of_mem (f := fun e => (e.1, e.2.role, e.2.disabled))
    (AList.mem_lookup_iff.mp ha)
  rw [hentries, mem_singleton] at hmem
  rw [(Prod.mk.inj (Prod.mk.inj hmem).2).2] at hdisabled
  cases hdisabled

end CtForge.Server
