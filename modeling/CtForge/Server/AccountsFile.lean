import CtForge.Lib.CLang
import CtForge.Server.Sessions

/-!
# The accounts file (`auth.go`)

An operation on the accounts holds the lock of the manager from its first look at them to
its return. Between the two it changes the accounts in memory and calls `saveLocked`, which
marshals them in the order in which `range` visits the map, writes a temporary file, and
renames it to the accounts file. The process may end at any of these points.

Outside stand the encoding of the accounts as JSON, which `AccountsJson` takes to be
lossless, and the file system: a write may take a part or fail, `WriteFile` returns success
when all is written, and a rename replaces the file at once or fails.
-/

namespace CtForge.Server

open CLang Runs List Function Option

deriving instance DecidableEq for Account

/-! ## Accounts under their names -/

abbrev AccountMap := AList fun _ : String => Account

abbrev AccountSet := String → Option Account

def AuthManager.set (m : AuthManager) : AccountSet := fun name => m.accounts.lookup name

def AuthManager.Keyed (m : AuthManager) : Prop := ∀ name a, m.set name = some a → a.username = name

namespace AuthManager

variable {m : AuthManager} {username : String} {a : Account}

theorem Keyed.putAccount (h : m.Keyed) (ha : a.username = username) :
    (m.putAccount username a).Keyed := by
  intro name b hb
  by_cases hname : name = username
  · subst hname
    rw [set, AuthManager.putAccount, AList.lookup_insert] at hb
    rwa [← some.inj hb]
  · rw [set, AuthManager.putAccount, AList.lookup_insert_ne hname] at hb
    exact h name b hb

theorem Keyed.after (h : m.Keyed) {result : Except String AuthManager}
    (hok : ∀ m', result = .ok m' → m'.Keyed) : (m.after result).Keyed := by
  cases result with
  | error e => exact h
  | ok m' => exact hok m' rfl

variable {m' : AuthManager} {bc : Bcrypt}

theorem login_keyed (h : m.Keyed) {username password token : String} {now : Time}
    (hok : m.login bc username password token now = .ok m') : m'.Keyed := by
  unfold login at hok
  split at hok
  · cases hok
  · rename_i a ha
    split at hok
    · cases hok
    · split at hok
      · cases hok
      · obtain rfl := Except.ok.inj hok
        exact h.putAccount (a := { a with lastLogin := now }) (h username a ha)

theorem createAccount_keyed (h : m.Keyed) {username password display : String}
    {role : Role} {now : Time}
    (hok : m.createAccount bc username password role display now = .ok m') : m'.Keyed := by
  unfold createAccount at hok
  split at hok
  · cases hok
  · split at hok
    · cases hok
    · split at hok
      · cases hok
      · split at hok
        · cases hok
        · obtain rfl := Except.ok.inj hok
          exact h.putAccount rfl

theorem updateAccount_keyed (h : m.Keyed) (bc : Bcrypt) (username : String) (role : Option Role)
    (disabled : Option Bool) (password : String) :
    (m.updateAccount bc username role disabled password).1.Keyed := by
  unfold updateAccount
  split
  · exact h
  · rename_i a ha
    have hname := h username a ha
    have hput : (m.putAccount username { a with
        role := role.getD a.role, disabled := disabled.getD a.disabled }).Keyed :=
      h.putAccount hname
    have hkick : (if disabled = some true then (m.putAccount username { a with
        role := role.getD a.role, disabled := disabled.getD a.disabled }).kick username
        else m.putAccount username { a with
          role := role.getD a.role, disabled := disabled.getD a.disabled }).Keyed := by
      split
      · exact hput
      · exact hput
    simp only
    split
    · exact hkick
    · split
      · exact hkick
      · split
        · exact hkick
        · exact hkick.putAccount hname

theorem deleteAccount_keyed (h : m.Keyed) (hok : m.deleteAccount username = .ok m') : m'.Keyed := by
  unfold deleteAccount at hok
  split at hok
  · cases hok
  · split at hok
    · cases hok
    · obtain rfl := Except.ok.inj hok
      intro name a ha
      by_cases hname : name = username
      · subst hname
        exact absurd ha (by simp [set, kick, keepSessions])
      · exact h name a (by simpa [set, kick, keepSessions, AList.lookup_erase_ne hname] using ha)

theorem changePassword_keyed (h : m.Keyed) {username oldPwd newPwd : String}
    (hok : m.changePassword bc username oldPwd newPwd = .ok m') : m'.Keyed := by
  unfold changePassword at hok
  split at hok
  · cases hok
  · rename_i a ha
    split at hok
    · cases hok
    · split at hok
      · cases hok
      · split at hok
        · cases hok
        · rename_i hash _
          obtain rfl := Except.ok.inj hok
          exact h.putAccount (a := { a with password := hash, mustChange := false })
            (h username a ha)

theorem setSSHPublicKeys_keyed (h : m.Keyed) {keys : List String}
    (hok : m.setSSHPublicKeys username keys = .ok m') : m'.Keyed := by
  unfold setSSHPublicKeys at hok
  split at hok
  · cases hok
  · rename_i a ha
    obtain rfl := Except.ok.inj hok
    exact h.putAccount (a := { a with sshPublicKeys := keys }) (h username a ha)

/-- An account stands under its own name. -/
theorem perform_keyed (h : m.Keyed) (bc : Bcrypt) (now : Time) (op : AuthOp) :
    (m.perform bc now op).Keyed := by
  cases op with
  | login username password token => exact h.after fun _ => login_keyed h
  | createAccount username password role display => exact h.after fun _ => createAccount_keyed h
  | updateAccount username role disabled password =>
    exact updateAccount_keyed h bc username role disabled password
  | deleteAccount username => exact h.after fun _ => deleteAccount_keyed h
  | changePassword username oldPwd newPwd => exact h.after fun _ => changePassword_keyed h
  | setSSHPublicKeys username keys => exact h.after fun _ => setSSHPublicKeys_keyed h
  | logout token | gcSessions | advance time => exact h

end AuthManager

/-! ## The file -/

/-- What `json.MarshalIndent` and `json.Unmarshal` do with a list of accounts. -/
structure AccountsJson where
  marshal : List Account → Option Bytes
  unmarshal : Bytes → Option (List Account)
  lossless : ∀ list data, marshal list = some data → unmarshal data = some list

/-- The accounts of a file, as `load` enters them. -/
def accountsOf (list : List Account) : AccountMap :=
  list.foldl (fun accounts a => accounts.insert a.username a) ∅

/-- `load`. Where there is no file, `NewManager` goes on with no accounts; an error of
`Unmarshal` ends the process. -/
def loadAccounts (json : AccountsJson) : Option Bytes → Option AccountMap
  | none => some ∅
  | some data => (json.unmarshal data).map accountsOf

def loadedSet (json : AccountsJson) (file : Option Bytes) : Option AccountSet :=
  (loadAccounts json file).map fun accounts name => accounts.lookup name

/-- The account under a name is the one of the list, where names are distinct. -/
theorem lookup_foldl_insert (list : List Account) (accounts : AccountMap) (name : String)
    (hnodup : (list.map Account.username).Nodup) :
    (list.foldl (fun accounts a => accounts.insert a.username a) accounts).lookup name = some a ↔
      (a ∈ list ∧ a.username = name) ∨
        (∀ b ∈ list, b.username ≠ name) ∧ accounts.lookup name = some a := by
  induction list generalizing accounts with
  | nil => simp
  | cons b list ih =>
    rw [map_cons, nodup_cons] at hnodup
    have hfresh : ∀ c ∈ list, c.username ≠ b.username := by
      intro c hc heq
      exact hnodup.1 (heq ▸ mem_map_of_mem hc)
    rw [foldl_cons, ih _ hnodup.2]
    by_cases hname : name = b.username
    · subst hname
      rw [AList.lookup_insert]
      constructor
      · rintro (⟨ha, heq⟩ | ⟨-, heq⟩)
        · exact absurd heq (hfresh a ha)
        · obtain rfl := some.inj heq
          exact .inl ⟨mem_cons_self, rfl⟩
      · rintro (⟨ha, heq⟩ | ⟨hno, -⟩)
        · rcases mem_cons.mp ha with rfl | ha
          · exact .inr ⟨hfresh, rfl⟩
          · exact absurd heq (hfresh a ha)
        · exact absurd rfl (hno b mem_cons_self)
    · rw [AList.lookup_insert_ne hname]
      constructor
      · rintro (⟨ha, heq⟩ | ⟨hno, heq⟩)
        · exact .inl ⟨mem_cons_of_mem b ha, heq⟩
        · refine .inr ⟨?_, heq⟩
          intro c hc
          rcases mem_cons.mp hc with rfl | hc
          · exact Ne.symm hname
          · exact hno c hc
      · rintro (⟨ha, heq⟩ | ⟨hno, heq⟩)
        · rcases mem_cons.mp ha with rfl | ha
          · exact absurd heq.symm hname
          · exact .inl ⟨ha, heq⟩
        · exact .inr ⟨fun c hc => hno c (mem_cons_of_mem b hc), heq⟩

/-- The accounts in some order in which `range` visits them. -/
def AuthManager.values (m : AuthManager) : List Account := m.accounts.entries.map Sigma.snd

variable {m : AuthManager}

theorem AuthManager.Keyed.mem_values (h : m.Keyed) : a ∈ m.values ↔ m.set a.username = some a := by
  constructor
  · intro ha
    obtain ⟨⟨name, b⟩, hb, rfl⟩ := mem_map.mp ha
    have hset : m.set name = some b := AList.mem_lookup_iff.mpr hb
    rw [h name b hset]
    exact hset
  · intro ha
    exact mem_map.mpr ⟨⟨a.username, a⟩, AList.mem_lookup_iff.mp ha, rfl⟩

theorem AuthManager.Keyed.nodup_values (h : m.Keyed) : (m.values.map Account.username).Nodup := by
  have hkeys : m.values.map Account.username = m.accounts.keys := by
    rw [AuthManager.values, List.map_map, AList.keys, List.keys]
    refine map_congr_left ?_
    rintro ⟨name, a⟩ ha
    exact h name a (AList.mem_lookup_iff.mpr ha)
  rw [hkeys]
  exact m.accounts.keys_nodup

theorem loadedSet_marshal (json : AccountsJson) (h : m.Keyed)
    {list : List Account} (hperm : list.Perm m.values) {data : Bytes}
    (hdata : json.marshal list = some data) : loadedSet json (some data) = some m.set := by
  have hnodup : (list.map Account.username).Nodup :=
    (hperm.map Account.username).nodup_iff.mpr h.nodup_values
  simp only [loadedSet, loadAccounts, json.lossless list data hdata, map_some]
  congr 1
  funext name
  refine Option.ext fun a => ?_
  rw [accountsOf, lookup_foldl_insert list ∅ name hnodup, hperm.mem_iff,
    h.mem_values]
  constructor
  · rintro (⟨ha, rfl⟩ | ⟨-, hnone⟩)
    · exact ha
    · cases hnone
  · intro ha
    obtain rfl := h name a ha
    exact .inl ⟨ha, rfl⟩

/-! ## Saving -/

/-- An operation comes to `saveLocked`. -/
def AuthManager.saves (bc : Bcrypt) (m : AuthManager) (now : Time) : AuthOp → Bool
  | .login username password token => (m.login bc username password token now).isOk
  | .createAccount username password role display =>
    (m.createAccount bc username password role display now).isOk
  | .updateAccount username role disabled password =>
    (m.updateAccount bc username role disabled password).2.isNone
  | .deleteAccount username => (m.deleteAccount username).isOk
  | .changePassword username oldPwd newPwd => (m.changePassword bc username oldPwd newPwd).isOk
  | .setSSHPublicKeys username keys => (m.setSSHPublicKeys username keys).isOk
  | .logout _ | .gcSessions | .advance _ => false

/-- What runs with the lock: a call, or `createDefaultAdmin` before there are any. -/
inductive SaveOp where
  | call (op : AuthOp) (now : Time)
  | createDefaultAdmin (now : Time)

def SaveOp.reports : SaveOp → Bool
  | .call (.createAccount ..) _ | .call (.updateAccount ..) _ | .call (.deleteAccount _) _
  | .call (.changePassword ..) _ | .call (.setSSHPublicKeys ..) _ => true
  | _ => false

def SaveOp.perform (bc : Bcrypt) (m : AuthManager) : SaveOp → AuthManager × Bool
  | .call op now => (m.perform bc now op, m.saves bc now op)
  | .createDefaultAdmin now =>
    match bc.generate "admin123" with
    | none => (m, false)
    | some hash => (m.putAccount "admin" (defaultAdmin hash now), true)

/-- Where a goroutine is: `writing` is in `WriteFile` with the rest of its data, and
`returning` before the deferred `Unlock`. -/
inductive SavePhase where
  | idle
  | holding (op : SaveOp)
  | saving (op : SaveOp)
  | writing (op : SaveOp) (rest : Bytes)
  | renaming (op : SaveOp)
  | returning (op : SaveOp) (saved : Bool)

/-- The process, if it runs, and the disk. `since` has the accounts that were in memory at
the moments since the last operation ended that returned success. -/
structure SavedAuth where
  manager : Option AuthManager := none
  holder : Option Nat := none
  phase : Nat → SavePhase := fun _ => .idle
  file : Option Bytes
  tmp : Option Bytes := none
  since : List AccountSet

inductive SaveEvent where
  | boot (now : Time)
  | lock (n : Nat) (op : AuthOp) (now : Time)
  | perform (n : Nat)
  | marshal (n : Nat) (list : List Account)
  | write (n k : Nat)
  | written (n : Nat)
  | rename (n : Nat)
  | fail (n : Nat)
  | ret (n : Nat)
  | crash

namespace SavedAuth

def goto (s : SavedAuth) (n : Nat) (p : SavePhase) : SavedAuth :=
  { s with phase := Function.update s.phase n p }

def die (s : SavedAuth) : SavedAuth :=
  { s with manager := none, holder := none, phase := fun _ => .idle }

/-- `NewManager`. Until `createDefaultAdmin` is done there is no other goroutine, as if it
held the lock. -/
def boot (json : AccountsJson) (s : SavedAuth) (now : Time) : SavedAuth :=
  match loadAccounts json s.file with
  | none => s
  | some accounts =>
    let m : AuthManager := { accounts := accounts, sessions := fun _ => none }
    let s := { s with manager := some m, since := s.since ++ [m.set] }
    if s.file.isSome then s
    else { s.goto 0 (.holding (.createDefaultAdmin now)) with holder := some 0 }

/-- The end of an operation, with the release of the lock. An error of
`createDefaultAdmin` ends the process. -/
def ret (s : SavedAuth) (m : AuthManager) (n : Nat) (saved : Bool) : SaveOp → SavedAuth
  | .createDefaultAdmin _ =>
    if saved then { s.goto n .idle with holder := none } else s.die
  | .call op now =>
    { s.goto n .idle with
      holder := none
      since := if saved && (SaveOp.call op now).reports then [m.set] else s.since }

def step (json : AccountsJson) (bc : Bcrypt) (s : SavedAuth) : SaveEvent → SavedAuth
  | .boot now => if s.manager.isSome then s else s.boot json now
  | .lock n op now =>
    if s.manager.isSome = true ∧ s.holder = none then
      { s.goto n (.holding (.call op now)) with holder := some n }
    else s
  | .perform n =>
    match s.manager, s.phase n with
    | some m, .holding op =>
      let (m', saves) := op.perform bc m
      { s.goto n (if saves then .saving op else .returning op false) with
        manager := some m'
        since := s.since ++ [m'.set] }
    | _, _ => s
  | .marshal n list =>
    match s.manager, s.phase n with
    | some m, .saving op =>
      if list.Perm m.values then
        match json.marshal list with
        | none => s.goto n (.returning op false)
        | some data => { s.goto n (.writing op data) with tmp := some [] }
      else s
    | _, _ => s
  | .write n k =>
    match s.phase n with
    | .writing op rest =>
      { s.goto n (.writing op (rest.drop k)) with tmp := s.tmp.map (· ++ rest.take k) }
    | _ => s
  | .written n =>
    match s.phase n with
    | .writing op [] => s.goto n (.renaming op)
    | _ => s
  | .rename n =>
    match s.phase n with
    | .renaming op => { s.goto n (.returning op true) with file := s.tmp, tmp := none }
    | _ => s
  | .fail n =>
    match s.phase n with
    | .saving op | .writing op _ | .renaming op => s.goto n (.returning op false)
    | _ => s
  | .ret n =>
    match s.manager, s.phase n with
    | some m, .returning op saved => s.ret m n saved op
    | _, _ => s
  | .crash => s.die

def start (file : Option Bytes) (accounts : AccountMap) : SavedAuth where
  file := file
  since := [fun name => accounts.lookup name]

/-! ## What is to hold -/

/-- A restart would load the accounts of a moment since the last acknowledged operation. -/
def Acknowledged (json : AccountsJson) (s : SavedAuth) : Prop :=
  ∃ set ∈ s.since, loadedSet json s.file = some set

/-! ## The invariant -/

/-- What is on the disk for a goroutine that saves the accounts of `m`. -/
def Follows (json : AccountsJson) (s : SavedAuth) (m : AuthManager) : SavePhase → Prop
  | .writing _ rest => ∃ data, s.tmp = some data ∧ loadedSet json (some (data ++ rest)) = some m.set
  | .renaming _ => ∃ data, s.tmp = some data ∧ loadedSet json (some data) = some m.set
  | .returning _ true => loadedSet json s.file = some m.set
  | _ => True

structure Consistent (json : AccountsJson) (s : SavedAuth) : Prop where
  held : ∀ n, s.phase n ≠ .idle → s.holder = some n ∧ s.manager.isSome = true
  keyed : ∀ m, s.manager = some m → m.Keyed
  current : ∀ m, s.manager = some m → m.set ∈ s.since
  follows : ∀ m n, s.manager = some m → Follows json s m (s.phase n)
  stored : Acknowledged json s

variable {json : AccountsJson} {bc : Bcrypt} {s : SavedAuth}

theorem Acknowledged.grow (h : Acknowledged json s) {s' : SavedAuth} {more : List AccountSet}
    (hfile : s'.file = s.file) (hsince : s'.since = s.since ++ more) : Acknowledged json s' := by
  obtain ⟨set, hset, hload⟩ := h
  rw [Acknowledged, hfile, hsince]
  exact ⟨set, mem_append_left more hset, hload⟩

theorem Consistent.idle_of_ne (h : Consistent json s) {n k : Nat} (hn : s.phase n ≠ .idle)
    (hk : k ≠ n) : s.phase k = .idle := by
  by_contra hidle
  have hholder := (h.held k hidle).1.symm.trans (h.held n hn).1
  exact hk (some.inj hholder)

/-- A goroutine that holds the lock moves on. -/
theorem Consistent.move (h : Consistent json s) {n : Nat} {p : SavePhase} {s' : SavedAuth}
    (hn : s.phase n ≠ .idle) (hphase : s'.phase = Function.update s.phase n p)
    (hholder : s'.holder = s.holder) (hmanager : s'.manager = some m) (hkeyed : m.Keyed)
    (hcurrent : m.set ∈ s'.since) (hfollows : Follows json s' m p)
    (hstored : Acknowledged json s') : Consistent json s' := by
  have honly : ∀ m', s'.manager = some m' → m' = m :=
    fun m' hm' => some.inj (hm'.symm.trans hmanager)
  constructor
  · intro k hk
    rw [hphase] at hk
    rw [hholder, hmanager]
    refine ⟨?_, rfl⟩
    by_cases hkn : k = n
    · rw [hkn]
      exact (h.held n hn).1
    · rw [update_of_ne hkn] at hk
      exact (h.held k hk).1
  · intro m' hm'
    rw [honly m' hm']
    exact hkeyed
  · intro m' hm'
    rw [honly m' hm']
    exact hcurrent
  · intro m' k hm'
    rw [honly m' hm', hphase]
    by_cases hkn : k = n
    · rwa [hkn, update_self]
    · rw [update_of_ne hkn, h.idle_of_ne hn hkn]
      trivial
  · exact hstored

theorem consistent_idle (hidle : ∀ n, s.phase n = .idle)
    (hkeyed : ∀ m, s.manager = some m → m.Keyed)
    (hcurrent : ∀ m, s.manager = some m → m.set ∈ s.since) (hstored : Acknowledged json s) :
    Consistent json s := by
  refine ⟨fun n hn => absurd (hidle n) hn, hkeyed, hcurrent, ?_, hstored⟩
  intro m n _
  rw [hidle n]
  trivial

theorem Consistent.die (h : Consistent json s) : Consistent json s.die := by
  refine consistent_idle (fun _ => rfl) ?_ ?_ h.stored
  · intro m hm
    cases hm
  · intro m hm
    cases hm

theorem Consistent.take (h : Consistent json s) (hup : s.manager.isSome = true)
    (hidle : ∀ k, s.phase k = .idle) (n : Nat) (op : SaveOp) :
    Consistent json { s.goto n (.holding op) with holder := some n } := by
  have hother : ∀ k, k ≠ n → Function.update s.phase n (.holding op) k = .idle := by
    intro k hk
    rw [update_of_ne hk, hidle k]
  refine ⟨?_, h.keyed, h.current, ?_, h.stored⟩
  · intro k hk
    by_cases hkn : k = n
    · exact ⟨congrArg some hkn.symm, hup⟩
    · exact absurd (hother k hkn) hk
  · intro m k _
    by_cases hkn : k = n
    · rw [hkn]
      change Follows json _ m (Function.update s.phase n (.holding op) n)
      rw [update_self]
      trivial
    · change Follows json _ m (Function.update s.phase n (.holding op) k)
      rw [hother k hkn]
      trivial

theorem accountsOf_keyed (list : List Account) (sessions : String → Option AuthSession) :
    AuthManager.Keyed { accounts := accountsOf list, sessions := sessions } := by
  have hfold : ∀ (accounts : AccountMap),
      AuthManager.Keyed { accounts := accounts, sessions := sessions } →
      AuthManager.Keyed {
        accounts := list.foldl (fun accounts a => accounts.insert a.username a) accounts
        sessions := sessions } := by
    induction list with
    | nil => exact fun _ h => h
    | cons a list ih => exact fun _ h => ih _ (h.putAccount rfl)
  refine hfold ∅ ?_
  intro name a ha
  cases ha

theorem loadAccounts_keyed {file : Option Bytes} {accounts : AccountMap}
    (h : loadAccounts json file = some accounts) (sessions : String → Option AuthSession) :
    AuthManager.Keyed { accounts := accounts, sessions := sessions } := by
  cases file with
  | none =>
    obtain rfl := some.inj h
    exact accountsOf_keyed [] sessions
  | some data =>
    obtain ⟨list, -, rfl⟩ := map_eq_some_iff.mp h
    exact accountsOf_keyed list sessions

/-- A restart loads accounts that were in memory. -/
theorem Consistent.boot (h : Consistent json s) (hdown : s.manager.isSome = false) (now : Time) :
    Consistent json (s.boot json now) := by
  have hidle : ∀ n, s.phase n = .idle := by
    intro n
    by_contra hn
    exact absurd (hdown.symm.trans (h.held n hn).2) (by simp)
  unfold SavedAuth.boot
  split
  · exact h
  · rename_i accounts hload
    have hup : Consistent json { s with
        manager := some { accounts := accounts, sessions := fun _ => none }
        since := s.since ++ [fun name => accounts.lookup name] } := by
      refine consistent_idle hidle ?_ ?_ (h.stored.grow rfl rfl)
      · intro m hm
        obtain rfl := some.inj hm
        exact loadAccounts_keyed hload _
      · intro m hm
        obtain rfl := some.inj hm
        exact mem_append_right _ mem_cons_self
    simp only
    split
    · exact hup
    · exact hup.take rfl hidle 0 _

theorem SaveOp.perform_keyed (h : m.Keyed) (bc : Bcrypt) (op : SaveOp) :
    (op.perform bc m).1.Keyed := by
  cases op with
  | call op now => exact AuthManager.perform_keyed h bc now op
  | createDefaultAdmin now =>
    simp only [SaveOp.perform]
    split
    · exact h
    · exact h.putAccount rfl

theorem follows_unsaved (m : AuthManager) (op : SaveOp) (saves : Bool) :
    Follows json s m (if saves then .saving op else .returning op false) := by
  cases saves <;> trivial

/-- A return with success makes the saved accounts the oldest that a restart may load. -/
theorem Consistent.ret (h : Consistent json s) (hm : s.manager = some m)
    {n : Nat} {op : SaveOp} {saved : Bool} (hn : s.phase n = .returning op saved) :
    Consistent json (s.ret m n saved op) := by
  have hactive : s.phase n ≠ .idle := by simp [hn]
  have hidle : ∀ k, Function.update s.phase n .idle k = .idle := by
    intro k
    by_cases hkn : k = n
    · rw [hkn, update_self]
    · rw [update_of_ne hkn, h.idle_of_ne hactive hkn]
  cases op with
  | createDefaultAdmin now =>
    simp only [SavedAuth.ret]
    split
    · exact consistent_idle hidle h.keyed h.current h.stored
    · exact h.die
  | call op now =>
    have hfollows := h.follows m n hm
    rw [hn] at hfollows
    simp only [SavedAuth.ret]
    by_cases hack : (saved && (SaveOp.call op now).reports) = true
    · -- the operation is acknowledged: the file has the accounts of this moment
      have hsaved : saved = true := (Bool.and_eq_true_iff.mp hack).1
      rw [if_pos hack]
      refine consistent_idle hidle h.keyed ?_ ⟨m.set, mem_cons_self, ?_⟩
      · intro m' hm'
        rw [some.inj (hm'.symm.trans hm)]
        exact mem_cons_self
      · subst hsaved
        exact hfollows
    · rw [if_neg hack]
      exact consistent_idle hidle h.keyed h.current h.stored

/-- One step keeps memory, the temporary file and the accounts file consistent. -/
theorem consistent_step (h : Consistent json s) (e : SaveEvent) :
    Consistent json (s.step json bc e) := by
  -- the manager of the goroutine that is under way
  have hmanager : ∀ {n p}, s.phase n = p → p ≠ .idle → ∃ m, s.manager = some m := by
    intro n p hn hp
    exact isSome_iff_exists.mp (h.held n (hn ▸ hp)).2
  cases e with
  | boot now =>
    simp only [step]
    split
    · exact h
    · exact h.boot (by simpa using ‹¬ s.manager.isSome = true›) now
  | lock n op now =>
    simp only [step]
    split_ifs with hguard
    · refine h.take hguard.1 ?_ n _
      intro k
      by_contra hk
      exact absurd ((h.held k hk).1.symm.trans hguard.2) (by simp)
    · exact h
  | perform n =>
    simp only [step]
    split
    · rename_i m op hm hn
      exact h.move (by simp [hn]) rfl rfl rfl (SaveOp.perform_keyed (h.keyed m hm) bc op)
        (mem_append_right _ mem_cons_self) (follows_unsaved _ op _)
        (h.stored.grow rfl rfl)
    · exact h
  | marshal n list =>
    simp only [step]
    split
    · rename_i m op hm hn
      split_ifs with hperm
      · split
        · exact h.move (by simp [hn]) rfl rfl hm (h.keyed m hm) (h.current m hm) trivial h.stored
        · rename_i data hdata
          refine h.move (by simp [hn]) rfl rfl hm (h.keyed m hm) (h.current m hm) ?_ h.stored
          exact ⟨[], rfl, loadedSet_marshal json (h.keyed m hm) hperm hdata⟩
      · exact h
    · exact h
  | write n k =>
    simp only [step]
    split
    · rename_i op rest hn
      obtain ⟨m, hm⟩ := hmanager hn (by simp)
      have hfollows := h.follows m n hm
      rw [hn] at hfollows
      obtain ⟨data, htmp, hload⟩ := hfollows
      refine h.move (by simp [hn]) rfl rfl hm (h.keyed m hm) (h.current m hm) ?_ h.stored
      refine ⟨data ++ rest.take k, ?_, ?_⟩
      · simp [htmp]
      · rwa [append_assoc, take_append_drop]
    · exact h
  | written n =>
    simp only [step]
    split
    · rename_i op hn
      obtain ⟨m, hm⟩ := hmanager hn (by simp)
      have hfollows := h.follows m n hm
      rw [hn] at hfollows
      obtain ⟨data, htmp, hload⟩ := hfollows
      refine h.move (by simp [hn]) rfl rfl hm (h.keyed m hm) (h.current m hm) ?_ h.stored
      exact ⟨data, htmp, by rwa [append_nil] at hload⟩
    · exact h
  | rename n =>
    simp only [step]
    split
    · rename_i op hn
      obtain ⟨m, hm⟩ := hmanager hn (by simp)
      have hfollows := h.follows m n hm
      rw [hn] at hfollows
      obtain ⟨data, htmp, hload⟩ := hfollows
      have hfile : loadedSet json s.tmp = some m.set := by rwa [htmp]
      exact h.move (by simp [hn]) rfl rfl hm (h.keyed m hm) (h.current m hm) hfile
        ⟨m.set, h.current m hm, hfile⟩
    · exact h
  | fail n =>
    have hfail : ∀ {p op}, s.phase n = p → p ≠ .idle →
        Consistent json (s.goto n (.returning op false)) := by
      intro p op hn hp
      obtain ⟨m, hm⟩ := hmanager hn hp
      exact h.move (hn ▸ hp) rfl rfl hm (h.keyed m hm) (h.current m hm) trivial h.stored
    simp only [step]
    split
    · exact hfail ‹_› (by simp)
    · exact hfail ‹_› (by simp)
    · exact hfail ‹_› (by simp)
    · exact h
  | ret n =>
    simp only [step]
    split
    · exact h.ret ‹_› ‹_›
    · exact h
  | crash => exact h.die

/-! ## Every run -/

theorem consistent_start {file : Option Bytes} {accounts : AccountMap}
    (h : loadAccounts json file = some accounts) : Consistent json (start file accounts) := by
  refine consistent_idle (fun _ => rfl) ?_ ?_ ⟨_, mem_cons_self, ?_⟩
  · intro m hm
    cases hm
  · intro m hm
    cases hm
  · change loadedSet json file = _
    rw [loadedSet, h]
    rfl

/-- At every moment of every run, the accounts that a restart would load are those of memory at
some moment since the end of the last operation that returned success. -/
theorem restart_loads_acknowledged (json : AccountsJson) (bc : Bcrypt) (file : Option Bytes)
    (accounts : AccountMap) (h : loadAccounts json file = some accounts) (es : List SaveEvent) :
    Throughout (step json bc) (Acknowledged json) (start file accounts) es := by
  have hstep : ∀ (s : SavedAuth) (e : SaveEvent), Consistent json s → True →
      Consistent json (s.step json bc e) := fun s e hs _ => consistent_step hs e
  have hrun : Throughout (step json bc) (Consistent json) (start file accounts) es :=
    throughout_of_invariant hstep (consistent_start h) (along_of_forall fun _ _ _ => trivial)
  exact hrun.mono fun s hs => hs.stored

/-! ## A run -/

def oneHash : Bcrypt where
  generate := fun _ => some "hash"
  compare := fun _ _ => true

def firstAccounts : List Account := [defaultAdmin "hash" 0]

def withAlice : List Account :=
  { username := "alice"
    password := "hash"
    role := .viewer
    createdAt := 1
    mustChange := true } :: firstAccounts

/-- A record of `json.MarshalIndent`, of an account that has to change its password. -/
def recordText (username role display createdAt : String) : Bytes :=
  lit "  \x7b\n    \"username\": \"" ++ lit username ++
    lit "\",\n    \"password\": \"hash\",\n    \"role\": \"" ++ lit role ++ lit display ++
    lit "\",\n    \"must_change\": true,\n    \"disabled\": false,\n    \"created_at\": \"" ++
    lit createdAt ++ lit "\",\n    \"last_login\": \"0001-01-01T00:00:00Z\"\n  \x7d"

def adminText : Bytes :=
  recordText "admin" "admin" "\",\n    \"display_name\": \"Administrator" "1970-01-01T00:00:00Z"

def firstText : Bytes := lit "[\n" ++ adminText ++ lit "\n]"

def withAliceText : Bytes :=
  lit "[\n" ++ recordText "alice" "viewer" "" "1970-01-01T00:00:00.000000001Z" ++ lit ",\n" ++
    adminText ++ lit "\n]"

def twoLists : AccountsJson where
  marshal := fun list =>
    if list = firstAccounts then some firstText
    else if list = withAlice then some withAliceText else none
  unmarshal := fun data =>
    if data = firstText then some firstAccounts
    else if data = withAliceText then some withAlice else none
  lossless := by
    intro list data h
    split_ifs at h with hfirst hsecond
    · cases h
      rw [hfirst, if_pos rfl]
    · cases h
      rw [hsecond, if_neg (by decide +kernel), if_pos rfl]

/-- A first start, an account that is created, a crash halfway through the save of its
deletion, and a restart. -/
theorem restart_loads_created :
    let es : List SaveEvent := [.boot 0, .perform 0, .marshal 0 firstAccounts, .write 0 1000,
      .written 0, .rename 0, .ret 0, .lock 7 (.createAccount "alice" "secret" .viewer "") 1,
      .perform 7, .marshal 7 withAlice, .write 7 100, .write 7 1000, .written 7, .rename 7, .ret 7,
      .lock 8 (.deleteAccount "alice") 2, .perform 8, .marshal 8 firstAccounts, .write 8 2, .crash,
      .boot 3]
    (exec (step twoLists oneHash) (start none ∅) es).file = some withAliceText ∧
      (exec (step twoLists oneHash) (start none ∅) es).tmp = some (lit "[\n") ∧
      Throughout (step twoLists oneHash) (Acknowledged twoLists) (start none ∅) es := by
  intro es
  exact ⟨by decide +kernel, by decide +kernel,
    restart_loads_acknowledged twoLists oneHash none ∅ rfl es⟩

end SavedAuth

end CtForge.Server
