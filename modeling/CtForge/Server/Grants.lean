import CtForge.Server.Accounts

/-!
# Grants: visible hosts and revocation (`perms.go`)

`Check` answers for one host, `AllowedAgents` lists the hosts a user may see. Both go
through the groups of a host, in loops of their own.

A grant is narrowed when permissions, machines or time are taken from it
(`Grant.Narrows`). `check` only ever loses by that (`check_of_narrows`), but `hasPerm`
asks the role where the grant has no permissions, and a viewer is allowed every point
that the table of levels does not have.

`DeleteGroup` also strikes the group from the scope of every grant.
-/

namespace CtForge.Server

/-! ## Visible hosts -/

open List Function

namespace PermManager

/-- The inner loops of `AllowedAgents` for the host `ag`: it is marked for each of its
groups that the scope names. -/
def markAgent (m : PermManager) (gr : Grant) (allowed : Id → Bool) (ag : Id) : Id → Bool :=
  (m.groupsOfAgent ag).foldl (fun allowed g =>
    gr.scope.groups.foldl (fun allowed sg =>
      if g = sg then Function.update allowed ag true else allowed) allowed) allowed

/-- `AllowedAgents`: the hosts that the user may see, where `none` is all of them. -/
def allowedAgents (m : PermManager) (username : String) (allAgents : List Id) (now : Time) :
    Option (Id → Bool) :=
  match m.grants username with
  | none => some fun _ => false
  | some gr =>
    if gr.valid now = false then some fun _ => false
    else if gr.scope.all then none
    else
      let allowed := gr.scope.agents.foldl (fun allowed a => Function.update allowed a true)
        fun _ => false
      some (allAgents.foldl (m.markAgent gr) allowed)

/-- `UpsertGrant`; the times of the grant's own history are left out. -/
def upsertGrant (m : PermManager) (g : Grant) : PermManager :=
  { m with grants := Function.update m.grants g.username (some g) }

end PermManager

theorem foldl_marks {ι : Type} {f : (Id → Bool) → ι → Id → Bool} (marks : ι → Id → Prop)
    (hf : ∀ allowed i a, f allowed i a = true ↔ allowed a = true ∨ marks i a)
    (is : List ι) (allowed : Id → Bool) (a : Id) :
    is.foldl f allowed a = true ↔ allowed a = true ∨ ∃ i ∈ is, marks i a := by
  induction is generalizing allowed with
  | nil => simp
  | cons i is ih =>
    rw [foldl_cons, ih, hf, or_assoc]
    simp

theorem update_marks (allowed : Id → Bool) (agent a : Id) :
    Function.update allowed agent true a = true ↔ allowed a = true ∨ a = agent := by
  by_cases h : a = agent
  · subst h
    simp
  · rw [update_of_ne h]
    simp [h]

namespace PermManager

variable {m : PermManager} {gr : Grant}

theorem scopeGroups_marks (ag : Id) (allowed : Id → Bool) (g : String) (a : Id) :
    gr.scope.groups.foldl (fun allowed sg =>
      if g = sg then Function.update allowed ag true else allowed) allowed a = true ↔
    allowed a = true ∨ (g ∈ gr.scope.groups ∧ a = ag) := by
  rw [foldl_marks fun sg a => g = sg ∧ a = ag]
  · simp
  · intro allowed sg a
    by_cases h : g = sg
    · rw [if_pos h, update_marks]
      simp [h]
    · rw [if_neg h]
      simp [h]

theorem markAgent_marks (allowed : Id → Bool) (ag a : Id) :
    m.markAgent gr allowed ag a = true ↔
      allowed a = true ∨ ∃ g ∈ m.groupsOfAgent ag, g ∈ gr.scope.groups ∧ a = ag :=
  foldl_marks _ (scopeGroups_marks ag) _ _ _

theorem allowed_iff_inScope {allAgents : List Id} {a : Id} (ha : a ∈ allAgents)
    (hall : gr.scope.all = false) :
    allAgents.foldl (m.markAgent gr)
        (gr.scope.agents.foldl (fun allowed a => Function.update allowed a true)
          fun _ => false) a = true ↔
      m.inScope gr a = true := by
  rw [foldl_marks _ markAgent_marks, foldl_marks (fun i a => a = i) update_marks]
  have hgroups : (∃ i ∈ allAgents, ∃ g ∈ m.groupsOfAgent i, g ∈ gr.scope.groups ∧ a = i) ↔
      ∃ g ∈ m.groupsOfAgent a, g ∈ gr.scope.groups := by
    constructor
    · rintro ⟨i, -, g, hg, hscope, rfl⟩
      exact ⟨g, hg, hscope⟩
    · rintro ⟨g, hg, hscope⟩
      exact ⟨a, ha, g, hg, hscope, rfl⟩
  rw [hgroups]
  simp [inScope, Grant.canAccess, hall]

/-- The two agree, for every valid grant that has the permission. -/
theorem check_iff_allowedAgents (m : PermManager) (username : String) (gr : Grant) (p : Perm)
    (allAgents : List Id) (a : Id) (now : Time) (hgrant : m.grants username = some gr)
    (hvalid : gr.valid now = true) (hhas : gr.has p = true) (ha : a ∈ allAgents) (hne : a ≠ "") :
    m.check username p a now = true ↔
      m.allowedAgents username allAgents now = none ∨
      ∃ allowed, m.allowedAgents username allAgents now = some allowed ∧ allowed a = true := by
  have hcheck : m.check username p a now = m.inScope gr a := by
    simp [check, hgrant, hvalid, hhas, hne]
  rw [hcheck]
  cases hall : gr.scope.all with
  | true => simp [allowedAgents, hgrant, hvalid, hall, inScope, Grant.canAccess]
  | false =>
    have hallowed : m.allowedAgents username allAgents now = some (allAgents.foldl (m.markAgent gr)
        (gr.scope.agents.foldl (fun allowed a => Function.update allowed a true)
          fun _ => false)) := by
      simp [allowedAgents, hgrant, hvalid, hall]
    rw [hallowed, ← allowed_iff_inScope ha hall]
    simp

end PermManager

/-- Two groups of hosts, and a user who may see the logs of one group and of one host
beside it, until a time. -/
def twoGroups : PermManager where
  groups := ⟨[⟨"db", "db", ["h1", "h2"]⟩, ⟨"web", "web", ["h2", "h3"]⟩],
    (by decide : List.Nodup ["db", "web"])⟩
  grants := fun username =>
    if username = "u" then
      some ⟨"u", [.agentLogs], ⟨false, ["db"], ["h4"]⟩, 10⟩
    else none

theorem twoGroups_visible :
    twoGroups.check "u" .agentLogs "h2" 0 = true ∧
    (twoGroups.allowedAgents "u" ["h1", "h2", "h3"] 0 = none ∨
      ∃ allowed, twoGroups.allowedAgents "u" ["h1", "h2", "h3"] 0 = some allowed ∧
        allowed "h2" = true) := by
  have hcheck : twoGroups.check "u" .agentLogs "h2" 0 = true := by decide
  exact ⟨hcheck, (PermManager.check_iff_allowedAgents twoGroups "u" _ .agentLogs ["h1", "h2", "h3"]
    "h2" 0 rfl (by decide) (by decide) (by decide) (by decide)).mp hcheck⟩

/-! ## Revocation -/

/-- `s'` is no larger a scope than `s`. -/
def MachineScope.Narrows (s' s : MachineScope) : Prop :=
  s.all = true ∨ (s'.all = false ∧ s'.groups ⊆ s.groups ∧ s'.agents ⊆ s.agents)

/-- `g'` is `g` with permissions or machines taken from it or an earlier expiry; 0 is no
expiry, later than every other. -/
structure Grant.Narrows (g' g : Grant) : Prop where
  permissions : g'.permissions ⊆ g.permissions
  scope : g'.scope.Narrows g.scope
  expiry : g.expiresAt = 0 ∨ (g'.expiresAt ≠ 0 ∧ g'.expiresAt ≤ g.expiresAt)

namespace Grant.Narrows

variable {g' g : Grant}

theorem valid (h : g'.Narrows g) {now : Time} (hvalid : g'.valid now = true) :
    g.valid now = true := by
  simp only [Grant.valid, Bool.or_eq_true, beq_iff_eq, decide_eq_true_eq] at hvalid ⊢
  rcases h.expiry with h0 | ⟨hne, hle⟩
  · exact .inl h0
  · rcases hvalid with h0 | hlt
    · exact absurd h0 hne
    · exact .inr (Int.lt_of_lt_of_le hlt hle)

theorem has (h : g'.Narrows g) {p : Perm} (hhas : g'.has p = true) : g.has p = true := by
  rw [Grant.has, List.any_eq_true] at hhas ⊢
  obtain ⟨q, hq, hp⟩ := hhas
  exact ⟨q, h.permissions hq, hp⟩

/-- A narrowed grant reaches no more machines. -/
theorem canAccess (h : g'.Narrows g) {a : Id} {groups : List String}
    (hacc : g'.canAccess a groups = true) : g.canAccess a groups = true := by
  simp only [Grant.canAccess, Bool.or_eq_true, contains_iff_mem, List.any_eq_true] at hacc ⊢
  rcases h.scope with hall | ⟨hall, hgroups, hagents⟩
  · exact .inl (.inl hall)
  · rcases hacc with (hall' | ha) | ⟨ag, hag, hin⟩
    · rw [hall] at hall'
      cases hall'
    · exact .inl (.inr (hagents ha))
    · exact .inr ⟨ag, hag, hgroups hin⟩

end Grant.Narrows

section Revocation

variable {pm : PermManager} {auth : AuthManager} {g g' : Grant} {p : Perm} {a : Id} {now : Time}

theorem upsertGrant_grants_self : (pm.upsertGrant g').grants g'.username = some g' :=
  update_self _ _ _

theorem check_of_narrows (hg : pm.grants g'.username = some g) (hnarrow : g'.Narrows g)
    (hcheck : (pm.upsertGrant g').check g'.username p a now = true) :
    pm.check g'.username p a now = true := by
  simp only [PermManager.check, upsertGrant_grants_self, hg, PermManager.inScope,
    Bool.and_eq_true, Bool.or_eq_true] at hcheck ⊢
  obtain ⟨⟨hvalid, hhas⟩, hscope⟩ := hcheck
  exact ⟨⟨hnarrow.valid hvalid, hnarrow.has hhas⟩, hscope.imp id hnarrow.canAccess⟩

/-- The user has no grant, or one without permissions: `hasPerm` asks the role. -/
def PermManager.FallsBack (pm : PermManager) (username : String) : Prop :=
  ∀ g, pm.grants username = some g → g.permissions = []

def AuthManager.roleAllows (auth : AuthManager) (username : String) (p : Perm) : Bool :=
  (auth.roleOf username).any (Role.allows p)

theorem hasPerm_fallsBack {username : String} (h : pm.FallsBack username) :
    hasPerm (some pm) auth username p a now = auth.roleAllows username p := by
  simp only [hasPerm]
  split
  · rfl
  · rename_i g hg
    rw [if_pos (h g hg), AuthManager.roleAllows]

theorem hasPerm_grant {username : String} (hg : pm.grants username = some g)
    (hne : g.permissions ≠ []) :
    hasPerm (some pm) auth username p a now = pm.check username p a now := by
  simp only [hasPerm, hg, if_neg hne]

/-- Narrowing a grant turns an answer from no to yes exactly when it takes the last
permission and the role allows what the grant refused. -/
theorem narrowing_grants_iff (hg : pm.grants g'.username = some g) (hnarrow : g'.Narrows g) :
    (hasPerm (some pm) auth g'.username p a now = false ∧
        hasPerm (some (pm.upsertGrant g')) auth g'.username p a now = true) ↔
      g.permissions ≠ [] ∧ g'.permissions = [] ∧
        auth.roleAllows g'.username p = true ∧ pm.check g'.username p a now = false := by
  by_cases hg' : g'.permissions = []
  · have hback : (pm.upsertGrant g').FallsBack g'.username := by
      intro k hk
      rw [upsertGrant_grants_self] at hk
      obtain rfl := Option.some.inj hk
      exact hg'
    rw [hasPerm_fallsBack hback]
    by_cases hgp : g.permissions = []
    · have hold : pm.FallsBack g'.username := by
        intro k hk
        rw [hg] at hk
        obtain rfl := Option.some.inj hk
        exact hgp
      rw [hasPerm_fallsBack hold]
      simp [hgp]
    · rw [hasPerm_grant hg hgp]
      simp [hg', hgp, and_comm]
  · have hgp : g.permissions ≠ [] := by
      intro hnil
      exact hg' (subset_nil.mp (hnil ▸ hnarrow.permissions))
    rw [hasPerm_grant hg hgp, hasPerm_grant upsertGrant_grants_self hg']
    constructor
    · rintro ⟨hno, hyes⟩
      rw [check_of_narrows hg hnarrow hyes] at hno
      cases hno
    · rintro ⟨-, hnil, -⟩
      exact absurd hnil hg'

theorem viewer_beyond_operator_iff :
    (Role.allows p .viewer = true ∧ Role.allows p .operator = false) ↔
      p = .accounts ∨ p = .notify ∨ p = .group := by
  constructor
  · rintro ⟨-, hop⟩
    simp only [Role.allows, Bool.and_eq_false_iff, bne_eq_false_iff_eq] at hop
    rcases hop with (h | h) | h
    · exact .inl h
    · exact .inr (.inl h)
    · exact .inr (.inr h)
  · rintro (rfl | rfl | rfl) <;> decide

end Revocation

/-- Narrowing a grant turns an answer from no to yes exactly when it takes the last permission
of a grant that refused what the role allows; and of two users without a grant, a viewer is
allowed more than an operator exactly at the three points that an operator is refused. -/
theorem revoking_grants_iff (pm : PermManager) (p : Perm) (a : Id) (now : Time) :
    (∀ (auth : AuthManager) (g g' : Grant), pm.grants g'.username = some g → g'.Narrows g →
      ((hasPerm (some pm) auth g'.username p a now = false ∧
          hasPerm (some (pm.upsertGrant g')) auth g'.username p a now = true) ↔
        g.permissions ≠ [] ∧ g'.permissions = [] ∧
          auth.roleAllows g'.username p = true ∧ pm.check g'.username p a now = false)) ∧
    (∀ (username : String) (viewer operator admin : AuthManager), pm.FallsBack username →
      viewer.roleOf username = some .viewer → operator.roleOf username = some .operator →
      admin.roleOf username = some .admin →
      ((hasPerm (some pm) viewer username p a now = true ∧
          hasPerm (some pm) operator username p a now = false) ↔
        p = .accounts ∨ p = .notify ∨ p = .group) ∧
      (hasPerm (some pm) operator username p a now = true →
        hasPerm (some pm) admin username p a now = true)) := by
  constructor
  · intro auth g g' hg hnarrow
    exact narrowing_grants_iff hg hnarrow
  · intro username viewer operator admin hback hv ho ha
    simp only [hasPerm_fallsBack hback, AuthManager.roleAllows, hv, ho, ha, Option.any_some]
    exact ⟨viewer_beyond_operator_iff, fun _ => rfl⟩

/-- One account, `u`, with a role. -/
def oneAccount (role : Role) : AuthManager where
  accounts := AList.singleton "u" ⟨"u", "", role, "", false, false, 0, zeroTime, []⟩
  sessions := fun _ => none

/-- `u` may read the logs of every host. -/
def readsLogs : Grant := ⟨"u", [.agentLogs], ⟨true, [], []⟩, 0⟩

/-- The grant of `u` after its only permission was taken. -/
def readsNothing : Grant := ⟨"u", [], ⟨true, [], []⟩, 0⟩

def oneGrant : PermManager := (⟨∅, fun _ => none⟩ : PermManager).upsertGrant readsLogs

theorem readsNothing_narrows : readsNothing.Narrows readsLogs :=
  ⟨nil_subset _, .inl rfl, .inl rfl⟩

theorem revoking_grants_iff_terminal_and_accounts :
    (hasPerm (some oneGrant) (oneAccount .operator) "u" .terminal "h1" 0 = false ∧
      hasPerm (some (oneGrant.upsertGrant readsNothing)) (oneAccount .operator) "u" .terminal
        "h1" 0 = true) ∧
    (hasPerm (some ⟨∅, fun _ => none⟩) (oneAccount .viewer) "u" .accounts "" 0 = true ∧
      hasPerm (some ⟨∅, fun _ => none⟩) (oneAccount .operator) "u" .accounts "" 0 = false) := by
  have hterminal := (revoking_grants_iff oneGrant .terminal "h1" 0).1 (oneAccount .operator)
    readsLogs readsNothing rfl readsNothing_narrows
  have haccounts := (revoking_grants_iff ⟨∅, fun _ => none⟩ .accounts "" 0).2 "u"
    (oneAccount .viewer) (oneAccount .operator) (oneAccount .admin) (fun _ h => by cases h)
    (by decide) (by decide) (by decide)
  exact ⟨hterminal.mpr (by decide), haccounts.1.mpr (.inl rfl)⟩

/-- An operator with one permission is refused a terminal, and gets it when that permission
is revoked; a viewer without a grant manages accounts, which an operator may not. -/
theorem revoking_grants_and_viewer_exceeds_operator :
    (∃ g g' : Grant, g'.Narrows g ∧ oneGrant.grants g'.username = some g ∧
      hasPerm (some oneGrant) (oneAccount .operator) "u" .terminal "h1" 0 = false ∧
      hasPerm (some (oneGrant.upsertGrant g')) (oneAccount .operator) "u" .terminal "h1" 0
        = true) ∧
    hasPerm (some ⟨∅, fun _ => none⟩) (oneAccount .viewer) "u" .accounts "" 0 = true ∧
    hasPerm (some ⟨∅, fun _ => none⟩) (oneAccount .operator) "u" .accounts "" 0 = false :=
  ⟨⟨readsLogs, readsNothing, readsNothing_narrows, rfl, by decide, by decide⟩, by decide,
    by decide⟩

/-! ## Deleting a group -/

/-- A pass of the loop of `DeleteGroup`, which appends to the array that it reads: the array, and
how many names at its front are kept. -/
def keepNext (id : String) (s : List String × Nat) (i : Nat) : List String × Nat :=
  match s.1[i]? with
  | none => s
  | some g => if g = id then s else (s.1.set s.2 g, s.2 + 1)

def keepOthers (id : String) (names : List String) : List String :=
  let s := (range names.length).foldl (keepNext id) (names, 0)
  s.1.take s.2

/-- The ID that `UpsertGroup` gives a group that has none. -/
def Group.named (g : Group) (stamp : String) : Group :=
  if g.id = "" then { g with id := "grp-" ++ stamp } else g

namespace PermManager

def deleteGroup (m : PermManager) (id : String) : PermManager where
  groups := m.groups.erase id
  grants username := (m.grants username).map fun gr =>
    { gr with scope := { gr.scope with groups := keepOthers id gr.scope.groups } }

/-- `UpsertGroup`, at a time whose digits are `stamp`. -/
def upsertGroup (m : PermManager) (g : Group) (stamp : String) : PermManager :=
  { m with groups := m.groups.insert (g.named stamp).id (g.named stamp) }

end PermManager

/-- After `i` names the array begins with those of them that are kept, and those that are
still to be read stand where they stood. -/
theorem keepNext_range (id : String) (names : List String) {i : Nat} (hi : i ≤ names.length) :
    let s := (range i).foldl (keepNext id) (names, 0)
    s.2 ≤ i ∧ s.1.take s.2 = (names.take i).filter (· ≠ id) ∧ s.1.drop i = names.drop i := by
  induction i with
  | zero => simp
  | succ i ih =>
    obtain ⟨hle, htake, hdrop⟩ := ih (by omega)
    rw [range_succ, foldl_append, foldl_cons, foldl_nil]
    generalize (range i).foldl (keepNext id) (names, 0) = s at hle htake hdrop ⊢
    obtain ⟨g, hg⟩ : ∃ g, names[i]? = some g := ⟨_, getElem?_eq_getElem (by omega)⟩
    have hread : s.1[i]? = some g := by rw [← hg, ← head?_drop, ← head?_drop, hdrop]
    have hrest : s.1.drop (i + 1) = names.drop (i + 1) := by rw [← tail_drop, ← tail_drop, hdrop]
    have hlt : i < s.1.length := (List.getElem?_eq_some_iff.mp hread).1
    rw [keepNext, hread, take_add_one, hg, Option.toList_some, filter_append, ← htake]
    dsimp only
    split_ifs with hid
    · exact ⟨by omega, by simp [hid], hrest⟩
    · refine ⟨by simpa using hle, ?_, by rw [drop_set_of_lt (by omega), hrest]⟩
      rw [take_add_one, take_set_of_le (Nat.le_refl _), getElem?_set_self (by omega)]
      simp [hid]

theorem keepOthers_eq (id : String) (names : List String) :
    keepOthers id names = names.filter (· ≠ id) := by
  have h := (keepNext_range id names (Nat.le_refl _)).2.1
  rwa [take_length] at h

namespace PermManager

variable {m : PermManager} {g : Grant} {a : Id}

theorem mem_groupsOfAgent {k : String} : k ∈ m.groupsOfAgent a ↔
    ∃ grp, m.groups.lookup k = some grp ∧ a ∈ grp.agents := by
  simp [groupsOfAgent, ← AList.mem_lookup_iff]

theorem inScope_iff : m.inScope g a = true ↔ g.scope.all = true ∨ a ∈ g.scope.agents ∨
    ∃ k ∈ g.scope.groups, ∃ grp, m.groups.lookup k = some grp ∧ a ∈ grp.agents := by
  simp only [inScope, Grant.canAccess, Bool.or_eq_true, contains_iff_mem, List.any_eq_true,
    mem_groupsOfAgent, or_assoc]
  simp only [and_comm]

/-- Groups under a name that the scope does not list make no difference. -/
theorem inScope_congr {m' : PermManager}
    (h : ∀ k ∈ g.scope.groups, m'.groups.lookup k = m.groups.lookup k) :
    m'.inScope g a = m.inScope g a := by
  rw [Bool.eq_iff_iff, inScope_iff, inScope_iff]
  exact or_congr_right (or_congr_right (exists_congr fun k => and_congr_right fun hk => by
    rw [h k hk]))

/-- Deleting a group takes away exactly the access it gave, and a new group under its ID gives
none back. -/
theorem delete_group_exact (m : PermManager) (id : String) :
    ((m.deleteGroup id).groups.lookup id = none ∧
      ∀ username g, (m.deleteGroup id).grants username = some g → id ∉ g.scope.groups) ∧
    (∀ username p a now, a ≠ "" → ((m.deleteGroup id).check username p a now = true ↔
      m.check username p a now = true ∧ ∃ g, m.grants username = some g ∧
        (g.scope.all = true ∨ a ∈ g.scope.agents ∨ ∃ k ∈ g.scope.groups, k ≠ id ∧
          ∃ grp, m.groups.lookup k = some grp ∧ a ∈ grp.agents))) ∧
    ∀ (g : Group) stamp username p a now, (g.named stamp).id = id →
      ((m.deleteGroup id).upsertGroup g stamp).check username p a now =
        (m.deleteGroup id).check username p a now := by
  have hgone : ∀ username g, (m.deleteGroup id).grants username = some g →
      id ∉ g.scope.groups := by
    intro username g hg
    obtain ⟨gr, -, rfl⟩ := Option.map_eq_some_iff.mp hg
    simp [keepOthers_eq]
  refine ⟨⟨AList.lookup_erase _ _, hgone⟩, fun username p a now ha => ?_, ?_⟩
  · cases hg : m.grants username with
    | none => simp [check, deleteGroup, hg]
    | some gr =>
      have hkept : ∀ k, k ∈ keepOthers id gr.scope.groups ↔ k ∈ gr.scope.groups ∧ k ≠ id := by
        simp [keepOthers_eq]
      let kept := { gr with scope := { gr.scope with groups := keepOthers id gr.scope.groups } }
      have hgrant : (m.deleteGroup id).grants username = some kept := by simp [deleteGroup, hg, kept]
      have herased : (m.deleteGroup id).inScope kept a = m.inScope kept a :=
        inScope_congr fun k hk => AList.lookup_erase_ne ((hkept k).mp hk).2
      simp only [check, hgrant, herased, hg, Bool.and_eq_true, Bool.or_eq_true, beq_iff_eq, ha,
        false_or, inScope_iff, Option.some.injEq, exists_eq_left']
      grind [Grant.valid, Grant.has]
  · rintro g stamp username p a now rfl
    simp only [check, upsertGroup]
    cases hg : (m.deleteGroup (g.named stamp).id).grants username with
    | none => rfl
    | some gr =>
      have hsame : ((m.deleteGroup (g.named stamp).id).upsertGroup g stamp).inScope gr a =
          (m.deleteGroup (g.named stamp).id).inScope gr a :=
        inScope_congr fun k hk => AList.lookup_insert_ne fun heq =>
          hgone username gr hg (heq ▸ hk)
      exact congrArg (fun b => gr.valid now && gr.has p && (a == "" || b)) hsame

end PermManager

end CtForge.Server
