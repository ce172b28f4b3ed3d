import CtForge.Server.Console
import Mathlib.Data.List.Perm.Basic
import Mathlib.Data.List.TakeWhile

/-!
# Suspended sessions in the gateway (`sshgateway.go`)

The gateway lists, resumes and deletes suspended terminal sessions, and each of the three
decides in its own way whose session it is. The list goes by the owner exactly, resuming
by the part of the owner after its last colon up to case, and deleting by the beginning
of the owner. A Go map is walked in any order, so resuming is stated for all of them.
-/

namespace CtForge.Server

/-! ## The list -/

/-- What `ListByOwner` tells of a session. -/
structure SuspendedView where
  id : String
  agentId : Id
  owner : String
  remark : String
  suspended : Bool
  createdAt : Int
  deriving DecidableEq

def TermSession.brief (ts : TermSession) : SuspendedView where
  id := ts.id
  agentId := ts.agentId
  owner := ts.owner
  remark := ts.state.remark
  suspended := ts.state.suspended
  createdAt := unixMilli ts.createdAt

def TermRegistry.listByOwner (reg : TermRegistry) (start : String) : List SuspendedView :=
  (reg.all.filter fun ts => start.toList.isPrefixOf ts.owner.toList).map TermSession.brief

/-- The swap in the loops of `listSuspendedUnified`. -/
def swapIfNewer (out : List SuspendedView) (i j : Nat) : List SuspendedView :=
  match out[i]?, out[j]? with
  | some a, some b => if b.createdAt > a.createdAt then (out.set i b).set j a else out
  | _, _ => out

def newestFirst (out : List SuspendedView) : List SuspendedView :=
  (List.range out.length).foldl (fun out i =>
    (List.range' (i + 1) (out.length - (i + 1))).foldl (swapIfNewer · i ·) out) out

def listSuspendedUnified (reg : TermRegistry) (user : String) : List SuspendedView :=
  let owned := (reg.listByOwner "").filter fun sc => sc.owner == user || sc.owner == "ssh:" ++ user
  newestFirst (owned.filter SuspendedView.suspended)

/-! ## Who can do what -/

/-- `resumeSuspended` takes the session, if it comes to it; `resumable` is the first such
session in the order of the entries. -/
def resumes (fold : Char → Char) (user target : String) (ts : TermSession) : Bool :=
  (afterColon ts.owner).map fold == user.toList.map fold &&
    (ts.agentId == target || ts.id == target)

/-- The user gets the session for some argument, in some order of the registry. -/
def CanResume (fold : Char → Char) (reg : TermRegistry) (user : String) (ts : TermSession) : Prop :=
  ∃ (order : List TermSession) (target : String), order.Perm reg.all ∧
    order.find? (resumes fold user target) = some ts

def CanDelete (reg : TermRegistry) (user : String) (ts : TermSession) : Prop :=
  deletable reg user ts.id = some ts

def Listed (reg : TermRegistry) (user : String) (ts : TermSession) : Prop :=
  ts.brief ∈ listSuspendedUnified reg user

/-- The list, resuming and deleting agree that the session is the user's or that it is
not. -/
structure Agrees (fold : Char → Char) (reg : TermRegistry) (user : String) (ts : TermSession) :
    Prop where
  resume : CanResume fold reg user ts ↔ Owns user ts
  delete : CanDelete reg user ts ↔ Owns user ts
  list : Listed reg user ts ↔ Owns user ts

/-- The owner is `start` and the user, and perhaps more. -/
def BeginsWith (start user owner : String) : Prop := (start ++ user).toList <+: owner.toList

def EndsIn (fold : Char → Char) (user owner : String) : Prop :=
  (afterColon owner).map fold = user.toList.map fold

/-- The session is the user's own from the gateway, under a name without a colon, or it is
not the user's and does not look like it. -/
def Plain (fold : Char → Char) (user owner : String) : Prop :=
  owner = "ssh:" ++ user ∧ ':' ∉ user.toList ∨
    owner ≠ user ∧ ¬ BeginsWith "ssh:" user owner ∧ ¬ BeginsWith "sess:" user owner ∧
      ¬ EndsIn fold user owner

/-! ## What the operations go by -/

variable {reg : TermRegistry} {ts : TermSession} {user : String}

/-- The gateway resumes a session exactly if its owner ends in the user's name, up to case. -/
theorem canResume_iff {fold : Char → Char} (hts : ts ∈ reg.all) :
    CanResume fold reg user ts ↔ EndsIn fold user ts.owner := by
  constructor
  · rintro ⟨order, target, -, hfind⟩
    have hmatch := List.find?_some hfind
    exact beq_iff_eq.mp (Bool.and_eq_true_iff.mp hmatch).1
  · intro hends
    obtain ⟨before, after, hall⟩ := List.append_of_mem hts
    refine ⟨ts :: (before ++ after), ts.id, ?_, ?_⟩
    · rw [hall]
      exact List.perm_middle.symm
    · refine List.find?_cons_of_pos ?_
      simp only [resumes, beq_self_eq_true, Bool.or_true, Bool.and_true]
      exact beq_iff_eq.mpr hends

/-- The gateway deletes a session exactly if its owner begins with `ssh:` or `sess:` and
the name. -/
theorem canDelete_iff (hts : ts ∈ reg.all) : CanDelete reg user ts ↔
      BeginsWith "ssh:" user ts.owner ∨ BeginsWith "sess:" user ts.owner := by
  have hfinds : ∀ {found}, deletable reg user ts.id = some found → found.id = ts.id ∧
      (("ssh:" ++ user).toList.isPrefixOf found.owner.toList ||
        ("sess:" ++ user).toList.isPrefixOf found.owner.toList) = true := by
    intro found h
    have hmatch := List.find?_some (p := fun ts' : TermSession => ts'.id == ts.id && _) h
    exact (Bool.and_eq_true_iff.mp hmatch).imp_left beq_iff_eq.mp
  have hiff : ∀ ts' : TermSession, (("ssh:" ++ user).toList.isPrefixOf ts'.owner.toList ||
      ("sess:" ++ user).toList.isPrefixOf ts'.owner.toList) = true ↔
      BeginsWith "ssh:" user ts'.owner ∨ BeginsWith "sess:" user ts'.owner := by
    intro ts'
    rw [Bool.or_eq_true_iff, List.isPrefixOf_iff_prefix, List.isPrefixOf_iff_prefix,
      BeginsWith, BeginsWith]
  constructor
  · intro h
    exact (hiff ts).mp (hfinds h).2
  · intro h
    obtain ⟨found, hfound⟩ : ∃ found, deletable reg user ts.id = some found := by
      refine Option.isSome_iff_exists.mp (List.find?_isSome.mpr ⟨ts, hts, ?_⟩)
      rw [beq_self_eq_true, Bool.true_and]
      exact (hiff ts).mpr h
    -- the IDs of a registry are its keys
    have hsame := TermRegistry.mem_all.mp (List.mem_of_find?_eq_some hfound)
    rw [(hfinds hfound).1, TermRegistry.mem_all.mp hts] at hsame
    rw [CanDelete, hfound, hsame]

theorem swapIfNewer_perm (out : List SuspendedView) (i j : Nat) :
    (swapIfNewer out i j).Perm out := by
  unfold swapIfNewer
  split
  · rename_i a b ha hb
    split
    · obtain ⟨hi, rfl⟩ := List.getElem?_eq_some_iff.mp ha
      obtain ⟨hj, rfl⟩ := List.getElem?_eq_some_iff.mp hb
      exact List.set_set_perm hi hj
    · exact .refl _
  · exact .refl _

theorem foldl_perm {α : Type} {f : List SuspendedView → α → List SuspendedView}
    (hf : ∀ out a, (f out a).Perm out) (steps : List α) (out : List SuspendedView) :
    (steps.foldl f out).Perm out := by
  induction steps generalizing out with
  | nil => exact .refl _
  | cons a steps ih => exact (ih (f out a)).trans (hf out a)

theorem newestFirst_perm (out : List SuspendedView) : (newestFirst out).Perm out :=
  foldl_perm (fun out i => foldl_perm (fun out j => swapIfNewer_perm out i j) _ out) _ out

theorem listed_iff (hts : ts ∈ reg.all) (hsusp : ts.state.suspended = true) :
    Listed reg user ts ↔ Owns user ts := by
  have hall : ts.brief ∈ reg.listByOwner "" :=
    List.mem_map.mpr ⟨ts, List.mem_filter.mpr ⟨hts, rfl⟩, rfl⟩
  rw [Listed, listSuspendedUnified, (newestFirst_perm _).mem_iff, List.mem_filter,
    List.mem_filter]
  simp only [hall, true_and, Bool.or_eq_true_iff, beq_iff_eq]
  exact and_iff_left hsusp

/-! ## Names -/

theorem afterColon_ssh (h : ':' ∉ user.toList) : afterColon ("ssh:" ++ user) = user.toList := by
  have hall : ∀ c ∈ user.toList.reverse, (c != ':') = true := by
    intro c hc
    refine bne_iff_ne.mpr ?_
    rintro rfl
    exact h (List.mem_reverse.mp hc)
  rw [afterColon, String.toList_append, List.reverse_append, List.takeWhile_append_of_pos hall]
  simp

theorem length_afterColon_ssh (h : ':' ∈ user.toList) :
    (afterColon ("ssh:" ++ user)).length < user.toList.length := by
  have hpart : user.toList.reverse.takeWhile (· != ':') <+: user.toList.reverse :=
    List.takeWhile_prefix _
  have hstop : (user.toList.reverse.takeWhile (· != ':')).length ≠ user.toList.reverse.length := by
    intro hlen
    have hself := List.takeWhile_eq_self_iff.mp (hpart.eq_of_length hlen)
    exact absurd (hself ':' (List.mem_reverse.mpr h)) (by decide)
  rw [afterColon, String.toList_append, List.reverse_append, List.takeWhile_append, if_neg hstop,
    List.length_reverse]
  exact lt_of_le_of_ne (hpart.length_le.trans_eq List.length_reverse)
    fun hlen => hstop (hlen.trans List.length_reverse.symm)

theorem endsIn_ssh_iff (fold : Char → Char) (user : String) :
    EndsIn fold user ("ssh:" ++ user) ↔ ':' ∉ user.toList := by
  constructor
  · intro h hcolon
    have hlen := congrArg List.length h
    have hlt := length_afterColon_ssh hcolon
    simp only [List.length_map] at hlen
    omega
  · intro h
    rw [EndsIn, afterColon_ssh h]

theorem not_beginsWith_self {start : String} (hstart : start ≠ "") (user : String) :
    ¬ BeginsWith start user user := by
  intro h
  have hlen := h.length_le
  rw [String.toList_append, List.length_append] at hlen
  have hpos : start.toList.length ≠ 0 := by
    intro hzero
    exact hstart (String.toList_inj.mp (List.length_eq_zero_iff.mp hzero))
  omega

/-! ## Agreement -/

/-- One session is treated as its owner's exactly if the names are plain. -/
theorem agrees_iff {fold : Char → Char} (hts : ts ∈ reg.all) (hsusp : ts.state.suspended = true) :
    Agrees fold reg user ts ↔ Plain fold user ts.owner := by
  have hresume : CanResume fold reg user ts ↔ _ := canResume_iff hts
  have hdelete : CanDelete reg user ts ↔ _ := canDelete_iff hts
  constructor
  · intro h
    have hends := hresume.symm.trans h.resume
    have hbegins := hdelete.symm.trans h.delete
    by_cases hssh : ts.owner = "ssh:" ++ user
    · refine .inl ⟨hssh, ?_⟩
      rw [← endsIn_ssh_iff fold, ← hssh]
      exact hends.mpr (.inr hssh)
    · have hnot : ts.owner ≠ user := by
        intro howner
        have hown := hbegins.mpr (.inl howner)
        rw [howner] at hown
        exact hown.elim (not_beginsWith_self (by decide) user)
          (not_beginsWith_self (by decide) user)
      have hother : ¬ Owns user ts := not_or_intro hnot hssh
      refine .inr ⟨hnot, ?_, ?_, fun he => hother (hends.mp he)⟩
      · exact fun hb => hother (hbegins.mp (.inl hb))
      · exact fun hb => hother (hbegins.mp (.inr hb))
  · rintro (⟨hssh, hcolon⟩ | ⟨hnot, hbegin, hbegin', hends⟩)
    · have hown : Owns user ts := .inr hssh
      refine ⟨iff_of_true (hresume.mpr ?_) hown, iff_of_true (hdelete.mpr ?_) hown,
        listed_iff hts hsusp⟩
      · rw [hssh]
        exact (endsIn_ssh_iff fold user).mpr hcolon
      · rw [hssh]
        exact .inl (List.prefix_refl _)
    · have hother : ¬ Owns user ts := by
        rintro (h | h)
        · exact hnot h
        · rw [h] at hbegin
          exact hbegin (List.prefix_refl _)
      exact ⟨iff_of_false (fun h => hends (hresume.mp h)) hother,
        iff_of_false (fun h => (hdelete.mp h).elim hbegin hbegin') hother,
        listed_iff hts hsusp⟩

/-- The three agree with ownership exactly if every suspended session is the user's own from the
gateway, and the name has no colon, or its owner is not the user's name, does not begin with
`ssh:` or `sess:` and the name, and does not end in it. -/
theorem gateway_agrees_iff (fold : Char → Char) (reg : TermRegistry) (user : String) :
    (∀ ts ∈ reg.all, ts.state.suspended = true → Agrees fold reg user ts) ↔
      ∀ ts ∈ reg.all, ts.state.suspended = true → Plain fold user ts.owner :=
  forall₂_congr fun _ hts => forall_congr' fun hsusp => agrees_iff hts hsusp

/-! ## A registry with confusing owners -/

def suspendedAs (id owner : String) : TermSession where
  id := id
  agentId := "h"
  createdAt := 0
  ac := 0
  owner := owner
  state := { suspended := true, updatedAt := 0 }

def threeUsers : TermRegistry :=
  ((TermRegistry.empty.add (suspendedAs "web" "bob")).add (suspendedAs "other" "ssh:bobby")).add
    (suspendedAs "upper" "ssh:BOB")

/-- A registry on which the three do not agree with ownership. -/
theorem gateway_confuses_owners :
    (Listed threeUsers "bob" (suspendedAs "web" "bob") ∧
      ¬ CanDelete threeUsers "bob" (suspendedAs "web" "bob")) ∧
    (CanDelete threeUsers "bob" (suspendedAs "other" "ssh:bobby") ∧
      ¬ Owns "bob" (suspendedAs "other" "ssh:bobby")) ∧
    (resumable Char.toLower threeUsers "bob" "upper" = some (suspendedAs "upper" "ssh:BOB") ∧
      ¬ Owns "bob" (suspendedAs "upper" "ssh:BOB")) ∧
    ¬ ∀ ts ∈ threeUsers.all, ts.state.suspended = true →
      Agrees Char.toLower threeUsers "bob" ts := by
  have hresume : resumable Char.toLower threeUsers "bob" "upper" =
      some (suspendedAs "upper" "ssh:BOB") := by decide
  have hnot : ¬ Owns "bob" (suspendedAs "upper" "ssh:BOB") := by decide
  refine ⟨by unfold Listed CanDelete; decide, by unfold CanDelete; decide,
    ⟨hresume, hnot⟩, ?_⟩
  intro h
  have hagrees := h (suspendedAs "upper" "ssh:BOB") (by decide) rfl
  exact hnot (hagrees.resume.mp ⟨threeUsers.all, "upper", .refl _, hresume⟩)

end CtForge.Server
