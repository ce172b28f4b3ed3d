import Mathlib.Data.List.Nodup
import CtForge.Lib.CLang

/-!
# Intrusive circular doubly linked lists

The kernel-style list: every node carries a `next` and a `prev` pointer, and a
head node closes the circle. The pointers are two partial functions on an
arbitrary type of addresses. `Ring l head xs` says that they form one circle
through `head` and the nodes `xs`, in this order, read in both directions;
`list_add` and `list_del` take one ring to the next (`listAdd_ring`,
`listDel_ring`), and a traversal of a ring visits exactly `xs`.
-/

namespace CtForge.IntrusiveList

open CLang List Function

variable {α : Type} [DecidableEq α]

/-- The two pointers of every node; `none` is a null pointer. -/
structure Links (α : Type) where
  next : α → Option α
  prev : α → Option α

/-- `__list_add(new, prev, next)`. -/
def listAddBetween (l : Links α) (new prev next : α) : Links α where
  next := Function.update (Function.update l.next new (some next)) prev (some new)
  prev := Function.update (Function.update l.prev next (some new)) new (some prev)

/-- `list_add(new, head)`: insert after the head. -/
def listAdd (l : Links α) (new head : α) : Except Fault (Links α) :=
  match l.next head with
  | none => .error .nullDeref
  | some next => .ok (listAddBetween l new head next)

/-- `list_del(entry)`: the neighbours are joined and the entry's pointers are
set to null. -/
def listDel (l : Links α) (entry : α) : Except Fault (Links α) :=
  match l.prev entry, l.next entry with
  | some prev, some next => .ok {
      next := Function.update (Function.update l.next prev (some next)) entry none
      prev := Function.update (Function.update l.prev next (some prev)) entry none }
  | _, _ => .error .nullDeref

/-- `list_empty_careful(head)`. -/
def listEmpty (l : Links α) (head : α) : Bool :=
  l.next head = some head && l.prev head = some head

/-- The rest of a `list_for_each_entry` loop that stops at the first entry
satisfying `p`. -/
def findFrom (l : Links α) (head : α) (p : α → Except Fault Bool) :
    Nat → α → Except Fault (Option α)
  | 0, _ => .error .diverged
  | fuel + 1, pos =>
    if pos = head then .ok none
    else do
      if ← p pos then return some pos
      match l.next pos with
      | none => .error .nullDeref
      | some next => findFrom l head p fuel next

def listFind (l : Links α) (head : α) (p : α → Except Fault Bool) (fuel : Nat) :
    Except Fault (Option α) :=
  match l.next head with
  | none => .error .nullDeref
  | some first => findFrom l head p fuel first

/-- The entries a `list_for_each_entry` loop without an exit visits. -/
def entriesFrom (l : Links α) (head : α) : Nat → α → Except Fault (List α)
  | 0, _ => .error .diverged
  | fuel + 1, pos =>
    if pos = head then .ok []
    else
      match l.next pos with
      | none => .error .nullDeref
      | some next => do
        let rest ← entriesFrom l head fuel next
        return pos :: rest

def listEntries (l : Links α) (head : α) (fuel : Nat) : Except Fault (List α) :=
  match l.next head with
  | none => .error .nullDeref
  | some first => entriesFrom l head fuel first

/-! ## Paths -/

/-- From `a`, the pointers lead through `xs` to `b`. -/
def Path (step : α → Option α) : α → List α → α → Prop
  | a, [], b => step a = some b
  | a, x :: xs, b => step a = some x ∧ Path step x xs b

/-- The node before the end of a path from `a` through `xs`. -/
def lastOf : α → List α → α
  | a, [] => a
  | _, x :: xs => lastOf x xs

/-- The node after the start of a path through `xs` to `b`. -/
def firstOf (xs : List α) (b : α) : α := xs.head?.getD b

omit [DecidableEq α] in
theorem path_append (step : α → Option α) (a m b : α) (xs ys : List α) :
    Path step a (xs ++ m :: ys) b ↔ Path step a xs m ∧ Path step m ys b := by
  induction xs generalizing a with
  | nil => rfl
  | cons x xs ih =>
    show step a = some x ∧ Path step x (xs ++ m :: ys) b ↔ _
    rw [ih x]
    exact and_assoc.symm

variable {a : α} {xs : List α}

omit [DecidableEq α] in
theorem path_congr {f g : α → Option α} {a b : α} (h : ∀ c ∈ a :: xs, f c = g c)
    (hp : Path f a xs b) : Path g a xs b := by
  induction xs generalizing a with
  | nil => exact (h a (by simp)).symm.trans hp
  | cons x xs ih =>
    exact ⟨(h a (by simp)).symm.trans hp.1, ih (fun c hc => h c (mem_cons_of_mem _ hc)) hp.2⟩

variable {f : α → Option α}

omit [DecidableEq α] in
theorem path_first {a b : α} (hp : Path f a xs b) : f a = some (firstOf xs b) := by
  cases xs with
  | nil => exact hp
  | cons x xs => exact hp.1

omit [DecidableEq α] in
theorem lastOf_mem (a : α) (xs : List α) : lastOf a xs ∈ a :: xs := by
  induction xs generalizing a with
  | nil => simp [lastOf]
  | cons x xs ih => exact mem_cons_of_mem _ (ih x)

omit [DecidableEq α] in
theorem lastOf_concat (a x : α) (xs : List α) : lastOf a (xs ++ [x]) = x := by
  induction xs generalizing a with
  | nil => rfl
  | cons y ys ih => exact ih y

omit [DecidableEq α] in
theorem lastOf_reverse (a : α) (xs : List α) : lastOf a xs.reverse = firstOf xs a := by
  cases xs with
  | nil => rfl
  | cons x xs => simp [lastOf_concat, firstOf]

omit [DecidableEq α] in
theorem firstOf_reverse (xs : List α) (a : α) : firstOf xs.reverse a = lastOf a xs := by
  rw [← lastOf_reverse, reverse_reverse]

theorem path_retarget {a b c : α} (hnd : (a :: xs).Nodup) (hp : Path f a xs b) :
    Path (Function.update f (lastOf a xs) (some c)) a xs c := by
  induction xs generalizing a with
  | nil => simp [Path, lastOf]
  | cons x xs ih =>
    obtain ⟨ha, hnd'⟩ := nodup_cons.mp hnd
    have hne : a ≠ lastOf x xs := fun he => ha (he ▸ lastOf_mem x xs)
    exact ⟨(update_of_ne hne _ _).trans hp.1, ih hnd' hp.2⟩

/-- A path without one of its nodes, after the two updates of `list_del`. -/
theorem path_unlink {a b e : α} {ys zs : List α} (hnd : (a :: (ys ++ e :: zs)).Nodup)
    (hp : Path f a (ys ++ e :: zs) b) :
    Path (Function.update (Function.update f (lastOf a ys) (some (firstOf zs b))) e none)
      a (ys ++ zs) b := by
  obtain ⟨hl, hr⟩ := (path_append f a e b ys zs).mp hp
  have hsplit : (a :: ys).Nodup ∧ (e :: zs).Nodup ∧ ∀ c ∈ a :: ys, ∀ d ∈ e :: zs, c ≠ d := by
    rw [← cons_append, nodup_append] at hnd
    exact hnd
  obtain ⟨hndl, hndr, hdisj⟩ := hsplit
  have hleft : Path (Function.update f (lastOf a ys) (some (firstOf zs b))) a ys (firstOf zs b) :=
    path_retarget hndl hl
  -- the entry itself is not on the left part, nor are the changed nodes on the right part
  have hleft' : Path (Function.update (Function.update f (lastOf a ys) (some (firstOf zs b))) e none)
      a ys (firstOf zs b) := by
    refine path_congr (fun c hc => ?_) hleft
    rw [update_of_ne (hdisj c hc e (by simp))]
  cases zs with
  | nil => simpa [firstOf] using hleft'
  | cons z zs =>
    refine (path_append _ a z b ys zs).mpr ⟨by simpa [firstOf] using hleft', ?_⟩
    refine path_congr (fun c hc => ?_) hr.2
    have hce : c ≠ e := fun he => (nodup_cons.mp hndr).1 (he ▸ hc)
    have hcl : c ≠ lastOf a ys :=
      fun he => hdisj (lastOf a ys) (lastOf_mem a ys) c (mem_cons_of_mem _ hc) he.symm
    rw [update_of_ne hce, update_of_ne hcl]

/-! ## Rings -/

/-- The nodes `xs` hang on `head`, in this order, and the pointers in both
directions say so. -/
structure Ring (l : Links α) (head : α) (xs : List α) : Prop where
  nodup : (head :: xs).Nodup
  forward : Path l.next head xs head
  backward : Path l.prev head xs.reverse head

variable {l : Links α} {head : α}

omit [DecidableEq α] in
theorem ring_nil (hn : l.next head = some head) (hp : l.prev head = some head) : Ring l head [] :=
  ⟨by simp, hn, hp⟩

omit [DecidableEq α] in
theorem nodup_cons_reverse (h : (a :: xs).Nodup) : (a :: xs.reverse).Nodup := by
  rw [nodup_cons] at h ⊢
  exact ⟨by simpa using h.1, nodup_reverse.mpr h.2⟩

/-- `list_add` puts a new node behind the head of the ring. -/
theorem listAdd_ring {head new : α} (h : Ring l head xs) (hnew : new ∉ head :: xs) :
    ∃ l', listAdd l new head = .ok l' ∧ Ring l' head (new :: xs) := by
  obtain ⟨hnd, hf, hb⟩ := h
  obtain ⟨hnh, hnx⟩ : new ≠ head ∧ new ∉ xs := by simpa using hnew
  have hhead : head ∉ xs := (nodup_cons.mp hnd).1
  refine ⟨_, by rw [listAdd, path_first hf], ?_, ?_, ?_⟩
  · rw [nodup_cons, nodup_cons]
    exact ⟨by simpa [hnh.symm] using hhead, hnx, (nodup_cons.mp hnd).2⟩
  · refine ⟨by simp [listAddBetween], ?_⟩
    cases xs with
    | nil => simp [listAddBetween, Path, firstOf, hnh]
    | cons x xs =>
      refine ⟨by simp [listAddBetween, firstOf, hnh], path_congr (fun c hc => ?_) hf.2⟩
      have hch : c ≠ head := fun he => hhead (he ▸ hc)
      have hcn : c ≠ new := fun he => hnx (he ▸ hc)
      simp [listAddBetween, hch, hcn]
  · rw [reverse_cons]
    refine (path_append _ head new head xs.reverse []).mpr ⟨?_, by simp [listAddBetween, Path]⟩
    -- the node that pointed back to the head now points back to the new node
    have hback : Path (Function.update l.prev (lastOf head xs.reverse) (some new))
        head xs.reverse new := path_retarget (nodup_cons_reverse hnd) hb
    refine path_congr (fun c hc => ?_) hback
    have hcn : c ≠ new := by
      rintro rfl
      simp [hnh, hnx] at hc
    simp [listAddBetween, hcn, lastOf_reverse]

theorem listDel_ring {head e : α} {ys zs : List α} (h : Ring l head (ys ++ e :: zs)) :
    ∃ l', listDel l e = .ok l' ∧ Ring l' head (ys ++ zs) := by
  obtain ⟨hnd, hf, hb⟩ := h
  have hrev : (ys ++ e :: zs).reverse = zs.reverse ++ e :: ys.reverse := by simp
  rw [hrev] at hb
  have hnext := path_first ((path_append _ _ _ _ _ _).mp hf).2
  have hprev := path_first ((path_append _ _ _ _ _ _).mp hb).2
  refine ⟨_, by rw [listDel, hnext, hprev], ?_, ?_, ?_⟩
  · refine hnd.sublist ?_
    exact List.Sublist.cons_cons _ (List.Sublist.append_left (sublist_cons_self e zs) ys)
  · rw [firstOf_reverse]
    exact path_unlink hnd hf
  · rw [reverse_append]
    have hun := path_unlink (hrev ▸ nodup_cons_reverse hnd) hb
    rwa [lastOf_reverse] at hun

/-! ## Traversals -/

variable {fuel : Nat}

/-- A search along a path gives the first node that passes the test. -/
theorem findFrom_path {p : α → Except Fault Bool} {q : α → Bool} (hhead : head ∉ xs)
    (hp : ∀ x ∈ xs, p x = .ok (q x)) (hfuel : xs.length < fuel) (hpath : Path l.next a xs head) :
    findFrom l head p fuel (firstOf xs head) = .ok (xs.find? q) := by
  induction xs generalizing a fuel with
  | nil =>
    obtain ⟨k, rfl⟩ : ∃ k, fuel = k + 1 := ⟨fuel - 1, by simp at hfuel; omega⟩
    simp [findFrom, firstOf]
  | cons x xs ih =>
    obtain ⟨k, rfl⟩ : ∃ k, fuel = k + 1 := ⟨fuel - 1, by simp at hfuel; omega⟩
    obtain ⟨hne, hmem⟩ : head ≠ x ∧ head ∉ xs := by simpa using hhead
    have ih := ih hmem (fun y hy => hp y (mem_cons_of_mem _ hy))
      (by simpa using hfuel) hpath.2
    cases hq : q x with
    | true => simp [findFrom, firstOf, hne.symm, hp x (by simp), hq]
    | false =>
      rw [show firstOf (x :: xs) head = x from rfl]
      simp [findFrom, hne.symm, hp x (by simp), hq, path_first hpath.2, ih]

theorem listFind_ring (h : Ring l head xs) {p : α → Except Fault Bool} {q : α → Bool}
    (hp : ∀ x ∈ xs, p x = .ok (q x)) (hfuel : xs.length < fuel) :
    listFind l head p fuel = .ok (xs.find? q) := by
  rw [listFind, path_first h.forward]
  exact findFrom_path (nodup_cons.mp h.nodup).1 hp hfuel h.forward

theorem entriesFrom_path (hhead : head ∉ xs) (hfuel : xs.length < fuel)
    (hpath : Path l.next a xs head) : entriesFrom l head fuel (firstOf xs head) = .ok xs := by
  induction xs generalizing a fuel with
  | nil =>
    obtain ⟨k, rfl⟩ : ∃ k, fuel = k + 1 := ⟨fuel - 1, by simp at hfuel; omega⟩
    simp [entriesFrom, firstOf]
  | cons x xs ih =>
    obtain ⟨k, rfl⟩ : ∃ k, fuel = k + 1 := ⟨fuel - 1, by simp at hfuel; omega⟩
    obtain ⟨hne, hmem⟩ : head ≠ x ∧ head ∉ xs := by simpa using hhead
    have ih := ih hmem (by simpa using hfuel) hpath.2
    rw [show firstOf (x :: xs) head = x from rfl]
    simp [entriesFrom, hne.symm, path_first hpath.2, ih]

theorem listEntries_ring (h : Ring l head xs) (hfuel : xs.length < fuel) :
    listEntries l head fuel = .ok xs := by
  rw [listEntries, path_first h.forward]
  exact entriesFrom_path (nodup_cons.mp h.nodup).1 hfuel h.forward

theorem listEmpty_ring (h : Ring l head xs) : listEmpty l head = true ↔ xs = [] := by
  cases xs with
  | nil =>
    have hn : l.next head = some head := h.forward
    have hp : l.prev head = some head := h.backward
    simp [listEmpty, hn, hp]
  | cons x xs =>
    have hne : x ≠ head := fun he => (nodup_cons.mp h.nodup).1 (by simp [he])
    simp [listEmpty, h.forward.1, hne]

end CtForge.IntrusiveList
