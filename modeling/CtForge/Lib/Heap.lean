import CtForge.Lib.CLang
import Mathlib.Data.List.Perm.Subperm

/-!
# A heap of objects

The objects a C program has allocated, by address. `Allocator` is what `malloc`
promises: the address it returns is not in use. Reading through a pointer to
something that is not allocated is a fault.
-/

namespace CtForge.CLang

open List

variable {α : Type}

structure Heap (α : Type) where
  cells : List (Nat × α) := []

/-- `malloc`, as a choice of an address that is not in use. -/
structure Allocator where
  malloc : List Nat → Nat
  fresh : ∀ used, malloc used ∉ used

namespace Heap

def addrs (h : Heap α) : List Nat := h.cells.map Prod.fst

def get? (h : Heap α) (a : Nat) : Option α := h.cells.lookup a

def read (h : Heap α) (a : Nat) : Except Fault α :=
  match h.get? a with
  | none => .error .outOfBounds
  | some x => .ok x

def free (h : Heap α) (a : Nat) : Heap α := ⟨h.cells.filter fun c => c.1 ≠ a⟩

def write (h : Heap α) (a : Nat) (x : α) : Heap α := ⟨(a, x) :: (h.free a).cells⟩

@[simp] theorem get?_write_self (h : Heap α) (a : Nat) (x : α) : (h.write a x).get? a = some x := by
  simp [get?, write]

/-- Freeing leaves the other objects alone. -/
theorem get?_free_ne (h : Heap α) {a b : Nat} (hne : b ≠ a) : (h.free a).get? b = h.get? b := by
  obtain ⟨cells⟩ := h
  simp only [get?, free]
  induction cells with
  | nil => rfl
  | cons c cells ih =>
    obtain ⟨k, v⟩ := c
    by_cases hk : k = a
    · have hb : (b == k) = false := by simp [hk, hne]
      rw [lookup_cons, hb, filter_cons_of_neg (by simpa using hk)]
      exact ih
    · rw [filter_cons_of_pos (by simpa using hk), lookup_cons, lookup_cons, ih]

theorem get?_write_ne (h : Heap α) {a b : Nat} (hne : b ≠ a) (x : α) :
    (h.write a x).get? b = h.get? b := by
  have hb : (b == a) = false := by simpa using hne
  rw [← get?_free_ne h hne]
  simp [get?, write, lookup_cons, hb]

/-- What can be read has an address in use. -/
theorem mem_addrs_of_get? {h : Heap α} {a : Nat} {x : α} (hx : h.get? a = some x) :
    a ∈ h.addrs := by
  obtain ⟨cells⟩ := h
  simp only [get?, addrs] at *
  induction cells with
  | nil => simp at hx
  | cons c cells ih =>
    obtain ⟨k, v⟩ := c
    by_cases hk : a = k
    · simp [hk]
    · have hb : (a == k) = false := by simpa using hk
      rw [lookup_cons, hb] at hx
      exact mem_cons_of_mem _ (ih hx)

theorem get?_free_self (h : Heap α) (a : Nat) : (h.free a).get? a = none := by
  cases hx : (h.free a).get? a with
  | none => rfl
  | some x => simpa [addrs, free] using mem_addrs_of_get? hx

theorem get?_malloc (al : Allocator) (h : Heap α) : h.get? (al.malloc h.addrs) = none := by
  cases hx : h.get? (al.malloc h.addrs) with
  | none => rfl
  | some x => exact absurd (mem_addrs_of_get? hx) (al.fresh h.addrs)

theorem length_le_of_allocated {h : Heap α} {as : List Nat} (hnd : as.Nodup)
    (hall : ∀ a ∈ as, ∃ x, h.get? a = some x) : as.length ≤ h.cells.length := by
  have hsub : as ⊆ h.addrs := by
    intro a ha
    obtain ⟨x, hx⟩ := hall a ha
    exact mem_addrs_of_get? hx
  have hlen := (subperm_of_subset hnd hsub).length_le
  simpa [addrs] using hlen

end Heap

end CtForge.CLang
