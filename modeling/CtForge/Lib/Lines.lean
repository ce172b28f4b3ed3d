import Mathlib.Data.List.Basic

/-!
# Lines of a stream

A stream comes in pieces and is cut at a separator. `cut` gives the complete lines of what
has come so far and the unfinished one behind them; `cut_append` says that the unfinished
line is all that has to be kept between two pieces, and `upTo` and `beyond` split a list
of lines behind the first one that ends the conversation.
-/

namespace CtForge.Lines

open List

section Cut

variable {α : Type} [DecidableEq α] (sep : α)

def cut : List α → List (List α) × List α
  | [] => ([], [])
  | a :: s =>
    if a = sep then ([] :: (cut s).1, (cut s).2)
    else
      match cut s with
      | ([], rest) => ([], a :: rest)
      | (l :: ls, rest) => ((a :: l) :: ls, rest)

/-- The unfinished line is all that has to be kept between two pieces. -/
theorem cut_append (s t : List α) :
    cut sep (s ++ t) =
      ((cut sep s).1 ++ (cut sep ((cut sep s).2 ++ t)).1, (cut sep ((cut sep s).2 ++ t)).2) := by
  induction s with
  | nil => rfl
  | cons a s ih =>
    rw [cons_append, cut, ih]
    by_cases ha : a = sep
    · rw [if_pos ha, cut, if_pos ha]
      rfl
    · rw [if_neg ha]
      rcases hs : cut sep s with ⟨_ | ⟨l, ls⟩, rest⟩
      · have hcons : cut sep (a :: s) = ([], a :: rest) := by rw [cut, if_neg ha, hs]
        rw [hcons, cons_append, cut, if_neg ha]
        rfl
      · have hcons : cut sep (a :: s) = ((a :: l) :: ls, rest) := by rw [cut, if_neg ha, hs]
        rw [hcons]
        rfl

/-- The lines and the rest are the text. -/
theorem cut_join (s : List α) : (cut sep s).1.flatMap (· ++ [sep]) ++ (cut sep s).2 = s := by
  induction s with
  | nil => rfl
  | cons a s ih =>
    rw [cut]
    by_cases ha : a = sep
    · rw [if_pos ha, flatMap_cons, append_assoc, ih, ha]
      rfl
    · rw [if_neg ha]
      rcases hs : cut sep s with ⟨_ | ⟨l, ls⟩, rest⟩ <;> rw [hs] at ih <;>
        simpa using ih

/-- An unfinished line has no complete line in it. -/
theorem cut_rest (s : List α) : cut sep (cut sep s).2 = ([], (cut sep s).2) := by
  induction s with
  | nil => rfl
  | cons a s ih =>
    rw [cut]
    by_cases ha : a = sep
    · rwa [if_pos ha]
    · rw [if_neg ha]
      rcases hs : cut sep s with ⟨_ | ⟨l, ls⟩, rest⟩
      · rw [hs] at ih
        show cut sep (a :: rest) = ([], a :: rest)
        rw [cut, if_neg ha, show cut sep rest = ([], rest) from ih]
      · rw [hs] at ih
        exact ih

end Cut

section Ends

variable {β : Type} (ends : β → Bool)

def upTo : List β → List β
  | [] => []
  | l :: ls => if ends l then [l] else l :: upTo ls

def beyond : List β → List β
  | [] => []
  | l :: ls => if ends l then ls else beyond ls

variable {ends}

theorem upTo_append_beyond (ls : List β) : upTo ends ls ++ beyond ends ls = ls := by
  induction ls with
  | nil => rfl
  | cons l ls ih =>
    rw [upTo, beyond]
    split
    · rfl
    · rw [cons_append, ih]

theorem any_upTo (ls : List β) : (upTo ends ls).any ends = ls.any ends := by
  induction ls with
  | nil => rfl
  | cons l ls ih =>
    rw [upTo]
    split
    · rename_i hl
      simp [hl]
    · rw [any_cons, any_cons, ih]

variable {ls : List β}

theorem upTo_of_not_any (h : ls.any ends = false) : upTo ends ls = ls := by
  induction ls with
  | nil => rfl
  | cons l ls ih =>
    rw [any_cons, Bool.or_eq_false_iff] at h
    rw [upTo, if_neg (by simp [h.1]), ih h.2]

theorem upTo_append_of_any (h : ls.any ends = true) (ms : List β) :
    upTo ends (ls ++ ms) = upTo ends ls := by
  induction ls with
  | nil => cases h
  | cons l ls ih =>
    rw [cons_append, upTo, upTo]
    split
    · rfl
    · rename_i hl
      rw [any_cons, Bool.eq_false_iff.mpr hl, Bool.false_or] at h
      rw [ih h]

theorem upTo_append_of_not_any (h : ls.any ends = false) (ms : List β) :
    upTo ends (ls ++ ms) = ls ++ upTo ends ms := by
  induction ls with
  | nil => rfl
  | cons l ls ih =>
    rw [any_cons, Bool.or_eq_false_iff] at h
    rw [cons_append, upTo, if_neg (by simp [h.1]), ih h.2, cons_append]

end Ends

end CtForge.Lines
