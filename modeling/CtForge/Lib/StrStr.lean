import CtForge.Lib.CLang
import Mathlib.Data.List.Infix

/-!
# Searching a quoted word

`strstr` with a pattern that is a word between two quotes. Such a pattern can only
stand where two quotes follow each other with the word between them, so the search is
a walk over the pieces between the quotes.
-/

namespace CtForge.CLang

/-- The text after the first occurrence of `pat`. -/
def strstr (pat : Bytes) : Bytes → Option Bytes
  | [] => if pat.isEmpty then some [] else none
  | c :: s => if startsWith (c :: s) pat then some ((c :: s).drop pat.length) else strstr pat s

theorem startsWith_iff {s pat : Bytes} : startsWith s pat = true ↔ pat <+: s := by
  rw [startsWith, strncmpEq, List.take_length, beq_iff_eq, List.prefix_iff_eq_take]
  exact eq_comm

def quoted (k : Bytes) : Bytes := 34 :: k ++ [34]

/-- The text after the first quoted `k`, where `cur` is what stands before the text
and after the last quote, if there is one. -/
def afterKey (k : Bytes) : (cur : Option Bytes) → Bytes → Option Bytes
  | _, [] => none
  | cur, c :: s =>
    if c == 34 then if cur == some k then some s else afterKey k (some []) s
    else afterKey k (cur.map (· ++ [c])) s

variable {k : Bytes}

theorem afterKey_quote (cur : Option Bytes) (s : Bytes) :
    afterKey k cur (34 :: s) = if cur == some k then some s else afterKey k (some []) s := by
  simp [afterKey]

theorem afterKey_byte {c : UInt8} (hc : c ≠ 34) (cur : Option Bytes) (s : Bytes) :
    afterKey k cur (c :: s) = afterKey k (cur.map (· ++ [c])) s := by
  simp [afterKey, hc]

variable {a : Bytes}

theorem afterKey_append (ha : 34 ∉ a) (cur : Option Bytes) (s : Bytes) :
    afterKey k cur (a ++ s) = afterKey k (cur.map (· ++ a)) s := by
  induction a generalizing cur with
  | nil => simp
  | cons c a ih =>
    obtain ⟨hc, ha⟩ : 34 ≠ c ∧ 34 ∉ a := by simpa using ha
    rw [List.cons_append, afterKey_byte hc.symm, ih ha]
    simp [Function.comp_def]

theorem afterKey_eq_none (ha : 34 ∉ a) (cur : Option Bytes) : afterKey k cur a = none := by
  have h := afterKey_append (k := k) ha cur []
  rw [List.append_nil] at h
  rw [h]
  rfl

theorem afterKey_append_of_some {cur : Option Bytes} {s r : Bytes} (h : afterKey k cur s = some r)
    (t : Bytes) : afterKey k cur (s ++ t) = some (r ++ t) := by
  induction s generalizing cur with
  | nil => cases h
  | cons c s ih =>
    rw [List.cons_append]
    by_cases hc : c = 34
    · rw [hc, afterKey_quote] at h ⊢
      split at h
      · cases h
        rw [if_pos ‹_›]
      · rw [if_neg ‹_›]
        exact ih h
    · rw [afterKey_byte hc] at h ⊢
      exact ih h

theorem afterKey_append_of_none {cur : Option Bytes} {s : Bytes} (h : afterKey k cur s = none) :
    ∃ cur', ∀ t, afterKey k cur (s ++ t) = afterKey k cur' t := by
  induction s generalizing cur with
  | nil => exact ⟨cur, fun t => rfl⟩
  | cons c s ih =>
    by_cases hc : c = 34
    · rw [hc, afterKey_quote] at h
      split at h
      · cases h
      · obtain ⟨cur', hcur⟩ := ih h
        refine ⟨cur', fun t => ?_⟩
        rw [hc, List.cons_append, afterKey_quote, if_neg ‹_›, hcur t]
    · rw [afterKey_byte hc] at h
      obtain ⟨cur', hcur⟩ := ih h
      refine ⟨cur', fun t => ?_⟩
      rw [List.cons_append, afterKey_byte hc, hcur t]

theorem afterKey_of_not_prefix {cur : Bytes} (h : ¬ cur <+: k) (s : Bytes) :
    afterKey k (some cur) s = afterKey k none s := by
  induction s generalizing cur with
  | nil => rfl
  | cons c s ih =>
    by_cases hc : c = 34
    · have hne : cur ≠ k := by
        rintro rfl
        exact h List.prefix_rfl
      rw [hc, afterKey_quote, afterKey_quote]
      simp [hne]
    · rw [afterKey_byte hc, afterKey_byte hc]
      refine ih ?_
      intro hpre
      exact h ((List.prefix_append cur [c]).trans hpre)

theorem afterKey_delim {d : UInt8} (hd : d ≠ 34) (hk : d ∉ k) (cur : Option Bytes) (s : Bytes) :
    afterKey k cur (d :: s) = afterKey k none s := by
  rw [afterKey_byte hd]
  cases cur with
  | none => rfl
  | some cur =>
    refine afterKey_of_not_prefix ?_ s
    intro hpre
    exact hk (hpre.subset (by simp))

/-! ## The walk is the search -/

theorem strstr_skip {pat a : Bytes} {q : UInt8} (hpat : pat.head? = some q) (ha : q ∉ a) (s : Bytes) :
    strstr pat (a ++ s) = strstr pat s := by
  induction a with
  | nil => rfl
  | cons c a ih =>
    obtain ⟨hc, ha⟩ : q ≠ c ∧ q ∉ a := by simpa using ha
    have hno : startsWith (c :: (a ++ s)) pat = false := by
      rw [Bool.eq_false_iff]
      intro hpre
      obtain ⟨t, ht⟩ := startsWith_iff.mp hpre
      cases pat with
      | nil => cases hpat
      | cons p pat =>
        cases hpat
        exact hc (List.cons.inj ht).1
    rw [List.cons_append, strstr, hno]
    exact ih ha

theorem eq_of_starts_quoted {cur s : Bytes} (hk : 34 ∉ k) (hcur : 34 ∉ cur)
    (h : quoted k <+: 34 :: cur ++ 34 :: s) : cur = k := by
  obtain ⟨t, ht⟩ := h
  have htail : k ++ 34 :: t = cur ++ 34 :: s := by simpa [quoted] using ht
  have hleft := congrArg (List.takeWhile (· != (34 : UInt8))) htail
  have htake : ∀ {a b : Bytes}, 34 ∉ a → (a ++ 34 :: b).takeWhile (· != (34 : UInt8)) = a := by
    intro a b ha
    rw [List.takeWhile_append_of_pos]
    · simp
    · intro c hc
      simpa using fun h : c = 34 => ha (h ▸ hc)
  rw [htake hk, htake hcur] at hleft
  exact hleft.symm

theorem strstr_none {pat a : Bytes} {q : UInt8} (hpat : pat.head? = some q) (ha : q ∉ a) :
    strstr pat a = none := by
  have h := strstr_skip hpat ha []
  rw [List.append_nil] at h
  rw [h]
  cases pat with
  | nil => cases hpat
  | cons p pat => rfl

/-- The walk, from behind a quote. -/
theorem strstr_open (hk : 34 ∉ k) (s : Bytes) :
    ∀ cur, 34 ∉ cur → strstr (quoted k) (34 :: cur ++ s) = afterKey k (some cur) s := by
  have hhead : (quoted k).head? = some 34 := rfl
  induction s with
  | nil =>
    intro cur hcur
    have hno : startsWith (34 :: cur ++ []) (quoted k) = false := by
      rw [Bool.eq_false_iff]
      intro hpre
      obtain ⟨t, ht⟩ := startsWith_iff.mp hpre
      have htail : k ++ 34 :: t = cur := by simpa [quoted] using ht
      exact hcur (htail ▸ by simp)
    rw [List.cons_append, strstr, ← List.cons_append, hno]
    simpa [afterKey] using strstr_none hhead hcur
  | cons c s ih =>
    intro cur hcur
    by_cases hc : c = 34
    · subst hc
      rw [afterKey_quote, List.cons_append, strstr, ← List.cons_append]
      by_cases hcurk : cur = k
      · subst hcurk
        have hyes : startsWith (34 :: cur ++ 34 :: s) (quoted cur) = true :=
          startsWith_iff.mpr ⟨s, by simp [quoted]⟩
        have hdrop : (34 :: cur ++ 34 :: s).drop (quoted cur).length = s := by
          have hsplit : 34 :: cur ++ 34 :: s = quoted cur ++ s := by simp [quoted]
          rw [hsplit, List.drop_left]
        rw [hyes, hdrop]
        simp
      · have hno : startsWith (34 :: cur ++ 34 :: s) (quoted k) = false := by
          rw [Bool.eq_false_iff]
          intro hpre
          exact hcurk (eq_of_starts_quoted hk hcur (startsWith_iff.mp hpre))
        rw [hno]
        simp only [Bool.false_eq_true, if_false, beq_iff_eq, Option.some.injEq, hcurk]
        rw [strstr_skip hhead hcur]
        exact ih [] (by simp)
    · have hmove : 34 :: cur ++ c :: s = 34 :: (cur ++ [c]) ++ s := by simp
      rw [afterKey_byte hc, hmove]
      exact ih (cur ++ [c]) (by simpa [hcur] using fun h => hc h.symm)

/-- The search as that walk. -/
theorem strstr_quoted (hk : 34 ∉ k) (s : Bytes) : strstr (quoted k) s = afterKey k none s := by
  have hhead : (quoted k).head? = some 34 := rfl
  induction s with
  | nil => rfl
  | cons c s ih =>
    by_cases hc : c = 34
    · subst hc
      rw [afterKey_quote]
      exact strstr_open hk s [] (by simp)
    · rw [afterKey_byte hc]
      have hskip := strstr_skip (a := [c]) hhead (by simpa using fun h => hc h.symm) s
      exact hskip.trans ih

/-- There is no match exactly if the pattern is no part of the text. -/
theorem strstr_eq_none_iff {pat : Bytes} (hpat : pat ≠ []) {s : Bytes} :
    strstr pat s = none ↔ ¬ pat <:+: s := by
  induction s with
  | nil =>
    have hempty : pat.isEmpty = false := by simpa using hpat
    simp [strstr, hempty, hpat]
  | cons c s ih =>
    rw [strstr, List.infix_cons_iff, not_or, ← ih, ← startsWith_iff]
    split
    · simp [*]
    · simp [*]

end CtForge.CLang
