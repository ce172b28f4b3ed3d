import CtForge.Server.Tasks

/-!
# Cron schedules (`tasks.go`)

`parseField` expands an item with a loop over machine integers, whose addition can wrap around,
and `NextRun` looks at one minute after the other. Times are in nanoseconds here.
-/

namespace CtForge.Server

/-! ## Fields -/

section

variable {hi step i : Int}

variable (hstep : 0 < step)

include hstep

end

section

variable {α β : Type} {f : α → Option (List β)} {l : List α} {lists : List (List β)}

end

def minuteNs : Int := 60000000000

/-- `NextRun` from a time in nanoseconds. -/
def nextRunFrom (cal : Calendar) (expr : String) (ns : Int) : Option Int :=
  nextRun cal expr (ns / 1000000)

/-- The first `k` iterates of `NextRun`, up to its first error. -/
def iterateRun (cal : Calendar) (expr : String) : (k : Nat) → (ns : Int) → List Int
  | 0, _ => []
  | k + 1, ns =>
    match nextRunFrom cal expr ns with
    | none => []
    | some m => m :: iterateRun cal expr k (minuteNs * m)

section

variable {cal : Calendar} {c : Cron} {m : Int}

/-- The search gives the first matching minute in its range. -/
theorem searchRun_eq_some_iff {steps : Nat} {t : Int} : searchRun cal c steps t = some m ↔
    c.matches (cal m) = true ∧ t ≤ m ∧ m < t + steps ∧
      ∀ k, t ≤ k → k < m → c.matches (cal k) = false := by
  induction steps generalizing t with
  | zero =>
    refine iff_of_false (by simp [searchRun]) ?_
    rintro ⟨-, hle, hlt, -⟩
    simp at hlt
    omega
  | succ steps ih =>
    rw [searchRun]
    split_ifs with ht
    · rw [Option.some.injEq]
      constructor
      · rintro rfl
        exact ⟨ht, Int.le_refl t, by omega, fun k hk hlt => by omega⟩
      · rintro ⟨-, hle, -, hfirst⟩
        by_contra hne
        rw [hfirst t (Int.le_refl t) (by omega)] at ht
        cases ht
    · rw [ih]
      have hfalse := Bool.eq_false_iff.mpr ht
      constructor
      · rintro ⟨hm, hle, hlt, hfirst⟩
        refine ⟨hm, by omega, by push_cast at hlt ⊢; omega, fun k hk hkm => ?_⟩
        by_cases hkt : k = t
        · exact hkt ▸ hfalse
        · exact hfirst k (by omega) hkm
      · rintro ⟨hm, hle, hlt, hfirst⟩
        have hne : m ≠ t := by
          rintro rfl
          exact ht hm
        exact ⟨hm, by omega, by push_cast at hlt ⊢; omega, fun k hk => hfirst k (by omega)⟩

theorem searchRun_eq_none_iff {steps : Nat} {t : Int} : searchRun cal c steps t = none ↔
    ∀ k, t ≤ k → k < t + steps → c.matches (cal k) = false := by
  induction steps generalizing t with
  | zero =>
    refine iff_of_true rfl fun k hle hlt => ?_
    simp at hlt
    omega
  | succ steps ih =>
    rw [searchRun]
    split_ifs with ht
    · refine iff_of_false (by simp) fun hnone => ?_
      rw [hnone t (Int.le_refl t) (by omega)] at ht
      cases ht
    · rw [ih]
      constructor
      · intro hnone k hle hlt
        by_cases hkt : k = t
        · exact hkt ▸ Bool.eq_false_iff.mpr ht
        · exact hnone k (by omega) (by push_cast at hlt; omega)
      · intro hnone k hle hlt
        exact hnone k (by omega) (by push_cast; omega)

variable {expr : String} (h : parseCron expr = some c)

include h

variable {ns : Int}

/-- `NextRun` gives the first matching minute behind a time, within 366 days. -/
theorem nextRunFrom_eq_some_iff : nextRunFrom cal expr ns = some m ↔
    c.matches (cal m) = true ∧ ns < minuteNs * m ∧ m ≤ ns / minuteNs + 527040 ∧
      ∀ k, ns < minuteNs * k → k < m → c.matches (cal k) = false := by
  have hafter : ∀ k, ns / 1000000 / 60000 + 1 ≤ k ↔ ns < minuteNs * k := by
    intro k
    unfold minuteNs
    omega
  rw [nextRunFrom, nextRun, h, Option.bind_some, searchRun_eq_some_iff]
  simp only [hafter]
  unfold minuteNs
  constructor <;> rintro ⟨hm, hlt, hle, hfirst⟩ <;> exact ⟨hm, hlt, by omega, hfirst⟩

theorem nextRunFrom_eq_none_iff : nextRunFrom cal expr ns = none ↔
    ∀ k, ns < minuteNs * k → k ≤ ns / minuteNs + 527040 → c.matches (cal k) = false := by
  rw [nextRunFrom, nextRun, h, Option.bind_some, searchRun_eq_none_iff]
  unfold minuteNs
  constructor
  · intro hnone k hlt hle
    exact hnone k (by omega) (by omega)
  · intro hnone k hle hlt
    exact hnone k (by omega) (by omega)

theorem nextRunFrom_mono {ns' m' : Int} (hle : ns ≤ ns')
    (hm : nextRunFrom cal expr ns = some m) (hm' : nextRunFrom cal expr ns' = some m') :
    m ≤ m' := by
  obtain ⟨-, -, -, hfirst⟩ := (nextRunFrom_eq_some_iff h).mp hm
  obtain ⟨hmatch, hlt, -, -⟩ := (nextRunFrom_eq_some_iff h).mp hm'
  by_contra hmm
  rw [hfirst m' (by omega) (by omega)] at hmatch
  cases hmatch

theorem mem_iterateRun {k : Nat} (hm : m ∈ iterateRun cal expr k ns) :
    ns < minuteNs * m ∧ c.matches (cal m) = true := by
  induction k generalizing ns with
  | zero => cases hm
  | succ k ih =>
    rw [iterateRun] at hm
    split at hm
    · cases hm
    · rename_i m₁ hm₁
      obtain ⟨hmatch, hlt, -, -⟩ := (nextRunFrom_eq_some_iff h).mp hm₁
      rcases List.mem_cons.mp hm with rfl | hrest
      · exact ⟨hlt, hmatch⟩
      · exact ⟨Int.lt_trans hlt (ih hrest).1, (ih hrest).2⟩

theorem iterateRun_increasing (k : Nat) (ns : Int) :
    (iterateRun cal expr k ns).Pairwise (· < ·) := by
  induction k generalizing ns with
  | zero => exact List.Pairwise.nil
  | succ k ih =>
    rw [iterateRun]
    split
    · exact List.Pairwise.nil
    · rename_i m hm
      refine List.Pairwise.cons (fun m' hm' => ?_) (ih (minuteNs * m))
      have hlt := (mem_iterateRun h hm').1
      unfold minuteNs at hlt
      omega

/-- No matching minute before a visited one is left out. -/
theorem iterateRun_visits {k : Nat} {m' : Int} (hm' : m' ∈ iterateRun cal expr k ns)
    (hle : m ≤ m') (hlt : ns < minuteNs * m) (hmatch : c.matches (cal m) = true) :
    m ∈ iterateRun cal expr k ns := by
  induction k generalizing ns with
  | zero => cases hm'
  | succ k ih =>
    rw [iterateRun] at hm' ⊢
    split at hm'
    · cases hm'
    · rename_i m₁ hm₁
      obtain ⟨-, -, -, hfirst⟩ := (nextRunFrom_eq_some_iff h).mp hm₁
      have hnot : ¬ m < m₁ := by
        intro hbefore
        rw [hfirst m hlt hbefore] at hmatch
        cases hmatch
      by_cases heq : m = m₁
      · exact heq ▸ List.mem_cons_self
      · rcases List.mem_cons.mp hm' with rfl | hrest
        · omega
        · exact List.mem_cons_of_mem _ (ih hrest (by unfold minuteNs; omega))

theorem iterateRun_reaches {k : Nat} (hlen : (iterateRun cal expr (k + 1) ns).length = k + 1) :
    ∃ m ∈ iterateRun cal expr (k + 1) ns, ns / minuteNs + k < m := by
  induction k generalizing ns with
  | zero =>
    obtain ⟨m, hm⟩ := List.length_pos_iff_exists_mem.mp (Nat.lt_of_lt_of_eq Nat.one_pos hlen.symm)
    have hlt := (mem_iterateRun h hm).1
    unfold minuteNs at hlt ⊢
    exact ⟨m, hm, by omega⟩
  | succ k ih =>
    rw [iterateRun] at hlen ⊢
    split at hlen
    · cases hlen
    · rename_i m hm
      obtain ⟨-, hlt, -, -⟩ := (nextRunFrom_eq_some_iff h).mp hm
      obtain ⟨m', hm', hle⟩ := ih (Nat.succ.inj hlen)
      unfold minuteNs at hlt hle ⊢
      exact ⟨m', List.mem_cons_of_mem _ hm', by push_cast; omega⟩

theorem iterateRun_complete (hlt : ns < minuteNs * m) (hmatch : c.matches (cal m) = true) :
    ∃ k, m ∈ iterateRun cal expr k ns ∨ (iterateRun cal expr k ns).length ≠ k := by
  refine ⟨(m - ns / minuteNs).toNat + 1, ?_⟩
  by_cases hlen : (iterateRun cal expr ((m - ns / minuteNs).toNat + 1) ns).length =
      (m - ns / minuteNs).toNat + 1
  · obtain ⟨m', hm', hle⟩ := iterateRun_reaches h hlen
    exact .inl (iterateRun_visits h hm' (by unfold minuteNs at *; omega) hlt hmatch)
  · exact .inr hlen

/-- `NextRun` and its iterates list the matching minutes. -/
theorem nextRun_enumerates :
    (∀ ns m, nextRunFrom cal expr ns = some m ↔
      c.matches (cal m) = true ∧ ns < minuteNs * m ∧ m ≤ ns / minuteNs + 527040 ∧
        ∀ k, ns < minuteNs * k → k < m → c.matches (cal k) = false) ∧
    (∀ ns, nextRunFrom cal expr ns = none ↔
      ∀ k, ns < minuteNs * k → k ≤ ns / minuteNs + 527040 → c.matches (cal k) = false) ∧
    (∀ ns ns' m m', ns ≤ ns' → nextRunFrom cal expr ns = some m →
      nextRunFrom cal expr ns' = some m' → m ≤ m') ∧
    ∀ ns, (∀ k, (iterateRun cal expr k ns).Pairwise (· < ·)) ∧
      (∀ k, ∀ m ∈ iterateRun cal expr k ns, ns < minuteNs * m ∧ c.matches (cal m) = true) ∧
      (∀ k, ∀ m' ∈ iterateRun cal expr k ns, ∀ m ≤ m', ns < minuteNs * m →
        c.matches (cal m) = true → m ∈ iterateRun cal expr k ns) ∧
      ∀ m, ns < minuteNs * m → c.matches (cal m) = true →
        ∃ k, m ∈ iterateRun cal expr k ns ∨ (iterateRun cal expr k ns).length ≠ k :=
  ⟨fun _ _ => nextRunFrom_eq_some_iff h, fun _ => nextRunFrom_eq_none_iff h,
    fun _ _ _ _ => nextRunFrom_mono h, fun ns => ⟨fun k => iterateRun_increasing h k ns,
      fun _ _ => mem_iterateRun h, fun _ _ hm' _ => iterateRun_visits h hm',
      fun _ => iterateRun_complete h⟩⟩

end

theorem every_minute_is_next :
    nextRunFrom (fun m => ⟨m % 60, 0, 1, 1, 0⟩) "* * * * *" 61000000000 = some 2 := by
  have hc : ∃ c, parseCron "* * * * *" = some c ∧ c.matches ⟨2, 0, 1, 1, 0⟩ = true := by
    decide
  obtain ⟨c, hparse, hmatch⟩ := hc
  refine ((nextRun_enumerates hparse).1 _ _).mpr ⟨hmatch, by decide, by decide, ?_⟩
  unfold minuteNs
  omega

end CtForge.Server
