import Mathlib.Data.List.Basic

/-!
# Runs of a transition system

A system with a step function over events, and its finite runs. `Along C s es`
says that every step of the run from `s` meets the condition `C` on the state
before the step and the event, and `Throughout P s es` that every state on the
way has the property `P`. The rules below turn what one step preserves into
what holds along every run.
-/

namespace CtForge.Runs

open List

variable {σ ε : Type} (step : σ → ε → σ)

def exec : σ → List ε → σ
  | s, [] => s
  | s, e :: es => exec (step s e) es

def Along (C : σ → ε → Prop) : σ → List ε → Prop
  | _, [] => True
  | s, e :: es => C s e ∧ Along C (step s e) es

def Throughout (P : σ → Prop) : σ → List ε → Prop
  | s, [] => P s
  | s, e :: es => P s ∧ Throughout P (step s e) es

instance Along.decidable (C : σ → ε → Prop) [∀ s e, Decidable (C s e)] :
    ∀ s es, Decidable (Along step C s es)
  | _, [] => inferInstanceAs (Decidable True)
  | s, e :: es =>
    have := Along.decidable C (step s e) es
    inferInstanceAs (Decidable (C s e ∧ Along step C (step s e) es))

instance Throughout.decidable (P : σ → Prop) [∀ s, Decidable (P s)] :
    ∀ s es, Decidable (Throughout step P s es)
  | s, [] => inferInstanceAs (Decidable (P s))
  | s, e :: es =>
    have := Throughout.decidable P (step s e) es
    inferInstanceAs (Decidable (P s ∧ Throughout step P (step s e) es))

variable {step} {C D : σ → ε → Prop} {P I : σ → Prop}

theorem exec_append (s : σ) (es fs : List ε) :
    exec step s (es ++ fs) = exec step (exec step s es) fs := by
  induction es generalizing s with
  | nil => rfl
  | cons e es ih => exact ih (step s e)

theorem exec_snoc (s : σ) (es : List ε) (e : ε) :
    exec step s (es ++ [e]) = step (exec step s es) e := exec_append s es [e]

variable {s : σ}

theorem exec_replicate {e : ε} (h : step s e = s) (k : Nat) :
    exec step s (List.replicate k e) = s := by
  induction k with
  | zero => rfl
  | succ k ih => rw [replicate_succ, exec, h, ih]

variable {es : List ε}

theorem along_append {fs : List ε} :
    Along step C s (es ++ fs) ↔ Along step C s es ∧ Along step C (exec step s es) fs := by
  induction es generalizing s with
  | nil => simp [Along, exec]
  | cons e es ih =>
    simp only [cons_append, Along, exec, ih]
    exact and_assoc.symm

theorem along_of_forall (h : ∀ e ∈ es, ∀ s, C s e) : Along step C s es := by
  induction es generalizing s with
  | nil => exact trivial
  | cons e es ih =>
    exact ⟨h e mem_cons_self s, ih fun f hf => h f (mem_cons_of_mem e hf)⟩

theorem Along.and (hC : Along step C s es) (hD : Along step D s es) :
    Along step (fun s e => C s e ∧ D s e) s es := by
  induction es generalizing s with
  | nil => exact trivial
  | cons e es ih => exact ⟨⟨hC.1, hD.1⟩, ih hC.2 hD.2⟩

theorem Throughout.start (h : Throughout step P s es) : P s := by
  cases es with
  | nil => exact h
  | cons e es => exact h.1

theorem Throughout.last (h : Throughout step P s es) : P (exec step s es) := by
  induction es generalizing s with
  | nil => exact h
  | cons e es ih => exact ih h.2

/-- What every step keeps holds throughout a run. -/
theorem throughout_of_invariant (hstep : ∀ s e, I s → C s e → I (step s e)) (h : I s)
    (hrun : Along step C s es) : Throughout step I s es := by
  induction es generalizing s with
  | nil => exact h
  | cons e es ih => exact ⟨h, ih (hstep s e h hrun.1) hrun.2⟩

theorem Throughout.mono (hPI : ∀ s, P s → I s)
    (h : Throughout step P s es) : Throughout step I s es := by
  induction es generalizing s with
  | nil => exact hPI s h
  | cons e es ih => exact ⟨hPI s h.1, ih h.2⟩

theorem Throughout.along (h : Throughout step P s es) :
    Along step (fun s e => P s ∧ P (step s e)) s es := by
  induction es generalizing s with
  | nil => exact trivial
  | cons e es ih => exact ⟨⟨h.1, h.2.start⟩, ih h.2⟩

theorem along_of_invariant (hstep : ∀ s e, I s → C s e → I (step s e))
    (hD : ∀ s e, I s → C s e → D s e) (h : I s) (hrun : Along step C s es) : Along step D s es := by
  induction es generalizing s with
  | nil => exact trivial
  | cons e es ih => exact ⟨hD s e h hrun.1, ih (hstep s e h hrun.1) hrun.2⟩

theorem exec_of_invariant (hstep : ∀ s e, I s → C s e → I (step s e)) {s : σ} (h : I s)
    {es : List ε} (hrun : Along step C s es) : I (exec step s es) :=
  (throughout_of_invariant hstep h hrun).last

theorem throughout_iff_along_of_invariant (hI : ∀ s e, I s → I (step s e))
    (hstep : ∀ s e, I s → P s → (P (step s e) ↔ C s e)) (hs : I s) (h : P s) :
    Throughout step P s es ↔ Along step C s es := by
  induction es generalizing s with
  | nil => exact iff_of_true h trivial
  | cons e es ih =>
    constructor
    · intro hrun
      have hnext := hrun.2.start
      exact ⟨(hstep s e hs h).mp hnext, (ih (hI s e hs) hnext).mp hrun.2⟩
    · intro hrun
      exact ⟨h, (ih (hI s e hs) ((hstep s e hs h).mpr hrun.1)).mpr hrun.2⟩

theorem throughout_iff_along (hstep : ∀ s e, P s → (P (step s e) ↔ C s e)) (h : P s) :
    Throughout step P s es ↔ Along step C s es :=
  throughout_iff_along_of_invariant (I := fun _ => True) (fun _ _ _ => trivial)
    (fun s e _ => hstep s e) trivial h

theorem exists_step_of_exec (h₀ : ¬ P s) (h : P (exec step s es)) :
    ∃ fs e gs, es = fs ++ e :: gs ∧ ¬ P (exec step s fs) ∧ P (step (exec step s fs) e) := by
  induction es generalizing s with
  | nil => exact absurd h h₀
  | cons e es ih =>
    by_cases hnext : P (step s e)
    · exact ⟨[], e, es, rfl, h₀, hnext⟩
    · obtain ⟨fs, f, gs, rfl, hbefore, hafter⟩ := ih hnext h
      exact ⟨e :: fs, f, gs, rfl, hbefore, hafter⟩

end CtForge.Runs
