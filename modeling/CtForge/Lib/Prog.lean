import CtForge.Lib.CLang

/-!
# Programs over a global state

A C program that works on global state and may be stopped by a fault. What it
did before the fault stays done, so the state is returned in both cases.
`Triple P p Q E` is the rule of pre- and postconditions: started where `P`
holds, `p` returns in `Q`, or is stopped where `E` holds.
-/

namespace CtForge.CLang

/-- A program over the state `σ`. -/
structure Prog (σ α : Type) where
  run : σ → Except Fault α × σ

namespace Prog

variable {σ α β : Type}

/-- Go on with `f`, unless the program was stopped. -/
def andThen (f : α → Prog σ β) : Except Fault α × σ → Except Fault β × σ
  | (.ok a, s) => (f a).run s
  | (.error e, s) => (.error e, s)

instance : Monad (Prog σ) where
  pure a := ⟨fun s => (.ok a, s)⟩
  bind p f := ⟨fun s => andThen f (p.run s)⟩

def get : Prog σ σ := ⟨fun s => (.ok s, s)⟩

def modify (f : σ → σ) : Prog σ Unit := ⟨fun s => (.ok (), f s)⟩

def call (x : Except Fault α) : Prog σ α := ⟨fun s => (x, s)⟩

@[simp] theorem run_pure (a : α) (s : σ) : (pure a : Prog σ α).run s = (.ok a, s) := rfl

@[simp] theorem run_get (s : σ) : (get : Prog σ σ).run s = (.ok s, s) := rfl

@[simp] theorem run_modify (f : σ → σ) (s : σ) : (modify f).run s = (.ok (), f s) := rfl

@[simp] theorem run_call (x : Except Fault α) (s : σ) : (call x : Prog σ α).run s = (x, s) := rfl

@[simp] theorem run_bind (p : Prog σ α) (f : α → Prog σ β) (s : σ) :
    (p >>= f).run s = andThen f (p.run s) := rfl

@[simp] theorem andThen_ok (f : α → Prog σ β) (a : α) (s : σ) :
    andThen f (.ok a, s) = (f a).run s := rfl

@[simp] theorem andThen_error (f : α → Prog σ β) (e : Fault) (s : σ) :
    andThen f (.error e, s) = (.error e, s) := rfl

/-- How a run ends: it returns in `Q`, or is stopped in `E`. -/
def Ends (Q : α → σ → Prop) (E : σ → Prop) : Except Fault α × σ → Prop
  | (.ok a, s) => Q a s
  | (.error _, s) => E s

/-- Started where `P` holds, `p` returns in `Q`, or is stopped in `E`. -/
def Triple (P : σ → Prop) (p : Prog σ α) (Q : α → σ → Prop) (E : σ → Prop) : Prop :=
  ∀ s, P s → Ends Q E (p.run s)

variable {P P' : σ → Prop} {Q Q' : α → σ → Prop} {E : σ → Prop}

theorem triple_pure {a : α} (h : ∀ s, P s → Q a s) : Triple P (pure a) Q E :=
  fun s hs => h s hs

/-- The rule of sequence, for outcomes. -/
theorem Ends.andThen {r : Except Fault α × σ} {f : α → Prog σ β} {R : β → σ → Prop}
    (h : Ends Q E r) (hf : ∀ a s, Q a s → Ends R E ((f a).run s)) :
    Ends R E (Prog.andThen f r) := by
  obtain ⟨e | a, s⟩ := r
  · exact h
  · exact hf a s h

theorem triple_bind {p : Prog σ α} {f : α → Prog σ β} {R : β → σ → Prop}
    (hp : Triple P p Q E) (hf : ∀ a, Triple (Q a) (f a) R E) : Triple P (p >>= f) R E :=
  fun s hs => (hp s hs).andThen hf

theorem triple_modify {f : σ → σ} {R : Unit → σ → Prop} (h : ∀ s, P s → R () (f s)) :
    Triple P (modify f) R E := fun s hs => h s hs

theorem triple_get_bind {f : σ → Prog σ α} (h : ∀ s, Triple P (f s) Q E) :
    Triple P (get >>= f) Q E := fun s hs => h s s hs

end Prog

end CtForge.CLang
