import CtForge.Lib.CText

/-!
# JSON texts

The scanner of `encoding/json`, byte by byte: a state and, innermost first, the
objects and arrays that are open. A text is valid if the scanner reads one value and
nothing else but blanks. The limit on the depth of nesting is left out.

* **`step_outside`**, **`step_inside`**: what a byte does to the depth, outside and
  inside of strings.
* **`stack_of_valid`**, **`nul_not_mem_of_valid`**: a valid text leaves nothing open and
  has no NUL.
-/

namespace CtForge.Json

open CLang List

/-- What is open: an object before a colon, an object after it, or an array. -/
inductive Frame where
  | key
  | value
  | elem
  deriving DecidableEq, Repr

inductive Word where
  | yes
  | no
  | null
  deriving DecidableEq, Repr

def Word.text : Word → Bytes
  | .yes => lit "true"
  | .no => lit "false"
  | .null => lit "null"

inductive State where
  | beginValue
  | beginValueOrEmpty
  | beginString
  | beginStringOrEmpty
  | endValue
  | endTop
  | inString
  | inStringEsc
  | inStringCode (left : Nat)
  | neg
  | int
  | zero
  | dot
  | frac
  | exp
  | expSign
  | expDigits
  | literal (w : Word) (read : Nat)
  | error
  deriving DecidableEq, Repr

structure Scanner where
  state : State
  stack : List Frame
  deriving DecidableEq, Repr

def isBlank (c : UInt8) : Bool := c == 32 || c == 9 || c == 13 || c == 10

def isHex (c : UInt8) : Bool := isDigit c || (97 ≤ c && c ≤ 102) || (65 ≤ c && c ≤ 70)

def commaSep : List Bytes → Bytes
  | [] => []
  | s :: rest => s ++ rest.flatMap (44 :: ·)

namespace Scanner

def fail (stack : List Frame) : Scanner := ⟨.error, stack⟩

def pop (stack : List Frame) : Scanner := ⟨if stack.isEmpty then .endTop else .endValue, stack⟩

def afterValue (stack : List Frame) (c : UInt8) : Scanner :=
  match stack with
  | [] => if isBlank c then ⟨.endTop, []⟩ else fail []
  | f :: rest =>
    if isBlank c then ⟨.endValue, f :: rest⟩
    else match f with
      | .key => if c == 58 then ⟨.beginValue, .value :: rest⟩ else fail (f :: rest)
      | .value =>
        if c == 44 then ⟨.beginString, .key :: rest⟩
        else if c == 125 then pop rest
        else fail (f :: rest)
      | .elem =>
        if c == 44 then ⟨.beginValue, .elem :: rest⟩
        else if c == 93 then pop rest
        else fail (f :: rest)

def firstOfValue (state : State) (stack : List Frame) (c : UInt8) : Scanner :=
  if isBlank c then ⟨state, stack⟩
  else if c == 123 then ⟨.beginStringOrEmpty, .key :: stack⟩
  else if c == 91 then ⟨.beginValueOrEmpty, .elem :: stack⟩
  else if c == 34 then ⟨.inString, stack⟩
  else if c == 45 then ⟨.neg, stack⟩
  else if c == 48 then ⟨.zero, stack⟩
  else if c == 116 then ⟨.literal .yes 1, stack⟩
  else if c == 102 then ⟨.literal .no 1, stack⟩
  else if c == 110 then ⟨.literal .null 1, stack⟩
  else if isDigit c then ⟨.int, stack⟩
  else fail stack

def firstOfString (state : State) (stack : List Frame) (c : UInt8) : Scanner :=
  if isBlank c then ⟨state, stack⟩
  else if c == 34 then ⟨.inString, stack⟩
  else fail stack

def afterInt (stack : List Frame) (c : UInt8) : Scanner :=
  if c == 46 then ⟨.dot, stack⟩
  else if c == 101 || c == 69 then ⟨.exp, stack⟩
  else afterValue stack c

def step (sc : Scanner) (c : UInt8) : Scanner :=
  match sc.state with
  | .beginValue => firstOfValue .beginValue sc.stack c
  | .beginValueOrEmpty =>
    if c == 93 then afterValue sc.stack c else firstOfValue .beginValueOrEmpty sc.stack c
  | .beginString => firstOfString .beginString sc.stack c
  | .beginStringOrEmpty =>
    if c == 125 then afterValue (.value :: sc.stack.drop 1) c
    else firstOfString .beginStringOrEmpty sc.stack c
  | .endValue => afterValue sc.stack c
  | .endTop => if isBlank c then sc else fail sc.stack
  | .inString =>
    if c == 34 then ⟨.endValue, sc.stack⟩
    else if c == 92 then ⟨.inStringEsc, sc.stack⟩
    else if c < 32 then fail sc.stack
    else sc
  | .inStringEsc =>
    if [98, 102, 110, 114, 116, 92, 47, 34].elem c then ⟨.inString, sc.stack⟩
    else if c == 117 then ⟨.inStringCode 3, sc.stack⟩
    else fail sc.stack
  | .inStringCode left =>
    if isHex c then ⟨if left == 0 then .inString else .inStringCode (left - 1), sc.stack⟩
    else fail sc.stack
  | .neg =>
    if c == 48 then ⟨.zero, sc.stack⟩
    else if isDigit c then ⟨.int, sc.stack⟩
    else fail sc.stack
  | .int => if isDigit c then sc else afterInt sc.stack c
  | .zero => afterInt sc.stack c
  | .dot => if isDigit c then ⟨.frac, sc.stack⟩ else fail sc.stack
  | .frac =>
    if isDigit c then sc
    else if c == 101 || c == 69 then ⟨.exp, sc.stack⟩
    else afterValue sc.stack c
  | .exp =>
    if c == 43 || c == 45 then ⟨.expSign, sc.stack⟩
    else if isDigit c then ⟨.expDigits, sc.stack⟩
    else fail sc.stack
  | .expSign => if isDigit c then ⟨.expDigits, sc.stack⟩ else fail sc.stack
  | .expDigits => if isDigit c then sc else afterValue sc.stack c
  | .literal w read =>
    if w.text[read]? == some c then
      ⟨if read + 1 == w.text.length then .endValue else .literal w (read + 1), sc.stack⟩
    else fail sc.stack
  | .error => sc

def run (sc : Scanner) (s : Bytes) : Scanner := s.foldl step sc

theorem run_append (sc : Scanner) (s t : Bytes) : sc.run (s ++ t) = (sc.run s).run t :=
  foldl_append

theorem run_cons (sc : Scanner) (c : UInt8) (s : Bytes) : sc.run (c :: s) = (sc.step c).run s := rfl

def start : Scanner := ⟨.beginValue, []⟩

end Scanner

def valid (s : Bytes) : Bool := ((Scanner.start.run s).step 32).state == .endTop

/-! ## The depth of nesting -/

def State.quoted : State → Bool
  | .inString | .inStringEsc | .inStringCode _ => true
  | _ => false

def depthAfter (c : UInt8) (depth : Nat) : Nat :=
  if c == 123 || c == 91 then depth + 1
  else if c == 125 || c == 93 then depth - 1
  else depth

/-- What a byte outside of strings can do, where `depth` was the depth before it. -/
structure Outside (depth : Nat) (c : UInt8) (sc : Scanner) : Prop where
  depth : sc.stack.length = depthAfter c depth
  quoted : sc.state.quoted = (c == 34)
  not_esc : sc.state ≠ .inStringEsc
  no_backslash : c ≠ 92
  top : sc.stack = [] → c == 125 || c == 93 → sc.state = .endTop

namespace Outside

variable {c : UInt8} {stack : List Frame} {state : State}

theorem same (hstate : state.quoted = false) (hc : [34, 91, 92, 93, 123, 125].elem c = false) :
    Outside stack.length c ⟨state, stack⟩ := by
  simp only [elem_eq_mem, mem_cons, not_mem_nil, or_false, not_or,
    decide_eq_false_iff_not] at hc
  refine ⟨?_, ?_, ?_, hc.2.2.1, ?_⟩
  · simp [depthAfter, hc]
  · simp [hstate, hc]
  · rintro rfl
    cases hstate
  · simp [hc]

theorem blank (hstate : state.quoted = false) (hc : isBlank c = true) :
    Outside stack.length c ⟨state, stack⟩ := by
  refine same hstate ?_
  revert hc
  exact forall_byte (p := fun c => isBlank c = true → [34, 91, 92, 93, 123, 125].elem c = false)
    (by decide +kernel) c

theorem digit (hstate : state.quoted = false) (hc : isDigit c = true) :
    Outside stack.length c ⟨state, stack⟩ := by
  refine same hstate ?_
  revert hc
  exact forall_byte (p := fun c => isDigit c = true → [34, 91, 92, 93, 123, 125].elem c = false)
    (by decide +kernel) c

theorem byte (hstate : state.quoted = false) {depth : Nat} (hdepth : stack.length = depth)
    {d : UInt8} (hc : (c == d) = true) (hd : [34, 91, 92, 93, 123, 125].elem d = false) :
    Outside depth c ⟨state, stack⟩ := by
  rw [beq_iff_eq.mp hc, ← hdepth]
  exact same hstate hd

theorem open_string (hc : (c == 34) = true) : Outside stack.length c ⟨.inString, stack⟩ := by
  rw [beq_iff_eq.mp hc]
  exact ⟨rfl, rfl, by simp, by decide, by simp⟩

theorem closing {f : Frame} (hc : c = 125 ∨ c = 93) :
    Outside (f :: stack).length c (Scanner.pop stack) := by
  refine ⟨?_, ?_, ?_, ?_, ?_⟩
  · rcases hc with rfl | rfl <;> rfl
  · rcases hc with rfl | rfl <;> cases stack <;> rfl
  · cases stack <;> simp [Scanner.pop]
  · rcases hc with rfl | rfl <;> decide
  · intro hnil
    have : stack = [] := hnil
    simp [Scanner.pop, this]

theorem ite {p : Prop} [Decidable p] {depth : Nat} {a b : Scanner}
    (h : (if p then a else b).state ≠ .error) (ha : p → a.state ≠ .error → Outside depth c a)
    (hb : ¬ p → b.state ≠ .error → Outside depth c b) : Outside depth c (if p then a else b) := by
  by_cases hp : p
  · rw [if_pos hp] at h ⊢
    exact ha hp h
  · rw [if_neg hp] at h ⊢
    exact hb hp h

end Outside

theorem Word.text_letters (w : Word) {c : UInt8} (h : c ∈ w.text) :
    [34, 91, 92, 93, 123, 125].elem c = false := by
  revert c
  cases w <;> decide +kernel

namespace Scanner

variable {c : UInt8} {stack : List Frame}

/-- What a byte does behind a value, where a comma or a bracket follows. -/
theorem afterValue_outside (h : (afterValue stack c).state ≠ .error) :
    Outside stack.length c (afterValue stack c) := by
  cases stack with
  | nil =>
    unfold afterValue at h ⊢
    dsimp only at h ⊢
    split_ifs at h ⊢ with hblank
    · exact .blank rfl hblank
    · exact absurd rfl h
  | cons f rest =>
    unfold afterValue at h ⊢
    dsimp only at h ⊢
    by_cases hblank : isBlank c = true
    · rw [if_pos hblank]
      exact .blank rfl hblank
    · rw [if_neg hblank] at h ⊢
      cases f with
      | key =>
        dsimp only at h ⊢
        split_ifs at h ⊢ with hcolon
        · exact .byte rfl rfl hcolon (by decide)
        · exact absurd rfl h
      | value =>
        dsimp only at h ⊢
        split_ifs at h ⊢ with hcomma hclose
        · exact .byte rfl rfl hcomma (by decide)
        · exact .closing (.inl (beq_iff_eq.mp hclose))
        · exact absurd rfl h
      | elem =>
        dsimp only at h ⊢
        split_ifs at h ⊢ with hcomma hclose
        · exact .byte rfl rfl hcomma (by decide)
        · exact .closing (.inr (beq_iff_eq.mp hclose))
        · exact absurd rfl h

variable {state : State}

theorem firstOfValue_outside (hstate : state.quoted = false)
    (h : (firstOfValue state stack c).state ≠ .error) :
    Outside stack.length c (firstOfValue state stack c) := by
  unfold firstOfValue at h ⊢
  refine .ite h (fun hblank _ => .blank hstate hblank) fun _ h => ?_
  refine .ite h ?_ fun _ h => .ite h ?_ fun _ h => ?_
  · intro hobj _
    rw [beq_iff_eq.mp hobj]
    exact ⟨rfl, rfl, by simp, by decide, by simp⟩
  · intro harr _
    rw [beq_iff_eq.mp harr]
    exact ⟨rfl, rfl, by simp, by decide, by simp⟩
  refine .ite h (fun hstr _ => .open_string hstr) fun _ h => ?_
  refine .ite h (fun hneg _ => .byte rfl rfl hneg (by decide)) fun _ h => ?_
  refine .ite h (fun hzero _ => .byte rfl rfl hzero (by decide)) fun _ h => ?_
  refine .ite h (fun ht _ => .byte rfl rfl ht (by decide)) fun _ h => ?_
  refine .ite h (fun hf _ => .byte rfl rfl hf (by decide)) fun _ h => ?_
  refine .ite h (fun hn _ => .byte rfl rfl hn (by decide)) fun _ h => ?_
  exact .ite h (fun hdigit _ => .digit rfl hdigit) fun _ h => absurd rfl h

theorem firstOfString_outside (hstate : state.quoted = false)
    (h : (firstOfString state stack c).state ≠ .error) :
    Outside stack.length c (firstOfString state stack c) := by
  unfold firstOfString at h ⊢
  split_ifs at h ⊢ with hblank hstr
  · exact .blank hstate hblank
  · exact .open_string hstr
  · exact absurd rfl h

theorem afterInt_outside (h : (afterInt stack c).state ≠ .error) :
    Outside stack.length c (afterInt stack c) := by
  unfold afterInt at h ⊢
  split_ifs at h ⊢ with hdot hexp
  · exact .byte rfl rfl hdot (by decide)
  · rcases Bool.or_eq_true_iff.mp hexp with hexp | hexp
    · exact .byte rfl rfl hexp (by decide)
    · exact .byte rfl rfl hexp (by decide)
  · exact afterValue_outside h

variable {sc : Scanner}

/-- What a byte does outside of strings: brackets change the depth by one, and nothing else does. -/
theorem step_outside (hsc : sc.state.quoted = false)
    (h : (sc.step c).state ≠ .error) : Outside sc.stack.length c (sc.step c) := by
  obtain ⟨state, stack⟩ := sc
  cases state with
  | beginValue => exact firstOfValue_outside rfl h
  | beginValueOrEmpty =>
    simp only [step] at h ⊢
    split_ifs at h ⊢
    · exact afterValue_outside h
    · exact firstOfValue_outside rfl h
  | beginString => exact firstOfString_outside rfl h
  | beginStringOrEmpty =>
    simp only [step] at h ⊢
    split_ifs at h ⊢ with hclose
    · cases stack with
      | nil =>
        rw [beq_iff_eq.mp hclose]
        exact ⟨rfl, rfl, by simp [afterValue, isBlank, pop], by decide, fun _ _ => rfl⟩
      | cons f rest => exact (afterValue_outside h : Outside (Frame.value :: rest).length c _)
    · exact firstOfString_outside rfl h
  | endValue => exact afterValue_outside h
  | endTop =>
    simp only [step] at h ⊢
    split_ifs at h ⊢ with hblank
    · exact .blank rfl hblank
    · exact absurd rfl h
  | inString | inStringEsc | inStringCode left => cases hsc
  | neg =>
    simp only [step] at h ⊢
    split_ifs at h ⊢ with hzero hdigit
    · exact .byte rfl rfl hzero (by decide)
    · exact .digit rfl hdigit
    · exact absurd rfl h
  | int =>
    simp only [step] at h ⊢
    split_ifs at h ⊢ with hdigit
    · exact .digit rfl hdigit
    · exact afterInt_outside h
  | zero => exact afterInt_outside h
  | dot | expSign =>
    simp only [step] at h ⊢
    split_ifs at h ⊢ with hdigit
    · exact .digit rfl hdigit
    · exact absurd rfl h
  | frac =>
    simp only [step] at h ⊢
    split_ifs at h ⊢ with hdigit hexp
    · exact .digit rfl hdigit
    · rcases Bool.or_eq_true_iff.mp hexp with hexp | hexp
      · exact .byte rfl rfl hexp (by decide)
      · exact .byte rfl rfl hexp (by decide)
    · exact afterValue_outside h
  | exp =>
    simp only [step] at h ⊢
    split_ifs at h ⊢ with hsign hdigit
    · rcases Bool.or_eq_true_iff.mp hsign with hsign | hsign
      · exact .byte rfl rfl hsign (by decide)
      · exact .byte rfl rfl hsign (by decide)
    · exact .digit rfl hdigit
    · exact absurd rfl h
  | expDigits =>
    simp only [step] at h ⊢
    split_ifs at h ⊢ with hdigit
    · exact .digit rfl hdigit
    · exact afterValue_outside h
  | literal w read =>
    simp only [step] at h ⊢
    split_ifs at h ⊢ with hread hend
    · exact .same rfl (w.text_letters (mem_of_getElem? (beq_iff_eq.mp hread)))
    · exact .same rfl (w.text_letters (mem_of_getElem? (beq_iff_eq.mp hread)))
    · exact absurd rfl h
  | error => exact absurd rfl h

/-- Inside of a string the stack stays, and the string ends with a quote that is not escaped. -/
theorem step_inside (hsc : sc.state.quoted = true) (h : (sc.step c).state ≠ .error) :
    (sc.step c).stack = sc.stack ∧
      (sc.step c).state.quoted = (sc.state == .inStringEsc || c != 34) ∧
      ((sc.step c).state = .inStringEsc ↔ sc.state ≠ .inStringEsc ∧ c = 92) := by
  obtain ⟨state, stack⟩ := sc
  cases state with
  | inString =>
    simp only [step] at h ⊢
    split_ifs at h ⊢ with hquote hback hlow
    · simp [beq_iff_eq.mp hquote, State.quoted]
    · simp [beq_iff_eq.mp hback, State.quoted]
    · exact absurd rfl h
    · simp only [beq_iff_eq] at hquote hback
      simp [State.quoted, hquote, hback]
  | inStringEsc =>
    simp only [step] at h ⊢
    split_ifs at h ⊢
    · simp [State.quoted]
    · simp [State.quoted]
    · exact absurd rfl h
  | inStringCode left =>
    simp only [step] at h ⊢
    split_ifs at h ⊢ with hhex hleft
    all_goals first
      | exact absurd rfl h
      | have hne : c ≠ 34 ∧ c ≠ 92 := forall_byte
          (p := fun c => isHex c = true → c ≠ 34 ∧ c ≠ 92) (by decide +kernel) c hhex
        simp [State.quoted, hne]
  | _ => cases hsc

theorem run_error {stack : List Frame} (s : Bytes) : run ⟨.error, stack⟩ s = ⟨.error, stack⟩ := by
  induction s with
  | nil => rfl
  | cons c s ih => exact ih

variable {s : Bytes}

theorem blank_of_run_endTop (h : (run ⟨.endTop, stack⟩ s).state ≠ .error) :
    ∀ c ∈ s, isBlank c = true := by
  induction s with
  | nil => simp
  | cons c s ih =>
    rw [run_cons] at h
    simp only [step] at h
    split_ifs at h with hblank
    · intro d hd
      rcases mem_cons.mp hd with rfl | hd
      · exact hblank
      · exact ih h d hd
    · rw [fail, run_error] at h
      exact absurd rfl h

end Scanner

theorem Scanner.step_nul (sc : Scanner) : (sc.step 0).state = .error := by
  have hafter : ∀ stack, (Scanner.afterValue stack 0).state = .error := by
    intro stack
    rcases stack with _ | ⟨f, rest⟩
    · rfl
    · cases f <;> rfl
  obtain ⟨state, stack⟩ := sc
  cases state with
  | endValue | int | zero | frac | expDigits => exact hafter stack
  | literal w read =>
    simp only [Scanner.step]
    split_ifs with hread
    · exact absurd (mem_of_getElem? (beq_iff_eq.mp hread)) (by cases w <;> decide)
    · exact absurd (mem_of_getElem? (beq_iff_eq.mp hread)) (by cases w <;> decide)
    · rfl
  | _ => rfl

def State.plain : State → Bool
  | .endTop | .beginStringOrEmpty => false
  | _ => true

/-- A property of scanners that only the end of the text and the start of an object can hurt. -/
structure Kept (p : Scanner → Prop) : Prop where
  other : ∀ {sc : Scanner}, sc.state.plain = true → p sc
  top : p ⟨.endTop, []⟩
  opened : ∀ stack, p ⟨.beginStringOrEmpty, .key :: stack⟩

namespace Kept

variable {p : Scanner → Prop}

theorem ite {q : Prop} [Decidable q] {a b : Scanner} (ha : p a) (hb : p b) :
    p (if q then a else b) := by
  split
  · exact ha
  · exact hb

variable (hp : Kept p) (stack : List Frame) (c : UInt8)

include hp

theorem pop : p (Scanner.pop stack) := by
  cases stack with
  | nil => exact hp.top
  | cons f rest => exact hp.other rfl

theorem afterValue : p (Scanner.afterValue stack c) := by
  cases stack with
  | nil => exact ite hp.top (hp.other rfl)
  | cons f rest =>
    refine ite (hp.other rfl) ?_
    cases f with
    | key => exact ite (hp.other rfl) (hp.other rfl)
    | value | elem => exact ite (hp.other rfl) (ite (hp.pop rest) (hp.other rfl))

theorem afterInt : p (Scanner.afterInt stack c) :=
  ite (hp.other rfl) (ite (hp.other rfl) (hp.afterValue stack c))

variable {stack}

theorem firstOfValue (h : p ⟨state, stack⟩) : p (Scanner.firstOfValue state stack c) := by
  refine ite h (ite (hp.opened stack) (ite ?_ (ite ?_ (ite ?_ (ite ?_ (ite ?_ (ite ?_ (ite ?_
    (ite ?_ ?_)))))))))
  all_goals exact hp.other rfl

theorem firstOfString (h : p ⟨state, stack⟩) : p (Scanner.firstOfString state stack c) :=
  ite h (ite (hp.other rfl) (hp.other rfl))

theorem step (h : p sc) : p (sc.step c) := by
  obtain ⟨state, stack⟩ := sc
  cases state with
  | beginValue => exact hp.firstOfValue c h
  | beginValueOrEmpty => exact ite (hp.afterValue stack c) (hp.firstOfValue c h)
  | beginString => exact hp.firstOfString c h
  | beginStringOrEmpty => exact ite (hp.afterValue _ c) (hp.firstOfString c h)
  | endValue => exact hp.afterValue stack c
  | endTop => exact ite h (hp.other rfl)
  | int => exact ite h (hp.afterInt stack c)
  | zero => exact hp.afterInt stack c
  | frac => exact ite h (ite (hp.other rfl) (hp.afterValue stack c))
  | expDigits => exact ite h (hp.afterValue stack c)
  | inString => exact ite (hp.other rfl) (ite (hp.other rfl) (ite (hp.other rfl) h))
  | inStringEsc | neg | exp => exact ite (hp.other rfl) (ite (hp.other rfl) (hp.other rfl))
  | inStringCode left | literal w read =>
    refine ite (hp.other ?_) (hp.other rfl)
    dsimp only
    split <;> rfl
  | dot | expSign => exact ite (hp.other rfl) (hp.other rfl)
  | error => exact h

theorem run (h : p sc) (s : Bytes) : p (sc.run s) := by
  induction s generalizing sc with
  | nil => exact h
  | cons c s ih => exact ih (hp.step c h)

end Kept

def Settled (sc : Scanner) : Prop := sc.state = .endTop → sc.stack = []

theorem kept_settled : Kept Settled where
  other h hend := by rw [hend] at h; cases h
  top _ := rfl
  opened _ h := by cases h

theorem stack_of_step_blank (hsc : Settled sc)
    (h : (sc.step 32).state = .endTop) : sc.stack = [] := by
  have hnil : ∀ stack, (Scanner.afterValue stack 32).state = .endTop → stack = [] := by
    intro stack hstack
    cases stack with
    | nil => rfl
    | cons f rest => cases hstack
  obtain ⟨state, stack⟩ := sc
  cases state with
  | endTop => exact hsc rfl
  | endValue | int | zero | frac | expDigits => exact hnil stack h
  | literal w read =>
    simp only [Scanner.step] at h
    split_ifs at h
    all_goals cases h
  | _ => cases h

/-- A valid text leaves nothing open. -/
theorem stack_of_valid (h : valid s = true) : (Scanner.start.run s).stack = [] :=
  stack_of_step_blank (kept_settled.run (kept_settled.other rfl) s) (beq_iff_eq.mp h)

theorem not_error_of_valid (h : valid s = true) : (Scanner.start.run s).state ≠ .error := by
  intro herr
  have hstep : ((Scanner.start.run s).step 32) = Scanner.start.run s := by
    simp [Scanner.step, herr]
  rw [valid, hstep, herr] at h
  cases h

theorem nul_not_mem_of_valid (h : valid s = true) : 0 ∉ s := by
  have hrun : ∀ (sc : Scanner) (s : Bytes), (sc.run s).state ≠ .error → 0 ∉ s := by
    intro sc s
    induction s generalizing sc with
    | nil => simp
    | cons c s ih =>
      intro hne hmem
      rw [Scanner.run_cons] at hne
      rcases mem_cons.mp hmem with rfl | hmem
      · have hsc : sc.step 0 = ⟨.error, (sc.step 0).stack⟩ := by rw [← sc.step_nul]
        rw [hsc, Scanner.run_error] at hne
        exact hne rfl
      · exact ih _ hne hmem
  exact hrun _ s (not_error_of_valid h)

end CtForge.Json
