import CtForge.Lib.Json

/-!
# JSON texts, put together

What the scanner reads as one value stays one value inside of an object or an array, so
a text is valid if its parts are.

* **`valid_string`**, **`valid_decimalInt`**, **`valid_object`**, **`valid_array`**: the
  texts of strings, numbers, objects and arrays.
* **`Body`**: what may stand between two quotes.
-/

namespace CtForge.Json

open CLang List Scanner

/-! ## Above a stack -/

def State.over (base : List Frame) : State → State
  | .endTop => if base.isEmpty then .endTop else .endValue
  | s => s

def Scanner.over (base : List Frame) (sc : Scanner) : Scanner :=
  ⟨sc.state.over base, sc.stack ++ base⟩

namespace Scanner

variable {base : List Frame} {c : UInt8} {state : State}

theorem over_mk (h : state ≠ .endTop) (stack : List Frame) :
    Scanner.over base ⟨state, stack⟩ = ⟨state, stack ++ base⟩ := by
  cases state with
  | endTop => exact absurd rfl h
  | _ => rfl

theorem pop_over (rest : List Frame) : pop (rest ++ base) = (pop rest).over base := by
  cases rest with
  | nil => cases base <;> rfl
  | cons f rest => rfl

theorem afterValue_blank (stack : List Frame) (hc : isBlank c = true) :
    afterValue stack c = pop stack := by
  cases stack with
  | nil | cons f rest => simp [afterValue, hc, pop]

variable {stack : List Frame}

theorem afterValue_over (h : (afterValue stack c).state ≠ .error) :
    afterValue (stack ++ base) c = (afterValue stack c).over base := by
  by_cases hblank : isBlank c = true
  · rw [afterValue_blank _ hblank, afterValue_blank _ hblank, pop_over]
  cases stack with
  | nil =>
    simp only [afterValue, if_neg hblank] at h
    exact absurd rfl h
  | cons f rest =>
    simp only [cons_append, afterValue, if_neg hblank] at h ⊢
    cases f with
    | key =>
      dsimp only at h ⊢
      split_ifs at h ⊢
      · rfl
      · exact absurd rfl h
    | value | elem =>
      dsimp only at h ⊢
      split_ifs at h ⊢
      · rfl
      · exact pop_over rest
      · exact absurd rfl h

theorem ite_over {p : Prop} [Decidable p] {a b a' b' : Scanner}
    (h : (if p then a else b).state ≠ .error) (ha : p → a.state ≠ .error → a' = a.over base)
    (hb : ¬ p → b.state ≠ .error → b' = b.over base) :
    (if p then a' else b') = (if p then a else b).over base := by
  by_cases hp : p
  · simp only [if_pos hp] at h ⊢
    exact ha hp h
  · simp only [if_neg hp] at h ⊢
    exact hb hp h

theorem firstOfValue_over (hstate : state ≠ .endTop)
    (h : (firstOfValue state stack c).state ≠ .error) :
    firstOfValue state (stack ++ base) c = (firstOfValue state stack c).over base := by
  refine ite_over h (fun _ _ => (over_mk hstate stack).symm) fun _ h => ?_
  refine ite_over h (fun _ _ => rfl) fun _ h => ite_over h (fun _ _ => rfl) fun _ h => ?_
  refine ite_over h (fun _ _ => rfl) fun _ h => ite_over h (fun _ _ => rfl) fun _ h => ?_
  refine ite_over h (fun _ _ => rfl) fun _ h => ite_over h (fun _ _ => rfl) fun _ h => ?_
  refine ite_over h (fun _ _ => rfl) fun _ h => ite_over h (fun _ _ => rfl) fun _ h => ?_
  exact ite_over h (fun _ _ => rfl) fun _ h => absurd rfl h

theorem firstOfString_over (hstate : state ≠ .endTop)
    (h : (firstOfString state stack c).state ≠ .error) :
    firstOfString state (stack ++ base) c = (firstOfString state stack c).over base := by
  refine ite_over h (fun _ _ => (over_mk hstate stack).symm) fun _ h => ?_
  exact ite_over h (fun _ _ => rfl) fun _ h => absurd rfl h

theorem afterInt_over (h : (afterInt stack c).state ≠ .error) :
    afterInt (stack ++ base) c = (afterInt stack c).over base := by
  refine ite_over h (fun _ _ => rfl) fun _ h => ?_
  exact ite_over h (fun _ _ => rfl) fun _ h => afterValue_over h

def Opened (sc : Scanner) : Prop := sc.state = .beginStringOrEmpty → sc.stack ≠ []

theorem kept_opened : Kept Opened where
  other h hstate := by rw [hstate] at h; cases h
  top h := by cases h
  opened _ _ := cons_ne_nil _ _

variable {sc : Scanner}

/-- One byte does above a stack what it does without it. -/
theorem step_over (hsettled : Settled sc) (hopened : Opened sc) (h : (sc.step c).state ≠ .error) :
    (sc.over base).step c = (sc.step c).over base := by
  obtain ⟨state, stack⟩ := sc
  cases state with
  | endTop =>
    obtain rfl : stack = [] := hsettled rfl
    by_cases hblank : isBlank c = true
    · have hstep : step ⟨.endTop, []⟩ c = ⟨.endTop, []⟩ := if_pos hblank
      rw [hstep]
      cases base with
      | nil => exact hstep
      | cons f rest => exact afterValue_blank (f :: rest) hblank
    · have hstep : step ⟨.endTop, []⟩ c = fail [] := if_neg hblank
      rw [hstep] at h
      exact absurd rfl h
  | beginValue => exact firstOfValue_over State.noConfusion h
  | beginValueOrEmpty =>
    exact ite_over h (fun _ h => afterValue_over h) fun _ h => firstOfValue_over State.noConfusion h
  | beginString => exact firstOfString_over State.noConfusion h
  | beginStringOrEmpty =>
    cases stack with
    | nil => exact absurd rfl (hopened rfl)
    | cons f rest =>
      refine ite_over h (fun _ h => ?_) fun _ h => firstOfString_over State.noConfusion h
      have hclosed : afterValue (.value :: rest ++ base) c =
        (afterValue (.value :: rest) c).over base :=
        afterValue_over h
      exact hclosed
  | endValue => exact afterValue_over h
  | inString =>
    refine ite_over h (fun _ _ => rfl) fun _ h => ite_over h (fun _ _ => rfl) fun _ h => ?_
    exact ite_over h (fun _ h => absurd rfl h) fun _ _ => rfl
  | inStringEsc | neg | exp =>
    refine ite_over h (fun _ _ => rfl) fun _ h => ite_over h (fun _ _ => rfl) fun _ h => ?_
    exact absurd rfl h
  | inStringCode left | literal w read =>
    refine ite_over h (fun _ _ => ?_) fun _ h => absurd rfl h
    refine (over_mk ?_ stack).symm
    split <;> exact State.noConfusion
  | int => exact ite_over h (fun _ _ => rfl) fun _ h => afterInt_over h
  | zero => exact afterInt_over h
  | dot | expSign => exact ite_over h (fun _ _ => rfl) fun _ h => absurd rfl h
  | frac =>
    refine ite_over h (fun _ _ => rfl) fun _ h => ite_over h (fun _ _ => rfl) fun _ h => ?_
    exact afterValue_over h
  | expDigits => exact ite_over h (fun _ _ => rfl) fun _ h => afterValue_over h
  | error => exact absurd rfl h

variable {s : Bytes}

/-- The scanner does the same above any stack. -/
theorem run_over (hsettled : Settled sc) (hopened : Opened sc)
    (h : (sc.run s).state ≠ .error) : (sc.over base).run s = (sc.run s).over base := by
  induction s generalizing sc with
  | nil => rfl
  | cons c s ih =>
    rw [run_cons] at h ⊢
    have hstep : (sc.step c).state ≠ .error := by
      intro herr
      have hsc : sc.step c = ⟨.error, (sc.step c).stack⟩ := by rw [← herr]
      rw [hsc, run_error] at h
      exact h rfl
    rw [step_over hsettled hopened hstep]
    exact ih (kept_settled.step c hsettled) (kept_opened.step c hopened) h

end Scanner

/-! ## Values -/

def isEnd (c : UInt8) : Bool := isBlank c || c == 44 || c == 93 || c == 125

/-- A value was read: what follows is taken as what comes after a value. -/
def Ready (stack : List Frame) (sc : Scanner) : Prop :=
  ∀ c, isEnd c = true → sc.step c = Scanner.afterValue stack c

theorem isEnd_no_number {c : UInt8} :
    isEnd c = true → isDigit c = false ∧ (c == 46) = false ∧ (c == 101 || c == 69) = false :=
  forall_byte (p := fun c => isEnd c = true →
    isDigit c = false ∧ (c == 46) = false ∧ (c == 101 || c == 69) = false) (by decide +kernel) c

theorem Ready.endValue (stack : List Frame) : Ready stack ⟨.endValue, stack⟩ := fun _ _ => rfl

theorem Ready.zero (stack : List Frame) : Ready stack ⟨.zero, stack⟩ := by
  intro c hc
  simp [Scanner.step, Scanner.afterInt, isEnd_no_number hc]

theorem Ready.int (stack : List Frame) : Ready stack ⟨.int, stack⟩ := by
  intro c hc
  simp [Scanner.step, Scanner.afterInt, isEnd_no_number hc]

theorem Ready.frac (stack : List Frame) : Ready stack ⟨.frac, stack⟩ := by
  intro c hc
  simp [Scanner.step, isEnd_no_number hc]

theorem Ready.expDigits (stack : List Frame) : Ready stack ⟨.expDigits, stack⟩ := by
  intro c hc
  simp [Scanner.step, isEnd_no_number hc]

theorem Ready.pop (stack : List Frame) : Ready stack (Scanner.pop stack) := by
  cases stack with
  | nil | cons f rest => exact fun _ _ => rfl

/-- Behind a valid value the scanner is ready for what follows. -/
theorem ready_of_valid {v : Bytes} (h : valid v = true) (stack : List Frame) :
    Ready stack (Scanner.run ⟨.beginValue, stack⟩ v) := by
  have hstack := stack_of_valid h
  have hover : Scanner.run ⟨.beginValue, stack⟩ v = (Scanner.start.run v).over stack :=
    run_over (kept_settled.other rfl) (kept_opened.other rfl) (not_error_of_valid h)
  rw [hover]
  rw [valid, beq_iff_eq] at h
  revert h hstack
  obtain ⟨state, inner⟩ := Scanner.start.run v
  rintro h (rfl : inner = [])
  cases state with
  | endTop => exact .pop stack
  | endValue => exact .endValue stack
  | int => exact .int stack
  | zero => exact .zero stack
  | frac => exact .frac stack
  | expDigits => exact .expDigits stack
  | literal w read =>
    simp only [Scanner.step] at h
    split_ifs at h
    all_goals cases h
  | _ => cases h

theorem valid_of_ready {v : Bytes} (h : Ready [] (Scanner.start.run v)) : valid v = true := by
  rw [valid, h 32 rfl]
  rfl

/-! ## Strings -/

def Body (s : Bytes) : Prop := Scanner.run ⟨.inString, []⟩ s = ⟨.inString, []⟩

instance (s : Bytes) : Decidable (Body s) :=
  inferInstanceAs (Decidable (Scanner.run ⟨.inString, []⟩ s = ⟨.inString, []⟩))

/-- What may stand between two quotes leaves the scanner inside of the string. -/
theorem Body.run (h : Body s) (stack : List Frame) :
    Scanner.run ⟨.inString, stack⟩ s = ⟨.inString, stack⟩ := by
  have hne : (Scanner.run ⟨.inString, []⟩ s).state ≠ .error := by
    rw [h]
    exact State.noConfusion
  have hover : (Scanner.over stack ⟨.inString, []⟩).run s =
      (Scanner.run ⟨.inString, []⟩ s).over stack :=
    run_over (kept_settled.other rfl) (kept_opened.other rfl) hne
  rw [h] at hover
  exact hover

theorem Body.nil : Body [] := rfl

theorem Body.append {t : Bytes} (hs : Body s) (ht : Body t) : Body (s ++ t) := by
  rw [Body, run_append, hs]
  exact ht

theorem Body.flatMap {α : Type} {f : α → Bytes} {s : List α} (h : ∀ c ∈ s, Body (f c)) :
    Body (s.flatMap f) := by
  induction s with
  | nil => exact .nil
  | cons c s ih =>
    rw [flatMap_cons]
    exact (h c mem_cons_self).append (ih fun d hd => h d (mem_cons_of_mem c hd))

def isPlain (c : UInt8) : Bool := 32 ≤ c && c != 34 && c != 92

theorem body_singleton {c : UInt8} : Body [c] ↔ isPlain c = true :=
  forall_byte (p := fun c => Body [c] ↔ isPlain c = true) (by decide +kernel) c

theorem body_of_plain (h : ∀ c ∈ s, isPlain c = true) : Body s := by
  induction s with
  | nil => exact .nil
  | cons c s ih =>
    have hs := ih fun d hd => h d (mem_cons_of_mem c hd)
    exact (body_singleton.mpr (h c mem_cons_self)).append hs

def string (body : Bytes) : Bytes := 34 :: body ++ [34]

variable {stack : List Frame} {sc : Scanner}

theorem run_string {body : Bytes} (h : Body body) (hsc : sc.step 34 = ⟨.inString, stack⟩) :
    sc.run (string body) = ⟨.endValue, stack⟩ := by
  rw [string, cons_append, run_cons, hsc, run_append, h.run]
  rfl

/-- A string is valid if its body is. -/
theorem valid_string {body : Bytes} (h : Body body) : valid (string body) = true :=
  valid_of_ready (run_string h (rfl : Scanner.start.step 34 = ⟨.inString, []⟩) ▸ .endValue [])

theorem run_done {state : State} (h : state = .endValue ∨ state = .endTop ∨ state = .error)
    (s : Bytes) : (Scanner.run ⟨state, []⟩ s).state ≠ .inString := by
  induction s generalizing state with
  | nil => rcases h with rfl | rfl | rfl <;> exact State.noConfusion
  | cons c s ih =>
    rw [run_cons]
    rcases h with rfl | rfl | rfl
    · simp only [Scanner.step, Scanner.afterValue, Scanner.fail]
      split
      · exact ih (.inr (.inl rfl))
      · exact ih (.inr (.inr rfl))
    · simp only [Scanner.step, Scanner.fail]
      split
      · exact ih (.inr (.inl rfl))
      · exact ih (.inr (.inr rfl))
    · exact ih (.inr (.inr rfl))

section Induction

variable {P : Bytes → Prop} (nil : P []) (plain : ∀ c s, isPlain c = true → P s → P (c :: s))
  (pair : ∀ c s, P s → P (92 :: c :: s))

include nil plain pair

/-- The induction over what stands between two quotes, with its escapes. -/
theorem quoted_induction (s : Bytes) :
    (∀ state, (state = .inString ∨ ∃ left, state = .inStringCode left) →
      (Scanner.run ⟨state, []⟩ s).state = .inString → P s) ∧
    ((Scanner.run ⟨.inStringEsc, []⟩ s).state = .inString → P (92 :: s)) := by
  induction s with
  | nil => exact ⟨fun _ _ _ => nil, fun h => by cases h⟩
  | cons c s ih =>
    obtain ⟨hinside, hescaped⟩ := ih
    refine ⟨fun state hstate h => ?_, fun h => ?_⟩
    · rw [run_cons] at h
      rcases hstate with rfl | ⟨left, rfl⟩
      · simp only [Scanner.step, Scanner.fail] at h
        split_ifs at h with hquote hback hlow
        · exact absurd h (run_done (.inl rfl) s)
        · rw [beq_iff_eq.mp hback]
          exact hescaped h
        · exact absurd h (run_done (.inr (.inr rfl)) s)
        · have hc : isPlain c = true := by
            simp only [beq_iff_eq] at hquote hback
            simp [isPlain, hquote, hback, UInt8.not_lt.mp hlow]
          exact plain c s hc (hinside _ (.inl rfl) h)
      · have hhex : isHex c = true → isPlain c = true :=
          forall_byte (p := fun c => isHex c = true → isPlain c = true) (by decide +kernel) c
        simp only [Scanner.step, Scanner.fail] at h
        split_ifs at h with hc hlast
        · exact plain c s (hhex hc) (hinside _ (.inl rfl) h)
        · exact plain c s (hhex hc) (hinside _ (.inr ⟨_, rfl⟩) h)
        · exact absurd h (run_done (.inr (.inr rfl)) s)
    · rw [run_cons] at h
      simp only [Scanner.step, Scanner.fail] at h
      split_ifs at h with hshort hcode
      · exact pair c s (hinside _ (.inl rfl) h)
      · exact pair c s (hinside _ (.inr ⟨_, rfl⟩) h)
      · exact absurd h (run_done (.inr (.inr rfl)) s)

theorem Body.induction (s : Bytes) (h : Body s) : P s :=
  (quoted_induction nil plain pair s).1 _ (.inl rfl) (congrArg Scanner.state h)

end Induction

/-! ## Objects and arrays -/

def member (m : String × Bytes) : Bytes := string (lit m.1) ++ 58 :: m.2

def object (members : List (String × Bytes)) : Bytes :=
  123 :: commaSep (members.map member) ++ [125]

def array (values : List Bytes) : Bytes := 91 :: commaSep values ++ [93]

theorem ready_member {m : String × Bytes} (hkey : Body (lit m.1)) (hvalue : valid m.2 = true)
    (hsc : sc.step 34 = ⟨.inString, .key :: stack⟩) :
    Ready (.value :: stack) (sc.run (member m)) := by
  rw [member, run_append, run_string hkey hsc, run_cons]
  exact ready_of_valid hvalue _

theorem ready_commas {parts : List Bytes}
    (hparts : ∀ p ∈ parts, Ready stack ((Scanner.afterValue stack 44).run p))
    (hsc : Ready stack sc) : Ready stack (sc.run (parts.flatMap (44 :: ·))) := by
  induction parts generalizing sc with
  | nil => exact hsc
  | cons p parts ih =>
    rw [flatMap_cons, cons_append, run_cons, hsc 44 rfl, run_append]
    exact ih (fun q hq => hparts q (mem_cons_of_mem p hq)) (hparts p mem_cons_self)

/-- An object is valid if its keys and values are. -/
theorem valid_object {members : List (String × Bytes)}
    (h : ∀ m ∈ members, Body (lit m.1) ∧ valid m.2 = true) : valid (object members) = true := by
  cases members with
  | nil => rfl
  | cons m rest =>
    have hm := h m mem_cons_self
    have hready : Ready [.value] (Scanner.run ⟨.beginStringOrEmpty, [.key]⟩
        (commaSep ((m :: rest).map member))) := by
      rw [map_cons, commaSep, run_append]
      refine ready_commas ?_ (ready_member hm.1 hm.2 rfl)
      intro p hp
      obtain ⟨n, hn, rfl⟩ := mem_map.mp hp
      have hn := h n (mem_cons_of_mem m hn)
      exact ready_member hn.1 hn.2 rfl
    refine valid_of_ready ?_
    rw [object, cons_append, run_cons, run_append]
    change Ready [] (Scanner.step (Scanner.run ⟨.beginStringOrEmpty, [.key]⟩ _) 125)
    rw [hready 125 rfl]
    exact .pop []

def keysLength : List String → Nat
  | [] => 0
  | k :: keys => k.length + 4 + keysLength keys

def valuesLength : List Bytes → Nat
  | [] => 0
  | v :: values => v.length + valuesLength values

theorem length_lit (s : String) : (lit s).length = s.length := by
  rw [lit, length_map, String.length_toList]

/-- How long an object is. -/
theorem length_object {members : List (String × Bytes)} (hne : members ≠ []) :
    (object members).length =
      keysLength (members.map Prod.fst) + valuesLength (members.map Prod.snd) + 1 := by
  have hmembers : ∀ members : List (String × Bytes),
      ((members.map member).flatMap (44 :: ·)).length =
        keysLength (members.map Prod.fst) + valuesLength (members.map Prod.snd) := by
    intro members
    induction members with
    | nil => rfl
    | cons m rest ih =>
      simp only [map_cons, flatMap_cons, length_append, length_cons, ih,
        keysLength, valuesLength, member, string, length_lit, length_nil]
      omega
  obtain ⟨m, rest, rfl⟩ := exists_cons_of_ne_nil hne
  have hall := hmembers (m :: rest)
  simp only [map_cons, flatMap_cons, length_append, length_cons] at hall
  simp only [object, commaSep, map_cons, length_append, length_cons, length_nil]
  omega

theorem length_object_le (members : List (String × Bytes)) : (object members).length ≤
    keysLength (members.map Prod.fst) + valuesLength (members.map Prod.snd) + 2 := by
  cases members with
  | nil => decide
  | cons m rest =>
    rw [length_object (cons_ne_nil m rest)]
    exact Nat.le_succ _

theorem length_string (body : Bytes) : (string body).length = body.length + 2 := by
  simp [string]

/-- A value at the beginning of an array is read as anywhere else. -/
theorem run_beginValueOrEmpty {v : Bytes} (h : valid v = true) (stack : List Frame) :
    Scanner.run ⟨.beginValueOrEmpty, stack⟩ v = Scanner.run ⟨.beginValue, stack⟩ v := by
  have hne : ∀ w : Bytes, (Scanner.run ⟨.beginValue, []⟩ w).state ≠ .error →
      ((Scanner.run ⟨.beginValue, []⟩ w).state ≠ .beginValue) →
      Scanner.run ⟨.beginValueOrEmpty, stack⟩ w = Scanner.run ⟨.beginValue, stack⟩ w := by
    intro w
    induction w with
    | nil => exact fun _ hbegin => absurd rfl hbegin
    | cons c w ih =>
      intro hne hbegin
      rw [run_cons] at hne hbegin ⊢
      by_cases hblank : isBlank c = true
      · have hbegins : ∀ (state : State) (l : List Frame),
            Scanner.firstOfValue state l c = ⟨state, l⟩ := fun _ _ => if_pos hblank
        have hclose : (c == 93) = false := forall_byte
          (p := fun c => isBlank c = true → (c == 93) = false) (by decide +kernel) c hblank
        have hempty : Scanner.step ⟨.beginValueOrEmpty, stack⟩ c = ⟨.beginValueOrEmpty, stack⟩ := by
          simp [Scanner.step, hclose, hbegins]
        have hbegin' : ∀ l, Scanner.step ⟨.beginValue, l⟩ c = ⟨.beginValue, l⟩ :=
          fun l => hbegins _ l
        rw [hbegin'] at hne hbegin
        rw [hempty, run_cons, hbegin']
        exact ih hne hbegin
      · have hclose : c ≠ 93 := by
          rintro rfl
          have hfail : Scanner.step ⟨.beginValue, []⟩ 93 = ⟨.error, []⟩ := rfl
          rw [hfail, run_error] at hne
          exact hne rfl
        rw [run_cons]
        simp [Scanner.step, Scanner.firstOfValue, hclose, hblank]
  refine hne v (not_error_of_valid h) ?_
  intro hbegin
  have hstack := stack_of_valid h
  rw [valid, beq_iff_eq] at h
  have hsc : Scanner.start.run v = ⟨.beginValue, []⟩ := by rw [← hstack, ← hbegin]; rfl
  rw [hsc] at h
  cases h

/-- An array is valid if its elements are. -/
theorem valid_array {values : List Bytes} (h : ∀ v ∈ values, valid v = true) :
    valid (array values) = true := by
  cases values with
  | nil => rfl
  | cons v rest =>
    have hready : Ready [.elem] (Scanner.run ⟨.beginValueOrEmpty, [.elem]⟩
        (commaSep (v :: rest))) := by
      have hv := h v mem_cons_self
      rw [commaSep, run_append, run_beginValueOrEmpty hv]
      refine ready_commas ?_ (ready_of_valid hv _)
      exact fun w hw => ready_of_valid (h w (mem_cons_of_mem v hw)) _
    refine valid_of_ready ?_
    rw [array, cons_append, run_cons, run_append]
    change Ready [] (Scanner.step (Scanner.run ⟨.beginValueOrEmpty, [.elem]⟩ _) 93)
    rw [hready 93 rfl]
    exact .pop []

/-! ## Numbers -/

theorem run_digits (h : ∀ c ∈ s, isDigit c = true)
    (hsc : ∀ c, isDigit c = true → sc.step c = sc) : sc.run s = sc := by
  induction s with
  | nil => rfl
  | cons c s ih =>
    rw [run_cons, hsc c (h c mem_cons_self)]
    exact ih fun d hd => h d (mem_cons_of_mem c hd)

theorem decimal_eq_cons {n : Nat} (hpos : 0 < n) :
    ∃ d s, decimal n = d :: s ∧ isDigit d = true ∧ (d == 48) = false := by
  induction n using Nat.strong_induction_on with
  | _ n ih =>
    by_cases hn : n < 10
    · have hone : decimal n = [UInt8.ofNat n.digitChar.toNat] := by
        rw [decimal, Nat.toDigits_of_lt_base hn]
        rfl
      have hdigit : ∀ n < 10, 0 < n → isDigit (UInt8.ofNat n.digitChar.toNat) = true ∧
          (UInt8.ofNat n.digitChar.toNat == 48) = false := by decide
      exact ⟨_, [], hone, hdigit n hn hpos⟩
    · have hsplit : decimal n = decimal (n / 10) ++ [UInt8.ofNat (n % 10).digitChar.toNat] := by
        rw [decimal, Nat.toDigits_of_base_le (by omega) (by omega), map_append]
        rfl
      obtain ⟨d, s, heq, hd⟩ := ih (n / 10) (by omega) (by omega)
      exact ⟨d, s ++ [_], by rw [hsplit, heq]; rfl, hd⟩

theorem run_decimal (hzero : sc.step 48 = ⟨.zero, stack⟩)
    (hint : ∀ c, isDigit c = true → (c == 48) = false → sc.step c = ⟨.int, stack⟩) (n : Nat) :
    sc.run (decimal n) = ⟨.zero, stack⟩ ∨ sc.run (decimal n) = ⟨.int, stack⟩ := by
  rcases Nat.eq_zero_or_pos n with rfl | hpos
  · exact .inl hzero
  · obtain ⟨d, s, heq, hd, hne⟩ := decimal_eq_cons hpos
    refine .inr ?_
    have hs : ∀ c ∈ s, isDigit c = true := fun c hc =>
      decimal_digits (n := n) (heq ▸ mem_cons_of_mem d hc)
    rw [heq, run_cons, hint d hd hne]
    exact run_digits hs fun c hc => if_pos hc

/-- What `%f` prints: a sign, the digits before the point and those after it, if any. -/
def number (neg : Bool) (n : Nat) (frac : Bytes) : Bytes :=
  (if neg then [45] else []) ++ decimal n ++ if frac.isEmpty then [] else 46 :: frac

theorem run_integer (neg : Bool) (n : Nat) :
    Scanner.start.run ((if neg then [45] else []) ++ decimal n) = ⟨.zero, []⟩ ∨
      Scanner.start.run ((if neg then [45] else []) ++ decimal n) = ⟨.int, []⟩ := by
  cases neg with
  | true =>
    refine run_decimal (rfl : Scanner.step ⟨.neg, []⟩ 48 = ⟨.zero, []⟩) ?_ n
    intro c hc hne
    simp [Scanner.step, hne, hc]
  | false =>
    refine run_decimal (rfl : Scanner.start.step 48 = ⟨.zero, []⟩) ?_ n
    exact forall_byte (by decide +kernel)

/-- Digits with a sign and a fraction are a number. -/
theorem valid_number (neg : Bool) (n : Nat) {frac : Bytes} (h : ∀ c ∈ frac, isDigit c = true) :
    valid (number neg n frac) = true := by
  refine valid_of_ready ?_
  rw [number, run_append]
  cases frac with
  | nil =>
    rcases run_integer neg n with hrun | hrun
    · rw [hrun]
      exact .zero []
    · rw [hrun]
      exact .int []
  | cons d s =>
    have hpoint : ((Scanner.start.run ((if neg then [45] else []) ++ decimal n)).step 46) =
        ⟨.dot, []⟩ := by
      rcases run_integer neg n with hrun | hrun
      · rw [hrun]
        rfl
      · rw [hrun]
        rfl
    have hdot : Scanner.step ⟨.dot, []⟩ d = ⟨.frac, []⟩ := if_pos (h d mem_cons_self)
    have hfrac : Scanner.run ⟨.frac, []⟩ s = ⟨.frac, []⟩ :=
      run_digits (fun c hc => h c (mem_cons_of_mem d hc)) fun c hc => if_pos hc
    simp only [isEmpty_cons, Bool.false_eq_true, if_false]
    rw [run_cons, hpoint, run_cons, hdot, hfrac]
    exact .frac []

theorem valid_decimalInt (n : Int) : valid (decimalInt n) = true := by
  have heq : decimalInt n = number (decide (n < 0)) n.natAbs [] := by
    simp only [decimalInt, number]
    by_cases hn : n < 0
    · simp [hn]
    · simp [hn]
  rw [heq]
  exact valid_number _ _ (by simp)

/-- `true` or `false`. -/
def bool (b : Bool) : Bytes := if b then lit "true" else lit "false"

theorem valid_bool (b : Bool) : valid (bool b) = true := by
  cases b <;> rfl

end CtForge.Json
