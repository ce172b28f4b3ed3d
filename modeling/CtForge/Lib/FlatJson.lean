import CtForge.Lib.JsonDecode

/-!
# Flat JSON objects

The texts of the objects whose members are strings, numbers, `true`, `false` and `null`:
with any escapes in names and strings, and with blanks wherever the grammar has them.
-/

namespace CtForge.Json

open CLang List Scanner Bool

/-! ## The grammar -/

structure Blanks where
  bytes : Bytes
  blank : bytes.all isBlank = true

def Blanks.none : Blanks := ⟨[], rfl⟩

structure Literal where
  body : Bytes
  ok : Body body

structure Numeral where
  text : Bytes
  ok : valid text = true
  number : text.all isNumberByte = true

inductive Scalar where
  | str (s : Literal)
  | num (n : Numeral)
  | word (w : Word)

def Scalar.text : Scalar → Bytes
  | .str s => string s.body
  | .num n => n.text
  | .word w => w.text

structure Member where
  lead : Blanks
  name : Literal
  beforeColon : Blanks
  afterColon : Blanks
  value : Scalar
  trail : Blanks

namespace Member

def upToColon (m : Member) : Bytes :=
  m.lead.bytes ++ string m.name.body ++ m.beforeColon.bytes ++ [58]

def behindColon (m : Member) : Bytes := m.afterColon.bytes ++ m.value.text ++ m.trail.bytes

def text (m : Member) : Bytes := m.upToColon ++ m.behindColon

end Member

/-- An object with blanks around it; `inside` are those between its braces if it has no member. -/
structure FlatObject where
  lead : Blanks
  inside : Blanks
  members : List Member
  trail : Blanks

namespace FlatObject

def contents (o : FlatObject) : Bytes :=
  match o.members with
  | [] => o.inside.bytes
  | m :: rest => commaSep ((m :: rest).map Member.text)

def text (o : FlatObject) : Bytes := o.lead.bytes ++ 123 :: (o.contents ++ 125 :: o.trail.bytes)

/-- The text up to the colon of `m`, which stands behind `before`. -/
def upToColon (o : FlatObject) (before : List Member) (m : Member) : Bytes :=
  o.lead.bytes ++ 123 :: (before.flatMap (fun b => b.text ++ [44]) ++ m.upToColon)

/-- What follows a member: the members `after`, and the end of the text. -/
def rest (o : FlatObject) (after : List Member) : Bytes :=
  after.flatMap (fun a => 44 :: a.text) ++ 125 :: o.trail.bytes

/-- The text behind the colon of `m`, which stands before `after`. -/
def behindColon (o : FlatObject) (m : Member) (after : List Member) : Bytes :=
  m.behindColon ++ o.rest after

theorem rest_cons (o : FlatObject) (m : Member) (after : List Member) :
    o.rest (m :: after) = 44 :: (m.text ++ o.rest after) := by
  simp [rest]

theorem text_cons {o : FlatObject} {m : Member} {after : List Member} (h : o.members = m :: after) :
    o.text = o.lead.bytes ++ 123 :: (m.text ++ o.rest after) := by
  simp [text, contents, h, commaSep, rest, flatMap_map]

theorem commas_eq (b : Member) (before : List Member) (m : Member) :
    b.text ++ (before ++ [m]).flatMap (fun a => 44 :: a.text) =
      (b :: before).flatMap (fun a => a.text ++ [44]) ++ m.text := by
  induction before generalizing b with
  | nil => simp
  | cons c before ih =>
    rw [cons_append, flatMap_cons, flatMap_cons, cons_append, ih c]
    simp

/-- The text around one member. -/
theorem text_split {o : FlatObject} {before after : List Member} {m : Member}
    (h : o.members = before ++ m :: after) :
    o.text = o.upToColon before m ++ o.behindColon m after := by
  cases before with
  | nil => simp [text_cons h, upToColon, behindColon, Member.text]
  | cons b before =>
    have hrest : o.rest (before ++ m :: after) =
        (before ++ [m]).flatMap (fun b => 44 :: b.text) ++ o.rest after := by
      simp [rest]
    rw [cons_append] at h
    rw [text_cons h, hrest, ← append_assoc b.text, commas_eq]
    simp [upToColon, behindColon, Member.text]

end FlatObject

/-! ## The texts are JSON -/

theorem Scalar.valid_text (v : Scalar) : valid v.text = true := by
  cases v with
  | str s => exact valid_string s.ok
  | num n => exact n.ok
  | word w => cases w <;> decide

variable {sc : Scanner}

/-- Blanks between two tokens change nothing. -/
theorem run_blanks (hsc : ∀ c, isBlank c = true → sc.step c = sc) (b : Blanks) :
    sc.run b.bytes = sc := by
  obtain ⟨s, hs⟩ := b
  induction s with
  | nil => rfl
  | cons c s ih =>
    rw [all_cons, and_eq_true] at hs
    rw [run_cons, hsc c hs.1]
    exact ih hs.2

variable {stack : List Frame}

theorem Ready.blanks (h : Ready stack sc) (b : Blanks) : Ready stack (sc.run b.bytes) := by
  obtain ⟨s, hs⟩ := b
  induction s generalizing sc with
  | nil => exact h
  | cons c s ih =>
    rw [all_cons, and_eq_true] at hs
    have hend : isEnd c = true := by simp [isEnd, hs.1]
    rw [run_cons, h c hend, afterValue_blank _ hs.1]
    exact ih (.pop stack) hs.2

/-- The scanner reads a member up to the end of its value. -/
theorem Member.ready_text (m : Member) (hblank : ∀ c, isBlank c = true → sc.step c = sc)
    (hsc : sc.step 34 = ⟨.inString, .key :: stack⟩) : Ready (.value :: stack) (sc.run m.text) := by
  have hcolon : sc.run m.upToColon = ⟨.beginValue, .value :: stack⟩ := by
    have hname : Scanner.run ⟨.endValue, .key :: stack⟩ m.beforeColon.bytes =
        ⟨.endValue, .key :: stack⟩ := by
      refine run_blanks (fun c hc => ?_) _
      exact afterValue_blank (.key :: stack) hc
    simp only [upToColon, run_append, run_blanks hblank, run_string m.name.ok hsc, hname]
    rfl
  have hlead : Scanner.run ⟨.beginValue, .value :: stack⟩ m.afterColon.bytes =
      ⟨.beginValue, .value :: stack⟩ := by
    refine run_blanks (fun c hc => ?_) _
    change Scanner.firstOfValue .beginValue _ c = _
    rw [Scanner.firstOfValue, if_pos hc]
  rw [text, run_append, hcolon, behindColon, run_append, run_append, hlead]
  exact (ready_of_valid m.value.valid_text _).blanks m.trail

theorem step_firstOfString {state : State}
    (h : state = .beginString ∨ state = .beginStringOrEmpty) {c : UInt8} (hc : isBlank c = true) :
    Scanner.step ⟨state, stack⟩ c = ⟨state, stack⟩ := by
  have hbrace : (c == 125) = false :=
    forall_byte (p := fun c => isBlank c = true → (c == 125) = false) (by decide +kernel) c hc
  rcases h with rfl | rfl
  · simp [Scanner.step, Scanner.firstOfString, hc]
  · simp [Scanner.step, Scanner.firstOfString, hc, hbrace]

/-- The members lead the scanner to the closing brace. -/
theorem FlatObject.run_contents (o : FlatObject) :
    (Scanner.run ⟨.beginStringOrEmpty, [.key]⟩ o.contents).step 125 = Scanner.pop [] := by
  rw [contents]
  split
  · rw [run_blanks fun c hc => step_firstOfString (.inr rfl) hc]
    rfl
  · next m after _ =>
    have hfirst : Ready [.value] (Scanner.run ⟨.beginStringOrEmpty, [.key]⟩ m.text) :=
      m.ready_text (fun c hc => step_firstOfString (.inr rfl) hc) rfl
    rw [map_cons, commaSep, run_append]
    refine ready_commas ?_ hfirst 125 rfl
    intro p hp
    obtain ⟨a, -, rfl⟩ := mem_map.mp hp
    exact a.ready_text (fun c hc => step_firstOfString (.inl rfl) hc) rfl

/-- Each such text is a JSON text. -/
theorem FlatObject.valid_text (o : FlatObject) : valid o.text = true := by
  apply valid_of_ready
  have hlead : Scanner.start.run o.lead.bytes = Scanner.start := by
    refine run_blanks (fun c hc => ?_) _
    change Scanner.firstOfValue .beginValue _ c = _
    rw [Scanner.firstOfValue, if_pos hc]
    rfl
  have hopen : Scanner.start.step 123 = ⟨.beginStringOrEmpty, [.key]⟩ := rfl
  rw [text, run_append, hlead, run_cons, hopen, run_append,
    run_cons, o.run_contents]
  exact (Ready.pop []).blanks o.trail

end CtForge.Json
