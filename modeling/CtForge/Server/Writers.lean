import CtForge.Agent.Stream

/-!
# The frames to an agent (`agentconn.go`, `protocol.go`)

`Handle` enters a registered connection into `sessions` and then writes the ack, without
`writeMu`. From the moment it is entered, `Request` and `SendNoWait` write to the same
connection, with `writeMu` held. `Encode` makes two writes, the length and the text. A write
that fails may have written a part, and its caller does not close the connection.
-/

namespace CtForge.Server.Writers

open CLang Runs List Function Option
open CtForge.Agent (bigEndian frame Sendable maxMessageSize)

/-! ## Goroutines on one connection -/

/-- The goroutine in `Handle`, and the callers of `write`. -/
inductive Writer where
  | handle
  | caller (n : Nat)
  deriving DecidableEq, Repr

/-- Where a goroutine is: `length` and `body` are before the first and the second write of
`Encode`. -/
inductive Phase where
  | outside
  | inside
  | length (json : Bytes)
  | body (json : Bytes)
  | leaving
  deriving DecidableEq, Repr

def Phase.text? : Phase → Option Bytes
  | .length json | .body json => some json
  | _ => none

variable {p : Phase} {json : Bytes}

theorem text_of_length (h : p = .length json) : p.text? = some json := by
  rw [h]
  rfl

theorem text_of_body (h : p = .body json) : p.text? = some json := by
  rw [h]
  rfl

/-- A connection that was registered. `acked` and `torn` say what was written to it: the
whole ack, and a frame that was not completed. -/
structure Wire where
  entered : Bool := false
  holder : Option Nat := none
  phase : Writer → Phase := fun _ => .outside
  stream : Bytes := []
  acked : Bool := false
  torn : Bool := false
  closed : Bool := false

inductive WireEvent where
  | enter
  | lock (n : Nat)
  | begin (t : Writer) (json : Bytes)
  | write (t : Writer)
  | fail (t : Writer) (n : Nat)
  | unlock (n : Nat)
  | close
  deriving DecidableEq, Repr

def Wire.goto (s : Wire) (t : Writer) (p : Phase) : Wire :=
  { s with phase := Function.update s.phase t p }

/-- The beginning of `Encode`, which refuses a text that is too large. -/
def encodePhase (json : Bytes) : Phase :=
  if json.length > maxMessageSize then .leaving else .length json

/-- What a goroutine writes: `Handle` only its ack. -/
def Writer.message (ack : Bytes) : Writer → Bytes → Bytes
  | .handle, _ => ack
  | .caller _, json => json

/-- A write that fails with `n` bytes of `buf` written; a closed connection takes none. -/
def Wire.tear (s : Wire) (t : Writer) (buf : Bytes) (n : Nat) (begun : Bool) : Wire :=
  if n < buf.length ∧ (s.closed = true → n = 0) then
    { s.goto t .leaving with
      stream := s.stream ++ buf.take n
      torn := s.torn || begun || decide (0 < n) }
  else s

/-- One step of the goroutines; an event that cannot happen changes nothing. A marshalled
message is not empty. -/
def Wire.step (ack : Bytes) (s : Wire) : WireEvent → Wire
  | .enter => if s.entered then s else { s.goto .handle .inside with entered := true }
  | .lock n =>
    if s.entered = true ∧ s.phase (.caller n) = .outside ∧ s.holder = none then
      { s.goto (.caller n) .inside with holder := some n }
    else s
  | .begin t json =>
    if s.phase t = .inside ∧ json.isEmpty = false then
      s.goto t (encodePhase (t.message ack json))
    else s
  | .write t =>
    if s.closed then s else
      match s.phase t with
      | .length json => { s.goto t (.body json) with stream := s.stream ++ bigEndian json.length }
      | .body json =>
        { s.goto t .leaving with
          stream := s.stream ++ json
          acked := s.acked || decide (t = .handle) }
      | _ => s
  | .fail t n =>
    match s.phase t with
    | .length json => s.tear t (bigEndian json.length) n false
    | .body json => s.tear t json n true
    | _ => s
  | .unlock n =>
    if s.phase (.caller n) = .leaving then { s.goto (.caller n) .outside with holder := none }
    else s
  | .close => { s with closed := true }

/-! ## What is to hold -/

/-- The stream is made of whole frames and the beginning of one, and the first of these
frames is the ack. -/
def InOrder (ack : Bytes) (s : Wire) : Prop :=
  ∃ (jsons : List Bytes) (json part : Bytes), (∀ other ∈ jsons, Sendable other) ∧
    s.stream = jsons.flatMap frame ++ part ∧ part <+: frame json ∧ Sendable json ∧
    (jsons ++ [json]).head? = some ack

def EndsTorn (ack : Bytes) (s : Wire) (e : WireEvent) : Prop :=
  s.torn = true → (s.step ack e).stream = s.stream

def Behind (s : Wire) : WireEvent → Prop
  | .begin (.caller _) _ => s.closed = true ∨ s.acked = true ∧ s.torn = false
  | _ => True

instance (s : Wire) : ∀ e, Decidable (Behind s e)
  | .begin (.caller _) _ => inferInstanceAs (Decidable (_ ∨ _ ∧ _))
  | .begin .handle _ | .enter | .lock _ | .write _ | .fail _ _ | .unlock _ | .close =>
    inferInstanceAs (Decidable True)

/-! ## A closed connection -/

variable {s : Wire}

theorem closed_step (ack : Bytes) (h : s.closed = true) (e : WireEvent) :
    (s.step ack e).closed = true ∧ (s.step ack e).stream = s.stream := by
  cases e with
  | enter | lock n | begin t json | unlock n =>
    simp only [Wire.step]
    split <;> exact ⟨h, rfl⟩
  | write t =>
    simp only [Wire.step, h, if_true]
    exact ⟨trivial, trivial⟩
  | fail t n =>
    have htear : ∀ buf begun, (s.tear t buf n begun).closed = true ∧
        (s.tear t buf n begun).stream = s.stream := by
      intro buf begun
      unfold Wire.tear
      split_ifs with hn
      · refine ⟨h, ?_⟩
        rw [hn.2 h, take_zero, append_nil]
      · exact ⟨h, rfl⟩
    simp only [Wire.step]
    split
    · exact htear _ _
    · exact htear _ _
    · exact ⟨h, rfl⟩
  | close => exact ⟨rfl, rfl⟩

/-! ## An open connection -/

structure Written (ack : Bytes) (s : Wire) (jsons : List Bytes) (part : Bytes) : Prop where
  sendable : ∀ json ∈ jsons, Sendable json
  stream : s.stream = jsons.flatMap frame ++ part
  first : jsons.head? = if s.acked then some ack else none
  torn : s.torn = true → ∃ json, Sendable json ∧ part <+: frame json ∧
    (s.acked = false → json = ack)
  amid : s.torn = false → ∀ t json, s.phase t = .body json → part = bigEndian json.length
  idle : s.torn = false → (∀ t json, s.phase t ≠ .body json) → part = []

structure Tidy (ack : Bytes) (s : Wire) : Prop where
  unentered : s.entered = false → s.phase .handle = .outside
  held : ∀ n, s.phase (.caller n) ≠ .outside → s.holder = some n
  early : s.acked = false → ∀ n, (s.phase (.caller n)).text? = none
  handled : s.acked = true ∨ s.torn = true → s.phase .handle = .leaving
  own : ∀ json, (s.phase .handle).text? = some json → json = ack
  quiet : s.torn = true → ∀ t, (s.phase t).text? = none
  sendable : ∀ t json, (s.phase t).text? = some json → Sendable json
  written : ∃ jsons part, Written ack s jsons part

variable {ack : Bytes}

theorem Tidy.alone (h : Tidy ack s) {t u : Writer} {json other : Bytes}
    (ht : (s.phase t).text? = some json) (hu : (s.phase u).text? = some other) : t = u := by
  have hcaller : ∀ {n json}, (s.phase (.caller n)).text? = some json →
      s.holder = some n ∧ s.acked = true := by
    intro n json hn
    refine ⟨h.held n ?_, ?_⟩
    · intro hout
      rw [hout] at hn
      cases hn
    · by_contra hacked
      rw [h.early (by simpa using hacked) n] at hn
      cases hn
  have hhandle : ∀ {n json other}, (s.phase .handle).text? = some json →
      (s.phase (.caller n)).text? = some other → False := by
    intro n json other hh hn
    rw [h.handled (.inl (hcaller hn).2)] at hh
    cases hh
  cases t with
  | handle =>
    cases u with
    | handle => rfl
    | caller m => exact (hhandle ht hu).elim
  | caller n =>
    cases u with
    | handle => exact (hhandle hu ht).elim
    | caller m =>
      have hholder := (hcaller ht).1.symm.trans (hcaller hu).1
      rw [some.inj hholder]

theorem Tidy.inOrder (hack : Sendable ack) (h : Tidy ack s) : InOrder ack s := by
  obtain ⟨jsons, part, hw⟩ := h.written
  have hfirst : ∀ json, (s.acked = false → json = ack) →
      (jsons ++ [json]).head? = some ack := by
    intro json hjson
    have hhead := hw.first
    cases jsons with
    | nil =>
      have hacked : s.acked = false := by
        by_contra hne
        simp [hne] at hhead
      rw [hjson hacked]
      rfl
    | cons first rest =>
      split_ifs at hhead with hacked
      · exact hhead
      · cases hhead
  have hpart : ∃ json, part <+: frame json ∧ Sendable json ∧ (s.acked = false → json = ack) := by
    by_cases htorn : s.torn = true
    · obtain ⟨json, hjson, hpre, hown⟩ := hw.torn htorn
      exact ⟨json, hpre, hjson, hown⟩
    · have htorn : s.torn = false := by simpa using htorn
      by_cases hbody : ∃ t json, s.phase t = .body json
      · obtain ⟨t, json, ht⟩ := hbody
        have htext := text_of_body ht
        refine ⟨json, ?_, h.sendable t json htext, ?_⟩
        · rw [hw.amid htorn t json ht]
          exact prefix_append _ _
        · intro hacked
          cases t with
          | handle => exact h.own json htext
          | caller n =>
            rw [h.early hacked n] at htext
            cases htext
      · refine ⟨ack, ?_, hack, fun _ => rfl⟩
        rw [hw.idle htorn fun t json ht => hbody ⟨t, json, ht⟩]
        exact nil_prefix
  obtain ⟨json, hpre, hjson, hown⟩ := hpart
  exact ⟨jsons, json, part, hw.sendable, hw.stream, hpre, hjson, hfirst json hown⟩

/-! ## Steps on an open connection -/

theorem Written.congr {s s' : Wire} {jsons : List Bytes} {part : Bytes}
    (h : Written ack s jsons part) (hstream : s'.stream = s.stream) (hacked : s'.acked = s.acked)
    (htorn : s'.torn = s.torn)
    (hbody : ∀ t json, s'.phase t = .body json ↔ s.phase t = .body json) :
    Written ack s' jsons part := by
  constructor
  · exact h.sendable
  · exact hstream.trans h.stream
  · rw [hacked]
    exact h.first
  · rw [htorn, hacked]
    exact h.torn
  · intro hnone t json ht
    exact h.amid (htorn ▸ hnone) t json ((hbody t json).mp ht)
  · intro hnone hidle
    exact h.idle (htorn ▸ hnone) fun t json ht => hidle t json ((hbody t json).mpr ht)

variable {t : Writer}

theorem update_body_iff {phase : Writer → Phase} (hold : ∀ json, phase t ≠ .body json)
    (hnew : ∀ json, p ≠ .body json) (u : Writer) (json : Bytes) :
    Function.update phase t p u = .body json ↔ phase u = .body json := by
  by_cases hut : u = t
  · subst hut
    rw [update_self]
    exact iff_of_false (hnew json) (hold json)
  · rw [update_of_ne hut]

theorem ne_body_of_text (h : p.text? = none) (json : Bytes) : p ≠ .body json := by
  rintro rfl
  cases h

theorem Tidy.move {s s' : Wire} (h : Tidy ack s) (hphase : s'.phase = Function.update s.phase t p)
    (hold : (s.phase t).text? = none) (hnew : p.text? = none) (hstream : s'.stream = s.stream)
    (hacked : s'.acked = s.acked) (htorn : s'.torn = s.torn)
    (hheld : ∀ n, Function.update s.phase t p (.caller n) ≠ .outside → s'.holder = some n)
    (hhandle : t = .handle → s'.entered = true ∧ s.phase t ≠ .leaving)
    (hentered : t ≠ .handle → s'.entered = s.entered) : Tidy ack s' := by
  have htext : ∀ u, (s'.phase u).text? = (s.phase u).text? := by
    intro u
    rw [hphase]
    by_cases hut : u = t
    · rw [hut, update_self, hold, hnew]
    · rw [update_of_ne hut]
  have hkeep : t ≠ .handle → s'.phase .handle = s.phase .handle := by
    intro ht
    rw [hphase, update_of_ne (Ne.symm ht)]
  obtain ⟨jsons, part, hw⟩ := h.written
  constructor
  · intro hout
    by_cases ht : t = .handle
    · rw [(hhandle ht).1] at hout
      cases hout
    · rw [hkeep ht]
      exact h.unentered (hentered ht ▸ hout)
  · rw [hphase]
    exact hheld
  · intro hno n
    rw [htext]
    exact h.early (hacked ▸ hno) n
  · rw [hacked, htorn]
    intro hdone
    by_cases ht : t = .handle
    · subst ht
      exact absurd (h.handled hdone) (hhandle rfl).2
    · rw [hkeep ht]
      exact h.handled hdone
  · intro json hjson
    exact h.own json (htext .handle ▸ hjson)
  · intro hyes u
    rw [htext]
    exact h.quiet (htorn ▸ hyes) u
  · intro u json hjson
    exact h.sendable u json (htext u ▸ hjson)
  · refine ⟨jsons, part, hw.congr hstream hacked htorn ?_⟩
    rw [hphase]
    exact update_body_iff (ne_body_of_text hold) (ne_body_of_text hnew)

theorem Tidy.held_update (h : Tidy ack s) (ht : s.phase t ≠ .outside) (n : Nat)
    (hn : Function.update s.phase t p (.caller n) ≠ .outside) : s.holder = some n := by
  by_cases hut : .caller n = t
  · exact h.held n (hut ▸ ht)
  · rw [update_of_ne hut] at hn
    exact h.held n hn

theorem Tidy.entered_of_ne (h : Tidy ack s) (ht : s.phase .handle ≠ .outside) :
    s.entered = true := by
  by_contra hout
  exact ht (h.unentered (by simpa using hout))

theorem tidy_begin (h : Tidy ack s) (ht : s.phase t = .inside) (hjson : Sendable json)
    (hown : t = .handle → json = ack) (hcaller : t ≠ .handle → s.acked = true ∧ s.torn = false) :
    Tidy ack (s.goto t (.length json)) := by
  have hself : (s.goto t (.length json)).phase t = .length json := update_self ..
  have hother : ∀ u, u ≠ t → (s.goto t (.length json)).phase u = s.phase u :=
    fun u hut => update_of_ne hut ..
  have hfresh : t = .handle → ¬ (s.acked = true ∨ s.torn = true) := by
    rintro rfl hdone
    rw [h.handled hdone] at ht
    cases ht
  have htorn : s.torn = false := by
    by_cases hhandle : t = .handle
    · simpa using fun hyes => hfresh hhandle (.inr hyes)
    · exact (hcaller hhandle).2
  obtain ⟨jsons, part, hw⟩ := h.written
  constructor
  · intro hout
    have hne : .handle ≠ t := by
      rintro rfl
      rw [h.unentered hout] at ht
      cases ht
    rw [hother _ hne]
    exact h.unentered hout
  · exact h.held_update (by simp [ht])
  · intro hno n
    have hne : .caller n ≠ t := by
      rintro rfl
      have hacked := (hcaller (by simp)).1
      exact absurd (hno.symm.trans hacked) (by simp)
    rw [hother _ hne]
    exact h.early hno n
  · intro hdone
    have hne : .handle ≠ t := fun heq => hfresh heq.symm hdone
    rw [hother _ hne]
    exact h.handled hdone
  · intro other htext
    by_cases hhandle : .handle = t
    · subst hhandle
      rw [hself] at htext
      exact (some.inj htext).symm.trans (hown rfl)
    · rw [hother _ hhandle] at htext
      exact h.own other htext
  · intro hyes
    exact absurd (htorn.symm.trans hyes) (by simp)
  · intro u other htext
    by_cases hut : u = t
    · rw [hut, hself] at htext
      rwa [← some.inj htext]
    · rw [hother u hut] at htext
      exact h.sendable u other htext
  · refine ⟨jsons, part, hw.congr rfl rfl rfl ?_⟩
    exact update_body_iff (by simp [ht]) (by simp)

/-- What `Encode` has still to write. -/
def Phase.rest : Phase → Bytes
  | .length json => frame json
  | .body json => json
  | _ => []

theorem Tidy.part_rest (h : Tidy ack s) {jsons : List Bytes} {part : Bytes}
    (hw : Written ack s jsons part) (ht : (s.phase t).text? = some json) :
    s.torn = false ∧ part ++ (s.phase t).rest = frame json := by
  have htorn : s.torn = false := by
    by_contra hyes
    rw [h.quiet (by simpa using hyes) t] at ht
    cases ht
  refine ⟨htorn, ?_⟩
  cases hphase : s.phase t with
  | length other =>
    have hidle : ∀ u json, s.phase u ≠ .body json := by
      intro u json hu
      have hut : u = t := h.alone (text_of_body hu) ht
      rw [hut, hphase] at hu
      cases hu
    rw [hphase] at ht
    cases ht
    rw [hw.idle htorn hidle]
    rfl
  | body other =>
    rw [hphase] at ht
    cases ht
    rw [hw.amid htorn t _ hphase]
    rfl
  | outside | inside | leaving =>
    rw [hphase] at ht
    cases ht

theorem tidy_writeLength (h : Tidy ack s) (ht : s.phase t = .length json) :
    Tidy ack { s.goto t (.body json) with stream := s.stream ++ bigEndian json.length } := by
  have htext : ∀ u, (Function.update s.phase t (.body json) u).text? = (s.phase u).text? := by
    intro u
    by_cases hut : u = t
    · rw [hut, update_self, ht]
      rfl
    · rw [update_of_ne hut]
  have hhandle : ∀ p : Phase, p.text? = none → s.phase .handle = p →
      Function.update s.phase t (.body json) .handle = p := by
    intro p hp hphase
    have hne : .handle ≠ t := by
      rintro rfl
      rw [← hphase, ht] at hp
      cases hp
    rwa [update_of_ne hne]
  have hwriting := text_of_length ht
  obtain ⟨jsons, part, hw⟩ := h.written
  obtain ⟨htorn, hpart⟩ := h.part_rest hw hwriting
  have hnil : part = [] := by
    rw [ht] at hpart
    exact append_left_eq_self.mp hpart
  constructor
  · exact fun hout => hhandle _ rfl (h.unentered hout)
  · exact h.held_update (by simp [ht])
  · exact fun hno n => (htext _).trans (h.early hno n)
  · exact fun hdone => hhandle _ rfl (h.handled hdone)
  · exact fun other hother => h.own other ((htext _).symm.trans hother)
  · exact fun hyes u => (htext u).trans (h.quiet hyes u)
  · exact fun u other hother => h.sendable u other ((htext u).symm.trans hother)
  · refine ⟨jsons, bigEndian json.length, hw.sendable, ?_, hw.first, ?_, ?_, ?_⟩
    · change s.stream ++ bigEndian json.length = _
      rw [hw.stream, hnil, append_nil]
    · intro hyes
      exact absurd (htorn.symm.trans hyes) (by simp)
    · intro _ u other hu
      have hu' : (s.phase u).text? = some other := (htext u).symm.trans (congrArg Phase.text? hu)
      obtain rfl := h.alone hu' hwriting
      rw [some.inj (hu'.symm.trans hwriting)]
    · intro _ hidle
      exact absurd (update_self ..) (hidle t json)

/-- The goroutine that was writing is done: `more` was written behind `part`. -/
structure Finishes (s s' : Wire) (t : Writer) (json more : Bytes) : Prop where
  phase : s'.phase = Function.update s.phase t .leaving
  entered : s'.entered = s.entered
  holder : s'.holder = s.holder
  stream : s'.stream = s.stream ++ more
  outcome : s'.torn = s.torn ∧ s'.acked = (s.acked || decide (t = .handle)) ∧
      more = (s.phase t).rest ∨
    s'.acked = s.acked ∧ more <+: (s.phase t).rest ∧
      (s'.torn = true ∨ s'.torn = s.torn ∧ more = [] ∧ s.phase t = .length json)

theorem Tidy.acked_or_handle (h : Tidy ack s) (ht : (s.phase t).text? = some json) :
    s.acked = false ∧ t = .handle ∧ json = ack ∨
      s.acked = true ∧ t ≠ .handle := by
  cases t with
  | handle =>
    left
    refine ⟨?_, rfl, h.own json ht⟩
    by_contra hacked
    rw [h.handled (.inl (by simpa using hacked))] at ht
    cases ht
  | caller n =>
    right
    refine ⟨?_, by simp⟩
    by_contra hacked
    rw [h.early (by simpa using hacked) n] at ht
    cases ht

/-- A frame that is finished joins the whole ones. -/
theorem tidy_finish {s s' : Wire} (h : Tidy ack s) {json more : Bytes}
    (ht : (s.phase t).text? = some json) (hf : Finishes s s' t json more) : Tidy ack s' := by
  have htext : ∀ u, (s'.phase u).text? = none := by
    intro u
    rw [hf.phase]
    by_cases hut : u = t
    · rw [hut, update_self]
      rfl
    · rw [update_of_ne hut]
      by_contra hne
      obtain ⟨other, hu⟩ := ne_none_iff_exists'.mp hne
      exact hut (h.alone hu ht)
  have hhandle : s'.phase .handle = .leaving := by
    rw [hf.phase]
    rcases h.acked_or_handle ht with ⟨-, rfl, -⟩ | ⟨hacked, hne⟩
    · exact update_self ..
    · rw [update_of_ne hne.symm]
      exact h.handled (.inl hacked)
  have hentered : s.entered = true := by
    apply h.entered_of_ne
    rcases h.acked_or_handle ht with ⟨-, rfl, -⟩ | ⟨hacked, -⟩
    · intro hout
      rw [hout] at ht
      cases ht
    · rw [h.handled (.inl hacked)]
      simp
  obtain ⟨jsons, part, hw⟩ := h.written
  obtain ⟨htorn, hpart⟩ := h.part_rest hw ht
  have hjson := h.sendable t json ht
  constructor
  · intro hout
    rw [hf.entered, hentered] at hout
    cases hout
  · rw [hf.phase, hf.holder]
    refine h.held_update ?_
    intro hout
    rw [hout] at ht
    cases ht
  · exact fun _ n => htext _
  · exact fun _ => hhandle
  · intro other hother
    rw [htext] at hother
    cases hother
  · exact fun _ => htext
  · intro u other hother
    rw [htext] at hother
    cases hother
  · have hbody : ∀ u other, s'.phase u ≠ .body other := fun u => ne_body_of_text (htext u)
    rcases hf.outcome with ⟨hsame, hacked, hmore⟩ | ⟨hacked, hmore, hend⟩
    · -- the frame is complete
      refine ⟨jsons ++ [json], [], ?_, ?_, ?_, ?_, ?_, fun _ _ => rfl⟩
      · simpa [or_imp, forall_and] using ⟨hw.sendable, hjson⟩
      · rw [hf.stream, hw.stream, append_assoc, hmore, hpart]
        simp
      · rcases h.acked_or_handle ht with ⟨hno, hself, hown⟩ | ⟨hyes, -⟩
        · have hfirst := hw.first
          rw [hno] at hfirst
          rw [List.head?_eq_none_iff.mp hfirst, hacked, hno, hself, hown]
          rfl
        · have hfirst := hw.first
          rw [hyes] at hfirst
          rw [hacked, hyes, List.head?_append, hfirst]
          rfl
      · intro hyes
        rw [hsame, htorn] at hyes
        cases hyes
      · exact fun _ u other hu => absurd hu (hbody u other)
    · refine ⟨jsons, part ++ more, hw.sendable, ?_, ?_, ?_, ?_, ?_⟩
      · rw [hf.stream, hw.stream, append_assoc]
      · rw [hacked]
        exact hw.first
      · intro _
        refine ⟨json, hjson, ?_, ?_⟩
        · rw [← hpart]
          exact (prefix_append_right_inj part).mpr hmore
        · rw [hacked]
          intro hno
          rcases h.acked_or_handle ht with ⟨-, -, hown⟩ | ⟨hyes, -⟩
          · exact hown
          · exact absurd (hno.symm.trans hyes) (by simp)
      · exact fun _ u other hu => absurd hu (hbody u other)
      · intro hnone _
        rcases hend with hyes | ⟨-, hnil, hlength⟩
        · exact absurd (hnone.symm.trans hyes) (by simp)
        · rw [hlength] at hpart
          rw [hnil, append_nil]
          exact append_left_eq_self.mp hpart

theorem tidy_tear (h : Tidy ack s) {json buf : Bytes} (ht : (s.phase t).text? = some json)
    (n : Nat) {begun : Bool} (hbuf : buf <+: (s.phase t).rest)
    (hbegun : begun = true ∨ s.phase t = .length json) : Tidy ack (s.tear t buf n begun) := by
  unfold Wire.tear
  split_ifs with hn
  · refine tidy_finish h ht ⟨rfl, rfl, rfl, rfl, .inr ⟨rfl, ?_, ?_⟩⟩
    · have hpart : buf.take n <+: buf := take_prefix n buf
      exact hpart.trans hbuf
    · by_cases hsome : begun = true ∨ 0 < n
      · left
        change (s.torn || begun || decide (0 < n)) = true
        rcases hsome with hb | hpos
        · simp [hb]
        · simp [hpos]
      · obtain ⟨hnot, hzero⟩ := not_or.mp hsome
        have hzero : n = 0 := by omega
        refine .inr ⟨?_, by simp [hzero], hbegun.resolve_left hnot⟩
        change (s.torn || begun || decide (0 < n)) = s.torn
        simp [hnot, hzero]
  · exact h

/-- One step keeps the stream tidy: whole frames, the ack first, a torn one last. -/
theorem tidy_step (hack : Sendable ack) (h : Tidy ack s) (hopen : s.closed = false)
    {e : WireEvent} (hbehind : Behind s e) : Tidy ack (s.step ack e) := by
  cases e with
  | enter =>
    simp only [Wire.step]
    split_ifs with hentered
    · exact h
    · have hout := h.unentered (by simpa using hentered)
      refine h.move rfl (by rw [hout]; rfl) rfl rfl rfl rfl ?_ ?_ ?_
      · intro n hn
        exact h.held n (by rwa [update_of_ne (by simp)] at hn)
      · exact fun _ => ⟨rfl, by simp [hout]⟩
      · exact fun hne => absurd rfl hne
  | lock n =>
    simp only [Wire.step]
    split_ifs with hguard
    · refine h.move rfl (by rw [hguard.2.1]; rfl) rfl rfl rfl rfl ?_ (by simp) (fun _ => rfl)
      intro m hm
      by_cases hmn : m = n
      · rw [hmn]
      · have hin : s.phase (.caller m) ≠ .outside := by
          rwa [update_of_ne (by simpa using hmn)] at hm
        exact absurd ((h.held m hin).symm.trans hguard.2.2) (by simp)
    · exact h
  | begin t json =>
    simp only [Wire.step]
    split_ifs with hguard
    · unfold encodePhase
      split_ifs with hlarge
      · refine h.move rfl (by rw [hguard.1]; rfl) rfl rfl rfl rfl ?_ ?_ (fun _ => rfl)
        · exact h.held_update (by simp [hguard.1])
        · rintro rfl
          exact ⟨h.entered_of_ne (by simp [hguard.1]), by simp [hguard.1]⟩
      · cases t with
        | handle => exact tidy_begin h hguard.1 hack (fun _ => rfl) (by simp)
        | caller n =>
          have hne : json ≠ [] := by simpa using hguard.2
          have hjson : Sendable json := ⟨length_pos_iff.mpr hne, Nat.not_lt.mp hlarge⟩
          refine tidy_begin h hguard.1 hjson (by simp) fun _ => ?_
          exact hbehind.resolve_left (by simp [hopen])
    · exact h
  | write t =>
    simp only [Wire.step, hopen, Bool.false_eq_true, if_false]
    split
    · exact tidy_writeLength h ‹_›
    · rename_i json ht
      refine tidy_finish h (text_of_body ht) ⟨rfl, rfl, rfl, rfl, .inl ⟨rfl, rfl, ?_⟩⟩
      rw [ht]
      rfl
    · exact h
  | fail t n =>
    simp only [Wire.step]
    split
    · rename_i json ht
      refine tidy_tear h (text_of_length ht) n ?_ (.inr ht)
      rw [ht]
      exact prefix_append _ _
    · rename_i json ht
      refine tidy_tear h (text_of_body ht) n ?_ (.inl rfl)
      rw [ht]
      exact prefix_rfl
    · exact h
  | unlock n =>
    simp only [Wire.step]
    split_ifs with hleaving
    · refine h.move rfl (by rw [hleaving]; rfl) rfl rfl rfl rfl ?_ (by simp) (fun _ => rfl)
      intro m hm
      by_cases hmn : m = n
      · rw [hmn, update_self] at hm
        exact absurd rfl hm
      · rw [update_of_ne (by simpa using hmn)] at hm
        have hholder := (h.held m hm).symm.trans (h.held n (by simp [hleaving]))
        exact absurd (some.inj hholder) hmn
    · exact h
  | close =>
    obtain ⟨jsons, part, hw⟩ := h.written
    exact ⟨h.unentered, h.held, h.early, h.handled, h.own, h.quiet, h.sendable,
      jsons, part, hw.congr rfl rfl rfl fun _ _ => Iff.rfl⟩

theorem tidy_start (ack : Bytes) : Tidy ack {} := by
  have hidle : ∀ t, (({} : Wire).phase t).text? = none := fun _ => rfl
  refine ⟨fun _ => rfl, fun _ hn => absurd rfl hn, fun _ n => hidle (.caller n), ?_, ?_,
    fun _ => hidle, ?_, [], [], by simp, rfl, rfl, ?_, ?_, fun _ _ => rfl⟩
  · rintro (h | h)
    · cases h
    · cases h
  · intro json h
    cases h
  · intro t json h
    cases h
  · intro h
    cases h
  · intro _ t json h
    cases h

/-! ## Every run -/

structure Inv (ack : Bytes) (s : Wire) : Prop where
  inOrder : InOrder ack s
  tidy : s.closed = false → Tidy ack s

theorem inv_step (hack : Sendable ack) (h : Inv ack s) {e : WireEvent} (hbehind : Behind s e) :
    Inv ack (s.step ack e) := by
  by_cases hclosed : s.closed = true
  · obtain ⟨hstays, hstream⟩ := closed_step ack hclosed e
    constructor
    · unfold InOrder
      rw [hstream]
      exact h.inOrder
    · intro hopen
      exact absurd (hopen.symm.trans hstays) (by simp)
  · have hopen : s.closed = false := by simpa using hclosed
    have hnext := tidy_step hack (h.tidy hopen) hopen hbehind
    exact ⟨hnext.inOrder hack, fun _ => hnext⟩

theorem endsTorn_of_inv (h : Inv ack s) (e : WireEvent) : EndsTorn ack s e := by
  intro htorn
  by_cases hclosed : s.closed = true
  · exact (closed_step ack hclosed e).2
  · have hquiet := (h.tidy (by simpa using hclosed)).quiet htorn
    cases e with
    | enter | lock n | begin t json | unlock n =>
      simp only [Wire.step]
      split <;> rfl
    | write t =>
      have ht := hquiet t
      simp only [Wire.step]
      split
      · rfl
      · split
        · rw [text_of_length ‹_›] at ht
          cases ht
        · rw [text_of_body ‹_›] at ht
          cases ht
        · rfl
    | fail t n =>
      have ht := hquiet t
      simp only [Wire.step]
      split
      · rw [text_of_length ‹_›] at ht
        cases ht
      · rw [text_of_body ‹_›] at ht
        cases ht
      · rfl
    | close => rfl

/-- Where a caller begins a frame only after the ack was written whole and no frame was torn, or
on a closed connection, the stream is made of whole frames, of which the ack is the first, and a
torn frame is the last. -/
theorem frames_follow_the_ack (ack : Bytes) (hack : Sendable ack) (es : List WireEvent)
    (h : Along (Wire.step ack) Behind {} es) :
    Throughout (Wire.step ack) (InOrder ack) {} es ∧
      Along (Wire.step ack) (EndsTorn ack) {} es := by
  have hstep : ∀ (s : Wire) (e : WireEvent), Inv ack s → Behind s e → Inv ack (s.step ack e) :=
    fun s e hs hbehind => inv_step hack hs hbehind
  have hstart : Inv ack {} := ⟨(tidy_start ack).inOrder hack, fun _ => tidy_start ack⟩
  constructor
  · exact (throughout_of_invariant hstep hstart h).mono fun s hs => hs.inOrder
  · exact along_of_invariant hstep (fun s e hs _ => endsTorn_of_inv hs e) hstart h

def ackText : Bytes := lit "\x7b\"type\":\"ack\"\x7d"

def pingText : Bytes := lit "\x7b\"type\":\"ping\"\x7d"

/-- The ack, a ping, and a ping that meets its deadline. -/
theorem ack_then_pings :
    let es : List WireEvent := [.enter, .begin .handle ackText, .write .handle, .lock 0,
      .write .handle, .begin (.caller 0) pingText, .write (.caller 0), .write (.caller 0),
      .unlock 0, .lock 1, .begin (.caller 1) pingText, .write (.caller 1), .fail (.caller 1) 3,
      .unlock 1, .lock 2, .close, .begin (.caller 2) pingText, .write (.caller 2)]
    (exec (Wire.step ackText) {} es).stream =
        frame ackText ++ frame pingText ++ (frame pingText).take 7 ∧
      Throughout (Wire.step ackText) (InOrder ackText) {} es ∧
      Along (Wire.step ackText) (EndsTorn ackText) {} es := by
  intro es
  refine ⟨by decide, frames_follow_the_ack ackText ?_ es (by decide)⟩
  exact ⟨by decide, by decide⟩

/-- A caller between `sessions` and the ack, and one after a frame that met its deadline. -/
theorem caller_comes_first :
    let before : List WireEvent := [.enter, .lock 0, .begin (.caller 0) pingText,
      .write (.caller 0), .write (.caller 0), .begin .handle ackText, .write .handle,
      .write .handle]
    let inside : List WireEvent := [.enter, .begin .handle ackText, .write .handle, .lock 0,
      .begin (.caller 0) pingText, .write (.caller 0), .write (.caller 0), .write .handle]
    let late : List WireEvent := [.enter, .begin .handle ackText, .write .handle,
      .write .handle, .lock 0, .begin (.caller 0) pingText, .write (.caller 0),
      .fail (.caller 0) 0, .unlock 0, .lock 1, .begin (.caller 1) pingText, .write (.caller 1),
      .write (.caller 1)]
    ((exec (Wire.step ackText) {} before).stream = frame pingText ++ frame ackText ∧
      ¬ InOrder ackText (exec (Wire.step ackText) {} before)) ∧
    ((exec (Wire.step ackText) {} inside).stream =
        bigEndian ackText.length ++ frame pingText ++ ackText ∧
      ¬ InOrder ackText (exec (Wire.step ackText) {} inside)) ∧
    ((exec (Wire.step ackText) {} late).stream =
        frame ackText ++ bigEndian pingText.length ++ frame pingText ∧
      ¬ Along (Wire.step ackText) (EndsTorn ackText) {} late) := by
  intro before inside late
  -- a stream in order begins with the ack, or is the beginning of it
  have hfirst : ∀ s : Wire, InOrder ackText s →
      frame ackText <+: s.stream ∨ s.stream <+: frame ackText := by
    rintro s ⟨jsons, json, part, -, hstream, hpart, -, hhead⟩
    cases jsons with
    | nil =>
      right
      cases hhead
      rw [hstream]
      exact hpart
    | cons first rest =>
      left
      cases hhead
      rw [hstream, flatMap_cons, append_assoc]
      exact prefix_append _ _
  refine ⟨⟨by decide, ?_⟩, ⟨by decide, ?_⟩, by decide, ?_⟩
  · intro h
    exact absurd (hfirst _ h) (by decide)
  · intro h
    exact absurd (hfirst _ h) (by decide)
  · unfold EndsTorn
    decide

end CtForge.Server.Writers
