import CtForge.Lib.Shell
import Mathlib.Data.List.TakeWhile

/-!
# Command lines with arguments in single quotes

A line of fixed parts and of texts that are pasted between single quotes, one blank
apart. The shell reads each text as part of one word exactly if none has a quote.

* **`Keeps`**: what the shell has read of a word with a quotation stays in it.
-/

namespace CtForge.Shell

open CLang List Option Lexer Bool

def optionWord (opt w : Bytes) : Token :=
  .word (opt.map Piece.plain ++ .mark 39 :: w.map Piece.quoted ++ [.mark 39])

/-! ## What has been read stays -/

namespace Lexer

/-- The word `w`, read behind the tokens `ts`, is in progress or has been completed. -/
inductive Keeps (ts : List Token) (w : List Piece) (l : Lexer) : Prop
  | word (v : List Piece) (hword : l.word = w ++ v) (htokens : l.tokens = ts)
  | token (v : List Piece) (more : List Token) (htokens : l.tokens = ts ++ .word (w ++ v) :: more)

variable {ts : List Token} {w : List Piece} {l : Lexer}

theorem Keeps.setMode (h : l.Keeps ts w) (mode : Mode) : Keeps ts w { l with mode := mode } := by
  cases h with
  | word v hword htokens => exact .word v hword htokens
  | token v more htokens => exact .token v more htokens

theorem Keeps.put (h : l.Keeps ts w) (p : Piece) : (l.put p).Keeps ts w := by
  cases h with
  | word v hword htokens =>
    refine .word (v ++ [p]) ?_ htokens
    rw [Lexer.put, hword, append_assoc]
  | token v more htokens => exact .token v more htokens

theorem Keeps.cut (h : l.Keeps ts w) (hw : w ≠ []) : l.cut.Keeps ts w := by
  cases h with
  | word v hword htokens =>
    refine .token v [] ?_
    simp [Lexer.cut, htokens, hword, hw]
  | token v more htokens =>
    refine .token v (more ++ if l.word.isEmpty then [] else [.word l.word]) ?_
    simp only [Lexer.cut, htokens, append_assoc, cons_append]

variable {c : UInt8}

theorem isNumber_of_mark {v : List Piece} (h : .mark c ∈ v) : isNumber v = false := by
  rw [isNumber, and_eq_false_iff]
  right
  rw [List.all_eq_false]
  exact ⟨.mark c, h, by simp⟩

theorem Keeps.operator (h : l.Keeps ts w) (hw : .mark c ∈ w) (d : UInt8) :
    (l.operator d).Keeps ts w := by
  have hop : ∀ {m : Lexer}, m.Keeps ts w → m.word = [] →
      Keeps ts w { m with tokens := m.tokens ++ [Token.op d] } := by
    intro m hm hnil
    cases hm with
    | word v hword htokens =>
      rw [hnil] at hword
      have hwnil := (append_eq_nil_iff.mp hword.symm).1
      rw [hwnil] at hw
      cases hw
    | token v more htokens => exact .token v (more ++ [Token.op d]) (by simp [htokens])
  unfold Lexer.operator
  dsimp only
  split
  · rename_i hnumber
    refine hop ?_ rfl
    cases h with
    | word v hword htokens =>
      have hmark : .mark c ∈ l.word := hword ▸ mem_append_left v hw
      simp [isNumber_of_mark hmark] at hnumber
    | token v more htokens => exact .token v (more ++ [Token.ioNumber l.word]) (by simp [htokens])
  · exact hop (h.cut (ne_nil_of_mem hw)) rfl

/-- One byte keeps the word that has a quotation in its place. -/
theorem Keeps.step (h : l.Keeps ts w) (hw : .mark c ∈ w) (d : UInt8) : (l.step d).Keeps ts w := by
  have hne : w ≠ [] := ne_nil_of_mem hw
  unfold Lexer.step
  split
  · unfold Lexer.stepBare
    split_ifs
    · exact h.cut hne
    · exact h.operator hw d
    · exact h.setMode .comment
    · exact (h.put _).setMode .single
    · exact (h.put _).setMode .double
    · exact h.setMode _
    · exact h.put _
    · exact h.put _
  · unfold stepComment
    split
    · exact (h.operator hw d).setMode .bare
    · exact h
  · unfold Lexer.stepSingle
    split
    · exact (h.put _).setMode .bare
    · exact h.put _
  · unfold Lexer.stepDouble
    split_ifs
    · exact (h.put _).setMode .bare
    · exact h.setMode _
    · exact h.put _
    · exact h.put _
  · unfold Lexer.stepEscaped
    dsimp only
    split_ifs
    · exact h.setMode _
    · exact h.setMode _
    all_goals exact ((h.setMode _).put _).put _

theorem Keeps.run (h : l.Keeps ts w) (hw : .mark c ∈ w) (s : Bytes) : (l.run s).Keeps ts w := by
  induction s generalizing l with
  | nil => exact h
  | cons d s ih => exact ih (h.step hw d)

end Lexer

/-! ## A text that is cut is read as less -/

def Token.weight : Token → Nat
  | .word w | .ioNumber w => w.length
  | .op _ => 1

def weight : List Token → Nat
  | [] => 0
  | t :: ts => t.weight + weight ts

theorem weight_append (ts us : List Token) : weight (ts ++ us) = weight ts + weight us := by
  induction ts with
  | nil => simp [weight]
  | cons t ts ih => rw [cons_append, weight, ih, weight, Nat.add_assoc]

def isSolid (c : UInt8) : Bool := !isBlank c && !([10, 35, 92].elem c)

namespace Lexer

def weight (l : Lexer) : Nat := Shell.weight l.tokens + l.word.length

theorem weight_setMode (l : Lexer) (mode : Mode) : weight { l with mode := mode } = l.weight := rfl

theorem weight_put (l : Lexer) (p : Piece) : (l.put p).weight = l.weight + 1 := by
  simp [weight, put, Nat.add_assoc]

theorem weight_cut (l : Lexer) : l.cut.weight = l.weight := by
  cases hword : l.word <;> simp [weight, cut, hword, weight_append, Shell.weight, Token.weight]

theorem weight_operator (l : Lexer) (c : UInt8) : (l.operator c).weight = l.weight + 1 := by
  have hcut := l.weight_cut
  unfold operator
  dsimp only
  split
  · simp [weight, weight_append, Shell.weight, Token.weight, Nat.add_assoc]
  · simp only [weight, weight_append] at hcut ⊢
    simp only [Shell.weight, Token.weight]
    omega

theorem weight_le_step (l : Lexer) (c : UInt8) : l.weight ≤ (l.step c).weight := by
  unfold step
  split
  · unfold stepBare
    split_ifs <;> simp [weight_cut, weight_operator, weight_setMode, weight_put]
  · unfold stepComment
    split <;> simp [weight_operator, weight_setMode]
  · unfold stepSingle
    split <;> simp [weight_setMode, weight_put]
  · unfold stepDouble
    split_ifs <;> simp [weight_setMode, weight_put]
  · unfold stepEscaped
    dsimp only
    split_ifs <;> simp only [weight_put, weight_setMode] <;> omega

theorem weight_le_run (l : Lexer) (s : Bytes) : l.weight ≤ (l.run s).weight := by
  induction s generalizing l with
  | nil => exact Nat.le_refl _
  | cons c s ih => exact Nat.le_trans (l.weight_le_step c) (ih (l.step c))

theorem weight_lt_step {l : Lexer} {c : UInt8} (hc : isSolid c = true) (hmode : l.mode ≠ .comment) :
    l.weight < (l.step c).weight := by
  obtain ⟨hblank, hnewline, hhash, hback⟩ : isBlank c = false ∧ c ≠ 10 ∧ c ≠ 35 ∧ c ≠ 92 := by
    simpa [isSolid] using hc
  unfold step
  split
  · unfold stepBare
    simp only [hblank, beq_eq_false_iff_ne.mpr hhash, beq_eq_false_iff_ne.mpr hback,
      Bool.false_and, false_eq_true, if_false]
    split_ifs <;> simp [weight_operator, weight_setMode, weight_put]
  · exact absurd ‹_› hmode
  · unfold stepSingle
    split <;> simp [weight_setMode, weight_put]
  · unfold stepDouble
    simp only [hback, beq_iff_eq, if_false]
    split_ifs <;> simp [weight_setMode, weight_put]
  · unfold stepEscaped
    simp only [hnewline, beq_iff_eq, if_false]
    split_ifs <;> simp only [weight_put, weight_setMode] <;> omega

end Lexer

variable {ts : List Token} {s : Bytes}

theorem weight_of_split (h : split s = some ts) : (Lexer.start.run s).weight = weight ts := by
  unfold split Lexer.finish at h
  rw [← weight_cut]
  split at h
  · cases h
    rfl
  · cases h
    rfl
  · cases h

/-- A line that is cut before its last word has fewer bytes in its words. -/
theorem weight_lt_of_reads {t : Bytes} {c : UInt8}
    (h : Reads (t ++ [c] ++ [32]) ts) (hc : isSolid c = true) (hs : s <+: t) :
    (Lexer.start.run s).weight < weight ts := by
  obtain ⟨u, rfl⟩ := hs
  have hend := h []
  rw [nil_append, run_append, run_append] at hend
  change Lexer.step (Lexer.step (Lexer.start.run (s ++ u)) c) 32 = _ at hend
  have hmode : (Lexer.start.run (s ++ u)).mode ≠ .comment := by
    intro hcomment
    have hnewline : c ≠ 10 := by
      rintro rfl
      cases hc
    have hstep : Lexer.step (Lexer.start.run (s ++ u)) c = Lexer.start.run (s ++ u) := by
      simp [Lexer.step, hcomment, Lexer.stepComment, hnewline]
    rw [hstep, Lexer.step, hcomment] at hend
    cases hcomment.symm.trans (congrArg Lexer.mode hend)
  calc (Lexer.start.run s).weight
      ≤ (Lexer.start.run (s ++ u)).weight := by
        rw [run_append]
        exact weight_le_run _ _
    _ < (Lexer.step (Lexer.start.run (s ++ u)) c).weight := weight_lt_step hc hmode
    _ ≤ (Lexer.step (Lexer.step (Lexer.start.run (s ++ u)) c) 32).weight :=
        weight_le_step _ _
    _ = weight ts := by
        rw [hend]
        exact Nat.add_zero _

/-! ## One text in single quotes -/

theorem run_option {opt w : Bytes} (hopt : opt = [] ∨ isPlainWord opt = true) (hw : 39 ∉ w)
    (before : List Token) :
    Lexer.run ⟨.bare, [], before⟩ (opt ++ 39 :: w ++ [39]) =
      ⟨.bare, opt.map Piece.plain ++ Piece.mark 39 :: w.map Piece.quoted ++ [Piece.mark 39],
        before⟩ := by
  have hplain : Lexer.run ⟨.bare, [], before⟩ opt = ⟨.bare, opt.map Piece.plain, before⟩ := by
    rcases hopt with rfl | hopt
    · rfl
    · exact run_plainWord hopt before
  have hopen : ∀ v,
      Lexer.run ⟨.bare, v, before⟩ [39] = ⟨.single, v ++ [Piece.mark 39], before⟩ := by
    intro v
    rfl
  have htext : opt ++ 39 :: w ++ [39] = opt ++ ([39] ++ (w ++ [39])) := by simp
  rw [htext, run_append, hplain, run_append, hopen, run_append,
    run_single hw]
  simp [Lexer.run, Lexer.step, Lexer.stepSingle, Lexer.put]

theorem reads_option {opt w : Bytes} (hopt : opt = [] ∨ isPlainWord opt = true) (hw : 39 ∉ w) :
    Reads (opt ++ 39 :: w ++ [39] ++ [32]) [optionWord opt w] := by
  intro before
  rw [run_append, run_option hopt hw]
  simp [Lexer.run, Lexer.step, Lexer.stepBare, isBlank, Lexer.cut, optionWord]

theorem split_of_reads (h : Reads (s ++ [32]) ts) : split s = some ts := by
  have hrun := h []
  rw [nil_append, run_append] at hrun
  rw [split, Lexer.start]
  generalize Lexer.run ⟨.bare, [], []⟩ s = l at hrun
  obtain ⟨mode, word, tokens⟩ := l
  have hstep : Lexer.step ⟨mode, word, tokens⟩ 32 = ⟨.bare, [], ts⟩ := hrun
  cases mode with
  | bare => exact congrArg (fun l => some l.tokens) hstep
  | comment => cases hstep
  | single | double => cases congrArg Lexer.mode hstep
  | escaped inDouble =>
    have hword := congrArg Lexer.word hstep
    cases inDouble <;> simp [Lexer.step, Lexer.stepEscaped, Lexer.put] at hword

/-- A text with a quote is not read as one argument, wherever the line is cut. -/
theorem split_broken {pre opt w rest : Bytes} {us : List Token} (hpre : Reads pre ts)
    (hopt : opt = [] ∨ isPlainWord opt = true) (hw : 39 ∈ w)
    (hs : s <+: pre ++ (opt ++ 39 :: w ++ [39]) ++ rest) :
    split s ≠ some (ts ++ optionWord opt w :: us) := by
  obtain ⟨a, b, rfl, ha⟩ := eq_append_cons_of_mem hw
  intro hsplit
  have htext : pre ++ (opt ++ 39 :: (a ++ 39 :: b) ++ [39]) ++ rest =
      (pre ++ (opt ++ 39 :: a) ++ [39]) ++ (b ++ 39 :: rest) := by simp
  have hclosed : Reads (pre ++ (opt ++ 39 :: a) ++ [39] ++ [32]) (ts ++ [optionWord opt a]) := by
    simpa using hpre.append (reads_option hopt ha)
  rcases prefix_or_prefix_of_prefix hs ⟨_, htext.symm⟩ with hcut | ⟨more, rfl⟩
  · rcases prefix_concat_iff.mp hcut with rfl | hcut
    · -- the word ends at the quote
      have hread := split_of_reads hclosed
      rw [hsplit, Option.some.injEq] at hread
      have hword := (List.cons.inj (append_cancel_left hread)).1
      simp [optionWord] at hword
    · have hlt := weight_lt_of_reads hclosed (by decide) hcut
      rw [weight_of_split hsplit, weight_append, weight_append] at hlt
      simp [weight, optionWord, Token.weight] at hlt
      omega
  · -- the piece at the quote is a mark, and would have to be a quoted byte
    have hkeeps : Lexer.Keeps ts
        (opt.map Piece.plain ++ .mark 39 :: a.map Piece.quoted ++ [.mark 39])
        (Lexer.start.run (pre ++ (opt ++ 39 :: a) ++ [39] ++ more)) := by
      have hstart := hpre []
      rw [nil_append] at hstart
      have hassoc : pre ++ (opt ++ 39 :: a) ++ [39] ++ more =
          pre ++ ((opt ++ 39 :: a ++ [39]) ++ more) := by simp
      rw [hassoc, run_append, Lexer.start, hstart, run_append, run_option hopt ha]
      refine Lexer.Keeps.run ?_ (c := 39) (by simp) _
      exact .word [] (append_nil _).symm rfl
    have htokens : (Lexer.cut (Lexer.start.run (pre ++ (opt ++ 39 :: a) ++ [39] ++ more))).tokens =
        ts ++ optionWord opt (a ++ 39 :: b) :: us := by
      unfold split Lexer.finish at hsplit
      split at hsplit
      · exact some.inj hsplit
      · exact some.inj hsplit
      · cases hsplit
    cases hkeeps.cut (by simp) with
    | word v hnil _ => simp [Lexer.cut] at hnil
    | token v rest hmore =>
      have hword := (List.cons.inj (append_cancel_left (hmore.symm.trans htokens))).1
      simp [optionWord] at hword

/-! ## Lines of arguments -/

inductive Arg where
  | fixed (s : Bytes) (ts : List Token)
  | field (opt w : Bytes)

namespace Arg

def text : Arg → Bytes
  | fixed s _ => s
  | field opt w => opt ++ 39 :: w ++ [39]

def tokens : Arg → List Token
  | fixed _ ts => ts
  | field opt w => [optionWord opt w]

def Proper : Arg → Prop
  | fixed s ts => Reads (s ++ [32]) ts
  | field opt _ => opt = [] ∨ isPlainWord opt = true

def isClosed : Arg → Bool
  | fixed _ _ => true
  | field _ w => !w.contains 39

theorem reads {a : Arg} (hproper : a.Proper) (hclosed : a.isClosed = true) :
    Reads (a.text ++ [32]) a.tokens := by
  cases a with
  | fixed s ts => exact hproper
  | field opt w => exact reads_option hproper (by simpa [isClosed] using hclosed)

end Arg

def line (args : List Arg) : Bytes := [32].intercalate (args.map Arg.text)

variable {args : List Arg}

theorem reads_args (hproper : ∀ a ∈ args, a.Proper) (hclosed : ∀ a ∈ args, a.isClosed = true) :
    Reads (args.flatMap fun a => a.text ++ [32]) (args.flatMap Arg.tokens) := by
  induction args with
  | nil =>
    intro before
    simp [Lexer.run]
  | cons a args ih =>
    rw [forall_mem_cons] at hproper hclosed
    exact (Arg.reads hproper.1 hclosed.1).append (ih hproper.2 hclosed.2)

theorem line_cons (a b : Arg) (args : List Arg) :
    line (a :: b :: args) = a.text ++ 32 :: line (b :: args) := by
  simp [line, List.intercalate]

theorem line_append (before : List Arg) (a : Arg) (after : List Arg) :
    ∃ rest, line (before ++ a :: after) =
      (before.flatMap fun a => a.text ++ [32]) ++ a.text ++ rest := by
  induction before with
  | nil =>
    cases after with
    | nil => exact ⟨[], by simp [line, List.intercalate]⟩
    | cons b after => exact ⟨32 :: line (b :: after), by simp [line_cons]⟩
  | cons b before ih =>
    obtain ⟨rest, hrest⟩ := ih
    refine ⟨rest, ?_⟩
    obtain ⟨c, args, hargs⟩ : ∃ c args, before ++ a :: after = c :: args := by
      cases before with
      | nil => exact ⟨a, after, rfl⟩
      | cons c before => exact ⟨c, before ++ a :: after, rfl⟩
    rw [cons_append, hargs, line_cons, ← hargs, hrest]
    simp

theorem line_append_line {before after : List Arg} (hbefore : before ≠ []) (hafter : after ≠ []) :
    line (before ++ after) = line before ++ 32 :: line after := by
  obtain ⟨b, after, rfl⟩ := exists_cons_of_ne_nil hafter
  induction before with
  | nil => exact absurd rfl hbefore
  | cons a before ih =>
    cases before with
    | nil => simp [line, List.intercalate]
    | cons c before =>
      have hrest := ih (by simp)
      rw [cons_append] at hrest
      rw [cons_append, cons_append, line_cons, hrest, line_cons]
      simp

theorem line_groups (hne : args ≠ []) {groups : List (List Arg)} (hgroups : ∀ g ∈ groups, g ≠ []) :
    line (args ++ groups.flatten) = line args ++ (groups.map fun g => 32 :: line g).flatten := by
  induction groups generalizing args with
  | nil => simp
  | cons g groups ih =>
    obtain ⟨hg, hgroups⟩ := forall_mem_cons.mp hgroups
    rw [flatten_cons, ← append_assoc, ih (by simp [hne]) hgroups,
      line_append_line hne hg, map_cons, flatten_cons, append_assoc]

theorem line_blank (hne : args ≠ []) :
    line args ++ [32] = args.flatMap fun a => a.text ++ [32] := by
  induction args with
  | nil => exact absurd rfl hne
  | cons a args ih =>
    cases args with
    | nil => simp [line, List.intercalate]
    | cons b args =>
      rw [line_cons, flatMap_cons, ← ih (by simp)]
      simp

/-- If the line is read as its parts, no text in it has a quote. -/
theorem closed_of_split (hproper : ∀ a ∈ args, a.Proper) {more : Bytes}
    (hs : s <+: line args ++ more) (hsplit : split s = some (args.flatMap Arg.tokens)) :
    ∀ a ∈ args, a.isClosed = true := by
  by_contra hopen
  have hdrop : args.dropWhile Arg.isClosed ≠ [] := fun hnil =>
    hopen (dropWhile_eq_nil_iff.mp hnil)
  obtain ⟨a, after, hafter⟩ := exists_cons_of_ne_nil hdrop
  have hbroken : a.isClosed = false := by
    have hhead := List.head?_dropWhile_not Arg.isClosed args
    rw [hafter] at hhead
    simpa using hhead
  have hargs : args.takeWhile Arg.isClosed ++ a :: after = args := by
    rw [← hafter]
    exact takeWhile_append_dropWhile
  have hbefore : ∀ b ∈ args.takeWhile Arg.isClosed, b.isClosed = true := fun b hb =>
    mem_takeWhile_imp hb
  have hmem : ∀ b ∈ args.takeWhile Arg.isClosed, b ∈ args := fun b hb =>
    (takeWhile_sublist _).mem hb
  generalize args.takeWhile Arg.isClosed = before at hargs hbefore hmem
  obtain ⟨rest, hrest⟩ := line_append before a after
  rw [← hargs, hrest, append_assoc] at hs
  have hreads := reads_args (fun b hb => hproper b (hmem b hb)) hbefore
  cases a with
  | fixed s ts => cases hbroken
  | field opt w =>
    have hopt : opt = [] ∨ isPlainWord opt = true :=
      hproper (.field opt w) (hargs ▸ by simp)
    have htokens : args.flatMap Arg.tokens =
        before.flatMap Arg.tokens ++ optionWord opt w :: after.flatMap Arg.tokens := by
      rw [← hargs, flatMap_append, flatMap_cons]
      rfl
    exact split_broken hreads hopt (by simpa [Arg.isClosed] using hbroken) hs
      (hsplit.trans (congrArg some htokens))

theorem reads_line (hne : args ≠ []) (hproper : ∀ a ∈ args, a.Proper)
    (hclosed : ∀ a ∈ args, a.isClosed = true) :
    Reads (line args ++ [32]) (args.flatMap Arg.tokens) := by
  rw [line_blank hne]
  exact reads_args hproper hclosed

/-- The line is read as its parts if and only if no text that is pasted in has a quote. -/
theorem split_line_iff (hne : args ≠ []) (hproper : ∀ a ∈ args, a.Proper) :
    split (line args) = some (args.flatMap Arg.tokens) ↔ ∀ a ∈ args, a.isClosed = true := by
  constructor
  · exact closed_of_split hproper (prefix_append (line args) [])
  · intro hclosed
    exact split_of_reads (reads_line hne hproper hclosed)

theorem line_prefix_of_split (hne : args ≠ []) (hproper : ∀ a ∈ args, a.Proper) {t : Bytes}
    {c : UInt8} (hend : line args = t ++ [c]) (hc : isSolid c = true) {more : Bytes}
    (hs : s <+: line args ++ more) (hsplit : split s = some (args.flatMap Arg.tokens)) :
    line args <+: s := by
  have hreads := reads_line hne hproper (closed_of_split hproper hs hsplit)
  rcases prefix_or_prefix_of_prefix hs (prefix_append _ _) with hcut | hwhole
  · rw [hend] at hcut hreads ⊢
    rcases prefix_concat_iff.mp hcut with rfl | hcut
    · exact prefix_refl _
    · have hlt := weight_lt_of_reads hreads hc hcut
      rw [weight_of_split hsplit] at hlt
      exact absurd hlt (Nat.lt_irrefl _)
  · exact hwhole

end CtForge.Shell
