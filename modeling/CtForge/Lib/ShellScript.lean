import CtForge.Lib.ShellArgs

/-!
# How a POSIX shell reads a script

A script is read line by line: the tokens of a line, which may go on over newlines that
are quoted, and then the here-documents that the line announces, up to the lines that
are their delimiters. `<<-` is not among them, and a substitution inside double quotes is
kept byte by byte behind the byte that starts it.

* **`ReadsLines`**: whole lines and what they are read as; such texts compose.
* **`run_double`**, **`safe_of_readScript`**: a text in double quotes is taken as it stands
  exactly if it is safe; otherwise another byte than a quoted one stays in the word.
* **`run_inDoc`**, **`noLine_of_readScript`**: so with the lines of a here-document.
-/

namespace CtForge.Shell

open CLang List Option

/-- A here-document that has been announced. Its text is not expanded if part of the
delimiter is quoted. -/
structure Doc where
  delim : Bytes
  isQuoted : Bool
  deriving DecidableEq, Repr

inductive Item where
  | token (t : Token)
  | data (doc : Doc) (text : Bytes)
  deriving DecidableEq, Repr

def Piece.removeQuote : Piece → Option UInt8
  | .mark _ => none
  | .plain c | .quoted c | .active c => some c

def Doc.ofWord (w : List Piece) : Doc where
  delim := w.filterMap Piece.removeQuote
  isQuoted := w.any fun p => p.removeQuote.isNone

def hereDocs : List Token → List Doc
  | .op 60 :: .op 60 :: .word w :: ts => .ofWord w :: hereDocs ts
  | _ :: ts => hereDocs ts
  | [] => []

/-- What has been read, the tokens of the line in progress, the here-documents that are
still to come, and of the first of them its lines and the line in progress. -/
structure Reader where
  items : List Item
  lexer : Lexer
  docs : List Doc
  data : Bytes
  line : Bytes
  deriving DecidableEq, Repr

namespace Reader

def between (items : List Item) : Reader := ⟨items, Lexer.start, [], [], []⟩

def start : Reader := between []

def endsLine (l : Lexer) (c : UInt8) : Bool := c == 10 && (l.mode == .bare || l.mode == .comment)

def step (r : Reader) (c : UInt8) : Reader :=
  match r.docs with
  | [] =>
    let l := r.lexer.step c
    if endsLine r.lexer c then
      { r with items := r.items ++ l.tokens.map .token, lexer := .start, docs := hereDocs l.tokens }
    else { r with lexer := l }
  | doc :: docs =>
    if c == 10 then
      if r.line == doc.delim then
        { r with items := r.items ++ [.data doc r.data], docs := docs, data := [], line := [] }
      else { r with data := r.data ++ r.line ++ [10], line := [] }
    else { r with line := r.line ++ [c] }

def run (r : Reader) (s : Bytes) : Reader := s.foldl step r

theorem run_append (r : Reader) (s t : Bytes) : r.run (s ++ t) = (r.run s).run t :=
  foldl_append

/-- What the script is when it ends here; none inside a quotation or a here-document. -/
def finish (r : Reader) : Option (List Item) :=
  match r.docs with
  | [] => r.lexer.finish.map fun ts => r.items ++ ts.map .token
  | _ :: _ => none

def isBetween (r : Reader) : Bool := r == between r.items

end Reader

def readScript (s : Bytes) : Option (List Item) := (Reader.start.run s).finish

/-! ## Whole lines -/

namespace Reader

def after (r : Reader) (before : List Item) : Reader := { r with items := before ++ r.items }

theorem after_step (r : Reader) (before : List Item) (c : UInt8) :
    (r.after before).step c = (r.step c).after before := by
  obtain ⟨items, lexer, docs, data, line⟩ := r
  cases docs with
  | nil => by_cases hend : endsLine lexer c = true <;> simp [step, after, hend]
  | cons doc docs =>
    by_cases hc : c = 10 <;> by_cases hline : line = doc.delim <;> simp [step, after, hc, hline]

theorem after_run (r : Reader) (before : List Item) (s : Bytes) :
    (r.after before).run s = (r.run s).after before := by
  induction s generalizing r with
  | nil => rfl
  | cons c s ih =>
    change ((r.after before).step c).run s = _
    rw [after_step, ih]
    rfl

end Reader

/-- Read between two lines, the text gives the items and ends between two lines. -/
def ReadsLines (s : Bytes) (items : List Item) : Prop :=
  ∀ before, (Reader.between before).run s = .between (before ++ items)

theorem ReadsLines.append {s t : Bytes} {is js : List Item} (hs : ReadsLines s is)
    (ht : ReadsLines t js) : ReadsLines (s ++ t) (is ++ js) := by
  intro before
  rw [Reader.run_append, hs, ht, append_assoc]

variable {s : Bytes} {items : List Item}

/-- Whole lines are a script. -/
theorem ReadsLines.readScript (h : ReadsLines s items) : readScript s = some items := by
  have hrun := h []
  rw [nil_append] at hrun
  rw [Shell.readScript, Reader.start, hrun]
  simp [Reader.finish, Reader.between, Lexer.start, Lexer.finish, Lexer.cut]

theorem readsLines_of_run (h : Reader.start.run s = .between items) : ReadsLines s items := by
  intro before
  have hafter := Reader.after_run Reader.start before s
  rw [h] at hafter
  simpa [Reader.after, Reader.between, Reader.start] using hafter

theorem readsLines_of_isBetween (h : (Reader.start.run s).isBetween = true) :
    ReadsLines s (Reader.start.run s).items :=
  readsLines_of_run (beq_iff_eq.mp h)

/-! ## What has been read stays -/

namespace Reader

theorem items_prefix_step (r : Reader) (c : UInt8) : r.items <+: (r.step c).items := by
  unfold step
  split
  · dsimp only
    split
    · exact prefix_append _ _
    · exact prefix_refl _
  · split
    · split
      · exact prefix_append _ _
      · exact prefix_refl _
    · exact prefix_refl _

theorem items_prefix_run (r : Reader) (s : Bytes) : r.items <+: (r.run s).items := by
  induction s generalizing r with
  | nil => exact prefix_refl _
  | cons c s ih => exact (r.items_prefix_step c).trans (ih (r.step c))

theorem items_prefix_finish {r : Reader} (h : r.finish = some items) : r.items <+: items := by
  unfold finish at h
  split at h
  · obtain ⟨ts, -, rfl⟩ := map_eq_some_iff.mp h
    exact prefix_append _ _
  · cases h

/-- The word `w`, read behind the items and the tokens `ts` of its line, is in progress or
has been completed. -/
inductive Keeps (items : List Item) (ts : List Token) (w : List Piece) (r : Reader) : Prop
  | line (hdocs : r.docs = []) (hitems : r.items = items) (hlexer : r.lexer.Keeps ts w)
  | item (v : List Piece) (more : List Item)
    (hitems : r.items = items ++ ts.map .token ++ .token (.word (w ++ v)) :: more)

variable {items : List Item} {ts : List Token} {w : List Piece} {r : Reader} {c : UInt8}

theorem word_of_endsLine {l : Lexer} (h : endsLine l c = true) : (l.step c).word = [] := by
  obtain ⟨mode, word, tokens⟩ := l
  simp only [endsLine, Bool.and_eq_true, Bool.or_eq_true, beq_iff_eq] at h
  obtain ⟨rfl, rfl | rfl⟩ := h
  · simp [Lexer.step, Lexer.stepBare, isBlank, isOperator, Lexer.operator, Lexer.cut]
  · simp [Lexer.step, Lexer.stepComment, Lexer.operator, Lexer.cut]

/-- One byte keeps the word that has a quotation in its place. -/
theorem Keeps.step (h : r.Keeps items ts w) (hw : .mark c ∈ w) (d : UInt8) :
    (r.step d).Keeps items ts w := by
  cases h with
  | line hdocs hitems hlexer =>
    have hnext := hlexer.step hw d
    unfold Reader.step
    rw [hdocs]
    dsimp only
    split
    · rename_i hend
      cases hnext with
      | word v hword _ =>
        rw [word_of_endsLine hend] at hword
        rw [(append_eq_nil_iff.mp hword.symm).1] at hw
        cases hw
      | token v more htokens =>
        refine .item v (more.map .token) ?_
        simp [htokens, hitems]
    · exact .line rfl hitems hnext
  | item v more hitems =>
    obtain ⟨rest, hrest⟩ := r.items_prefix_step d
    exact .item v (more ++ rest) (by rw [← hrest, hitems]; simp)

/-- A whole text keeps the word that has a quotation in its place. -/
theorem Keeps.run (h : r.Keeps items ts w) (hw : .mark c ∈ w) (s : Bytes) :
    (r.run s).Keeps items ts w := by
  induction s generalizing r with
  | nil => exact h
  | cons d s ih => exact ih (h.step hw d)

/-- The word that has a quotation is in what the script is read as. -/
theorem Keeps.finish (h : r.Keeps items ts w) (hw : .mark c ∈ w) {is : List Item}
    (hfinish : r.finish = some is) :
    ∃ v more, is = items ++ ts.map .token ++ .token (.word (w ++ v)) :: more := by
  cases h with
  | line hdocs hitems hlexer =>
    unfold Reader.finish at hfinish
    rw [hdocs] at hfinish
    obtain ⟨us, hus, rfl⟩ := map_eq_some_iff.mp hfinish
    have hcut : r.lexer.cut.tokens = us := by
      unfold Lexer.finish at hus
      split at hus
      · exact some.inj hus
      · exact some.inj hus
      · cases hus
    cases hlexer.cut (ne_nil_of_mem hw) with
    | word v hnil _ =>
      rw [(append_eq_nil_iff.mp hnil.symm).1] at hw
      cases hw
    | token v more htokens =>
      rw [hcut] at htokens
      exact ⟨v, more.map .token, by simp [hitems, htokens]⟩
  | item v more hitems =>
    obtain ⟨rest, hrest⟩ := items_prefix_finish hfinish
    exact ⟨v, more ++ rest, by rw [← hrest, hitems]; simp⟩

def inLine (items : List Item) (l : Lexer) : Reader := ⟨items, l, [], [], []⟩

theorem step_inLine {l : Lexer} (h : endsLine l c = false) :
    (inLine items l).step c = inLine items (l.step c) := by
  simp [Reader.step, inLine, h]

theorem step_inDouble (mode : Mode) (hmode : mode ≠ .bare ∧ mode ≠ .comment) (c : UInt8) :
    (inLine items ⟨mode, w, ts⟩).step c = inLine items (Lexer.step ⟨mode, w, ts⟩ c) :=
  step_inLine (by simp [endsLine, hmode.1, hmode.2])

end Reader

/-! ## A text in double quotes -/

/-- A byte that double quotes take as it stands, whatever follows. -/
def isData (c : UInt8) : Bool := !([34, 36, 92, 96].elem c)

/-- A text that double quotes take as it stands. The backslash does not stand for itself before
a byte that it quotes, nor before a newline. -/
def isDoubleSafe : Bytes → Bool
  | [] => true
  | [c] => isData c
  | c :: d :: s =>
    if c == 92 then isData d && d != 10 && isDoubleSafe s else isData c && isDoubleSafe (d :: s)

variable {c : UInt8}

theorem isDoubleSafe_cons (h : isData c = true) (s : Bytes) :
    isDoubleSafe (c :: s) = isDoubleSafe s := by
  have hback : c ≠ 92 := by
    rintro rfl
    cases h
  cases s with
  | nil => simp [isDoubleSafe, h]
  | cons d s => simp [isDoubleSafe, h, hback]

theorem isDoubleSafe_data (h : s.all isData = true) (t : Bytes) :
    isDoubleSafe (s ++ t) = isDoubleSafe t := by
  induction s with
  | nil => rfl
  | cons c s ih =>
    rw [all_cons, Bool.and_eq_true] at h
    rw [cons_append, isDoubleSafe_cons h.1, ih h.2]

variable {d : UInt8}

theorem isDoubleSafe_append (hc : isData c = true ∧ c ≠ 10)
    (hd : isData d = true ∧ d ≠ 10) (s t : Bytes) :
    isDoubleSafe (s ++ c :: t) = (isDoubleSafe (s ++ [d]) && isDoubleSafe t) := by
  induction s using isDoubleSafe.induct with
  | case1 =>
    rw [nil_append, isDoubleSafe_cons hc.1]
    simp [isDoubleSafe, hd.1]
  | case2 b =>
    by_cases hb : b = 92
    · simp [hb, isDoubleSafe, hc.1, hd.1, bne_iff_ne.mpr hc.2, bne_iff_ne.mpr hd.2]
    · simp [hb, isDoubleSafe, isDoubleSafe_cons hc.1, hd.1]
  | case3 b e s hb ih =>
    simp only [beq_iff_eq] at hb
    simp [hb, isDoubleSafe, ih, Bool.and_assoc]
  | case4 b e s hb ih =>
    simp only [beq_iff_eq] at hb
    simp only [cons_append] at ih
    simp [hb, isDoubleSafe, ih, Bool.and_assoc]

namespace Reader

variable {items : List Item} {ts : List Token}

theorem step_quoted (h : isData c = true) (w : List Piece) :
    (inLine items ⟨.double, w, ts⟩).step c = inLine items ⟨.double, w ++ [Piece.quoted c], ts⟩ := by
  obtain ⟨hquote, hdollar, hback, hbackquote⟩ : c ≠ 34 ∧ c ≠ 36 ∧ c ≠ 92 ∧ c ≠ 96 := by
    simpa [isData] using h
  rw [step_inDouble .double (by simp)]
  simp [Lexer.step, Lexer.stepDouble, hquote, hdollar, hback, hbackquote, Lexer.put]

theorem run_backslash (h : isData d = true) (hnewline : d ≠ 10) (w : List Piece) :
    (inLine items ⟨.double, w, ts⟩).run [92, d] =
      inLine items ⟨.double, w ++ [Piece.quoted 92, Piece.quoted d], ts⟩ := by
  obtain ⟨hquote, hdollar, hback, hbackquote⟩ : d ≠ 34 ∧ d ≠ 36 ∧ d ≠ 92 ∧ d ≠ 96 := by
    simpa [isData] using h
  have hfirst : (inLine items ⟨.double, w, ts⟩).step 92 =
      inLine items ⟨.escaped true, w, ts⟩ := step_inDouble .double (by simp) 92
  change ((inLine items ⟨.double, w, ts⟩).step 92).step d = _
  rw [hfirst, step_inDouble (.escaped true) (by simp)]
  simp [Lexer.step, Lexer.stepEscaped, hnewline, hquote, hdollar, hback, hbackquote, Lexer.put]

variable {s : Bytes}

theorem run_double (h : isDoubleSafe s = true) (w : List Piece) :
    (inLine items ⟨.double, w, ts⟩).run s =
      inLine items ⟨.double, w ++ s.map Piece.quoted, ts⟩ := by
  induction s using isDoubleSafe.induct generalizing w with
  | case1 => simp [run]
  | case2 c => exact step_quoted h w
  | case3 c d s hc ih =>
    obtain rfl : c = 92 := beq_iff_eq.mp hc
    simp only [isDoubleSafe, beq_self_eq_true, if_true, Bool.and_eq_true, bne_iff_ne] at h
    change ((inLine items ⟨.double, w, ts⟩).run [92, d]).run s = _
    rw [run_backslash h.1.1 h.1.2, ih h.2]
    simp
  | case4 c d s hc ih =>
    simp only [isDoubleSafe, hc, if_false, Bool.and_eq_true, Bool.false_eq_true] at h
    change ((inLine items ⟨.double, w, ts⟩).step c).run (d :: s) = _
    rw [step_quoted h.1, ih h.2]
    simp

def InDouble (s : Bytes) (v : List Piece) : Prop :=
  ∀ items w ts, (inLine items ⟨.double, w, ts⟩).run s = inLine items ⟨.double, w ++ v, ts⟩

theorem inDouble_safe (h : isDoubleSafe s = true) : InDouble s (s.map .quoted) :=
  fun _ w _ => run_double h w

theorem inDouble_dollar : InDouble [36] [.active 36] :=
  fun _ _ _ => step_inDouble .double (by simp) 36

theorem InDouble.append {s t : Bytes} {v v' : List Piece} (hs : InDouble s v)
    (ht : InDouble t v') : InDouble (s ++ t) (v ++ v') := by
  intro items w ts
  rw [run_append, hs items w ts, ht items (w ++ v) ts, append_assoc]

theorem readsLines_double {pre s : Bytes} {w v : List Piece}
    (hpre : start.run pre = inLine [] ⟨.double, w, ts⟩) (hs : InDouble s v)
    (hdocs : hereDocs (ts ++ [Token.word (w ++ v ++ [Piece.mark 34]), Token.op 10]) = []) :
    ReadsLines (pre ++ s ++ [34, 10])
      ((ts ++ [Token.word (w ++ v ++ [Piece.mark 34]), Token.op 10]).map Item.token) := by
  intro before
  have hbefore : (between before).run pre = inLine before ⟨.double, w, ts⟩ := by
    have hafter := start.after_run before pre
    rw [hpre] at hafter
    simpa [after, between, inLine, start] using hafter
  rw [run_append, run_append, hbefore, hs]
  change ((inLine before ⟨.double, w ++ v, ts⟩).step 34).step 10 = _
  have hclose : (inLine before ⟨.double, w ++ v, ts⟩).step 34 =
      inLine before ⟨.bare, w ++ v ++ [Piece.mark 34], ts⟩ := step_inDouble .double (by simp) 34
  have htokens : (Lexer.step ⟨.bare, w ++ v ++ [Piece.mark 34], ts⟩ 10).tokens =
      ts ++ [Token.word (w ++ v ++ [Piece.mark 34]), Token.op 10] := by
    simp [Lexer.step, Lexer.stepBare, isBlank, isOperator, Lexer.operator, Lexer.cut]
  rw [hclose]
  simp only [step, inLine, endsLine, htokens, hdocs]
  rfl

/-- Up to the quote that is meant to end it, the text puts another piece into the word than a
quoted byte of its own. -/
def Breaks (items : List Item) (ts : List Token) (w : List Piece) (s : Bytes) : Prop :=
  ∃ u v, s ++ [34] = u ++ v ∧ ∃ mode q p more,
    (inLine items ⟨.double, w, ts⟩).run u = inLine items ⟨mode, w ++ q ++ p :: more, ts⟩ ∧
      q.length < s.length ∧ ∀ c, p ≠ .quoted c

theorem breaks_now {w : List Piece} {s u : Bytes} (v : Bytes)
    (htext : c :: s ++ [34] = u ++ v) {mode : Mode} {p : Piece} (more : List Piece)
    (hp : ∀ d, p ≠ .quoted d)
    (hrun : (inLine items ⟨.double, w, ts⟩).run u = inLine items ⟨mode, w ++ p :: more, ts⟩) :
    Breaks items ts w (c :: s) :=
  ⟨u, v, htext, mode, [], p, more, by rw [hrun, append_nil], Nat.succ_pos _, hp⟩

theorem Breaks.later {w v : List Piece} {s t : Bytes} (hlen : v.length ≤ s.length)
    (hrun : (inLine items ⟨.double, w, ts⟩).run s = inLine items ⟨.double, w ++ v, ts⟩)
    (h : Breaks items ts (w ++ v) t) : Breaks items ts w (s ++ t) := by
  obtain ⟨u, u', htext, mode, q, p, more, hu, hq, hp⟩ := h
  refine ⟨s ++ u, u', by rw [append_assoc, htext, append_assoc], mode, v ++ q, p, more,
    ?_, ?_, hp⟩
  · rw [run_append, hrun, hu]
    simp
  · rw [length_append, length_append]
    omega

theorem run_escaped (h : isData d = false) (w : List Piece) :
    (inLine items ⟨.double, w, ts⟩).run [92, d] =
      inLine items ⟨.double, w ++ [Piece.mark 92, Piece.quoted d], ts⟩ := by
  have hfirst : (inLine items ⟨.double, w, ts⟩).step 92 =
      inLine items ⟨.escaped true, w, ts⟩ := step_inDouble .double (by simp) 92
  have hcases : d = 34 ∨ d = 36 ∨ d = 92 ∨ d = 96 := by
    simpa [isData, ← or_iff_not_imp_left] using h
  change ((inLine items ⟨.double, w, ts⟩).step 92).step d = _
  rw [hfirst, step_inDouble (.escaped true) (by simp)]
  rcases hcases with rfl | rfl | rfl | rfl <;>
    simp [Lexer.step, Lexer.stepEscaped, Lexer.put]

theorem breaks_of_special (h : isData c = false) (hback : c ≠ 92) (w : List Piece)
    (s : Bytes) : Breaks items ts w (c :: s) := by
  have hstep : ∀ (c : UInt8), (inLine items ⟨.double, w, ts⟩).run [c] =
      inLine items (Lexer.stepDouble ⟨.double, w, ts⟩ c) := step_inDouble .double (by simp)
  have hcases : c = 34 ∨ c = 36 ∨ c = 92 ∨ c = 96 := by
    simpa [isData, ← or_iff_not_imp_left] using h
  rcases hcases with rfl | rfl | rfl | rfl
  · exact breaks_now (s ++ [34]) rfl [] (p := .mark 34) (by simp) (hstep 34)
  · exact breaks_now (s ++ [34]) rfl [] (p := .active 36) (by simp) (hstep 36)
  · exact absurd rfl hback
  · exact breaks_now (s ++ [34]) rfl [] (p := .active 96) (by simp) (hstep 96)

theorem breaks_of_escaped (h : isData d = false) (w : List Piece) {s rest : Bytes}
    (htext : 92 :: s ++ [34] = 92 :: d :: rest) : Breaks items ts w (92 :: s) :=
  breaks_now rest htext [.quoted d] (p := .mark 92) (by simp) (run_escaped h w)

theorem breaks_of_joined (w : List Piece) (h : isDoubleSafe s = true ∨ Breaks items ts w s) :
    Breaks items ts w (92 :: 10 :: s) := by
  have hjoin : (inLine items ⟨.double, w, ts⟩).run [92, 10] = inLine items ⟨.double, w, ts⟩ := by
    have hfirst : (inLine items ⟨.double, w, ts⟩).step 92 =
        inLine items ⟨.escaped true, w, ts⟩ := step_inDouble .double (by simp) 92
    change ((inLine items ⟨.double, w, ts⟩).step 92).step 10 = _
    rw [hfirst, step_inDouble (.escaped true) (by simp)]
    rfl
  rcases h with hsafe | hbreaks
  · refine ⟨[92, 10] ++ (s ++ [34]), [], by simp, .bare, s.map .quoted, .mark 34, [], ?_, ?_,
      by simp⟩
    swap
    · simp only [length_map, length_cons]
      omega
    rw [run_append, hjoin, run_append, run_double hsafe]
    exact step_inDouble .double (by simp) 34
  · refine Breaks.later (v := []) (s := [92, 10]) (Nat.zero_le _) ?_ ?_
    · rw [hjoin, append_nil]
    · rwa [append_nil]

/-- A text that is not safe leaves another piece than a quoted byte in the word. -/
theorem breaks_of_not_safe (h : isDoubleSafe s = false) (w : List Piece) : Breaks items ts w s := by
  induction s using isDoubleSafe.induct generalizing w with
  | case1 => cases h
  | case2 c =>
    by_cases hc : c = 92
    · exact hc ▸ breaks_of_escaped (d := 34) rfl w rfl
    · exact breaks_of_special h hc w []
  | case3 c d s hc ih =>
    obtain rfl : c = 92 := beq_iff_eq.mp hc
    cases hd : isData d with
    | false => exact breaks_of_escaped hd w rfl
    | true =>
      by_cases hnewline : d = 10
      · subst hnewline
        cases hs : isDoubleSafe s with
        | true => exact breaks_of_joined w (.inl hs)
        | false => exact breaks_of_joined w (.inr (ih hs w))
      · have hs : isDoubleSafe s = false := by
          simpa [isDoubleSafe, hd, hnewline] using h
        exact Breaks.later (s := [92, d]) (Nat.le_refl _) (run_backslash hd hnewline w) (ih hs _)
  | case4 c d s hc ih =>
    cases hd : isData c with
    | false => exact breaks_of_special hd (by simpa using hc) w (d :: s)
    | true =>
      have hs : isDoubleSafe (d :: s) = false := by
        rwa [isDoubleSafe_cons hd] at h
      exact Breaks.later (s := [c]) (Nat.le_refl _) (step_quoted hd w) (ih hs _)

end Reader

/-- If the word carries the text as it stands, the text is safe. -/
theorem safe_of_readScript {pre s rest : Bytes} {more : List Item} {ts : List Token}
    {w v : List Piece} (hpre : Reader.start.run pre = .inLine items ⟨.double, w, ts⟩)
    (hw : .mark 34 ∈ w) (hread : readScript (pre ++ s ++ 34 :: rest) =
      some (items ++ ts.map .token ++ .token (.word (w ++ s.map .quoted ++ v)) :: more)) :
    isDoubleSafe s = true := by
  by_contra hunsafe
  have hbreaks : Reader.Breaks items ts w s :=
    Reader.breaks_of_not_safe (Bool.eq_false_of_not_eq_true hunsafe) w
  obtain ⟨u, u', htext, mode, q, p, extra, hrun, hq, hp⟩ := hbreaks
  have hsplit : pre ++ s ++ 34 :: rest = pre ++ (u ++ (u' ++ rest)) := by
    rw [← append_assoc u, ← htext]
    simp
  have hmark : Piece.mark 34 ∈ w ++ q ++ [p] := by simp [hw]
  have hkeeps : (Reader.inLine items ⟨mode, w ++ q ++ p :: extra, ts⟩).Keeps items ts
      (w ++ q ++ [p]) := .line rfl rfl (.word extra (by simp [Reader.inLine]) rfl)
  have hfinal := hkeeps.run hmark (u' ++ rest)
  rw [readScript, hsplit, Reader.run_append, hpre, Reader.run_append, hrun] at hread
  obtain ⟨v', more', hitems⟩ := hfinal.finish hmark hread
  have hword := (List.cons.inj (append_cancel_left hitems)).1
  simp only [Item.token.injEq, Token.word.injEq, append_assoc] at hword
  -- at the place of the piece the word that is meant has a byte of the text
  have hat := congrArg (fun ps : List Piece => ps[q.length]?) (append_cancel_left hword)
  rw [List.getElem?_append_left (by simpa using hq)] at hat
  simp only [List.getElem?_map, List.getElem?_append_right (Nat.le_refl _), Nat.sub_self,
    cons_append, List.getElem?_cons_zero, map_eq_some_iff] at hat
  obtain ⟨c, -, hc⟩ := hat
  exact hp c hc.symm

/-! ## The text of a here-document -/

/-- Is a line of the text the delimiter? `line` is the line in progress. -/
def hasLine (delim : Bytes) : (line : Bytes) → Bytes → Bool
  | line, [] => line == delim
  | line, c :: s =>
    if c == 10 then line == delim || hasLine delim [] s else hasLine delim (line ++ [c]) s

variable {line : Bytes}

theorem hasLine_of_not_mem {delim s : Bytes} (hs : 10 ∉ s) (h : line ++ s ≠ delim) :
    hasLine delim line s = false := by
  induction s generalizing line with
  | nil => simpa [hasLine] using h
  | cons c s ih =>
    obtain ⟨hc, hs⟩ : 10 ≠ c ∧ 10 ∉ s := by simpa using hs
    rw [hasLine, if_neg (by simpa using hc.symm)]
    exact ih hs (by simpa using h)

theorem hasLine_append {delim s t : Bytes} :
    hasLine delim line (s ++ 10 :: t) = (hasLine delim line s || hasLine delim [] t) := by
  induction s generalizing line with
  | nil => simp [hasLine]
  | cons c s ih =>
    by_cases hc : c = 10
    · simp [hasLine, hc, ih, Bool.or_assoc]
    · simp [hasLine, hc, ih]

theorem hasLine_begin {delim s : Bytes} (hs : 10 ∉ s) (t : Bytes) :
    hasLine delim line (s ++ t) = hasLine delim (line ++ s) t := by
  induction s generalizing line with
  | nil => simp
  | cons c s ih =>
    obtain ⟨hc, hs⟩ : 10 ≠ c ∧ 10 ∉ s := by simpa using hs
    rw [cons_append, hasLine, if_neg (by simpa using hc.symm), ih hs]
    simp

namespace Reader

def inDoc (items : List Item) (doc : Doc) (docs : List Doc) (data line : Bytes) : Reader :=
  ⟨items, Lexer.start, doc :: docs, data, line⟩

variable {items : List Item} {doc : Doc} {docs : List Doc}

theorem step_inDoc (data line : Bytes) (h : c ≠ 10) :
    (inDoc items doc docs data line).step c = inDoc items doc docs data (line ++ [c]) := by
  simp [step, inDoc, h]

theorem step_line (data : Bytes) (h : line ≠ doc.delim) :
    (inDoc items doc docs data line).step 10 = inDoc items doc docs (data ++ line ++ [10]) [] := by
  simp [step, inDoc, h]

theorem step_delim (data : Bytes) :
    (inDoc items doc docs data doc.delim).step 10 =
      ⟨items ++ [Item.data doc data], Lexer.start, docs, [], []⟩ := by
  simp [step, inDoc]

theorem run_inDoc (data : Bytes) {s : Bytes} (h : hasLine doc.delim line s = false) :
    (inDoc items doc docs data line).run (s ++ [10]) =
      inDoc items doc docs (data ++ line ++ s ++ [10]) [] := by
  induction s generalizing data line with
  | nil =>
    rw [append_nil]
    exact step_line data (by simpa [hasLine] using h)
  | cons c s ih =>
    by_cases hc : c = 10
    · subst hc
      obtain ⟨hline, hrest⟩ : line ≠ doc.delim ∧ hasLine doc.delim [] s = false := by
        simpa [hasLine] using h
      change ((inDoc items doc docs data line).step 10).run (s ++ [10]) = _
      rw [step_line data hline, ih _ hrest]
      simp
    · have hrest : hasLine doc.delim (line ++ [c]) s = false := by simpa [hasLine, hc] using h
      change ((inDoc items doc docs data line).step c).run (s ++ [10]) = _
      rw [step_inDoc data line hc, ih _ hrest]
      simp

theorem run_delim (data : Bytes) {s : Bytes} (hs : 10 ∉ s) (h : line ++ s = doc.delim) :
    (inDoc items doc docs data line).run (s ++ [10]) =
      ⟨items ++ [Item.data doc data], Lexer.start, docs, [], []⟩ := by
  induction s generalizing line with
  | nil =>
    rw [append_nil] at h
    exact h ▸ step_delim data
  | cons c s ih =>
    obtain ⟨hc, hs⟩ : 10 ≠ c ∧ 10 ∉ s := by simpa using hs
    change ((inDoc items doc docs data line).step c).run (s ++ [10]) = _
    rw [step_inDoc data line hc.symm, ih hs (by simpa using h)]

/-- A line that ends the here-document leaves less data in it than was pasted. -/
theorem broken_inDoc (data : Bytes) {s : Bytes} (h : hasLine doc.delim line s = true) :
    ∃ u v text, s ++ [10] = u ++ v ∧
      ((inDoc items doc docs data line).run u).items = items ++ [Item.data doc text] ∧
      text.length < data.length + line.length + s.length + 1 := by
  induction s generalizing data line with
  | nil =>
    obtain rfl : line = doc.delim := by simpa [hasLine] using h
    refine ⟨[10], [], data, rfl, ?_, by simp only [length_nil]; omega⟩
    change ((inDoc items doc docs data doc.delim).step 10).items = _
    rw [step_delim]
  | cons c s ih =>
    by_cases hc : c = 10
    · subst hc
      by_cases hline : line = doc.delim
      · refine ⟨[10], s ++ [10], data, rfl, ?_, by simp only [length_cons]; omega⟩
        change ((inDoc items doc docs data line).step 10).items = _
        rw [hline, step_delim]
      · have hrest : hasLine doc.delim [] s = true := by simpa [hasLine, hline] using h
        obtain ⟨u, v, text, htext, hitems, hlen⟩ := ih (data ++ line ++ [10]) hrest
        simp only [length_append, length_cons, length_nil] at hlen ⊢
        refine ⟨10 :: u, v, text, by simp [htext], ?_, by omega⟩
        change (((inDoc items doc docs data line).step 10).run u).items = _
        rw [step_line data hline, hitems]
    · have hrest : hasLine doc.delim (line ++ [c]) s = true := by simpa [hasLine, hc] using h
      obtain ⟨u, v, text, htext, hitems, hlen⟩ := ih data hrest
      simp only [length_append, length_cons, length_nil] at hlen ⊢
      refine ⟨c :: u, v, text, by simp [htext], ?_, by omega⟩
      change (((inDoc items doc docs data line).step c).run u).items = _
      rw [step_inDoc data line hc, hitems]

end Reader

theorem noLine_of_readScript {pre s rest text : Bytes} {more : List Item} {doc : Doc}
    {docs : List Doc} (hpre : Reader.start.run pre = .inDoc items doc docs [] [])
    (hread : readScript (pre ++ s ++ 10 :: rest) = some (items ++ .data doc text :: more))
    (htext : s.length < text.length) : hasLine doc.delim [] s = false := by
  by_contra hline
  have hbroken : ∃ u v cut, s ++ [10] = u ++ v ∧
      ((Reader.inDoc items doc docs [] []).run u).items = items ++ [Item.data doc cut] ∧
      cut.length < ([] : Bytes).length + ([] : Bytes).length + s.length + 1 :=
    Reader.broken_inDoc [] (Bool.eq_true_of_not_eq_false hline)
  obtain ⟨u, v, cut, hcut, hitems, hlen⟩ := hbroken
  have hsplit : pre ++ s ++ 10 :: rest = pre ++ (u ++ (v ++ rest)) := by
    rw [← append_assoc u, ← hcut]
    simp
  rw [readScript, hsplit, Reader.run_append, hpre, Reader.run_append] at hread
  have hprefix := (Reader.items_prefix_run _ (v ++ rest)).trans (Reader.items_prefix_finish hread)
  rw [hitems, prefix_append_right_inj, cons_prefix_cons] at hprefix
  obtain ⟨hdata, -⟩ := hprefix
  cases hdata
  simp only [length_nil, Nat.zero_add] at hlen
  omega

/-! ## Fixed lines -/

def unlines (lines : List Bytes) : Bytes := lines.flatMap (· ++ [10])

/-- Where a reader is after a line: between two lines or in a here-document. -/
def Reader.place (r : Reader) : Option (Option Doc) :=
  match r.docs with
  | [] => if r == between r.items then some none else none
  | [doc] => if r == inDoc r.items doc [] [] [] then some (some doc) else none
  | _ => none

/-- Where a reader comes to with a line, from between two lines or from a here-document. -/
def nextLine : Option Doc → Bytes → Option (Option Doc)
  | none, line => (Reader.start.run (line ++ [10])).place
  | some doc, line =>
    if line.contains 10 then none else if line == doc.delim then some none else some (some doc)

def followLines : Option Doc → List Bytes → Option (Option Doc)
  | d, [] => some d
  | d, line :: lines => (nextLine d line).bind fun d => followLines d lines

namespace Reader

def atPlace (items : List Item) (data : Bytes) : Option Doc → Reader
  | none => between items
  | some doc => inDoc items doc [] data []

theorem eq_of_place {r : Reader} {d : Option Doc} (h : r.place = some d) :
    r = atPlace r.items [] d := by
  unfold place at h
  split at h
  · split at h
    · rename_i hr
      cases h
      exact beq_iff_eq.mp hr
    · cases h
  · split at h
    · rename_i hr
      cases h
      exact beq_iff_eq.mp hr
    · cases h
  · cases h

theorem after_atPlace (before items : List Item) (data : Bytes) (d : Option Doc) :
    (atPlace items data d).after before = atPlace (before ++ items) data d := by
  cases d <;> rfl

/-- A line of the fixed script is read the same behind whatever was read before. -/
theorem run_line {d d' : Option Doc} (h : nextLine d line = some d') (data : Bytes) :
    ∃ is data', ∀ before,
      (atPlace before data d).run (line ++ [10]) = atPlace (before ++ is) data' d' := by
  cases d with
  | none =>
    refine ⟨(start.run (line ++ [10])).items, [], fun before => ?_⟩
    have hafter := start.after_run before (line ++ [10])
    rw [eq_of_place h, after_atPlace] at hafter
    rw [← hafter, start, between, after, append_nil]
    rfl
  | some doc =>
    simp only [nextLine] at h
    split at h
    · cases h
    rename_i hnewline
    have hnewline : 10 ∉ line := by simpa using hnewline
    split at h
    · rename_i hdelim
      cases h
      exact ⟨[.data doc data], [], fun before =>
        run_delim data hnewline (by simpa using hdelim)⟩
    · rename_i hdelim
      cases h
      refine ⟨[], data ++ [] ++ line ++ [10], fun before => ?_⟩
      rw [append_nil before]
      exact run_inDoc data (hasLine_of_not_mem hnewline (by simpa using hdelim))

theorem run_unlines {d : Option Doc} {lines : List Bytes} (h : followLines d lines = some none)
    (data : Bytes) :
    ∃ is, ∀ before, (atPlace before data d).run (unlines lines) = between (before ++ is) := by
  induction lines generalizing d data with
  | nil =>
    cases h
    exact ⟨[], fun before => by rw [append_nil]; rfl⟩
  | cons line lines ih =>
    obtain ⟨d', hline, hlines⟩ := bind_eq_some_iff.mp h
    obtain ⟨is, data', hrun⟩ := run_line hline data
    obtain ⟨js, hrest⟩ := ih hlines data'
    refine ⟨is ++ js, fun before => ?_⟩
    rw [unlines, flatMap_cons, run_append, hrun, ← unlines, hrest, append_assoc]

end Reader

theorem readsLines_unlines {lines : List Bytes} (h : followLines none lines = some none) :
    ReadsLines (unlines lines) (Reader.start.run (unlines lines)).items := by
  obtain ⟨is, hrun⟩ := Reader.run_unlines h []
  have hstart : Reader.start.run (unlines lines) = .between is := hrun []
  rw [hstart]
  exact hrun

end CtForge.Shell
