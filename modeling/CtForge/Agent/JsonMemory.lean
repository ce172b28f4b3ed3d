import CtForge.Lib.CMemory
import CtForge.Agent.Util
import Mathlib.Data.List.DropRight

/-!
# The JSON helpers and the memory of their input (`util.c`)

The helpers once more, with each byte that they read or write. A pointer is what is left of the
input from there on, its NUL included, so that a step over the NUL leaves nothing to read. They
agree with the functions on the text before the NUL. The one step that can leave the input is
that over the four digits of a `\u`: `sscanf` needs only one of them, and the pointer moves on by
four.

* **`findKey_eq`**, **`jsonGetString_eq`**: the helpers stay inside where the functions on texts
  have a result, and then have that result.
-/

namespace CtForge.Agent.Memory

open CLang CMemory List

/-! ## The helpers -/

/-- `strncmp(p, key, klen) == 0 && p[klen] == '"'`, and the colon behind it. -/
def matchKey (key p : Bytes) : Except Stray (Option Bytes) := do
  if ← strncmp p key then
    let c ← load (p.drop key.length)
    if c == 34 then
      let q ← skipSpace (p.drop (key.length + 1))
      let c ← load q
      return if c == 58 then some (q.drop 1) else none
    else return none
  else return none

/-- The loops of `find_key`: `strchr` for the next string, and the skip over one. -/
def findKeyFrom (key : Bytes) : (inString : Bool) → Bytes → Except Stray (Option Bytes)
  | _, [] => .error .read
  | false, c :: p =>
    if c == 34 then do
      match ← matchKey key p with
      | some v => return some v
      | none => findKeyFrom key true p
    else if c == 0 then return none
    else findKeyFrom key false p
  | true, [c] =>
    -- the next test of the loop has nothing to read
    if c == 0 then return none else .error .read
  | true, c :: d :: p =>
    -- at the NUL the skip ends, and `strchr` finds no further quote
    if c == 0 then return none
    else if c == 92 && d != 0 then findKeyFrom key true p
    else if c == 34 then findKeyFrom key false (d :: p)
    else findKeyFrom key true (d :: p)

def findKey (json key : Bytes) : Except Stray (Option Bytes) := findKeyFrom key false json

/-- The loop of `ctc_json_get_string`, with `out` in the buffer; `skip` bytes are stepped over
without a look at them. -/
def copyString (size : Nat) : (skip : Nat) → (out v : Bytes) → Except Stray Bytes
  | _, _, [] => .error .read
  | skip + 1, out, _ :: v => copyString size skip out v
  | 0, out, [c] =>
    if c == 0 || c == 34 || out.length + 1 ≥ size then store size out 0
    else .error .read
  | 0, out, c :: d :: v =>
    if c == 0 || c == 34 || out.length + 1 ≥ size then store size out 0
    else if c == 92 && d != 0 then
      if d == 117 then do
        match scanHex (← stringAt v) with
        | some code => copyString size 4 (← store size out code) v
        | none => copyString size 0 (← store size out 63) v
      else do copyString size 0 (← store size out (unescapeByte d)) v
    else do copyString size 0 (← store size out c) (d :: v)

/-- The buffer, with its NUL; none for `NULL`. -/
def jsonGetString (json key : Bytes) (size : Nat) : Except Stray (Option Bytes) := do
  match ← findKey json key with
  | none => return none
  | some v =>
    let v ← skipSpace v
    if (← load v) != 34 then return none
    else (copyString size 0 [] (v.drop 1)).map some

def jsonGetInt (json key : Bytes) (defval : Int) : Except Stray Int := do
  match ← findKey json key with
  | none => return defval
  | some v => return strtol (← stringAt (← skipSpace v))

def jsonGetBool (json key : Bytes) (defval : Bool) : Except Stray Bool := do
  match ← findKey json key with
  | none => return defval
  | some v =>
    let v ← skipSpace v
    if ← strncmp v (lit "true") then return true
    else if ← strncmp v (lit "false") then return false
    else if (← load v) == 49 then return true
    else if (← load v) == 48 then return false
    else return defval

/-! ## The search -/

variable {text key : Bytes}

theorem startsWith_append_iff (key t w : Bytes) :
    startsWith (key ++ t) (key ++ w) = true ↔ startsWith t w = true := by
  rw [startsWith_iff, startsWith_iff, prefix_append_right_inj]

theorem load_colon {t : Bytes} (ht : 0 ∉ t) :
    (do let q ← skipSpace (t ++ [0]); let c ← load q
        return if c == 58 then some (q.drop 1) else none) =
      .ok ((match t.dropWhile isSpace with
        | 58 :: v => some v
        | _ => none).map (· ++ [0])) := by
  rw [skipSpace_terminated ht, bind_ok]
  cases t.dropWhile isSpace with
  | nil => rfl
  | cons c u =>
    by_cases hc : c = 58
    · rw [hc]
      rfl
    · have hmatch : (match c :: u with
          | 58 :: v => some v
          | _ => none) = (none : Option Bytes) := by
        split
        · next h => exact absurd (List.cons.inj h).1 hc
        · rfl
      rw [hmatch, cons_append, load, bind_ok, if_neg (by simpa using hc)]
      rfl

theorem matchKey_eq (htext : 0 ∉ text) (hkey : 0 ∉ key) :
    matchKey key (text ++ [0]) = .ok ((Agent.matchKey key text).map (· ++ [0])) := by
  rw [matchKey, strncmp_terminated htext hkey, bind_ok, Agent.matchKey]
  by_cases hpre : startsWith text key = true
  · obtain ⟨t, rfl⟩ := startsWith_iff.mp hpre
    have hdrop : ∀ n, (key ++ t ++ [0]).drop (key.length + n) = (t ++ [0]).drop n := by
      intro n
      rw [append_assoc, ← drop_drop, drop_left]
    rw [if_pos hpre, ← Nat.add_zero key.length, hdrop 0]
    cases t with
    | nil =>
      have hshort : ¬ startsWith (key ++ []) (key ++ [34]) = true := by
        rw [startsWith_append_iff]
        decide
      rw [if_neg hshort]
      rfl
    | cons c t =>
      have ht : 0 ∉ t := fun h => htext (mem_append_right key (mem_cons_of_mem c h))
      have hnext : (key ++ c :: t).drop (key.length + 1) = t := by
        rw [← drop_drop, drop_left]
        rfl
      rw [Nat.add_zero, hdrop 1, hnext, cons_append, drop_zero, load, bind_ok]
      by_cases hc : c = 34
      · have hquoted : startsWith (key ++ c :: t) (key ++ [34]) = true := by
          rw [startsWith_append_iff, hc]
          exact startsWith_iff.mpr ⟨t, rfl⟩
        rw [if_pos (by simpa using hc), if_pos hquoted]
        exact load_colon ht
      · have hother : ¬ startsWith (key ++ c :: t) (key ++ [34]) = true := by
          rw [startsWith_append_iff, startsWith_iff, cons_prefix_cons]
          exact fun h => hc h.1.symm
        rw [if_neg (by simpa using hc), if_neg hother]
        rfl
  · have hother : ¬ startsWith text (key ++ [34]) = true := by
      rw [startsWith_iff] at hpre ⊢
      exact fun h => hpre ((prefix_append key [34]).trans h)
    rw [if_neg hpre, if_neg hother]
    rfl

theorem exists_cons_terminated (p : Bytes) : ∃ d q, p ++ [0] = d :: q :=
  exists_cons_of_ne_nil (by simp)

/-- The walk from quote to quote stays inside a terminated text. -/
theorem findKeyFrom_eq (htext : 0 ∉ text) (hkey : 0 ∉ key) (inString : Bool) :
    findKeyFrom key inString (text ++ [0]) =
      .ok ((Agent.findKeyFrom key inString text).map (· ++ [0])) := by
  fun_induction Agent.findKeyFrom key inString text with
  | case1 inString => cases inString <;> rfl
  | case2 p ih =>
    obtain ⟨-, hp⟩ : (0 : UInt8) ≠ 34 ∧ 0 ∉ p := by simpa using htext
    rw [cons_append, findKeyFrom, if_pos (by decide), matchKey_eq hp hkey, bind_ok]
    cases Agent.matchKey key p with
    | none => exact ih hp
    | some v => rfl
  | case3 c p hc ih =>
    obtain ⟨h0, hp⟩ : 0 ≠ c ∧ 0 ∉ p := by simpa using htext
    rw [cons_append, findKeyFrom, if_neg (by simpa using hc), if_neg (by simpa using h0.symm)]
    exact ih hp
  | case4 d p ih =>
    obtain ⟨-, hd, hp⟩ : (0 : UInt8) ≠ 92 ∧ 0 ≠ d ∧ 0 ∉ p := by simpa using htext
    rw [cons_append, cons_append, findKeyFrom, if_neg (by decide),
      if_pos (by simpa using hd.symm)]
    exact ih hp
  | case5 p ih =>
    obtain ⟨-, hp⟩ : (0 : UInt8) ≠ 34 ∧ 0 ∉ p := by simpa using htext
    obtain ⟨d, q, hq⟩ := exists_cons_terminated p
    rw [cons_append, hq, findKeyFrom, if_neg (by decide), if_neg (by simp), if_pos (by decide),
      ← hq]
    exact ih hp
  | case6 c p hpair hquote ih =>
    obtain ⟨hc, hp⟩ : 0 ≠ c ∧ 0 ∉ p := by simpa using htext
    obtain ⟨d, q, hq⟩ := exists_cons_terminated p
    -- a backslash at the end of the text is followed by the NUL only
    have hlast : ¬ (c == 92 && d != 0) = true := by
      cases p with
      | nil =>
        obtain ⟨rfl, -⟩ := List.cons.inj hq
        simp
      | cons e p => simpa using fun h : c = 92 => absurd rfl (hpair e p h)
    rw [cons_append, hq, findKeyFrom, if_neg (by simpa using hc.symm), if_neg hlast,
      if_neg (by simpa using hquote), ← hq]
    exact ih hp

/-- `find_key` stays inside and finds what the function on texts finds. -/
theorem findKey_eq (htext : 0 ∉ text) (hkey : 0 ∉ key) :
    findKey (text ++ [0]) key = .ok ((Agent.findKey text key).map (· ++ [0])) :=
  findKeyFrom_eq htext hkey false

theorem matchKey_suffix {p v : Bytes} (h : Agent.matchKey key p = some v) : v <:+ p := by
  rw [Agent.matchKey] at h
  split at h
  · split at h
    · next w hdrop =>
      cases h
      have hsuffix := dropWhile_suffix isSpace (l := p.drop (key.length + 1))
      rw [hdrop] at hsuffix
      exact (suffix_cons 58 v).trans (hsuffix.trans (drop_suffix _ p))
    · cases h
  · cases h

variable {v : Bytes}

theorem findKeyFrom_suffix {inString : Bool} (h : Agent.findKeyFrom key inString text = some v) :
    v <:+ text := by
  fun_induction Agent.findKeyFrom key inString text with
  | case1 => cases h
  | case2 p ih =>
    refine List.IsSuffix.trans ?_ (suffix_cons 34 p)
    rcases Option.or_eq_some_iff.mp h with hmatch | ⟨-, hrest⟩
    · exact matchKey_suffix hmatch
    · exact ih hrest
  | case3 c p _ ih | case6 c p _ _ ih => exact (ih h).trans (suffix_cons c p)
  | case4 d p ih => exact (ih h).trans ((suffix_cons d p).trans (suffix_cons 92 _))
  | case5 p ih => exact (ih h).trans (suffix_cons 34 p)

/-! ## The copy -/

theorem copyString_skip (size skip : Nat) (out p : Bytes) :
    copyString size skip out p =
      if p.length ≤ skip then .error .read else copyString size 0 out (p.drop skip) := by
  induction skip generalizing p with
  | zero =>
    cases p with
    | nil | cons c p => rfl
  | succ skip ih =>
    cases p with
    | nil => rfl
    | cons c p =>
      rw [copyString, ih]
      simp

theorem copyString_stop {size : Nat} {out : Bytes} (hout : out.length < size) {c : UInt8}
    (hstop : c = 0 ∨ c = 34 ∨ out.length + 1 ≥ size) (p : Bytes) :
    copyString size 0 out (c :: p) = .ok (out ++ [0]) := by
  have htest : (c == 0 || c == 34 || out.length + 1 ≥ size) = true := by
    simpa [or_assoc] using hstop
  cases p with
  | nil | cons d p => rw [copyString, if_pos htest, store_of_lt hout]

section Step

variable {size : Nat} {out : Bytes} (hout : out.length + 1 < size)

include hout

theorem copyString_byte {c d : UInt8} (hc : c ≠ 0 ∧ c ≠ 34) (hpair : c = 92 → d = 0) (p : Bytes) :
    copyString size 0 out (c :: d :: p) = copyString size 0 (out ++ [c]) (d :: p) := by
  have hgo : ¬ (c == 0 || c == 34 || out.length + 1 ≥ size) = true := by
    simpa [hc] using hout
  have hplain : ¬ (c == 92 && d != 0) = true := by
    simpa using hpair
  rw [copyString, if_neg hgo, if_neg hplain, store_of_lt (by omega), bind_ok]

theorem copyString_pair {d : UInt8} (hd : d ≠ 0) (p : Bytes) :
    copyString size 0 out (92 :: d :: p) =
      if d == 117 then do
        match scanHex (← stringAt p) with
        | some code => copyString size 4 (out ++ [code]) p
        | none => copyString size 0 (out ++ [63]) p
      else copyString size 0 (out ++ [unescapeByte d]) p := by
  have hgo : ¬ ((92 : UInt8) == 0 || (92 : UInt8) == 34 || out.length + 1 ≥ size) = true := by
    simpa using hout
  have hback : ((92 : UInt8) == 92 && d != 0) = true := by simpa using hd
  rw [copyString, if_neg hgo, if_pos hback]
  simp only [store_of_lt (show out.length < size by omega), bind_ok]

theorem copyString_code {v : Bytes} (hv : 0 ∉ v) :
    copyString size 0 out (92 :: 117 :: (v ++ [0])) =
      match scanHex v with
      | some code => copyString size 4 (out ++ [code]) (v ++ [0])
      | none => copyString size 0 (out ++ [63]) (v ++ [0]) := by
  rw [copyString_pair hout (by decide), if_pos (by decide), stringAt_terminated hv, bind_ok]

end Step

/-- The buffer at the end, if the loop on texts copied what `copied` is. -/
def ending (out : Bytes) : (copied : Except Fault Bytes) → Except Stray Bytes
  | .ok copied => .ok (out ++ copied ++ [0])
  | .error _ => .error .read

theorem ending_map (out : Bytes) (c : UInt8) (copied : Except Fault Bytes) :
    ending out (copied.map (c :: ·)) = ending (out ++ [c]) copied := by
  cases copied with
  | ok copied => simp [ending, Except.map]
  | error e => rfl

/-- The copy of a string, byte access by byte access, is the copy on texts, or leaves the text
with it. -/
theorem copyString_eq {size room : Nat} {out v : Bytes} (hv : 0 ∉ v)
    (hroom : out.length + room + 1 = size) :
    copyString size 0 out (v ++ [0]) = ending out (Agent.copyString room v) := by
  fun_induction Agent.copyString room v generalizing out with
  | case1 v =>
    obtain ⟨d, q, hq⟩ := exists_cons_terminated v
    rw [hq, copyString_stop (by omega) (.inr (.inr (by omega)))]
    simp [ending]
  | case2 room =>
    rw [nil_append, copyString_stop (by omega) (.inl rfl)]
    simp [ending]
  | case3 room v =>
    rw [cons_append, copyString_stop (by omega) (.inr (.inl rfl))]
    simp [ending]
  | case4 room v code hscan hshort =>
    have hv : 0 ∉ v := fun h => hv (by simp [h])
    rw [cons_append, cons_append, copyString_code (by omega) hv, hscan]
    simp only
    rw [copyString_skip, if_pos (by simp; omega)]
    rfl
  | case5 room v code hscan hlong ih =>
    have hv : 0 ∉ v := fun h => hv (by simp [h])
    rw [cons_append, cons_append, copyString_code (by omega) hv, hscan]
    simp only
    rw [copyString_skip, if_neg (by simp; omega), drop_append_of_le_length (by omega),
      ih (fun h => hv (mem_of_mem_drop h)) (by simp; omega), ending_map]
  | case6 room v hscan ih =>
    have hv : 0 ∉ v := fun h => hv (by simp [h])
    rw [cons_append, cons_append, copyString_code (by omega) hv, hscan]
    simp only
    rw [ih hv (by simp; omega), ending_map]
  | case7 room c v hc ih =>
    obtain ⟨-, h0, hv⟩ : (0 : UInt8) ≠ 92 ∧ 0 ≠ c ∧ 0 ∉ v := by simpa using hv
    rw [cons_append, cons_append, copyString_pair (by omega) h0.symm,
      if_neg (by simpa using hc), ih hv (by simp; omega), ending_map]
  | case8 room c v hquote hcode hpair ih =>
    obtain ⟨h0, hv⟩ : 0 ≠ c ∧ 0 ∉ v := by simpa using hv
    obtain ⟨d, q, hq⟩ := exists_cons_terminated v
    have hlast : c = 92 → d = 0 := by
      intro hc
      cases v with
      | nil => exact (List.cons.inj hq).1.symm
      | cons e v => exact absurd rfl (hpair e v hc)
    rw [cons_append, hq, copyString_byte (by omega) ⟨h0.symm, hquote⟩ hlast, ← hq,
      ih hv (by simp; omega), ending_map]

/-! ## The getters -/

theorem zero_not_mem_found (htext : 0 ∉ text) (h : Agent.findKey text key = some v) :
    0 ∉ v.dropWhile isSpace := by
  intro h0
  have hv := (dropWhile_suffix isSpace).subset h0
  exact htext ((findKeyFrom_suffix h).subset hv)

theorem cString_terminated (s : Bytes) : cString (s ++ [0]) = cString s := by
  induction s with
  | nil => rfl
  | cons c s ih =>
    rw [cString, cString] at ih ⊢
    rw [cons_append, takeWhile_cons, takeWhile_cons, ih]

theorem cString_ending (copied : Except Fault Bytes) :
    ((ending [] copied).map some).map (·.map cString) =
      (copied.map fun buf => some (cString buf)).mapError fun _ => .read := by
  cases copied with
  | error e => rfl
  | ok copied =>
    change Except.ok (some (cString (copied ++ [0]))) = .ok (some (cString copied))
    rw [cString_terminated]

theorem strtol_skipSpace (v : Bytes) : strtol (v.dropWhile isSpace) = strtol v := by
  rw [strtol, strtol, dropWhile_idempotent]

section Getters

variable (htext : 0 ∉ text) (hkey : 0 ∉ key)

include htext hkey

/-- The getter of strings leaves the text exactly where the function on texts has a fault. -/
theorem jsonGetString_eq {size : Nat} (hsize : 0 < size) :
    (jsonGetString (text ++ [0]) key size).map (·.map cString) =
      (Agent.jsonGetString text key size).mapError fun _ => .read := by
  rw [jsonGetString, findKey_eq htext hkey, bind_ok, Agent.jsonGetString]
  cases hfound : Agent.findKey text key with
  | none => rfl
  | some v =>
    have hrest := zero_not_mem_found htext hfound
    have hv : 0 ∉ v := fun h => htext ((findKeyFrom_suffix hfound).subset h)
    simp only [Option.map_some]
    rw [skipSpace_terminated hv, bind_ok]
    generalize v.dropWhile isSpace = w at hrest
    cases w with
    | nil => rfl
    | cons c w =>
      rw [cons_append, load, bind_ok]
      by_cases hc : c = 34
      · have hw : 0 ∉ w := fun h => hrest (mem_cons_of_mem c h)
        subst hc
        rw [if_neg (by decide), drop_one, List.tail_cons,
          copyString_eq hw (show ([] : Bytes).length + (size - 1) + 1 = size by simp; omega)]
        exact cString_ending _
      · rw [if_pos (by simpa using hc)]
        split
        · next h => exact absurd (List.cons.inj h).1 hc
        · rfl

theorem jsonGetInt_eq (defval : Int) :
    jsonGetInt (text ++ [0]) key defval = .ok (jsonGetLong text key defval) := by
  rw [jsonGetInt, findKey_eq htext hkey, bind_ok, jsonGetLong]
  cases hfound : Agent.findKey text key with
  | none => rfl
  | some v =>
    have hv : 0 ∉ v := fun h => htext ((findKeyFrom_suffix hfound).subset h)
    simp only [Option.map_some]
    rw [skipSpace_terminated hv, bind_ok, stringAt_terminated (zero_not_mem_found htext hfound),
      bind_ok]
    exact congrArg Except.ok (strtol_skipSpace v)

theorem jsonGetBool_eq (defval : Bool) :
    jsonGetBool (text ++ [0]) key defval = .ok (Agent.jsonGetBool text key defval) := by
  rw [jsonGetBool, findKey_eq htext hkey, bind_ok, Agent.jsonGetBool]
  cases hfound : Agent.findKey text key with
  | none => rfl
  | some v =>
    have hrest := zero_not_mem_found htext hfound
    have hv : 0 ∉ v := fun h => htext ((findKeyFrom_suffix hfound).subset h)
    simp only [Option.map_some]
    rw [skipSpace_terminated hv, bind_ok]
    generalize v.dropWhile isSpace = w at hrest
    have hload : load (w ++ [0]) = .ok (w.head?.getD 0) := by cases w <;> rfl
    have hdigit : ∀ d, d ≠ 0 → (w.head?.getD 0 == d) = (w.head? == some d) := by
      intro d hd
      cases w with
      | nil => simpa using hd.symm
      | cons c w => simp
    simp only [strncmp_terminated hrest (show 0 ∉ lit "true" by decide),
      strncmp_terminated hrest (show 0 ∉ lit "false" by decide), hload, bind_ok,
      hdigit 49 (by decide), hdigit 48 (by decide)]
    split_ifs <;> rfl

end Getters

/-! ## The bounds -/

/-- What is left of a string behind the first character, as the loop steps over it; none at the
closing quote and at the end of the text. -/
def nextChar : Bytes → Option Bytes
  | [] => none
  | 34 :: _ => none
  | 92 :: 117 :: v => some (if (scanHex v).isSome then v.drop 4 else v)
  | 92 :: _ :: v => some v
  | _ :: v => some v

/-- A `\u` with a number, and fewer than four bytes behind it. -/
def cutCode : Bytes → Bool
  | 92 :: 117 :: r => (scanHex r).isSome && r.length < 4
  | _ => false

/-- One of the next `room` characters of a string is cut. -/
def cutWithin : (room : Nat) → Bytes → Bool
  | 0, _ => false
  | room + 1, v => cutCode v || (nextChar v).any (cutWithin room)

/-- The string that begins here has such a character among those that the buffer has room for. -/
def cutsString (size : Nat) : Bytes → Bool
  | 34 :: v => cutWithin (size - 1) v
  | _ => false

/-- The string of the key has one. -/
def cutsCode (text key : Bytes) (size : Nat) : Bool :=
  (Agent.findKey text key).any fun v => cutsString size (v.dropWhile isSpace)

theorem cutCode_other {c : UInt8} {v : Bytes} (h : ∀ r, c = 92 → v = 117 :: r → False) :
    cutCode (c :: v) = false := by
  unfold cutCode
  split
  · next r heq => exact (h r (List.cons.inj heq).1 (List.cons.inj heq).2).elim
  · rfl

theorem cutWithin_step {room : Nat} {v w : Bytes} (hcut : cutCode v = false)
    (hnext : nextChar v = some w) : cutWithin (room + 1) v = cutWithin room w := by
  rw [cutWithin, hcut, hnext]
  rfl

section Results

variable {ε ε' α β : Type}

theorem isOk_iff {x : Except ε α} : x.isOk = true ↔ ∃ r, x = .ok r := by
  cases x <;> simp [Except.isOk, Except.toBool]

theorem isOk_map (f : α → β) (x : Except ε α) : (x.map f).isOk = x.isOk := by cases x <;> rfl

theorem isOk_mapError (f : ε → ε') (x : Except ε α) : (x.mapError f).isOk = x.isOk := by
  cases x <;> rfl

end Results

/-- The copy stays inside exactly if no code within the room is cut. -/
theorem copyString_isOk (room : Nat) (v : Bytes) :
    (Agent.copyString room v).isOk = !cutWithin room v := by
  fun_induction Agent.copyString room v with
  | case1 v | case2 room | case3 room v => rfl
  | case4 room v code hscan hshort =>
    have hcut : cutCode (92 :: 117 :: v) = true := by simp [cutCode, hscan, hshort]
    rw [cutWithin, hcut]
    rfl
  | case5 room v code hscan hlong ih =>
    have hcut : cutCode (92 :: 117 :: v) = false := by simp [cutCode, hscan, hlong]
    have hnext : nextChar (92 :: 117 :: v) = some (v.drop 4) := by simp [nextChar, hscan]
    rw [isOk_map, ih, cutWithin_step hcut hnext]
  | case6 room v hscan ih =>
    have hcut : cutCode (92 :: 117 :: v) = false := by simp [cutCode, hscan]
    have hnext : nextChar (92 :: 117 :: v) = some v := by simp [nextChar, hscan]
    rw [isOk_map, ih, cutWithin_step hcut hnext]
  | case7 room c v hc ih =>
    have hcut : cutCode (92 :: c :: v) = false :=
      cutCode_other fun r _ heq => hc (List.cons.inj heq).1
    have hnext : nextChar (92 :: c :: v) = some v := by simp [nextChar]
    rw [isOk_map, ih, cutWithin_step hcut hnext]
  | case8 room c v hquote hcode hpair ih =>
    have hcut : cutCode (c :: v) = false := cutCode_other hcode
    have hnext : nextChar (c :: v) = some v := by
      unfold nextChar
      split
      · next heq => cases heq
      · next heq => exact absurd (List.cons.inj heq).1 hquote
      · next r heq => exact (hpair _ _ (List.cons.inj heq).1 (List.cons.inj heq).2).elim
      · next r heq => exact (hpair _ _ (List.cons.inj heq).1 (List.cons.inj heq).2).elim
      · next heq => exact congrArg some (List.cons.inj heq).2.symm
    rw [isOk_map, ih, cutWithin_step hcut hnext]

theorem cutsString_other (size : Nat) {v : Bytes} (h : v.head? ≠ some 34) :
    cutsString size v = false := by
  unfold cutsString
  split
  · exact absurd rfl h
  · rfl

theorem jsonGetString_isOk (text key : Bytes) (size : Nat) :
    (Agent.jsonGetString text key size).isOk = !cutsCode text key size := by
  rw [Agent.jsonGetString, cutsCode]
  cases Agent.findKey text key with
  | none => rfl
  | some u =>
    rw [Option.any_some]
    simp only
    generalize u.dropWhile isSpace = v
    by_cases hquote : v.head? = some 34
    · obtain ⟨w, rfl⟩ := head?_eq_some_iff.mp hquote
      simp only [cutsString, ← copyString_isOk]
      exact isOk_map ..
    · rw [cutsString_other size hquote]
      split
      · exact absurd rfl hquote
      · rfl

/-- `find_key` and the getters of numbers and of truth values stay inside the text, and no getter
writes outside of its buffer. The getter of strings stays inside if and only if none of the
characters that it has room for is a `\u` with a number that the text cuts. -/
theorem helpers_in_bounds (text key : Bytes) (htext : 0 ∉ text) (hkey : 0 ∉ key) (size : Nat)
    (hsize : 1 ≤ size) :
    (∃ v, findKey (text ++ [0]) key = .ok v) ∧
    (∀ defval, ∃ n, jsonGetInt (text ++ [0]) key defval = .ok n) ∧
    (∀ defval, ∃ b, jsonGetBool (text ++ [0]) key defval = .ok b) ∧
    jsonGetString (text ++ [0]) key size ≠ .error .write ∧
    ((∃ r, jsonGetString (text ++ [0]) key size = .ok r) ↔ cutsCode text key size = false) := by
  have hstring := jsonGetString_eq htext hkey hsize
  have hok : (jsonGetString (text ++ [0]) key size).isOk = !cutsCode text key size := by
    rw [← jsonGetString_isOk, ← isOk_map (·.map cString), hstring, isOk_mapError]
  refine ⟨⟨_, findKey_eq htext hkey⟩, fun d => ⟨_, jsonGetInt_eq htext hkey d⟩,
    fun d => ⟨_, jsonGetBool_eq htext hkey d⟩, ?_, ?_⟩
  · intro hwrite
    rw [hwrite] at hstring
    cases hresult : Agent.jsonGetString text key size with
    | error e | ok r =>
      rw [hresult] at hstring
      cases hstring
  · rw [← isOk_iff, hok, Bool.not_eq_true']

/-- A cut `\u` in a string that the getter does not read. -/
theorem helpers_in_bounds_truncated :
    ∃ r, jsonGetString (lit "\x7b\"k\":\"v\",\"x\":\"\\u1" ++ [0]) (lit "k") 8 = .ok r :=
  (helpers_in_bounds (lit "\x7b\"k\":\"v\",\"x\":\"\\u1") (lit "k") (by decide) (by decide) 8
    (by decide)).2.2.2.2.mpr (by decide)

/-- One digit behind the `\u`, and the text ends. -/
theorem reads_past_the_end :
    jsonGetString (lit "\x7b\"k\":\"\\u1" ++ [0]) (lit "k") 8 = .error .read := by
  decide

end CtForge.Agent.Memory
