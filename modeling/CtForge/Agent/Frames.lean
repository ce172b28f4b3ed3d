import CtForge.Lib.JsonDecode
import CtForge.Lib.StrStr
import CtForge.Agent.Util

/-!
# Frames from the server to the agent (`protocol.go`, `net.c`)

`proto.Encode` writes a message as one JSON object behind its length. The agent's
`ctc_recv` does not parse it: it looks for the first `"id"`, `"type"`, `"session_id"`
and `"payload"` anywhere in the text, takes a string up to the first quote with no
backslash before it, and the payload up to the bracket that closes it.
-/

namespace CtForge.Agent

open CLang GoString List Option

/-! ## The encoder -/

/-- A payload: a JSON object, as `Marshal` writes it, with no blanks around it. -/
structure Payload where
  text : Bytes
  valid : Json.valid text = true
  first : text.head? = some 123
  last : text.getLast? = some 125

structure Message where
  id : Text := []
  type : Text
  version : Int := 0
  agentId : Text := []
  token : Text := []
  sessionId : Text := []
  payload : Option Payload := none

inductive FieldValue where
  | str (s : Text)
  | num (n : Int)
  | bool (b : Bool)
  | obj (p : Payload)

def FieldValue.text : FieldValue → Bytes
  | .str s => quote s
  | .num n => decimalInt n
  | .bool b => if b then lit "true" else lit "false"
  | .obj p => p.text

structure Field where
  key : String
  value : FieldValue

def Field.text (f : Field) : Bytes := quoted (lit f.key) ++ 58 :: f.value.text

/-- A string field with `omitempty`. -/
def optional (key : String) (s : Text) : List Field := if s.isEmpty then [] else [⟨key, .str s⟩]

def Message.front (m : Message) : List Field :=
  optional "id" m.id ++ ⟨"type", .str m.type⟩ ::
    ⟨"version", .num (if m.version = 0 then 1 else m.version)⟩ ::
    (optional "agent_id" m.agentId ++ optional "token" m.token)

def Message.back (m : Message) : List Field := (m.payload.map fun p => ⟨"payload", .obj p⟩).toList

def Message.fields (m : Message) : List Field :=
  m.front ++ (optional "session_id" m.sessionId ++ m.back)

def objectText (fields : List Field) : Bytes :=
  123 :: Json.commaSep (fields.map Field.text) ++ [125]

def maxMessageSize : Nat := 32 * 1024 * 1024

def bigEndian (n : Nat) : Bytes :=
  [UInt8.ofNat (n / 16777216), UInt8.ofNat (n / 65536), UInt8.ofNat (n / 256), UInt8.ofNat n]

/-- `proto.Encode`; none where it returns an error. -/
def encode (m : Message) : Option Bytes :=
  let b := objectText m.fields
  if b.length > maxMessageSize then none else some (bigEndian b.length ++ b)

/-! ## The parser -/

/-- The loop of `dup_field_raw` behind the opening quote; `prev` is the byte before. -/
def rawString (prev : UInt8) : Bytes → Bytes
  | [] => []
  | c :: s => if c == 34 && prev != 92 then [] else c :: rawString c s

/-- What `dup_field_raw` does behind the key. -/
def rawField (p : Bytes) : Bytes :=
  match p.dropWhile fun c => c == 32 || c == 58 || c == 9 with
  | 34 :: s => rawString 34 s
  | p => p.takeWhile fun c => c != 44 && c != 125

def dupFieldRaw (json key : Bytes) : Option Bytes :=
  (strstr (snprintf 64 (quoted key)) json).map rawField

/-- The loop of `dup_payload_raw`. -/
def scanNested : (depth : Int) → (inStr esc : Bool) → Bytes → Option Bytes
  | _, _, _, [] => none
  | depth, inStr, esc, c :: s =>
    if esc then (scanNested depth inStr false s).map (c :: ·)
    else if c == 92 then (scanNested depth inStr true s).map (c :: ·)
    else if c == 34 then (scanNested depth (!inStr) false s).map (c :: ·)
    else if inStr then (scanNested depth inStr false s).map (c :: ·)
    else if c == 123 || c == 91 then (scanNested (depth + 1) inStr false s).map (c :: ·)
    else if c == 125 || c == 93 then
      if depth - 1 == 0 then some [c] else (scanNested (depth - 1) inStr false s).map (c :: ·)
    else (scanNested depth inStr false s).map (c :: ·)

/-- What `dup_payload_raw` does behind the key. -/
def rawPayload (p : Bytes) : Option Bytes :=
  let p := p.dropWhile fun c => c == 32 || c == 58
  if p.head? == some 123 || p.head? == some 91 then scanNested 0 false false p else none

def dupPayloadRaw (json : Bytes) : Option Bytes :=
  (strstr (quoted (lit "payload")) json).bind rawPayload

structure CtcMessage where
  id : Option Bytes
  type : Option Bytes
  sessionId : Option Bytes
  payload : Option Bytes
  deriving DecidableEq, Repr

/-- The four lookups of `ctc_recv` in the text of a frame. -/
def parseFrame (json : Bytes) : CtcMessage where
  id := dupFieldRaw json (lit "id")
  type := dupFieldRaw json (lit "type")
  sessionId := dupFieldRaw json (lit "session_id")
  payload := dupPayloadRaw json

def ctcMaxMsg : Nat := 32 * 1024 * 1024

/-- `read_all` of `n` bytes from what the peer sends; none if it ends before. -/
def readAll (n : Nat) (stream : Bytes) : Option (Bytes × Bytes) :=
  if stream.length < n then none else some (stream.take n, stream.drop n)

/-- `ctc_recv`, and what is left in the stream; none where it returns -1. -/
def ctcRecv (stream : Bytes) : Option (CtcMessage × Bytes) := do
  let (be, stream) ← readAll 4 stream
  let len := be.foldl (fun n b => 256 * n + b.toNat) 0
  if len == 0 || len > ctcMaxMsg then none
  let (buf, stream) ← readAll len stream
  let msg := parseFrame (cString buf)
  if msg.type.isNone then none else some (msg, stream)

def keptField (s : Text) : Option Bytes := if s.isEmpty then none else some (escape s)

def Message.kept (m : Message) : CtcMessage where
  id := keptField m.id
  type := some (escape m.type)
  sessionId := keptField m.sessionId
  payload := m.payload.map Payload.text

/-! ## Where a key is found -/

def IsKey (k : String) : Prop :=
  k.toList.all isPlainChar = true ∧ ∀ b ∈ [34, 92, 58, 44, 123, 125], b ∉ lit k

instance (k : String) : Decidable (IsKey k) :=
  have := List.decidableBAll (fun b => b ∉ lit k) [34, 92, 58, 44, 123, 125]
  inferInstanceAs (Decidable (_ ∧ _))

variable {k : String}

theorem afterKey_literal (hk : IsKey k) (s cur : Text) (t : Bytes) :
    afterKey (lit k) (some (escape cur)) (escape s ++ 34 :: t) =
      if afterQuoteFrom cur s = text k then some t else afterKey (lit k) (some []) t := by
  induction s generalizing cur with
  | nil =>
    rw [escape_nil, nil_append, afterKey_quote, afterQuoteFrom]
    simp [escape_eq_lit hk.1]
  | cons r s ih =>
    rw [escape_cons, append_assoc, afterQuoteFrom]
    by_cases hr : r = .char '"'
    · have hslash : 92 ∉ lit k := hk.2 92 (by decide)
      have hne : escape cur ++ [92] ≠ lit k := by
        intro h
        exact hslash (h ▸ by simp)
      rw [if_pos hr, hr]
      change afterKey (lit k) (some (escape cur)) (92 :: 34 :: (escape s ++ 34 :: t)) = _
      rw [afterKey_byte (by decide), map_some, afterKey_quote]
      simp only [beq_iff_eq, Option.some.injEq, hne, if_false]
      exact ih []
    · rw [if_neg hr, afterKey_append (Rune.no_quote_escape hr), map_some]
      have hcur : escape cur ++ r.escape = escape (cur ++ [r]) := by simp
      rw [hcur]
      exact ih (cur ++ [r])

def FieldValue.Holds (k : String) : FieldValue → Prop
  | .str s => afterQuote s = GoString.text k
  | .num _ | .bool _ => False
  | .obj p => quoted (lit k) <:+: p.text

def Field.Hits (k : String) (f : Field) : Prop := lit f.key = lit k ∨ f.value.Holds k

def tail (fields : List Field) : Bytes := (fields.map Field.text).flatMap (44 :: ·) ++ [125]

theorem tail_cons (f : Field) (fields : List Field) :
    tail (f :: fields) = 44 :: (f.text ++ tail fields) := by
  simp [tail]

theorem afterKey_tail (hk : IsKey k) (cur : Option Bytes) (fields : List Field) :
    afterKey (lit k) cur (tail fields) = afterKey (lit k) none (tail fields) := by
  cases fields with
  | nil =>
    rw [show tail [] = [125] from rfl, afterKey_delim (by decide) (hk.2 125 (by decide)),
      afterKey_delim (by decide) (hk.2 125 (by decide))]
  | cons f fields =>
    rw [tail_cons, afterKey_delim (by decide) (hk.2 44 (by decide)),
      afterKey_delim (by decide) (hk.2 44 (by decide))]

theorem afterKey_value (hk : IsKey k) {v : FieldValue} (hv : ¬ v.Holds k) (fields : List Field) :
    afterKey (lit k) (some []) (58 :: v.text ++ tail fields) =
      afterKey (lit k) none (tail fields) := by
  rw [cons_append, afterKey_delim (by decide) (hk.2 58 (by decide))]
  cases v with
  | str s =>
    have hlit := afterKey_literal hk s [] (tail fields)
    rw [show FieldValue.text (.str s) ++ tail fields = 34 :: (escape s ++ 34 :: tail fields) by
      simp [FieldValue.text, quote], afterKey_quote]
    rw [if_neg (show ¬ afterQuoteFrom [] s = text k from hv)] at hlit
    exact hlit.trans (afterKey_tail hk _ fields)
  | num n => exact afterKey_append (Json.quote_not_mem_decimalInt n) none _
  | bool b => exact afterKey_append (by cases b <;> decide) none _
  | obj p =>
    have hnone : afterKey (lit k) none p.text = none := by
      rw [← strstr_quoted (hk.2 34 (by decide))]
      exact (strstr_eq_none_iff (by simp [quoted])).mpr hv
    obtain ⟨cur, hcur⟩ := afterKey_append_of_none hnone
    exact (hcur _).trans (afterKey_tail hk cur fields)

variable {f : Field}

theorem afterKey_field (hf : 34 ∉ lit f.key) (t : Bytes) :
    afterKey (lit k) none (f.text ++ t) =
      if lit f.key = lit k then some (58 :: f.value.text ++ t)
      else afterKey (lit k) (some []) (58 :: f.value.text ++ t) := by
  have htext : f.text ++ t = 34 :: (lit f.key ++ 34 :: (58 :: f.value.text ++ t)) := by
    simp [Field.text, quoted]
  rw [htext, afterKey_quote, if_neg (by simp), afterKey_append hf, map_some, afterKey_quote]
  simp

theorem afterKey_before (hk : IsKey k) {before : List Field}
    (hkeys : ∀ f ∈ before, 34 ∉ lit f.key) (hno : ∀ f ∈ before, ¬ f.Hits k) (after : List Field) :
    afterKey (lit k) none (tail (before ++ after)) = afterKey (lit k) none (tail after) := by
  induction before with
  | nil => rfl
  | cons f before ih =>
    have hf := hno f mem_cons_self
    rw [Field.Hits, not_or] at hf
    rw [cons_append, tail_cons, afterKey_delim (by decide) (hk.2 44 (by decide)),
      afterKey_field (hkeys f mem_cons_self), if_neg hf.1, afterKey_value hk hf.2]
    exact ih (fun g hg => hkeys g (mem_cons_of_mem f hg))
      (fun g hg => hno g (mem_cons_of_mem f hg))

/-- The text that `strstr` leaves behind the first quoted `k` of the frame. -/
def found (k : String) (fields : List Field) : Option Bytes :=
  afterKey (lit k) none (tail fields)

variable {fields : List Field}

theorem strstr_objectText (hk : IsKey k) (hne : fields ≠ []) :
    strstr (quoted (lit k)) (objectText fields) = found k fields := by
  obtain ⟨f, fields, rfl⟩ := exists_cons_of_ne_nil hne
  have htext : objectText (f :: fields) = 123 :: (f.text ++ tail fields) := by
    simp [objectText, Json.commaSep, tail]
  rw [strstr_quoted (hk.2 34 (by decide)), htext, found, tail_cons,
    afterKey_delim (by decide) (hk.2 123 (by decide)),
    afterKey_delim (by decide) (hk.2 44 (by decide))]

section Found

variable (hk : IsKey k) {before after : List Field} {f : Field}
  (hkeys : ∀ g ∈ before ++ f :: after, 34 ∉ lit g.key) (hno : ∀ g ∈ before, ¬ g.Hits k)

include hk hkeys hno

theorem found_split : found k (before ++ f :: after) =
    if lit f.key = lit k then some (58 :: f.value.text ++ tail after)
    else afterKey (lit k) (some []) (58 :: f.value.text ++ tail after) := by
  rw [found, afterKey_before hk (fun g hg => hkeys g (by simp [hg])) hno, tail_cons,
    afterKey_delim (by decide) (hk.2 44 (by decide)), afterKey_field (hkeys f (by simp))]

theorem found_key (hf : lit f.key = lit k) :
    found k (before ++ f :: after) = some (58 :: f.value.text ++ tail after) := by
  rw [found_split hk hkeys hno, if_pos hf]

theorem found_str (hf : lit f.key ≠ lit k) {s : Text} (hs : f.value = .str s)
    (hholds : afterQuote s = text k) : found k (before ++ f :: after) = some (tail after) := by
  rw [found_split hk hkeys hno, if_neg hf, hs, cons_append,
    afterKey_delim (by decide) (hk.2 58 (by decide))]
  have hlit := afterKey_literal hk s [] (tail after)
  rw [if_pos (show afterQuoteFrom [] s = text k from hholds)] at hlit
  rw [show FieldValue.text (.str s) ++ tail after = 34 :: (escape s ++ 34 :: tail after) by
    simp [FieldValue.text, quote], afterKey_quote]
  exact hlit

theorem found_obj (hf : lit f.key ≠ lit k) {p : Payload} (hp : f.value = .obj p)
    (hholds : quoted (lit k) <:+: p.text) : found k (before ++ f :: after) ≠ none := by
  rw [found_split hk hkeys hno, if_neg hf, hp, cons_append,
    afterKey_delim (by decide) (hk.2 58 (by decide))]
  have hsome : afterKey (lit k) none p.text ≠ none := by
    rw [← strstr_quoted (hk.2 34 (by decide))]
    intro hnone
    exact (strstr_eq_none_iff (by simp [quoted])).mp hnone hholds
  obtain ⟨r, hr⟩ := ne_none_iff_exists'.mp hsome
  rw [FieldValue.text, afterKey_append_of_some hr]
  simp

theorem found_ne_none (hf : f.Hits k) : found k (before ++ f :: after) ≠ none := by
  by_cases hkey : lit f.key = lit k
  · simp [found_key hk hkeys hno hkey]
  · have hholds := hf.resolve_left hkey
    cases hv : f.value with
    | str s =>
      rw [hv] at hholds
      simp [found_str hk hkeys hno hkey hv hholds]
    | num n | bool b =>
      rw [hv] at hholds
      exact absurd hholds id
    | obj p =>
      rw [hv] at hholds
      exact found_obj hk hkeys hno hkey hv hholds

end Found

/-- A key is not found exactly if no field reads as it. -/
theorem found_none_iff (hk : IsKey k) (hkeys : ∀ g ∈ fields, 34 ∉ lit g.key) :
    found k fields = none ↔ ∀ f ∈ fields, ¬ f.Hits k := by
  constructor
  · induction fields with
    | nil => simp
    | cons f fields ih =>
      intro hnone
      have hf : ¬ f.Hits k := by
        intro hhits
        have hfound : found k ([] ++ f :: fields) ≠ none :=
          found_ne_none hk hkeys (by simp) hhits
        exact hfound hnone
      have hskip : found k ([f] ++ fields) = found k fields :=
        afterKey_before hk (by simpa using hkeys f (by simp)) (by simpa using hf) fields
      have hrest : found k fields = none := hskip.symm.trans hnone
      intro g hg
      rcases List.mem_cons.mp hg with rfl | hg
      · exact hf
      · exact ih (fun g hg => hkeys g (mem_cons_of_mem f hg)) hrest g hg
  · intro hno
    have h := afterKey_before hk hkeys hno []
    rw [append_nil] at h
    rw [found, h]
    exact afterKey_eq_none (by decide) none

/-! ## What is made of the text behind a key -/

theorem rawString_append {a : Bytes} (ha : 34 ∉ a) (prev : UInt8) (t : Bytes) :
    rawString prev (a ++ t) = a ++ rawString (a.getLast?.getD prev) t := by
  induction a generalizing prev with
  | nil => rfl
  | cons c a ih =>
    obtain ⟨hc, ha⟩ : 34 ≠ c ∧ 34 ∉ a := by simpa using ha
    rw [cons_append, rawString, if_neg (by simp [hc.symm]), ih ha]
    cases a with
    | nil => rfl
    | cons d a => simp [List.getLast?_cons]

theorem rawString_escape (s : Text) (prev : UInt8) (t : Bytes) :
    rawString prev (escape s ++ t) = escape s ++ rawString ((escape s).getLast?.getD prev) t := by
  induction s generalizing prev with
  | nil => rfl
  | cons r s ih =>
    have hlast : (escape (r :: s)).getLast?.getD prev =
        (escape s).getLast?.getD (r.escape.getLast?.getD prev) := by
      rw [escape_cons, List.getLast?_append]
      cases (escape s).getLast? <;> simp
    have hrune : ∀ u, rawString prev (r.escape ++ u) =
        r.escape ++ rawString (r.escape.getLast?.getD prev) u := by
      intro u
      by_cases hr : r = .char '"'
      · rw [hr]
        rfl
      · exact rawString_append (Rune.no_quote_escape hr) prev u
    rw [hlast, escape_cons, append_assoc, hrune, ih, append_assoc]

theorem rawField_str (s : Text) (t : Bytes) :
    rawField (58 :: FieldValue.text (.str s) ++ t) = escape s ↔ s.getLast? ≠ some (.char '\\') := by
  have htext : rawField (58 :: FieldValue.text (.str s) ++ t) =
      rawString 34 (escape s ++ 34 :: t) := by
    simp [rawField, FieldValue.text, quote]
  rw [htext, rawString_escape, rawString]
  rcases hlast : (escape s).getLast? with _ | b
  · have hs : s = [] := escape_eq_nil.mp (List.getLast?_eq_none_iff.mp hlast)
    simp [hs]
  · by_cases hb : b = 92
    · have hback := escape_getLast.mp (hb ▸ hlast)
      simp [hback, hb]
    · have hback : s.getLast? ≠ some (.char '\\') := by
        intro h
        rw [escape_getLast.mpr h] at hlast
        exact hb (some.inj hlast).symm
      simp [hb, hback]

theorem rawField_tail (fields : List Field) : rawField (tail fields) = [] := by
  cases fields with
  | nil => rfl
  | cons f fields =>
    rw [tail_cons]
    simp [rawField]

theorem rawPayload_tail (fields : List Field) : rawPayload (tail fields) = none := by
  cases fields with
  | nil => rfl
  | cons f fields =>
    rw [tail_cons]
    simp [rawPayload]

section Nested

open Json

theorem scanNested_inside {sc : Scanner} {c : UInt8} (hsc : sc.state.quoted = true)
    (hstep : (sc.step c).state ≠ .error) (depth : Int) (s : Bytes) :
    scanNested depth true (sc.state == .inStringEsc) (c :: s) =
      (scanNested depth (sc.step c).state.quoted ((sc.step c).state == .inStringEsc) s).map
        (c :: ·) := by
  obtain ⟨-, hquoted, hesc⟩ := Scanner.step_inside hsc hstep
  rw [hquoted]
  by_cases hin : sc.state = .inStringEsc
  · have hnext : ((sc.step c).state == .inStringEsc) = false := by simp [hesc, hin]
    rw [hnext, hin]
    rfl
  · have hout : (sc.state == .inStringEsc) = false := by simpa using hin
    rw [hout]
    by_cases hback : c = 92
    · have hnext : ((sc.step c).state == .inStringEsc) = true := by
        simpa using hesc.mpr ⟨hin, hback⟩
      rw [hnext, hback]
      rfl
    · have hnext : ((sc.step c).state == .inStringEsc) = false := by simp [hesc, hback]
      rw [hnext]
      by_cases hquote : c = 34
      · rw [hquote]
        rfl
      · have hne : (c != 34) = true := by simpa using hquote
        simp [scanNested, hback, hquote, hne]

theorem scanNested_outside {c : UInt8} (hback : c ≠ 92) (depth : Int) (s : Bytes)
    (hclose : c = 125 ∨ c = 93 → depth ≠ 1) :
    scanNested depth false false (c :: s) =
      (scanNested (if c == 123 || c == 91 then depth + 1
        else if c == 125 || c == 93 then depth - 1 else depth) (c == 34) false s).map (c :: ·) := by
  by_cases hquote : c = 34
  · rw [hquote]
    rfl
  · have hq : (c == 34) = false := by simpa using hquote
    rw [hq]
    by_cases hopen : (c == 123 || c == 91) = true
    · simp [scanNested, hback, hquote, hopen]
    · by_cases hcl : (c == 125 || c == 93) = true
      · have hdepth : ¬ depth - 1 = 0 := by
          have := hclose (by simpa using hcl)
          omega
        simp [scanNested, hback, hquote, hopen, hcl, hdepth]
      · simp [scanNested, hback, hquote, hopen, hcl]

theorem last_bracket {c : UInt8} {depth : Nat} (hpos : 0 < depth) (h : depthAfter c depth = 0) :
    (c == 123 || c == 91) = false ∧ (c == 125 || c == 93) = true ∧ depth = 1 := by
  unfold depthAfter at h
  by_cases hbra : (c == 123 || c == 91) = true
  · rw [if_pos hbra] at h
    omega
  · rw [if_neg hbra] at h
    by_cases hket : (c == 125 || c == 93) = true
    · rw [if_pos hket] at h
      exact ⟨Bool.eq_false_iff.mpr hbra, hket, by omega⟩
    · rw [if_neg hket] at h
      omega

/-- The agent's count of brackets follows the scanner to the end of the value. -/
theorem scanNested_run {sc : Scanner} {s : Bytes} (hopen : sc.stack ≠ [])
    (hrun : (sc.run s).state ≠ .error) (hend : (sc.run s).stack = [])
    (hlast : ∀ c, s.getLast? = some c → Json.isBlank c = false) (rest : Bytes) :
    scanNested sc.stack.length sc.state.quoted (sc.state == .inStringEsc) (s ++ rest) = some s := by
  induction s generalizing sc with
  | nil => exact absurd hend hopen
  | cons c s ih =>
    rw [Scanner.run_cons] at hrun hend
    have hstep : (sc.step c).state ≠ .error := by
      intro herr
      have hsc : sc.step c = ⟨.error, (sc.step c).stack⟩ := by rw [← herr]
      rw [hsc, Scanner.run_error] at hrun
      exact hrun rfl
    have hlast' : ∀ d, s.getLast? = some d → Json.isBlank d = false := by
      intro d hd
      refine hlast d ?_
      cases s with
      | nil => cases hd
      | cons e s => exact hd
    rw [cons_append]
    by_cases hquoted : sc.state.quoted = true
    · obtain ⟨hstack, -, -⟩ := Scanner.step_inside hquoted hstep
      rw [hquoted, scanNested_inside hquoted hstep, ← hstack,
        ih (hstack ▸ hopen) hrun hend hlast', map_some]
    · have hout := Scanner.step_outside (Bool.eq_false_iff.mpr hquoted) hstep
      have hesc : (sc.state == .inStringEsc) = false := by
        rw [beq_eq_false_iff_ne]
        rintro h
        rw [h] at hquoted
        exact hquoted rfl
      have hesc' : ((sc.step c).state == .inStringEsc) = false := by simpa using hout.not_esc
      have hpos : 0 < sc.stack.length := length_pos_iff.mpr hopen
      have hdepth := hout.depth
      rw [Bool.eq_false_iff.mpr hquoted, hesc]
      by_cases hdone : (sc.step c).stack = []
      · -- the last bracket: only blanks may follow, and none does
        rw [hdone, length_nil] at hdepth
        obtain ⟨hbra, hket, hone⟩ := last_bracket hpos hdepth.symm
        have hs : s = [] := by
          have htop := hout.top hdone hket
          have hsc : sc.step c = ⟨.endTop, (sc.step c).stack⟩ := by rw [← htop]
          rw [hsc] at hrun
          have hblank := Scanner.blank_of_run_endTop hrun
          rcases eq_nil_or_concat s with rfl | ⟨t, d, rfl⟩
          · rfl
          · rw [concat_eq_append] at hlast' hblank
            have hd := hlast' d (by simp)
            rw [hblank d (by simp)] at hd
            cases hd
        have hquote : (c == 34) = false := by
          rw [beq_eq_false_iff_ne]
          rintro rfl
          cases hket
        simp [scanNested, hs, hout.no_backslash, hquote, hbra, hket, hone]
      · have hnext := ih hdone hrun hend hlast'
        rw [hout.quoted, hesc'] at hnext
        rw [scanNested_outside hout.no_backslash]
        · have hcast : (if c == 123 || c == 91 then (sc.stack.length : Int) + 1
              else if c == 125 || c == 93 then (sc.stack.length : Int) - 1
              else (sc.stack.length : Int)) = ((sc.step c).stack.length : Int) := by
            rw [hdepth, depthAfter]
            split_ifs
            · omega
            · omega
            · rfl
          rw [hcast, hnext, map_some]
        · intro hket hone
          have hzero : (sc.step c).stack.length = 0 := by
            rw [hdepth, depthAfter]
            rcases hket with rfl | rfl
            · simp
              omega
            · simp
              omega
          exact hdone (length_eq_zero_iff.mp hzero)

theorem rawPayload_obj (p : Payload) (t : Bytes) :
    rawPayload (58 :: FieldValue.text (.obj p) ++ t) = some p.text := by
  obtain ⟨text, hvalid, hfirst, hlast⟩ := p
  cases text with
  | nil => cases hfirst
  | cons c s =>
    cases hfirst
    have hdrop : rawPayload (58 :: FieldValue.text (.obj ⟨123 :: s, hvalid, rfl, hlast⟩) ++ t) =
        (scanNested 1 false false (s ++ t)).map (123 :: ·) := by
      simp [rawPayload, FieldValue.text, scanNested]
    have hrun : Scanner.start.run (123 :: s) = Scanner.run ⟨.beginStringOrEmpty, [.key]⟩ s := rfl
    have herr := not_error_of_valid hvalid
    have hstack := stack_of_valid hvalid
    rw [hrun] at herr hstack
    have hend : ∀ c, s.getLast? = some c → Json.isBlank c = false := by
      intro c hc
      have hlast' : (123 :: s).getLast? = some c := by
        cases s with
        | nil => cases hc
        | cons d s => exact hc
      cases hlast.symm.trans hlast'
      rfl
    have hscan := scanNested_run (by simp) herr hstack hend t
    rw [hdrop]
    exact congrArg (Option.map (123 :: ·)) hscan

end Nested

/-! ## The fields of a message -/

def messageKeys : List String :=
  ["id", "type", "version", "agent_id", "token", "session_id", "payload"]

theorem mem_optional {key : String} {s : Text} :
    f ∈ optional key s ↔ s ≠ [] ∧ f = ⟨key, .str s⟩ := by
  unfold optional
  cases s <;> simp

variable {m : Message}

theorem Message.key_mem (h : f ∈ m.fields) : f.key ∈ messageKeys := by
  simp only [Message.fields, Message.front, Message.back, mem_append, List.mem_cons,
    mem_optional, mem_toList, map_eq_some_iff] at h
  rcases h with (⟨-, rfl⟩ | rfl | rfl | ⟨-, rfl⟩ | ⟨-, rfl⟩) | ⟨-, rfl⟩ | ⟨p, -, rfl⟩
  all_goals simp [messageKeys]

theorem Message.key_no_quote (m : Message) : ∀ f ∈ m.fields, 34 ∉ lit f.key := by
  have hall : ∀ key ∈ messageKeys, 34 ∉ lit key := by decide
  intro f hf
  exact hall f.key (Message.key_mem hf)

theorem optional_no_hit (key : String) {s : Text} (hkey : s ≠ [] → lit key ≠ lit k)
    (hk : text k ≠ []) : (∀ f ∈ optional key s, ¬ f.Hits k) ↔ afterQuote s ≠ text k := by
  cases s with
  | nil => simpa [optional, afterQuote, afterQuoteFrom] using hk.symm
  | cons r s => simp [optional, Field.Hits, FieldValue.Holds, hkey (by simp)]

theorem front_no_hit (hk : text k ≠ []) (hid : m.id ≠ [] → lit "id" ≠ lit k)
    (hkeys : ∀ key ∈ ["type", "version", "agent_id", "token"], lit key ≠ lit k) :
    (∀ f ∈ m.front, ¬ f.Hits k) ↔
      ∀ s ∈ [m.id, m.type, m.agentId, m.token], afterQuote s ≠ text k := by
  have hid := optional_no_hit "id" hid hk
  have hagent := optional_no_hit "agent_id" (s := m.agentId) (fun _ => hkeys _ (by simp)) hk
  have htoken := optional_no_hit "token" (s := m.token) (fun _ => hkeys _ (by simp)) hk
  have htype : ¬ Field.Hits k ⟨"type", .str m.type⟩ ↔ afterQuote m.type ≠ text k := by
    simp [Field.Hits, FieldValue.Holds, hkeys "type" (by simp)]
  have hversion : ∀ n, ¬ Field.Hits k ⟨"version", .num n⟩ := by
    simp [Field.Hits, FieldValue.Holds, hkeys "version" (by simp)]
  simp only [Message.front, forall_mem_append, forall_mem_cons, hid, hagent, htoken,
    htype, hversion, not_false_iff, true_and]
  simp

theorem back_no_hit (m : Message) (hk : lit "payload" ≠ lit k) :
    (∀ f ∈ m.back, ¬ f.Hits k) ↔ ∀ p ∈ m.payload, ¬ quoted (lit k) <:+: p.text := by
  unfold Message.back
  cases m.payload with
  | none => simp
  | some p => simp [Field.Hits, FieldValue.Holds, hk]

theorem found_string (hk : IsKey k) (hkeys : ∀ f ∈ fields, 34 ∉ lit f.key)
    (hstr : ∀ f ∈ fields, lit f.key ≠ lit k ∧ ∀ p, f.value ≠ .obj p)
    (hhit : ∃ f ∈ fields, f.Hits k) {rest : List Field} (hrest : ∀ f ∈ rest, 34 ∉ lit f.key) :
    ∃ after, found k (fields ++ rest) = some (tail after) := by
  induction fields with
  | nil => simp at hhit
  | cons f fields ih =>
    have hall : ∀ g ∈ [] ++ f :: (fields ++ rest), 34 ∉ lit g.key := by
      intro g hg
      rcases mem_append.mp (show g ∈ (f :: fields) ++ rest from hg) with hg | hg
      · exact hkeys g hg
      · exact hrest g hg
    obtain ⟨hkey, hobj⟩ := hstr f mem_cons_self
    by_cases hf : f.Hits k
    · have hholds := hf.resolve_left hkey
      cases hv : f.value with
      | str s =>
        rw [hv] at hholds
        exact ⟨fields ++ rest, found_str hk hall (by simp) hkey hv hholds⟩
      | num n | bool b =>
        rw [hv] at hholds
        exact absurd hholds id
      | obj p => exact absurd hv (hobj p)
    · have hskip : found k ([f] ++ (fields ++ rest)) = found k (fields ++ rest) :=
        afterKey_before hk (by simpa using hkeys f mem_cons_self) (by simpa using hf) _
      obtain ⟨g, hg, hhits⟩ := hhit
      have hg' : g ∈ fields := by
        rcases List.mem_cons.mp hg with rfl | hg
        · exact absurd hhits hf
        · exact hg
      obtain ⟨after, hafter⟩ := ih (fun g hg => hkeys g (mem_cons_of_mem f hg))
        (fun g hg => hstr g (mem_cons_of_mem f hg)) ⟨g, hg', hhits⟩
      exact ⟨after, hskip.trans hafter⟩

theorem Message.front_str (h : f ∈ m.front) :
    f.key ∈ ["id", "type", "version", "agent_id", "token"] ∧ ∀ p, f.value ≠ .obj p := by
  simp only [Message.front, mem_append, List.mem_cons, mem_optional] at h
  rcases h with ⟨-, rfl⟩ | rfl | rfl | ⟨-, rfl⟩ | ⟨-, rfl⟩
  all_goals simp

/-! ## The four lookups -/

def Clear (k : String) (strings : List Text) : Prop := ∀ s ∈ strings, afterQuote s ≠ text k

instance (k : String) (strings : List Text) : Decidable (Clear k strings) :=
  List.decidableBAll (fun s => afterQuote s ≠ text k) strings

def Closes (s : Text) : Prop := s.getLast? ≠ some (.char '\\')

instance (s : Text) : Decidable (Closes s) := inferInstanceAs (Decidable (_ ≠ _))

/-- The payload has no quoted `k` in it. -/
def Message.PayloadLacks (m : Message) (k : String) : Prop :=
  ∀ p ∈ m.payload, ¬ quoted (lit k) <:+: p.text

/-- What it takes for `ctc_recv` to give the message back. -/
structure Message.Readable (m : Message) : Prop where
  id : Closes m.id ∧ (m.id = [] →
    Clear "id" [m.type, m.agentId, m.token, m.sessionId] ∧ m.PayloadLacks "id")
  type : Closes m.type ∧ (m.type ≠ [] → Clear "type" [m.id])
  session : Closes m.sessionId ∧ Clear "session_id" [m.id, m.type, m.agentId, m.token] ∧
    (m.sessionId = [] → m.PayloadLacks "session_id")
  payload : m.payload.isSome = true →
    Clear "payload" [m.id, m.type, m.agentId, m.token, m.sessionId]

theorem dupFieldRaw_fields (m : Message) (hk : IsKey k) (hlen : (quoted (lit k)).length < 64) :
    dupFieldRaw (objectText m.fields) (lit k) = (found k m.fields).map rawField := by
  have hne : m.fields ≠ [] := by simp [Message.fields, Message.front]
  rw [dupFieldRaw, snprintf_eq_self hlen, strstr_objectText hk hne]

theorem id_kept_iff (m : Message) :
    dupFieldRaw (objectText m.fields) (lit "id") = keptField m.id ↔
      Closes m.id ∧ (m.id = [] →
        Clear "id" [m.type, m.agentId, m.token, m.sessionId] ∧ m.PayloadLacks "id") := by
  have hk : IsKey "id" := by decide
  rw [dupFieldRaw_fields m hk (by decide)]
  by_cases hid : m.id = []
  · have hfront : (∀ f ∈ m.front, ¬ f.Hits "id") ↔ _ :=
      front_no_hit (by decide) (fun h => absurd hid h) (by decide)
    have hsession : (∀ f ∈ optional "session_id" m.sessionId, ¬ f.Hits "id") ↔ _ :=
      optional_no_hit "session_id" (fun _ => by decide) (by decide)
    have hback := back_no_hit (k := "id") m (by decide)
    have hkept : keptField m.id = none := by simp [keptField, hid]
    rw [hkept, map_eq_none_iff, found_none_iff hk m.key_no_quote, Message.fields,
      forall_mem_append, forall_mem_append, hfront, hsession, hback]
    have hempty : afterQuote [] ≠ text "id" := by decide
    simp [hid, Closes, Clear, Message.PayloadLacks, hempty, and_assoc]
  · have hfields : m.fields = [] ++ ⟨"id", .str m.id⟩ :: m.fields.tail := by
      simp [Message.fields, Message.front, optional, hid]
    have hkept : keptField m.id = some (escape m.id) := by simp [keptField, hid]
    have hkeys := m.key_no_quote
    rw [hfields] at hkeys
    rw [hkept, hfields, found_key hk hkeys (by simp) rfl, map_some, Option.some.injEq,
      rawField_str]
    simp [hid, Closes]

/-- The type is kept exactly if it closes and the id does not read as its key. -/
theorem type_kept_iff (m : Message) :
    dupFieldRaw (objectText m.fields) (lit "type") = some (escape m.type) ↔
      Closes m.type ∧ (m.type ≠ [] → Clear "type" [m.id]) := by
  have hk : IsKey "type" := by decide
  rw [dupFieldRaw_fields m hk (by decide)]
  have hfields : ∃ after, m.fields = optional "id" m.id ++ ⟨"type", .str m.type⟩ :: after :=
    ⟨_, by simp [Message.fields, Message.front]; rfl⟩
  obtain ⟨after, hfields⟩ := hfields
  have hkeys := m.key_no_quote
  rw [hfields] at hkeys
  have hid : (∀ f ∈ optional "id" m.id, ¬ f.Hits "type") ↔ _ :=
    optional_no_hit "id" (fun _ => by decide) (by decide)
  by_cases hclear : afterQuote m.id = text "type"
  · have hhit : ∃ f ∈ optional "id" m.id, f.Hits "type" := by
      have := (not_congr hid).mpr (not_not_intro hclear)
      simpa using this
    have hother : ∀ f ∈ optional "id" m.id, lit f.key ≠ lit "type" ∧ ∀ p, f.value ≠ .obj p := by
      intro f hf
      rw [(mem_optional.mp hf).2]
      exact ⟨show lit "id" ≠ lit "type" by decide, by simp⟩
    obtain ⟨hbefore, hafter⟩ := forall_mem_append.mp hkeys
    obtain ⟨rest, hfound⟩ := found_string hk hbefore hother hhit hafter
    rw [hfields, hfound, map_some, rawField_tail, Option.some.injEq, eq_comm, escape_eq_nil]
    constructor
    · intro hnil
      simp [hnil, Closes]
    · rintro ⟨-, hne⟩
      by_contra hnil
      exact hne hnil m.id (by simp) hclear
  · rw [hfields, found_key hk hkeys (hid.mpr hclear) rfl, map_some, Option.some.injEq,
      rawField_str]
    simp [Closes, Clear, hclear]

theorem found_front (hk : IsKey k)
    (hkeys : ∀ key ∈ ["id", "type", "version", "agent_id", "token"], lit key ≠ lit k)
    (hhit : ¬ ∀ f ∈ m.front, ¬ f.Hits k) : ∃ after, found k m.fields = some (tail after) := by
  obtain ⟨hbefore, hafter⟩ := forall_mem_append.mp m.key_no_quote
  refine found_string hk hbefore ?_ (by simpa using hhit) hafter
  intro f hf
  exact ⟨hkeys f.key (Message.front_str hf).1, (Message.front_str hf).2⟩

/-- The session id is kept exactly if it closes, and neither a string before it nor the payload
has its key. -/
theorem session_kept_iff (m : Message) :
    dupFieldRaw (objectText m.fields) (lit "session_id") = keptField m.sessionId ↔
      Closes m.sessionId ∧ Clear "session_id" [m.id, m.type, m.agentId, m.token] ∧
        (m.sessionId = [] → m.PayloadLacks "session_id") := by
  have hk : IsKey "session_id" := by decide
  rw [dupFieldRaw_fields m hk (by decide)]
  have hfront : (∀ f ∈ m.front, ¬ f.Hits "session_id") ↔
      Clear "session_id" [m.id, m.type, m.agentId, m.token] :=
    front_no_hit (by decide) (fun _ => by decide) (by decide)
  by_cases hclear : Clear "session_id" [m.id, m.type, m.agentId, m.token]
  · have hno := hfront.mpr hclear
    by_cases hs : m.sessionId = []
    · have hfields : m.fields = m.front ++ m.back := by simp [Message.fields, optional, hs]
      have hkept : keptField m.sessionId = none := by simp [keptField, hs]
      rw [hkept, map_eq_none_iff, found_none_iff hk m.key_no_quote, hfields,
        forall_mem_append, back_no_hit m (by decide)]
      simp only [hs, Closes, hclear, Message.PayloadLacks, List.getLast?_nil, true_and,
        forall_const, ne_eq, reduceCtorEq, not_false_iff]
      exact and_iff_right hno
    · have hfields : m.fields = m.front ++ ⟨"session_id", .str m.sessionId⟩ :: m.back := by
        simp [Message.fields, optional, hs]
      have hkept : keptField m.sessionId = some (escape m.sessionId) := by simp [keptField, hs]
      have hkeys := m.key_no_quote
      rw [hfields] at hkeys
      rw [hkept, hfields, found_key hk hkeys hno rfl, map_some, Option.some.injEq,
        rawField_str]
      simp [Closes, hclear, hs]
  · obtain ⟨after, hfound⟩ := found_front hk (by decide) (fun h => hclear (hfront.mp h))
    rw [hfound, map_some, rawField_tail]
    refine iff_of_false ?_ fun h => hclear h.2.1
    unfold keptField
    cases hs : m.sessionId with
    | nil => simp
    | cons r s =>
      intro hnil
      have hescape : ([] : Bytes) = escape (r :: s) := by simpa using hnil
      exact absurd (escape_eq_nil.mp hescape.symm) (by simp)

/-- The payload is found exactly if no string before it reads as its key. -/
theorem payload_kept_iff (m : Message) :
    dupPayloadRaw (objectText m.fields) = m.payload.map Payload.text ↔
      (m.payload.isSome = true →
        Clear "payload" [m.id, m.type, m.agentId, m.token, m.sessionId]) := by
  have hk : IsKey "payload" := by decide
  have hne : m.fields ≠ [] := by simp [Message.fields, Message.front]
  rw [dupPayloadRaw, strstr_objectText hk hne]
  have hfront : (∀ f ∈ m.front, ¬ f.Hits "payload") ↔ _ :=
    front_no_hit (by decide) (fun _ => by decide) (by decide)
  have hsession : (∀ f ∈ optional "session_id" m.sessionId, ¬ f.Hits "payload") ↔ _ :=
    optional_no_hit "session_id" (fun _ => by decide) (by decide)
  have hclear : (∀ f ∈ m.front ++ optional "session_id" m.sessionId, ¬ f.Hits "payload") ↔
      Clear "payload" [m.id, m.type, m.agentId, m.token, m.sessionId] := by
    rw [forall_mem_append, hfront, hsession]
    simp [Clear, and_assoc]
  have hfields : m.fields = m.front ++ optional "session_id" m.sessionId ++ m.back := by
    simp [Message.fields]
  have hkeys := m.key_no_quote
  rw [hfields] at hkeys
  obtain ⟨hbefore, hafter⟩ := forall_mem_append.mp hkeys
  have hother : ∀ f ∈ m.front ++ optional "session_id" m.sessionId,
      lit f.key ≠ lit "payload" ∧ ∀ p, f.value ≠ .obj p := by
    intro f hf
    rcases mem_append.mp hf with hf | hf
    · have hkeys : ∀ key ∈ ["id", "type", "version", "agent_id", "token"],
          lit key ≠ lit "payload" := by decide
      exact ⟨hkeys f.key (Message.front_str hf).1, (Message.front_str hf).2⟩
    · rw [(mem_optional.mp hf).2]
      exact ⟨show lit "session_id" ≠ lit "payload" by decide, by simp⟩
  by_cases hno : Clear "payload" [m.id, m.type, m.agentId, m.token, m.sessionId]
  · refine iff_of_true ?_ fun _ => hno
    cases hp : m.payload with
    | none =>
      have hback : m.fields = m.front ++ optional "session_id" m.sessionId := by
        simp [hfields, Message.back, hp]
      have hnone : found "payload" m.fields = none :=
        (found_none_iff hk m.key_no_quote).mpr (hback ▸ hclear.mpr hno)
      rw [hnone]
      rfl
    | some p =>
      have hback : m.back = [⟨"payload", .obj p⟩] := by simp [Message.back, hp]
      rw [hback] at hfields hkeys
      rw [hfields, found_key hk hkeys (hclear.mpr hno) rfl]
      exact rawPayload_obj p _
  · have hhit : ∃ f ∈ m.front ++ optional "session_id" m.sessionId, f.Hits "payload" := by
      by_contra hnone
      exact hno (hclear.mp fun f hf hhits => hnone ⟨f, hf, hhits⟩)
    obtain ⟨after, hfound⟩ := found_string hk hbefore hother hhit hafter
    rw [hfields, hfound, bind_some, rawPayload_tail]
    cases m.payload with
    | none => simp
    | some p => simpa using hno

/-! ## The frame -/

/-- An encoded message has no NUL, so that the agent sees all of it. -/
theorem objectText_no_nul (m : Message) : 0 ∉ objectText m.fields := by
  have hall : ∀ key ∈ messageKeys, 0 ∉ quoted (lit key) := by decide
  have hstr : ∀ s, 0 ∉ quote s := by
    intro s h
    simp only [quote, cons_append, List.mem_cons, mem_append, not_mem_nil,
      or_false] at h
    rcases h with h | h | h
    · cases h
    · exact absurd (escape_printable s 0 h) (by decide)
    · cases h
  have hvalue : ∀ v : FieldValue, 0 ∉ v.text := by
    intro v
    cases v with
    | str s => exact hstr s
    | num n =>
      have hdigits : ∀ d, 0 ∉ decimal d := fun d h => absurd (decimal_digits h) (by decide)
      change 0 ∉ decimalInt n
      unfold decimalInt
      split
      · simp [hdigits]
      · exact hdigits _
    | bool b => cases b <;> decide
    | obj p => exact Json.nul_not_mem_of_valid p.valid
  have hfield : ∀ f ∈ m.fields, 0 ∉ f.text := by
    intro f hf h
    rcases mem_append.mp h with h | h
    · exact hall f.key (Message.key_mem hf) h
    · rcases List.mem_cons.mp h with h | h
      · cases h
      · exact hvalue _ h
  have hsep : ∀ fields : List Field, (∀ f ∈ fields, 0 ∉ f.text) →
      0 ∉ Json.commaSep (fields.map Field.text) := by
    intro fields hfields
    cases fields with
    | nil => simp [Json.commaSep]
    | cons f fields =>
      simp only [map_cons, Json.commaSep, mem_append, not_or, mem_flatMap,
        List.mem_map, not_exists, not_and]
      refine ⟨hfields f mem_cons_self, ?_⟩
      rintro t ⟨g, hg, rfl⟩ h
      rcases List.mem_cons.mp h with h | h
      · cases h
      · exact hfields g (mem_cons_of_mem f hg) h
  simp [objectText, hsep m.fields hfield]

theorem bigEndian_value {n : Nat} (h : n < 4294967296) :
    (bigEndian n).foldl (fun n b => 256 * n + b.toNat) 0 = n := by
  simp only [bigEndian, foldl_cons, foldl_nil, UInt8.toNat_ofNat']
  omega

theorem readAll_append (a b : Bytes) : readAll a.length (a ++ b) = some (a, b) := by
  simp [readAll]

/-- `ctc_recv` takes one encoded frame from the stream, and leaves the rest. -/
theorem ctcRecv_frame {frame : Bytes} (h : encode m = some frame) (rest : Bytes) :
    ctcRecv (frame ++ rest) = some (parseFrame (objectText m.fields), rest) := by
  generalize hb : objectText m.fields = b at h ⊢
  have hnul : cString b = b := cString_eq_self (hb ▸ objectText_no_nul m)
  have hne : b.length ≠ 0 := by simp [← hb, objectText]
  have htype : (parseFrame b).type.isNone = false := by
    have hfound : found "type" m.fields ≠ none := by
      rw [Ne, found_none_iff (by decide) m.key_no_quote]
      intro hno
      exact hno ⟨"type", .str m.type⟩ (by simp [Message.fields, Message.front]) (.inl rfl)
    have hdup := dupFieldRaw_fields (k := "type") m (by decide) (by decide)
    rw [hb] at hdup
    change (dupFieldRaw b (lit "type")).isNone = false
    rw [hdup]
    simpa [isSome_iff_ne_none] using hfound
  simp only [encode, hb] at h
  split at h
  · cases h
  · rename_i hlen
    cases h
    have hmax : b.length ≤ 33554432 := Nat.not_lt.mp hlen
    have hhead : readAll 4 (bigEndian b.length ++ (b ++ rest)) =
        some (bigEndian b.length, b ++ rest) := readAll_append (bigEndian b.length) _
    have hvalue : (bigEndian b.length).foldl (fun n b => 256 * n + b.toNat) 0 = b.length :=
      bigEndian_value (by omega)
    have hsize : (b.length == 0 || decide (b.length > ctcMaxMsg)) = false := by
      have : ¬ b.length > ctcMaxMsg := hlen
      simp [this, length_eq_zero_iff.not.mp hne]
    rw [append_assoc, ctcRecv, hhead]
    simp only [bind_eq_bind, bind_some, hvalue, hsize, readAll_append, hnul, htype]
    rfl

theorem parseFrame_kept_iff (m : Message) :
    parseFrame (objectText m.fields) = m.kept ↔ m.Readable := by
  simp only [parseFrame, Message.kept, CtcMessage.mk.injEq, id_kept_iff, type_kept_iff,
    session_kept_iff, payload_kept_iff]
  constructor
  · rintro ⟨hid, htype, hsession, hpayload⟩
    exact ⟨hid, htype, hsession, hpayload⟩
  · rintro ⟨hid, htype, hsession, hpayload⟩
    exact ⟨hid, htype, hsession, hpayload⟩

/-- `ctc_recv` gives back the message that was encoded if and only if none of its strings ends
in a backslash, none is a key that is looked for behind it (or ends in one, after a quote), and
the payload has no `"id"` and no `"session_id"` where the message has none. -/
theorem recv_inverts_encode_iff (m : Message) (frame rest : Bytes) (h : encode m = some frame) :
    ctcRecv (frame ++ rest) = some (m.kept, rest) ↔ m.Readable := by
  rw [ctcRecv_frame h, Option.some.injEq, Prod.mk.injEq]
  simp only [and_true]
  exact parseFrame_kept_iff m

def inputPayload : Payload :=
  ⟨lit "\x7b\"data\":\"bHM=\"\x7d", by decide, rfl, by decide⟩

/-- A terminal's input, with an ordinary session id, is given back. -/
theorem terminal_input_is_received : let m : Message :=
      { type := text "terminal_input", sessionId := text "4f1c", payload := some inputPayload }
    ∃ frame, encode m = some frame ∧ ctcRecv frame = some (m.kept, []) := by
  intro m
  have hsome : (encode m).isSome = true := by decide
  obtain ⟨frame, hframe⟩ := isSome_iff_exists.mp hsome
  have hlacks : ∀ k ∈ ["id", "session_id"], ¬ quoted (lit k) <:+: inputPayload.text := by
    decide
  have hread : m.Readable := by
    refine ⟨⟨by decide, fun _ => ⟨by decide, ?_⟩⟩,
      ⟨by decide, fun _ => by decide⟩,
      ⟨by decide, by decide, ?_⟩, fun _ => by decide⟩
    · rintro p ⟨rfl⟩
      exact hlacks "id" (by simp)
    · rintro - p ⟨rfl⟩
      exact hlacks "session_id" (by simp)
  have h := (recv_inverts_encode_iff m frame [] hframe).mpr hread
  rw [append_nil] at h
  exact ⟨frame, hframe, h⟩

/-- Two session ids that a browser may choose. -/
theorem browser_session_id_breaks_frame : let m (s : String) : Message :=
      { type := text "terminal_input", sessionId := text s, payload := some inputPayload }
    (encode (m "s\\")).bind ctcRecv =
        some ({ (m "s\\").kept with sessionId := some (lit "s\\\\\",") }, []) ∧
      (encode (m "payload")).bind ctcRecv =
        some ({ (m "payload").kept with payload := none }, []) := by
  decide

end CtForge.Agent
