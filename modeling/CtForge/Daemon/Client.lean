import CtForge.Daemon.Connection
import Mathlib.Data.List.TakeWhile

/-!
# The responses that `ctforgectl` reads (`ctforgectl.c`)

`on_read` handles the complete lines of what one read gave. Nothing is kept for the next read,
so the beginning of a line that two reads share is lost.

What `json_tokener_parse` computes stands outside, and what is printed for a value is told by
the value.
-/

namespace CtForge.Daemon.Ctl

open CLang Lines List

/-- What one call of `pr_info`, `pr_err` or `safe_print_resmsg` prints. -/
inductive Printed where
  | err (text : Bytes)
  | info (text : Bytes)
  | double (text : Bytes)
  | flat (resmsg : Json)

def handleServerResponse (root : Json) : Printed :=
  match root with
  | .object fields =>
    match (Json.object fields).get (lit "resmsg") with
    | none => .info (lit "no 'resmsg' field in server response")
    | some .null => .info (lit "'resmsg' field exists but is null")
    | some (.string s) => .info (lit "resmsg (string) = " ++ cstring s)
    | some (.int n) => .info (lit "resmsg (int) = " ++ decimalInt ((Json.int n).getInt.getD 0))
    | some (.bool b) => .info (lit "resmsg (bool) = " ++ lit (if b then "true" else "false"))
    | some (.double text) => .double text
    | some resmsg => .flat resmsg
  | _ => .err (lit "root is not a JSON object")

/-- The lines given to `json_tokener_parse`, and what was printed. -/
structure Client where
  parsed : List Bytes := []
  printed : List Printed := []

namespace Client

variable (parse : Bytes → Option Json)

def answer (line : Bytes) : Printed :=
  match parse line with
  | none | some .null => .err line
  | some root => handleServerResponse root

def onLine (c : Client) (line : Bytes) : Client :=
  ⟨c.parsed ++ [cstring line], c.printed ++ [answer parse (cstring line)]⟩

/-- `on_read`, with `nread > 0` or without bytes. -/
def onRead (c : Client) (chunk : Bytes) : Client := (cut 10 chunk).1.foldl (onLine parse) c

def reads (chunks : List Bytes) : Client := chunks.foldl (onRead parse) {}

/-- Nothing stands behind the last newline. -/
def Whole (s : Bytes) : Prop := (cut 10 s).2 = []

instance : DecidablePred Whole := fun s => inferInstanceAs (Decidable ((cut 10 s).2 = []))

variable {parse}

theorem foldl_onLine (lines : List Bytes) (c : Client) :
    lines.foldl (onLine parse) c = ⟨c.parsed ++ lines.map cstring,
      c.printed ++ (lines.map cstring).map (answer parse)⟩ := by
  induction lines generalizing c with
  | nil => simp
  | cons line lines ih =>
    rw [foldl_cons, ih, onLine]
    simp

/-- The reads one by one are the lines of each read, parsed and answered. -/
theorem reads_eq (chunks : List Bytes) :
    reads parse chunks = ⟨(chunks.flatMap fun c => (cut 10 c).1).map cstring,
      ((chunks.flatMap fun c => (cut 10 c).1).map cstring).map (answer parse)⟩ := by
  have hlines : reads parse chunks =
      (chunks.flatMap fun c => (cut 10 c).1).foldl (onLine parse) {} := by
    rw [foldl_flatMap]
    rfl
  rw [hlines, foldl_onLine]
  rfl

theorem reads_parsed (chunks : List Bytes) :
    (reads parse chunks).parsed = (chunks.flatMap fun c => (cut 10 c).1).map cstring := by
  rw [reads_eq]

variable {chunks : List Bytes}

theorem lines_of_whole (h : ∀ c ∈ chunks, Whole c) :
    chunks.flatMap (fun c => (cut 10 c).1) = (cut 10 chunks.flatten).1 := by
  induction chunks with
  | nil => rfl
  | cons c chunks ih =>
    obtain ⟨hc, hrest⟩ := forall_mem_cons.mp h
    rw [flatMap_cons, flatten_cons, cut_append, hc, ih hrest, nil_append]

/-- The lines of the reads lack the bytes behind the last newline of each. -/
theorem lines_bytes (chunks : List Bytes) :
    ((chunks.flatMap fun c => (cut 10 c).1).flatMap (· ++ [10])).length +
      (chunks.flatMap fun c => (cut 10 c).2).length = chunks.flatten.length := by
  induction chunks with
  | nil => rfl
  | cons c chunks ih =>
    have hc := congrArg length (cut_join 10 c)
    rw [length_append] at hc
    simp only [flatMap_cons, flatMap_append, flatten_cons, length_append]
    omega

theorem whole_of_lines (hend : Whole chunks.flatten)
    (h : chunks.flatMap (fun c => (cut 10 c).1) = (cut 10 chunks.flatten).1) :
    ∀ c ∈ chunks, Whole c := by
  have hbytes := lines_bytes chunks
  have hstream := congrArg length (cut_join 10 chunks.flatten)
  rw [length_append, show (cut 10 chunks.flatten).2 = [] from hend, ← h, length_nil] at hstream
  have hrest : (chunks.flatMap fun c => (cut 10 c).2).length = 0 := by omega
  exact flatMap_eq_nil_iff.mp (eq_nil_of_length_eq_zero hrest)

theorem map_cstring (hnul : 0 ∉ chunks.flatten) :
    (chunks.flatMap fun c => (cut 10 c).1).map cstring = chunks.flatMap fun c => (cut 10 c).1 := by
  refine (map_congr_left fun line hline => ?_).trans (map_id _)
  obtain ⟨c, hc, hl⟩ := mem_flatMap.mp hline
  have hfree : 0 ∉ line := by
    intro h0
    refine hnul (mem_flatten.mpr ⟨c, hc, ?_⟩)
    rw [← cut_join 10 c]
    exact mem_append_left _ (mem_flatMap.mpr ⟨line, hl, mem_append_left _ h0⟩)
  exact takeWhile_eq_self_iff.mpr fun b hb => by simpa using ne_of_mem_of_not_mem hb hfree

/-- The daemon's responses end with a newline and have no NUL. -/
theorem reads_agree_iff {chunks₁ chunks₂ : List Bytes} (hend : Whole chunks₁.flatten)
    (hnul : 0 ∉ chunks₁.flatten) (hsame : chunks₁.flatten = chunks₂.flatten)
    (h₂ : ∀ c ∈ chunks₂, Whole c) :
    reads parse chunks₁ = reads parse chunks₂ ↔ ∀ c ∈ chunks₁, Whole c := by
  rw [reads_eq, reads_eq, map_cstring hnul, map_cstring (hsame ▸ hnul), lines_of_whole h₂, ← hsame]
  constructor
  · intro h
    exact whole_of_lines hend (congrArg parsed h)
  · intro h
    rw [lines_of_whole h]

/-- What `json_tokener_parse` gives for the two lines below. -/
def parseDigit (line : Bytes) : Option Json :=
  if line = lit "1" then some (.int 1) else if line = lit "2" then some (.int 2) else none

theorem whole_reads_agree :
    reads parseDigit [lit "1\n", lit "2\n"] = reads parseDigit [lit "1\n2\n"] :=
  (reads_agree_iff (by decide) (by decide) (by decide) (by decide)).mpr (by decide)

/-- The response `{"resmsg":1}`, in one read and in two. -/
theorem split_line_is_lost :
    (∀ parse, (reads parse [lit "\x7b\"resmsg\":1\x7d\n"]).parsed =
        [lit "\x7b\"resmsg\":1\x7d"]) ∧
      ∀ parse, (reads parse [lit "\x7b\"resmsg\"", lit ":1\x7d\n"]).parsed = [lit ":1\x7d"] :=
  ⟨fun _ => (reads_parsed _).trans (by decide), fun _ => (reads_parsed _).trans (by decide)⟩

end Client

end CtForge.Daemon.Ctl
