import CtForge.Lib.Shell
import CtForge.Agent.Util

/-!
# The command line of a log query (`sysops.c`)

`ctc_sys_log_json` pastes what the console asks for into a line for the shell. The
unit is dropped unless it is a plain name, the keyword keeps only harmless bytes and
stands in single quotes, and the number of lines is a number. The priority is pasted
as it comes.
-/

namespace CtForge.Agent

open CLang Shell List

/-- What `handle_command` reads from the payload of a `sys_log` into its buffers. -/
structure SysLogArgs where
  source : CString 32
  priority : CString 32
  unit : CString 128
  keyword : CString 256
  lines : Int

def sysLogArgs : (payload : Option Bytes) → Except Fault SysLogArgs
  | none => .ok
    { source := .empty 31, priority := .empty 31, unit := .empty 127, keyword := .empty 255,
      lines := 100 }
  | some payload => do
    let source ← readCString payload (lit "source") 32 (by decide)
    let priority ← readCString payload (lit "priority") 32 (by decide)
    let unit ← readCString payload (lit "unit") 128 (by decide)
    let keyword ← readCString payload (lit "keyword") 256 (by decide)
    return ⟨source, priority, unit, keyword, jsonGetInt payload (lit "lines") 100⟩

/-- What `access` says: of journalctl in either place, and of the two log files. -/
structure LogHost where
  journalctl : Bool
  messages : Bool
  syslog : Bool
  deriving DecidableEq, Repr

def safeName (s : Bytes) : Bool :=
  !s.isEmpty && s.all fun c => isAlnum c || c == 45 || c == 95 || c == 46

/-- The loop that fills `safe_kw[256]`, keeping letters, digits, `-`, `_`, `.`, blanks
and what `extra` allows. -/
def safeKeyword (extra : UInt8 → Bool) (keyword : Bytes) : Bytes :=
  (keyword.filter fun c =>
    isAlnum c || c == 32 || c == 45 || c == 95 || c == 46 || extra c).take 253

def clampLines (lines : Int) : Nat :=
  if lines ≤ 0 || lines > 500 then 100 else lines.toNat

namespace SysLogArgs

variable (args : SysLogArgs)

def count : Nat := clampLines args.lines

/-- The buffer `filter[512]`. -/
def filter : Bytes :=
  let filter :=
    if args.priority.bytes.isEmpty then []
    else strncat [] (snprintf 64 (lit " -p " ++ args.priority.bytes)) 511
  if safeName args.unit.bytes then
    let filter := strncat filter (lit " -u ") (511 - filter.length)
    strncat filter args.unit.bytes (511 - filter.length)
  else filter

/-- Besides the usual bytes `/`, `:` and `=`. -/
def journalKeyword : Bytes :=
  safeKeyword (fun c => c == 47 || c == 58 || c == 61) args.keyword.bytes

def fileKeyword : Bytes := safeKeyword (fun _ => false) args.keyword.bytes

def journalCommand : Bytes :=
  let kw := args.journalKeyword
  if kw.isEmpty then
    snprintf 2048 (lit "journalctl --no-pager -o short-iso " ++ args.filter ++ lit " -n " ++
      decimal args.count ++ lit " 2>/dev/null")
  else
    snprintf 2048 (lit "journalctl --no-pager -o short-iso " ++ args.filter ++ lit " -n " ++
      decimal (args.count * 5) ++ lit " 2>/dev/null | grep -F -- '" ++ kw ++ lit "' | tail -" ++
      decimal args.count)

def fileCommand (file : Bytes) : Bytes :=
  let kw := args.fileKeyword
  if kw.isEmpty then
    snprintf 2048 (lit "tail -" ++ decimal args.count ++ lit " " ++ file ++ lit " 2>/dev/null")
  else
    snprintf 2048 (lit "grep -F -- '" ++ kw ++ lit "' " ++ file ++ lit " 2>/dev/null | tail -" ++
      decimal args.count)

def asksJournal (host : LogHost) : Bool :=
  host.journalctl && (args.source.bytes.isEmpty || args.source.bytes == lit "journald")

end SysLogArgs

def LogHost.file (host : LogHost) : Option Bytes :=
  if host.messages then some (lit "/var/log/messages")
  else if host.syslog then some (lit "/var/log/syslog")
  else none

/-- The line `cmd` of `ctc_sys_log_json`; none where it returns without running one. -/
def sysLogCommand (host : LogHost) (args : SysLogArgs) : Option Bytes :=
  if args.asksJournal host then some args.journalCommand else host.file.map args.fileCommand

/-! ## The pipeline -/

def words (s : List String) : List Token := s.map fun w => plainWord (lit w)

/-- `2>/dev/null`. -/
def discardErrors : List Token :=
  [.ioNumber [.plain 50], .op 62, plainWord (lit "/dev/null")]

/-- `| tail -n`. -/
def tailOf (n : Nat) : List Token := [.op 124, plainWord (lit "tail"), plainWord (45 :: decimal n)]

namespace SysLogArgs

variable (args : SysLogArgs)

def priorityOption : List Token :=
  if args.priority.bytes.isEmpty then [] else words ["-p"] ++ [plainWord args.priority.bytes]

def unitOption : List Token :=
  if safeName args.unit.bytes then words ["-u"] ++ [plainWord args.unit.bytes] else []

def journalPipeline : List Token :=
  let kw := args.journalKeyword
  let query (n : Nat) := words ["journalctl", "--no-pager", "-o", "short-iso"] ++
    (args.priorityOption ++ args.unitOption) ++ words ["-n"] ++ [plainWord (decimal n)] ++
    discardErrors
  if kw.isEmpty then query args.count
  else query (args.count * 5) ++ [.op 124] ++ words ["grep", "-F", "--"] ++ [quotedWord kw] ++
    tailOf args.count

def filePipeline (file : Bytes) : List Token :=
  let kw := args.fileKeyword
  if kw.isEmpty then
    words ["tail"] ++ [plainWord (45 :: decimal args.count), plainWord file] ++ discardErrors
  else
    words ["grep", "-F", "--"] ++ [quotedWord kw, plainWord file] ++ discardErrors ++
      tailOf args.count

end SysLogArgs

def sysLogPipeline (host : LogHost) (args : SysLogArgs) : Option (List Token) :=
  if args.asksJournal host then some args.journalPipeline else host.file.map args.filePipeline

/-! ## The texts fit their buffers -/

theorem clampLines_lt (lines : Int) : clampLines lines ≤ 500 := by
  unfold clampLines
  split
  · omega
  · rename_i h
    simp only [Bool.or_eq_true, decide_eq_true_eq, not_or] at h
    omega

theorem safeKeyword_length (extra : UInt8 → Bool) (keyword : Bytes) :
    (safeKeyword extra keyword).length ≤ 253 := by
  simp [safeKeyword]

namespace SysLogArgs

variable (args : SysLogArgs)

theorem decimal_count : (decimal args.count).length ≤ 3 := by
  have := clampLines_lt args.lines
  exact decimal_length (by omega) (by unfold count; omega)

theorem decimal_count_five : (decimal (args.count * 5)).length ≤ 4 := by
  have := clampLines_lt args.lines
  exact decimal_length (by omega) (by unfold count; omega)

def priorityText : Bytes :=
  if args.priority.bytes.isEmpty then [] else lit " -p " ++ args.priority.bytes

def unitText : Bytes :=
  if safeName args.unit.bytes then lit " -u " ++ args.unit.bytes else []

theorem priorityText_length : args.priorityText.length ≤ 35 := by
  have hprio := args.priority.fits
  unfold priorityText
  split
  · simp
  · rw [length_append, show (lit " -p ").length = 4 from rfl]
    omega

theorem unitText_length : args.unitText.length ≤ 131 := by
  have hunit := args.unit.fits
  unfold unitText
  split
  · rw [length_append, show (lit " -u ").length = 4 from rfl]
    omega
  · simp

theorem filter_eq : args.filter = args.priorityText ++ args.unitText := by
  have hlen := args.priorityText_length
  have hunit := args.unit.fits
  have hu : (lit " -u ").length = 4 := rfl
  have hfront : (if args.priority.bytes.isEmpty then []
      else strncat [] (snprintf 64 (lit " -p " ++ args.priority.bytes)) 511) =
      args.priorityText := by
    unfold priorityText at hlen ⊢
    by_cases hnone : args.priority.bytes.isEmpty = true
    · rw [if_pos hnone, if_pos hnone]
    · rw [if_neg hnone] at hlen
      rw [if_neg hnone, if_neg hnone, snprintf_eq_self (by omega), strncat_eq_append (by omega)]
      rfl
  unfold filter
  rw [hfront, unitText]
  split
  · have hone : strncat args.priorityText (lit " -u ") (511 - args.priorityText.length) =
        args.priorityText ++ lit " -u " := strncat_eq_append (by omega)
    dsimp only
    rw [hone, strncat_eq_append (by rw [length_append]; omega), append_assoc]
  · simp

theorem filter_length : args.filter.length ≤ 166 := by
  have hprio := args.priorityText_length
  have hunit := args.unitText_length
  rw [filter_eq, length_append]
  omega

end SysLogArgs

/-! ## How the shell reads them -/

theorem isPlain_of_name {c : UInt8} :
    (isAlnum c || c == 45 || c == 95 || c == 46) = true →
      isPlain c = true ∧ isLeading c = false :=
  forall_byte (p := fun c => (isAlnum c || c == 45 || c == 95 || c == 46) = true →
    isPlain c = true ∧ isLeading c = false) (by decide +kernel) c

theorem isPlainWord_of_names {w : Bytes} (hne : w ≠ [])
    (h : ∀ c ∈ w, (isAlnum c || c == 45 || c == 95 || c == 46) = true) : isPlainWord w = true := by
  obtain ⟨c, w, rfl⟩ := exists_cons_of_ne_nil hne
  obtain ⟨hplain, hlead⟩ := isPlain_of_name (h c mem_cons_self)
  refine isPlainWord_cons.mpr ⟨hlead, hplain, ?_⟩
  intro d hd
  exact (isPlain_of_name (h d (mem_cons_of_mem c hd))).1

theorem isPlainWord_safeName {w : Bytes} (h : safeName w = true) : isPlainWord w = true := by
  simp only [safeName, Bool.and_eq_true, Bool.not_eq_true', all_eq_true] at h
  refine isPlainWord_of_names ?_ h.2
  rintro rfl
  cases h.1

theorem isPlainWord_decimal (n : Nat) : isPlainWord (decimal n) = true := by
  refine isPlainWord_of_names (decimal_ne_nil n) ?_
  intro c hc
  simp [isAlnum, decimal_digits hc]

theorem isPlainWord_dash_decimal (n : Nat) : isPlainWord (45 :: decimal n) = true := by
  refine isPlainWord_of_names (by simp) ?_
  intro c hc
  rcases mem_cons.mp hc with rfl | hc
  · rfl
  · simp [isAlnum, decimal_digits hc]

theorem quote_not_mem_safeKeyword {extra : UInt8 → Bool} (h : extra 39 = false) (keyword : Bytes) :
    39 ∉ safeKeyword extra keyword := by
  intro hmem
  have hpass := of_mem_filter (mem_of_mem_take hmem)
  simp [h, isAlnum, isAlpha, isDigit] at hpass

variable {args : SysLogArgs}

/-- With a plain priority the filter is read as its options. -/
theorem reads_filter (hprio : args.priority.bytes ≠ [] → isPlainWord args.priority.bytes = true) :
    Reads (args.filter ++ [32]) (args.priorityOption ++ args.unitOption) := by
  have hblank : Reads [32] [] := reads_of_run (by decide)
  have hp : Reads (lit " -p ") (words ["-p"]) := reads_of_run (by decide)
  have hu : Reads (lit "-u ") (words ["-u"]) := reads_of_run (by decide)
  have hpriority : Reads (args.priorityText ++ [32]) args.priorityOption := by
    unfold SysLogArgs.priorityText SysLogArgs.priorityOption
    split
    · exact hblank
    · rename_i hne
      rw [append_assoc]
      exact hp.append (reads_plain (hprio fun hnil => hne (by simp [hnil])))
  rw [SysLogArgs.filter_eq, SysLogArgs.unitText, SysLogArgs.unitOption, append_assoc]
  split
  · rename_i hunit
    have hword := hu.append (reads_plain (isPlainWord_safeName hunit))
    have hall := hpriority.append hword
    rw [append_assoc] at hall
    exact hall
  · rw [append_nil]
    exact hpriority

theorem reads_query
    (hprio : args.priority.bytes ≠ [] → isPlainWord args.priority.bytes = true) (n : Nat) :
    Reads (lit "journalctl --no-pager -o short-iso " ++ (args.filter ++ [32]) ++ lit "-n " ++
        (decimal n ++ [32]) ++ lit "2>")
      (words ["journalctl", "--no-pager", "-o", "short-iso"] ++
        (args.priorityOption ++ args.unitOption) ++ words ["-n"] ++ [plainWord (decimal n)] ++
        [Token.ioNumber [.plain 50], Token.op 62]) := by
  have hcmd : Reads (lit "journalctl --no-pager -o short-iso ")
      (words ["journalctl", "--no-pager", "-o", "short-iso"]) := by
    rw [lit_ofList]
    exact reads_of_run (by decide)
  have hn : Reads (lit "-n ") (words ["-n"]) := reads_of_run (by decide)
  have herr : Reads (lit "2>") [.ioNumber [.plain 50], .op 62] := reads_of_run (by decide)
  exact (((hcmd.append (reads_filter hprio)).append hn).append
    (reads_plain (isPlainWord_decimal n))).append herr

/-- With a plain priority the line for the journal is the fixed pipeline. -/
theorem split_journalCommand
    (hprio : args.priority.bytes ≠ [] → isPlainWord args.priority.bytes = true) :
    split args.journalCommand = some args.journalPipeline := by
  have hfilter := args.filter_length
  have hcount := args.decimal_count
  have hfive := args.decimal_count_five
  have hkw : args.journalKeyword.length ≤ 253 := safeKeyword_length _ _
  have hcmd : (lit "journalctl --no-pager -o short-iso ").length = 35 := by
    rw [lit_ofList]
    rfl
  have hn : (lit " -n ").length = 4 := rfl
  unfold SysLogArgs.journalCommand SysLogArgs.journalPipeline
  dsimp only
  split
  · rw [snprintf_eq_self]
    · have hread := (reads_query hprio args.count).split_last
        (show isPlainWord (lit "/dev/null") = true by decide)
      simp only [append_assoc] at hread ⊢
      exact hread
    · simp only [length_append]
      have herr : (lit " 2>/dev/null").length = 12 := rfl
      omega
  · rw [snprintf_eq_self]
    · have hnull : Reads (lit "/dev/null | grep -F -- ")
          ([plainWord (lit "/dev/null"), .op 124] ++ words ["grep", "-F", "--"]) :=
        reads_of_run (by decide)
      have hquoted :
          Reads (39 :: args.journalKeyword ++ [39, 32]) [quotedWord args.journalKeyword] :=
        reads_quoted (quote_not_mem_safeKeyword rfl _)
      have htail : Reads (lit "| tail ") [.op 124, plainWord (lit "tail")] :=
        reads_of_run (by decide)
      have hread := ((((reads_query hprio (args.count * 5)).append hnull).append hquoted).append
        htail).split_last (isPlainWord_dash_decimal args.count)
      simp only [append_assoc] at hread ⊢
      exact hread
    · simp only [length_append]
      have hgrep : (lit " 2>/dev/null | grep -F -- '").length = 27 := rfl
      have htail : (lit "' | tail -").length = 10 := rfl
      omega

/-- The line for a log file is always the fixed pipeline. -/
theorem split_fileCommand (args : SysLogArgs) {file : Bytes} (hplain : isPlainWord file = true)
    (hlen : file.length ≤ 100) : split (args.fileCommand file) = some (args.filePipeline file) := by
  have hcount := args.decimal_count
  have hkw : args.fileKeyword.length ≤ 253 := safeKeyword_length _ _
  have herr : Reads (lit "2>") [.ioNumber [.plain 50], .op 62] := reads_of_run (by decide)
  unfold SysLogArgs.fileCommand SysLogArgs.filePipeline
  dsimp only
  split
  · rw [snprintf_eq_self]
    · have htail : Reads (lit "tail ") (words ["tail"]) := reads_of_run (by decide)
      have hread := (((htail.append (reads_plain (isPlainWord_dash_decimal args.count))).append
        (reads_plain hplain)).append herr).split_last
        (show isPlainWord (lit "/dev/null") = true by decide)
      simp only [append_assoc] at hread ⊢
      exact hread
    · simp only [length_append]
      have htail : (lit "tail -").length = 6 := rfl
      have hblank : (lit " ").length = 1 := rfl
      have hnull : (lit " 2>/dev/null").length = 12 := rfl
      omega
  · rw [snprintf_eq_self]
    · have hgrep : Reads (lit "grep -F -- ") (words ["grep", "-F", "--"]) :=
        reads_of_run (by decide)
      have hquoted : Reads (39 :: args.fileKeyword ++ [39, 32]) [quotedWord args.fileKeyword] :=
        reads_quoted (quote_not_mem_safeKeyword rfl _)
      have htail : Reads (lit "/dev/null | tail ")
          [plainWord (lit "/dev/null"), .op 124, plainWord (lit "tail")] :=
        reads_of_run (by decide)
      have hread := ((((hgrep.append hquoted).append (reads_plain hplain)).append herr).append
        htail).split_last (isPlainWord_dash_decimal args.count)
      simp only [append_assoc] at hread ⊢
      exact hread
    · simp only [length_append]
      have hgrep : (lit "grep -F -- '").length = 12 := rfl
      have hclose : (lit "' ").length = 2 := rfl
      have htail : (lit " 2>/dev/null | tail -").length = 21 := rfl
      omega

theorem LogHost.file_plain {host : LogHost} {file : Bytes} (h : host.file = some file) :
    isPlainWord file = true ∧ file.length ≤ 100 := by
  unfold LogHost.file at h
  split_ifs at h
  · cases h
    decide
  · cases h
    decide

theorem priority_mem_journalPipeline (h : args.priority.bytes ≠ []) :
    plainWord args.priority.bytes ∈ args.journalPipeline := by
  have hoption : plainWord args.priority.bytes ∈ args.priorityOption := by
    simp [SysLogArgs.priorityOption, h]
  unfold SysLogArgs.journalPipeline
  dsimp only
  split
  · simp [hoption]
  · simp [hoption]

/-- The line is the fixed pipeline, with each value of the request as at most one argument, if
and only if the journal is not asked, or no priority is given, or the priority is a word that
the shell takes as it stands. -/
theorem log_query_is_one_pipeline_iff (host : LogHost) (args : SysLogArgs) :
    (∀ cmd, sysLogCommand host args = some cmd → split cmd = sysLogPipeline host args) ↔
      (args.asksJournal host = true → args.priority.bytes ≠ [] →
        isPlainWord args.priority.bytes = true) := by
  unfold sysLogCommand sysLogPipeline
  by_cases hjournal : args.asksJournal host = true
  · simp only [hjournal, if_true, Option.some.injEq, forall_eq', forall_const]
    constructor
    · intro hsplit hne
      exact isPlainWord_of_sound hne (split_words hsplit (priority_mem_journalPipeline hne))
    · exact split_journalCommand
  · simp only [hjournal, if_false, Bool.false_eq_true, false_implies, iff_true]
    intro cmd hcmd
    obtain ⟨file, hfile, rfl⟩ := Option.map_eq_some_iff.mp hcmd
    obtain ⟨hplain, hlen⟩ := LogHost.file_plain hfile
    rw [hfile]
    exact split_fileCommand args hplain hlen

/-- A priority with a semicolon runs a command. -/
theorem priority_runs_command :
    let host : LogHost := { journalctl := true, messages := true, syslog := false }
    let payload := lit "\x7b\"source\":\"journald\",\"priority\":\"err;reboot\",\"lines\":50\x7d"
    ∃ args, sysLogArgs (some payload) = .ok args ∧
      (sysLogCommand host args).bind split =
        some (words ["journalctl", "--no-pager", "-o", "short-iso", "-p", "err"] ++ [.op 59] ++
          words ["reboot", "-n", "50"] ++ discardErrors) ∧
      (sysLogCommand host args).bind split ≠ sysLogPipeline host args := by
  refine ⟨_, rfl, ?_, ?_⟩
  · decide
  · decide

end CtForge.Agent
