import CtForge.Agent.Reading

/-!
# The strings the agent acts on (`handle_command`, `files.c`, `terminal.c`)

A command, a path or the input of a terminal arrives as a string of the payload and is
copied into a buffer of fixed size. What the buffer does not hold is dropped without
notice, and the handler goes on with the rest.
-/

namespace CtForge.Agent

open CLang GoString List

/-! ## What the agent does -/

/-- What the agent asks of its host; `feed` are the bytes that reach the pty. -/
inductive Act where
  | run (shell command : Bytes) (timeoutSec : Int)
  | list (path : Bytes)
  | read (path : Bytes) (range : Option (Int × Int))
  | write (path : Bytes) (append : Bool) (data : Bytes)
  | remove (path : Bytes)
  | mkdir (path : Bytes)
  | rename (src dst : Bytes)
  | feed (data : Bytes)
  deriving DecidableEq, Repr

/-- What comes of a command: the host is asked, and a reply says how that went; or a
reply is sent at once; or neither. -/
inductive Response where
  | act (a : Act)
  | reply (payload : Bytes)
  | nothing
  deriving DecidableEq, Repr

def errorText (text : String) : Bytes := lit "\x7b\"error\":\"" ++ lit text ++ lit "\"\x7d"

/-- `safe_path`; none where it returns -1. -/
def safePath (path : Bytes) : Option Bytes :=
  if path.isEmpty then none
  else
    let buf := if path.head? == some 47 then path.take 1023 else snprintf 1024 (47 :: path)
    if (strtok (· == 47) buf).contains (lit "..") then none else some (buf.take 1023)

/-- A path that was read, and what is done with it if `safe_path` lets it pass. -/
def withPath (path : Bytes) (act : Bytes → Act) : Response :=
  match safePath path with
  | none => .reply (errorText "invalid path")
  | some sp => .act (act sp)

/-- `ctc_cmd_exec_json`, up to the child that runs the shell. -/
def cmdExec (command : Bytes) (timeoutSec : Int) (shell : Bytes) : Response :=
  if command.isEmpty then
    .reply (lit ("\x7b\"ok\":false,\"exit_code\":-1,\"stdout\":\"\",\"stderr\":\"\"," ++
      "\"duration_ms\":0\x7d"))
  else
    .act (.run (if shell.isEmpty then lit "/bin/bash" else shell) command
      (if timeoutSec ≤ 0 ∨ timeoutSec > 300 then 60 else timeoutSec))

def handleCmdExec : Option Bytes → Except Fault Response
  | none => .ok (.reply (errorText "bad payload"))
  | some json => do
    match ← jsonGetString json (lit "command") 2048 with
    | none => .ok (.reply (errorText "bad payload"))
    | some cmd =>
      let shell ← readBuffer json (lit "shell") 64
      .ok (cmdExec cmd (jsonGetInt json (lit "timeout_sec") 60) shell)

def handleTaskRun : Option Bytes → Except Fault Response
  | none => .ok .nothing
  | some json => do
    let cmd ← readBuffer json (lit "command") 2048
    if cmd.isEmpty then .ok .nothing
    else .ok (cmdExec cmd (jsonGetInt json (lit "timeout_sec") 60) (lit "/bin/bash"))

def handleFileList (payload : Option Bytes) : Except Fault Response := do
  let path ← match payload with
    | none => .ok none
    | some json => jsonGetString json (lit "path") 1024
  .ok (withPath (path.getD (lit "/")) .list)

def handleFileRead : Option Bytes → Except Fault Response
  | none => .ok (withPath [] fun sp => .read sp none)
  | some json => do
    let path ← readBuffer json (lit "path") 1024
    let off := jsonGetLong json (lit "offset") 0
    let lim := jsonGetLong json (lit "limit") 0
    .ok (withPath path fun sp => .read sp (if off > 0 ∨ lim > 0 then some (off, lim) else none))

/-- The path and the decoded content of a `file_write`, checked in this order. -/
def writeDecoded (append : Bool) : Option Bytes → Option Bytes → Response
  | none, _ => .reply (errorText "invalid path")
  | some _, none => .reply (errorText "bad base64")
  | some sp, some data => .act (.write sp append data)

/-- `ctc_file_write_json`. -/
def fileWrite (json : Bytes) : Except Fault Response := do
  match ← jsonGetString json (lit "path") 1024 with
  | none => .ok (.reply (errorText "missing path"))
  | some path =>
    match ← jsonGetString json (lit "content_base64") (16 * 1024 * 1024 - 4) with
    | none => .ok (.reply (errorText "missing content_base64"))
    | some b64 =>
      let append := jsonGetBool json (lit "append") false
      .ok (writeDecoded append (safePath path) (base64Decode b64))

/-- `ctc_file_simple_json` for `delete` and `mkdir`. -/
def fileSimple (act : Bytes → Act) (json : Bytes) : Except Fault Response := do
  match ← jsonGetString json (lit "path") 1024 with
  | none => .ok (.reply (errorText "missing path"))
  | some path => .ok (withPath path act)

def renamePaths : Option Bytes → Option Bytes → Response
  | some sf, some st => .act (.rename sf st)
  | _, _ => .reply (errorText "invalid path")

/-- `ctc_file_simple_json` for `rename`. -/
def fileRename (json : Bytes) : Except Fault Response := do
  match ← jsonGetString json (lit "from") 1024 with
  | none => .ok (.reply (errorText "missing from/to"))
  | some src =>
    match ← jsonGetString json (lit "to") 1024 with
    | none => .ok (.reply (errorText "missing from/to"))
    | some dst => .ok (renamePaths (safePath src) (safePath dst))

/-! ## The input of a terminal -/

/-- What a `write` to the pty returns. -/
inductive PtyWrite where
  | took (n : Nat)
  | again
  | failed
  deriving DecidableEq, Repr

/-- A slot of `g_terms`, with the results of the writes to its pty. -/
structure Terminal where
  sessionId : Bytes
  running : Bool
  pty : List PtyWrite
  deriving DecidableEq, Repr

/-- The loop of `ctc_term_input`: the bytes that reach the pty. -/
def ptyWrite : List PtyWrite → Bytes → Bytes
  | _, [] => []
  | [], _ => []
  | .again :: pty, data => ptyWrite pty data
  | .failed :: _, _ => []
  | .took n :: pty, data => data.take n ++ ptyWrite pty (data.drop n)

def Terminal.serves (session : Bytes) (t : Terminal) : Bool :=
  !t.sessionId.isEmpty && t.running && t.sessionId == session

/-- `ctc_term_input`; `strcmp` with no session id reads through a null pointer. -/
def termInput (terms : List Terminal) (session : Option Bytes) (data : Bytes) :
    Except Fault Response :=
  match session with
  | none =>
    if terms.any fun t => !t.sessionId.isEmpty && t.running then .error .nullDeref
    else .ok .nothing
  | some session =>
    match terms.find? (Terminal.serves session) with
    | none => .ok .nothing
    | some t => .ok (.act (.feed (ptyWrite t.pty data)))

def handleTerminalInput (terms : List Terminal) (msg : CtcMessage) : Except Fault Response :=
  match msg.payload with
  | none => .ok .nothing
  | some json => do
    match ← jsonGetString json (lit "data_base64") 8192 with
    | none => .ok .nothing
    | some b64 =>
      match base64Decode b64 with
      | none => .ok .nothing
      | some data => termInput terms msg.sessionId data

/-! ## The commands -/

inductive Command where
  | terminalInput | fileList | fileRead | fileWrite | fileDelete | fileRename | fileMkdir
  | taskRun | cmdExec
  deriving DecidableEq, Repr

def Command.all : List Command :=
  [.terminalInput, .fileList, .fileRead, .fileWrite, .fileDelete, .fileRename, .fileMkdir,
    .taskRun, .cmdExec]

def Command.name : Command → String
  | .terminalInput => "terminal_input"
  | .fileList => "file_list"
  | .fileRead => "file_read"
  | .fileWrite => "file_write"
  | .fileDelete => "file_delete"
  | .fileRename => "file_rename"
  | .fileMkdir => "file_mkdir"
  | .taskRun => "task_run"
  | .cmdExec => "cmd_exec"

def Command.handle (terms : List Terminal) (msg : CtcMessage) : Command → Except Fault Response
  | .terminalInput => handleTerminalInput terms msg
  | .fileList => handleFileList msg.payload
  | .fileRead => handleFileRead msg.payload
  | .fileWrite => Agent.fileWrite (msg.payload.getD (lit "\x7b\x7d"))
  | .fileDelete => fileSimple .remove (msg.payload.getD (lit "\x7b\x7d"))
  | .fileRename => Agent.fileRename (msg.payload.getD (lit "\x7b\x7d"))
  | .fileMkdir => fileSimple .mkdir (msg.payload.getD (lit "\x7b\x7d"))
  | .taskRun => handleTaskRun msg.payload
  | .cmdExec => handleCmdExec msg.payload

/-- `handle_command` for these commands; none for every other. -/
def handleCommand (terms : List Terminal) (msg : CtcMessage) : Option (Except Fault Response) :=
  (Command.all.find? fun c => msg.type == some (lit c.name)).map (Command.handle terms msg)

/-! ## The requests of the server -/

def asciiText (b : Bytes) : Text := b.map fun c => .char (Char.ofNat c.toNat)

/-- A request as the server's API sends it. A command is never empty there, and
`fileEdit` (the editor's form of `file_write`) has at most 8 MiB. -/
inductive Request where
  | exec (command : Text) (hcommand : command ≠ []) (timeoutSec : Int) (shell : Text)
  | taskRun (command : Text) (hcommand : command ≠ []) (timeoutSec : Int)
  | fileList (path : Text)
  | fileRead (path : Text) (offset limit : Int)
  | fileWrite (path content : Text) (append : Bool)
  | fileEdit (path : Text) (content : Bytes) (hsize : content.length ≤ 8 * 1024 * 1024)
  | fileDelete (path : Text)
  | fileMkdir (path : Text)
  | fileRename (src dst : Text)
  | terminalInput (session data : Bytes)

def Request.command : Request → Command
  | .exec .. => .cmdExec
  | .taskRun .. => .taskRun
  | .fileList .. => .fileList
  | .fileRead .. => .fileRead
  | .fileWrite .. | .fileEdit .. => .fileWrite
  | .fileDelete .. => .fileDelete
  | .fileMkdir .. => .fileMkdir
  | .fileRename .. => .fileRename
  | .terminalInput .. => .terminalInput

/-- A number with `omitempty`. -/
def optionalNum (key : String) (n : Int) : List Field := if n = 0 then [] else [⟨key, .num n⟩]

def Request.fields : Request → List Field
  | .exec command _ timeoutSec shell =>
    ⟨"command", .str command⟩ :: (optionalNum "timeout_sec" timeoutSec ++ optional "shell" shell)
  | .taskRun command _ timeoutSec =>
    [⟨"command", .str command⟩, ⟨"task_id", .str (text "adhoc")⟩, ⟨"timeout_sec", .num timeoutSec⟩]
  | .fileList path => [⟨"path", .str path⟩]
  | .fileRead path offset limit =>
    ⟨"path", .str path⟩ :: (optionalNum "offset" offset ++ optionalNum "limit" limit)
  | .fileWrite path content append =>
    ⟨"path", .str path⟩ :: ⟨"content_base64", .str content⟩ ::
      (if append then [⟨"append", .bool true⟩] else [])
  | .fileEdit path content _ =>
    [⟨"append", .bool false⟩, ⟨"content_base64", .str (asciiText (Base64.encode content))⟩,
      ⟨"path", .str path⟩]
  | .fileDelete path | .fileMkdir path => [⟨"path", .str path⟩]
  | .fileRename src dst => [⟨"from", .str src⟩, ⟨"to", .str dst⟩]
  | .terminalInput _ data => [⟨"data_base64", .str (asciiText (Base64.encode data))⟩]

/-- The request as `ctc_recv` hands it over. Only the session id of an input matters. -/
def Request.received (r : Request) (id session : Option Bytes) : CtcMessage where
  id := id
  type := some (lit r.command.name)
  sessionId := match r with
    | .terminalInput session _ => some session
    | _ => session
  payload := some (objectText r.fields)

def rootedPath (path : Text) : Text :=
  if path.head? = some (.char '/') then path else .char '/' :: path

def Request.Exact : Request → Act → Prop
  | .exec command _ _ _, a => ∃ shell timeout, a = .run shell (bytes command) timeout
  | .taskRun command _ _, a => ∃ timeout, a = .run (lit "/bin/bash") (bytes command) timeout
  | .fileList path, a => a = .list (bytes (rootedPath path))
  | .fileRead path _ _, a => ∃ range, a = .read (bytes (rootedPath path)) range
  | .fileWrite path _ append, a => ∃ data, a = .write (bytes (rootedPath path)) append data
  | .fileEdit path content _, a => a = .write (bytes (rootedPath path)) false content
  | .fileDelete path, a => a = .remove (bytes (rootedPath path))
  | .fileMkdir path, a => a = .mkdir (bytes (rootedPath path))
  | .fileRename src dst, a => a = .rename (bytes (rootedPath src)) (bytes (rootedPath dst))
  | .terminalInput _ data, a => a = .feed data

/-- The type of the reply is `error`. -/
def isError (payload : Bytes) : Bool := (strstr (lit "\"error\"") payload).isSome

/-- The request is acted on as it was sent, or answered with an error; of an input that
is passed over, nothing may be lost. -/
def Response.Honours (r : Request) : Response → Prop
  | .act a => r.Exact a
  | .reply payload => isError payload = true
  | .nothing => ∃ session, r = .terminalInput session []

/-! ## Paths -/

def Kept (s : Text) : Prop := ∀ r ∈ s, keptRune r = true

def PathFits (path : Text) : Prop := Kept path ∧ (bytes (rootedPath path)).length < 1024

/-- A path that is refused: it is empty up to the first NUL, or there is a `..` in the
part of it that the buffer holds. -/
def PathRefused (path : Text) : Prop :=
  path = [] ∨ path.head? = some (.char '\x00') ∨
    lit ".." ∈ strtok (· == 47) (held 1024 (rootedPath path))

theorem cString_cons {c : UInt8} (hc : c ≠ 0) (l : Bytes) : cString (c :: l) = c :: cString l := by
  simp [cString, hc]

theorem take_cString (n : Nat) (l : Bytes) : (cString l).take n = cString (l.take n) := by
  induction l generalizing n with
  | nil => simp [cString]
  | cons c l ih =>
    by_cases hc : c = 0
    · subst hc
      cases n <;> simp [cString]
    · cases n with
      | zero => simp [cString]
      | succ n => rw [cString_cons hc, take_succ_cons, ih, take_succ_cons, cString_cons hc]

theorem held_slash (s : Text) : held 1024 (.char '/' :: s) = 47 :: (held 1024 s).take 1022 := by
  have hhead : (Rune.char '/' :: s).flatMap decodedRune = 47 :: s.flatMap decodedRune := rfl
  rw [held, hhead, held, take_cString, take_take]
  exact cString_cons (by decide) _

/-- A byte that no escape is copied as begins the copy of its own character only. -/
theorem decodedRune_head {c : Char} (hc : c.toNat ≤ 127)
    (hother : c.toNat ∉ [8, 12, 40, 41, 98, 102]) (r : Rune) :
    (decodedRune r).head? = some (UInt8.ofNat c.toNat) ↔ r = .char c := by
  have hnat := toNat_ofNat_toNat hc
  have hne : ∀ b : UInt8, c.toNat ≠ b.toNat → b ≠ UInt8.ofNat c.toNat := by
    rintro b hb rfl
    exact hb hnat.symm
  constructor
  · intro h
    cases r with
    | invalid b =>
      have : (253 : UInt8) ≠ UInt8.ofNat c.toNat := hne 253 (by change c.toNat ≠ 253; omega)
      exact absurd (Option.some.inj h) this
    | char d =>
      rcases decodedRune_char d with ⟨heq, -⟩ | ⟨-, -, hd⟩
      · rw [heq] at h
        by_cases hd : d.toNat ≤ 127
        · rw [utf8EncodeChar_ascii hd] at h
          have hbyte := congrArg UInt8.toNat (Option.some.inj h)
          rw [toNat_ofNat_toNat hd, hnat] at hbyte
          rw [Char.toNat_inj.mp hbyte]
        · have hwide := utf8EncodeChar_wide (by omega) (mem_of_head? h)
          rw [UInt8.le_iff_toNat_le, hnat] at hwide
          exact absurd hwide (by change ¬ 128 ≤ c.toNat; omega)
      · have hbyte : ∃ b ∈ [(98 : UInt8), 102, 40, 41], decodedRune (.char d) = [b] := by
          rcases hd with h | h | h | h <;> simp [decodedRune, h]
        obtain ⟨b, hb, heq⟩ := hbyte
        rw [heq, List.head?_cons, Option.some.injEq] at h
        refine absurd h (hne b ?_)
        simp only [mem_cons, not_mem_nil, or_false, not_or] at hb hother
        rcases hb with rfl | rfl | rfl | rfl
        · exact hother.2.2.2.2.1
        · exact hother.2.2.2.2.2
        · exact hother.2.2.1
        · exact hother.2.2.2.1
  · rintro rfl
    rcases decodedRune_char c with ⟨heq, -⟩ | ⟨-, -, hc'⟩
    · rw [heq, utf8EncodeChar_ascii hc]
      rfl
    · simp only [mem_cons, not_or] at hother
      omega

theorem decodedRune_ne_nil (r : Rune) : decodedRune r ≠ [] := by
  cases r with
  | invalid b => simp [decodedRune]
  | char c =>
    rw [decodedRune]
    split_ifs
    all_goals simp

theorem flatMap_decodedRune_head (r : Rune) (s : Text) :
    ((r :: s).flatMap decodedRune).head? = (decodedRune r).head? := by
  rw [flatMap_cons, List.head?_append_of_ne_nil _ (decodedRune_ne_nil r)]

/-- The buffer is empty exactly if the string is, or begins with a NUL. -/
theorem held_eq_nil_iff (s : Text) : held 1024 s = [] ↔ s = [] ∨ s.head? = some (.char '\x00') := by
  cases s with
  | nil => simp [held, cString]
  | cons r s =>
    have hzero := decodedRune_head (c := '\x00') (by decide) (by decide) r
    have hhead := flatMap_decodedRune_head r s
    rw [held]
    generalize hx : (r :: s).flatMap decodedRune = x at hhead ⊢
    cases x with
    | nil =>
      rw [List.head?_nil, eq_comm, List.head?_eq_none_iff] at hhead
      exact absurd hhead (decodedRune_ne_nil r)
    | cons b x =>
      rw [← hhead, List.head?_cons] at hzero
      by_cases hb : b = 0
      · subst hb
        simp [cString, hzero.mp rfl]
      · have hr : r ≠ .char '\x00' := fun h => hb (Option.some.inj (hzero.mpr h))
        simp [take_succ_cons, cString_cons hb, hr]

theorem held_head_slash {s : Text} (hne : held 1024 s ≠ []) :
    (held 1024 s).head? = some 47 ↔ s.head? = some (.char '/') := by
  cases s with
  | nil => exact absurd ((held_eq_nil_iff []).mpr (.inl rfl)) hne
  | cons r s =>
    have hslash := decodedRune_head (c := '/') (by decide) (by decide) r
    have hhead := flatMap_decodedRune_head r s
    rw [List.head?_cons, Option.some.injEq, ← hslash, ← hhead]
    rw [held] at hne ⊢
    generalize (r :: s).flatMap decodedRune = x at hne ⊢
    cases x with
    | nil => exact absurd rfl hne
    | cons b x =>
      by_cases hb : b = 0
      · subst hb
        simp [cString] at hne
      · rw [take_succ_cons, cString_cons hb]
        exact Iff.rfl

theorem safePath_held (path : Text) :
    safePath (held 1024 path) =
      if held 1024 path = [] ∨ lit ".." ∈ strtok (· == 47) (held 1024 (rootedPath path)) then none
      else some (held 1024 (rootedPath path)) := by
  by_cases hempty : held 1024 path = []
  · rw [if_pos (.inl hempty), hempty]
    rfl
  · have hlen := held_length_le 1024 path
    have hbuf : (if (held 1024 path).head? == some 47 then (held 1024 path).take 1023
        else snprintf 1024 (47 :: held 1024 path)) = held 1024 (rootedPath path) := by
      simp only [beq_iff_eq, held_head_slash hempty, rootedPath]
      split_ifs
      · exact take_of_length_le hlen
      · rw [held_slash]
        rfl
    have hheld := held_length_le 1024 (rootedPath path)
    simp only [safePath, hbuf, List.isEmpty_iff, contains_iff_mem, hempty, false_or, if_false,
      take_of_length_le hheld]

example : safePath (lit "/srv/../etc") = none := by decide +kernel

theorem kept_rootedPath (path : Text) : Kept (rootedPath path) ↔ Kept path := by
  unfold rootedPath
  split_ifs
  · exact Iff.rfl
  · have hslash : keptRune (.char '/') = true := by decide
    simp [Kept, hslash]

theorem held_rootedPath_iff (path : Text) :
    held 1024 (rootedPath path) = bytes (rootedPath path) ↔ PathFits path := by
  rw [held_eq_iff (by decide), PathFits, ← kept_rootedPath]
  exact Iff.rfl

theorem pathRefused_iff (path : Text) :
    PathRefused path ↔
      held 1024 path = [] ∨ lit ".." ∈ strtok (· == 47) (held 1024 (rootedPath path)) := by
  rw [held_eq_nil_iff, or_assoc]
  exact Iff.rfl

theorem safePath_cases (path : Text) :
    PathRefused path ∧ safePath (held 1024 path) = none ∨
      ¬ PathRefused path ∧ ∃ sp, safePath (held 1024 path) = some sp ∧
        (sp = bytes (rootedPath path) ↔ PathFits path) := by
  rw [safePath_held, pathRefused_iff]
  split_ifs with h
  · exact .inl ⟨h, rfl⟩
  · exact .inr ⟨h, _, rfl, held_rootedPath_iff path⟩

theorem isError_errorText (text : String) : isError (errorText text) = true := by
  rw [isError, Option.isSome_iff_ne_none, ne_eq, strstr_eq_none_iff (by decide), not_not]
  exact ⟨[123], [58, 34] ++ lit text ++ lit "\"\x7d", by simp [errorText, lit]⟩

variable {r : Request}

theorem withPath_honours {path : Text} {act : Bytes → Act}
    (hexact : ∀ sp, r.Exact (act sp) ↔ sp = bytes (rootedPath path)) :
    (withPath (held 1024 path) act).Honours r ↔ PathFits path ∨ PathRefused path := by
  unfold withPath
  rcases safePath_cases path with ⟨href, hsafe⟩ | ⟨href, sp, hsafe, hsp⟩
  · rw [hsafe]
    exact iff_of_true (isError_errorText _) (.inr href)
  · rw [hsafe, or_iff_left href, ← hsp]
    exact hexact sp

/-! ## Base64 in the payload -/

/-- Groups of four: two digits, and two digits or padding. -/
def isBase64 : Bytes → Bool
  | [] => true
  | a :: b :: c :: d :: rest =>
    Base64.isDigit64 a && Base64.isDigit64 b && (Base64.isDigit64 c || c == 61) &&
      (Base64.isDigit64 d || d == 61) && isBase64 rest
  | _ => false

theorem b64val_isSome (c : UInt8) : (b64val c).isSome = Base64.isDigit64 c :=
  forall_byte (p := fun c => (b64val c).isSome = Base64.isDigit64 c) (by decide +kernel) c

theorem b64pad_isSome (c : UInt8) : (b64pad c).isSome = (Base64.isDigit64 c || c == 61) :=
  forall_byte (p := fun c => (b64pad c).isSome = (Base64.isDigit64 c || c == 61))
    (by decide +kernel) c

theorem isBase64_length {s : Bytes} (h : isBase64 s = true) : s.length % 4 = 0 := by
  fun_induction isBase64 s with
  | case1 => rfl
  | case2 a b c d rest ih =>
    have hrest := ih (Bool.and_eq_true_iff.mp h).2
    simp only [length_cons]
    omega
  | case3 => cases h

theorem decodeGroups_isSome {s : Bytes} (h : s.length % 4 = 0) :
    (decodeGroups s).isSome = isBase64 s := by
  fun_induction isBase64 s with
  | case1 => rfl
  | case2 a b c d rest ih =>
    have hrest := ih (by simp only [length_cons] at h; omega)
    rw [decodeGroups, ← b64val_isSome, ← b64val_isSome, ← b64pad_isSome, ← b64pad_isSome, ← hrest]
    cases b64val a <;> cases b64val b <;> cases b64pad c <;> cases b64pad d <;>
      cases decodeGroups rest <;> rfl
  | case3 s hnil hgroup =>
    rcases s with _ | ⟨a, _ | ⟨b, _ | ⟨c, _ | ⟨d, rest⟩⟩⟩⟩
    · exact absurd rfl hnil
    · simp at h
    · simp at h
    · simp at h
    · exact absurd rfl (hgroup a b c d rest)

theorem base64Decode_isSome (s : Bytes) : (base64Decode s).isSome = isBase64 s := by
  by_cases h : s.length % 4 = 0
  · rw [base64Decode, if_neg (by simp [h]), Option.isSome_map, decodeGroups_isSome h]
  · have hno : isBase64 s = false := by
      rw [Bool.eq_false_iff]
      exact fun hyes => h (isBase64_length hyes)
    rw [base64Decode, if_pos h, hno]
    rfl

theorem digitRune {c : UInt8} (hc : Base64.isDigit64 c = true ∨ c = 61) :
    decodedRune (.char (Char.ofNat c.toNat)) = [c] := by
  revert hc
  exact forall_byte (p := fun c => Base64.isDigit64 c = true ∨ c = 61 →
    decodedRune (.char (Char.ofNat c.toNat)) = [c]) (by decide +kernel) c

/-- Of an encoded text the buffer holds its beginning. -/
theorem held_encode (size : Nat) (data : Bytes) :
    held size (asciiText (Base64.encode data)) = (Base64.encode data).take (size - 1) := by
  have hdigits := Base64.encode_digits data
  generalize Base64.encode data = b64 at hdigits
  have hall : (asciiText b64).flatMap decodedRune = b64 := by
    induction b64 with
    | nil => rfl
    | cons c b64 ih =>
      obtain ⟨hc, hrest⟩ := forall_mem_cons.mp hdigits
      have hcons : (asciiText (c :: b64)).flatMap decodedRune =
          decodedRune (.char (Char.ofNat c.toNat)) ++ (asciiText b64).flatMap decodedRune := rfl
      rw [hcons, digitRune hc, ih hrest]
      rfl
  rw [held, hall]
  refine cString_eq_self ?_
  intro hzero
  exact absurd (hdigits 0 (mem_of_mem_take hzero)) (by decide)

theorem base64Decode_input (data : Bytes) :
    base64Decode ((Base64.encode data).take 8191) =
      if data.length ≤ 6141 then some data else none := by
  have hlen := Base64.encode_length data
  split_ifs with h
  · rw [take_of_length_le (by omega), base64Decode_encode]
  · have hcut : ((Base64.encode data).take 8191).length = 8191 := by
      rw [length_take]
      omega
    rw [base64Decode, hcut]
    rfl

/-! ## The pty -/

/-- How many bytes the writes to a pty take before one fails. -/
def capacity : List PtyWrite → Nat
  | [] => 0
  | .took n :: pty => n + capacity pty
  | .again :: pty => capacity pty
  | .failed :: _ => 0

theorem ptyWrite_eq_take (pty : List PtyWrite) (data : Bytes) :
    ptyWrite pty data = data.take (capacity pty) := by
  fun_induction ptyWrite pty data with
  | case1 => simp
  | case2 data h | case4 => simp [capacity]
  | case3 data pty h ih => rw [ih, capacity]
  | case5 data n pty h ih => rw [ih, capacity, take_add]

/-! ## The handlers on what was sent -/

variable {k : String}

/-- What stands before a key: fields with other keys and flat values. -/
def Passed (k : String) (fields : List Field) : Prop := ∀ g ∈ fields, g.Flat ∧ lit g.key ≠ lit k

theorem passed_nil : Passed k [] := by
  simp [Passed]

theorem passed_cons {key : String} {v : FieldValue} {fields : List Field}
    (hkey : IsKey key ∧ lit key ≠ lit k) (hv : ∀ p, v ≠ .obj p) (h : Passed k fields) :
    Passed k (⟨key, v⟩ :: fields) :=
  forall_mem_cons.mpr ⟨⟨⟨hkey.1, hv⟩, hkey.2⟩, h⟩

theorem passed_optionalNum {key : String} (hkey : IsKey key ∧ lit key ≠ lit k) (n : Int) :
    Passed k (optionalNum key n) := by
  unfold optionalNum
  split_ifs
  · exact passed_nil
  · exact passed_cons hkey (by simp) passed_nil

theorem jsonGetBool_bool (hk : IsKey k) {before after : List Field} (b defval : Bool)
    (hbefore : Passed k before) :
    jsonGetBool (objectText (before ++ ⟨k, .bool b⟩ :: after)) (lit k) defval = b := by
  have hflat : Field.Flat ⟨k, .bool b⟩ := ⟨hk, by simp⟩
  rw [jsonGetBool, findKey_field hk hbefore hflat rfl]
  cases b <;> rfl

theorem bytes_ne_nil {s : Text} (h : s ≠ []) : bytes s ≠ [] := by
  obtain ⟨r, s, rfl⟩ := exists_cons_of_ne_nil h
  have hr : r.bytes ≠ [] := by
    intro hnil
    have hle := decodedRune_length r
    rw [hnil] at hle
    exact decodedRune_ne_nil r (length_eq_zero_iff.mp (Nat.le_zero.mp hle))
  simp [bytes, hr]

theorem held_command_iff (command : Text) :
    held 2048 command = bytes command ↔ Kept command ∧ (bytes command).length < 2048 :=
  held_eq_iff (by decide) command

theorem cmdExec_honours {command : Text} (hne : command ≠ []) (timeout : Int) (shell : Bytes)
    (hexact : ∀ timeout cmd,
      r.Exact (.run (if shell.isEmpty then lit "/bin/bash" else shell) cmd timeout) ↔
        cmd = bytes command) :
    (cmdExec (held 2048 command) timeout shell).Honours r ↔
      Kept command ∧ (bytes command).length < 2048 := by
  rw [← held_command_iff]
  by_cases hempty : held 2048 command = []
  · have hbytes := bytes_ne_nil hne
    rw [hempty]
    refine iff_of_false ?_ fun h => hbytes h.symm
    change ¬ isError _ = true
    decide
  · rw [cmdExec, if_neg (by simp [hempty])]
    exact hexact _ _

theorem exec_shell (command shell : Text) (timeout : Int) :
    ∃ sh, readBuffer (objectText (⟨"command", .str command⟩ ::
      (optionalNum "timeout_sec" timeout ++
        optional "shell" shell))) (lit "shell") 64 = .ok sh := by
  have hpassed : Passed "shell" (⟨"command", .str command⟩ :: optionalNum "timeout_sec" timeout) :=
    passed_cons (by decide) (by simp) (passed_optionalNum (by decide) timeout)
  unfold optional readBuffer
  split_ifs
  · rw [append_nil, jsonGetString_absent (by decide) (by simp) 64 hpassed]
    exact ⟨_, rfl⟩
  · rw [← cons_append, jsonGetString_str (by decide) 64 hpassed]
    exact ⟨_, rfl⟩

theorem jsonGetString_first (hk : IsKey k) (s : Text) (fields : List Field) (size : Nat) :
    jsonGetString (objectText (⟨k, .str s⟩ :: fields)) (lit k) size = .ok (some (held size s)) := by
  have h : jsonGetString (objectText ([] ++ ⟨k, .str s⟩ :: fields)) (lit k) size = _ :=
    jsonGetString_str hk size passed_nil
  exact h

theorem handle_exec (command shell : Text) (timeout : Int) :
    ∃ t sh, handleCmdExec (some (objectText (⟨"command", .str command⟩ ::
      (optionalNum "timeout_sec" timeout ++ optional "shell" shell)))) =
        .ok (cmdExec (held 2048 command) t sh) := by
  obtain ⟨sh, hsh⟩ := exec_shell command shell timeout
  rw [handleCmdExec, jsonGetString_first (by decide), hsh]
  exact ⟨_, _, rfl⟩

theorem handle_task (command : Text) (fields : List Field) :
    ∃ t, handleTaskRun (some (objectText (⟨"command", .str command⟩ :: fields))) =
      .ok (if (held 2048 command).isEmpty then .nothing
        else cmdExec (held 2048 command) t (lit "/bin/bash")) := by
  rw [handleTaskRun, readBuffer, jsonGetString_first (by decide)]
  refine ⟨jsonGetInt (objectText (⟨"command", .str command⟩ :: fields)) (lit "timeout_sec") 60, ?_⟩
  change (if (held 2048 command).isEmpty then Except.ok Response.nothing else _) = _
  split_ifs <;> rfl

theorem handle_list (path : Text) (fields : List Field) :
    handleFileList (some (objectText (⟨"path", .str path⟩ :: fields))) =
      .ok (withPath (held 1024 path) .list) := by
  simp only [handleFileList]
  rw [jsonGetString_first (by decide)]
  rfl

theorem handle_simple (act : Bytes → Act) (path : Text) (fields : List Field) :
    fileSimple act (objectText (⟨"path", .str path⟩ :: fields)) =
      .ok (withPath (held 1024 path) act) := by
  rw [fileSimple, jsonGetString_first (by decide)]
  rfl

theorem handle_read (path : Text) (fields : List Field) :
    ∃ range, handleFileRead (some (objectText (⟨"path", .str path⟩ :: fields))) =
      .ok (withPath (held 1024 path) fun sp => .read sp range) := by
  rw [handleFileRead, readBuffer, jsonGetString_first (by decide)]
  exact ⟨_, rfl⟩

theorem fileWrite_eq {json : Bytes} {path content : Text}
    (hpath : jsonGetString json (lit "path") 1024 = .ok (some (held 1024 path)))
    (hcontent : jsonGetString json (lit "content_base64") (16 * 1024 * 1024 - 4) =
      .ok (some (held (16 * 1024 * 1024 - 4) content))) :
    fileWrite json = .ok (writeDecoded (jsonGetBool json (lit "append") false)
      (safePath (held 1024 path)) (base64Decode (held (16 * 1024 * 1024 - 4) content))) := by
  rw [fileWrite, hpath]
  change (jsonGetString json _ _ >>= _) = _
  rw [hcontent]
  rfl

/-- A write is honoured exactly if the path fits or is refused, and the content survives the copy.
-/
theorem fileWrite_honours {json : Bytes} {path content : Text} {append : Bool}
    (hfile : fileWrite json = .ok (writeDecoded append (safePath (held 1024 path))
      (base64Decode (held (16 * 1024 * 1024 - 4) content))))
    (hexact : ∀ sp data, base64Decode (held (16 * 1024 * 1024 - 4) content) = some data →
      (r.Exact (.write sp append data) ↔ sp = bytes (rootedPath path))) :
    ∃ response, fileWrite json = .ok response ∧
      (response.Honours r ↔ PathFits path ∨ PathRefused path ∨
        isBase64 (held (16 * 1024 * 1024 - 4) content) = false) := by
  have hsome := base64Decode_isSome (held (16 * 1024 * 1024 - 4) content)
  rw [hfile]
  rcases safePath_cases path with ⟨href, hsafe⟩ | ⟨href, sp, hsafe, hsp⟩
  · rw [hsafe]
    exact ⟨_, rfl, iff_of_true (isError_errorText _) (.inr (.inl href))⟩
  · rw [hsafe]
    cases hdecode : base64Decode (held (16 * 1024 * 1024 - 4) content) with
    | none =>
      rw [hdecode] at hsome
      exact ⟨_, rfl, iff_of_true (isError_errorText _) (.inr (.inr hsome.symm))⟩
    | some data =>
      rw [hdecode] at hsome
      refine ⟨_, rfl, (hexact sp data hdecode).trans ?_⟩
      rw [hsp, ← hsome]
      simp [href]

theorem fileRename_eq {json src dst : Bytes}
    (hsrc : jsonGetString json (lit "from") 1024 = .ok (some src))
    (hdst : jsonGetString json (lit "to") 1024 = .ok (some dst)) :
    fileRename json = .ok (renamePaths (safePath src) (safePath dst)) := by
  rw [fileRename, hsrc]
  change (jsonGetString json _ _ >>= _) = _
  rw [hdst]
  rfl

/-- A rename is honoured exactly if both paths fit, or one of them is refused. -/
theorem fileRename_honours (src dst : Text) :
    ∃ response, fileRename (objectText (Request.fileRename src dst).fields) = .ok response ∧
      (response.Honours (.fileRename src dst) ↔
        PathFits src ∧ PathFits dst ∨ PathRefused src ∨ PathRefused dst) := by
  have hsrc := jsonGetString_first (k := "from") (by decide) src [⟨"to", .str dst⟩] 1024
  have hdst : jsonGetString (objectText ([⟨"from", .str src⟩] ++ [⟨"to", .str dst⟩]))
      (lit "to") 1024 = _ :=
    jsonGetString_str (by decide) 1024 (passed_cons (by decide) (by simp) passed_nil)
  have hfile : fileRename (objectText (Request.fileRename src dst).fields) =
      .ok (renamePaths (safePath (held 1024 src)) (safePath (held 1024 dst))) :=
    fileRename_eq hsrc hdst
  have herror := isError_errorText "invalid path"
  rw [hfile]
  rcases safePath_cases src with ⟨href, hsafe⟩ | ⟨href, sf, hsafe, hsf⟩
  · rw [hsafe]
    exact ⟨_, rfl, iff_of_true herror (.inr (.inl href))⟩
  · rcases safePath_cases dst with ⟨href', hsafe'⟩ | ⟨href', st, hsafe', hst⟩
    · rw [hsafe, hsafe']
      exact ⟨_, rfl, iff_of_true herror (.inr (.inr href'))⟩
    · rw [hsafe, hsafe']
      refine ⟨_, rfl, ?_⟩
      change Act.rename sf st = .rename _ _ ↔ _
      rw [Act.rename.injEq, hsf, hst]
      simp [href, href']

theorem handle_input (terms : List Terminal) (session data : Bytes) (id other : Option Bytes) :
    handleTerminalInput terms ((Request.terminalInput session data).received id other) =
      if data.length ≤ 6141 then termInput terms (some session) data else .ok .nothing := by
  change (jsonGetString _ _ _ >>= _) = _
  rw [Request.fields, jsonGetString_first (by decide), held_encode]
  simp only [bind, Except.bind, Nat.reduceSub, base64Decode_input]
  split_ifs <;> rfl

def Request.Honourable (terms : List Terminal) : Request → Prop
  | .exec command _ _ _ | .taskRun command _ _ => Kept command ∧ (bytes command).length < 2048
  | .fileList path | .fileRead path _ _ | .fileEdit path _ _ | .fileDelete path | .fileMkdir path =>
    PathFits path ∨ PathRefused path
  | .fileWrite path content _ => PathFits path ∨ PathRefused path ∨
    isBase64 (held (16 * 1024 * 1024 - 4) content) = false
  | .fileRename src dst => PathFits src ∧ PathFits dst ∨ PathRefused src ∨ PathRefused dst
  | .terminalInput session data => data = [] ∨ data.length ≤ 6141 ∧
    ∃ t, terms.find? (Terminal.serves session) = some t ∧ data.length ≤ capacity t.pty

theorem handleCommand_received (terms : List Terminal) (r : Request) (id session : Option Bytes) :
    handleCommand terms (r.received id session) =
      some (r.command.handle terms (r.received id session)) := by
  have hfind : ∀ c : Command,
      (Command.all.find? fun d => some (lit c.name) == some (lit d.name)) = some c := by
    have hall : ∀ c ∈ Command.all,
        (Command.all.find? fun d => some (lit c.name) == some (lit d.name)) = some c := by
      decide
    intro c
    exact hall c (by cases c <;> decide)
  have htype : (r.received id session).type = some (lit r.command.name) := rfl
  rw [handleCommand, htype, hfind]
  rfl

/-- The input of a terminal is honoured exactly if it is honourable. -/
theorem input_honours (terms : List Terminal) (session data : Bytes) (id other : Option Bytes) :
    ∃ response,
      handleTerminalInput terms ((Request.terminalInput session data).received id other) =
        .ok response ∧
      (response.Honours (.terminalInput session data) ↔
        (Request.terminalInput session data).Honourable terms) := by
  have hnothing : Response.nothing.Honours (.terminalInput session data) ↔ data = [] := by
    simp [Response.Honours]
  rw [handle_input]
  by_cases hlen : data.length ≤ 6141
  · rw [if_pos hlen, termInput]
    cases hfind : terms.find? (Terminal.serves session) with
    | none =>
      refine ⟨.nothing, rfl, hnothing.trans ?_⟩
      simp [Request.Honourable, hfind]
    | some t =>
      refine ⟨_, rfl, ?_⟩
      rw [ptyWrite_eq_take]
      change Act.feed _ = .feed data ↔ _
      rw [Act.feed.injEq, take_eq_self_iff]
      simp only [Request.Honourable, hfind, hlen, true_and, Option.some.injEq, exists_eq_left']
      constructor
      · exact .inr
      · rintro (rfl | h)
        · exact Nat.zero_le _
        · exact h
  · rw [if_neg hlen]
    refine ⟨.nothing, rfl, hnothing.trans ?_⟩
    simp [Request.Honourable, hlen]

theorem task_honours {command : Text} (hne : command ≠ []) (timeout : Int) :
    ∃ response,
      handleTaskRun (some (objectText (Request.taskRun command hne timeout).fields)) =
        .ok response ∧
      (response.Honours (.taskRun command hne timeout) ↔
        Kept command ∧ (bytes command).length < 2048) := by
  obtain ⟨t, hrun⟩ := handle_task command
    [⟨"task_id", .str (text "adhoc")⟩, ⟨"timeout_sec", .num timeout⟩]
  refine ⟨_, hrun, ?_⟩
  split_ifs with hempty
  · rw [List.isEmpty_iff] at hempty
    rw [← held_command_iff, hempty]
    refine iff_of_false ?_ fun h => bytes_ne_nil hne h.symm
    rintro ⟨session, hr⟩
    cases hr
  · refine cmdExec_honours hne t _ fun t' cmd => ?_
    simp [Request.Exact, show (lit "/bin/bash").isEmpty = false from rfl]

/-- What `file_write` makes of the payload of a request. -/
theorem fileWrite_struct (path content : Text) (append : Bool) :
    fileWrite (objectText (Request.fileWrite path content append).fields) =
      .ok (writeDecoded append (safePath (held 1024 path))
        (base64Decode (held (16 * 1024 * 1024 - 4) content))) := by
  have hcontent : Passed "content_base64" [⟨"path", .str path⟩] :=
    passed_cons (by decide) (by simp) passed_nil
  have hboth : Passed "append" [⟨"path", .str path⟩, ⟨"content_base64", .str content⟩] :=
    passed_cons (by decide) (by simp) (passed_cons (by decide) (by simp) passed_nil)
  have happend : jsonGetBool (objectText (Request.fileWrite path content append).fields)
      (lit "append") false = append := by
    cases append with
    | true =>
      have htrue : jsonGetBool (objectText ([⟨"path", .str path⟩,
          ⟨"content_base64", .str content⟩] ++
            [⟨"append", .bool true⟩])) (lit "append") false = true :=
        jsonGetBool_bool (by decide) true false hboth
      exact htrue
    | false =>
      rw [jsonGetBool, Request.fields]
      rw [if_neg (by simp), findKey_absent (by decide) (by simp) hboth]
  have hread : jsonGetString (objectText ([⟨"path", .str path⟩] ++
      ⟨"content_base64", .str content⟩ :: (if append then [⟨"append", .bool true⟩] else [])))
      (lit "content_base64") (16 * 1024 * 1024 - 4) = _ :=
    jsonGetString_str (by decide) _ hcontent
  refine (fileWrite_eq (jsonGetString_first (by decide) path _ 1024) hread).trans ?_
  exact congrArg (fun b => Except.ok (writeDecoded b _ _)) happend

/-- The members of a map come in the order of their names. -/
theorem fileWrite_map (path content : Text) (append : Bool) :
    fileWrite (objectText [⟨"append", .bool append⟩, ⟨"content_base64", .str content⟩,
        ⟨"path", .str path⟩]) =
      .ok (writeDecoded append (safePath (held 1024 path))
        (base64Decode (held (16 * 1024 * 1024 - 4) content))) := by
  have hfirst : Passed "content_base64" [⟨"append", .bool append⟩] :=
    passed_cons (by decide) (by simp) passed_nil
  have hpath : Passed "path" [⟨"append", .bool append⟩, ⟨"content_base64", .str content⟩] :=
    passed_cons (by decide) (by simp) (passed_cons (by decide) (by simp) passed_nil)
  have happend : jsonGetBool (objectText ([] ++ ⟨"append", .bool append⟩ ::
      [⟨"content_base64", .str content⟩, ⟨"path", .str path⟩])) (lit "append") false = append :=
    jsonGetBool_bool (by decide) append false passed_nil
  have hreadPath : jsonGetString (objectText ([⟨"append", .bool append⟩,
      ⟨"content_base64", .str content⟩] ++ [⟨"path", .str path⟩])) (lit "path") 1024 = _ :=
    jsonGetString_str (by decide) 1024 hpath
  have hreadContent : jsonGetString (objectText ([⟨"append", .bool append⟩] ++
      [⟨"content_base64", .str content⟩, ⟨"path", .str path⟩]))
      (lit "content_base64") (16 * 1024 * 1024 - 4) = _ :=
    jsonGetString_str (by decide) _ hfirst
  refine (fileWrite_eq hreadPath hreadContent).trans ?_
  exact congrArg (fun b => Except.ok (writeDecoded b _ _)) happend

theorem write_honours (path content : Text) (append : Bool) :
    ∃ response, fileWrite (objectText (Request.fileWrite path content append).fields) = .ok response ∧
      (response.Honours (.fileWrite path content append) ↔ PathFits path ∨ PathRefused path ∨
        isBase64 (held (16 * 1024 * 1024 - 4) content) = false) := by
  refine fileWrite_honours (fileWrite_struct path content append) fun sp data _ => ?_
  simp [Request.Exact]

theorem edit_honours (path : Text) {content : Bytes} (hsize : content.length ≤ 8 * 1024 * 1024) :
    ∃ response, fileWrite (objectText (Request.fileEdit path content hsize).fields) = .ok response ∧
      (response.Honours (.fileEdit path content hsize) ↔ PathFits path ∨ PathRefused path) := by
  have hb64 : held (16 * 1024 * 1024 - 4) (asciiText (Base64.encode content)) =
      Base64.encode content := by
    have hlen := Base64.encode_length content
    rw [held_encode]
    exact take_of_length_le (by omega)
  have hexact : ∀ sp data, base64Decode (held (16 * 1024 * 1024 - 4)
      (asciiText (Base64.encode content))) = some data →
      ((Request.fileEdit path content hsize).Exact (.write sp false data) ↔
        sp = bytes (rootedPath path)) := by
    intro sp data hdata
    rw [hb64, base64Decode_encode, Option.some.injEq] at hdata
    simp [Request.Exact, hdata]
  obtain ⟨response, hrun, hhonours⟩ := fileWrite_honours (fileWrite_map path _ false) hexact
  refine ⟨response, hrun, hhonours.trans ?_⟩
  have hsome := base64Decode_isSome (Base64.encode content)
  rw [base64Decode_encode] at hsome
  rw [hb64, ← hsome]
  simp

/-- The spec of all handlers: a request is honoured exactly if it is honourable. -/
theorem handle_honours (terms : List Terminal) (r : Request) (id session : Option Bytes) :
    ∃ response, r.command.handle terms (r.received id session) = .ok response ∧
      (response.Honours r ↔ r.Honourable terms) := by
  cases r with
  | exec command hne timeout shell =>
    obtain ⟨t, sh, hrun⟩ := handle_exec command shell timeout
    refine ⟨_, hrun, cmdExec_honours hne t sh fun t' cmd => ?_⟩
    simp [Request.Exact]
  | taskRun command hne timeout => exact task_honours hne timeout
  | fileList path =>
    refine ⟨_, handle_list path [], withPath_honours fun sp => ?_⟩
    simp [Request.Exact]
  | fileRead path offset limit =>
    obtain ⟨range, hrun⟩ := handle_read path (optionalNum "offset" offset ++
      optionalNum "limit" limit)
    refine ⟨_, hrun, withPath_honours fun sp => ?_⟩
    simp [Request.Exact]
  | fileWrite path content append => exact write_honours path content append
  | fileEdit path content hsize => exact edit_honours path hsize
  | fileDelete path =>
    refine ⟨_, handle_simple .remove path [], withPath_honours fun sp => ?_⟩
    simp [Request.Exact]
  | fileMkdir path =>
    refine ⟨_, handle_simple .mkdir path [], withPath_honours fun sp => ?_⟩
    simp [Request.Exact]
  | fileRename src dst => exact fileRename_honours src dst
  | terminalInput target data => exact input_honours terms target data id session

/-- For every request that carries a string, when the agent acts on exactly that string or
answers with an error. -/
theorem acts_on_what_was_sent_iff (terms : List Terminal) (r : Request)
    (id session : Option Bytes) :
    (∃ response, handleCommand terms (r.received id session) = some (.ok response) ∧
      response.Honours r) ↔ r.Honourable terms := by
  obtain ⟨response, hrun, hhonours⟩ := handle_honours terms r id session
  rw [handleCommand_received, hrun, ← hhonours]
  constructor
  · rintro ⟨other, heq, h⟩
    obtain rfl : response = other := Except.ok.inj (Option.some.inj heq)
    exact h
  · intro h
    exact ⟨response, rfl, h⟩

theorem long_input_is_lost (terms : List Terminal) (session : Bytes) {data : Bytes}
    (h : 6141 < data.length) (id other : Option Bytes) :
    handleCommand terms ((Request.terminalInput session data).received id other) =
      some (.ok .nothing) := by
  have hrun := handle_input terms session data id other
  rw [if_neg (by omega)] at hrun
  rw [handleCommand_received]
  exact congrArg some hrun

/-- A command and a path that are cut, an input that is lost. -/
theorem long_strings_are_cut : let command : Text := List.replicate 2049 (.char 'a')
    let path : Text := .char '/' :: List.replicate 1022 (.char 'd') ++ text "/f"
    let input := Request.terminalInput (lit "t1") (List.replicate 6142 120)
    handleCommand [] ((Request.exec command (by decide) 60 []).received none none) =
        some (.ok (.act (.run (lit "/bin/bash") (List.replicate 2047 97) 60))) ∧
      handleCommand [] ((Request.fileDelete path).received none none) =
        some (.ok (.act (.remove (47 :: List.replicate 1022 100)))) ∧
      handleCommand [⟨lit "t1", true, [.took 6142]⟩] (input.received none none) =
        some (.ok .nothing) := by
  intro command path input
  refine ⟨by decide +kernel, by decide +kernel, ?_⟩
  refine long_input_is_lost _ (lit "t1") ?_ none none
  rw [length_replicate]
  decide

end CtForge.Agent
