import CtForge.Agent.Commands
import CtForge.Agent.Text

/-!
# The replies to the file commands (`files.c`)

A listing has one record for each entry of the directory, formatted into 1024 bytes; the
name is escaped, the path is not. What is read is sent in base64 behind the path, which is
not escaped either and for which the buffer has a fixed room.
-/

namespace CtForge.Agent

open CLang Json List

/-! ## What the host answers -/

/-- `strerror(errno)`, in the C locale. -/
structure Strerror where
  text : Bytes
  plain : ∀ c ∈ text, isPlain c = true
  short : text.length ≤ 100

/-- The error reply that is formatted into `size` bytes. -/
def Strerror.reply (size : Nat) (e : Strerror) : Bytes :=
  snprintf size (object [("error", string e.text)])

structure FileStat where
  mode : UInt32
  size : Nat
  mtime : Int64
  size_lt : size < 9223372036854775808

def FileStat.isDir (st : FileStat) : Bool := st.mode &&& 0o170000 == 0o040000

def FileStat.isLink (st : FileStat) : Bool := st.mode &&& 0o170000 == 0o120000

structure OpenFile where
  stat : FileStat
  content : Bytes
  seekable : Bool

structure FileHost where
  /-- The names `readdir` returns. -/
  readdir : Bytes → Except Strerror (List (CString 256))
  lstat : Bytes → Option FileStat
  fopen : Bytes → Except Strerror OpenFile
  refuses : Act → Option Strerror

/-! ## Listing a directory -/

def flag (mode bit : UInt32) (c : UInt8) : UInt8 := if mode &&& bit == 0 then 45 else c

/-- `mode_str`. -/
def FileStat.modeStr (st : FileStat) : Bytes :=
  [if st.isDir then 100 else if st.isLink then 108 else 45,
    flag st.mode 0o400 114, flag st.mode 0o200 119, flag st.mode 0o100 120,
    flag st.mode 0o040 114, flag st.mode 0o020 119, flag st.mode 0o010 120,
    flag st.mode 0o004 114, flag st.mode 0o002 119, flag st.mode 0o001 120]

/-- The buffer `full[1200]`. -/
def fullPath (sp name : Bytes) : Bytes :=
  snprintf 1200 (sp ++ (if sp.getLast? == some 47 then [] else [47]) ++ name)

/-- The loop that fills `esc[512]`, `j` bytes of which are in use. -/
def escapeName (j : Nat) : Bytes → Bytes
  | [] => []
  | c :: s =>
    if 510 ≤ j then []
    else if c == 34 || c == 92 then 92 :: c :: escapeName (j + 2) s
    else c :: escapeName (j + 1) s

/-- The entries that a listing has: all but the two dots and those that `lstat` fails on. -/
def FileHost.listed (host : FileHost) (sp : Bytes) (names : List (CString 256)) :
    List (Bytes × FileStat) :=
  (names.filter fun e => e.bytes != [46] && e.bytes != [46, 46]).filterMap fun e =>
    (host.lstat (fullPath sp e.bytes)).map (e.bytes, ·)

def fileItem (sp : Bytes) (e : Bytes × FileStat) : Bytes :=
  object [("name", string (escapeName 0 e.1)), ("path", string (fullPath sp e.1)),
    ("is_dir", bool e.2.isDir), ("size", decimal e.2.size), ("mode", string e.2.modeStr),
    ("mod_time", int64 e.2.mtime)]

/-- `memcpy` of a record from `item[1024]`: as many bytes as it would have without that
bound. -/
def copyItem (item : Bytes) : Except Fault Bytes :=
  readAt (snprintf 1024 item ++ [0]) 0 item.length

def copyItems : List Bytes → Except Fault Bytes
  | [] => .ok []
  | item :: rest => do
    let first ← copyItem item
    let others ← rest.mapM fun item => copyItem (44 :: item)
    return first ++ others.flatten

/-- `ctc_file_list_json` on a path that passed `safe_path`. -/
def FileHost.fileList (host : FileHost) (sp : Bytes) : Except Fault Bytes :=
  match host.readdir sp with
  | .error e => .ok (e.reply 128)
  | .ok names => do
    let items ← copyItems ((host.listed sp names).map (fileItem sp))
    return cString (object [("path", string sp), ("files", 91 :: items ++ [93])])

/-! ## Reading a file -/

def chunkMax : Nat := 4 * 1024 * 1024

/-- `ctc_file_read_json`. -/
def FileHost.fileRead (host : FileHost) (sp : Bytes) : Bytes :=
  match host.fopen sp with
  | .error e => e.reply 160
  | .ok f =>
    if f.stat.isDir then errorText "is a directory"
    else
      let data := f.content.take (min f.stat.size chunkMax)
      let b64 := Base64.encode data
      snprintf (b64.length + 320) (object
        [("path", string sp), ("size", decimal f.stat.size), ("content_base64", string b64),
          ("truncated", bool (data.length < f.stat.size)), ("offset", decimal 0),
          ("next_offset", decimal data.length)])

/-- `ctc_file_read_range_json`. -/
def FileHost.fileReadRange (host : FileHost) (sp : Bytes) (offset limit : Int) : Bytes :=
  match host.fopen sp with
  | .error e => e.reply 160
  | .ok f =>
    if f.stat.isDir then errorText "is a directory"
    else
      let offset := min offset.toNat f.stat.size
      let limit := if limit ≤ 0 ∨ limit > chunkMax then chunkMax else limit.toNat
      if !f.seekable then errorText "seek failed"
      else
        let data := (f.content.drop offset).take (min limit (f.stat.size - offset))
        let b64 := Base64.encode data
        let next := offset + data.length
        snprintf (b64.length + 384) (object
          [("path", string sp), ("size", decimal f.stat.size), ("offset", decimal offset),
            ("next_offset", decimal next), ("done", bool (f.stat.size ≤ next)),
            ("content_base64", string b64)])

/-! ## The replies -/

def FileHost.changed (host : FileHost) (a : Act) (done : Bytes) : Bytes :=
  match host.refuses a with
  | some e => e.reply 160
  | none => done

/-- The reply to what a file command makes the agent do; none for the other commands. -/
def FileHost.perform (host : FileHost) : Act → Except Fault (Option Bytes)
  | .list sp => (host.fileList sp).map some
  | .read sp none => .ok (host.fileRead sp)
  | .read sp (some (offset, limit)) => .ok (host.fileReadRange sp offset limit)
  | .write sp append data =>
    .ok (host.changed (.write sp append data)
      (object [("ok", bool true), ("message", string (lit "written"))]))
  | .remove sp => .ok (host.changed (.remove sp) (object [("ok", bool true)]))
  | .mkdir sp => .ok (host.changed (.mkdir sp) (object [("ok", bool true)]))
  | .rename src dst => .ok (host.changed (.rename src dst) (object [("ok", bool true)]))
  | .run .. | .feed _ => .ok none

end CtForge.Agent
