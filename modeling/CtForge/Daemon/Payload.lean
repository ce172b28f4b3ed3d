import CtForge.Daemon.Signature
import CtForge.Lib.Heap
import CtForge.Lib.IntrusiveList

/-!
# The payload modules of ctforged (`payload.c`, `ctforged.c`)

ctforged serves its JSON-RPC requests one after another on the thread of its
event loop. `insmod` unpacks an archive into a memory file, has its signature
checked, loads it with `dlopen` and calls the module's `init`; a module whose
`init` reports success is linked into a circular list. `rmmod` calls `exit` and
unlinks the module, and `lsmod` reports the list.

What the system answers is an argument of each request: the archive that is
read, the passes of the decoder, the result of `dlopen` and of the symbol
lookups, and the object `init` returns. A daemon that ends during a request has
no state after it (`Except Fault`). The code of a module changes nothing of the
daemon's own memory.
-/

namespace CtForge.Payload

open CLang IntrusiveList Signature

/-- `NAME_MAX`, the size of the `module_name` buffer. -/
def nameMax : Nat := 255

/-- `PATH_MAX`, the size of the `payload_fullpath` buffer. -/
def pathMax : Nat := 4096

/-- `PUBLICKEY_PATH`. -/
def publicKeyPath : String := "/etc/ctforge/public.pem"

/-! ## The state of the daemon -/

/-- The nodes of `module_list_head`: the head, and the `list` member of the
`struct module_info` at an address. -/
inductive Node where
  | moduleListHead
  | module (addr : Nat)
  deriving DecidableEq, Repr

/-- A handle of `dlopen`: the descriptor its path names, and the image that was
mapped. -/
structure Handle where
  id : Nat
  fd : Nat
  image : Bytes
  deriving DecidableEq, Repr

/-- `struct module_info`. A `payload_fd` of -1 is `none`, and so are null
pointers; of the `module_ops` it matters which were found. -/
structure ModuleInfo where
  moduleName : Bytes
  payloadFullpath : Bytes
  payloadFd : Option Nat
  dlHandle : Option Handle
  init : Bool
  exit : Bool
  deriving DecidableEq, Repr

inductive Event where
  | verified (image : Bytes) (ret : Int)
  | mapped (h : Handle)
  | initCalled (name : Bytes)
  | exitCalled (name : Bytes)
  deriving DecidableEq, Repr

/-- The module list, the allocated `struct module_info`s, the open memory files
with their contents, the handles of `dlopen`, and the events so far, newest
first. -/
structure Daemon where
  links : Links Node
  heap : Heap ModuleInfo
  memfds : Heap Bytes
  handles : List Handle
  log : List Event

/-- `LIST_HEAD(module_list_head)` and nothing else. -/
def Daemon.boot : Daemon where
  links := ⟨fun n => if n = .moduleListHead then some .moduleListHead else none,
    fun n => if n = .moduleListHead then some .moduleListHead else none⟩
  heap := {}
  memfds := {}
  handles := []
  log := []

/-- The libraries below the daemon, and `payload_dir` of its configuration. -/
structure World where
  env : Env
  allocator : Allocator
  payloadDir : Bytes

namespace Daemon

def emit (d : Daemon) (e : Event) : Daemon := { d with log := e :: d.log }

def setInfo (d : Daemon) (addr : Nat) (mi : ModuleInfo) : Daemon :=
  { d with heap := d.heap.write addr mi }

def freeInfo (d : Daemon) (addr : Nat) : Daemon := { d with heap := d.heap.free addr }

def close (d : Daemon) (fd : Nat) : Daemon := { d with memfds := d.memfds.free fd }

/-- Close a `payload_fd`; -1 is no descriptor. -/
def closePayload (d : Daemon) : Option Nat → Daemon
  | none => d
  | some fd => d.close fd

/-- `dlclose`: the handle is open as often as `dlopen` returned it. -/
def dlclose (d : Daemon) (h : Handle) : Daemon := { d with handles := d.handles.erase h }

end Daemon

/-! ## The module list -/

/-- The comparison both loops over the module list make. -/
def nameMatches (d : Daemon) (name : Bytes) : Node → Except Fault Bool
  | .moduleListHead => .error .outOfBounds
  | .module addr => do
    let mi ← d.heap.read addr
    return strncmpEq nameMax mi.moduleName name

/-- `find_module`, and `find_module_unlocked`, which has the same loop. -/
def findModule (d : Daemon) (name : Bytes) : Except Fault (Option Node) :=
  listFind d.links .moduleListHead (nameMatches d name) (d.heap.cells.length + 1)

/-- `add_module`. -/
def addModule (d : Daemon) (addr : Nat) : Except Fault (Int × Daemon) := do
  let mi ← d.heap.read addr
  match ← findModule d mi.moduleName with
  | some _ => .ok (-1, d)
  | none => do
    let links ← listAdd d.links (.module addr) .moduleListHead
    .ok (0, { d with links := links })

/-- `delete_module`. -/
def deleteModule (d : Daemon) (addr : Nat) : Except Fault Daemon := do
  let links ← listDel d.links (.module addr)
  .ok { d with links := links }

/-! ## Unpacking an archive -/

/-- What `decompress_xzpayload` meets: whether the archive is read completely,
the descriptor of the memory file, whether the decoder starts, each pass of the
decoder that returns `LZMA_OK` with the bytes it produced and whether `write`
takes all of them, the last pass (`none` is a decoder error), and whether
`lseek` gives the size. -/
structure Archive where
  readable : Bool
  memfd : Option Nat
  decoder : Bool
  passes : List (Bytes × Bool)
  streamEnd : Option (Bytes × Bool)
  sized : Bool
  deriving Repr

/-- One `write` of the loop: nothing is written when a pass produced nothing. -/
def writeOut (content out : Bytes) (written : Bool) : Option Bytes :=
  if out ≠ [] ∧ written = false then none else some (content ++ out)

/-- The decoder loop; the contents of the memory file, or `none` on failure. -/
def decompressLoop : List (Bytes × Bool) → Option (Bytes × Bool) → Bytes → Option Bytes
  | [], none, _ => none
  | [], some (out, written), content => writeOut content out written
  | (out, written) :: passes, last, content =>
    (writeOut content out written).bind (decompressLoop passes last)

/-- `decompress_xzpayload`; the descriptor is `none` when it returns -1. -/
def decompressXzpayload (a : Archive) (d : Daemon) : Daemon × Option Nat :=
  if a.readable then
    match a.memfd with
    | none => (d, none)
    | some fd =>
      let opened := { d with memfds := d.memfds.write fd [] }
      let image := if a.decoder then decompressLoop a.passes a.streamEnd [] else none
      match image with
      | none => (opened.close fd, none)
      | some image =>
        if a.sized then ({ opened with memfds := opened.memfds.write fd image }, some fd)
        else (opened.close fd, none)
  else (d, none)

/-- The image that `decompress_xzpayload` hands on from an archive, if it hands on one. -/
def Archive.image (a : Archive) : Option Bytes :=
  if a.readable && a.memfd.isSome && a.decoder && a.sized then
    decompressLoop a.passes a.streamEnd []
  else none

/-! ## insmod and rmmod -/

/-- What a module's `init` returns: a null pointer, JSON that is no object, or
an object whose `code` is absent, no integer (`some none`), or an integer. -/
inductive InitResult where
  | null
  | notObject
  | object (code : Option (Option Int))
  deriving DecidableEq, Repr

/-- The `code` that decides about success; without an object there is none. -/
def InitResult.code : InitResult → Option Int
  | .null => none
  | .notObject => none
  | .object none => some 0
  | .object (some none) => some (-1)
  | .object (some (some n)) => some n

/-- What `dlopen` does: fail, map the file its path names, or return the object
the loader already has under this path. -/
inductive Dlopen where
  | null
  | maps (id : Nat)
  | known
  deriving DecidableEq, Repr

/-- The handle `dlopen` returns for the memory file `fd` that holds `image`. -/
def Dlopen.handle (d : Daemon) (fd : Nat) (image : Bytes) : Dlopen → Option Handle
  | .null => none
  | .maps id => some ⟨id, fd, image⟩
  | .known => d.handles.find? fun h => h.fd = fd

/-- The state after `dlopen` returned `h`. -/
def Dlopen.opened (d : Daemon) (h : Handle) : Dlopen → Daemon
  | .maps _ => { d with handles := h :: d.handles }.emit (.mapped h)
  | _ => { d with handles := h :: d.handles }

/-- The outcomes of the steps of one `do_one_insmod`. -/
structure Insmod where
  archive : Archive
  dlopen : Dlopen
  initSym : Bool
  exitSym : Bool
  initResult : InitResult
  deriving Repr

/-- The second half of `do_one_insmod`: the code is loaded as `h`, and every
failure ends at `close_handler`. -/
def startModule (o : Insmod) (name : Bytes) (addr : Nat) (mi : ModuleInfo) (h : Handle)
    (d : Daemon) : Except Fault (Int × Daemon) :=
  if o.initSym = false then .ok (1, d.dlclose h)
  else if o.exitSym = false then .ok (1, d.dlclose h)
  else
    let mi := { mi with init := true, exit := true }
    let called := (d.setInfo addr mi).emit (.initCalled name)
    if o.initResult.code ≠ some 0 then .ok (1, called.dlclose h)
    else do
      let (ret, d) ← addModule called addr
      if ret ≠ 0 then .ok (1, d.dlclose h)
      else
        .ok (0, (d.closePayload mi.payloadFd).setInfo addr { mi with payloadFd := none })

variable (w : World)

def loadPayload (o : Insmod) (name : Bytes) (addr : Nat) (mi : ModuleInfo) (fd : Nat)
    (d : Daemon) : Except Fault (Int × Daemon) := do
  let image ← d.memfds.read fd
  let ret ← doSaftyVerifySign w.env (some publicKeyPath) (some image)
  let checked := d.emit (.verified image ret)
  if ret ≠ 0 then .ok (1, checked)
  else
    match o.dlopen.handle checked fd image with
    | none => .ok (1, checked)
    | some h =>
      let mi := { mi with dlHandle := some h }
      startModule o name addr mi h ((o.dlopen.opened checked h).setInfo addr mi)

/-- The `module_info` that `do_one_insmod` allocates and names. -/
def newInfo (name : Bytes) : ModuleInfo where
  moduleName := snprintf nameMax name
  payloadFullpath :=
    snprintf pathMax (w.payloadDir ++ lit "/ctforge_" ++ name ++ lit ".so.xz")
  payloadFd := none
  dlHandle := none
  init := false
  exit := false

def doOneInsmod (o : Insmod) (name : Bytes) (d : Daemon) : Except Fault (Int × Daemon) := do
  let addr := w.allocator.malloc d.heap.addrs
  let mi := newInfo w name
  let allocated := d.setInfo addr mi
  match ← findModule allocated name with
  | some _ => .ok (1, allocated.freeInfo addr)
  | none =>
    match decompressXzpayload o.archive allocated with
    | (d, none) => .ok (1, d.freeInfo addr)
    | (d, some fd) =>
      let mi := { mi with payloadFd := some fd }
      loadPayload w o name addr mi fd (d.setInfo addr mi)

/-- The outcome of one `do_one_rmmod`. The log calls of its two early exits
pass no argument for their `%s`: `strayArg` says whether the pointer they print
can be read. What `exit` and `dlclose` return is not looked at. -/
structure Rmmod where
  strayArg : Bool
  deriving Repr

/-- The early exit of `do_one_rmmod`. -/
def rmmodFails (o : Rmmod) (d : Daemon) : Except Fault (Int × Daemon) :=
  if o.strayArg then .ok (-1, d) else .error .uninitialized

def doOneRmmod (o : Rmmod) (name : Bytes) (d : Daemon) : Except Fault (Int × Daemon) := do
  match ← findModule d name with
  | none => rmmodFails o d
  | some .moduleListHead => .error .outOfBounds
  | some (.module addr) =>
    let mi ← d.heap.read addr
    if mi.exit = false then rmmodFails o d
    else
      let called := d.emit (.exitCalled name)
      let unloaded := match mi.dlHandle with
        | none => called
        | some h => called.dlclose h
      let unlinked ← deleteModule (unloaded.closePayload mi.payloadFd) addr
      .ok (0, unlinked.freeInfo addr)

/-! ## Requests -/

/-- The `params` member of a request: missing, null, or a value with its text. -/
inductive Params where
  | absent
  | null
  | text (s : Bytes)
  deriving DecidableEq, Repr

/-- The entry `ops_insmod` and `ops_rmmod` report for one module name. -/
structure ModReply where
  modname : Bytes
  ret : Int
  msg : Bytes
  deriving DecidableEq, Repr

/-- The `result` of a request. -/
inductive Reply where
  | nothing
  | emptyInput
  | mods (entries : List ModReply)
  | noModuleInsmod
  | modules (entries : List (Bytes × Bytes))
  deriving DecidableEq, Repr

/-- The delimiters `" \t\n\r\f\v"`. -/
def isDelim (c : UInt8) : Bool := c ∈ [32, 9, 10, 13, 12, 11]

/-- The size of the `jmsg` buffer. -/
def jmsgSize : Nat := 128

def modReply (success failure : String) (token : Bytes) (ret : Int) : ModReply where
  modname := token
  ret := ret
  msg := snprintf jmsgSize (token ++ lit (if ret = 0 then success else failure))

/-- The token loop of `ops_insmod` and `ops_rmmod`: `op i` is the call for the
token at place `i`. -/
def eachToken (op : Nat → Bytes → Daemon → Except Fault (Int × Daemon))
    (success failure : String) : Nat → List Bytes → Daemon → Except Fault (List ModReply × Daemon)
  | _, [], d => .ok ([], d)
  | i, token :: tokens, d => do
    let (ret, d) ← op i token d
    let (entries, d) ← eachToken op success failure (i + 1) tokens d
    .ok (modReply success failure token ret :: entries, d)

/-- What `ops_insmod` and `ops_rmmod` share: they differ in the operation they
call and in the texts they report. -/
def opsTokens (op : Nat → Bytes → Daemon → Except Fault (Int × Daemon))
    (success failure : String) (params : Params) (d : Daemon) :
    Except Fault (Int × Reply × Daemon) :=
  match params with
  | .absent => .ok (-1, .nothing, d)
  | .null => .ok (0, .emptyInput, d)
  | .text msg => do
    let (entries, d) ← eachToken op success failure 0 (strtok isDelim msg) d
    .ok (0, .mods entries, d)

def opsInsmod (o : Nat → Insmod) (params : Params) (d : Daemon) :
    Except Fault (Int × Reply × Daemon) :=
  opsTokens (fun i => doOneInsmod w (o i)) " load success!" " load failed!" params d

def opsRmmod (o : Nat → Rmmod) (params : Params) (d : Daemon) :
    Except Fault (Int × Reply × Daemon) :=
  opsTokens (fun i => doOneRmmod (o i)) " unload success!" " unload failed!" params d

/-- The `name` and `path` that `ops_lsmod` reports for an entry of the list. -/
def lsmodEntry (d : Daemon) : Node → Except Fault (Bytes × Bytes)
  | .moduleListHead => .error .outOfBounds
  | .module addr => do
    let mi ← d.heap.read addr
    .ok (mi.moduleName, mi.payloadFullpath)

/-- What `ops_lsmod` reports once it is asked. -/
def lsmodReply (d : Daemon) : Except Fault Reply :=
  if listEmpty d.links .moduleListHead then .ok .noModuleInsmod
  else do
    let nodes ← listEntries d.links .moduleListHead (d.heap.cells.length + 1)
    let entries ← nodes.mapM (lsmodEntry d)
    .ok (.modules entries)

def opsLsmod (params : Params) (d : Daemon) : Except Fault (Int × Reply × Daemon) :=
  match params with
  | .absent => .ok (-1, .nothing, d)
  | _ => do
    let reply ← lsmodReply d
    .ok (0, reply, d)

inductive Request where
  | insmod (params : Params) (o : Nat → Insmod)
  | rmmod (params : Params) (o : Nat → Rmmod)
  | lsmod (params : Params)

def serve (d : Daemon) : Request → Except Fault (Int × Reply × Daemon)
  | .insmod params o => opsInsmod w o params d
  | .rmmod params o => opsRmmod o params d
  | .lsmod params => opsLsmod params d

end CtForge.Payload
