import CtForge.Lib.CLang

/-!
# Signature verification (`signature.c`)

ctforged accepts a payload only when `do_safty_verify_sign` returns 0. The
payload ends in a `struct ctforged_sign_header`; an eBPF object (`e_machine`
0xf7) must in addition carry, for each of its sections, a `SIGN_` section.
There are two verifiers: one reads the file again for every question it asks,
the other works on one image in memory.

`sm2_verify` (OpenSSL) and libelf are outside the repository and are the
parameters of the model. The file at the given path is `none` when it cannot
be opened, and otherwise its bytes; it does not change during a call, and it
is open for reading and writing. The host is little endian.
-/

namespace CtForge.Signature

open CLang

/-! ## The tail header -/

/-- `CTSECFS_SM3_SIG_SIZE`, the size of the `sign` field. -/
def signSize : Nat := 128

/-- `sizeof(struct ctforged_sign_header)`: `flag[8]`, `sign_len`, `sign[128]`. -/
def headerSize : Nat := 8 + 4 + signSize

/-- The header that ends an image: the last `headerSize` bytes of it. -/
def header (b : Bytes) : Bytes := b.drop (b.length - headerSize)

def headerFlag (b : Bytes) : Bytes := (header b).take 8

def signLen (b : Bytes) : Nat := readLE (((header b).drop 8).take 4)

/-- The first `sign_len` bytes of the `sign` field, for a `sign_len` in range. -/
def headerSign (b : Bytes) : Bytes := ((header b).drop 12).take (signLen b)

def signedBytes (b : Bytes) : Bytes := b.take (b.length - headerSize)

/-! ## Outside code -/

/-- `sm2_verify(msg, msg_len, pubkey_pem_path, sig, sig_len)`; 0 is acceptance.
A DER signature has at least one byte, so OpenSSL rejects the empty one. -/
structure Sm2 where
  verify : (msg : Bytes) → (key : String) → (sig : Bytes) → Int
  empty_rejected : ∀ msg key, verify msg key [] ≠ 0

/-- What `elf_getdata` returns for a section: a null pointer, an `Elf_Data`
without a buffer (an `SHT_NOBITS` section keeps its `d_size`), or bytes. -/
inductive ElfData where
  | missing
  | noBits (size : Nat)
  | bits (b : Bytes)
  deriving DecidableEq, Repr

/-- A section as libelf presents it. `shdr` is `none` when `gelf_getshdr`
fails, and otherwise what `elf_strptr` gives for `sh_name`, where `none` is a
null pointer. -/
structure Scn where
  shdr : Option (Option Bytes)
  data : ElfData
  deriving DecidableEq, Repr

/-- An opened ELF image: whether `elf_getshdrstrndx` succeeds, and the sections
in the order of `elf_nextscn`. -/
structure Elf where
  shstrndxOk : Bool
  scns : List Scn
  deriving Repr

structure Env where
  sm2 : Sm2
  elf : Bytes → Option Elf

variable (env : Env)

/-! ## Sections through the file -/

/-- `open_elf`. -/
def openElf (file : Option Bytes) : Option Elf := file.bind env.elf

/-- The name loop of `list_sections`. A failing `gelf_getshdr` leaves `shdr` as
the section before left it; `strdup` reads the name it is given. -/
def scnNames : Option (Option Bytes) → List Scn → Except Fault (List Bytes)
  | _, [] => .ok []
  | prev, s :: rest =>
    match s.shdr.or prev with
    | none => .error .uninitialized
    | some none => .error .nullDeref
    | some (some name) => do
      let names ← scnNames (some (some name)) rest
      .ok (name :: names)

def listSections (file : Option Bytes) : Except Fault (Option (List Bytes)) :=
  match openElf env file with
  | none => .ok none
  | some elf =>
    if elf.shstrndxOk then do
      let names ← scnNames none elf.scns
      .ok (some names)
    else .ok none

/-- The search loop shared by `section_exists` and `get_section_content`. -/
def findScn (target : Bytes) : Option (Option Bytes) → List Scn → Except Fault (Option Scn)
  | _, [] => .ok none
  | prev, s :: rest =>
    match s.shdr.or prev with
    | none => .error .uninitialized
    | some none => .error .nullDeref
    | some (some name) =>
      if name = target then .ok (some s) else findScn target (some (some name)) rest

def sectionExists (file : Option Bytes) (name : Bytes) : Except Fault Bool :=
  match openElf env file with
  | none => .ok false
  | some elf => do
    let s ← findScn name none elf.scns
    .ok s.isSome

/-- The copy `get_section_content` makes; `none` is a null `data` field. With a
null `d_buf` and a positive `d_size`, `memcpy` reads the null pointer. -/
def copyData : ElfData → Except Fault (Option Bytes)
  | .missing => .ok none
  | .noBits size => if size = 0 then .ok none else .error .nullDeref
  | .bits b => .ok (if b = [] then none else some b)

def getSectionContent (file : Option Bytes) (name : Bytes) : Except Fault (Option Bytes) :=
  match openElf env file with
  | none => .ok none
  | some elf => do
    match ← findScn name none elf.scns with
    | none => .ok none
    | some s => copyData s.data

/-- `snprintf(newsec_name, 256, "SIGN_%s", name)`. -/
def signSecName (name : Bytes) : Bytes := snprintf 256 (lit "SIGN_" ++ name)

/-- The loop of `do_verify_ebpf_section_sign` over the listed names. -/
def verifySections (key : String) (file : Option Bytes) :
    List Bytes → Bool → Except Fault Int
  | [], hasSignSection => .ok (if hasSignSection then 0 else -1)
  | name :: rest, hasSignSection =>
    if name.head? = some 46 then verifySections key file rest hasSignSection
    else if startsWith name (lit "SIGN_") then verifySections key file rest true
    else do
      if !(← sectionExists env file (signSecName name)) then return -1
      match ← getSectionContent env file name with
      | none => return -1
      | some sc =>
        match ← getSectionContent env file (signSecName name) with
        | none => return -1
        | some sn =>
          if env.sm2.verify sc key sn ≠ 0 then return -1
          else verifySections key file rest hasSignSection

def doVerifyEbpfSectionSign (key : String) (file : Option Bytes) : Except Fault Int := do
  match ← listSections env file with
  | none => return -1
  | some names => verifySections env key file names false

/-! ## The file verifier -/

/-- `fseek` to `headerSize` before the end fails on a shorter file, and the
function then calls `exit`. -/
def isTailSigned : Option Bytes → Except Fault Bool
  | none => .error (.exited 1)
  | some b =>
    if b.length < headerSize then .error (.exited 1)
    else .ok ((headerFlag b).take 7 = lit "CTFORGE")

/-- `head->sign_len` is used as it stands in the file. -/
def doVerifyTailSign (key : String) (file : Option Bytes) : Except Fault Int := do
  if !(← isTailSigned file) then return 1
  match file with
  | none => return 1
  | some b =>
    let sign ← readAt b (b.length - signSize) (signLen b)
    if env.sm2.verify (signedBytes b) key sign ≠ 0 then return 1 else return 0

def isElf (b : Bytes) : Bool := b.take 4 = [0x7f, 0x45, 0x4c, 0x46]

/-- `e_machine`, the 16 bits at offset 18. -/
def machine (b : Bytes) : Nat := readLE ((b.drop 18).take 2)

def doSaftyVerifySign (key : Option String) (file : Option Bytes) : Except Fault Int :=
  match key, file with
  | none, _ => .ok 1
  | some _, none => .ok 1
  | some key, some b =>
    if b.length < 4 then .ok 1
    else if !isElf b then .ok 1
    else if b.length < 20 then .ok 1
    else if machine b = 0xf7 then do
      let ebpfRet ← doVerifyEbpfSectionSign env key (some b)
      let tailRet ← doVerifyTailSign env key (some b)
      return if ebpfRet = 0 ∧ tailRet = 0 then 0 else 1
    else doVerifyTailSign env key (some b)

/-! ## The in-memory verifier -/

def ElfData.content : ElfData → Option Bytes
  | .bits b => if b = [] then none else some b
  | _ => none

def firstNamed (scns : List Scn) (name : Bytes) : Option Scn :=
  scns.find? fun s => s.shdr = some (some name)

/-- The loop of `do_verify_ebpf_section_sign_from_mem` over the sections, with
`all` the section table the inner search starts from. -/
def verifyScns (key : String) (all : List Scn) : List Scn → Bool → Int
  | [], hasSignSection => if hasSignSection then 0 else -1
  | s :: rest, hasSignSection =>
    match s.shdr with
    | none => verifyScns key all rest hasSignSection
    | some none => verifyScns key all rest hasSignSection
    | some (some name) =>
      if name = [] then verifyScns key all rest hasSignSection
      else if name.head? = some 46 then verifyScns key all rest hasSignSection
      else if startsWith name (lit "SIGN_") then verifyScns key all rest true
      else
        match firstNamed all (signSecName name) with
        | none => -1
        | some signScn =>
          match s.data.content with
          | none => -1
          | some data =>
            match signScn.data.content with
            | none => -1
            | some sig =>
              if env.sm2.verify data key sig ≠ 0 then -1
              else verifyScns key all rest hasSignSection

def doVerifyEbpfSectionSignFromMem (key : String) (buf : Bytes) : Int :=
  if buf.length = 0 then -1
  else
    match env.elf buf with
    | none => -1
    | some elf =>
      if elf.shstrndxOk then verifyScns env key elf.scns elf.scns false else -1

def doVerifyTailSignFromMem (key : String) (buf : Bytes) : Int :=
  if buf.length = 0 then 1
  else if buf.length < headerSize then 1
  else if signLen buf = 0 ∨ signSize < signLen buf then 1
  else if env.sm2.verify (signedBytes buf) key (headerSign buf) ≠ 0 then 1
  else 0

def doSafetyVerifySignFromMem (key : Option String) (buf : Option Bytes) : Int :=
  match key, buf with
  | none, _ => 1
  | some _, none => 1
  | some key, some b =>
    if b.length = 0 then 1
    else if b.length < 4 then 1
    else if !isElf b then 1
    else if b.length < 20 then 1
    else
      let ebpfRet := if machine b = 0xf7 then doVerifyEbpfSectionSignFromMem env key b else 0
      let tailRet := doVerifyTailSignFromMem env key b
      if machine b = 0xf7 then (if ebpfRet = 0 ∧ tailRet = 0 then 0 else 1) else tailRet

end CtForge.Signature
