import CtForge.Lib.Runs
import CtForge.Agent.FileReplies

/-!
# Calls that fail (`net.c`, `files.c`)

`read_all` and `write_all` repeat a call until all bytes are moved. A result that is not positive
ends them unless `errno` is `EINTR`, but neither the end of the file nor a failure of the TLS
layer needs to set `errno`. `ctc_file_write_json` looks at the result of `fopen` alone.
-/

namespace CtForge.Agent

open CLang GoString Json Runs List

/-! ## Reading and writing a frame -/

def EINTR : Int := 4

/-- What `ctc_tls_read` or `ctc_tls_write` comes to. No byte is the end of the file; a failure of
the TLS layer may set `errno` or leave it. -/
inductive IoResult where
  | count (n : Nat)
  | error (code : Int)
  | tlsFailure (code : Option Int)

namespace IoResult

/-- The end of the file, or an error other than an interruption. -/
def Fatal : IoResult → Prop
  | .count n => n = 0
  | .error code => code ≠ EINTR
  | .tlsFailure code => code ≠ some EINTR

def errno (before : Int) : IoResult → Int
  | .count _ => before
  | .error code => code
  | .tlsFailure code => code.getD before

def value : IoResult → Int
  | .count n => n
  | .error _ | .tlsFailure _ => -1

end IoResult

/-- The loop before its next call, or its result. -/
inductive Loop where
  | asking (left : Nat)
  | returned (ok : Bool)
  deriving DecidableEq

structure Transfer where
  loop : Loop
  errno : Int
  deriving DecidableEq

namespace Transfer

def start (n : Nat) (errno : Int) : Transfer :=
  ⟨if n = 0 then .returned true else .asking n, errno⟩

/-- One turn of the loop. -/
def call (t : Transfer) (r : IoResult) : Transfer :=
  match t.loop with
  | .returned _ => t
  | .asking left =>
    let errno := r.errno t.errno
    if r.value ≤ 0 then ⟨if errno = EINTR then .asking left else .returned false, errno⟩
    else start (left - r.value.toNat) errno

/-- `read_all` of `n` bytes, after the given results. -/
def readAll (n : Nat) (errno : Int) (reads : List IoResult) : Transfer :=
  exec call (start n errno) reads

/-- `write_all` of `n` bytes. -/
def writeAll (n : Nat) (errno : Int) (writes : List IoResult) : Transfer :=
  exec call (start n errno) writes

end Transfer

/-- `ctc_recv`: it reads the header, and then the body. -/
structure Receive where
  inBody : Bool
  read : Transfer
  deriving DecidableEq

namespace Receive

/-- The header says `len`; `malloc` tells whether there is room for the body. -/
def call (len : Nat) (malloc : Bool) (s : Receive) (r : IoResult) : Receive :=
  let read := s.read.call r
  if s.inBody = false ∧ read.loop = .returned true then
    if len = 0 ∨ ctcMaxMsg < len ∨ malloc = false then ⟨false, ⟨.returned false, read.errno⟩⟩
    else ⟨true, .start len read.errno⟩
  else ⟨s.inBody, read⟩

def ctcRecv (len : Nat) (malloc : Bool) (errno : Int) (reads : List IoResult) : Receive :=
  exec (call len malloc) ⟨false, .start 4 errno⟩ reads

end Receive

theorem IoResult.Fatal.value_nonpos {r : IoResult} (h : r.Fatal) : r.value ≤ 0 := by
  cases r with
  | count n => exact le_of_eq (congrArg Nat.cast h)
  | error | tlsFailure => exact (by decide : (-1 : Int) ≤ 0)

variable {t : Transfer} {left : Nat} {r : IoResult}

theorem call_fatal (ht : t.loop = .asking left) (hr : r.Fatal) : t.call r =
    ⟨if r.errno t.errno = EINTR then .asking left else .returned false, r.errno t.errno⟩ := by
  simp only [Transfer.call, ht, if_pos hr.value_nonpos]

theorem call_fatal_iff (ht : t.loop = .asking left) (hr : r.Fatal) :
    (t.call r).loop = .returned false ↔ r.errno t.errno ≠ EINTR := by
  rw [call_fatal ht hr]
  split <;> simp_all

theorem recv_fatal_iff {s : Receive} (len : Nat) (malloc : Bool) (hs : s.read.loop = .asking left)
    (hr : r.Fatal) :
    (s.call len malloc r).read.loop = .returned false ↔ r.errno s.read.errno ≠ EINTR := by
  have hnot : (s.read.call r).loop ≠ .returned true := by
    rw [call_fatal hs hr]
    split <;> simp
  rw [Receive.call, if_neg (by simp [hnot]), call_fatal_iff hs hr]

/-- A call that reports the end is the last one exactly if `errno` is not `EINTR` after it. -/
theorem transfers_end_iff (errno : Int) (rs : List IoResult) (r : IoResult) (hr : r.Fatal)
    (left : Nat) :
    (∀ n, (Transfer.readAll n errno rs).loop = .asking left →
      ((Transfer.readAll n errno (rs ++ [r])).loop = .returned false ↔
        r.errno (Transfer.readAll n errno rs).errno ≠ EINTR)) ∧
    (∀ n, (Transfer.writeAll n errno rs).loop = .asking left →
      ((Transfer.writeAll n errno (rs ++ [r])).loop = .returned false ↔
        r.errno (Transfer.writeAll n errno rs).errno ≠ EINTR)) ∧
    ∀ len malloc, (Receive.ctcRecv len malloc errno rs).read.loop = .asking left →
      ((Receive.ctcRecv len malloc errno (rs ++ [r])).read.loop = .returned false ↔
        r.errno (Receive.ctcRecv len malloc errno rs).read.errno ≠ EINTR) := by
  refine ⟨fun n h => ?_, fun n h => ?_, fun len malloc h => ?_⟩
  · rw [Transfer.readAll, exec_snoc]
    exact call_fatal_iff h hr
  · rw [Transfer.writeAll, exec_snoc]
    exact call_fatal_iff h hr
  · rw [Receive.ctcRecv, exec_snoc]
    exact recv_fatal_iff len malloc h hr

/-- The peer closes in the middle of a header. -/
theorem closed_read_ends :
    (Transfer.readAll 4 0 ([.count 1] ++ [.count 0])).loop = .returned false :=
  ((transfers_end_iff 0 [.count 1] (.count 0) rfl 3).1 4 rfl).mpr (by decide)

/-- A read is interrupted, and then the peer closes. -/
theorem interrupted_read_spins :
    (∀ k, Transfer.readAll 4 0 ([.error EINTR] ++ List.replicate k (.count 0)) =
      ⟨.asking 4, EINTR⟩) ∧
    (∀ k, Transfer.writeAll 4 0 ([.error EINTR] ++ List.replicate k (.tlsFailure none)) =
      ⟨.asking 4, EINTR⟩) ∧
    ∀ k, Receive.ctcRecv 9 true 0 ([.error EINTR] ++ List.replicate k (.count 0)) =
      ⟨false, .asking 4, EINTR⟩ :=
  ⟨exec_replicate rfl, exec_replicate rfl, exec_replicate rfl⟩

/-! ## Writing a file -/

/-- What the server sends: the fields of a struct, or a map. -/
def fileWritePayloads (path content : Text) (append : Bool) : List (List Field) :=
  [(Request.fileWrite path content append).fields,
    [⟨"append", .bool append⟩, ⟨"content_base64", .str content⟩, ⟨"path", .str path⟩]]

/-- What `fwrite` and `fclose` return, and how many bytes they bring into the file. -/
structure Output (data : Bytes) where
  fwrite : Nat
  fclose : Int
  reached : Nat
  whole : fwrite = data.length → fclose = 0 → reached = data.length

/-- The content that the act leaves in a file that had `old`. -/
def FileHost.contentAfter (host : FileHost) (out : ∀ data, Output data) (old : Bytes) : Act → Bytes
  | .write sp append data =>
    if (host.refuses (.write sp append data)).isSome then old
    else (if append then old else []) ++ data.take (out data).reached
  | _ => old

/-- `ctc_file_write_json`: the reply, and the content of the file afterwards. -/
def FileHost.fileWriteJson (host : FileHost) (out : ∀ data, Output data) (old json : Bytes) :
    Except Fault (Bytes × Bytes) := do
  match ← fileWrite json with
  | .act a => return ((← host.perform a).getD [], host.contentAfter out old a)
  | .reply text => return (text, old)
  | .nothing => return ([], old)

def writtenText : Bytes := object [("ok", bool true), ("message", string (lit "written"))]

theorem reply_ne_written (e : Strerror) : e.reply 160 ≠ writtenText := by
  intro h
  have hword : lit "error" = [101, 114, 114, 111, 114] := by decide
  have htake := congrArg (List.take 3) h
  rw [Strerror.reply, snprintf, take_take] at htake
  simp only [object, map_cons, member, string, hword] at htake
  exact absurd htake (by simp [commaSep]; decide)

/-- A string that decodes after the copy was not cut. -/
theorem base64Decode_cut {content : Text} (hkept : ∀ r ∈ content, keptRune r = true) {data : Bytes}
    (h : base64Decode (held (16 * 1024 * 1024 - 4) content) = some data) :
    base64Decode (bytes content) = some data := by
  by_cases hfits : (bytes content).length < 16 * 1024 * 1024 - 4
  · rwa [(held_eq_iff (by decide) content).mpr ⟨hkept, hfits⟩] at h
  · -- the buffer takes a number of digits that is no multiple of four
    have hlen : (held (16 * 1024 * 1024 - 4) content).length = 16 * 1024 * 1024 - 5 := by
      rw [held_of_kept hkept, length_take]
      omega
    rw [base64Decode, hlen, if_pos (by decide)] at h
    cases h

theorem base64_of_mem {s : Bytes} (h : isBase64 s = true) :
    ∀ c ∈ s, (Base64.isDigit64 c || c == 61) = true := by
  fun_induction isBase64 s with
  | case1 => exact forall_mem_nil _
  | case2 a b c d rest ih =>
    simp only [Bool.and_eq_true] at h
    obtain ⟨⟨⟨⟨ha, hb⟩, hc⟩, hd⟩, hrest⟩ := h
    simp only [forall_mem_cons]
    exact ⟨by simp [ha], by simp [hb], hc, hd, ih hrest⟩
  | case3 => cases h

/-- A string that is base64, and whose copy is base64, is copied as it is. -/
theorem kept_of_base64 {content : Text} (h : isBase64 (bytes content) = true)
    (hheld : isBase64 (held (16 * 1024 * 1024 - 4) content) = true) : Kept content := by
  have hrune : ∀ r ∈ content, keptRune r = true ∨ decodedRune r = [253] := by
    intro r hr
    cases r with
    | invalid b => exact .inr rfl
    | char c =>
      refine .inl ?_
      have hc : ∀ b ∈ String.utf8EncodeChar c, (Base64.isDigit64 b || b == 61) = true := fun b hb =>
        base64_of_mem h b (mem_flatMap.mpr ⟨_, hr, hb⟩)
      by_cases hascii : c.toNat ≤ 127
      · rw [utf8EncodeChar_ascii hascii] at hc
        have hbyte := forall_byte (p := fun b => (Base64.isDigit64 b || b == 61) = true →
          b.toNat ≠ 0 ∧ b.toNat ≠ 8 ∧ b.toNat ≠ 12) (by decide +kernel) _ (hc _ mem_cons_self)
        rw [toNat_ofNat_toNat hascii] at hbyte
        simp only [keptRune, Bool.and_eq_true, bne_iff_ne]
        omega
      · obtain ⟨b, rest, hcons⟩ := exists_cons_of_ne_nil (String.utf8EncodeChar_ne_nil (c := c))
        have hwide := utf8EncodeChar_wide (Nat.lt_of_not_le hascii) (hcons ▸ mem_cons_self)
        exact absurd (hc b (hcons ▸ mem_cons_self)) (forall_byte (p := fun b => 128 ≤ b →
          ¬ (Base64.isDigit64 b || b == 61) = true) (by decide +kernel) b hwide)
  have hzero : 0 ∉ content.flatMap decodedRune := fun hmem => by
    obtain ⟨r, hr, h0⟩ := mem_flatMap.mp hmem
    rcases hrune r hr with hkept | hbad
    · obtain ⟨heq, hnone⟩ := (keptRune_iff r).mp hkept
      exact hnone (heq ▸ h0)
    · rw [hbad] at h0
      exact absurd h0 (by decide)
  rw [held, cString_eq_self fun hmem => hzero (mem_of_mem_take hmem)] at hheld
  intro r hr
  refine (hrune r hr).resolve_right fun hbad => ?_
  by_cases hfits : (content.flatMap decodedRune).length ≤ 16 * 1024 * 1024 - 4 - 1
  · rw [take_of_length_le hfits] at hheld
    have hmem : 253 ∈ content.flatMap decodedRune := mem_flatMap.mpr ⟨r, hr, by simp [hbad]⟩
    exact absurd (base64_of_mem hheld _ hmem) (by decide)
  · have hlen := isBase64_length hheld
    rw [length_take, min_eq_left (by omega)] at hlen
    exact absurd hlen (by decide)

/-- The path or the string is refused, the file is not opened, or all of it is written as it was
sent. -/
def WriteSound (host : FileHost) (out : ∀ data, Output data) (path content : Text) (append : Bool) :
    Prop :=
  ∀ sp data, safePath (held 1024 path) = some sp →
    base64Decode (held (16 * 1024 * 1024 - 4) content) = some data →
      (host.refuses (.write sp append data)).isSome = true ∨
        Kept content ∧ data.length ≤ (out data).reached

/-- A write that is acknowledged has happened if and only if the copy preserves the characters of
the string and all bytes reach the file, apart from those that are answered with an error. -/
theorem acknowledged_write_happened (host : FileHost) (out : ∀ data, Output data) (old : Bytes)
    (path content : Text) (append : Bool) :
    ∀ fields ∈ fileWritePayloads path content append, ∃ reply after,
      host.fileWriteJson out old (objectText fields) = .ok (reply, after) ∧
        ((reply = writtenText → ∃ data, base64Decode (bytes content) = some data ∧
          after = (if append then old else []) ++ data) ↔
            WriteSound host out path content append) := by
  intro fields hfields
  have hfile : fileWrite (objectText fields) = .ok (writeDecoded append (safePath (held 1024 path))
      (base64Decode (held (16 * 1024 * 1024 - 4) content))) := by
    simp only [fileWritePayloads, mem_cons, not_mem_nil, or_false] at hfields
    rcases hfields with rfl | rfl
    · exact fileWrite_struct path content append
    · exact fileWrite_map path content append
  rw [FileHost.fileWriteJson, hfile, ok_bind, WriteSound]
  cases safePath (held 1024 path) with
  | none => exact ⟨_, _, rfl, by simp, fun _ h => absurd h (by decide)⟩
  | some sp =>
    cases hdecode : base64Decode (held (16 * 1024 * 1024 - 4) content) with
    | none => exact ⟨_, _, rfl, by simp, fun _ h => absurd h (by decide)⟩
    | some data =>
      refine ⟨_, _, rfl, ?_⟩
      simp only [Option.getD_some, FileHost.changed, FileHost.contentAfter]
      constructor
      · rintro h _ _ ⟨⟩ ⟨⟩
        cases hrefuses : host.refuses (.write sp append data) with
        | some e => exact .inl rfl
        | none =>
          rw [hrefuses] at h
          obtain ⟨data', hdata', happended⟩ := h rfl
          have hkept : Kept content := kept_of_base64
            (by rw [← base64Decode_isSome, hdata']; rfl)
            (by rw [← base64Decode_isSome, hdecode]; rfl)
          obtain rfl := Option.some.inj ((base64Decode_cut hkept hdecode).symm.trans hdata')
          exact .inr ⟨hkept, (take_eq_self_iff _).mp (append_cancel_left happended)⟩
      · intro h hack
        cases hrefuses : host.refuses (.write sp append data) with
        | some e =>
          rw [hrefuses] at hack
          exact absurd hack (reply_ne_written e)
        | none =>
          have hsound := h sp data rfl rfl
          rw [hrefuses] at hsound
          obtain ⟨hkept, hreached⟩ := hsound.resolve_left (by simp)
          exact ⟨data, base64Decode_cut hkept hdecode, by
            rw [if_neg (by simp), take_of_length_le hreached]⟩

def openHost : FileHost := ⟨fun _ => .ok [], fun _ => none,
  fun _ => .error ⟨[63], by decide +kernel, by decide⟩, fun _ => none⟩

def wholeOutput (data : Bytes) : Output data := ⟨data.length, 0, data.length, fun _ _ => rfl⟩

theorem small_write_happens : ∃ reply after, openHost.fileWriteJson wholeOutput (lit "x")
    (objectText (Request.fileWrite (text "/f") (text "QUJD") true).fields) = .ok (reply, after) ∧
      (reply = writtenText → ∃ data, base64Decode (bytes (text "QUJD")) = some data ∧
        after = lit "x" ++ data) := by
  obtain ⟨reply, after, hwrite, hiff⟩ := acknowledged_write_happened openHost wholeOutput (lit "x")
    (text "/f") (text "QUJD") true _ mem_cons_self
  exact ⟨reply, after, hwrite, hiff.mpr fun _ _ _ _ => .inr ⟨by unfold Kept; decide, Nat.le_refl _⟩⟩

/-- The disk is full; and a backspace is read as a `b`. -/
theorem lost_write_is_acknowledged :
    openHost.fileWriteJson (fun _ => ⟨0, -1, 0, fun h _ => h⟩) []
        (objectText (Request.fileWrite (text "/f") (text "QUJD") false).fields) =
      .ok (writtenText, []) ∧
    base64Decode (bytes (text "QUJD")) = some (lit "ABC") ∧
    openHost.fileWriteJson wholeOutput []
        (objectText (Request.fileWrite (text "/f") (text "\x08QUJ") false).fields) =
      .ok (writtenText, [109, 5, 9]) ∧
    base64Decode (bytes (text "\x08QUJ")) = none := by
  decide

end CtForge.Agent
