import CtForge.Lib.CLang

/-!
# The TLS layer of the agent (`tls.c`)

A socket that went through `ctc_tls_wrap` with success has an entry in a table
of 16 slots; `ctc_tls_write` encrypts for the sockets that have one, and writes
the bytes as they are for the others. With a fingerprint, `ctc_tls_wrap`
succeeds only if the SHA-256 digest of the peer's certificate is that
fingerprint.

OpenSSL and `sscanf` are outside the repository: the handshake is an argument of
the call, and the digest function and the conversion `%2x` are parameters.
-/

namespace CtForge.Agent

open CLang List

structure Ssl where
  peer : Option Bytes
  deriving DecidableEq, Repr

/-! ## The table of connections -/

/-- `g_map[MAX_TLS_MAP]`: a descriptor and a connection, or a null pointer. -/
structure TlsMap where
  slots : List (Nat × Option Ssl)
  size : slots.length = 16

def TlsMap.empty : TlsMap := ⟨List.replicate 16 (0, none), by simp⟩

/-- `ssl_of`. -/
def TlsMap.sslOf (m : TlsMap) (fd : Nat) : Option Ssl :=
  m.slots.findSome? fun s => if s.1 = fd then s.2 else none

def setSlot (fd : Nat) (ssl : Ssl) : List (Nat × Option Ssl) → List (Nat × Option Ssl)
  | [] => []
  | (_, none) :: rest => (fd, some ssl) :: rest
  | (f, some s) :: rest => (f, some s) :: setSlot fd ssl rest

def delSlot (fd : Nat) : List (Nat × Option Ssl) → List (Nat × Option Ssl)
  | [] => []
  | (f, none) :: rest => (f, none) :: delSlot fd rest
  | (f, some s) :: rest =>
    if f = fd then (f, none) :: rest else (f, some s) :: delSlot fd rest

theorem length_setSlot (fd : Nat) (ssl : Ssl) (slots : List (Nat × Option Ssl)) :
    (setSlot fd ssl slots).length = slots.length := by
  fun_induction setSlot fd ssl slots <;> simp_all

theorem length_delSlot (fd : Nat) (slots : List (Nat × Option Ssl)) :
    (delSlot fd slots).length = slots.length := by
  fun_induction delSlot fd slots <;> simp_all

/-- `map_set`: the first free slot; without one, nothing happens. -/
def TlsMap.set (m : TlsMap) (fd : Nat) (ssl : Ssl) : TlsMap :=
  ⟨setSlot fd ssl m.slots, (length_setSlot fd ssl m.slots).trans m.size⟩

/-- `map_del`. -/
def TlsMap.del (m : TlsMap) (fd : Nat) : TlsMap :=
  ⟨delSlot fd m.slots, (length_delSlot fd m.slots).trans m.size⟩

/-- `ctc_tls_cleanup`, of which the table is what remains. -/
def TlsMap.cleanup (m : TlsMap) (fd : Nat) : TlsMap :=
  match m.sslOf fd with
  | none => m
  | some _ => m.del fd

def TlsMap.Idle (m : TlsMap) : Prop := ∀ s ∈ m.slots, s.2 = none

theorem TlsMap.empty_idle : TlsMap.empty.Idle := by
  intro s hs
  rw [eq_of_mem_replicate hs]

variable {m : TlsMap}

theorem TlsMap.Idle.sslOf (h : m.Idle) (fd : Nat) : m.sslOf fd = none := by
  rw [TlsMap.sslOf, List.findSome?_eq_none_iff]
  intro s hs
  rw [h s hs]
  split <;> rfl

theorem TlsMap.Idle.set_slots (h : m.Idle) (fd : Nat) (ssl : Ssl) :
    ∃ rest, (m.set fd ssl).slots = (fd, some ssl) :: rest ∧ ∀ s ∈ rest, s.2 = none := by
  obtain ⟨slots, hsize⟩ := m
  cases slots with
  | nil => simp at hsize
  | cons s rest =>
    obtain ⟨f, o⟩ := s
    obtain rfl : o = none := h (f, o) mem_cons_self
    exact ⟨rest, rfl, fun s hs => h s (mem_cons_of_mem _ hs)⟩

theorem TlsMap.Idle.sslOf_set (h : m.Idle) (fd : Nat) (ssl : Ssl) :
    (m.set fd ssl).sslOf fd = some ssl := by
  obtain ⟨rest, hslots, -⟩ := h.set_slots fd ssl
  simp [TlsMap.sslOf, hslots]

theorem TlsMap.Idle.cleanup (h : m.Idle) (fd : Nat) : (m.cleanup fd).Idle := by
  simp only [TlsMap.cleanup, h.sslOf fd]
  exact h

theorem TlsMap.Idle.cleanup_set (h : m.Idle) (fd : Nat) (ssl : Ssl) :
    ((m.set fd ssl).cleanup fd).Idle := by
  obtain ⟨rest, hslots, hrest⟩ := h.set_slots fd ssl
  simp only [TlsMap.cleanup, h.sslOf_set fd ssl]
  intro s hs
  simp only [TlsMap.del, hslots, delSlot, ↓reduceIte, mem_cons] at hs
  rcases hs with rfl | hs
  · rfl
  · exact hrest s hs

/-! ## Pinning -/

/-- SHA-256, and what `sscanf(s, "%2x", &v)` stores, if it converts. -/
structure TlsEnv where
  sha256 : Bytes → Bytes
  scan2x : Bytes → Option UInt8

variable (env : TlsEnv)

/-- `SHA256_DIGEST_LENGTH`. -/
def digestLength : Nat := 32

def hex2binLoop : Nat → Bytes → Option Bytes
  | 0, _ => some []
  | pairs + 1, hex =>
    match env.scan2x hex, hex2binLoop pairs (hex.drop 2) with
    | some v, some rest => some (v :: rest)
    | _, _ => none

/-- `hex2bin`; the bytes, or `none` for -1. -/
def hex2bin (hex : Bytes) (outlen : Nat) : Option Bytes :=
  if hex.length % 2 ≠ 0 ∨ outlen < hex.length / 2 then none
  else hex2binLoop env (hex.length / 2) hex

/-- The size of the `der` buffer. -/
def derSize : Nat := 8192

/-- `check_fingerprint`. `i2d_X509` writes the certificate before its length is
compared with the buffer. -/
def checkFingerprint (ssl : Ssl) (expectedHex : Bytes) : Except Fault Int :=
  match ssl.peer with
  | none => .ok (-1)
  | some der =>
    if derSize < der.length then .error .outOfBounds
    else if der = [] then .ok (-1)
    else
      match hex2bin env expectedHex digestLength with
      | none => .ok (-1)
      | some want =>
        if want.length ≠ digestLength then .ok (-1)
        else if env.sha256 der = want then .ok 0
        else .ok (-1)

inductive Handshake where
  | noContext
  | noSsl
  | failed
  | established (peer : Option Bytes)
  deriving DecidableEq, Repr

/-- `ctc_tls_wrap` up to the table: the connection it accepts, or `none`. Without
a fingerprint any peer is accepted, and so it is with `skip_verify`, which
changes a message only. -/
def tlsConnect (fingerprintHex : Option Bytes) : Handshake → Except Fault (Option Ssl)
  | .noContext => .ok none
  | .noSsl => .ok none
  | .failed => .ok none
  | .established peer =>
    match fingerprintHex with
    | none => .ok (some ⟨peer⟩)
    | some [] => .ok (some ⟨peer⟩)
    | some hex => do
      let rc ← checkFingerprint env ⟨peer⟩ hex
      .ok (if rc = 0 then some ⟨peer⟩ else none)

def ctcTlsWrap (m : TlsMap) (fd : Nat) (fingerprintHex : Option Bytes) (h : Handshake) :
    Except Fault (Int × TlsMap) := do
  match ← tlsConnect env fingerprintHex h with
  | none => .ok (-1, m)
  | some ssl => .ok (0, m.set fd ssl)

def Ssl.PinnedTo (ssl : Ssl) (fingerprintHex : Bytes) : Prop :=
  ∃ der, ssl.peer = some der ∧ hex2bin env fingerprintHex digestLength = some (env.sha256 der)

theorem checkFingerprint_eq_zero {ssl : Ssl} {hex : Bytes}
    (h : checkFingerprint env ssl hex = .ok 0) : ssl.PinnedTo env hex := by
  unfold checkFingerprint at h
  split at h
  · simp at h
  case h_2 der hpeer =>
    split at h
    · cases h
    split at h
    · simp at h
    split at h
    · simp at h
    case h_2 want hwant =>
      split at h
      · simp at h
      split at h
      case isTrue hdigest => exact ⟨der, hpeer, by rw [hwant, hdigest]⟩
      case isFalse => simp at h

theorem tlsConnect_pinned {hex : Bytes} (hne : hex ≠ []) {h : Handshake} {ssl : Ssl}
    (hconn : tlsConnect env (some hex) h = .ok (some ssl)) : ssl.PinnedTo env hex := by
  cases h with
  | noContext | noSsl | failed => simp [tlsConnect] at hconn
  | established peer =>
    cases hex with
    | nil => exact absurd rfl hne
    | cons c hex =>
      obtain ⟨rc, hrc, hres⟩ := bind_eq_ok.mp hconn
      split at hres
      case isTrue hz =>
        obtain rfl : (⟨peer⟩ : Ssl) = ssl := by simpa using hres
        exact checkFingerprint_eq_zero env (hz ▸ hrc)
      case isFalse => simp at hres

end CtForge.Agent
