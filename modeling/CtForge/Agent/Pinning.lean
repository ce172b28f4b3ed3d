import CtForge.Agent.Connect

/-!
# Where the token goes

An agent that is configured with TLS and a fingerprint should send its token
only to the peer that has this fingerprint. `try_connect_handshake` does so: a
failed `ctc_tls_wrap` ends the attempt. `connect_host_with_tls` does not: it
connects a second time and returns the plain socket, and `do_register` writes
the token on it.
-/

namespace CtForge.Agent

open CLang List Prog

variable (env : TlsEnv) (net : Nat → Attempt) (host : Host)

/-- `use_tls=1`, `tls_skip_verify=0` and a fingerprint. -/
def Config.Secure (cfg : Config) : Prop :=
  cfg.useTls = true ∧ cfg.tlsSkipVerify = false ∧ cfg.serverFingerprint ≠ []

def Write.Pinned (w : Write) : Prop :=
  ∃ ssl, w.ssl = some ssl ∧ ssl.PinnedTo env w.cfg.serverFingerprint

/-- Every piece of a frame with the token went to the configured peer. -/
def WritesPinned (log : List Event) : Prop :=
  ∀ w, .write w ∈ log → w.cfg.Secure → w.Pinned env

/-- The host takes the connection, `ctc_tls_wrap` turns it down, and the host
takes the second connection. -/
def FallsBack (cfg : Config) (a : Attempt) : Prop :=
  (connectHost a.tcp).isSome ∧ tlsConnect env cfg.fingerprint a.handshake = .ok none ∧
    (connectHost a.retry).isSome

/-- No host that was dialled under TLS and a fingerprint fell back. -/
def NoFallback (log : List Event) : Prop :=
  ∀ cfg name k, .dial cfg name k ∈ log → cfg.Secure → ¬ FallsBack env cfg (net k)

/-! ## Logs -/

def Balanced (log : List Event) : Prop := WritesPinned env log ↔ NoFallback env net log

variable {env net}

theorem writesPinned_append {l₁ l₂ : List Event} :
    WritesPinned env (l₁ ++ l₂) ↔ WritesPinned env l₁ ∧ WritesPinned env l₂ := by
  simp only [WritesPinned, mem_append, or_imp, forall_and]

theorem noFallback_append {l₁ l₂ : List Event} :
    NoFallback env net (l₁ ++ l₂) ↔ NoFallback env net l₁ ∧ NoFallback env net l₂ := by
  simp only [NoFallback, mem_append, or_imp, forall_and]

/-- The property of the log is one of its parts. -/
theorem Balanced.append {l₁ l₂ : List Event} (h₁ : Balanced env net l₁)
    (h₂ : Balanced env net l₂) : Balanced env net (l₁ ++ l₂) := by
  rw [Balanced] at h₁ h₂ ⊢
  rw [writesPinned_append, noFallback_append, h₁, h₂]

theorem balanced_nil : Balanced env net [] := by
  simp [Balanced, WritesPinned, NoFallback]

theorem balanced_probe (cfg : Config) (name : Bytes) (port : Int) (k : Nat) :
    Balanced env net [.probe cfg name port k] := by
  simp [Balanced, WritesPinned, NoFallback]

variable {cfg : Config}

theorem balanced_dial {name : Bytes} {k : Nat} (h : cfg.Secure → ¬ FallsBack env cfg (net k)) :
    Balanced env net [.dial cfg name k] := by
  refine iff_of_true (by simp [WritesPinned]) ?_
  intro cfg' name' k' hin hsec
  obtain ⟨rfl, rfl, rfl⟩ : cfg' = cfg ∧ name' = name ∧ k' = k := by simpa using hin
  exact h hsec

theorem balanced_writes {log : List Event}
    (h : ∀ e ∈ log, ∃ w : Write, e = .write w ∧ (w.cfg.Secure → w.Pinned env)) :
    Balanced env net log := by
  refine iff_of_true ?_ ?_
  · intro w hin hsec
    obtain ⟨w', heq, hpin⟩ := h _ hin
    cases heq
    exact hpin hsec
  · intro cfg name k hin
    obtain ⟨w, heq, -⟩ := h _ hin
    cases heq

theorem balanced_fallback {name : Bytes} {k : Nat} {w : Write} {rest : List Event}
    (hsec : cfg.Secure) (hfall : FallsBack env cfg (net k)) (hw : w.cfg = cfg)
    (hclear : w.ssl = none) : Balanced env net (.dial cfg name k :: .write w :: rest) := by
  refine iff_of_false (fun h => ?_) (fun h => h cfg name k (by simp) hsec hfall)
  obtain ⟨ssl, hssl, -⟩ := h w (by simp) (hw ▸ hsec)
  rw [hclear] at hssl
  cases hssl

/-! ## Frames -/

def State.extend (s : State) (events : List Event) : State := { s with log := s.log ++ events }

/-- A write of a piece of a frame on the socket `fd`, as it is logged. -/
def State.writes (s : State) (kind : FrameKind) (fd : Nat) (bytes : Bytes) : Event :=
  .write ⟨s.cfg, kind, s.tls.sslOf fd, bytes⟩

theorem writeFrame_run (kind : FrameKind) (fd : Nat) (full : Bytes) (a : Attempt) (s : State) :
    ∃ ok tail, (writeFrame kind fd full a).run s =
        (.ok ok, s.extend (s.writes kind fd (be32 full.length) :: tail)) ∧
      ∀ e ∈ tail, e = s.writes kind fd full := by
  by_cases hlen : a.lenWritten = 4
  · refine ⟨decide (a.bodyWritten = full.length), [s.writes kind fd full], ?_, by simp⟩
    simp [writeFrame, tlsWrite, hlen, State.emit, State.extend, State.writes]
  · exact ⟨false, [], by simp [writeFrame, tlsWrite, hlen, State.emit, State.extend, State.writes],
      by simp⟩

/-- The socket may carry the token: there is no fingerprint to respect, or the
socket is wrapped and the peer has it. -/
def Trusted (env : TlsEnv) (fd : Nat) (s : State) : Prop :=
  (s.tls.Idle ∧ ¬ s.cfg.Secure) ∨
  ∃ m ssl, m.Idle ∧ s.tls = TlsMap.set m fd ssl ∧
    (s.cfg.Secure → ssl.PinnedTo env s.cfg.serverFingerprint)

variable {s : State} {fd : Nat}

theorem Trusted.pinned (h : Trusted env fd s) (kind : FrameKind) (bytes : Bytes)
    (hsec : s.cfg.Secure) : Write.Pinned env ⟨s.cfg, kind, s.tls.sslOf fd, bytes⟩ := by
  rcases h with ⟨-, hins⟩ | ⟨m, ssl, hidle, htls, hpin⟩
  · exact absurd hsec hins
  · refine ⟨ssl, ?_, hpin hsec⟩
    show s.tls.sslOf fd = some ssl
    rw [htls]
    exact hidle.sslOf_set fd ssl

theorem Trusted.cleanup (h : Trusted env fd s) : (s.tls.cleanup fd).Idle := by
  rcases h with ⟨hidle, -⟩ | ⟨m, ssl, hidle, htls, -⟩
  · exact hidle.cleanup fd
  · rw [htls]
    exact hidle.cleanup_set fd ssl

theorem Trusted.frame_balanced (h : Trusted env fd s) {kind : FrameKind} (first : Bytes)
    {full : Bytes} {tail : List Event} (htail : ∀ e ∈ tail, e = s.writes kind fd full) :
    Balanced env net (s.writes kind fd first :: tail) := by
  refine balanced_writes fun e he => ?_
  rcases mem_cons.mp he with rfl | he
  · exact ⟨_, rfl, h.pinned kind first⟩
  · exact ⟨_, htail e he, h.pinned kind full⟩

/-- Between two attempts: the log is balanced and no socket is wrapped. -/
structure Quiet (env : TlsEnv) (net : Nat → Attempt) (s : State) : Prop where
  balanced : Balanced env net s.log
  idle : s.tls.Idle

theorem tlsConnect_secure (hsec : cfg.Secure) {h : Handshake} {ssl : Ssl}
    (hconn : tlsConnect env cfg.fingerprint h = .ok (some ssl)) :
    ssl.PinnedTo env cfg.serverFingerprint := by
  rw [Config.fingerprint, if_neg hsec.2.2] at hconn
  exact tlsConnect_pinned env hsec.2.2 hconn

theorem upgrade_run (hidle : s.tls.Idle) (fd : Nat) (h : Handshake) :
    (∃ e, (upgrade env fd h).run s = (.error e, s) ∧
      tlsConnect env s.cfg.fingerprint h = .error e) ∨
    ((upgrade env fd h).run s = (.ok false, s) ∧ tlsConnect env s.cfg.fingerprint h = .ok none ∧
      s.cfg.useTls = true) ∨
    (∃ tls, (upgrade env fd h).run s = (.ok true, { s with tls := tls }) ∧
      Trusted env fd { s with tls := tls } ∧
      (s.cfg.Secure → tlsConnect env s.cfg.fingerprint h ≠ .ok none)) := by
  by_cases htls : s.cfg.useTls = false
  · have hins : ¬ s.cfg.Secure := fun hsec => by simp [hsec.1] at htls
    refine .inr (.inr ⟨s.tls, ?_, .inl ⟨hidle, hins⟩, fun hsec => absurd hsec hins⟩)
    simp [upgrade, htls]
  · cases hconn : tlsConnect env s.cfg.fingerprint h with
    | error e => exact .inl ⟨e, by simp [upgrade, htls, ctcTlsWrap, hconn], rfl⟩
    | ok o =>
      cases o with
      | none =>
        refine .inr (.inl ⟨?_, rfl, by simpa using htls⟩)
        simp [upgrade, htls, ctcTlsWrap, hconn]
      | some ssl =>
        refine .inr (.inr ⟨s.tls.set fd ssl, ?_, ?_, by simp⟩)
        · simp [upgrade, htls, ctcTlsWrap, hconn]
        · exact .inr ⟨s.tls, ssl, hidle, rfl, fun hsec => tlsConnect_secure hsec hconn⟩

/-! ## Handshakes fail closed -/

theorem ctcHandshake_run (htrust : Trusted env fd s) (hbal : Balanced env net s.log)
    (bound : Bytes) (a : Attempt) :
    ∃ result events, (ctcHandshake host fd bound a).run s = (.ok result, s.extend events) ∧
      Balanced env net (s.extend events).log := by
  obtain ⟨ok, tail, hrun, htail⟩ :=
    writeFrame_run .handshake fd (handshakeFrame host s.cfg bound a.clock) a s
  have hlog := hbal.append (htrust.frame_balanced
    (be32 (handshakeFrame host s.cfg bound a.clock).length) htail)
  simp only [ctcHandshake, run_bind, run_get, andThen_ok, hrun]
  cases ok with
  | false => exact ⟨_, _, rfl, hlog⟩
  | true =>
    cases a.answer with
    | none | some answer => exact ⟨_, _, rfl, hlog⟩

theorem tryConnectHandshake_quiet (name : Bytes) (port : Int) (bound : Bytes) :
    Prog.Triple (Quiet env net) (tryConnectHandshake env net host name port bound)
      (fun _ => Quiet env net) (Quiet env net) := by
  intro s hs
  obtain ⟨s₁, hs₁⟩ : ∃ s₁, s.attempt (.probe s.cfg name port s.attempts) = s₁ := ⟨_, rfl⟩
  have hq : Quiet env net s₁ :=
    hs₁ ▸ ⟨hs.balanced.append (balanced_probe _ _ _ _), hs.idle⟩
  simp only [tryConnectHandshake, run_bind, run_get, run_modify, andThen_ok,
    hs₁]
  cases (net s.attempts).socket with
  | none => exact hq
  | some fd =>
    simp only [run_bind]
    rcases upgrade_run hq.idle fd (net s.attempts).handshake with
      ⟨e, hup, -⟩ | ⟨hup, -, -⟩ | ⟨tls, hup, htrust, -⟩
    · rw [hup]
      exact hq
    · rw [hup]
      exact hq
    · obtain ⟨result, events, hrun, hbal⟩ :=
        ctcHandshake_run host htrust hq.balanced bound (net s.attempts)
      simp only [hup, andThen_ok, ↓reduceIte, run_bind, hrun]
      exact ⟨hbal, htrust.cleanup⟩

theorem Quiet.setCfg (h : Quiet env net s) (f : Config → Config) :
    Quiet env net (s.setCfg f) := ⟨h.balanced, h.idle⟩

/-- What a scan needs of its probes: each keeps `I`, and a server that it finds, by its own
address or as a candidate, is one of `Q`. -/
structure ScanRule (env : TlsEnv) (net : Nat → Attempt) (host : Host) (I : State → Prop)
    (Q : Int × Binding → State → Prop) (E : State → Prop) : Prop where
  fails : ∀ {rc : Int} {got s}, rc ≠ 0 → I s → Q (rc, got) s
  probe : ∀ ip port s, I s → Prog.Ends
    (fun r s' => I s' ∧ (r.1 = 0 → idMatches s.cfg r.2 = true → Q (0, r.2) s' ∧
      Q (0, { r.2 with
          boundServerIp := if r.2.boundServerIp = [] then snprintf 64 ip else r.2.boundServerIp })
        (s'.setCfg fun cfg => { cfg with serverHost := snprintf 128 ip, serverPort := port })))
    E ((tryConnectHandshake env net host ip port s.cfg.boundServerId).run s)

variable {host} {I : State → Prop} {Q : Int × Binding → State → Prop} {E : State → Prop}

/-- What a probe keeps, the loop over the hosts keeps. -/
theorem ScanRule.hosts (h : ScanRule env net host I Q E) (names : List Bytes) :
    Prog.Triple I (scanHosts env net host names) Q E := by
  induction names with
  | nil => exact triple_pure fun _ hs => h.fails (by decide) hs
  | cons name names ih =>
    intro s hs
    simp only [scanHosts, run_bind, run_get, andThen_ok]
    refine (h.probe name _ s hs).andThen ?_
    rintro ⟨rc, got⟩ s' ⟨hs', hfound⟩
    dsimp only
    split
    · rename_i hmatch
      exact (hfound hmatch.1 hmatch.2).1
    split
    · exact h.fails (by decide) hs'
    · exact ih s' hs'

theorem ScanRule.candidates (h : ScanRule env net host I Q E) (cands : List (Bytes × Int))
    (sawPending : Bool) : Prog.Triple I (scanCandidates env net host cands sawPending) Q E := by
  induction cands generalizing sawPending with
  | nil =>
    refine triple_pure fun _ hs => h.fails ?_ hs
    split <;> decide
  | cons cand cands ih =>
    intro s hs
    simp only [scanCandidates, run_bind, run_get, andThen_ok]
    refine (h.probe cand.1 cand.2 s hs).andThen ?_
    rintro ⟨rc, got⟩ s' ⟨hs', hfound⟩
    dsimp only
    split
    · rename_i hmatch
      exact (hfound hmatch.1 hmatch.2).2
    · exact ih _ s' hs'

/-- What a probe keeps, a scan keeps. -/
theorem ScanRule.scan (h : ScanRule env net host I Q E) (lan : List (Bytes × Int)) :
    Prog.Triple I (ctcScanServer env net host lan) Q E := by
  have hrest : ∀ hosts, Prog.Triple I (if lan = [] then scanHosts env net host hosts
      else scanCandidates env net host lan false) Q E := by
    intro hosts
    split
    · exact h.hosts hosts
    · exact h.candidates lan false
  intro s hs
  simp only [ctcScanServer, run_bind, run_get, andThen_ok]
  split
  · refine (h.probe _ _ s hs).andThen ?_
    rintro ⟨rc, got⟩ s' ⟨hs', hfound⟩
    dsimp only
    split
    · rename_i hzero
      split
      · rename_i hid
        exact (hfound hzero (by simp [idMatches, hid])).1
      · exact h.fails (by decide) hs'
    split
    · exact h.fails (by decide) hs'
    · exact hrest _ s' hs'
  · exact hrest _ s hs

variable (host)

theorem scan_quiet :
    ScanRule env net host (Quiet env net) (fun _ => Quiet env net) (Quiet env net) where
  fails _ hs := hs
  probe ip port s hs := by
    have hquiet := tryConnectHandshake_quiet host ip port s.cfg.boundServerId s hs
    generalize (tryConnectHandshake env net host ip port s.cfg.boundServerId).run s = r at hquiet ⊢
    obtain ⟨e | result, s'⟩ := r
    · exact hquiet
    · exact ⟨hquiet, fun _ _ => ⟨hquiet, hquiet.setCfg _⟩⟩

/-! ## Connections that register -/

/-- The socket of the dial that ended the log: it may carry the token, or it is
the plain socket of a fallback. -/
structure Connected (env : TlsEnv) (net : Nat → Attempt) (fd : Nat) (s : State) : Prop where
  dialled : ∃ before name k, s.log = before ++ [.dial s.cfg name k] ∧
    Balanced env net before ∧
      (Trusted env fd s ∧ (s.cfg.Secure → ¬ FallsBack env s.cfg (net k)) ∨
        s.tls.Idle ∧ s.cfg.Secure ∧ FallsBack env s.cfg (net k))

def Reached (env : TlsEnv) (net : Nat → Attempt) : Option Nat → State → Prop
  | none, s => Quiet env net s
  | some fd, s => Connected env net fd s

/-- A connection to a host ends with a pinned peer, with the plain second socket, or with none. -/
theorem connectHostWithTls_reached (name : Bytes) :
    Prog.Triple (Quiet env net) (connectHostWithTls env net name) (Reached env net)
      (Quiet env net) := by
  intro s hs
  obtain ⟨s₁, hs₁⟩ : ∃ s₁, s.attempt (.dial s.cfg name s.attempts) = s₁ := ⟨_, rfl⟩
  have hlog : s₁.log = s.log ++ [Event.dial s₁.cfg name s.attempts] := by rw [← hs₁]; rfl
  have hidle : s₁.tls.Idle := by rw [← hs₁]; exact hs.idle
  -- a dial that does not fall back keeps the log balanced
  have hquiet : ¬ FallsBack env s₁.cfg (net s.attempts) → Quiet env net s₁ := fun hno =>
    ⟨hlog ▸ hs.balanced.append (balanced_dial fun _ => hno), hidle⟩
  simp only [connectHostWithTls, run_bind, run_get, run_modify, andThen_ok,
    hs₁]
  cases htcp : connectHost (net s.attempts).tcp with
  | none => exact hquiet fun hfall => by simp [FallsBack, htcp] at hfall
  | some fd =>
    simp only [run_bind]
    rcases upgrade_run hidle fd (net s.attempts).handshake with
      ⟨e, hup, hconn⟩ | ⟨hup, hconn, htls⟩ | ⟨tls, hup, htrust, hconn⟩
    · rw [hup]
      exact hquiet fun hfall => by simp [FallsBack, hconn] at hfall
    · rw [hup]
      cases hretry : connectHost (net s.attempts).retry with
      | none =>
        exact hquiet fun hfall => by simp [FallsBack, hretry] at hfall
      | some fd' =>
        refine ⟨s.log, name, s.attempts, hlog, hs.balanced, ?_⟩
        by_cases hsec : s₁.cfg.Secure
        · exact .inr ⟨hidle, hsec, by simp [htcp], hconn, by simp [hretry]⟩
        · exact .inl ⟨.inl ⟨hidle, hsec⟩, fun h => absurd h hsec⟩
    · rw [hup]
      refine ⟨s.log, name, s.attempts, hlog, hs.balanced, .inl ⟨htrust, fun hsec hfall => ?_⟩⟩
      exact hconn hsec hfall.2.1

theorem connectHosts_reached (names : List Bytes) :
    Prog.Triple (Quiet env net) (connectHosts env net names) (Reached env net)
      (Quiet env net) := by
  induction names with
  | nil => exact triple_pure fun _ hs => hs
  | cons name names ih =>
    refine triple_bind (connectHostWithTls_reached name) fun result => ?_
    cases result with
    | none => exact ih
    | some fd => exact triple_pure fun _ hs => hs

theorem connectServer_reached :
    Prog.Triple (Quiet env net) (connectServer env net) (Reached env net) (Quiet env net) := by
  refine triple_get_bind fun s₀ => ?_
  split
  · exact connectHosts_reached _
  · exact connectHostWithTls_reached _

/-- Registration writes on the socket at least once, and the log is balanced
again: a fallback is now matched by a write in clear. -/
theorem doRegister_run (h : Connected env net fd s) :
    ∃ ok events, (doRegister net host fd).run s = (.ok ok, s.extend events) ∧
      Balanced env net (s.extend events).log ∧ (s.tls.cleanup fd).Idle := by
  obtain ⟨before, name, k, hlog, hbal, hsocket⟩ := h
  obtain ⟨full, hfull⟩ :
      ∃ full, registerFrame host s.cfg (net (s.attempts - 1)).clock = full := ⟨_, rfl⟩
  obtain ⟨sent, tail, hrun, htail⟩ :=
    writeFrame_run .register fd full (net (s.attempts - 1)) s
  have hbal' : Balanced env net
      (s.extend (s.writes .register fd (be32 full.length) :: tail)).log := by
    rw [State.extend, hlog, append_assoc]
    refine hbal.append ?_
    rcases hsocket with ⟨htrust, hno⟩ | ⟨hidle, hsec, hfall⟩
    · exact (balanced_dial hno).append (htrust.frame_balanced _ htail)
    · exact balanced_fallback hsec hfall rfl (hidle.sslOf fd)
  have hidle : (s.tls.cleanup fd).Idle := by
    rcases hsocket with ⟨htrust, -⟩ | ⟨hidle, -⟩
    · exact htrust.cleanup
    · exact hidle.cleanup fd
  simp only [doRegister, run_bind, run_get, andThen_ok, hfull, hrun]
  cases sent with
  | false => exact ⟨_, _, rfl, hbal', hidle⟩
  | true =>
    cases (net (s.attempts - 1)).answer with
    | none | some answer => exact ⟨_, _, rfl, hbal', hidle⟩

/-! ## Whole runs -/

theorem serveConnection_quiet (r : Round) :
    Prog.Triple (Quiet env net) (serveConnection env net host r) (fun _ => Quiet env net)
      (Quiet env net) := by
  refine triple_bind connectServer_reached fun result => ?_
  cases result with
  | none => exact triple_modify fun s hs => hs.setCfg _
  | some fd =>
    intro s hs
    obtain ⟨ok, events, hrun, hbal, hidle⟩ := doRegister_run host hs
    simp only [run_bind, hrun]
    exact ⟨hbal, hidle⟩

theorem seekApproval_quiet (r : Round) :
    Prog.Triple (Quiet env net) (seekApproval env net host r) (fun _ => Quiet env net)
      (Quiet env net) := by
  refine triple_get_bind fun s₀ => ?_
  dsimp only
  split
  · exact triple_pure fun _ hs => hs
  · refine triple_bind ((scan_quiet host).scan r.lan) fun result => ?_
    obtain ⟨rc, got⟩ := result
    dsimp only
    split
    · exact triple_bind (triple_modify fun s hs => hs.setCfg _) fun _ =>
        triple_pure fun _ hs => hs
    · exact triple_pure fun _ hs => hs

theorem ctcConnRun_quiet (rounds : List Round) :
    Prog.Triple (Quiet env net) (ctcConnRun env net host rounds) (fun _ => Quiet env net)
      (Quiet env net) := by
  induction rounds with
  | nil => exact triple_pure fun _ hs => hs
  | cons r rounds ih =>
    refine triple_bind ?_ fun _ => ih
    refine triple_bind (seekApproval_quiet host r) fun approved => ?_
    cases approved with
    | false => exact triple_pure fun _ hs => hs
    | true => exact serveConnection_quiet host r

variable (env net)

/-- **Where the token goes**: for every behaviour of the network, it goes only to the pinned peer
if and only if no host that was dialled under a fingerprint took the second connection after the
first one was refused. -/
theorem token_pinned_iff (cfg : Config) (rounds : List Round) :
    WritesPinned env ((ctcConnRun env net host rounds).run (.start cfg)).2.log ↔
      NoFallback env net ((ctcConnRun env net host rounds).run (.start cfg)).2.log := by
  have hstart : Quiet env net (.start cfg) := ⟨balanced_nil, TlsMap.empty_idle⟩
  have hends := ctcConnRun_quiet host rounds (.start cfg) hstart
  rcases hrun : (ctcConnRun env net host rounds).run (.start cfg) with ⟨e | u, s⟩
  · rw [hrun] at hends
    exact hends.balanced
  · rw [hrun] at hends
    exact hends.balanced

def pinnedConfig : Config where
  serverHost := lit "10.0.0.1"
  serverHosts := lit "10.0.0.1"
  serverPort := 9000
  agentId := lit "a"
  name := lit "a"
  token := lit "secret"
  useTls := true
  tlsSkipVerify := false
  serverFingerprint := lit "00"
  boundServerId := lit "s"
  boundServerIp := lit "10.0.0.1"
  boundServerPort := 9000
  approved := true

def refusesTls : Attempt where
  tcp := some [(some 3, true)]
  socket := none
  handshake := .failed
  retry := some [(some 3, true)]
  lenWritten := 4
  bodyWritten := 0
  answer := none
  clock := lit "0"

def someHost : Host := ⟨lit "h", [], [], [], [], [], [], []⟩

def anyDigest : TlsEnv := ⟨fun _ => [], fun _ => none⟩

theorem token_sent_in_clear :
    pinnedConfig.Secure ∧
    .write ⟨pinnedConfig, .register, none, registerFrame someHost pinnedConfig (lit "0")⟩ ∈
      ((ctcConnRun anyDigest (fun _ => refusesTls) someHost [⟨[], id⟩]).run
        (.start pinnedConfig)).2.log ∧
    ¬ WritesPinned anyDigest
      ((ctcConnRun anyDigest (fun _ => refusesTls) someHost [⟨[], id⟩]).run
        (.start pinnedConfig)).2.log := by
  have hsec : pinnedConfig.Secure := ⟨rfl, rfl, by decide⟩
  have hwrite : .write ⟨pinnedConfig, .register, none,
      registerFrame someHost pinnedConfig (lit "0")⟩ ∈
      ((ctcConnRun anyDigest (fun _ => refusesTls) someHost [⟨[], id⟩]).run
        (.start pinnedConfig)).2.log := by decide +kernel
  refine ⟨hsec, hwrite, fun h => ?_⟩
  obtain ⟨ssl, hssl, -⟩ := h _ hwrite hsec
  cases hssl

end CtForge.Agent
