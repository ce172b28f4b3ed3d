import CtForge.Agent.Pinning

/-!
# Where a bound agent registers (`agent.c`, `binding.c`)

An agent with a `bound_server_id` should register only with that server: at the address
that it was bound to, or at one from which a handshake answer with this id came. The scan
does compare the ids. But the address that `connect_server` dials is another matter: it is
`server_host`, which the agent has from its configuration or from the `server_ip` of the
answer, or each entry of `server_hosts` where that is a list; and the port that goes with it
is `server_port`, whatever port the answer came from.
-/

namespace CtForge.Agent

open CLang List Prog Bool

/-! ## Addresses -/

abbrev Address := Bytes × Int

def target (log : List Event) : Option Address :=
  log.foldl (fun last e =>
    match e with
    | .dial cfg name _ => some (name, cfg.serverPort)
    | _ => last) none

/-- The attempt `n` reached `addr`, the frame was written, and the answer was read. -/
def Replies (net : Nat → Attempt) (log : List Event) (cfg : Config) (addr : Address)
    (answer : Answer) : Prop :=
  ∃ before n len frame after, log = before ++ .probe cfg addr.1 addr.2 n :: .write len ::
      .write frame :: after ∧
    frame.kind = .handshake ∧ (net n).bodyWritten = frame.bytes.length ∧
    (net n).answer = some answer

/-- A handshake answer: whether it approves, its server id and the address it reports, as
they are read. -/
def Answer.Carries (answer : Answer) (approved : Bool) (sid sip : Bytes) : Prop :=
  answer.type = lit "handshake_ack" ∧
    ∃ serverId serverIp, answer.payload = some (approved, serverId, serverIp) ∧
      snprintf 128 serverId = sid ∧ snprintf 64 serverIp = sip

/-- The address where `ctc_scan_server` looks for the server it is bound to. -/
def Config.boundAddress (cfg : Config) : Address :=
  (cfg.boundServerIp, if 0 < cfg.boundServerPort then cfg.boundServerPort else cfg.serverPort)

/-- An address of the server that `cfg` is bound to, as far as the agent can know. -/
def Known (net : Nat → Attempt) (cfg : Config) (log : List Event) (addr : Address) : Prop :=
  addr = cfg.boundAddress ∨
    ∃ cfg' answer approved sip, Replies net log cfg' addr answer ∧
      answer.Carries approved cfg.boundServerId sip

def RegistersAtKnown (net : Nat → Attempt) (cfg : Config) (log : List Event) : Prop :=
  ∀ before w after, log = before ++ .write w :: after → w.kind = .register →
    ∃ addr, target before = some addr ∧ Known net cfg before addr

/-! ## Conditions -/

/-- The answers with which the server approves name the address that they came from, or
leave it to `server_host`; and `server_port` is the port there. -/
def NamesItself (net : Nat → Attempt) (sid : Bytes) (log : List Event) : Prop :=
  ∀ cfg addr answer sip, Replies net log cfg addr answer → answer.Carries true sid sip →
    snprintf 64 (if sip ≠ [] then sip else cfg.serverHost) = addr.1 ∧ cfg.serverPort = addr.2

def Config.SameServer (cfg cfg' : Config) : Prop :=
  cfg'.serverHost = cfg.serverHost ∧ cfg'.serverHosts = cfg.serverHosts ∧
    cfg'.serverPort = cfg.serverPort ∧ cfg'.boundServerId = cfg.boundServerId

/-- No list of servers, and an approved agent has its server as `server_host`. -/
structure Config.Settled (cfg : Config) : Prop where
  single : cfg.serverHosts.contains 44 = false
  approved : cfg.approved = true → (cfg.serverHost, cfg.serverPort) = cfg.boundAddress

/-! ## Logs -/

variable {env : TlsEnv} {net : Nat → Attempt} {host : Host} {cfg₀ : Config}

theorem target_append_write (log : List Event) (w : Write) :
    target (log ++ [Event.write w]) = target log := by
  simp [target]

theorem target_append_dial (log : List Event) (cfg : Config) (name : Bytes) (n : Nat) :
    target (log ++ [Event.dial cfg name n]) = some (name, cfg.serverPort) := by
  simp [target]

variable {log : List Event} {answer : Answer} {addr : Address} {cfg : Config}

theorem Replies.append (h : Replies net log cfg addr answer) (more : List Event) :
    Replies net (log ++ more) cfg addr answer := by
  obtain ⟨before, n, len, frame, after, hlog, hrest⟩ := h
  exact ⟨before, n, len, frame, after ++ more, by simp [hlog], hrest⟩

theorem Known.append (h : Known net cfg₀ log addr) (more : List Event) :
    Known net cfg₀ (log ++ more) addr := by
  refine h.imp_right ?_
  rintro ⟨cfg', answer, approved, sip, hreply, hcarries⟩
  exact ⟨cfg', answer, approved, sip, hreply.append more, hcarries⟩

theorem NamesItself.of_append {sid : Bytes} {log more : List Event}
    (h : NamesItself net sid (log ++ more)) : NamesItself net sid log :=
  fun cfg addr answer sip hreply => h cfg addr answer sip (hreply.append more)

def SendsToKnown (net : Nat → Attempt) (cfg : Config) (log : List Event) (e : Event) : Prop :=
  ∀ w, e = .write w → w.kind = .register → ∃ addr, target log = some addr ∧ Known net cfg log addr

theorem RegistersAtKnown.snoc (h : RegistersAtKnown net cfg₀ log) {e : Event}
    (he : SendsToKnown net cfg₀ log e) : RegistersAtKnown net cfg₀ (log ++ [e]) := by
  intro before w after hlog hw
  rcases eq_nil_or_concat after with rfl | ⟨rest, last, rfl⟩
  · obtain ⟨hbefore, hlast⟩ := append_inj' hlog rfl
    rw [← hbefore]
    exact he w (head_eq_of_cons_eq hlast) hw
  · have hsplit : log ++ [e] = (before ++ .write w :: rest) ++ [last] := by simpa using hlog
    exact h before w rest (append_inj' hsplit rfl).1 hw

theorem registersAtKnown_nil : RegistersAtKnown net cfg₀ [] := by
  intro before w after h
  simp at h

variable {events : List Event}

theorem RegistersAtKnown.append (h : RegistersAtKnown net cfg₀ log)
    (hnone : ∀ w, .write w ∈ events → w.kind ≠ .register) :
    RegistersAtKnown net cfg₀ (log ++ events) := by
  induction events generalizing log with
  | nil => rwa [append_nil]
  | cons e events ih =>
    rw [append_cons]
    refine ih (h.snoc ?_) fun w hw => hnone w (mem_cons_of_mem e hw)
    rintro w rfl hkind
    exact absurd hkind (hnone w mem_cons_self)

/-! ## Probes -/

variable (env net host)

theorem upgrade_frame (fd : Nat) (h : Handshake) (s : State) :
    ∃ result tls, (upgrade env fd h).run s = (result, { s with tls := tls }) := by
  by_cases htls : s.cfg.useTls = false
  · exact ⟨.ok true, s.tls, by simp [upgrade, htls]⟩
  · cases hwrap : ctcTlsWrap env s.tls fd s.cfg.fingerprint h with
    | error e => exact ⟨.error e, s.tls, by simp [upgrade, htls, hwrap]⟩
    | ok r => exact ⟨.ok (decide (0 ≤ r.1)), r.2, by simp [upgrade, htls, hwrap]⟩

variable {got : Binding}

theorem readHandshakeAck_approves (h : readHandshakeAck cfg answer = (0, got)) :
    ∃ sip, answer.Carries true got.boundServerId sip ∧
      got.boundServerIp = snprintf 64 (if sip ≠ [] then sip else cfg.serverHost) ∧
      got.boundServerPort = cfg.serverPort := by
  unfold readHandshakeAck at h
  split at h
  · rename_i htype
    split at h
    · simp at h
    · rename_i approved serverId serverIp hpayload
      simp only at h
      split at h
      · rename_i hyes
        obtain ⟨-, rfl⟩ := Prod.mk.inj h
        refine ⟨snprintf 64 serverIp, ⟨htype, serverId, serverIp, ?_, rfl, rfl⟩, rfl, rfl⟩
        rw [hpayload, hyes.1]
      · simp at h
  · simp at h

/-- A handshake writes its own frame only, and returns 0 after an answer. -/
theorem ctcHandshake_writes (fd : Nat) (bound : Bytes) (a : Attempt) (s : State) :
    ∃ result events, (ctcHandshake host fd bound a).run s = (.ok result, s.extend events) ∧
      (∀ w, .write w ∈ events → w.kind ≠ .register) ∧
      (result.1 = 0 → ∃ len frame answer, events = [.write len, .write frame] ∧
        frame.kind = .handshake ∧ a.bodyWritten = frame.bytes.length ∧ a.answer = some answer ∧
        readHandshakeAck s.cfg answer = result) := by
  obtain ⟨full, hfull⟩ : ∃ full, handshakeFrame host s.cfg bound a.clock = full := ⟨_, rfl⟩
  have hkind : ∀ (pieces : List Bytes) w,
      .write w ∈ pieces.map (s.writes .handshake fd) → w.kind ≠ .register := by
    intro pieces w hw
    obtain ⟨bytes, -, heq⟩ := mem_map.mp hw
    cases heq
    simp
  simp only [ctcHandshake, run_bind, run_get, andThen_ok, hfull]
  by_cases hlen : a.lenWritten = 4
  · have hrun : (writeFrame .handshake fd full a).run s = (.ok (a.bodyWritten = full.length),
        s.extend ([be32 full.length, full].map (s.writes .handshake fd))) := by
      simp [writeFrame, tlsWrite, hlen, State.emit, State.extend, State.writes]
    rw [hrun, andThen_ok]
    by_cases hbody : a.bodyWritten = full.length
    · cases hanswer : a.answer with
      | none =>
        refine ⟨(-1, {}), _, ?_, hkind [be32 full.length, full], by simp⟩
        simp [hbody]
      | some answer =>
        refine ⟨readHandshakeAck s.cfg answer, _, ?_, hkind [be32 full.length, full], fun _ => ?_⟩
        · simp [hbody]
        · exact ⟨_, _, answer, rfl, rfl, hbody, rfl, rfl⟩
    · refine ⟨(-1, {}), _, ?_, hkind [be32 full.length, full], by simp⟩
      simp [hbody]
  · have hrun : (writeFrame .handshake fd full a).run s = (.ok false,
        s.extend ([be32 full.length].map (s.writes .handshake fd))) := by
      simp [writeFrame, tlsWrite, hlen, State.emit, State.extend, State.writes]
    rw [hrun, andThen_ok]
    exact ⟨(-1, {}), _, rfl, hkind [be32 full.length], by simp⟩

/-- A probe changes the TLS table and the log, and registers nowhere. -/
theorem tryConnectHandshake_run (name : Bytes) (port : Int) (bound : Bytes) (s : State) :
    ∃ result tls events, (tryConnectHandshake env net host name port bound).run s =
        (result, { s with
          tls := tls
          attempts := s.attempts + 1
          log := s.log ++ .probe s.cfg name port s.attempts :: events }) ∧
      (∀ w, .write w ∈ events → w.kind ≠ .register) ∧
      ∀ got, result = .ok (0, got) → ∃ len frame answer, events = [.write len, .write frame] ∧
        frame.kind = .handshake ∧ (net s.attempts).bodyWritten = frame.bytes.length ∧
        (net s.attempts).answer = some answer ∧ readHandshakeAck s.cfg answer = (0, got) := by
  obtain ⟨a, ha⟩ : ∃ a, net s.attempts = a := ⟨_, rfl⟩
  obtain ⟨s₁, hs₁⟩ : ∃ s₁, s.attempt (.probe s.cfg name port s.attempts) = s₁ := ⟨_, rfl⟩
  simp only [tryConnectHandshake, run_bind, run_get, run_modify, andThen_ok,
    hs₁, ha]
  cases a.socket with
  | none => exact ⟨_, s₁.tls, [], by rw [← hs₁]; rfl, by simp, by simp⟩
  | some fd =>
    obtain ⟨result, tls, hup⟩ := upgrade_frame env fd a.handshake s₁
    simp only [run_bind, hup]
    rcases result with e | wrapped
    · exact ⟨_, tls, [], by rw [← hs₁]; rfl, by simp, by simp⟩
    · cases wrapped with
      | false => exact ⟨_, tls, [], by rw [← hs₁]; rfl, by simp, by simp⟩
      | true =>
        obtain ⟨result, events, hrun, hkind, hread⟩ :=
          ctcHandshake_writes host fd bound a { s₁ with tls := tls }
        have hcfg : ({ s₁ with tls := tls } : State).cfg = s.cfg := by rw [← hs₁]; rfl
        simp only [andThen_ok, ↓reduceIte, run_bind, hrun]
        refine ⟨.ok result, tls.cleanup fd, events, ?_, hkind, ?_⟩
        · simp [← hs₁, State.extend, State.attempt, State.cleanup]
        · intro got hgot
          obtain rfl := Except.ok.inj hgot
          exact hcfg ▸ hread rfl

/-- The end of a probe of `addr`: what it wrote are handshakes, and an approval came from
there. -/
structure Probed (net : Nat → Attempt) (s : State) (addr : Address)
    (end_ : Except Fault (Int × Binding) × State) : Prop where
  cfg : end_.2.cfg = s.cfg
  log : ∃ events, end_.2.log = s.log ++ events ∧ ∀ w, .write w ∈ events → w.kind ≠ .register
  approves : ∀ got, end_.1 = .ok (0, got) → ∃ answer sip,
    Replies net end_.2.log s.cfg addr answer ∧ answer.Carries true got.boundServerId sip ∧
      got.boundServerIp = snprintf 64 (if sip ≠ [] then sip else s.cfg.serverHost) ∧
      got.boundServerPort = s.cfg.serverPort

theorem tryConnectHandshake_probed (name : Bytes) (port : Int) (bound : Bytes) (s : State) :
    Probed net s (name, port) ((tryConnectHandshake env net host name port bound).run s) := by
  obtain ⟨result, tls, events, hrun, hkind, hread⟩ :=
    tryConnectHandshake_run env net host name port bound s
  rw [hrun]
  refine ⟨rfl, ⟨_, rfl, fun w hw => hkind w (by simpa using hw)⟩, ?_⟩
  intro got hgot
  obtain ⟨len, frame, answer, rfl, hframe, hbody, hanswer, hack⟩ := hread got hgot
  obtain ⟨sip, hcarries, hip, hport⟩ := readHandshakeAck_approves hack
  refine ⟨answer, sip, ?_, hcarries, hip, hport⟩
  exact ⟨s.log, s.attempts, len, frame, [], rfl, hframe, hbody, hanswer⟩

/-! ## The scan -/

variable {env net host}

/-- An agent that is bound as `cfg₀` says. -/
structure Bound (net : Nat → Attempt) (cfg₀ : Config) (s : State) : Prop where
  id : s.cfg.boundServerId = cfg₀.boundServerId
  approved : s.cfg.approved = true → Known net cfg₀ s.log (s.cfg.serverHost, s.cfg.serverPort)
  registers : RegistersAtKnown net cfg₀ s.log

/-- Between two attempts of an agent that is bound as `cfg₀` says, if so far the server
named itself. -/
structure Steady (net : Nat → Attempt) (cfg₀ : Config) (s : State) : Prop where
  hosts : s.cfg.serverHosts = cfg₀.serverHosts
  bound : NamesItself net cfg₀.boundServerId s.log → Bound net cfg₀ s

/-- The address that `adoptBinding` leaves in `server_host` and `server_port`. -/
def adopted (got : Binding) (cfg : Config) : Address :=
  ((adoptBinding got cfg).serverHost, (adoptBinding got cfg).serverPort)

structure Found (net : Nat → Attempt) (cfg₀ : Config) (result : Int × Binding) (s : State) :
    Prop where
  steady : Steady net cfg₀ s
  server : result.1 = 0 → NamesItself net cfg₀.boundServerId s.log →
    snprintf 128 result.2.boundServerId = cfg₀.boundServerId ∧
      Known net cfg₀ s.log (adopted result.2 s.cfg)

theorem snprintf_snprintf {m n : Nat} (h : m ≤ n) (text : Bytes) :
    snprintf n (snprintf m text) = snprintf m text := by
  simp only [snprintf, take_take]
  congr 1
  omega

theorem adopted_eq {text : Bytes} (hname : snprintf 64 text = addr.1)
    (hip : got.boundServerIp = addr.1) (hport : got.boundServerPort = addr.2)
    (hcfg : cfg.serverPort = addr.2) (hempty : addr.1 = [] → snprintf 64 cfg.serverHost = []) :
    adopted got cfg = addr := by
  have hhost : snprintf 64 (if got.boundServerIp ≠ [] then got.boundServerIp
      else cfg.serverHost) = addr.1 := by
    by_cases hnil : addr.1 = []
    · rw [if_neg (by rw [hip, hnil]; simp), hempty hnil, hnil]
    · rw [if_pos (by rwa [hip]), hip, ← hname, snprintf_snprintf (Nat.le_refl _)]
  simp only [adopted, adoptBinding, hhost, hport, hcfg, ite_self]
  rw [← hname, snprintf_snprintf (by decide), hname]

variable {s s' : State}

theorem Probed.adopts (h : Probed net s addr (.ok (0, got), s'))
    (hid : got.boundServerId = cfg₀.boundServerId)
    (hnames : NamesItself net cfg₀.boundServerId s'.log) :
    snprintf 128 got.boundServerId = cfg₀.boundServerId ∧ Known net cfg₀ s'.log addr ∧
      got.boundServerPort = addr.2 ∧ s.cfg.serverPort = addr.2 ∧
      ∃ text, snprintf 64 text = addr.1 ∧ got.boundServerIp = addr.1 ∧
        (addr.1 = [] → snprintf 64 s.cfg.serverHost = []) := by
  obtain ⟨answer, sip, hreply, hcarries, hip, hport⟩ := h.approves got rfl
  obtain ⟨hname, hcfg⟩ := hnames s.cfg addr answer sip hreply (hid ▸ hcarries)
  refine ⟨?_, .inr ⟨s.cfg, answer, true, sip, hreply, hid ▸ hcarries⟩, hport.trans hcfg, hcfg,
    _, hname, hip.trans hname, ?_⟩
  · obtain ⟨-, serverId, -, -, hsid, -⟩ := hcarries
    rw [← hid, ← hsid, snprintf_snprintf (Nat.le_refl _)]
  · intro hnil
    by_cases hsip : sip = []
    · rwa [if_neg (by simpa using hsip), hnil] at hname
    · -- an address that was reported is not empty
      obtain ⟨-, -, serverIp, -, -, hread⟩ := hcarries
      rw [if_pos hsip, ← hread, snprintf_snprintf (Nat.le_refl _), hread, hnil] at hname
      exact absurd hname hsip

theorem Steady.extend (hs : Steady net cfg₀ s) (hcfg : s'.cfg = s.cfg)
    (hlog : s'.log = s.log ++ events)
    (hregisters : Bound net cfg₀ s → RegistersAtKnown net cfg₀ s'.log) : Steady net cfg₀ s' := by
  refine ⟨hcfg ▸ hs.hosts, fun hnames => ?_⟩
  have hbound := hs.bound (hlog ▸ hnames).of_append
  refine ⟨hcfg ▸ hbound.id, ?_, hregisters hbound⟩
  rw [hcfg, hlog]
  exact fun happroved => (hbound.approved happroved).append events

theorem Probed.steady {r : Except Fault (Int × Binding)} (h : Probed net s addr (r, s'))
    (hs : Steady net cfg₀ s) : Steady net cfg₀ s' := by
  obtain ⟨events, hlog, hkind⟩ := h.log
  refine hs.extend h.cfg hlog fun hbound => ?_
  exact hlog ▸ hbound.registers.append hkind

theorem found_of_ne {rc : Int} (hrc : rc ≠ 0) (hs : Steady net cfg₀ s) :
    Found net cfg₀ (rc, got) s :=
  ⟨hs, fun hzero => absurd hzero hrc⟩

theorem idMatches_bound (hmatch : idMatches s.cfg got = true)
    (hid : s.cfg.boundServerId = cfg₀.boundServerId) (hne : cfg₀.boundServerId ≠ []) :
    got.boundServerId = cfg₀.boundServerId := by
  rw [idMatches, hid, or_eq_true, decide_eq_true_iff, decide_eq_true_iff] at hmatch
  exact hmatch.resolve_left hne

/-- A probe whose answer has the right id has found the server at the address that it dialled. -/
theorem Probed.found (h : Probed net s addr (.ok (0, got), s')) (hs : Steady net cfg₀ s)
    (hmatch : idMatches s.cfg got = true) (hne : cfg₀.boundServerId ≠ []) :
    Found net cfg₀ (0, got) s' := by
  have hsteady := h.steady hs
  have hcfg : s'.cfg = s.cfg := h.cfg
  refine ⟨hsteady, fun _ hnames => ?_⟩
  have hid := idMatches_bound hmatch (hcfg ▸ (hsteady.bound hnames).id) hne
  obtain ⟨hsid, hknown, hport, hserver, text, hname, hip, hempty⟩ := h.adopts hid hnames
  refine ⟨hsid, ?_⟩
  rw [hcfg, adopted_eq hname hip hport hserver hempty]
  exact hknown

/-- A server that answered the broadcast is found by an answer with the right id. -/
theorem Probed.found_candidate {ip : Bytes} {port : Int}
    (h : Probed net s (ip, port) (.ok (0, got), s')) (hs : Steady net cfg₀ s)
    (hmatch : idMatches s.cfg got = true) (hne : cfg₀.boundServerId ≠ [])
    (hwaits : s.cfg.approved = false) :
    Found net cfg₀ (0, { got with
        boundServerIp := if got.boundServerIp = [] then snprintf 64 ip else got.boundServerIp })
      (s'.setCfg fun cfg => { cfg with serverHost := snprintf 128 ip, serverPort := port }) := by
  have hsteady := h.steady hs
  have hcfg : s'.cfg = s.cfg := h.cfg
  refine ⟨⟨hsteady.hosts, fun hnames => ?_⟩, fun _ hnames => ?_⟩
  · have hbound := hsteady.bound hnames
    refine ⟨hbound.id, fun happroved => ?_, hbound.registers⟩
    have hnot : s'.cfg.approved = false := by rw [hcfg]; exact hwaits
    exact absurd (hnot.symm.trans happroved) (by simp)
  · have hnames : NamesItself net cfg₀.boundServerId s'.log := hnames
    have hid := idMatches_bound hmatch (hcfg ▸ (hsteady.bound hnames).id) hne
    obtain ⟨hsid, hknown, hport, hserver, text, hname, hip, hempty⟩ := h.adopts hid hnames
    have hsame : snprintf 64 ip = ip := by
      change snprintf 64 text = ip at hname
      rw [← hname, snprintf_snprintf (Nat.le_refl _)]
    have haddr : adopted { got with
          boundServerIp := if got.boundServerIp = [] then snprintf 64 ip else got.boundServerIp }
        { s'.cfg with serverHost := snprintf 128 ip, serverPort := port } = (ip, port) := by
      refine adopted_eq hname ?_ hport rfl ?_
      · change (if got.boundServerIp = [] then snprintf 64 ip else got.boundServerIp) = ip
        rw [hsame, hip]
        exact ite_self _
      · intro hnil
        change snprintf 64 (snprintf 128 ip) = []
        rw [show ip = [] from hnil]
        rfl
    exact ⟨hsid, haddr ▸ hknown⟩

variable (host)

def Waits (net : Nat → Attempt) (cfg₀ : Config) (s : State) : Prop :=
  Steady net cfg₀ s ∧ s.cfg.approved = false

theorem scan_found (hne : cfg₀.boundServerId ≠ []) :
    ScanRule env net host (Waits net cfg₀) (Found net cfg₀) (Steady net cfg₀) where
  fails hrc hs := found_of_ne hrc hs.1
  probe ip port s hs := by
    have hprobed := tryConnectHandshake_probed env net host ip port s.cfg.boundServerId s
    generalize (tryConnectHandshake env net host ip port s.cfg.boundServerId).run s = r
      at hprobed ⊢
    obtain ⟨hs, hwaits⟩ := hs
    have hcfg : r.2.cfg = s.cfg := hprobed.cfg
    obtain ⟨e | ⟨rc, got⟩, s'⟩ := r
    · exact hprobed.steady hs
    · refine ⟨⟨hprobed.steady hs, hcfg ▸ hwaits⟩, ?_⟩
      rintro rfl hmatch
      exact ⟨hprobed.found hs hmatch hne, hprobed.found_candidate hs hmatch hne hwaits⟩

/-! ## Registering -/

variable (env net)

theorem connectHostWithTls_frame (name : Bytes) (s : State) :
    ∃ result tls, (connectHostWithTls env net name).run s =
      (result, { s.attempt (.dial s.cfg name s.attempts) with tls := tls }) := by
  obtain ⟨s₁, hs₁⟩ : ∃ s₁, s.attempt (.dial s.cfg name s.attempts) = s₁ := ⟨_, rfl⟩
  simp only [connectHostWithTls, run_bind, run_get, run_modify, andThen_ok,
    hs₁]
  cases connectHost (net s.attempts).tcp with
  | none => exact ⟨_, s₁.tls, rfl⟩
  | some fd =>
    obtain ⟨result, tls, hup⟩ := upgrade_frame env fd (net s.attempts).handshake s₁
    simp only [run_bind, hup]
    rcases result with e | wrapped
    · exact ⟨_, tls, rfl⟩
    · cases wrapped with
      | false | true => exact ⟨_, tls, rfl⟩

theorem doRegister_writes (fd : Nat) (s : State) :
    ∃ ok events, (doRegister net host fd).run s = (.ok ok, s.extend events) ∧
      ∀ e ∈ events, ∃ w, e = .write w := by
  obtain ⟨full, hfull⟩ :
      ∃ full, registerFrame host s.cfg (net (s.attempts - 1)).clock = full := ⟨_, rfl⟩
  obtain ⟨sent, tail, hrun, htail⟩ := writeFrame_run .register fd full (net (s.attempts - 1)) s
  have hwrites : ∀ e ∈ s.writes .register fd (be32 full.length) :: tail, ∃ w, e = .write w := by
    intro e he
    rcases mem_cons.mp he with rfl | he
    · exact ⟨_, rfl⟩
    · exact ⟨_, htail e he⟩
  simp only [doRegister, run_bind, run_get, andThen_ok, hfull, hrun]
  cases sent with
  | false => exact ⟨_, _, rfl, hwrites⟩
  | true =>
    cases (net (s.attempts - 1)).answer with
    | none | some answer => exact ⟨_, _, rfl, hwrites⟩

variable {env net}

/-- Writes to a known address keep the registrations where they should be. -/
theorem RegistersAtKnown.writes (h : RegistersAtKnown net cfg₀ log)
    (htarget : target log = some addr) (hknown : Known net cfg₀ log addr)
    (hwrites : ∀ e ∈ events, ∃ w, e = .write w) : RegistersAtKnown net cfg₀ (log ++ events) := by
  induction events generalizing log with
  | nil => rwa [append_nil]
  | cons e events ih =>
    obtain ⟨w, rfl⟩ := hwrites e mem_cons_self
    rw [append_cons]
    refine ih (h.snoc fun _ _ _ => ⟨addr, htarget, hknown⟩)
      ((target_append_write log w).trans htarget) (hknown.append _) ?_
    exact fun f hf => hwrites f (mem_cons_of_mem _ hf)

def Approved (net : Nat → Attempt) (cfg₀ : Config) (s : State) : Prop :=
  Steady net cfg₀ s ∧ s.cfg.approved = true

theorem Steady.dropApproval (hs : Steady net cfg₀ s) : Steady net cfg₀ (s.setCfg dropApproval) := by
  refine ⟨hs.hosts, fun hnames => ?_⟩
  have hbound := hs.bound hnames
  exact ⟨hbound.id, fun h => absurd h (by simp [State.setCfg, CtForge.Agent.dropApproval]),
    hbound.registers⟩

/-- A session that leaves the settings of the server alone keeps what the agent knows of it. -/
theorem Approved.session (hs : Approved net cfg₀ s) {f : Config → Config}
    (hf : s.cfg.SameServer (f s.cfg)) : Steady net cfg₀ (s.setCfg f) := by
  obtain ⟨hhost, hhosts, hport, hid⟩ := hf
  refine ⟨hhosts.trans hs.1.hosts, fun hnames => ?_⟩
  have hbound := hs.1.bound hnames
  refine ⟨hid.trans hbound.id, fun _ => ?_, hbound.registers⟩
  change Known net cfg₀ s.log ((f s.cfg).serverHost, (f s.cfg).serverPort)
  rw [hhost, hport]
  exact hbound.approved hs.2

/-- One connection of an approved agent keeps what it knows of its server. -/
theorem serveConnection_steady (hsingle : cfg₀.serverHosts.contains 44 = false) (r : Round)
    (hsession : ∀ cfg : Config, cfg.SameServer (r.session cfg)) :
    Prog.Triple (Approved net cfg₀) (serveConnection env net host r) (fun _ => Steady net cfg₀)
      (Steady net cfg₀) := by
  rintro s ⟨hs, happroved⟩
  obtain ⟨result, tls, hrun⟩ := connectHostWithTls_frame env net s.cfg.serverHost s
  obtain ⟨s₁, hs₁⟩ : ∃ s₁, { s.attempt (.dial s.cfg s.cfg.serverHost s.attempts) with
    tls := tls } = s₁ := ⟨_, rfl⟩
  have hcfg : s₁.cfg = s.cfg := by rw [← hs₁]; rfl
  have hlog : s₁.log = s.log ++ [Event.dial s.cfg s.cfg.serverHost s.attempts] := by rw [← hs₁]; rfl
  have hserver : (connectServer env net).run s = (result, s₁) := by
    simp only [connectServer, run_bind, run_get, andThen_ok]
    rw [if_neg (by rw [hs.hosts, hsingle]; simp), hrun, hs₁]
  have hdial : RegistersAtKnown net cfg₀ s.log → RegistersAtKnown net cfg₀ s₁.log := by
    intro h
    rw [hlog]
    exact h.append (by simp)
  have hs₁ : Approved net cfg₀ s₁ :=
    ⟨hs.extend hcfg hlog fun hbound => hdial hbound.registers, hcfg ▸ happroved⟩
  simp only [serveConnection, run_bind, hserver]
  rcases result with e | fd?
  · exact hs₁.1
  · cases fd? with
    | none => exact hs₁.1.dropApproval
    | some fd =>
      obtain ⟨ok, events, hreg, hwrites⟩ := doRegister_writes net host fd s₁
      have htarget : target s₁.log = some (s₁.cfg.serverHost, s₁.cfg.serverPort) := by
        rw [hlog, target_append_dial, hcfg]
      have hs₂ : Approved net cfg₀ (s₁.extend events) := by
        refine ⟨hs₁.1.extend rfl rfl fun hbound => ?_, hs₁.2⟩
        exact hbound.registers.writes htarget (hbound.approved hs₁.2) hwrites
      have hs₃ : Approved net cfg₀ ((s₁.extend events).cleanup fd) :=
        ⟨hs₂.1.extend rfl (append_nil _).symm Bound.registers, hs₂.2⟩
      simp only [andThen_ok, run_bind, hreg]
      cases ok with
      | false => exact hs₃.1.dropApproval
      | true => exact hs₃.session (hsession _)

theorem seekApproval_steady (hne : cfg₀.boundServerId ≠ []) (r : Round) :
    Prog.Triple (Steady net cfg₀) (seekApproval env net host r)
      (fun ok s => Steady net cfg₀ s ∧ (ok = true → s.cfg.approved = true))
      (Steady net cfg₀) := by
  intro s hs
  simp only [seekApproval, run_bind, run_get, andThen_ok]
  by_cases happroved : s.cfg.approved = true
  · rw [if_pos happroved]
    exact ⟨hs, fun _ => happroved⟩
  · rw [if_neg happroved]
    have hscan : Prog.Ends (Found net cfg₀) (Steady net cfg₀)
        ((ctcScanServer env net host r.lan).run s) :=
      (scan_found host hne).scan r.lan s ⟨hs, by simpa using happroved⟩
    simp only [run_bind]
    rcases hrun : (ctcScanServer env net host r.lan).run s with ⟨e | ⟨rc, got⟩, s'⟩
    · rw [hrun] at hscan
      exact hscan
    · rw [hrun] at hscan
      have hfound : Found net cfg₀ (rc, got) s' := hscan
      simp only [andThen_ok]
      split
      · rename_i hzero
        refine ⟨⟨hfound.steady.hosts, fun hnames => ?_⟩, fun _ => rfl⟩
        obtain ⟨hid, hknown⟩ := hfound.server hzero hnames
        exact ⟨hid, fun _ => hknown, (hfound.steady.bound hnames).registers⟩
      · exact ⟨hfound.steady, fun h => absurd h (by simp)⟩

theorem ctcConnRun_steady (hne : cfg₀.boundServerId ≠ [])
    (hsingle : cfg₀.serverHosts.contains 44 = false) (rounds : List Round)
    (hsession : ∀ r ∈ rounds, ∀ cfg : Config, cfg.SameServer (r.session cfg)) :
    Prog.Triple (Steady net cfg₀) (ctcConnRun env net host rounds) (fun _ => Steady net cfg₀)
      (Steady net cfg₀) := by
  induction rounds with
  | nil => exact triple_pure fun _ hs => hs
  | cons r rounds ih =>
    refine triple_bind ?_ fun _ => ih fun r' hr => hsession r' (mem_cons_of_mem r hr)
    refine triple_bind (seekApproval_steady host hne r) fun ok => ?_
    cases ok with
    | false => exact triple_pure fun _ hs => hs.1
    | true =>
      intro s hs
      exact serveConnection_steady host hsingle r (hsession r mem_cons_self) s
        ⟨hs.1, hs.2 rfl⟩

/-! ## Whole runs -/

theorem steady_start (hsettled : cfg₀.Settled) : Steady net cfg₀ (.start cfg₀) :=
  ⟨rfl, fun _ => ⟨rfl, fun happroved => .inl (hsettled.approved happroved), registersAtKnown_nil⟩⟩

variable (env net)

/-- A bound agent registers only at its bound address, or at one from which an answer with its
id came, if `server_hosts` is no list, an agent that starts out approved has its bound address
as `server_host`, each answer with its id names the address that it came from, and the commands
of the sessions leave these settings alone. -/
theorem registers_with_its_server (cfg : Config) (rounds : List Round)
    (hbound : cfg.boundServerId ≠ []) (hsettled : cfg.Settled)
    (hsession : ∀ r ∈ rounds, ∀ cfg : Config, cfg.SameServer (r.session cfg))
    (hnames : NamesItself net cfg.boundServerId
      ((ctcConnRun env net host rounds).run (.start cfg)).2.log) :
    RegistersAtKnown net cfg ((ctcConnRun env net host rounds).run (.start cfg)).2.log := by
  have hends : Prog.Ends (fun _ => Steady net cfg) (Steady net cfg)
      ((ctcConnRun env net host rounds).run (.start cfg)) :=
    ctcConnRun_steady host hbound hsettled.single rounds hsession (.start cfg)
      (steady_start hsettled)
  rcases hrun : (ctcConnRun env net host rounds).run (.start cfg) with ⟨e | u, s⟩
  · rw [hrun] at hends hnames
    exact (hends.bound hnames).registers
  · rw [hrun] at hends hnames
    exact (hends.bound hnames).registers

/-! ## Runs -/

/-- The handshakes that a log tries: under which configuration, where, and the number of
the attempt. -/
def probes (log : List Event) : List (Config × Address × Nat) :=
  log.filterMap fun e =>
    match e with
    | .probe cfg name port n => some (cfg, (name, port), n)
    | _ => none

def Event.registers : Event → Bool
  | .write w => w.kind = .register
  | _ => false

variable {net}

theorem Replies.mem_probes (h : Replies net log cfg addr answer) :
    ∃ n, (cfg, addr, n) ∈ probes log ∧ (net n).answer = some answer := by
  obtain ⟨before, n, len, frame, after, rfl, -, -, hanswer⟩ := h
  refine ⟨n, ?_, hanswer⟩
  exact mem_filterMap.mpr ⟨.probe cfg addr.1 addr.2 n, by simp, rfl⟩

/-- The event `k` is a piece of a register frame for `addr`, which is not the bound address
and was not tried before. -/
def straysAt (cfg : Config) (log : List Event) (k : Nat) (addr : Address) : Bool :=
  log[k]?.any Event.registers && target (log.take k) = some addr && addr ≠ cfg.boundAddress &&
    (probes (log.take k)).all fun p => p.2.1 ≠ addr

theorem straysAt_spec {k : Nat} (h : straysAt cfg log k addr = true) :
    target (log.take k) = some addr ∧ ¬ RegistersAtKnown net cfg log := by
  simp only [straysAt, and_eq_true, decide_eq_true_eq, all_eq_true] at h
  obtain ⟨⟨⟨hregisters, htarget⟩, hbound⟩, hprobes⟩ := h
  refine ⟨htarget, fun hknown => ?_⟩
  cases he : log[k]? with
  | none => simp [he] at hregisters
  | some e =>
    rw [he] at hregisters
    cases e with
    | write w =>
      have hlog : log = log.take k ++ .write w :: log.drop (k + 1) := by
        obtain ⟨hk, hget⟩ := List.getElem?_eq_some_iff.mp he
        rw [← hget, ← drop_eq_getElem_cons hk, take_append_drop]
      have hkind : w.kind = .register := by simpa [Event.registers] using hregisters
      obtain ⟨other, hother, hfrom⟩ := hknown _ w _ hlog hkind
      obtain rfl := Option.some.inj (htarget.symm.trans hother)
      rcases hfrom with heq | ⟨cfg', answer, approved, sip, hreply, -⟩
      · exact hbound heq
      · obtain ⟨n, hn, -⟩ := hreply.mem_probes
        exact hprobes _ hn rfl
    | dial | probe => cases hregisters

/-- An agent that is bound to the server `s` at 10.0.0.1 and looks for it. -/
def boundConfig : Config :=
  { pinnedConfig with useTls := false, serverFingerprint := [], approved := false }

/-- A server that takes every connection and approves every agent, as the server `s` at
the address `sip`. -/
def approvesAs (sip : Bytes) : Attempt where
  tcp := some [(some 3, true)]
  socket := some 3
  handshake := .failed
  retry := none
  lenWritten := 4
  bodyWritten := (handshakeFrame someHost boundConfig (lit "s") (lit "0")).length
  answer := some ⟨lit "handshake_ack", some (true, lit "s", sip)⟩
  clock := lit "0"

/-- What is logged of one round in which the server reports `sip` as its address. -/
def logOf (cfg : Config) (sip : Bytes) : List Event :=
  ((ctcConnRun anyDigest (fun _ => approvesAs sip) someHost [⟨[], id⟩]).run (.start cfg)).2.log

/-- A server that reports its address: the agent registers there. -/
theorem registers_with_honest_server :
    target ((logOf boundConfig (lit "10.0.0.1")).take 4) = some (lit "10.0.0.1", 9000) ∧
    (logOf boundConfig (lit "10.0.0.1"))[4]?.any Event.registers = true ∧
    RegistersAtKnown (fun _ => approvesAs (lit "10.0.0.1")) boundConfig
      (logOf boundConfig (lit "10.0.0.1")) := by
  have hlog : target ((logOf boundConfig (lit "10.0.0.1")).take 4) =
        some (lit "10.0.0.1", 9000) ∧
      (logOf boundConfig (lit "10.0.0.1"))[4]?.any Event.registers = true ∧
      probes (logOf boundConfig (lit "10.0.0.1")) =
        [(boundConfig, (lit "10.0.0.1", 9000), 0)] := by decide +kernel
  obtain ⟨htarget, hregisters, hprobes⟩ := hlog
  refine ⟨htarget, hregisters, ?_⟩
  refine registers_with_its_server anyDigest _ someHost boundConfig [⟨[], id⟩] (by decide)
    ⟨by decide, by decide⟩ (fun r hr cfg => ?_) ?_
  · obtain rfl := mem_singleton.mp hr
    exact ⟨rfl, rfl, rfl, rfl⟩
  · intro cfg addr answer sip hreply hcarries
    obtain ⟨n, hn, hanswer⟩ := hreply.mem_probes
    have hn : (cfg, addr, n) ∈ probes (logOf boundConfig (lit "10.0.0.1")) := hn
    rw [hprobes, mem_singleton] at hn
    cases hn
    cases hanswer
    obtain ⟨-, serverId, serverIp, hpayload, -, hsip⟩ := hcarries
    cases hpayload
    rw [← hsip]
    exact ⟨by decide, rfl⟩

def listConfig : Config :=
  { boundConfig with approved := true, serverHosts := lit "10.0.0.7,10.0.0.1" }

/-- An approved agent whose `server_host` is not the address that it is bound to. -/
def movedConfig : Config :=
  { boundConfig with approved := true, serverHost := lit "10.0.0.9" }

/-- Three agents that register at an address they know nothing of. -/
theorem registers_elsewhere :
    (target ((logOf boundConfig (lit "10.0.0.66")).take 4) = some (lit "10.0.0.66", 9000) ∧
      ¬ RegistersAtKnown (fun _ => approvesAs (lit "10.0.0.66")) boundConfig
        (logOf boundConfig (lit "10.0.0.66"))) ∧
    (target ((logOf listConfig []).take 1) = some (lit "10.0.0.7", 9000) ∧
      ¬ RegistersAtKnown (fun _ => approvesAs []) listConfig (logOf listConfig [])) ∧
    (target ((logOf movedConfig []).take 1) = some (lit "10.0.0.9", 9000) ∧
      ¬ RegistersAtKnown (fun _ => approvesAs []) movedConfig (logOf movedConfig [])) := by
  refine ⟨straysAt_spec ?_, straysAt_spec ?_, straysAt_spec ?_⟩
  · decide +kernel
  · decide +kernel
  · decide +kernel

end CtForge.Agent
