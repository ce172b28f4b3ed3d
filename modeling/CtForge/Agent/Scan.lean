import CtForge.Agent.BoundServer

/-!
# What a scan returns (`binding.c`)

`ctc_scan_server` asks the bound address first, then the servers that answer a broadcast, and
if there are none the configured addresses. Each of the three reads the answer of a handshake
into a binding, and goes on with the next address where the answer is not the one it needs.
-/

namespace CtForge.Agent

open CLang List

/-- An answer that approves, with this server id, was read since `s₀`. -/
def ApprovedSince (net : Nat → Attempt) (s₀ s : State) (sid : Bytes) : Prop :=
  ∃ events cfg addr answer sip, s.log = s₀.log ++ events ∧ Replies net events cfg addr answer ∧
    answer.Carries true sid sip

/-- A scan that began in `s₀`, between two attempts. -/
structure Underway (s₀ s : State) : Prop where
  id : s.cfg.boundServerId = s₀.cfg.boundServerId
  log : s₀.log <+: s.log

/-- The end of a scan that began in `s₀`. -/
def Genuine (net : Nat → Attempt) (s₀ : State) (result : Int × Binding) (s : State) : Prop :=
  result.1 = 0 → result.2.boundServerId ≠ [] ∧ ApprovedSince net s₀ s result.2.boundServerId ∧
    (s₀.cfg.boundServerId ≠ [] → result.2.boundServerId = s₀.cfg.boundServerId)

variable {env : TlsEnv} {net : Nat → Attempt} {s₀ s : State}

/-- An answer that approves names a server. -/
theorem readHandshakeAck_id {cfg : Config} {answer : Answer} {got : Binding}
    (h : readHandshakeAck cfg answer = (0, got)) : got.boundServerId ≠ [] := by
  unfold readHandshakeAck at h
  split at h
  · split at h
    · simp at h
    · simp only at h
      split at h
      · rename_i hyes
        obtain ⟨-, rfl⟩ := Prod.mk.inj h
        exact hyes.2
      · simp at h
  · simp at h

variable (env net) (host : Host)

/-- One probe of a scan. -/
theorem tryConnectHandshake_underway (hs : Underway s₀ s) (name : Bytes) (port : Int)
    (bound : Bytes) {result : Except Fault (Int × Binding)} {s' : State}
    (hrun : (tryConnectHandshake env net host name port bound).run s = (result, s')) :
    Underway s₀ s' ∧ ∀ got, result = .ok (0, got) →
      got.boundServerId ≠ [] ∧ ApprovedSince net s₀ s' got.boundServerId := by
  obtain ⟨result, tls, events, hprobe, -, hread⟩ :=
    tryConnectHandshake_run env net host name port bound s
  obtain ⟨before, hbefore⟩ := hs.log
  rw [hprobe] at hrun
  cases hrun
  refine ⟨⟨hs.id, hs.log.trans (prefix_append _ _)⟩, ?_⟩
  rintro got rfl
  obtain ⟨len, frame, answer, rfl, hframe, hbody, hanswer, hack⟩ := hread got rfl
  obtain ⟨sip, hcarries, -, -⟩ := readHandshakeAck_approves hack
  refine ⟨readHandshakeAck_id hack, before ++ [.probe s.cfg name port s.attempts, .write len,
    .write frame], s.cfg, (name, port), answer, sip, ?_, ?_, hcarries⟩
  · simp [← hbefore]
  · exact ⟨before, s.attempts, len, frame, [], rfl, hframe, hbody, hanswer⟩

variable {env net}

/-- An approving answer with the right id is a genuine result. -/
theorem Underway.genuine (hs : Underway s₀ s) {got : Binding} {s' : State}
    (happroved : got.boundServerId ≠ [] ∧ ApprovedSince net s₀ s' got.boundServerId)
    (hmatch : idMatches s.cfg got = true) : Genuine net s₀ (0, got) s' := by
  refine fun _ => ⟨happroved.1, happroved.2, fun hbound => ?_⟩
  exact idMatches_bound hmatch hs.id hbound

theorem genuine_of_ne {rc : Int} (hrc : rc ≠ 0) (got : Binding) (s : State) :
    Genuine net s₀ (rc, got) s := fun hzero => absurd hzero hrc

/-- What the loops need of it. -/
theorem scan_genuine : ScanRule env net host (Underway s₀) (Genuine net s₀) fun _ => True where
  fails hrc _ := genuine_of_ne hrc _ _
  probe ip port s hs := by
    rcases hrun : (tryConnectHandshake env net host ip port s.cfg.boundServerId).run s with
      ⟨e | ⟨rc, got⟩, s'⟩
    · trivial
    · obtain ⟨hs', happroves⟩ := tryConnectHandshake_underway env net host hs _ _ _ hrun
      refine ⟨hs', ?_⟩
      rintro rfl hmatch
      -- the address of a candidate is written into the binding and the configuration only
      have hgenuine := hs.genuine (happroves got rfl) hmatch
      exact ⟨hgenuine, hgenuine⟩

/-- What a scan returns came in an approving answer during the scan, and is the server that the
agent is bound to, if it is bound. -/
theorem scan_returns_bound_server (env : TlsEnv) (net : Nat → Attempt) (host : Host)
    (lan : List (Bytes × Int)) (s : State) (got : Binding)
    (hzero : ((ctcScanServer env net host lan).run s).1 = .ok (0, got)) :
    got.boundServerId ≠ [] ∧
      ApprovedSince net s ((ctcScanServer env net host lan).run s).2 got.boundServerId ∧
      (s.cfg.boundServerId ≠ [] → got.boundServerId = s.cfg.boundServerId) := by
  have hscan : Prog.Triple (Underway s) (ctcScanServer env net host lan) (Genuine net s)
      fun _ => True := (scan_genuine host).scan lan
  have hends := hscan s ⟨rfl, prefix_rfl⟩
  rcases hrun : (ctcScanServer env net host lan).run s with ⟨result, s'⟩
  rw [hrun] at hzero hends
  obtain rfl : result = .ok (0, got) := hzero
  exact hends rfl

/-- A server that approves under the bound id: the scan takes it. -/
theorem scan_finds_bound_server :
    ApprovedSince (fun _ => approvesAs (lit "10.0.0.1")) (.start boundConfig)
      ((ctcScanServer anyDigest (fun _ => approvesAs (lit "10.0.0.1")) someHost []).run
        (.start boundConfig)).2 (lit "s") :=
  (scan_returns_bound_server anyDigest (fun _ => approvesAs (lit "10.0.0.1")) someHost []
    (.start boundConfig) ⟨lit "s", lit "10.0.0.1", 9000, true⟩ (by decide +kernel)).2.1

end CtForge.Agent
