import CtForge.Lib.CLang
import CtForge.Server.AgentConn

/-!
# Discovery packets (`discover.go`)

A packet is four bytes of magic, a length in two bytes and a JSON body. A body whose
`type` is `scan_req` is answered; any other that decodes is a beacon and goes to
`Discover`. What `json.Unmarshal` makes of a body is a parameter, so that the results
hold for every packet and whatever it decodes to. Slices are checked as Go checks
them, against the bytes of the packet.
-/

namespace CtForge.Server.Discovery

open CLang

/-- What `json.Unmarshal` makes of a body: the `type` member, and the payload of a
beacon. -/
structure Unmarshal where
  type : Bytes → Option String
  payload : Bytes → Option DiscoverPayload

/-! ## The handler -/

/-- `b[lo:hi]`. -/
def slice (b : Bytes) (lo hi : Nat) : Except Fault Bytes :=
  if lo ≤ hi ∧ hi ≤ b.length then .ok ((b.take hi).drop lo) else .error .outOfBounds

theorem slice_of_le {b : Bytes} {lo hi : Nat} (hlo : lo ≤ hi) (hhi : hi ≤ b.length) :
    slice b lo hi = .ok ((b.take hi).drop lo) := if_pos ⟨hlo, hhi⟩

/-- `binary.BigEndian`. -/
def bigEndian (b : Bytes) : Nat := b.foldl (fun n byte => 256 * n + byte.toNat) 0

def discoverMagic : Bytes := lit "CTC1"

def body (pkt : Bytes) : Except Fault (Option Bytes) :=
  if pkt.length < 6 then .ok none
  else do
    let magic ← slice pkt 0 4
    if magic ≠ discoverMagic then pure none
    else
      let n := bigEndian (← slice pkt 4 6)
      if n ≤ 0 ∨ n > pkt.length - 6 then pure none
      else return some (← slice pkt 6 (6 + n))

/-- The packet that answers a scan; `resp` is the marshalled `scan_resp`. -/
def replyScan (resp : Bytes) : Bytes :=
  discoverMagic ++ [UInt8.ofNat (resp.length / 256), UInt8.ofNat resp.length] ++ resp

/-- A beacon from `ip`: the two sections of `Discover`. -/
def handleBeacon (srv : Identity) (st : Store) (now : Time) (ip : String) (d : DiscoverPayload) :
    Store :=
  let m := (beacon ip d).move srv st now
  (m.next.move srv m.store now).store

def handlePacket (u : Unmarshal) (srv : Identity) (resp : Bytes) (st : Store) (now : Time)
    (ip : String) (pkt : Bytes) : Except Fault (Store × Option Bytes) := do
  match ← body pkt with
  | none => pure (st, none)
  | some body =>
    if u.type body = some "scan_req" then pure (st, some (replyScan resp))
    else
      match u.payload body with
      | none => pure (st, none)
      | some d => pure (handleBeacon srv st now ip d, none)

def claimed (u : Unmarshal) (pkt : Bytes) : Option Id :=
  match body pkt with
  | .ok (some body) => (u.payload body).map fun d => orDefault d.agentId d.hostname
  | _ => none

/-! ## What a packet leaves alone -/

structure SameAdministered (old new : Agent) : Prop where
  name : new.name = old.name
  hostname : new.hostname = old.hostname
  remark : new.remark = old.remark
  boundServerId : new.boundServerId = old.boundServerId
  approvedAt : new.approvedAt = old.approvedAt
  offlineCount : new.offlineCount = old.offlineCount
  alerts : new.alerts = old.alerts
  online : new.online = old.online
  approval : old.approval = .approved ∨ old.approval = .rejected → new.approval = old.approval
  osVersion : old.osVersion ≠ "" → new.osVersion = old.osVersion
  kernel : old.kernel ≠ "" → new.kernel = old.kernel

inductive Allowed : Option Agent → Option Agent → Prop
  | keep (old? : Option Agent) : Allowed old? old?
  | refresh {old new : Agent} (hoffline : old.online = false) (h : SameAdministered old new) :
      Allowed (some old) (some new)
  | create {new : Agent} (hpending : new.approval = .pending) (hoffline : new.online = false) :
      Allowed none (some new)

theorem refresh_sameAdministered (old a : Agent) (now : Time) :
    SameAdministered old (Store.refresh old a now) where
  name := rfl
  hostname := rfl
  remark := rfl
  boundServerId := rfl
  approvedAt := rfl
  offlineCount := rfl
  alerts := rfl
  online := rfl
  approval := by
    rintro (h | h) <;> simp [Store.refresh, h]
  osVersion := fun h => if_neg fun hnew => h hnew.2
  kernel := fun h => if_neg fun hnew => h hnew.2

/-- `Discover` changes no field that is administered. -/
theorem discover_allowed (st : Store) {a : Agent} (ha : a.approval = .unset) (now : Time)
    (id : Id) : Allowed (st.agents id) ((st.discover a now).agents id) := by
  by_cases hid : id = a.agentId
  · subst hid
    cases hold : st.agents a.agentId with
    | none =>
      rw [Store.discover_agents_none st now hold]
      exact .create (if_pos ha) rfl
    | some old =>
      rw [Store.discover_agents_some st now hold]
      split
      · exact .keep _
      · rename_i honline
        exact .refresh (by simpa using honline) (refresh_sameAdministered old a now)
  · rw [Store.discover_agents_of_ne st id now hid]
    exact .keep _

theorem discover_rest (st : Store) (a : Agent) (now : Time) :
    (st.discover a now).series = st.series ∧ (st.discover a now).logs = st.logs ∧
    (st.discover a now).uninstallReq = st.uninstallReq ∧
    (st.discover a now).tombstones = st.tombstones := by
  unfold Store.discover
  split
  · split <;> exact ⟨rfl, rfl, rfl, rfl⟩
  · exact ⟨rfl, rfl, rfl, rfl⟩

theorem handleBeacon_cases (srv : Identity) (st : Store) (now : Time) (ip : String)
    (d : DiscoverPayload) :
    handleBeacon srv st now ip d = st ∨
      ∃ ip', handleBeacon srv st now ip d = st.discover (discoverAgent
        { d with agentId := orDefault d.agentId d.hostname, ip := ip' }) now := by
  simp only [handleBeacon, beacon]
  split
  · exact .inl rfl
  · by_cases htomb : st.isTombstoned (orDefault d.agentId d.hostname) = true
    · exact .inl (by simp only [Task.move, if_pos htomb])
    · exact .inr ⟨_, by simp only [Task.move, if_neg htomb]; rfl⟩

/-- What holds of the store after a packet of the host `claimed?`. -/
structure Spares (claimed? : Option Id) (st st' : Store) : Prop where
  others : ∀ id, claimed? ≠ some id → st'.agents id = st.agents id
  record : ∀ id, Allowed (st.agents id) (st'.agents id)
  rest : st'.series = st.series ∧ st'.logs = st.logs ∧ st'.uninstallReq = st.uninstallReq ∧
    st'.tombstones = st.tombstones

theorem Spares.refl (claimed? : Option Id) (st : Store) : Spares claimed? st st where
  others := fun _ _ => rfl
  record := fun _ => .keep _
  rest := ⟨rfl, rfl, rfl, rfl⟩

theorem handleBeacon_spares (srv : Identity) (st : Store) (now : Time) (ip : String)
    (d : DiscoverPayload) :
    Spares (some (orDefault d.agentId d.hostname)) st (handleBeacon srv st now ip d) := by
  obtain h | ⟨ip', h⟩ := handleBeacon_cases srv st now ip d
  · rw [h]
    exact .refl _ st
  · rw [h]
    refine ⟨?_, discover_allowed st rfl now, discover_rest st _ now⟩
    intro id hid
    exact Store.discover_agents_of_ne st id now fun heq => hid (congrArg some heq.symm)

theorem body_ok (pkt : Bytes) : ∃ b, body pkt = .ok b := by
  unfold body
  split
  · exact ⟨none, rfl⟩
  · rename_i hlen
    rw [slice_of_le (by omega) (by omega), slice_of_le (by omega) (by omega)]
    simp only [ok_bind]
    split
    · exact ⟨none, rfl⟩
    · split
      · exact ⟨none, rfl⟩
      · rename_i hn
        rw [slice_of_le (by omega) (by omega)]
        exact ⟨_, rfl⟩

/-- No packet makes the handler index outside its bytes, and of the store it changes at most the
record of the host it names, if that is offline, in the fields that nobody administers. -/
theorem packets_keep_administered (u : Unmarshal) (srv : Identity) (resp : Bytes) (st : Store)
    (now : Time) (ip : String) (pkt : Bytes) :
    ∃ st' reply, handlePacket u srv resp st now ip pkt = .ok (st', reply) ∧
      Spares (claimed u pkt) st st' := by
  obtain ⟨b, hb⟩ := body_ok pkt
  simp only [handlePacket, claimed, hb, ok_bind]
  cases b with
  | none => exact ⟨st, none, rfl, .refl _ st⟩
  | some body =>
    dsimp only
    split
    · exact ⟨st, _, rfl, .refl _ st⟩
    · cases u.payload body with
      | none => exact ⟨st, none, rfl, .refl _ st⟩
      | some d => exact ⟨_, none, rfl, handleBeacon_spares srv st now ip d⟩

end CtForge.Server.Discovery
