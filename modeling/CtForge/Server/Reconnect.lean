import CtForge.Server.AgentConn

/-!
# What a host that comes back leaves of its record (`Register`)

`Register` replaces the whole record of a host and copies selected fields of the old
one back. It has two callers: `Handle` fills the new record from a `register` payload,
`handleHandshake` from a `handshake_req` payload and the record it read before.
-/

namespace CtForge.Server

/-! ## The callers -/

/-- What leads to `Register`; a handshake has read a record and an approval before. -/
inductive Registrant where
  | register (reg : RegisterPayload)
  | handshake (req : HandshakeReqPayload) (existing : Option Agent) (state : Approval)

structure SystemInfo where
  osVersion : String := ""
  kernel : String := ""
  diskTotalKB : Nat := 0
  diskUsedKB : Nat := 0
  diskPercent : ℚ := 0
  deriving DecidableEq

def Agent.systemInfo (a : Agent) : SystemInfo :=
  ⟨a.osVersion, a.kernel, a.diskTotalKB, a.diskUsedKB, a.diskPercent⟩

namespace Registrant

def agentId : Registrant → Id
  | register reg => reg.agentId
  | handshake req _ _ => req.agentId

/-- The record that is passed to `Register`. -/
def agent (srv : Identity) : Registrant → Agent
  | register reg => registerAgent reg
  | handshake req existing state => handshakeAgent srv req existing state

def task : Registrant → Task
  | register reg => .regRegister reg
  | handshake req existing state => .hsRegister req existing state

def supplied : Registrant → SystemInfo
  | register _ => {}
  | handshake req _ _ =>
    ⟨req.osVersion, req.kernel, req.diskTotalKB, req.diskUsedKB, req.diskPercent⟩

/-- The call of `Register`. -/
def call (srv : Identity) (st : Store) (now : Time) (c : Registrant) : Store :=
  if st.isTombstoned c.agentId then st else (c.task.move srv st now).store

variable (srv : Identity) (c : Registrant)

theorem agent_agentId : (c.agent srv).agentId = c.agentId := by
  cases c with
  | register reg => rfl
  | handshake req existing state => exact handshakeAgent_agentId srv req existing state

theorem agent_remark : (c.agent srv).remark = "" := by
  cases c with
  | register reg => rfl
  | handshake req existing state => cases existing <;> cases state <;> rfl

theorem agent_systemInfo : (c.agent srv).systemInfo = c.supplied := by
  cases c with
  | register reg => rfl
  | handshake req existing state => cases existing <;> cases state <;> rfl

theorem afterRegister_store (st : Store) (id : Id) (state : Approval) :
    (afterRegister srv st id state).store = st := by
  cases state <;> rfl

theorem task_store (st : Store) (now : Time) :
    (c.task.move srv st now).store = st.register (c.agent srv) now := by
  cases c with
  | register reg => rfl
  | handshake req existing state => exact afterRegister_store srv _ req.agentId state

theorem call_agents {st : Store} {now : Time} (h : st.isTombstoned c.agentId = false) :
    (c.call srv st now).agents c.agentId =
      some (Store.registered (st.agents c.agentId) (c.agent srv) now) := by
  rw [call, if_neg (by simp [h]), task_store, Store.register_agents, agent_agentId, if_pos rfl]

end Registrant

/-! ## What is kept -/

structure Owned where
  approval : Approval
  remark : String
  boundServerId : String
  approvedAt : Int
  offlineCount : Nat
  deriving DecidableEq

def Agent.owned (a : Agent) : Owned :=
  ⟨a.approval, a.remark, a.boundServerId, a.approvedAt, a.offlineCount⟩

namespace SystemInfo

/-- Every field that `given` does not supply is the same in `old` and `new`. -/
def Kept (given old new : SystemInfo) : Prop :=
  (given.osVersion = "" → new.osVersion = old.osVersion) ∧
  (given.kernel = "" → new.kernel = old.kernel) ∧
  (given.diskTotalKB = 0 → new.diskTotalKB = old.diskTotalKB) ∧
  (given.diskUsedKB = 0 → new.diskUsedKB = old.diskUsedKB) ∧
  (given.diskPercent = 0 → new.diskPercent = old.diskPercent)

instance (given old new : SystemInfo) : Decidable (Kept given old new) :=
  inferInstanceAs (Decidable (_ ∧ _ ∧ _ ∧ _ ∧ _))

/-- `given` supplies every field that `old` has. -/
def Covers (given old : SystemInfo) : Prop :=
  (given.osVersion = "" → old.osVersion = "") ∧
  (given.kernel = "" → old.kernel = "") ∧
  (given.diskTotalKB = 0 → old.diskTotalKB = 0) ∧
  (given.diskUsedKB = 0 → old.diskUsedKB = 0) ∧
  (given.diskPercent = 0 → old.diskPercent = 0)

theorem kept_self (given old : SystemInfo) : Kept given old old :=
  ⟨fun _ => rfl, fun _ => rfl, fun _ => rfl, fun _ => rfl, fun _ => rfl⟩

theorem kept_given_iff (given old : SystemInfo) : Kept given old given ↔ given.Covers old := by
  have hfield : ∀ {α : Type} (g o zero : α), (g = zero → g = o) ↔ (g = zero → o = zero) := by
    intro α g o zero
    constructor
    · intro h hg
      rw [← h hg, hg]
    · intro h hg
      rw [h hg, hg]
  exact and_congr (hfield ..) (and_congr (hfield ..) (and_congr (hfield ..)
    (and_congr (hfield ..) (hfield ..))))

end SystemInfo

/-- The old record and the new one agree on what an administrator owns and on the system
information that the payload does not supply. -/
def Preserves (c : Registrant) (old new : Agent) : Prop :=
  new.owned = old.owned ∧ c.supplied.Kept old.systemInfo new.systemInfo

instance (c : Registrant) (old new : Agent) : Decidable (Preserves c old new) :=
  inferInstanceAs (Decidable (_ ∧ _))

theorem registered_owned (old a : Agent) (now : Time) :
    (Store.registered (some old) a now).owned = { old.owned with remark := a.remark } := by
  simp only [Store.registered, Store.keepStable]
  split <;> rfl

theorem registered_systemInfo (old a : Agent) (now : Time) :
    (Store.registered (some old) a now).systemInfo =
      if old.osVersion ≠ "" ∧ a.osVersion = "" then old.systemInfo else a.systemInfo := by
  simp only [Store.registered, Store.keepStable]
  split <;> rfl

theorem registered_owned_iff (srv : Identity) (c : Registrant) (old : Agent) (now : Time) :
    (Store.registered (some old) (c.agent srv) now).owned = old.owned ↔ old.remark = "" := by
  rw [registered_owned, c.agent_remark]
  constructor
  · intro h
    exact (congrArg Owned.remark h).symm
  · intro h
    simp only [Agent.owned, h]

/-- What `Register` keeps of the system information. -/
theorem registered_kept_iff (srv : Identity) (c : Registrant) (old : Agent) (now : Time) :
    c.supplied.Kept old.systemInfo
        (Store.registered (some old) (c.agent srv) now).systemInfo ↔
      old.osVersion ≠ "" ∧ c.supplied.osVersion = "" ∨ c.supplied.Covers old.systemInfo := by
  have hos : (c.agent srv).osVersion = c.supplied.osVersion :=
    congrArg SystemInfo.osVersion (c.agent_systemInfo srv)
  rw [registered_systemInfo, hos, c.agent_systemInfo]
  split
  · rename_i hkeep
    exact iff_of_true (SystemInfo.kept_self ..) (.inl hkeep)
  · rename_i hreplace
    rw [SystemInfo.kept_given_iff, or_iff_right hreplace]

/-- What an administrator owns and the system information that the payload does not supply are
kept exactly if the host has no remark and its record had an OS version that the payload does
not give, or nothing the payload leaves out; a removed host is left alone. -/
theorem reconnect_preserves_iff (srv : Identity) (st : Store) (c : Registrant) (old : Agent)
    (now : Time) (h : st.agents c.agentId = some old) :
    ∃ new, (c.call srv st now).agents c.agentId = some new ∧
      (Preserves c old new ↔
        st.isTombstoned c.agentId = true ∨
        old.remark = "" ∧ (old.osVersion ≠ "" ∧ c.supplied.osVersion = "" ∨
          c.supplied.Covers old.systemInfo)) := by
  cases htomb : st.isTombstoned c.agentId with
  | true =>
    refine ⟨old, ?_, iff_of_true ⟨rfl, SystemInfo.kept_self ..⟩ (.inl rfl)⟩
    rw [Registrant.call, if_pos htomb, h]
  | false =>
    refine ⟨_, c.call_agents srv htomb, ?_⟩
    rw [h, Preserves, registered_owned_iff, registered_kept_iff]
    simp

/-! ## What gets lost -/

def namedHost : Agent where
  agentId := "h"
  remark := "database"
  approval := .approved
  osVersion := "22.03"
  kernel := "5.10"

def namedStore : Store := { Store.new [] with agents := fun _ => some namedHost }

def anyServer : Identity := { token := "", serverId := "s" }

def plainHost : Agent := { namedHost with remark := "" }

theorem reconnect_preserves_plain :
    ∃ new, ((Registrant.register { agentId := "h" }).call anyServer
        { Store.new [] with agents := fun _ => some plainHost } 0).agents "h" = some new ∧
      Preserves (.register { agentId := "h" }) plainHost new ∧ new.kernel = "5.10" := by
  obtain ⟨new, hnew, hiff⟩ := reconnect_preserves_iff anyServer
    { Store.new [] with agents := fun _ => some plainHost } (.register { agentId := "h" })
    plainHost 0 rfl
  refine ⟨new, hnew, hiff.mpr (.inr ⟨rfl, .inl ⟨by decide, rfl⟩⟩), ?_⟩
  rw [← Option.some.inj hnew]
  rfl

/-- A host that loses its remark, and its kernel. -/
theorem reconnect_drops_fields :
    (∃ new, ((Registrant.register { agentId := "h" }).call anyServer namedStore 0).agents "h" =
        some new ∧ new.remark = "" ∧ ¬ Preserves (.register { agentId := "h" }) namedHost new) ∧
    ∃ new, ((Registrant.handshake { agentId := "h", osVersion := "22.03" } (some namedHost)
          .approved).call anyServer namedStore 0).agents "h" = some new ∧ new.kernel = "" ∧
        ¬ (SystemInfo.mk "22.03" "" 0 0 0).Kept namedHost.systemInfo new.systemInfo := by
  exact ⟨⟨_, rfl, rfl, by decide⟩, _, rfl, rfl, by decide⟩

end CtForge.Server
