import CtForge.Server.Console

/-!
# The machines of a grant

A grant lists the machines it is for, by name, by group or all of them. Only a
handler that asks `hasPerm` about the agent it is going to speak to looks at them:
the upgrade, the removal and the analysis of a host. The others ask for a role, the
forwards for a permission on no machine in particular, and the terminals for nothing.
-/

namespace CtForge.Server

open List Option

def MsgType.changesState : MsgType → Bool
  | .cmdExec | .fileWrite | .fileDelete | .fileRename | .fileMkdir => true
  | .terminalOpen | .terminalInput | .terminalClose | .pfOpen => true
  | .upgrade | .uninstall | .dockerAction | .dockerCreate | .dockerCompose => true
  | .serviceAction | .pkgUpgrade => true
  | _ => false

/-! ## Endpoints -/

/-- The check, without a look at whether `a` is one of the machines. -/
def Check.holdsIgnoring (a : Id) (env : Env) : Check → Bool
  | .perm p agent =>
    hasPerm env.perms env.auth env.session.username p (if agent = a then "" else agent) env.now
  | check => check.holds env

/-- The check looks at whether `a` is one of the machines. -/
def Check.looksAt (a : Id) : Check → Bool
  | .perm _ agent => agent == a && a != ""
  | _ => false

/-- The request asks for a state-changing command on `a`, and no check but the one
of the machines refuses it. -/
def Endpoint.Asks (env : Env) (a : Id) (ep : Endpoint) : Prop :=
  ep.agent = a ∧ ep.via.isSome = true ∧ (∃ type ∈ ep.sends, type.changesState = true) ∧
    ∀ g ∈ ep.guards, g.check.holdsIgnoring a env = true

def Endpoint.LooksAt (a : Id) (ep : Endpoint) : Prop :=
  ∃ g ∈ ep.guards, g.check.looksAt a = true

section Endpoints

variable {env : Env} {pm : PermManager} {g : Grant} {a : Id}

theorem holdsIgnoring_of_not_looksAt {check : Check} (h : check.looksAt a = false) :
    check.holdsIgnoring a env = check.holds env := by
  cases check with
  | perm p agent =>
    simp only [Check.holdsIgnoring, Check.holds]
    split
    · rename_i heq
      have hempty : a = "" := by simpa [Check.looksAt, heq] using h
      rw [heq, hempty]
    · rfl
  | _ => rfl

theorem holdsIgnoring_of_no_permissions (hperms : env.perms = some pm)
    (hgrant : pm.grants env.session.username = some g) (hnone : g.permissions = [])
    (check : Check) : check.holdsIgnoring a env = check.holds env := by
  cases check with
  | perm p agent => simp [Check.holdsIgnoring, Check.holds, hasPerm, hperms, hgrant, hnone]
  | _ => rfl

theorem not_holds_of_looksAt (hperms : env.perms = some pm)
    (hgrant : pm.grants env.session.username = some g) (hsome : g.permissions ≠ [])
    (hout : pm.inScope g a = false) {check : Check} (h : check.looksAt a = true) :
    check.holds env = false := by
  cases check with
  | perm p agent =>
    obtain ⟨hagent, hne⟩ : agent = a ∧ a ≠ "" := by simpa [Check.looksAt] using h
    subst hagent
    simp [Check.holds, hasPerm, hperms, hgrant, hsome, PermManager.check, hout, hne]
  | _ => cases h

/-- An endpoint respects the scope exactly if it asks for no command, or looks at the machine. -/
theorem Endpoint.respects_iff (hperms : env.perms = some pm)
    (hgrant : pm.grants env.session.username = some g) (hout : pm.inScope g a = false)
    (ep : Endpoint) :
    (∀ m ∈ ep.sent env, m.agent = a → m.type.changesState = false) ↔
      (ep.Asks env a → ep.LooksAt a ∧ g.permissions ≠ []) := by
  constructor
  · rintro hrespects ⟨hagent, hvia, ⟨type, htype, hchanges⟩, hguards⟩
    by_contra hlacks
    have hholds : ∀ gd ∈ ep.guards, gd.check.holds env = true := by
      intro gd hgd
      by_cases hnone : g.permissions = []
      · rw [← holdsIgnoring_of_no_permissions hperms hgrant hnone]
        exact hguards gd hgd
      · have hlooks : gd.check.looksAt a = false := by
          exact Bool.eq_false_iff.mpr fun h => hlacks ⟨⟨gd, hgd, h⟩, hnone⟩
        rw [← holdsIgnoring_of_not_looksAt hlooks]
        exact hguards gd hgd
    obtain ⟨conn, hconn⟩ := isSome_iff_exists.mp hvia
    have hsent : ep.message conn type ∈ ep.sent env :=
      Endpoint.mem_sent.mpr ⟨hholds, conn, type, hconn, htype, rfl⟩
    have hquiet := hrespects _ hsent hagent
    rw [show (ep.message conn type).type = type from rfl, hchanges] at hquiet
    cases hquiet
  · intro hasks m hm hagent
    obtain ⟨hguards, conn, type, hvia, htype, rfl⟩ := Endpoint.mem_sent.mp hm
    by_contra hchanges
    have hno : ¬ (ep.LooksAt a ∧ g.permissions ≠ []) := by
      rintro ⟨⟨gd, hgd, hlooks⟩, hsome⟩
      have hfails := not_holds_of_looksAt hperms hgrant hsome hout hlooks
      rw [hguards gd hgd] at hfails
      cases hfails
    refine hno (hasks ⟨hagent, by simp [hvia],
      ⟨type, htype, (Bool.not_eq_false _).mp hchanges⟩, ?_⟩)
    intro gd hgd
    by_cases hnone : g.permissions = []
    · rw [holdsIgnoring_of_no_permissions hperms hgrant hnone]
      exact hguards gd hgd
    · have hlooks : gd.check.looksAt a = false := by
        exact Bool.eq_false_iff.mpr fun h => hno ⟨⟨gd, hgd, h⟩, hnone⟩
      rw [holdsIgnoring_of_not_looksAt hlooks]
      exact hguards gd hgd

end Endpoints

/-! ## Terminals -/

def TermRegistry.keeps (reg : TermRegistry) (sock : Socket) : Bool :=
  (reg.objs[sock.obj]?).any fun ts => ts.state.suspended && !ts.state.closed

def Frame.speaks (kept : Bool) : Frame → Bool
  | .control c => c.type == "close"
  | .input _ taken => taken || !kept

def Commands (b : Id) (sent : List Sent) : Prop :=
  ∀ m ∈ sent, m.agent = b ∧ m.type.changesState = true

theorem Commands.nil (b : Id) : Commands b [] := by
  intro m hm
  cases hm

theorem Commands.singleton {m : Sent} (h : m.type.changesState = true) : Commands m.agent [m] := by
  intro m' hm
  obtain rfl := mem_singleton.mp hm
  exact ⟨rfl, h⟩

theorem Commands.append {b : Id} {xs ys : List Sent} (hx : Commands b xs) (hy : Commands b ys) :
    Commands b (xs ++ ys) := by
  intro m hm
  exact (mem_append.mp hm).elim (hx m) (hy m)

/-- Commands to one agent respect a scope exactly if it is another agent, or there are none. -/
theorem Commands.respects_iff {a b : Id} {sent : List Sent} (h : Commands b sent) :
    (∀ m ∈ sent, m.agent = a → m.type.changesState = false) ↔ ¬ (b = a ∧ sent ≠ []) := by
  constructor
  · rintro hrespects ⟨rfl, hsome⟩
    obtain ⟨m, hm⟩ := exists_mem_of_ne_nil sent hsome
    have hquiet := hrespects m hm (h m hm).1
    rw [(h m hm).2] at hquiet
    cases hquiet
  · intro hno m hm hagent
    exact absurd ⟨(h m hm).1.symm.trans hagent, ne_nil_of_mem hm⟩ hno

theorem detach_sent (reg : TermRegistry) (sock : Socket) :
    (reg.detach sock).2 = if reg.keeps sock then [] else [sock.message .terminalClose] := by
  unfold TermRegistry.detach TermRegistry.keeps
  dsimp only
  split <;> rfl

theorem detach_commands (reg : TermRegistry) (sock : Socket) :
    Commands sock.agentId (reg.detach sock).2 := by
  rw [detach_sent]
  split
  · exact .nil _
  · exact .singleton rfl

section Deeds

variable {bc : Bcrypt} {fold : Char → Char} {c : Console}

theorem socketFrame_control (sock : Socket) (ctl : Control) :
    (c.socketFrame sock (.control ctl)).sent =
      if ctl.type = "close" then
        sock.message .terminalClose :: ((c.terms.remove sock.sid).detach sock).2
      else [] := by
  simp only [Console.socketFrame, TermRegistry.onFrame]
  by_cases hresize : ctl.type = "resize"
  · simp [hresize]
  · by_cases hclose : ctl.type = "close"
    · simp [hclose, Console.endSocket]
    · by_cases hsuspend : ctl.type = "suspend"
      · simp [hsuspend]
      · simp [hresize, hclose, hsuspend]

theorem socketFrame_commands (sock : Socket) (f : Frame) :
    Commands sock.agentId (c.socketFrame sock f).sent := by
  cases f with
  | control ctl =>
    rw [socketFrame_control]
    split
    · exact .append (.singleton rfl) (detach_commands _ _)
    · exact .nil _
  | input data taken =>
    cases taken with
    | true => exact .singleton rfl
    | false => exact detach_commands c.terms sock

theorem socketFrame_sent_iff (sock : Socket) (f : Frame) :
    (c.socketFrame sock f).sent ≠ [] ↔ f.speaks (c.terms.keeps sock) = true := by
  cases f with
  | control ctl =>
    rw [socketFrame_control]
    split <;> simp_all [Frame.speaks]
  | input data taken =>
    cases taken with
    | true => simp [Console.socketFrame, TermRegistry.onFrame, Frame.speaks]
    | false =>
      simp [Console.socketFrame, TermRegistry.onFrame, Frame.speaks, Console.endSocket, detach_sent]

/-- What a web terminal sends when it is opened. -/
theorem openSocket_sent (s : AuthSession) (q : WsRequest) :
    Commands q.agentId (c.openSocket s q).sent ∧
      ((c.openSocket s q).sent ≠ [] ↔ q.existing c.terms = none ∧ q.agentId ≠ "" ∧
        (c.agents q.agentId).isSome = true ∧ q.opened = true) := by
  have hsent : (c.openSocket s q).sent = (terminalWS c.agents c.terms s.username q).sent := by
    unfold Console.openSocket
    dsimp only
    split <;> rfl
  rw [hsent]
  unfold terminalWS
  split
  · rename_i r ts hold
    exact ⟨.nil _, by simp [hold]⟩
  · rename_i hnew
    split
    · rename_i hid
      exact ⟨.nil _, by simp [hid]⟩
    · rename_i hid
      split
      · rename_i hoff
        exact ⟨.nil _, by simp [hoff]⟩
      · rename_i conn hon
        split
        · rename_i hopened
          exact ⟨.singleton rfl, by simp [hnew, hid, hon, hopened]⟩
        · rename_i hopened
          exact ⟨.nil _, by simp [hopened]⟩

theorem handleTerminalByID_sent {reg : TermRegistry} {rest : String} :
    (∀ terms sent, handleTerminalByID reg rest = some (terms, sent) →
      ∃ ts, reg.session (terminalId rest) = some ts ∧ Commands ts.agentId sent ∧ sent ≠ []) ∧
    (handleTerminalByID reg rest = none → reg.session (terminalId rest) = none) := by
  unfold handleTerminalByID TermRegistry.session
  cases hget : reg.get (terminalId rest) with
  | none => simp
  | some r =>
    obtain ⟨ts, hts, -⟩ := reg.named _ r hget
    simp only [bind_some, hts, map_some]
    constructor
    · intro terms sent h
      obtain ⟨-, rfl⟩ := Prod.mk.inj (some.inj h)
      exact ⟨ts, rfl, .singleton rfl, by simp⟩
    · intro h
      cases h

theorem connectAgent_sent (k : Nat) (sh : Shell) (target : Id) (suspend : Bool) (remark : String)
    (opened : Bool) (now : Time) :
    Commands target (c.connectAgent k sh target suspend remark opened now).sent ∧
      ((c.connectAgent k sh target suspend remark opened now).sent ≠ [] ↔
        (c.agents target).isSome = true ∧ opened = true) := by
  unfold Console.connectAgent
  split
  · rename_i hoff
    exact ⟨.nil _, by simp [hoff]⟩
  · rename_i conn hon
    dsimp only
    split
    · rename_i hopened
      split
      · exact ⟨.singleton rfl, by simp [hon, hopened]⟩
      · exact ⟨.singleton rfl, by simp [hon, hopened]⟩
    · rename_i hopened
      exact ⟨.nil _, by simp [hopened]⟩

theorem resumeToAgent_sent (k : Nat) (sh : Shell) (target remark : String)
    (hasChannel opened : Bool) {ts : TermSession}
    (hts : resumable fold c.terms sh.user target = some ts) :
    Commands ts.agentId (c.resumeToAgent fold k sh target remark hasChannel opened).sent ∧
      ((c.resumeToAgent fold k sh target remark hasChannel opened).sent ≠ [] ↔
        (c.agents ts.agentId).isSome = true ∧ hasChannel = false ∧ opened = true) := by
  simp only [Console.resumeToAgent, hts]
  split
  · rename_i hoff
    exact ⟨.nil _, by simp [hoff]⟩
  · rename_i conn hon
    split
    · rename_i hchannel
      exact ⟨.nil _, by simp [hchannel]⟩
    · rename_i hchannel
      split
      · rename_i hopened
        exact ⟨.singleton rfl, by simp [hon, hchannel, hopened]⟩
      · rename_i hopened
        exact ⟨.nil _, by simp [hopened]⟩

theorem endShell_sent (k : Nat) (sh : Shell) (conn : Tid) (disconnected : Bool) (now : Time) :
    Commands sh.agentId (c.endShell k sh conn disconnected now).sent ∧
      ((c.endShell k sh conn disconnected now).sent ≠ [] ↔
        sh.resumed = false ∧ disconnected = false ∧ sh.wantSuspend = false) := by
  unfold Console.endShell
  dsimp only
  split
  · rename_i hresumed
    exact ⟨.nil _, by simp [hresumed]⟩
  · rename_i hresumed
    split
    · rename_i hkept
      refine ⟨.nil _, ?_⟩
      cases hd : disconnected <;> simp_all
    · rename_i hkept
      exact ⟨.singleton rfl, by simp_all⟩

end Deeds

/-! ## Deeds -/

namespace Console

/-- The deed asks for a state-changing command on `a`, and no check but one of the
machines refuses it. -/
def Asks (fold : Char → Char) (c : Console) (a : Id) : Deed → Prop
  | .http token r now => ∃ s, c.auth.verify token now = some s ∧
      (route (c.env s now) r).Asks (c.env s now) a
  | .closeTerminal token rest now => (c.auth.verify token now).isSome = true ∧
      ∃ ts, c.terms.session (terminalId rest) = some ts ∧ ts.agentId = a
  | .wsOpen token q => (c.auth.verify token q.now).isSome = true ∧ c.sockets q.ws = none ∧
      q.agentId = a ∧ q.existing c.terms = none ∧ q.agentId ≠ "" ∧
      (c.agents q.agentId).isSome = true ∧ q.opened = true
  | .wsFrame ws f => ∃ sock, c.sockets ws = some sock ∧ sock.agentId = a ∧
      f.speaks (c.terms.keeps sock) = true
  | .wsEnd ws => ∃ sock, c.sockets ws = some sock ∧ sock.agentId = a ∧ c.terms.keeps sock = false
  | .sshConnect k target _ _ opened _ => ∃ sh, c.shells k = some sh ∧ sh.conn = none ∧
      target ∈ c.hosts ∧ target = a ∧ (c.agents target).isSome = true ∧ opened = true
  | .sshResume k target _ hasChannel opened => ∃ sh ts, c.shells k = some sh ∧ sh.conn = none ∧
      resumable fold c.terms sh.user target = some ts ∧ ts.agentId = a ∧
      (c.agents ts.agentId).isSome = true ∧ hasChannel = false ∧ opened = true
  | .sshDelete k target => ∃ sh ts, c.shells k = some sh ∧ sh.conn = none ∧
      deletable c.terms sh.user target = some ts ∧ ts.agentId = a ∧
      (c.agents ts.agentId).isSome = true
  | .sshInput k => ∃ sh, c.shells k = some sh ∧ sh.agentId = a ∧ sh.conn.isSome = true
  | .sshEnd k disconnected _ => ∃ sh, c.shells k = some sh ∧ sh.conn.isSome = true ∧
      sh.agentId = a ∧ sh.resumed = false ∧ disconnected = false ∧ sh.wantSuspend = false
  | _ => False

/-- The handler of the deed looks at whether `a` is one of the machines. -/
def LooksAt (c : Console) (a : Id) : Deed → Prop
  | .http token r now => ∃ s, c.auth.verify token now = some s ∧
      (route (c.env s now) r).LooksAt a
  | _ => False

variable {bc : Bcrypt} {fold : Char → Char} {c : Console} {a : Id}

/-- What the deed sends changes nothing on `a`. -/
def Respects (bc : Bcrypt) (fold : Char → Char) (c : Console) (a : Id) (d : Deed) : Prop :=
  ∀ m ∈ (c.handle bc fold d).sent, m.agent = a → m.type.changesState = false

theorem respects_of_sent_nil {d : Deed} (h : (c.handle bc fold d).sent = []) :
    c.Respects bc fold a d := by
  intro m hm
  rw [h] at hm
  cases hm

theorem closeTerminal_respects_iff (token rest : String) (now : Time) :
    c.Respects bc fold a (.closeTerminal token rest now) ↔
      ¬ c.Asks fold a (.closeTerminal token rest now) := by
  unfold Respects
  simp only [handle, withSession, Asks]
  cases hs : c.auth.verify token now with
  | none => simp
  | some s =>
    cases hclose : handleTerminalByID c.terms rest with
    | none => simp [handleTerminalByID_sent.2 hclose]
    | some res =>
      obtain ⟨terms, sent⟩ := res
      obtain ⟨ts, hts, hcmd, hsome⟩ := handleTerminalByID_sent.1 terms sent hclose
      refine hcmd.respects_iff.trans (not_congr ?_)
      simp [hts, hsome]

theorem wsOpen_respects_iff (token : String) (q : WsRequest) :
    c.Respects bc fold a (.wsOpen token q) ↔ ¬ c.Asks fold a (.wsOpen token q) := by
  unfold Respects
  simp only [handle, withSession, Asks]
  cases hsock : c.sockets q.ws with
  | some sock => simp
  | none =>
    cases hs : c.auth.verify token q.now with
    | none => simp
    | some s =>
      obtain ⟨hcmd, hsome⟩ := openSocket_sent s q (c := c)
      refine hcmd.respects_iff.trans (not_congr ?_)
      simp [hsome]

theorem wsFrame_respects_iff (ws : Nat) (f : Frame) :
    c.Respects bc fold a (.wsFrame ws f) ↔ ¬ c.Asks fold a (.wsFrame ws f) := by
  unfold Respects
  simp only [handle, Asks]
  cases hsock : c.sockets ws with
  | none => simp
  | some sock =>
    refine (socketFrame_commands sock f).respects_iff.trans (not_congr ?_)
    simp [socketFrame_sent_iff]

theorem wsEnd_respects_iff (ws : Nat) :
    c.Respects bc fold a (.wsEnd ws) ↔ ¬ c.Asks fold a (.wsEnd ws) := by
  unfold Respects
  simp only [handle, Asks]
  cases hsock : c.sockets ws with
  | none => simp
  | some sock =>
    refine (detach_commands c.terms sock).respects_iff.trans (not_congr ?_)
    simp [detach_sent]

theorem sshConnect_respects_iff (k : Nat) (target : Id) (suspend : Bool) (remark : String)
    (opened : Bool) (now : Time) :
    c.Respects bc fold a (.sshConnect k target suspend remark opened now) ↔
      ¬ c.Asks fold a (.sshConnect k target suspend remark opened now) := by
  unfold Respects
  simp only [handle, Asks]
  cases hsh : c.shells k with
  | none => simp
  | some sh =>
    by_cases hfree : sh.conn = none ∧ target ∈ c.hosts
    · obtain ⟨hcmd, hsome⟩ := connectAgent_sent k sh target suspend remark opened now (c := c)
      simp only [if_pos hfree]
      refine hcmd.respects_iff.trans (not_congr ?_)
      simp [hsome, hfree]
    · simp only [if_neg hfree]
      simp
      tauto

theorem sshResume_respects_iff (k : Nat) (target remark : String) (hasChannel opened : Bool) :
    c.Respects bc fold a (.sshResume k target remark hasChannel opened) ↔
      ¬ c.Asks fold a (.sshResume k target remark hasChannel opened) := by
  unfold Respects
  simp only [handle, Asks]
  cases hsh : c.shells k with
  | none => simp
  | some sh =>
    by_cases hfree : sh.conn = none
    · simp only [if_pos hfree]
      cases hts : resumable fold c.terms sh.user target with
      | none => simp [resumeToAgent, hts]
      | some ts =>
        obtain ⟨hcmd, hsome⟩ := resumeToAgent_sent k sh target remark hasChannel opened hts
        refine hcmd.respects_iff.trans (not_congr ?_)
        simp [hsome, hfree, hts]
    · simp [hfree]

theorem sshDelete_respects_iff (k : Nat) (target : String) :
    c.Respects bc fold a (.sshDelete k target) ↔ ¬ c.Asks fold a (.sshDelete k target) := by
  unfold Respects
  simp only [handle, Asks]
  cases hsh : c.shells k with
  | none => simp
  | some sh =>
    by_cases hfree : sh.conn = none
    · simp only [if_pos hfree, deleteSuspended]
      cases hts : deletable c.terms sh.user target with
      | none => simp [hts]
      | some ts =>
        cases hon : c.agents ts.agentId with
        | none => simp [hon, hts]
        | some conn => simp [hon, hts, hfree, MsgType.changesState]
    · simp [hfree]

theorem sshInput_respects_iff (k : Nat) :
    c.Respects bc fold a (.sshInput k) ↔ ¬ c.Asks fold a (.sshInput k) := by
  unfold Respects
  simp only [handle, Asks]
  cases hsh : c.shells k with
  | none => simp
  | some sh =>
    cases hconn : sh.conn with
    | none => simp [hconn]
    | some conn => simp [hconn, Shell.message, MsgType.changesState]

theorem sshEnd_respects_iff (k : Nat) (disconnected : Bool) (now : Time) :
    c.Respects bc fold a (.sshEnd k disconnected now) ↔
      ¬ c.Asks fold a (.sshEnd k disconnected now) := by
  unfold Respects
  simp only [handle, Asks]
  cases hsh : c.shells k with
  | none => simp
  | some sh =>
    cases hconn : sh.conn with
    | none => simp [hconn]
    | some conn =>
      obtain ⟨hcmd, hsome⟩ := endShell_sent k sh conn disconnected now (c := c)
      simp only [hconn]
      refine hcmd.respects_iff.trans (not_congr ?_)
      simp [hsome, hconn]

end Console

/-- What a user does sends no state-changing command to an agent outside the machines of the
user's grant if and only if no check stands in for the scope and refuses it: it asks for no such
command, or its handler looks at the machines and the grant lists permissions. -/
theorem scope_is_respected_iff (bc : Bcrypt) (fold : Char → Char) (c : Console) (d : Deed) (a : Id)
    (pm : PermManager) (g : Grant) (hperms : c.perms = some pm)
    (hgrant : pm.grants (c.handle bc fold d).user = some g) (hout : pm.inScope g a = false) :
    (∀ m ∈ (c.handle bc fold d).sent, m.agent = a → m.type.changesState = false) ↔
      (c.Asks fold a d → c.LooksAt a d ∧ g.permissions ≠ []) := by
  have hunscoped (hlooks : ¬ c.LooksAt a d) (h : c.Respects bc fold a d ↔ ¬ c.Asks fold a d) :
      c.Respects bc fold a d ↔ (c.Asks fold a d → c.LooksAt a d ∧ g.permissions ≠ []) := by
    rw [h]
    exact ⟨fun hno hasks => absurd hasks hno, fun hboth hasks => hlooks (hboth hasks).1⟩
  have hsilent (hlooks : ¬ c.Asks fold a d) (h : (c.handle bc fold d).sent = []) :
      c.Respects bc fold a d ↔ (c.Asks fold a d → c.LooksAt a d ∧ g.permissions ≠ []) :=
    iff_of_true (Console.respects_of_sent_nil h) fun hasks => absurd hasks hlooks
  cases d with
  | http token r now =>
    simp only [Console.handle, Console.withSession] at hgrant ⊢
    cases hs : c.auth.verify token now with
    | none => simp [Console.Asks, hs]
    | some s =>
      rw [hs] at hgrant
      have hperms' : (c.env s now).perms = some pm := hperms
      have hiff := Endpoint.respects_iff hperms' hgrant hout (route (c.env s now) r)
      simpa [Console.Asks, Console.LooksAt, hs] using hiff
  | closeTerminal token rest now => exact hunscoped id (Console.closeTerminal_respects_iff ..)
  | wsOpen token q => exact hunscoped id (Console.wsOpen_respects_iff ..)
  | wsFrame ws f => exact hunscoped id (Console.wsFrame_respects_iff ..)
  | wsEnd ws => exact hunscoped id (Console.wsEnd_respects_iff ..)
  | sshConnect => exact hunscoped id (Console.sshConnect_respects_iff ..)
  | sshResume => exact hunscoped id (Console.sshResume_respects_iff ..)
  | sshDelete => exact hunscoped id (Console.sshDelete_respects_iff ..)
  | sshInput => exact hunscoped id (Console.sshInput_respects_iff ..)
  | sshEnd => exact hunscoped id (Console.sshEnd_respects_iff ..)
  | sshLogin k cred sid =>
    refine hsilent id ?_
    simp only [Console.handle]
    split <;> rfl
  | world => exact hsilent id rfl
  | _ => exact hsilent id (Console.handle_sent rfl)

/-! ## A grant for one machine -/

/-- A grant of two permissions on the host `b` alone. -/
def onlyB : Grant where
  username := "olga"
  permissions := [.upgrade, .portForward]
  scope := { agents := ["b"] }

def onlyBManager : PermManager where
  groups := ∅
  grants := fun username => if username = "olga" then some onlyB else none

/-- The hosts `a` and `b` are connected, and the operator is logged in. -/
def branch : Console :=
  Runs.exec (Console.step plain id)
    (.start staff (some onlyBManager)
      (fun id => if id = "a" then some 1 else if id = "b" then some 2 else none) (Store.new [])
      ["a", "b"] false)
    [.login "olga" "olga-pw" "t" 0]

def postTo (path : String) : HttpRequest where
  method := .post
  path := path
  str := fun key => if key = "agent_id" then "a" else if key = "command" then "id" else ""
  int := fun _ => 2000

/-- The upgrade of a host outside the grant is refused; that of the host inside is not. -/
theorem upgrade_respects_scope :
    let deed (id : Id) : Deed := .http "t" (postTo ("/api/agents/" ++ id ++ "/upgrade")) 1
    (∀ m ∈ (branch.handle plain id (deed "a")).sent, m.agent = "a" → m.type.changesState = false) ∧
      (branch.handle plain id (deed "b")).sent.map Sent.type = [.upgrade] := by
  refine ⟨?_, by decide⟩
  refine (scope_is_respected_iff plain id branch _ "a" onlyBManager onlyB rfl ?_ ?_).mpr ?_
  · rfl
  · decide
  · rintro ⟨s, hs, hagent, -, -, -⟩
    refine ⟨⟨s, hs, ?_⟩, by decide⟩
    obtain rfl : s = ⟨"t", "olga", .operator, 0, 43200000000000⟩ :=
      some.inj (hs.symm.trans rfl)
    exact ⟨⟨.perm .upgrade "a", 403, 40300, "无远程升级权限"⟩, by decide, by decide⟩

/-- Commands, terminals and forwards reach an agent outside the grant. -/
theorem exec_ignores_scope :
    let terminal : WsRequest := { agentId := "a", ws := 0, newID := "s", now := 1 }
    branch.perms.map (fun pm => (pm.grants "olga").isSome) = some true ∧ onlyB.valid 1 = true ∧
      onlyBManager.inScope onlyB "a" = false ∧
      (branch.handle plain id (.http "t" (postTo "/api/agents/a/exec") 1)).sent =
        [{ conn := 1, agent := "a", type := .cmdExec }] ∧
      (branch.handle plain id (.http "t" (postTo "/api/portforwards") 1)).sent =
        [{ conn := 1, agent := "a", type := .pfOpen }] ∧
      (branch.handle plain id (.wsOpen "t" terminal)).sent =
        [{ conn := 1, agent := "a", type := .terminalOpen, session := "s" }] := by
  decide

end CtForge.Server
