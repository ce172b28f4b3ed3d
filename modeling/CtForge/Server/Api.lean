import CtForge.Server.Accounts
import CtForge.Server.Terminals

/-!
# The HTTP interface to the agents (`httpapi.go`, `ext.go`, `admin.go`, `ctforge.go`)

A handler makes its checks one after the other, answers with the first that fails,
and otherwise sends its messages over the connection of an agent. `Endpoint` is the
list of checks, in the order of the source and with their answers, and what is sent
after them. Every handler is the function from requests to endpoints under its own
name; `handleAgentByID` and `route` choose the handler.

What comes from outside is part of the request: whether the body decodes and the
fields it has then, and what the agent answers where a further message depends on
it. Handlers that reach no agent are one endpoint that sends nothing.
-/

namespace CtForge.Server

/-! ## Requests and checks -/

open List

inductive Method where
  | get | post | put | delete | other (name : String)
  deriving DecidableEq

structure HttpRequest where
  method : Method
  path : String
  query : String → String := fun _ => ""
  decodes : Bool := true
  str : String → String := fun _ => ""
  int : String → Int := fun _ => 0
  base64 : Bool := true
  answered : Bool := true
  listens : Bool := true
  chunks : Nat := 0

structure Env where
  session : AuthSession
  auth : AuthManager
  perms : Option PermManager
  agents : Id → Option Tid
  store : Store
  forwards : String → Option (Id × Tid)
  aiEnabled : Bool
  now : Time

inductive Check where
  | role (min : Role)
  /-- `hasPerm`; without a machine where the agent is empty. -/
  | perm (p : Perm) (agent : Id)
  | online (agent : Id)
  | that (holds : Bool)
  deriving DecidableEq

def Check.holds (env : Env) : Check → Bool
  | .role min => env.session.role.atLeast min
  | .perm p agent => hasPerm env.perms env.auth env.session.username p agent env.now
  | .online agent => (env.agents agent).isSome
  | .that holds => holds

structure Refusal where
  status : Nat
  code : Nat
  message : String
  deriving DecidableEq

structure Guard where
  check : Check
  refusal : Refusal
  deriving DecidableEq

structure Endpoint where
  guards : List Guard
  agent : Id := ""
  via : Option Tid := none
  sends : List MsgType := []

namespace Endpoint

def refused (env : Env) (ep : Endpoint) : Option Refusal :=
  (ep.guards.find? fun g => !g.check.holds env).map Guard.refusal

def message (ep : Endpoint) (conn : Tid) (type : MsgType) : Sent where
  conn := conn
  agent := ep.agent
  type := type

def sent (env : Env) (ep : Endpoint) : List Sent :=
  match ep.refused env, ep.via with
  | none, some conn => ep.sends.map (ep.message conn)
  | _, _ => []

end Endpoint

/-! ## The checks that handlers share -/

section Checks

variable (r : HttpRequest)

def methodIs (m : Method) : Guard :=
  ⟨.that (r.method == m), 405, 40500, "method not allowed"⟩

def methodNone : Guard := ⟨.that false, 405, 40500, "method not allowed"⟩

def notFound : Guard := ⟨.that false, 404, 40400, "not found"⟩

def operator : Guard := ⟨.role .operator, 403, 40300, "权限不足"⟩

def online (id : Id) : Guard := ⟨.online id, 502, 50201, "agent offline"⟩

def body (has : Bool) (message : String) : Guard :=
  ⟨.that (r.decodes && has), 400, 40001, message⟩

end Checks

def Env.endpoint (env : Env) (id : Id) (guards : List Guard) (sends : List MsgType) : Endpoint where
  guards := guards
  agent := id
  via := env.agents id
  sends := sends

def Env.report (env : Env) (r : HttpRequest) (id : Id) (type : MsgType) : Endpoint :=
  env.endpoint id [methodIs r .get, online id] [type]

/-! ## Handlers of one agent -/

section Handlers

variable (env : Env) (r : HttpRequest) (id : Id)

def handleHost : Endpoint :=
  match r.method with
  | .get => env.endpoint id [⟨.that (env.store.getAgent id).isSome, 404, 40401,
    "agent not found"⟩] []
  | .delete =>
    env.endpoint id
      [⟨.that (env.store.getAgent id).isSome, 404, 40401, "agent not found"⟩,
        ⟨.that ((env.store.getAgent id).all fun a => !a.online), 400, 40001,
          "在线主机不能删除，请先远程卸载或等待离线"⟩,
        operator] []
  | _ => env.endpoint id [methodNone] []

def handleMetrics : Endpoint := env.endpoint id [methodIs r .get] []

def handleLogs : Endpoint := env.endpoint id [methodIs r .get] []

def handleLogsAnalyze : Endpoint := env.endpoint id [methodIs r .get] []

def handleConfig : Endpoint :=
  match r.method with
  | .get => env.endpoint id [operator, online id] [.configGet]
  | .put | .post =>
    env.endpoint id [operator, online id,
      body r (r.str "key" != "") "invalid body: expect \x7bkey,value\x7d"] [.configSet]
  | _ => env.endpoint id [operator, online id, methodNone] []

/-- The action of a `POST` to `files`. -/
def fileAction (action : String) : Option MsgType :=
  if action = "mkdir" then some .fileMkdir
  else if action = "delete" then some .fileDelete
  else if action = "rename" then some .fileRename
  else none

def handleFiles : Endpoint :=
  match r.method with
  | .get =>
    env.endpoint id [operator, online id]
      (if r.query "download" = "1" then
        .fileRead :: (if r.answered then List.replicate r.chunks .fileRead else [])
      else [.fileList])
  | .put =>
    env.endpoint id [operator, online id,
      body r (r.str "path" != "") "invalid body: expect \x7bpath,content_base64\x7d",
      ⟨.that r.base64, 400, 40002, "content_base64 is not valid base64"⟩] [.fileWrite]
  | .post =>
    env.endpoint id [operator, online id, body r true "invalid body",
      ⟨.that (fileAction (r.str "action")).isSome, 400, 40003,
        "action must be mkdir|delete|rename"⟩] (fileAction (r.str "action")).toList
  | _ => env.endpoint id [operator, online id, methodNone] []

def handleFileEdit : Endpoint :=
  match r.method with
  | .get =>
    env.endpoint id [operator, online id,
      ⟨.that (r.query "path" != ""), 400, 40001, "missing path"⟩] [.fileRead]
  | .put =>
    env.endpoint id [operator, online id,
      body r (r.str "path" != "") "invalid body: expect \x7bpath,content\x7d",
      ⟨.that ((r.str "content").utf8ByteSize ≤ 8388608), 400, 40003,
        "content too large (max 8MB)"⟩] [.fileWrite]
  | _ => env.endpoint id [operator, online id, methodNone] []

def handleHardware : Endpoint := env.report r id .hardware

def handleDiskIo : Endpoint := env.report r id .diskIo

def handleAIAnalyze : Endpoint :=
  env.endpoint id [⟨.perm .ai id, 403, 40300, "无 AI 分析权限"⟩, methodIs r .post,
    ⟨.that env.aiEnabled, 400, 40010, "AI 分析未启用，请先在系统设置中配置 API Key"⟩,
    ⟨.that (env.store.getAgent id).isSome, 404, 40401, "agent not found"⟩, online id] [.hardware]

def handleRemoteUpgrade : Endpoint :=
  env.endpoint id [⟨.perm .upgrade id, 403, 40300, "无远程升级权限"⟩, methodIs r .post, online id]
    [.upgrade]

def handleRemoteUninstall : Endpoint :=
  env.endpoint id [⟨.perm .uninstall id, 403, 40300, "无远程卸载权限"⟩, methodIs r .post, online id]
    [.uninstall]

def handleChangeServerIP : Endpoint :=
  env.endpoint id [operator, methodIs r .post,
      body r (r.str "server_host" != "") "invalid body: expect \x7bserver_host,server_port\x7d",
      online id]
    (.configSet :: if r.answered && decide (0 < r.int "server_port") then [.configSet] else [])

def handleSetRemark : Endpoint :=
  env.endpoint id [operator, methodIs r .post, body r true "invalid body: expect \x7bremark\x7d",
    ⟨.that (env.store.getAgent id).isSome, 404, 40401, "agent not found"⟩] []

def handleReconnect : Endpoint := env.endpoint id [operator, online id] [.offline]

def handleDockerContainers : Endpoint := env.report r id .dockerList

def handleDockerImages : Endpoint := env.report r id .dockerImages

def handleDockerAction : Endpoint :=
  env.endpoint id [operator, methodIs r .post, online id,
    body r (r.str "container_id" != "" && r.str "action" != "") "invalid body"] [.dockerAction]

def handleDockerLogs : Endpoint := env.report r id .dockerLogs

def handleDockerInspect : Endpoint :=
  env.endpoint id [methodIs r .get, online id,
    ⟨.that (r.query "container_id" != ""), 400, 40001, "missing container_id"⟩] [.dockerInspect]

def handleDockerCreate : Endpoint :=
  env.endpoint id [operator, methodIs r .post, online id, body r true "invalid body",
    ⟨.that (r.str "image" != "" && r.str "name" != ""), 400, 40002, "需要 image 和 name"⟩]
    [.dockerCreate]

def handleDockerCompose : Endpoint :=
  env.endpoint id [operator, methodIs r .post, online id, body r true "invalid body",
    ⟨.that (r.str "action" != ""), 400, 40002, "需要 action"⟩] [.dockerCompose]

def handleServices : Endpoint :=
  match r.method with
  | .get => env.endpoint id [online id] [.serviceList]
  | .post =>
    env.endpoint id [online id, operator,
      body r (r.str "name" != "" && r.str "action" != "") "invalid body: expect \x7bname,action\x7d"]
      [.serviceAction]
  | _ => env.endpoint id [online id, methodNone] []

def handleSecurity : Endpoint := env.report r id .securityAudit

def handleSysLog : Endpoint := env.report r id .sysLog

def handleExec : Endpoint :=
  env.endpoint id [methodIs r .post, operator, online id,
    body r (r.str "command" != "") "invalid body: expect \x7bcommand\x7d"] [.cmdExec]

/-! ### Handlers with a part of the path below them -/

variable (sub : String)

def handleDocker : Endpoint :=
  if sub = "containers" then handleDockerContainers env r id
  else if sub = "images" then handleDockerImages env r id
  else if sub = "action" then handleDockerAction env r id
  else if sub = "logs" then handleDockerLogs env r id
  else if sub = "inspect" then handleDockerInspect env r id
  else if sub = "create" then handleDockerCreate env r id
  else if sub = "compose" then handleDockerCompose env r id
  else env.endpoint id [notFound] []

def handlePackages : Endpoint :=
  if sub = "updates" ∧ r.method = .get then env.endpoint id [online id] [.pkgUpdates]
  else if sub = "upgrade" ∧ r.method = .post then
    env.endpoint id [online id, operator, body r true "invalid body"] [.pkgUpgrade]
  else if sub = "history" ∧ r.method = .get then env.endpoint id [online id] [.pkgHistory]
  else env.endpoint id [online id, notFound] []

def handleSysUsers : Endpoint :=
  let admin : Guard := ⟨.role .admin, 403, 40300, "仅管理员可修改系统账户"⟩
  if r.method = .get then env.endpoint id [online id] [.sysUserList]
  else if sub = "passwd" then
    env.endpoint id [online id, methodIs r .post, admin,
      body r (r.str "username" != "" && r.str "new_password" != "")
        "invalid body: expect \x7busername,new_password\x7d",
      ⟨.that (6 ≤ (r.str "new_password").utf8ByteSize), 400, 40002, "密码至少 6 个字符"⟩]
      [.sysUserPasswd]
  else if sub = "lock" then
    env.endpoint id [online id, methodIs r .post, admin,
      body r (r.str "username" != "") "invalid body: expect \x7busername,lock\x7d"] [.sysUserLock]
  else env.endpoint id [online id, methodIs r .post, admin, notFound] []

def handleNet : Endpoint :=
  if sub = "traffic" then env.report r id .netTraffic
  else if sub = "conn" then env.report r id .netConn
  else env.endpoint id [methodIs r .get, online id, notFound] []

/-- The message of a `ctforge` subcommand, and whether it needs a module. -/
def ctforgeCommand (sub : String) : Option (MsgType × Bool) :=
  if sub = "lsmod" then some (.ctfLsmod, false)
  else if sub = "status" then some (.ctfStatus, false)
  else if sub = "insmod" then some (.ctfInsmod, true)
  else if sub = "rmmod" then some (.ctfRmmod, true)
  else if sub = "mod" then some (.ctfMod, true)
  else none

def handleCtforge : Endpoint :=
  match ctforgeCommand sub with
  | none =>
    env.endpoint id [operator, ⟨.that false, 404, 40400, "unknown ctforge subcommand: " ++ sub⟩] []
  | some (type, needModule) =>
    env.endpoint id [operator,
      ⟨.that (!needModule || r.str "module" != ""), 400, 40001, "module name required"⟩, online id]
      [type]

def handleCtforgeDeploy : Endpoint :=
  env.endpoint id [methodIs r .post, operator, online id] [.cmdExec]

end Handlers

/-! ## Routes -/

def splitPath (rest : String) : List String :=
  ((rest.toList.splitOnP (· == '/')).filter (!·.isEmpty)).map String.ofList

/-- What comes after the first occurrence of `key`, as the handlers cut a path. -/
def afterKey (key : List Char) : List Char → Option (List Char)
  | [] => if key = [] then some [] else none
  | c :: cs => if key.isPrefixOf (c :: cs) then some ((c :: cs).drop key.length) else afterKey key cs

def subPath (key path : String) : String :=
  String.ofList ((afterKey key.toList path.toList).getD [])

def afterStart (start path : String) : Option String :=
  if start.toList.isPrefixOf path.toList then
    some (String.ofList (path.toList.drop start.length))
  else none

def handleAgentByID (env : Env) (r : HttpRequest) (rest : String) : Endpoint :=
  match splitPath rest with
  | [] => env.endpoint "" [notFound] []
  | [id] => handleHost env r id
  | id :: key :: _ =>
    if key = "metrics" then handleMetrics env r id
    else if key = "logs" then handleLogs env r id
    else if key = "logs-analyze" then handleLogsAnalyze env r id
    else if key = "config" then handleConfig env r id
    else if key = "files" then handleFiles env r id
    else if key = "files-edit" then handleFileEdit env r id
    else if key = "hardware" then handleHardware env r id
    else if key = "disk-io" then handleDiskIo env r id
    else if key = "ai-analyze" then handleAIAnalyze env r id
    else if key = "upgrade" then handleRemoteUpgrade env r id
    else if key = "remote-uninstall" then handleRemoteUninstall env r id
    else if key = "server-ip" then handleChangeServerIP env r id
    else if key = "remark" then handleSetRemark env r id
    else if key = "reconnect" then handleReconnect env id
    else if key = "docker" then handleDocker env r id (subPath "/docker/" r.path)
    else if key = "services" then handleServices env r id
    else if key = "packages" then handlePackages env r id (subPath "/packages/" r.path)
    else if key = "security" then handleSecurity env r id
    else if key = "sys-users" then handleSysUsers env r id (subPath "/sys-users/" r.path)
    else if key = "sys-log" then handleSysLog env r id
    else if key = "net" then handleNet env r id (subPath "/net/" r.path)
    else if key = "exec" then handleExec env r id
    else if key = "ctforge" then
      if subPath "/ctforge/" r.path = "deploy" then handleCtforgeDeploy env r id
      else handleCtforge env r id (subPath "/ctforge/" r.path)
    else env.endpoint id [notFound] []

/-- The permission that both handlers of forwards ask for, without a machine. -/
def mayForward : Guard := ⟨.perm .portForward "", 403, 40300, "无端口转发权限"⟩

def handlePortForwards (env : Env) (r : HttpRequest) : Endpoint :=
  match r.method with
  | .get => env.endpoint "" [mayForward] []
  | .post =>
    env.endpoint (r.str "agent_id") [mayForward, body r true "invalid body",
      ⟨.that (r.str "agent_id" != "" && decide (0 < r.int "local_port") &&
        decide (0 < r.int "target_port")), 400, 40002, "需要 agent_id / local_port / target_port"⟩,
      ⟨.that (1024 ≤ r.int "target_port"), 400, 40003, "服务端监听端口需 >= 1024"⟩,
      ⟨.online (r.str "agent_id"), 502, 50211, "agent " ++ r.str "agent_id" ++ " offline"⟩]
      (.pfOpen :: if r.answered && !r.listens then [.pfClose] else [])
  | _ => env.endpoint "" [mayForward, methodNone] []

def trimSlashes (rest : String) : String :=
  String.ofList
    ((rest.toList.dropWhile (· == '/')).reverse.dropWhile (· == '/')).reverse

def handlePortForwardByID (env : Env) (r : HttpRequest) (rest : String) : Endpoint where
  guards := [mayForward, methodIs r .delete,
    ⟨.that (env.forwards (trimSlashes rest)).isSome, 400, 40004, "forward not found"⟩]
  agent := ((env.forwards (trimSlashes rest)).map Prod.fst).getD ""
  via := (env.forwards (trimSlashes rest)).map Prod.snd
  sends := [.pfClose]

/-- `withAuth`, for a session that is valid. -/
def withAuth (min : Role) (ep : Endpoint) : Endpoint :=
  { ep with guards := ⟨.role min, 403, 40300, "权限不足"⟩ :: ep.guards }

/-- The handler of a path that can reach an agent; any other sends nothing. -/
def route (env : Env) (r : HttpRequest) : Endpoint :=
  if r.path = "/api/portforwards" then withAuth .operator (handlePortForwards env r)
  else
    match afterStart "/api/portforwards/" r.path with
    | some rest => withAuth .operator (handlePortForwardByID env r rest)
    | none =>
      match afterStart "/api/agents/" r.path with
      | some rest => withAuth .viewer (handleAgentByID env r rest)
      | none => env.endpoint "" [] []

/-! ## What an endpoint sends -/

namespace Endpoint

variable {env : Env} {ep : Endpoint}

theorem refused_eq_none : ep.refused env = none ↔ ∀ g ∈ ep.guards, g.check.holds env = true := by
  simp [refused]

/-- A message is sent exactly if all checks of the endpoint pass and the agent is connected. -/
theorem mem_sent {m : Sent} : m ∈ ep.sent env ↔
    (∀ g ∈ ep.guards, g.check.holds env = true) ∧
      ∃ conn type, ep.via = some conn ∧ type ∈ ep.sends ∧ m = ep.message conn type := by
  unfold sent
  split
  · rename_i conn hnone hvia
    rw [refused_eq_none] at hnone
    constructor
    · intro hm
      obtain ⟨type, htype, rfl⟩ := mem_map.mp hm
      exact ⟨hnone, conn, type, hvia, htype, rfl⟩
    · rintro ⟨-, conn', type, hvia', htype, rfl⟩
      obtain rfl := Option.some.inj (hvia.symm.trans hvia')
      exact mem_map.mpr ⟨type, htype, rfl⟩
  · rename_i hother
    constructor
    · intro hm
      cases hm
    · rintro ⟨hall, conn, type, hvia, -, -⟩
      exact absurd hvia (hother conn (refused_eq_none.mpr hall))

end Endpoint

def MsgType.guarded : MsgType → Bool
  | .terminalOpen | .terminalInput | .cmdExec | .fileWrite | .fileDelete | .fileRename => true
  | _ => false

def Endpoint.Vetted (ep : Endpoint) : Prop :=
  (∃ type ∈ ep.sends, type.guarded = true) → operator ∈ ep.guards

section Vetted

variable {env : Env} {r : HttpRequest} {id : Id}

theorem vetted_of_operator {guards : List Guard} {sends : List MsgType}
    (h : operator ∈ guards) : (env.endpoint id guards sends).Vetted :=
  fun _ => h

/-- An endpoint that sends no guarded message needs no check. -/
theorem vetted_of_silent {guards : List Guard} {sends : List MsgType}
    (h : sends.all (fun type => !type.guarded) = true) : (env.endpoint id guards sends).Vetted := by
  rintro ⟨type, htype, hguarded⟩
  have hnot := all_eq_true.mp h type htype
  rw [hguarded] at hnot
  cases hnot

theorem Endpoint.Vetted.ite {p : Prop} [Decidable p] {a b : Endpoint} (ha : a.Vetted)
    (hb : b.Vetted) : (if p then a else b).Vetted := by
  split
  · exact ha
  · exact hb

theorem handleHost_vetted : (handleHost env r id).Vetted := by
  unfold handleHost
  split <;> exact vetted_of_silent rfl

theorem handleConfig_vetted : (handleConfig env r id).Vetted := by
  unfold handleConfig
  split <;> exact vetted_of_silent rfl

theorem handleFiles_vetted : (handleFiles env r id).Vetted := by
  unfold handleFiles
  split <;> exact vetted_of_operator (mem_cons_self ..)

theorem handleFileEdit_vetted : (handleFileEdit env r id).Vetted := by
  unfold handleFileEdit
  split <;> exact vetted_of_operator (mem_cons_self ..)

theorem handleChangeServerIP_vetted : (handleChangeServerIP env r id).Vetted :=
  vetted_of_operator (mem_cons_self ..)

theorem handleDocker_vetted (sub : String) : (handleDocker env r id sub).Vetted := by
  unfold handleDocker
  repeat' split
  all_goals exact vetted_of_silent rfl

theorem handleServices_vetted : (handleServices env r id).Vetted := by
  unfold handleServices
  split <;> exact vetted_of_silent rfl

theorem handlePackages_vetted (sub : String) : (handlePackages env r id sub).Vetted := by
  unfold handlePackages
  repeat' split
  all_goals exact vetted_of_silent rfl

theorem handleSysUsers_vetted (sub : String) : (handleSysUsers env r id sub).Vetted := by
  unfold handleSysUsers
  repeat' split
  all_goals exact vetted_of_silent rfl

theorem handleNet_vetted (sub : String) : (handleNet env r id sub).Vetted := by
  unfold handleNet
  repeat' split
  all_goals exact vetted_of_silent rfl

theorem handleExec_vetted : (handleExec env r id).Vetted :=
  vetted_of_operator (mem_cons_of_mem _ (mem_cons_self ..))

theorem handleCtforge_vetted (sub : String) : (handleCtforge env r id sub).Vetted := by
  unfold handleCtforge
  split <;> exact vetted_of_operator (mem_cons_self ..)

theorem handleCtforgeDeploy_vetted : (handleCtforgeDeploy env r id).Vetted :=
  vetted_of_operator (mem_cons_of_mem _ (mem_cons_self ..))

/-- Every path below `/api/agents/` has the checks that its messages need. -/
theorem handleAgentByID_vetted (rest : String) : (handleAgentByID env r rest).Vetted := by
  unfold handleAgentByID
  split
  · exact vetted_of_silent rfl
  · exact handleHost_vetted
  · -- in the order of the source
    refine .ite (vetted_of_silent rfl) ?_
    refine .ite (vetted_of_silent rfl) ?_
    refine .ite (vetted_of_silent rfl) ?_
    refine .ite handleConfig_vetted ?_
    refine .ite handleFiles_vetted ?_
    refine .ite handleFileEdit_vetted ?_
    refine .ite (vetted_of_silent rfl) ?_
    refine .ite (vetted_of_silent rfl) ?_
    refine .ite (vetted_of_silent rfl) ?_
    refine .ite (vetted_of_silent rfl) ?_
    refine .ite (vetted_of_silent rfl) ?_
    refine .ite handleChangeServerIP_vetted ?_
    refine .ite (vetted_of_silent rfl) ?_
    refine .ite (vetted_of_silent rfl) ?_
    refine .ite (handleDocker_vetted _) ?_
    refine .ite handleServices_vetted ?_
    refine .ite (handlePackages_vetted _) ?_
    refine .ite (vetted_of_silent rfl) ?_
    refine .ite (handleSysUsers_vetted _) ?_
    refine .ite (vetted_of_silent rfl) ?_
    refine .ite (handleNet_vetted _) ?_
    refine .ite handleExec_vetted ?_
    refine .ite ?_ (vetted_of_silent rfl)
    exact .ite handleCtforgeDeploy_vetted (handleCtforge_vetted _)

theorem handlePortForwards_vetted : (handlePortForwards env r).Vetted := by
  unfold handlePortForwards
  split
  · exact vetted_of_silent rfl
  · refine vetted_of_silent ?_
    cases r.answered <;> cases r.listens <;> rfl
  · exact vetted_of_silent rfl

theorem withAuth_vetted {min : Role} {ep : Endpoint} (h : ep.Vetted) : (withAuth min ep).Vetted :=
  fun hsends => mem_cons_of_mem _ (h hsends)

theorem route_vetted : (route env r).Vetted := by
  unfold route
  split
  · exact withAuth_vetted handlePortForwards_vetted
  · split
    · rintro ⟨type, htype, hguarded⟩
      obtain rfl := mem_singleton.mp htype
      cases hguarded
    · split
      · exact withAuth_vetted (handleAgentByID_vetted _)
      · exact vetted_of_silent rfl

end Vetted

end CtForge.Server
