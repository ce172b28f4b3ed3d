import CtForge.Lib.GoString
import CtForge.Lib.ShellScript
import Mathlib.Data.List.Forall2

/-!
# The install script (`deploy.go`, `handleDeployScriptRaw`)

`GET /api/deploy/script.sh?host=..` needs no login. It pastes the host into a script that is
piped into a root shell: three times into a word in double quotes, and once into the
here-document with the configuration of the agent.
-/

namespace CtForge.Server

open CLang Shell GoString List Reader Bool

def source (s : String) : Bytes := bytes (text s)

def sourceLines (ss : List String) : Bytes := unlines (ss.map source)

/-! ## The text of the script -/

/-- Up to the address of `ctforged`. -/
def prologue : List String :=
  ["#!/bin/sh",
    "# ctforge agent 一键安装脚本",
    "# 支持发行版：Fedora/RHEL/CentOS/Debian/Ubuntu/openSUSE/Alpine",
    "# 要求：root 或 sudo",
    "set -e",
    "",
    "echo \"==> CTForge Agent Installer\"",
    "",
    "# ---- 参数解析 ----",
    "# --ctforged-only：单独安装 ctforged（跳过 agent 安装与幂等检测）",
    "# --force-agent：强制重装 agent 二进制（更新旧版，不受幂等限制）",
    "CTFD_ONLY=0",
    "FORCE_AGENT=0",
    "for arg in \"$@\"; do",
    "    [ \"$arg\" = \"--ctforged-only\" ] && CTFD_ONLY=1",
    "    [ \"$arg\" = \"--force-agent\" ] && FORCE_AGENT=1",
    "done",
    "",
    "# --force-agent 等效于 CTF_FORCE=1",
    "[ \"$FORCE_AGENT\" = \"1\" ] && export CTF_FORCE=1",
    "",
    "# ---- 权限检查 ----",
    "if [ \"$(id -u)\" != \"0\" ]; then",
    "    echo \"错误：请以 root 或 sudo 运行本脚本\"",
    "    echo \"用法：curl -fsSL <url> | sudo sh\"",
    "    exit 1",
    "fi",
    "",
    "# ---- 幂等检测：已在运行则跳过（--ctforged-only 且无 --force-agent 时跳过此检测）----",
    "if [ \"$CTFD_ONLY\" != \"1\" ] && [ \"$FORCE_AGENT\" != \"1\" ]; then",
    "    if [ \"$\x7bCTF_FORCE:-0\x7d\" != \"1\" ]; then",
    "        if [ -f /etc/ctforge/agent.conf ] && grep -q '^server_host=' /etc/ctforge/agent.conf 2>/dev/null; then",
    "            for b in /usr/local/bin/ctforge-agent /usr/bin/ctforge-agent /bin/ctforge-agent /opt/bin/ctforge-agent; do",
    "                if [ -x \"$b\" ]; then",
    "                    echo \"==> 已检测到 CTForge Agent：$b\"",
    "                    echo \"    配置：/etc/ctforge/agent.conf\"",
    "                    if command -v systemctl >/dev/null 2>&1 && [ -d /run/systemd/system ]; then",
    "                        systemctl is-active ctforge-agent >/dev/null 2>&1 || systemctl restart ctforge-agent >/dev/null 2>&1 || true",
    "                    elif [ -x /etc/init.d/ctforge-agent ]; then",
    "                        /etc/init.d/ctforge-agent start >/dev/null 2>&1 || true",
    "                    fi",
    "                    echo \"==> 跳过安装（幂等）。如需强制重装：sudo CTF_FORCE=1 sh <script>\"",
    "                    exit 0",
    "                fi",
    "            done",
    "        fi",
    "    fi",
    "fi",
    "",
    "# ---- 架构检测 ----",
    "ARCH=$(uname -m)",
    "case \"$ARCH\" in",
    "    x86_64|amd64)   BIN_ARCH=\"amd64\" ;;",
    "    aarch64|arm64)  BIN_ARCH=\"arm64\" ;;",
    "    *)              echo \"错误：不支持的架构 $ARCH\"; exit 1 ;;",
    "esac",
    "",
    "# ---- CTFD_ONLY 模式：跳过 agent 安装，直接下载 ctforged ----",
    "# --force-agent --ctforged-only 组合时：先更新 agent（跳过此分支），装完 agent 后再装 ctforged",
    "if [ \"$CTFD_ONLY\" = \"1\" ] && [ \"$FORCE_AGENT\" != \"1\" ]; then",
    "    echo \"==> 仅安装 ctforged 模式\"",
    "    CTFD_TMPBIN=$(mktemp /tmp/ctforged.XXXXXX)",
    "    # ctforged 下载地址（由服务端生成时硬编码）"]

def installCtforged : List String :=
  ["    echo \"    架构: $BIN_ARCH  地址: $CTFD_URL\"",
    "    if command -v curl >/dev/null 2>&1; then",
    "        curl -fsSL -o \"$CTFD_TMPBIN\" \"$CTFD_URL\" 2>/dev/null || \x7b echo \"错误：ctforged 下载失败\"; exit 1; \x7d",
    "    elif command -v wget >/dev/null 2>&1; then",
    "        wget -q -O \"$CTFD_TMPBIN\" \"$CTFD_URL\" 2>/dev/null || \x7b echo \"错误：ctforged 下载失败\"; exit 1; \x7d",
    "    else",
    "        echo \"错误：未找到 curl 或 wget\"",
    "        exit 1",
    "    fi",
    "    chmod +x \"$CTFD_TMPBIN\"",
    "    mkdir -p /usr/sbin /etc/ctforge /usr/share/ctforge/payload /var/log/ctforge",
    "    cp \"$CTFD_TMPBIN\" /usr/sbin/ctforged && chmod 755 /usr/sbin/ctforged",
    "    rm -f \"$CTFD_TMPBIN\"",
    "    echo \"==> ctforged 已安装到 /usr/sbin/ctforged\"",
    "    # 写默认配置（如不存在）",
    "    if [ ! -f /etc/ctforge/ctforge.cfg ]; then",
    "        cat > /etc/ctforge/ctforge.cfg <<'CFGEOF'",
    "\x7b",
    "    \"listen\": \"127.0.0.1:7000\",",
    "    \"payload_dir\": \"/usr/share/ctforge/payload\",",
    "    \"log_dir\": \"/var/log/ctforge\",",
    "    \"private_key\": \"***\",",
    "    \"public_key\": \"/etc/ctforge/public.pem\"",
    "\x7d",
    "CFGEOF",
    "        chmod 644 /etc/ctforge/ctforge.cfg",
    "    fi",
    "    # 注册 systemd 服务并启动",
    "    if command -v systemctl >/dev/null 2>&1 && [ -d /run/systemd/system ]; then",
    "        cat > /etc/systemd/system/ctforged.service <<'UNIT'",
    "[Unit]",
    "Description=CTForge eBPF Daemon",
    "Wants=network-online.target",
    "After=network-online.target",
    "",
    "[Service]",
    "Type=simple",
    "ExecStart=/usr/sbin/ctforged -c /etc/ctforge/ctforge.cfg",
    "Restart=always",
    "RestartSec=10",
    "",
    "[Install]",
    "WantedBy=multi-user.target",
    "UNIT",
    "        systemctl daemon-reload",
    "        systemctl enable ctforged >/dev/null 2>&1 || true",
    "        systemctl restart ctforged",
    "        echo \"==> ctforged 已通过 systemd 启动\"",
    "    else",
    "        nohup /usr/sbin/ctforged > /var/log/ctforged.log 2>&1 &",
    "        echo \"==> ctforged 已后台启动（PID: $!）\"",
    "    fi",
    "    echo \"==> 完成！ctforged 已就绪\"",
    "    exit 0",
    "fi",
    "",
    "# ---- 下载 agent 二进制 ----",
    "echo \"==> 下载 agent 二进制...\"",
    "TMPBIN=$(mktemp /tmp/ctforge-agent.XXXXXX)",
    "trap 'rm -f \"$TMPBIN\"' EXIT",
    ""]

def installAgent : List String :=
  ["# 默认 HTTP:8080，不通回退 HTTPS:9443",
    "HTTPS_URL=$(echo \"$HTTP_URL\" | sed -e 's|^http://|https://|' -e 's|:8080|:9443|')",
    "echo \"    架构: $BIN_ARCH  地址: $HTTP_URL\"",
    "DL_OK=0",
    "if command -v curl >/dev/null 2>&1; then",
    "    if curl -fsSL -o \"$TMPBIN\" \"$HTTP_URL\" 2>/dev/null; then",
    "        DL_OK=1",
    "    elif curl -fsSL -o \"$TMPBIN\" \"$HTTPS_URL\" 2>/dev/null; then",
    "        echo \"    HTTP 不通，回退 HTTPS: $HTTPS_URL\"",
    "        DL_OK=1",
    "    fi",
    "elif command -v wget >/dev/null 2>&1; then",
    "    if wget -q -O \"$TMPBIN\" \"$HTTP_URL\" 2>/dev/null; then",
    "        DL_OK=1",
    "    elif wget -q -O \"$TMPBIN\" \"$HTTPS_URL\" 2>/dev/null; then",
    "        echo \"    HTTP 不通，回退 HTTPS: $HTTPS_URL\"",
    "        DL_OK=1",
    "    fi",
    "fi",
    "if [ \"$DL_OK\" != \"1\" ]; then",
    "    echo \"错误：下载失败（HTTP 与 HTTPS 均不通）\"",
    "    exit 1",
    "fi",
    "",
    "chmod +x \"$TMPBIN\"",
    "",
    "# ---- 下载 ctforged eBPF 守护进程（可选，失败不阻断 agent 安装） ----",
    "CTFD_TMPBIN=$(mktemp /tmp/ctforged.XXXXXX)",
    "CTFD_URL=\"__CTFD_URL__\"",
    "CTFD_DL_OK=0",
    "if command -v curl >/dev/null 2>&1; then",
    "    if curl -fsSL -o \"$CTFD_TMPBIN\" \"$CTFD_URL\" 2>/dev/null; then",
    "        CTFD_DL_OK=1",
    "    fi",
    "elif command -v wget >/dev/null 2>&1; then",
    "    if wget -q -O \"$CTFD_TMPBIN\" \"$CTFD_URL\" 2>/dev/null; then",
    "        CTFD_DL_OK=1",
    "    fi",
    "fi",
    "if [ \"$CTFD_DL_OK\" = \"1\" ]; then",
    "    chmod +x \"$CTFD_TMPBIN\"",
    "    mkdir -p /usr/sbin 2>/dev/null",
    "    if cp \"$CTFD_TMPBIN\" /usr/sbin/ctforged 2>/dev/null; then",
    "        chmod 755 /usr/sbin/ctforged",
    "        echo \"==> ctforged 已安装到 /usr/sbin/ctforged\"",
    "        # 写默认配置",
    "        if [ ! -f /etc/ctforge/ctforge.cfg ]; then",
    "            mkdir -p /etc/ctforge /usr/share/ctforge/payload /var/log/ctforge",
    "            cat > /etc/ctforge/ctforge.cfg <<'CFGEOF'",
    "\x7b",
    "    \"listen\": \"127.0.0.1:7000\",",
    "    \"payload_dir\": \"/usr/share/ctforge/payload\",",
    "    \"log_dir\": \"/var/log/ctforge\",",
    "    \"private_key\": \"/etc/ctforge/private.pem\",",
    "    \"public_key\": \"/etc/ctforge/public.pem\"",
    "\x7d",
    "CFGEOF",
    "            chmod 644 /etc/ctforge/ctforge.cfg",
    "        fi",
    "    fi",
    "fi",
    "rm -f \"$CTFD_TMPBIN\"",
    "",
    "# ---- 确定安装目录并安装二进制 ----",
    "# OpenWrt / 精简系统的 /usr/local/bin 可能不存在，需逐级回退",
    "BIN_PATH=\"\"",
    "for d in /usr/local/bin /usr/bin /bin /opt/bin; do",
    "    [ -d \"$d\" ] || continue",
    "    if cp \"$TMPBIN\" \"$d/ctforge-agent\" 2>/dev/null; then",
    "        chmod 755 \"$d/ctforge-agent\" 2>/dev/null && BIN_PATH=\"$d/ctforge-agent\" && break",
    "    fi",
    "done",
    "",
    "# 若所有目录都不存在，尝试创建 /usr/local/bin",
    "if [ -z \"$BIN_PATH\" ]; then",
    "    mkdir -p /usr/local/bin 2>/dev/null",
    "    if cp \"$TMPBIN\" /usr/local/bin/ctforge-agent 2>/dev/null; then",
    "        chmod 755 /usr/local/bin/ctforge-agent && BIN_PATH=\"/usr/local/bin/ctforge-agent\"",
    "    fi",
    "fi",
    "",
    "if [ -z \"$BIN_PATH\" ]; then",
    "    echo \"错误：无法安装二进制到任何标准目录\"",
    "    echo \"提示：请检查 /usr/local/bin 或 /usr/bin 是否可写\"",
    "    rm -f \"$TMPBIN\"",
    "    exit 1",
    "fi",
    "",
    "# ---- 清理其他目录的旧版本，避免 systemd 指向过期二进制 ----",
    "for d in /usr/local/bin /usr/bin /bin /opt/bin; do",
    "    f=\"$d/ctforge-agent\"",
    "    [ \"$f\" = \"$BIN_PATH\" ] && continue",
    "    if [ -f \"$f\" ]; then",
    "        cmp -s \"$TMPBIN\" \"$f\" 2>/dev/null || \x7b rm -f \"$f\" && echo \"    清理旧版本：$f\"; \x7d",
    "    fi",
    "done",
    "",
    "echo \"==> 已安装到 $BIN_PATH\"",
    "rm -f \"$TMPBIN\"",
    "",
    "# ---- 写入配置 ----",
    "echo \"==> 写入配置 /etc/ctforge/agent.conf...\"",
    "mkdir -p /etc/ctforge"]

def registerService : List String :=
  ["",
    "# ---- 按 init 系统注册自启动服务 ----",
    "if command -v systemctl >/dev/null 2>&1 && [ -d /run/systemd/system ]; then",
    "    echo \"==> 注册 systemd 服务...\"",
    "    cat > /etc/systemd/system/ctforge-agent.service <<'UNIT'",
    "[Unit]",
    "Description=ctforge monitoring agent",
    "After=network-online.target",
    "Wants=network-online.target",
    "",
    "[Service]",
    "ExecStart=__BIN_PATH__ -c /etc/ctforge/agent.conf",
    "Restart=always",
    "RestartSec=5",
    "Nice=19",
    "CPUQuota=5%",
    "MemoryLimit=64M",
    "ProtectSystem=full",
    "NoNewPrivileges=false",
    "",
    "[Install]",
    "WantedBy=multi-user.target",
    "UNIT",
    "    sed -i \"s|__BIN_PATH__|$BIN_PATH|g\" /etc/systemd/system/ctforge-agent.service",
    "    systemctl daemon-reload",
    "    systemctl enable ctforge-agent 2>/dev/null || true",
    "    systemctl restart ctforge-agent",
    "    echo \"    状态查询：systemctl status ctforge-agent\"",
    "",
    "elif [ -f /sbin/procd ] || [ -d /etc/init.d ] && [ -f /sbin/init ]; then",
    "    # OpenWrt procd",
    "    echo \"==> 注册 OpenWrt procd 服务...\"",
    "    cat > /etc/init.d/ctforge-agent <<'UNIT'",
    "#!/bin/sh /etc/rc.common",
    "START=99",
    "STOP=10",
    "USE_PROCD=1",
    "",
    "start_service() \x7b",
    "    procd_open_instance",
    "    procd_set_param command __BIN_PATH__ -c /etc/ctforge/agent.conf",
    "    procd_set_param respawn 3600 5 5",
    "    procd_set_param stdout 1",
    "    procd_set_param stderr 1",
    "    procd_set_param nice 19",
    "    procd_close_instance",
    "\x7d",
    "UNIT",
    "    sed -i \"s|__BIN_PATH__|$BIN_PATH|g\" /etc/init.d/ctforge-agent",
    "    chmod +x /etc/init.d/ctforge-agent",
    "    /etc/init.d/ctforge-agent enable",
    "    /etc/init.d/ctforge-agent start",
    "    echo \"    状态查询：/etc/init.d/ctforge-agent status\"",
    "",
    "elif [ -d /etc/init.d ]; then",
    "    # SysV init",
    "    echo \"==> 注册 SysV init 服务...\"",
    "    cat > /etc/init.d/ctforge-agent <<'UNIT'",
    "#!/bin/sh",
    "# chkconfig: 2345 99 10",
    "### BEGIN INIT INFO",
    "# Provides:          ctforge-agent",
    "# Required-Start:    $network",
    "# Required-Stop:     $network",
    "# Default-Start:     2 3 4 5",
    "# Default-Stop:      0 1 6",
    "# Description:       ctforge monitoring agent",
    "### END INIT INFO",
    "case \"$1\" in",
    "  start)   __BIN_PATH__ -c /etc/ctforge/agent.conf & echo $! > /var/run/ctforge-agent.pid ;;",
    "  stop)    [ -f /var/run/ctforge-agent.pid ] && kill $(cat /var/run/ctforge-agent.pid) ;;",
    "  restart) $0 stop; sleep 1; $0 start ;;",
    "  status)  [ -f /var/run/ctforge-agent.pid ] && kill -0 $(cat /var/run/ctforge-agent.pid) && echo running || echo stopped ;;",
    "  *) echo \"usage: $0 \x7bstart|stop|restart|status\x7d\"; exit 1 ;;",
    "esac",
    "UNIT",
    "    sed -i \"s|__BIN_PATH__|$BIN_PATH|g\" /etc/init.d/ctforge-agent",
    "    chmod +x /etc/init.d/ctforge-agent",
    "    chkconfig --add ctforge-agent 2>/dev/null || update-rc.d ctforge-agent defaults 2>/dev/null || true",
    "    /etc/init.d/ctforge-agent start",
    "else",
    "    # 无 init 系统（容器等）：直接后台起",
    "    echo \"==> 未检测到 init 系统，直接后台启动...\"",
    "    nohup __BIN_PATH__ -c /etc/ctforge/agent.conf > /var/log/ctforge-agent.log 2>&1 &",
    "    echo $! > /var/run/ctforge-agent.pid",
    "    echo \"    已作为后台进程启动（PID: $(cat /var/run/ctforge-agent.pid)）\"",
    "fi",
    "",
    "echo \"\"",
    "echo \"==> 安装完成！\""]

def epilogue : List String :=
  ["echo \"    日志查看：journalctl -u ctforge-agent -f 或 tail -f /var/log/ctforge-agent.log\""]

def confTail : List String :=
  ["metrics_interval=30",
    "heartbeat_interval=10",
    "log_level=1",
    "# 批准制：agent 会主动广播，服务端批准后才会正式接入",
    "# 绑定的服务端 ID（批准后写入，agent 重连时校验）",
    "bound_server_id=",
    "# 服务端候选地址列表（逗号分隔，agent 自动切换）",
    "# server_host 为空时，agent 会依次尝试此列表"]

structure ScriptParams where
  serverHost : Bytes
  serverIPs : List Bytes
  serverPort : Int
  regKey : Bytes
  fingerprint : Bytes
  downloadURL : Bytes
  discoverPort : Int
  useTLS : Bool

namespace ScriptParams

def dl (p : ScriptParams) : Bytes :=
  if p.downloadURL.isEmpty then source "http://" ++ p.serverHost ++ source ":8080/download/agent"
  else p.downloadURL

def serverHosts (p : ScriptParams) : Bytes :=
  if p.serverIPs.isEmpty then p.serverHost else [44].intercalate p.serverIPs

def ctfdURL (p : ScriptParams) : Bytes :=
  replaceFirst (source "/download/agent") (source "/download/ctforged") p.dl

def agentConf (p : ScriptParams) : Bytes :=
  let port := if p.serverPort = 0 then 9000 else p.serverPort
  let discPort := if p.discoverPort = 0 then 9001 else p.discoverPort
  source "server_host=" ++ p.serverHosts ++
    source "\nserver_port=" ++ decimalInt port ++
    source "\nuse_tls=" ++ decimal (if p.useTLS then 1 else 0) ++
    source "\nserver_fingerprint=" ++ p.fingerprint ++
    source "\ntoken=" ++ p.regKey ++
    source "\ndiscover_enable=1\ndiscover_port=" ++ decimalInt discPort ++ [10] ++
    [10].intercalate (confTail.map source)

/-- The script before the address of `ctforged` is put in. -/
def formatted (p : ScriptParams) : Bytes :=
  sourceLines prologue ++ source "    CTFD_URL=\"__CTFD_URL__\"\n" ++
    sourceLines installCtforged ++ source "HTTP_URL=\"" ++ p.dl ++
    source "?arch=$BIN_ARCH\"\n" ++ sourceLines installAgent ++
    source "cat > /etc/ctforge/agent.conf <<'EOF'\n" ++ p.agentConf ++ source "\nEOF\n" ++
    sourceLines registerService ++ source "echo \"    服务端将在控制台的【批准管理】中看到本机（" ++
    p.serverHost ++ source "），批准后开始监控。\"\n" ++ sourceLines epilogue

end ScriptParams

/-- Only the first of the two places gets the address of `ctforged`. -/
def genScript (p : ScriptParams) : Bytes :=
  replaceFirst (source "__CTFD_URL__") p.ctfdURL p.formatted

/-! ## The request -/

def buildServerIPs (primary : Bytes) (all : List Bytes) : List Bytes :=
  all.foldl (fun out ip => if out.contains ip then out else out ++ [ip])
    (if primary.isEmpty then [] else [primary])

/-- What the handler reads of the server: its parameters, the token of the environment, the
addresses of the machine and the one towards the network. -/
structure DeployServer where
  deploy : Option ScriptParams
  token : Bytes
  serverIPs : List Bytes
  outboundIP : Bytes

namespace DeployServer

def customHost (s : DeployServer) : Bytes := s.deploy.elim [] ScriptParams.serverHost

def effectiveHost (s : DeployServer) (query : Bytes) : Bytes :=
  let host := if s.customHost.isEmpty then query else s.customHost
  if host.isEmpty then s.outboundIP else host

def deployPort (s : DeployServer) : Int :=
  match s.deploy with
  | some d => if 0 < d.serverPort then d.serverPort else 9000
  | none => 9000

def scriptParams (s : DeployServer) (query : Bytes) : ScriptParams where
  serverHost := s.effectiveHost query
  serverIPs := buildServerIPs (s.effectiveHost query) s.serverIPs
  serverPort := s.deployPort
  regKey := s.deploy.elim [] fun _ => s.token
  fingerprint := s.deploy.elim [] ScriptParams.fingerprint
  downloadURL := []
  discoverPort := s.deploy.elim 9001 ScriptParams.discoverPort
  useTLS := false

def handleDeployScriptRaw (s : DeployServer) (query : Bytes) : Bytes :=
  genScript (s.scriptParams query)

end DeployServer

/-! ## The commands of the script -/

def fixedItems (ss : List String) : List Item := (Reader.start.run (sourceLines ss)).items

structure Carried where
  ctfdURL : Bytes
  dl : Bytes
  conf : Bytes
  host : Bytes

def ScriptParams.carried (p : ScriptParams) : Carried :=
  ⟨p.ctfdURL, p.dl, p.agentConf, p.serverHost⟩

/-- `name="..."`. -/
def assignment (name : String) (v : List Piece) : Token :=
  .word ((lit name).map .plain ++ [.mark 34] ++ v ++ [.mark 34])

def lineItems (ts : List Token) : List Item := (ts ++ [Token.op 10]).map .token

def ctfdLine (url : Bytes) : List Item := lineItems [assignment "CTFD_URL=" (url.map .quoted)]

def httpLine (url : Bytes) : List Item :=
  lineItems [assignment "HTTP_URL=" ((url ++ source "?arch=").map .quoted ++
    ([.active 36] ++ (source "BIN_ARCH").map .quoted))]

def confDoc : Doc := ⟨lit "EOF", true⟩

/-- `cat > /etc/ctforge/agent.conf <<'EOF'`. -/
def catLine : List Item :=
  lineItems [plainWord (lit "cat"), .op 62, plainWord (lit "/etc/ctforge/agent.conf"),
    .op 60, .op 60,
    quotedWord (lit "EOF")]

def hostLine (host : Bytes) : List Item :=
  lineItems [plainWord (lit "echo"),
    .word ([.mark 34] ++ (source "    服务端将在控制台的【批准管理】中看到本机（" ++ host ++
      source "），批准后开始监控。").map .quoted ++ [.mark 34])]

def commands (c : Carried) : List Item :=
  fixedItems prologue ++ ctfdLine c.ctfdURL ++ fixedItems installCtforged ++ httpLine c.dl ++
    fixedItems installAgent ++ catLine ++ [.data confDoc (c.conf ++ [10])] ++
    fixedItems registerService ++ hostLine c.host ++ fixedItems epilogue

/-! ## The fixed lines -/

theorem chars_nil : [] = ([] : List (List Char)).map String.ofList := rfl

variable {css : List (List Char)} {ss : List String}

theorem chars_cons (cs : List Char)
    (h : ss = css.map String.ofList) : String.ofList cs :: ss = (cs :: css).map String.ofList := by
  rw [h, map_cons]

def utf8 (cs : List Char) : Bytes := cs.flatMap String.utf8EncodeChar

theorem source_ofList (cs : List Char) : source (String.ofList cs) = utf8 cs :=
  bytes_text_ofList cs

theorem map_source (h : ss = css.map String.ofList) : ss.map source = css.map utf8 := by
  rw [h, map_map]
  exact map_congr_left fun cs _ => source_ofList cs

theorem of_chars {P : List Bytes → Prop}
    (h : ss = css.map String.ofList) (hp : P (css.map utf8)) : P (ss.map source) := by
  rwa [map_source h]

theorem readsLines_fixed
    (h : ss = css.map String.ofList) (hfollow : followLines none (css.map utf8) = some none) :
    ReadsLines (sourceLines ss) (fixedItems ss) :=
  readsLines_unlines (of_chars (P := fun lines => followLines none lines = some none) h hfollow)

theorem readsLines_prologue : ReadsLines (sourceLines prologue) (fixedItems prologue) := by
  apply readsLines_fixed
  · dsimp only [prologue]
    repeat (first | exact chars_nil | apply chars_cons)
  · decide +kernel

theorem readsLines_installCtforged :
    ReadsLines (sourceLines installCtforged) (fixedItems installCtforged) := by
  apply readsLines_fixed
  · dsimp only [installCtforged]
    repeat (first | exact chars_nil | apply chars_cons)
  · decide +kernel

theorem readsLines_installAgent :
    ReadsLines (sourceLines installAgent) (fixedItems installAgent) := by
  apply readsLines_fixed
  · dsimp only [installAgent]
    repeat (first | exact chars_nil | apply chars_cons)
  · decide +kernel

theorem readsLines_registerService :
    ReadsLines (sourceLines registerService) (fixedItems registerService) := by
  apply readsLines_fixed
  · dsimp only [registerService]
    repeat (first | exact chars_nil | apply chars_cons)
  · decide +kernel

theorem readsLines_epilogue : ReadsLines (sourceLines epilogue) (fixedItems epilogue) := by
  apply readsLines_fixed
  · dsimp only [epilogue]
    repeat (first | exact chars_nil | apply chars_cons)
  · decide +kernel

/-! ## Where the address of `ctforged` goes -/

theorem replaceFirst_unlines {old : Bytes} (hold : 10 ∉ old) {lines : List Bytes}
    (h : ∀ line ∈ lines, occurs old line = false) (new t : Bytes) :
    replaceFirst old new (unlines lines ++ t) = unlines lines ++ replaceFirst old new t := by
  induction lines with
  | nil => rfl
  | cons line lines ih =>
    rw [forall_mem_cons] at h
    have hline := replaceFirst_skip hold h.1 new (unlines lines ++ t)
    have hcons : unlines (line :: lines) = line ++ 10 :: unlines lines := by simp [unlines]
    rw [hcons, append_assoc, cons_append, hline, ih h.2, append_assoc,
      cons_append]

theorem prologue_no_placeholder :
    ∀ line ∈ prologue.map source, occurs (source "__CTFD_URL__") line = false := by
  have hall : ((prologue.map source).all fun line =>
      !occurs (source "__CTFD_URL__") line) = true := by
    apply of_chars (P := fun lines =>
      (lines.all fun line => !occurs (source "__CTFD_URL__") line) = true)
    · dsimp only [prologue]
      repeat (first | exact chars_nil | apply chars_cons)
    · rw [source_ofList]
      decide
  simpa using hall

def scriptHead (p : ScriptParams) : Bytes :=
  sourceLines prologue ++ (source "    CTFD_URL=\"" ++ p.ctfdURL ++ [34, 10]) ++
    sourceLines installCtforged ++
    (source "HTTP_URL=\"" ++ (p.dl ++ source "?arch=" ++
      ([36] ++ source "BIN_ARCH")) ++ [34, 10]) ++
    sourceLines installAgent

def scriptRest (p : ScriptParams) : Bytes :=
  sourceLines registerService ++
    (source "echo \"    服务端将在控制台的【批准管理】中看到本机（" ++
      (p.serverHost ++ source "），批准后开始监控。") ++ [34, 10]) ++
    sourceLines epilogue

/-- The script is cut around the here-document. -/
theorem genScript_eq (p : ScriptParams) :
    genScript p = scriptHead p ++ source "cat > /etc/ctforge/agent.conf <<'EOF'\n" ++ p.agentConf ++
      10 :: (source "EOF" ++ 10 :: scriptRest p) := by
  have hctfd : source "    CTFD_URL=\"__CTFD_URL__\"\n" =
      source "    CTFD_URL=" ++ 34 :: (source "__CTFD_URL__" ++ [34, 10]) := by
    repeat rw [source_ofList]
    decide
  have hctfd' : source "    CTFD_URL=\"" = source "    CTFD_URL=" ++ [34] := by
    repeat rw [source_ofList]
    decide
  have harch : source "?arch=$BIN_ARCH\"\n" =
      source "?arch=" ++ ([36] ++ source "BIN_ARCH") ++ [34, 10] := by decide
  have heof : source "\nEOF\n" = 10 :: (source "EOF" ++ [10]) := by decide
  have hend : source "），批准后开始监控。\"\n" = source "），批准后开始监控。" ++ [34, 10] := by
    repeat rw [source_ofList]
    decide
  have hskip : ∀ t, replaceFirst (source "__CTFD_URL__") p.ctfdURL
      (source "    CTFD_URL=" ++ 34 :: (source "__CTFD_URL__" ++ t)) =
        source "    CTFD_URL=" ++ 34 :: (p.ctfdURL ++ t) := by
    intro t
    rw [replaceFirst_skip (by decide) (by decide),
      replaceFirst_append_self (by decide)]
  rw [genScript, ScriptParams.formatted, hctfd, harch, heof, hend, scriptHead, scriptRest, hctfd']
  simp only [append_assoc, cons_append, nil_append]
  rw [sourceLines, replaceFirst_unlines (by decide) prologue_no_placeholder, hskip]

/-! ## Reading the script -/

theorem run_ctfd : Reader.start.run (source "    CTFD_URL=\"") =
    .inLine [] ⟨.double, (lit "CTFD_URL=").map .plain ++ [.mark 34], []⟩ := by
  repeat rw [source_ofList]
  decide

theorem run_http : Reader.start.run (source "HTTP_URL=\"") =
    .inLine [] ⟨.double, (lit "HTTP_URL=").map .plain ++ [.mark 34], []⟩ := by
  repeat rw [source_ofList]
  decide

theorem run_echo : Reader.start.run (source "echo \"    服务端将在控制台的【批准管理】中看到本机（") =
    .inLine [] ⟨.double, [.mark 34] ++
      (source "    服务端将在控制台的【批准管理】中看到本机（").map .quoted, [plainWord (lit "echo")]⟩ := by
  repeat rw [source_ofList]
  decide

theorem run_cat : Reader.start.run (source "cat > /etc/ctforge/agent.conf <<'EOF'\n") =
    .inDoc catLine confDoc [] [] [] := by
  repeat rw [source_ofList]
  decide

theorem readsLines_ctfd {url : Bytes} (h : isDoubleSafe url = true) :
    ReadsLines (source "    CTFD_URL=\"" ++ url ++ [34, 10]) (ctfdLine url) :=
  readsLines_double run_ctfd (inDouble_safe h) rfl

theorem readsLines_http {url : Bytes} (h : isDoubleSafe (url ++ source "?arch=") = true) :
    ReadsLines (source "HTTP_URL=\"" ++ (url ++ source "?arch=" ++ ([36] ++ source "BIN_ARCH")) ++
      [34, 10]) (httpLine url) := by
  have harch : isDoubleSafe (source "BIN_ARCH") = true := by decide
  exact readsLines_double run_http ((inDouble_safe h).append
    (inDouble_dollar.append (inDouble_safe harch))) rfl

theorem readsLines_host {host : Bytes} (h : isDoubleSafe (host ++ source "），批准后开始监控。") = true) :
    ReadsLines (source "echo \"    服务端将在控制台的【批准管理】中看到本机（" ++
      (host ++ source "），批准后开始监控。") ++ [34, 10]) (hostLine host) := by
  have hread := readsLines_double run_echo (inDouble_safe h) rfl
  simpa [hostLine, lineItems] using hread

theorem run_cat_between (before : List Item) :
    (Reader.between before).run (source "cat > /etc/ctforge/agent.conf <<'EOF'\n") =
      .inDoc (before ++ catLine) confDoc [] [] [] := by
  have hafter := Reader.start.after_run before (source "cat > /etc/ctforge/agent.conf <<'EOF'\n")
  rw [run_cat] at hafter
  simpa [Reader.after, Reader.between, Reader.start, Reader.inDoc] using hafter

theorem readsLines_conf {conf : Bytes} (h : hasLine confDoc.delim [] conf = false) :
    ReadsLines (source "cat > /etc/ctforge/agent.conf <<'EOF'\n" ++ conf ++
      10 :: (source "EOF" ++ [10]))
      (catLine ++ [.data confDoc (conf ++ [10])]) := by
  intro before
  have hdelim : source "EOF" = confDoc.delim := by decide
  have hsplit : conf ++ 10 :: (source "EOF" ++ [10]) = conf ++ [10] ++ (source "EOF" ++ [10]) := by
    simp
  have hend : (Reader.inDoc (before ++ catLine) confDoc [] (conf ++ [10]) []).run
      (source "EOF" ++ [10]) = .between (before ++ catLine ++ [.data confDoc (conf ++ [10])]) := by
    rw [hdelim]
    exact run_delim _ (by decide) rfl
  rw [append_assoc, run_append, run_cat_between, hsplit, run_append, run_inDoc [] h]
  refine hend.trans ?_
  rw [append_assoc]

variable {p : ScriptParams}

/-- The script is read line by line around the here-document. -/
theorem readScript_genScript {ctfd http host : List Item}
    (hctfd : ReadsLines (source "    CTFD_URL=\"" ++ p.ctfdURL ++ [34, 10]) ctfd)
    (hhttp : ReadsLines (source "HTTP_URL=\"" ++
      (p.dl ++ source "?arch=" ++ ([36] ++ source "BIN_ARCH")) ++ [34, 10]) http)
    (hconf : hasLine confDoc.delim [] p.agentConf = false)
    (hhost : ReadsLines (source "echo \"    服务端将在控制台的【批准管理】中看到本机（" ++
      (p.serverHost ++ source "），批准后开始监控。") ++ [34, 10]) host) :
    readScript (genScript p) = some (fixedItems prologue ++ ctfd ++ fixedItems installCtforged ++
      http ++ fixedItems installAgent ++ catLine ++ [.data confDoc (p.agentConf ++ [10])] ++
      fixedItems registerService ++ host ++ fixedItems epilogue) := by
  have hhead := (((readsLines_prologue.append hctfd).append readsLines_installCtforged).append
    hhttp).append readsLines_installAgent
  have hrest := (readsLines_registerService.append hhost).append readsLines_epilogue
  have hall := (hhead.append (readsLines_conf hconf)).append hrest
  have htext : genScript p = scriptHead p ++ (source "cat > /etc/ctforge/agent.conf <<'EOF'\n" ++
      p.agentConf ++ 10 :: (source "EOF" ++ [10])) ++ scriptRest p := by
    rw [genScript_eq]
    simp only [append_assoc, cons_append, nil_append]
  rw [htext]
  refine hall.readScript.trans ?_
  simp only [append_assoc]

/-! ## When the host is only data -/

theorem isDoubleSafe_dl (h : p.downloadURL = []) (t : Bytes) :
    isDoubleSafe (p.dl ++ t) = (isDoubleSafe (p.serverHost ++ [58]) && isDoubleSafe t) := by
  have hdl : p.dl ++ t =
      source "http://" ++ (p.serverHost ++ 58 :: (source "8080/download/agent" ++ t)) := by
    have hcolon : source ":8080/download/agent" = 58 :: source "8080/download/agent" := by
      decide
    rw [ScriptParams.dl, h, hcolon]
    simp
  have hhttp : (source "http://").all isData = true := by decide
  have hagent : (source "8080/download/agent").all isData = true := by decide
  rw [hdl, isDoubleSafe_data hhttp, isDoubleSafe_append (d := 58) (by decide) (by decide),
    isDoubleSafe_data hagent]

/-- The address is safe exactly if the host is, with the colon behind it. -/
theorem isDoubleSafe_ctfdURL (h : p.downloadURL = []) :
    isDoubleSafe p.ctfdURL = isDoubleSafe (p.serverHost ++ [58]) := by
  have hdl := isDoubleSafe_dl h []
  rw [append_nil, isDoubleSafe, Bool.and_true] at hdl
  have hoccurs : occurs (source "/download/agent") p.dl = true := by
    have htail : source ":8080/download/agent" = source ":8080" ++ source "/download/agent" := by
      decide
    rw [ScriptParams.dl, h, htail, ← append_assoc]
    exact occurs_append_self _ _
  -- either address has a slash and plain bytes at the place
  have hplace : ∀ (a b rest : Bytes), rest.all isData = true →
      isDoubleSafe (a ++ 47 :: rest ++ b) = (isDoubleSafe (a ++ [47]) && isDoubleSafe b) := by
    intro a b rest hrest
    rw [append_assoc, cons_append, isDoubleSafe_append (d := 47) (by decide) (by decide),
      isDoubleSafe_data hrest]
  have hagent : source "/download/agent" = 47 :: source "download/agent" := by decide
  have hctforged : source "/download/ctforged" = 47 :: source "download/ctforged" := by
    decide
  obtain ⟨a, b, hsplit, hreplace⟩ := exists_replaceFirst hoccurs (source "/download/ctforged")
  rw [hsplit, hagent, hplace a b _ (by decide)] at hdl
  rw [ScriptParams.ctfdURL, hreplace, hctforged, hplace a b _ (by decide), hdl]

theorem isDoubleSafe_host (host : Bytes) : isDoubleSafe (host ++ source "），批准后开始监控。") =
    isDoubleSafe (host ++ [58]) := by
  have hfirst : source "），批准后开始监控。" = 239 :: (source "），批准后开始监控。").tail := by
    decide
  have htail : isDoubleSafe (source "），批准后开始监控。").tail = true := by decide
  rw [hfirst, isDoubleSafe_append (d := 58) (by decide) (by decide), htail, Bool.and_true]

theorem run_prologue : Reader.start.run (sourceLines prologue ++ source "    CTFD_URL=\"") =
    .inLine (fixedItems prologue) ⟨.double, (lit "CTFD_URL=").map .plain ++ [.mark 34], []⟩ := by
  have hafter := Reader.start.after_run (fixedItems prologue) (source "    CTFD_URL=\"")
  rw [run_ctfd] at hafter
  rw [run_append, Reader.start, readsLines_prologue, nil_append]
  simpa [Reader.after, Reader.between, Reader.start, Reader.inLine] using hafter

theorem genScript_ctfd (p : ScriptParams) : ∃ rest, genScript p =
    sourceLines prologue ++ source "    CTFD_URL=\"" ++ p.ctfdURL ++ 34 :: rest := by
  refine ⟨10 :: (sourceLines installCtforged ++
    (source "HTTP_URL=\"" ++ (p.dl ++ source "?arch=" ++
      ([36] ++ source "BIN_ARCH")) ++ [34, 10]) ++
    sourceLines installAgent ++ source "cat > /etc/ctforge/agent.conf <<'EOF'\n" ++ p.agentConf ++
      10 :: (source "EOF" ++ 10 :: scriptRest p)), ?_⟩
  rw [genScript_eq, scriptHead]
  simp only [append_assoc, cons_append, nil_append]

theorem commands_split (c : Carried) : commands c = fixedItems prologue ++ (ctfdLine c.ctfdURL ++
    (fixedItems installCtforged ++ httpLine c.dl ++ fixedItems installAgent ++ catLine ++
      [.data confDoc (c.conf ++ [10])] ++ fixedItems registerService ++ hostLine c.host ++
      fixedItems epilogue)) := by
  unfold commands
  simp only [append_assoc]

theorem ctfdLine_cons (url : Bytes) (rest : List Item) : ctfdLine url ++ rest =
    .token (.word ((lit "CTFD_URL=").map .plain ++ [.mark 34] ++ url.map .quoted ++ [.mark 34])) ::
      .token (.op 10) :: rest := by
  simp [ctfdLine, lineItems, assignment]

theorem commands_ctfd (c : Carried) : ∃ more, commands c = fixedItems prologue ++
    ([] : List Token).map .token ++ .token (.word ((lit "CTFD_URL=").map .plain ++ [.mark 34] ++
      c.ctfdURL.map .quoted ++ [.mark 34])) :: more := by
  rw [commands_split, ctfdLine_cons, map_nil, append_nil]
  exact ⟨_, rfl⟩

theorem commands_conf (c : Carried) : commands c = fixedItems prologue ++ ctfdLine c.ctfdURL ++
    fixedItems installCtforged ++ httpLine c.dl ++ fixedItems installAgent ++ catLine ++
    .data confDoc (c.conf ++ [10]) ::
      (fixedItems registerService ++ hostLine c.host ++ fixedItems epilogue) := by
  rw [commands, append_assoc _ (hostLine _), append_assoc _ (fixedItems registerService),
    append_assoc _ [_], singleton_append, append_assoc (fixedItems registerService)]

theorem safe_of_commands (h : readScript (genScript p) = some (commands p.carried)) :
    isDoubleSafe p.ctfdURL = true := by
  obtain ⟨rest, hrest⟩ := genScript_ctfd p
  obtain ⟨more, hmore⟩ := commands_ctfd p.carried
  rw [hrest, hmore] at h
  have hmark : Piece.mark 34 ∈ (lit "CTFD_URL=").map Piece.plain ++ [.mark 34] :=
    mem_append_right _ (mem_singleton.mpr rfl)
  exact safe_of_readScript run_prologue hmark h

theorem readsLines_head (hctfd : isDoubleSafe p.ctfdURL = true)
    (hhttp : isDoubleSafe (p.dl ++ source "?arch=") = true) :
    ReadsLines (scriptHead p) (fixedItems prologue ++ ctfdLine p.ctfdURL ++
      fixedItems installCtforged ++ httpLine p.dl ++ fixedItems installAgent) :=
  (((readsLines_prologue.append (readsLines_ctfd hctfd)).append
    readsLines_installCtforged).append (readsLines_http hhttp)).append readsLines_installAgent

theorem noLine_of_commands (hctfd : isDoubleSafe p.ctfdURL = true)
    (hhttp : isDoubleSafe (p.dl ++ source "?arch=") = true)
    (h : readScript (genScript p) = some (commands p.carried)) :
    hasLine confDoc.delim [] p.agentConf = false := by
  have hhead := readsLines_head hctfd hhttp []
  have hpre : Reader.start.run (scriptHead p ++
      source "cat > /etc/ctforge/agent.conf <<'EOF'\n") = .inDoc (fixedItems prologue ++
        ctfdLine p.ctfdURL ++ fixedItems installCtforged ++ httpLine p.dl ++
        fixedItems installAgent ++ catLine) confDoc [] [] [] := by
    rw [run_append, Reader.start, hhead, nil_append, run_cat_between]
  rw [genScript_eq, commands_conf] at h
  exact noLine_of_readScript hpre h (by simp [ScriptParams.carried])

/-- The script is read as the fixed commands exactly if the host is safe and no line ends the
here-document. -/
theorem readScript_genScript_iff (h : p.downloadURL = []) :
    readScript (genScript p) = some (commands p.carried) ↔
      isDoubleSafe (p.serverHost ++ [58]) = true ∧
        hasLine confDoc.delim [] p.agentConf = false := by
  have hsafe : isDoubleSafe (p.serverHost ++ [58]) = true →
      isDoubleSafe p.ctfdURL = true ∧ isDoubleSafe (p.dl ++ source "?arch=") = true := by
    intro hhost
    have harch : isDoubleSafe (source "?arch=") = true := by decide
    rw [isDoubleSafe_ctfdURL h, isDoubleSafe_dl h, hhost, harch]
    exact ⟨rfl, rfl⟩
  constructor
  · intro hread
    have hhost : isDoubleSafe (p.serverHost ++ [58]) = true :=
      (isDoubleSafe_ctfdURL h).symm.trans (safe_of_commands hread)
    obtain ⟨hctfd, hhttp⟩ := hsafe hhost
    exact ⟨hhost, noLine_of_commands hctfd hhttp hread⟩
  · rintro ⟨hhost, hconf⟩
    obtain ⟨hctfd, hhttp⟩ := hsafe hhost
    exact readScript_genScript (readsLines_ctfd hctfd) (readsLines_http hhttp) hconf
      (readsLines_host ((isDoubleSafe_host p.serverHost).trans hhost))

/-! ## The configuration -/

theorem hasLine_field {name : Bytes} (hname : 10 ∉ name) (s t : Bytes) :
    hasLine confDoc.delim [] (name ++ (s ++ 10 :: t)) =
      (hasLine confDoc.delim name s || hasLine confDoc.delim [] t) := by
  rw [hasLine_begin hname, nil_append, hasLine_append]

example : hasLine (source "EOF") [] (source "a\nEOF\nb") = true := by decide +kernel

theorem decimalInt_no_newline (n : Int) : 10 ∉ decimalInt n := by
  have hdigits : 10 ∉ decimal n.natAbs := fun hmem => by cases decimal_digits hmem
  unfold decimalInt
  split
  · simp [hdigits]
  · exact hdigits

theorem hasLine_number {name : Bytes} (hname : 3 < name.length) {s : Bytes} (hs : 10 ∉ s) :
    hasLine confDoc.delim name s = false := by
  refine hasLine_of_not_mem hs fun heq => ?_
  have hlen := congrArg List.length heq
  have hdelim : confDoc.delim.length = 3 := by decide
  rw [length_append, hdelim] at hlen
  omega

theorem hasLine_confTail :
    hasLine confDoc.delim [] ([10].intercalate (confTail.map source)) = false := by
  apply of_chars (P := fun lines => hasLine confDoc.delim [] ([10].intercalate lines) = false)
  · dsimp only [confTail]
    repeat (first | exact chars_nil | apply chars_cons)
  · decide +kernel

/-- Only the hosts, the fingerprint and the token can end the here-document. -/
theorem hasLine_agentConf (p : ScriptParams) : hasLine confDoc.delim [] p.agentConf =
    (hasLine confDoc.delim (source "server_host=") p.serverHosts ||
      (hasLine confDoc.delim (source "server_fingerprint=") p.fingerprint ||
        hasLine confDoc.delim (source "token=") p.regKey)) := by
  have hport : source "\nserver_port=" = 10 :: source "server_port=" := by decide
  have htls : source "\nuse_tls=" = 10 :: source "use_tls=" := by decide
  have hfingerprint : source "\nserver_fingerprint=" = 10 :: source "server_fingerprint=" := by
    repeat rw [source_ofList]
    decide
  have htoken : source "\ntoken=" = 10 :: source "token=" := by decide
  have hdiscover : source "\ndiscover_enable=1\ndiscover_port=" =
      10 :: (source "discover_enable=1" ++ ([] ++ 10 :: source "discover_port=")) := by
    repeat rw [source_ofList]
    decide
  have hname : 10 ∉ source "server_host=" ∧ 10 ∉ source "server_port=" ∧ 10 ∉ source "use_tls=" ∧
      10 ∉ source "server_fingerprint=" ∧ 10 ∉ source "token=" ∧
      10 ∉ source "discover_enable=1" ∧ 10 ∉ source "discover_port=" := by
    repeat rw [source_ofList]
    decide
  have hlong : 3 < (source "server_port=").length ∧ 3 < (source "use_tls=").length ∧
      3 < (source "discover_enable=1").length ∧ 3 < (source "discover_port=").length := by
    repeat rw [source_ofList]
    decide
  have hdecimal : ∀ n : Nat, 10 ∉ decimal n := fun n => decimalInt_no_newline n
  unfold ScriptParams.agentConf
  dsimp only
  simp only [append_assoc]
  rw [hport, cons_append, htls, cons_append, hfingerprint, cons_append, htoken,
    cons_append, hdiscover, cons_append, append_assoc, append_assoc,
    cons_append, cons_append]
  rw [hasLine_field hname.1, hasLine_field hname.2.1, hasLine_field hname.2.2.1,
    hasLine_field hname.2.2.2.1, hasLine_field hname.2.2.2.2.1, hasLine_field hname.2.2.2.2.2.1,
    hasLine_field hname.2.2.2.2.2.2, nil_append,
    hasLine_number hlong.1 (decimalInt_no_newline _), hasLine_number hlong.2.1 (hdecimal _),
    hasLine_number hlong.2.2.1 not_mem_nil,
    hasLine_number hlong.2.2.2 (decimalInt_no_newline _), hasLine_confTail]
  simp only [Bool.false_or, Bool.or_false]

/-! ## Two requests -/

/-- The same item, but for the quoted bytes that a word has in one place, or the text of a
here-document. -/
inductive Alike : Item → Item → Prop
  | refl (item : Item) : Alike item item
  | word (front back : List Piece) (a b : Bytes) :
      Alike (.token (.word (front ++ a.map .quoted ++ back)))
        (.token (.word (front ++ b.map .quoted ++ back)))
  | data (doc : Doc) (a b : Bytes) : Alike (.data doc a) (.data doc b)

theorem alike_refl (items : List Item) : Forall₂ Alike items items :=
  forall₂_same.mpr fun item _ => .refl item

theorem alike_ctfdLine (a b : Bytes) : Forall₂ Alike (ctfdLine a) (ctfdLine b) :=
  .cons (.word _ _ a b) (alike_refl _)

theorem alike_httpLine (a b : Bytes) : Forall₂ Alike (httpLine a) (httpLine b) := by
  have hword := Alike.word ((lit "HTTP_URL=").map .plain ++ [.mark 34])
    ([.active 36] ++ (source "BIN_ARCH").map .quoted ++ [.mark 34]) (a ++ source "?arch=")
    (b ++ source "?arch=")
  simp only [httpLine, assignment, append_assoc] at hword ⊢
  exact .cons hword (alike_refl _)

theorem alike_hostLine (a b : Bytes) : Forall₂ Alike (hostLine a) (hostLine b) :=
  .cons (.refl _) (.cons (.word _ _ _ _) (alike_refl _))

theorem alike_commands (c₁ c₂ : Carried) : Forall₂ Alike (commands c₁) (commands c₂) := by
  have hline := alike_hostLine c₁.host c₂.host
  have hdoc : Forall₂ Alike [.data confDoc (c₁.conf ++ [10])] [.data confDoc (c₂.conf ++ [10])] :=
    .cons (.data _ _ _) .nil
  have hhead := rel_append (rel_append (alike_refl (fixedItems prologue))
    (alike_ctfdLine c₁.ctfdURL c₂.ctfdURL)) (alike_refl (fixedItems installCtforged))
  have hagent := rel_append (rel_append (rel_append hhead (alike_httpLine c₁.dl c₂.dl))
    (alike_refl (fixedItems installAgent))) (alike_refl catLine)
  exact rel_append (rel_append (rel_append (rel_append hagent hdoc)
    (alike_refl (fixedItems registerService))) hline) (alike_refl (fixedItems epilogue))

namespace DeployServer

structure Harmless (s : DeployServer) (query : Bytes) : Prop where
  quoted : isDoubleSafe (s.effectiveHost query ++ [58]) = true
  addresses : hasLine confDoc.delim (source "server_host=")
    ([44].intercalate (buildServerIPs (s.effectiveHost query) s.serverIPs)) = false
  fingerprint : hasLine confDoc.delim (source "server_fingerprint=")
    (s.deploy.elim [] ScriptParams.fingerprint) = false
  token : hasLine confDoc.delim (source "token=") (s.deploy.elim [] fun _ => s.token) = false

def Carries (s : DeployServer) (query : Bytes) : Prop :=
  readScript (s.handleDeployScriptRaw query) = some (commands (s.scriptParams query).carried)

theorem foldl_ne_nil {ips out : List Bytes} (h : out ≠ []) :
    ips.foldl (fun out ip => if out.contains ip then out else out ++ [ip]) out ≠ [] := by
  induction ips generalizing out with
  | nil => exact h
  | cons ip ips ih =>
    rw [foldl_cons]
    split
    · exact ih h
    · exact ih (by simp)

theorem serverHosts_eq (s : DeployServer) (query : Bytes) :
    (s.scriptParams query).serverHosts =
      [44].intercalate (buildServerIPs (s.effectiveHost query) s.serverIPs) := by
  change (if (buildServerIPs (s.effectiveHost query) s.serverIPs).isEmpty then
    s.effectiveHost query else _) = _
  split
  · rename_i hempty
    have hnil := isEmpty_iff.mp hempty
    rw [hnil]
    by_contra hne
    have hhost : (s.effectiveHost query).isEmpty = false := by simpa using hne
    refine foldl_ne_nil ?_ hnil
    simp [hhost]
  · rfl

theorem carries_iff (s : DeployServer) (query : Bytes) : s.Carries query ↔ s.Harmless query := by
  have hread := readScript_genScript_iff (p := s.scriptParams query) rfl
  rw [hasLine_agentConf, or_eq_false_iff, or_eq_false_iff, serverHosts_eq] at hread
  refine hread.trans ⟨?_, ?_⟩
  · rintro ⟨hquoted, haddresses, hfingerprint, htoken⟩
    exact ⟨hquoted, haddresses, hfingerprint, htoken⟩
  · rintro ⟨hquoted, haddresses, hfingerprint, htoken⟩
    exact ⟨hquoted, haddresses, hfingerprint, htoken⟩

/-- The two scripts are the same sequence of items, but for the words and the here-document
that carry the host, and these carry it as it is. -/
def SameCommands (s : DeployServer) (q₁ q₂ : Bytes) : Prop :=
  ∃ items₁ items₂, readScript (s.handleDeployScriptRaw q₁) = some items₁ ∧
    readScript (s.handleDeployScriptRaw q₂) = some items₂ ∧ Forall₂ Alike items₁ items₂ ∧
    items₁ = commands (s.scriptParams q₁).carried ∧ items₂ = commands (s.scriptParams q₂).carried

theorem sameCommands_iff (s : DeployServer) (q₁ q₂ : Bytes) :
    s.SameCommands q₁ q₂ ↔ s.Carries q₁ ∧ s.Carries q₂ := by
  constructor
  · rintro ⟨items₁, items₂, h₁, h₂, -, heq₁, heq₂⟩
    exact ⟨h₁.trans (congrArg some heq₁), h₂.trans (congrArg some heq₂)⟩
  · rintro ⟨h₁, h₂⟩
    exact ⟨_, _, h₁, h₂, alike_commands _ _, rfl, rfl⟩

/-- The scripts of two requests are the same commands, with the texts that carry the host in
three words and one here-document, if and only if no host has a byte that double quotes do not
take as it stands, and no line of the configuration ends the here-document. -/
theorem script_commands_fixed_iff (s : DeployServer) (q₁ q₂ : Bytes) :
    s.SameCommands q₁ q₂ ↔ s.Harmless q₁ ∧ s.Harmless q₂ := by
  rw [sameCommands_iff, carries_iff, carries_iff]

/-- A host that runs a command. -/
theorem host_runs_command : ∃ s : DeployServer, s.customHost = [] ∧
    s.Carries (lit "10.0.0.1") ∧ ¬ s.SameCommands (lit "10.0.0.1") (lit "x\"; reboot; \"") ∧
    ∃ more, readScript (s.handleDeployScriptRaw (lit "x\"; reboot; \"")) =
      some (fixedItems prologue ++ lineItems [assignment "CTFD_URL=" ((lit "http://x").map .quoted),
        .op 59, plainWord (lit "reboot"), .op 59,
        .word ([.mark 34] ++ (lit ":8080/download/ctforged").map .quoted ++
          [.mark 34])] ++ more) := by
  refine ⟨⟨none, [], [], lit "10.0.0.1"⟩, rfl, ?_, ?_, ?_⟩
  · refine (carries_iff _ _).mpr ⟨?_, ?_, ?_, ?_⟩ <;> decide
  · rw [sameCommands_iff]
    rintro ⟨-, hcarries⟩
    have hquoted := ((carries_iff _ _).mp hcarries).quoted
    revert hquoted
    decide
  · have hline : ReadsLines (source "    CTFD_URL=\"" ++ (scriptParams
        ⟨none, [], [], lit "10.0.0.1"⟩ (lit "x\"; reboot; \"")).ctfdURL ++ [34, 10])
        (lineItems [assignment "CTFD_URL=" ((lit "http://x").map .quoted),
          .op 59, plainWord (lit "reboot"), .op 59,
          .word ([.mark 34] ++ (lit ":8080/download/ctforged").map .quoted ++ [.mark 34])]) :=
      readsLines_of_run (by decide)
    have hread := readScript_genScript hline (readsLines_of_isBetween (by decide +kernel))
      (by decide +kernel) (readsLines_of_isBetween (by decide +kernel))
    simp only [append_assoc] at hread ⊢
    exact ⟨_, hread⟩

end DeployServer

end CtForge.Server
