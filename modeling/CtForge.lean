import CtForge.Daemon.Verdict
import CtForge.Daemon.Lifecycle
import CtForge.Daemon.Insmod
import CtForge.Daemon.Client
import CtForge.Agent.JsonMemory
import CtForge.Agent.Base64Codecs
import CtForge.Agent.Failures
import CtForge.Agent.Upgrade
import CtForge.Agent.Exec
import CtForge.Agent.Listing
import CtForge.Agent.ConfigHistory
import CtForge.Agent.Passwd
import CtForge.Agent.PkgUpgrade
import CtForge.Agent.UserLock
import CtForge.Agent.Listen
import CtForge.Agent.Paths
import CtForge.Agent.Scan
import CtForge.Server.Grants
import CtForge.Server.Scope
import CtForge.Server.Teardown
import CtForge.Server.Admission
import CtForge.Server.AccountsFile
import CtForge.Server.Alerts
import CtForge.Server.Schedule
import CtForge.Server.Deploy
import CtForge.Server.Reconnect
import CtForge.Server.Discovery
import CtForge.Server.SessionTable
import CtForge.Server.Strangers
import CtForge.Server.Decisions
import CtForge.Server.OfflineCount
import CtForge.Server.Gateway
import CtForge.Server.Requests
import CtForge.Server.TermChannels
import CtForge.Server.Writers
