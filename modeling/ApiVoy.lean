import ApiVoy.Domain.Sanitized
import ApiVoy.Collaboration.Notifications
import ApiVoy.Collaboration.RoleSafety
import ApiVoy.LocalStore.HistoryRoundTrip
import ApiVoy.LocalStore.Migration
import ApiVoy.Gateway.Schedule
import ApiVoy.Gateway.History
import ApiVoy.Engine.Registry
import ApiVoy.Capture.Lifecycle
import ApiVoy.Hosts.ForwardingProgress
import ApiVoy.Hosts.Preview
import ApiVoy.Drivers.SqlResults
import ApiVoy.Drivers.RedisPipeline
import ApiVoy.Drivers.MqttSubscription
import ApiVoy.Drivers.Sse
import ApiVoy.Portable.ProjectRoundTrip
import ApiVoy.Portable.ExportGate
import ApiVoy.Workbench.ImportedFolders
import ApiVoy.Workbench.JsonTree
import ApiVoy.Workbench.Reopening
import ApiVoy.Workbench.SaveTargets
import ApiVoy.Capture.Redaction
import ApiVoy.Hosts.EventStream
import ApiVoy.Workbench.ResponseVerdict
import ApiVoy.Workbench.DefinitionRoundTrip
import ApiVoy.Engine.WireTexts
import ApiVoy.Drivers.SqlTls
import ApiVoy.Drivers.GrpcRequests
import ApiVoy.Drivers.HttpRetries
import ApiVoy.Drivers.Cookies
import ApiVoy.Secrets.Redaction
import ApiVoy.Hosts.Report
import ApiVoy.Plugins.Upgrade
import ApiVoy.Workbench.CurlArguments
import ApiVoy.Workbench.CurlCredentials
import ApiVoy.Workbench.TcpPayload
import ApiVoy.Drivers.RespSafety
import ApiVoy.Drivers.WireNumbers
import ApiVoy.Drivers.GraphqlSubscriptions
import ApiVoy.Workbench.MessagePackRoundTrip
import ApiVoy.Hosts.MockSelection
import ApiVoy.Portable.Dereferencing
import ApiVoy.Drivers.RpcHttp
import ApiVoy.Drivers.ChunkContract
import ApiVoy.LocalStore.FailedOperations
import ApiVoy.Engine.Announcements
import ApiVoy.Workbench.QueryRows
