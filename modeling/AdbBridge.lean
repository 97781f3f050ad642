import AdbBridge.Library.Machine
import AdbBridge.Library.Numeral
import AdbBridge.Library.ChunkedCoding
import AdbBridge.Library.PercentCoding
import AdbBridge.Library.Files
import AdbBridge.Library.Lines
import AdbBridge.Library.Search
import AdbBridge.Library.Json
import AdbBridge.Library.Utf8
import AdbBridge.Library.JsonText
import AdbBridge.Library.HeaderFields
import AdbBridge.Library.ResponseFraming
import AdbBridge.Library.Region
import AdbBridge.Library.Ledger
import AdbBridge.Executor.Child
import AdbBridge.Executor.Environment
import AdbBridge.Executor.Capture
import AdbBridge.Executor.Streaming
import AdbBridge.Executor.PipeLoop
import AdbBridge.Executor.PipeSteps
import AdbBridge.Executor.RawOutput
import AdbBridge.Executor.BodyReader
import AdbBridge.Executor.SseOutput
import AdbBridge.Executor.SseBuffer
import AdbBridge.Executor.SseSplitter
import AdbBridge.Executor.PipeResponse
import AdbBridge.Executor.RawFraming
import AdbBridge.Executor.ExitCode
import AdbBridge.Executor.PidUses
import AdbBridge.Executor.ChildGone
import AdbBridge.Executor.Spinning
import AdbBridge.Executor.Descriptors
import AdbBridge.Executor.Resources
import AdbBridge.Executor.LoopResources
import AdbBridge.Forward.Table
import AdbBridge.Forward.TableRuns
import AdbBridge.Forward.Listing
import AdbBridge.Forward.Responses
import AdbBridge.Forward.Creation
import AdbBridge.Forward.LiveStrings
import AdbBridge.Forward.Duplicates
import AdbBridge.Forward.Lifetime
import AdbBridge.Forward.Relay
import AdbBridge.Forward.RelayStreams
import AdbBridge.Forward.UnixAddress
import AdbBridge.Forward.Connections
import AdbBridge.Forward.ActiveConnections
import AdbBridge.Forward.ConnectedSocket
import AdbBridge.Server.RequestLine
import AdbBridge.Server.Client
import AdbBridge.Server.Reading
import AdbBridge.Server.RequestStores
import AdbBridge.Server.FirstLine
import AdbBridge.Server.HeaderLookup
import AdbBridge.Handler.ExecPipe
import AdbBridge.Handler.JsonEnv
import AdbBridge.Handler.PipeGrammar
import AdbBridge.Handler.Update
import AdbBridge.Handler.UpdateRuns
import AdbBridge.Handler.UpdateFailures
import AdbBridge.Handler.Upload
import AdbBridge.Handler.Response
import AdbBridge.Handler.Replies
import AdbBridge.Handler.ExecReply
import AdbBridge.Handler.Streams
import AdbBridge.Handler.StreamEvents
import AdbBridge.Handler.Download
import AdbBridge.Server.Serving
import AdbBridge.Client.Shell
import AdbBridge.Client.ParseSse
import AdbBridge.Client.PipeText
import AdbBridge.Client.Arguments
import AdbBridge.Client.JsonRequest
import AdbBridge.Client.PipeQuery
import AdbBridge.Client.PipeEnv
import AdbBridge.Library.Checked
import AdbBridge.Library.JsonWriting
import AdbBridge.Library.Incremental
import AdbBridge.Library.LinkedList
import AdbBridge.Library.Blocks
import AdbBridge.Cjson.Parser
import AdbBridge.Cjson.Strings
import AdbBridge.Cjson.Bounds
import AdbBridge.Cjson.Grammar
import AdbBridge.Cjson.Printer
import AdbBridge.Cjson.PrintBuffer
import AdbBridge.Cjson.RoundTrip
import AdbBridge.Cjson.Pointers
import AdbBridge.Cjson.Ownership
import AdbBridge.Cjson.Building
import AdbBridge.Handler.JsonBodies
import AdbBridge.Client.CdpSocket
import AdbBridge.Client.ForwardAdd
import AdbBridge.Client.ShellConversation
import AdbBridge.Forward.LinkedRecords
import AdbBridge.Server.AcceptLoop
import AdbBridge.Tls.EmbeddedHeader
