import Anetd.Receive
import Anetd.Head
import Anetd.ParseHead
import Anetd.ParseBody
import Anetd.Message
import Anetd.FieldLines
import Anetd.Simulation
import Anetd.Transports
import Anetd.Lib.Base64
import Anetd.Lib.Regex
import Anetd.Lib.Split
import Anetd.Url
import Anetd.Request
import Anetd.ProxyReply
import Anetd.Send
import Anetd.Redirects
import Anetd.DirectTransfer
import Anetd.Wire
import Anetd.Hops
import Anetd.Tunnel
import Anetd.Lib.Greedy
import Anetd.UrlText
import Anetd.Targets
import Anetd.OriginForm
import Anetd.RequestMessage
import Anetd.Fresh
import Anetd.Sockets
import Anetd.Pieces
import Anetd.FileResponse
import Anetd.HeadPieces
import Anetd.Derived
import Anetd.FileTransfer
import Anetd.Completion
import Anetd.Conclusions
import Anetd.Truncation
import Anetd.Callback
import Anetd.FileNames
import Anetd.Credentials
import Anetd.HeadEnds
import Anetd.HeaderLines
import Anetd.HeaderCase
import Anetd.ReportedHeaders
import Anetd.CustomHeaders
import Anetd.FileObject
import Anetd.LogLevels
import Anetd.Lib.Behaviour
import Anetd.Threads
import Anetd.Atomicity
import Anetd.Liveness
import Anetd.Stages
import Anetd.Effects
import Anetd.Coupling
import Anetd.History
import Anetd.Progress
import Anetd.Downloads
import Anetd.Buffering
import Anetd.Streams
import Anetd.Disclosure
import Anetd.UrlRoundTrip
import Anetd.LogConsole
import Anetd.Web
import Anetd.Storage
import Anetd.Delivery
import Anetd.Budget
import Anetd.Injection
import Anetd.Decoder
import Anetd.Failover
import Anetd.Lib.Shares
import Anetd.Folder
import Anetd.Service
