import CewServer.Lib.Transition
import CewServer.Lib.Channel
import CewServer.Lib.Bytes
import CewServer.Lib.Lines
import CewServer.Lib.Path
import CewServer.Lib.Regex
import CewServer.Logger.Session
import CewServer.Logger.Moves
import CewServer.Logger.Accounting
import CewServer.Logger.Fifo
import CewServer.Logger.Destroy
import CewServer.Logger.Flush
import CewServer.Http.Request
import CewServer.Http.Response
import CewServer.Http.Confinement
import CewServer.Http.Head
import CewServer.Client.Session
import CewServer.Client.Lifecycle
import CewServer.Client.Segmentation
import CewServer.Worker.Admin
import CewServer.Worker.Teardown
import CewServer.Worker.Handover
import CewServer.Worker.Handshake
import CewServer.Logger.Request
import CewServer.Worker.Shutdown
import CewServer.Worker.Orphans
import CewServer.Lib.Descriptors
import CewServer.Worker.Balance
import CewServer.Client.Ownership
import CewServer.Lib.RoundRobin
import CewServer.Logger.Duplicates
import CewServer.Logger.InheritedLock
import CewServer.Main.Boot
import CewServer.Worker.Reaping
import CewServer.Worker.Sentinel
import CewServer.Worker.Table
import CewServer.Client.Usage
import CewServer.Http.Body
import CewServer.Http.Published
import CewServer.Lib.LastWrite
import CewServer.Logger.Records
import CewServer.Logger.Sessions
import CewServer.Settings.Load
import CewServer.Client.Drain
import CewServer.Http.Extension
import CewServer.Lib.Numeral
import CewServer.Logger.Bound
import CewServer.Main.Conversions
import CewServer.Worker.Cleanup
import CewServer.Worker.Counts
import CewServer.Lib.Progress
import CewServer.Lib.TailQueue
import CewServer.Logger.Capacity
import CewServer.Logger.Latency
import CewServer.Logger.Linked
import CewServer.Logger.LinkedRefinement
import CewServer.Service.Answers
import CewServer.Service.Faults
import CewServer.Lib.Arena
import CewServer.Logger.Returns
import CewServer.Settings.Shown
import CewServer.Settings.Strings
import CewServer.Worker.Pairing
import CewServer.Main.Daemonize
import CewServer.Worker.Interrupts
import CewServer.Http.Strings
