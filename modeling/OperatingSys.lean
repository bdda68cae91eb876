import OperatingSys.Daemon.Daemonize
import OperatingSys.Daemon.ErrorText
import OperatingSys.Daemon.SingleInstance
import OperatingSys.DirWalk.Agreement
import OperatingSys.DirWalk.Emptied
import OperatingSys.DirWalk.ErrorText
import OperatingSys.DirWalk.Lifo
import OperatingSys.DirWalk.Listing
import OperatingSys.DirWalk.Position
import OperatingSys.DirWalk.Reports
import OperatingSys.DirWalk.Strings
import OperatingSys.Fortune.Drivers
import OperatingSys.Fortune.Failed
import OperatingSys.Fortune.Formatting
import OperatingSys.Fortune.PartialReads
import OperatingSys.Fortune.SeqOrder
import OperatingSys.Fortune.Writers
import OperatingSys.Foundations.Interleaved
import OperatingSys.ModeSwitch.Texts
import OperatingSys.Myfs.Cache
import OperatingSys.Myfs.Failing
import OperatingSys.Pagemap.Bounds
import OperatingSys.Pagemap.Range
import OperatingSys.Pagemap.Reads
import OperatingSys.Pagemap.Report
import OperatingSys.Pipes.ReadMessage
import OperatingSys.Pipes.Signalled
import OperatingSys.ProcInfo.Content
import OperatingSys.ProcInfo.Links
import OperatingSys.ProcInfo.Maps
import OperatingSys.ProcInfo.Stat
import OperatingSys.Processes.OneByOne
import OperatingSys.Processes.Orphans
import OperatingSys.Processes.Waits
import OperatingSys.ProdConsum.Segment
import OperatingSys.ProtectedMode.Controllers
import OperatingSys.ProtectedMode.Keyboard
import OperatingSys.ProtectedMode.Probe
import OperatingSys.ProtectedMode.SetUp
import OperatingSys.ReadersWriters.Failing
import OperatingSys.ReadersWriters.History
import OperatingSys.ReadersWriters.Preference
import OperatingSys.ReadersWriters.Progress
import OperatingSys.Sockets.Datagrams
import OperatingSys.Sockets.Message
import OperatingSys.Sockets.Sessions
import OperatingSys.Streams.Alternating
import OperatingSys.Streams.OwnOffsets
import OperatingSys.Streams.OwnWrites
import OperatingSys.Streams.SharedOffset
import OperatingSys.Tasklet.LifeCycle
import OperatingSys.Tasklet.Strokes
import OperatingSys.TcpServer.Table
import OperatingSys.TcpServer.Watched
import OperatingSys.Win32.Exclusion
import OperatingSys.Win32.Progress
import OperatingSys.Win32.Value
import OperatingSys.WorkQueue.LifeCycle
import OperatingSys.WorkQueue.Reports
import OperatingSys.WorkQueue.Strokes
