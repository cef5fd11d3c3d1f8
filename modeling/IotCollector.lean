import IotCollector.Lib.Transition
import IotCollector.Lib.Base64
import IotCollector.Lib.Bytes
import IotCollector.Lib.Circular
import IotCollector.Lib.CondVar
import IotCollector.Lib.Crc
import IotCollector.Lib.Cutter
import IotCollector.Lib.Deviation
import IotCollector.Lib.Family
import IotCollector.Lib.File
import IotCollector.Lib.Framing
import IotCollector.Lib.LockProgram
import IotCollector.Lib.Memory
import IotCollector.Lib.Ownership
import IotCollector.Lib.Residue
import IotCollector.Lib.Rounding
import IotCollector.Lib.Suffix
import IotCollector.Common.Clock
import IotCollector.Common.Frame
import IotCollector.Common.Proto
import IotCollector.Common.Stats
import IotCollector.Common.Tbf
import IotCollector.Common.TbfRun
import IotCollector.Common.FetchClock
import IotCollector.Common.ThreadPool
import IotCollector.Common.Theorems.Proto
import IotCollector.Common.Theorems.Crc
import IotCollector.Common.Theorems.Tbf
import IotCollector.Common.Theorems.Refill
import IotCollector.Common.Theorems.FetchClock
import IotCollector.Common.Theorems.ThreadPool
import IotCollector.Common.Theorems.Tasks
import IotCollector.Common.Theorems.PoolSize
import IotCollector.Ingress.Decoder
import IotCollector.Ingress.FeedRun
import IotCollector.Ingress.Theorems.Decoder
import IotCollector.Ingress.Theorems.Segmentation
import IotCollector.Ingress.Theorems.FeedRun
import IotCollector.Pipeline.RingQueue
import IotCollector.Pipeline.RingHistory
import IotCollector.Pipeline.Monitor
import IotCollector.Pipeline.StationCtx
import IotCollector.Pipeline.Double
import IotCollector.Pipeline.Cleaner
import IotCollector.Pipeline.Route
import IotCollector.Pipeline.Theorems.RingQueue
import IotCollector.Pipeline.Theorems.RingOps
import IotCollector.Pipeline.Theorems.RingInvariant
import IotCollector.Pipeline.Theorems.RingHistory
import IotCollector.Pipeline.Theorems.Wakeup
import IotCollector.Pipeline.Theorems.WakeAll
import IotCollector.Pipeline.Theorems.Cleaner
import IotCollector.Pipeline.Theorems.Ordering
import IotCollector.Pipeline.Theorems.Reorder
import IotCollector.Pipeline.Theorems.Stations
import IotCollector.Pipeline.Theorems.Anomaly
import IotCollector.Pipeline.Theorems.Effect
import IotCollector.Pipeline.Theorems.Path
import IotCollector.Pipeline.Theorems.Release
import IotCollector.Pipeline.Theorems.Window
import IotCollector.Pipeline.Theorems.Verdict
import IotCollector.Pipeline.Theorems.Level
import IotCollector.Egress.CacheWriter
import IotCollector.Egress.ReadBack
import IotCollector.Egress.UnicastSender
import IotCollector.Egress.Connection
import IotCollector.Egress.LinkRun
import IotCollector.Egress.Crash
import IotCollector.Egress.Throttle
import IotCollector.Egress.ThrottleRun
import IotCollector.Egress.Dispatcher
import IotCollector.Egress.Outcome
import IotCollector.Egress.Ticker
import IotCollector.Egress.Shutdown
import IotCollector.Egress.Start
import IotCollector.Egress.Resources
import IotCollector.Egress.Locking
import IotCollector.Egress.Theorems.CacheWriter
import IotCollector.Egress.Theorems.Replay
import IotCollector.Egress.Theorems.Reconnect
import IotCollector.Egress.Theorems.Paid
import IotCollector.Egress.Theorems.Ticker
import IotCollector.Egress.Theorems.Connection
import IotCollector.Egress.Theorems.LinkRun
import IotCollector.Egress.Theorems.RetryFrame
import IotCollector.Egress.Theorems.Backlog
import IotCollector.Egress.Theorems.Resources
import IotCollector.Egress.Theorems.Outcome
import IotCollector.Egress.Theorems.Cursor
import IotCollector.Egress.Theorems.CursorName
import IotCollector.Egress.Theorems.Restart
import IotCollector.Egress.Theorems.ReadBack
import IotCollector.Egress.Theorems.History
import IotCollector.Egress.Theorems.FailedAppend
import IotCollector.Egress.Theorems.Crash
import IotCollector.Egress.Theorems.Relay
import IotCollector.Egress.Theorems.Shutdown
import IotCollector.Egress.Theorems.Deadlock
import IotCollector.Main.Pipeline
import IotCollector.Main.Snapshot
import IotCollector.Main.Theorems.Steps
import IotCollector.Main.Theorems.Flush
import IotCollector.Main.Theorems.Accounting
import IotCollector.Main.Theorems.Alarms
import IotCollector.Main.Theorems.Snapshot
import IotCollector.Tools.FrameDecoder
import IotCollector.Tools.StationSim
import IotCollector.Tools.CloudBridge
import IotCollector.Tools.Upload
import IotCollector.Tools.Theorems.Protocol
import IotCollector.Tools.Theorems.StreamFeed
import IotCollector.Tools.Theorems.Base64
import IotCollector.Tools.Theorems.Upload
