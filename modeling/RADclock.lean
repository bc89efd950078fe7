import RADclock.Capture.BpfBuffer
import RADclock.Capture.BpfHeader
import RADclock.Capture.CleanOut
import RADclock.Capture.Delivery
import RADclock.Capture.Exchange
import RADclock.Capture.Halves
import RADclock.Capture.Livepcap
import RADclock.Capture.Matching
import RADclock.Capture.NetworkStamp
import RADclock.Capture.Payload
import RADclock.Capture.Rawdata
import RADclock.Capture.StampOrder
import RADclock.Capture.StampQueue
import RADclock.Capture.TraceReplay
import RADclock.Capture.Tsmode
import RADclock.Config.Extract
import RADclock.Config.Lines
import RADclock.Config.Mask
import RADclock.Config.Parse
import RADclock.Config.Rehash
import RADclock.Config.Servers
import RADclock.Config.Settings
import RADclock.Config.Types
import RADclock.Config.Upgrade
import RADclock.Config.Write
import RADclock.Daemon.Capacity
import RADclock.Daemon.Config
import RADclock.Daemon.Continuity
import RADclock.Daemon.Counters
import RADclock.Daemon.DefaultWindows
import RADclock.Daemon.Divisors
import RADclock.Daemon.EndPackets
import RADclock.Daemon.Filter
import RADclock.Daemon.HalfWindow
import RADclock.Daemon.Isolation
import RADclock.Daemon.PollTransition
import RADclock.Daemon.Preferred
import RADclock.Daemon.Process
import RADclock.Daemon.RecordedBound
import RADclock.Daemon.ServerId
import RADclock.Daemon.ShiftChange
import RADclock.Daemon.SlowUpdate
import RADclock.Daemon.Upshift
import RADclock.Daemon.WarmupHistory
import RADclock.Daemon.WarmupTime
import RADclock.Daemon.Widened
import RADclock.Ipc.Backends
import RADclock.Ipc.Generation
import RADclock.Ipc.RoundTrip
import RADclock.Ipc.Sms
import RADclock.Ipc.Termination
import RADclock.Kernel.Bpf
import RADclock.Kernel.DataCopy
import RADclock.Kernel.Diff
import RADclock.Kernel.ErrorBound
import RADclock.Kernel.Ffclock
import RADclock.Kernel.Mono
import RADclock.Kernel.Origin
import RADclock.Kernel.Readings
import RADclock.Kernel.Ring
import RADclock.Kernel.Shares
import RADclock.Kernel.Snapshot
import RADclock.Kernel.Stores
import RADclock.Kernel.Sysclock
import RADclock.Kernel.Updates
import RADclock.Kernel.Uptime
import RADclock.Lib.Allocate
import RADclock.Lib.Arith
import RADclock.Lib.Bintime
import RADclock.Lib.Chain
import RADclock.Lib.DList
import RADclock.Lib.Decimal
import RADclock.Lib.Double
import RADclock.Lib.DoubleBits
import RADclock.Lib.Exec
import RADclock.Lib.FirstMin
import RADclock.Lib.GenRing
import RADclock.Lib.Layout
import RADclock.Lib.Memory
import RADclock.Lib.Real
import RADclock.Lib.Records
import RADclock.Lib.RingBuffer
import RADclock.Lib.Rounding
import RADclock.Lib.Runs
import RADclock.Lib.ScanLine
import RADclock.Ntp.Client
import RADclock.Ntp.Fifo
import RADclock.Ntp.Server
import RADclock.Stamp.Ascii
import RADclock.Stamp.Replay
import RADclock.Stamp.Types
import RADclock.Sync.Availability
import RADclock.Sync.Bidir
import RADclock.Sync.Clock
import RADclock.Sync.Correction
import RADclock.Sync.Divisors
import RADclock.Sync.EndWindows
import RADclock.Sync.Errors
import RADclock.Sync.Frames
import RADclock.Sync.Held
import RADclock.Sync.History
import RADclock.Sync.HistoryRuns
import RADclock.Sync.Indexing
import RADclock.Sync.Invariant
import RADclock.Sync.Lookups
import RADclock.Sync.Minima
import RADclock.Sync.OffsetWindow
import RADclock.Sync.Params
import RADclock.Sync.Path
import RADclock.Sync.PathLookups
import RADclock.Sync.SecondBest
import RADclock.Sync.SelectedSizes
import RADclock.Sync.ShiftWindows
import RADclock.Sync.Slides
import RADclock.Sync.SlidingMin
import RADclock.Sync.SlidingMinDbl
import RADclock.Sync.State
import RADclock.Sync.Transitions
import RADclock.Sync.Tuning
import RADclock.Sync.Types
import RADclock.Sync.WarmupPackets
import RADclock.Sync.Windows
import RADclock.Vm.Udp
