import RedisTracer.Lib.BoundedMap
import RedisTracer.Lib.Run
import RedisTracer.Lib.Ascii
import RedisTracer.Lib.RespFormat
import RedisTracer.Lib.GroupFold
import RedisTracer.Lib.RingBuf
import RedisTracer.Lib.Packing
import RedisTracer.Lib.FirstHit
import RedisTracer.Lib.Locks
import RedisTracer.Lib.BinarySearch
import RedisTracer.Lib.Memo
import RedisTracer.Lib.Text
import RedisTracer.Lib.Utf8
import RedisTracer.Lib.Windows
import RedisTracer.Lib.Transition
import RedisTracer.Lib.Ranking
import RedisTracer.Lib.ReprC
import RedisTracer.Common
import RedisTracer.Probes
import RedisTracer.ProbeRuns
import RedisTracer.EntryOrigin
import RedisTracer.Serials
import RedisTracer.Pairing
import RedisTracer.Target
import RedisTracer.Resp
import RedisTracer.RespScan
import RedisTracer.Classify
import RedisTracer.Capture
import RedisTracer.Stats
import RedisTracer.Ledger
import RedisTracer.Report
import RedisTracer.Wakeup
import RedisTracer.Outputs
import RedisTracer.HelperSteps
import RedisTracer.HelperOrigin
import RedisTracer.Intervals
import RedisTracer.ClientAddress
import RedisTracer.SendResult
import RedisTracer.Leftmost
import RedisTracer.ScanPanics
import RedisTracer.CutCapture
import RedisTracer.Flamegraph
import RedisTracer.Config
import RedisTracer.Startup
import RedisTracer.PidPaths
import RedisTracer.Settings
import RedisTracer.Panels
import RedisTracer.PanelOrder
import RedisTracer.Collector
import RedisTracer.Progress
import RedisTracer.Exchanges
import RedisTracer.CollectorBooks
import RedisTracer.HelperCollector
import RedisTracer.HelperDelivery
import RedisTracer.Rankings
import RedisTracer.Symbolizer
import RedisTracer.Folding
import RedisTracer.Sampling
import RedisTracer.Records
import RedisTracer.Nearest
import RedisTracer.KallsymsText
import RedisTracer.MappingLookup
import RedisTracer.ElfAddresses
import RedisTracer.FrameNames
import RedisTracer.FoldedText
import RedisTracer.MapsText
import RedisTracer.Monitor
import RedisTracer.MonitorRuns
import RedisTracer.Detect
