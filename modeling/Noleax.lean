import Noleax.Agent.Finalize
import Noleax.Agent.HookContract
import Noleax.Analyzer.EventStream
import Noleax.Analyzer.TrackerRuns
import Noleax.Capture.FailedRealloc
import Noleax.Capture.LossExactness
import Noleax.Heap.Agreement
import Noleax.Lifecycle.ExitFinalize
import Noleax.Lib.Bytes
import Noleax.Lifecycle.Quiescence
import Noleax.Queue.Linearizable
import Noleax.Vm.Agreement
import Noleax.Vm.ShrinkInPlace
import Noleax.Trace.Snapshot
import Noleax.Trace.EventCodec
import Noleax.Trace.FileFormat
import Noleax.Trace.FileRoundTrip
import Noleax.Trace.MemoryCodec
import Noleax.Trace.MetadataCodec
import Noleax.Trace.ModuleCodec
import Noleax.Trace.SummaryCodec
import Noleax.Analyzer.StreamSteps
import Noleax.Trace.ReaderSteps
import Noleax.Agent.HookCounters
import Noleax.Analyzer.TrackerAtomic
import Noleax.Capture.Predictions
import Noleax.Hooks.LiveStatus
import Noleax.Vm.DontUnmap
import Noleax.Vm.Pages
import Noleax.Hooks.CutOff
import Noleax.Hooks.Quiesced
import Noleax.Windows.EventPlan
import Noleax.Windows.TraceWriter
import Noleax.Windows.Conservation
import Noleax.Windows.Dropping
import Noleax.Windows.EventRuns
import Noleax.Windows.FileLimit
import Noleax.Windows.HeapDestroy
import Noleax.Windows.Interleavings
import Noleax.Analyzer.MemoryLossless
import Noleax.Analyzer.MemoryTrace
import Noleax.Analyzer.ModuleGlob
import Noleax.Lib.Chains
import Noleax.Trace.PartialMap
import Noleax.Windows.StackDictionary
import Noleax.Windows.StackInterning
import Noleax.Controller.HeaderSlot
import Noleax.Analyzer.Filter
import Noleax.Analyzer.StackCounting
import Noleax.Agent.MapsSummary
import Noleax.Analyzer.Utf8
import Noleax.Lib.Remainder
import Noleax.Trace.Checksum
import Noleax.Trace.RecordCursor
import Noleax.Analyzer.Csv
import Noleax.Elf.Format
import Noleax.Elf.FunctionLookup
import Noleax.Elf.SymbolScan
import Noleax.Elf.SymbolScanExact
import Noleax.Agent.MemoryAccounting
import Noleax.Elf.Debuglink
import Noleax.Elf.DebuglinkChange
import Noleax.Elf.LookupAgreement
import Noleax.Lifecycle.FailedInstall
import Noleax.Ipc.Codec
import Noleax.Ipc.Transport
import Noleax.Lib.Exchange
import Noleax.Lifecycle.CaptureLifecycle
import Noleax.Lifecycle.Conclusion
import Noleax.Session.Serving
import Noleax.Session.SessionProtocol
import Noleax.Analyzer.EffectiveWindow
import Noleax.Analyzer.OutstandingExact
import Noleax.Agent.ModuleDrain
import Noleax.Capture.ModuleAgreement
import Noleax.Capture.TrackedModules
import Noleax.Analyzer.Intake
import Noleax.Analyzer.IntakeChunks
import Noleax.Analyzer.IntakeTrace
