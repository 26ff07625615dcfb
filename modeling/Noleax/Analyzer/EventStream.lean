import Mathlib.Logic.Function.Basic
import Noleax.Lib.SortedMap
import Noleax.Trace.EventCodec
import Noleax.Trace.MemoryCodec
import Noleax.Trace.MetadataCodec
import Noleax.Trace.ModuleCodec
import Noleax.Trace.SummaryCodec
import Noleax.Trace.TraceReader

/-!
# The event stream decoder (`src/analyzer/event_stream.cpp`)

`analyze_event_stream` over the bytes of a file. `log` is the sequence of callbacks that
the decoder calls; a callback that is not set is left out of it afterwards.
-/

namespace Noleax.Analyzer

open Lib Trace

/-! ## Options, callbacks and results -/

/-- `kDefaultMaximumRecordSize` -/
def defaultMaximumRecordSize : ℕ := 1024 * 1024

structure EventStreamOptions where
  readerOptions : TraceReaderOptions := {}
  maximumRecordSize : ℕ := defaultMaximumRecordSize

/-- A call of one of the `EventStreamCallbacks`. -/
inductive Callback where
  | fileHeader (header : FileHeader)
  | captureScope (scope : CaptureScope)
  | customHookDefinition (definition : CustomHookDefinition)
  | customHookFailure (failure : CustomHookFailure)
  | moduleLoad (load : ModuleLoad)
  | moduleUnload (unload : ModuleUnload)
  | stackDefinition (definition : StackDefinition)
  | event (event : Event)
  | loss (loss : LossRecord)
  | memoryCounters (counters : MemoryCounters)
  | memoryMap (map : MemoryMap)
  | agentMemory (memory : AgentMemory)
  | statistics (statistics : CaptureStatistics)
  | endOfTrace (trace : EndOfTrace)
deriving DecidableEq

/-- The records an `EventStreamResult` counts. -/
inductive Counter where
  | moduleLoad | moduleUnload | stackDefinition | event | loss | memoryCounters | memoryMap
  | agentMemory
deriving DecidableEq, Repr

def Counter.subject : Counter → String
  | moduleLoad => "module load"
  | moduleUnload => "module unload"
  | stackDefinition => "stack definition"
  | event => "event"
  | loss => "Loss record"
  | memoryCounters => "memory counters"
  | memoryMap => "memory map"
  | agentMemory => "agent memory"

structure EventStreamResult where
  fileHeader : FileHeader
  captureScope : CaptureScope
  customHooks : List CustomHookDefinition
  customHookFailures : List CustomHookFailure
  statistics : Option CaptureStatistics
  endOfTrace : Option EndOfTrace
  completeness : CompletenessReport
  knownSequenceEnd : ℕ
  knownMonotonicEnd : ℕ
  count : Counter → ℕ
  bufferConfiguration : Option BufferConfiguration
  bytesRead : ℕ
  truncated : Bool
  partiallyUnderstood : Bool

/-! ## Modules -/

structure ModuleState where
  load : ModuleLoad
  live : Bool := true
deriving DecidableEq, Repr

/-- `module_states_`, `live_modules_` and `previous_module_ticks_`. -/
structure ModuleTable where
  states : ℕ → Option ModuleState := fun _ => none
  live : SortedMap ℕ := []
  previousTicks : ℕ := 0

namespace ModuleTable

/-- A load must not reach its next live neighbour, nor start inside the one before. -/
def validateModuleRange (table : ModuleTable) (load : ModuleLoad) : Except Error Unit := do
  failIf (∃ next ∈ table.live.lowerBound load.baseAddress,
      ∀ state ∈ table.states next.2, state.load.baseAddress < load.baseAddress + load.imageSize)
    (.eventStream "live module address ranges overlap")
  failIf (∃ previous ∈ table.live.before load.baseAddress,
      ∀ state ∈ table.states previous.2,
        load.baseAddress < state.load.baseAddress + state.load.imageSize)
    (.eventStream "live module address ranges overlap")

def loadModule (table : ModuleTable) (load : ModuleLoad) : Except Error ModuleTable := do
  failIf ((table.states load.moduleId).isSome = true)
    (.eventStream "trace contains a duplicate ModuleLoad ID")
  validateModuleRange table load
  failIf (table.live.Contains load.baseAddress)
    (.eventStream "trace loads two live modules at the same base")
  return { table with
    states := Function.update table.states load.moduleId (some { load := load })
    live := table.live.insert load.baseAddress load.moduleId }

def unloadModule (table : ModuleTable) (unload : ModuleUnload) : Except Error ModuleTable :=
  match table.states unload.moduleId with
  | some { load := load, live := true } => do
      failIf (unload.monotonicTicks < load.monotonicTicks)
        (.eventStream "ModuleUnload precedes its ModuleLoad")
      return { table with
        states := Function.update table.states unload.moduleId
          (some { load := load, live := false })
        live := table.live.erase load.baseAddress }
  | _ => .error (.eventStream "ModuleUnload does not reference a live module generation")

def step (monotonicOrigin : ℕ) (table : ModuleTable) (record : ModuleRecord) :
    Except Error ModuleTable := do
  failIf (record.monotonicTicks < monotonicOrigin)
    (.eventStream "module record monotonic time precedes the trace origin")
  failIf (record.monotonicTicks < table.previousTicks)
    (.eventStream "module record monotonic ticks move backwards")
  let table := { table with previousTicks := record.monotonicTicks }
  match record with
  | .load load => table.loadModule load
  | .unload unload => table.unloadModule unload

end ModuleTable

/-! ## The decoder -/

/-- The order the events are checked against. -/
structure EventOrder where
  sawEvent : Bool := false
  previousSequence : ℕ := 0
  previousTicks : ℕ := 0

/-- `pending` are the issues noted before there is a scope. -/
structure EventStreamDecoder where
  maximumRecordSize : ℕ
  fileHeader : FileHeader
  log : List Callback := []
  captureScope : Option CaptureScope := none
  completeness : Option CompletenessTracker := none
  pending : CompletenessReport := ∅
  customHookApiIds : Finset ℕ := ∅
  customHooks : List CustomHookDefinition := []
  customHookFailures : List CustomHookFailure := []
  bufferConfiguration : Option BufferConfiguration := none
  modules : ModuleTable := {}
  stackIds : Finset ℕ := ∅
  order : EventOrder := {}
  previousMemoryTicks : ℕ := 0
  eventsPerApi : SortedMap ℕ := []
  count : Counter → ℕ := fun _ => 0
  knownSequenceEnd : ℕ := 0
  knownMonotonicEnd : ℕ := 0
  statistics : Option CaptureStatistics := none
  endOfTrace : Option EndOfTrace := none
  truncated : Bool := false
  sawEndChunk : Bool := false
  mayHaveUnknownEvents : Bool := false
  readerPartialMarked : Bool := false

abbrev DecoderM := EStateM Error EventStreamDecoder

def notify (callback : Callback) : DecoderM Unit :=
  modify fun dec => { dec with log := dec.log ++ [callback] }

/-- An issue goes to the tracker, or is kept for it. -/
def EventStreamDecoder.mark (dec : EventStreamDecoder) (issue : CompletenessIssue) :
    EventStreamDecoder :=
  match dec.completeness with
  | some tracker => { dec with completeness := some (tracker.mark issue) }
  | none => { dec with pending := insert issue dec.pending }

def markUnknownRecordSkipped : DecoderM Unit := modify (·.mark .unknownRecordSkipped)

def markPartiallyUnderstood : DecoderM Unit := modify (·.mark .partiallyUnderstoodFormat)

def markTraceTruncated : DecoderM Unit := modify (·.mark .traceTruncated)

def markCustomHookInstallFailed : DecoderM Unit := modify (·.mark .customHookInstallFailed)

def markUnknownEventData : DecoderM Unit := do
  modify fun dec => { dec with mayHaveUnknownEvents := true }
  markUnknownRecordSkipped

def DecoderM.checkedIncrement (counter : Counter) : DecoderM Unit := do
  let value := (← get).count counter
  check (failIf (value = maxU64) (.eventStream (counter.subject ++ " count overflow")))
  modify fun dec => { dec with count := Function.update dec.count counter (value + 1) }

/-- `checked_increment` of `events_per_api_[api_id]`. -/
def incrementEventsPerApi (apiId : ℕ) : DecoderM Unit := do
  let value := ((← get).eventsPerApi.lookup apiId).getD 0
  check (failIf (value = maxU64) (.eventStream "per-API event count overflow"))
  modify fun dec =>
    { dec with eventsPerApi := (dec.eventsPerApi.erase apiId).insert apiId (value + 1) }

def requireCaptureScope (message : String) : DecoderM Unit := do
  let dec ← get
  check (failIf (dec.captureScope = none ∨ dec.completeness = none) (.eventStream message))

/-- The tracker that `completeness_` holds when there is a scope. -/
def withTracker (f : CompletenessTracker → Except Error CompletenessTracker) : DecoderM Unit := do
  match (← get).completeness with
  | some tracker => do
      let tracker ← check (f tracker)
      modify fun dec => { dec with completeness := some tracker }
  | none => pure ()

def requireEmptySequenceRange (descriptor : ChunkDescriptor) : Except Error Unit :=
  failIf (descriptor.sequenceBegin ≠ 0)
    (.eventStream "non-event chunk has an event sequence range")

/-! ## Metadata -/

structure MetadataScan where
  scope : Option CaptureScope := none
  customHookApiIds : Finset ℕ
  bufferConfiguration : Option BufferConfiguration
  customHooks : List CustomHookDefinition := []
  customHookFailures : List CustomHookFailure := []
  skippedUnknown : Bool := false

namespace MetadataScan

def addScope (known : Option CaptureScope) (scan : MetadataScan) (scope : CaptureScope) :
    Except Error MetadataScan := do
  failIf (scan.scope ≠ none ∨ known ≠ none)
    (.eventStream "trace contains more than one CaptureScope record")
  return { scan with scope := some scope }

def addCustomHook (scan : MetadataScan) (definition : CustomHookDefinition) :
    Except Error MetadataScan := do
  failIf (definition.apiId ∈ scan.customHookApiIds)
    (.eventStream "trace contains a duplicate CustomHookDefinition api_id")
  return { scan with
    customHookApiIds := insert definition.apiId scan.customHookApiIds
    customHooks := scan.customHooks ++ [definition] }

def addBufferConfiguration (scan : MetadataScan) (configuration : BufferConfiguration) :
    Except Error MetadataScan := do
  failIf (scan.bufferConfiguration ≠ none)
    (.eventStream "trace contains more than one BufferConfiguration record")
  return { scan with bufferConfiguration := some configuration }

/-- The decoders are tried one after the other. -/
def step (known : Option CaptureScope) (scan : MetadataScan) (record : RecordView) :
    Except Error MetadataScan := do
  match ← decodeCaptureScopeRecord record with
  | some scope => scan.addScope known scope
  | none =>
  match ← decodeCustomHookDefinitionRecord record with
  | some definition => scan.addCustomHook definition
  | none =>
  match ← decodeCustomHookFailureRecord record with
  | some failure =>
      return { scan with customHookFailures := scan.customHookFailures ++ [failure] }
  | none =>
  match ← decodeBufferConfigurationRecord record with
  | some configuration => scan.addBufferConfiguration configuration
  | none => return { scan with skippedUnknown := true }

end MetadataScan

/-- The tracker that starts with the scope takes over the issues that were kept. -/
def startCaptureScope (scope : CaptureScope) : DecoderM Unit := do
  check (validateCaptureScope scope)
  modify fun dec =>
    let tracker := CompletenessTracker.start scope
    { dec with
      captureScope := some scope
      completeness := some { tracker with report := tracker.report ∪ dec.pending } }
  notify (.captureScope scope)

def deliverCustomHook (definition : CustomHookDefinition) : DecoderM Unit := do
  modify fun dec => { dec with customHooks := dec.customHooks ++ [definition] }
  notify (.customHookDefinition definition)

def deliverCustomHookFailure (failure : CustomHookFailure) : DecoderM Unit := do
  markCustomHookInstallFailed
  modify fun dec => { dec with customHookFailures := dec.customHookFailures ++ [failure] }
  notify (.customHookFailure failure)

def processMetadata (payload : Bytes) : DecoderM Unit := do
  let dec ← get
  let scan ← check (forRecords dec.maximumRecordSize (MetadataScan.step dec.captureScope)
    { customHookApiIds := dec.customHookApiIds, bufferConfiguration := dec.bufferConfiguration }
    payload)
  -- what a scan that throws has already noted is lost with the decoder
  modify fun dec => { dec with
    customHookApiIds := scan.customHookApiIds
    bufferConfiguration := scan.bufferConfiguration }
  scan.scope.forM startCaptureScope
  onlyIf scan.skippedUnknown markUnknownRecordSkipped
  scan.customHooks.forM deliverCustomHook
  scan.customHookFailures.forM deliverCustomHookFailure

/-! ## Modules and stacks -/

/-- The records a decoder knows, and whether there were others. -/
structure RecordScan (α : Type) where
  records : List α := []
  skippedUnknown : Bool := false

def RecordScan.step {α : Type} (decode : RecordView → Except Error (Option α))
    (scan : RecordScan α) (record : RecordView) : Except Error (RecordScan α) := do
  match ← decode record with
  | some value => return { scan with records := scan.records ++ [value] }
  | none => return { scan with skippedUnknown := true }

def deliverModule : ModuleRecord → DecoderM Unit
  | .load load => do
      DecoderM.checkedIncrement .moduleLoad
      notify (.moduleLoad load)
  | .unload unload => do
      DecoderM.checkedIncrement .moduleUnload
      notify (.moduleUnload unload)

def processModules (payload : Bytes) : DecoderM Unit := do
  requireCaptureScope "module record appears before CaptureScope"
  let dec ← get
  let scan ← check (forRecords dec.maximumRecordSize (RecordScan.step decodeModuleRecord) {}
    payload)
  let table ← check
    (scan.records.foldlM (ModuleTable.step dec.fileHeader.monotonicOrigin) dec.modules)
  modify fun dec => { dec with
    modules := table
    knownMonotonicEnd := max dec.knownMonotonicEnd table.previousTicks }
  onlyIf scan.skippedUnknown markUnknownRecordSkipped
  scan.records.forM deliverModule

def checkFrame (table : ModuleTable) (frame : StackFrame) : Except Error Unit :=
  if frame.moduleId = 0 then .ok ()
  else match table.states frame.moduleId with
    | none => .error (.eventStream "StackDefinition references an unknown module generation")
    | some state =>
        failIf (state.load.imageSize ≤ frame.moduleOffset ∨
            state.load.baseAddress + frame.moduleOffset ≠ frame.absoluteAddress)
          (.eventStream "StackDefinition module-relative frame is inconsistent")

structure StackScan where
  ids : Finset ℕ
  definitions : List StackDefinition := []
  skippedUnknown : Bool := false

def StackScan.add (table : ModuleTable) (scan : StackScan) (definition : StackDefinition) :
    Except Error StackScan := do
  failIf (definition.stackId ∈ scan.ids)
    (.eventStream "trace contains a duplicate StackDefinition ID")
  definition.frames.forM (checkFrame table)
  return { scan with
    ids := insert definition.stackId scan.ids
    definitions := scan.definitions ++ [definition] }

def StackScan.step (table : ModuleTable) (scan : StackScan) (record : RecordView) :
    Except Error StackScan := do
  match ← decodeStackDefinitionRecord record with
  | some definition => scan.add table definition
  | none => return { scan with skippedUnknown := true }

def deliverStack (definition : StackDefinition) : DecoderM Unit := do
  modify fun dec => { dec with stackIds := insert definition.stackId dec.stackIds }
  DecoderM.checkedIncrement .stackDefinition
  notify (.stackDefinition definition)

def processStacks (payload : Bytes) : DecoderM Unit := do
  requireCaptureScope "StackDefinition appears before CaptureScope"
  let dec ← get
  let scan ← check (forRecords dec.maximumRecordSize (StackScan.step dec.modules)
    { ids := dec.stackIds } payload)
  onlyIf scan.skippedUnknown markUnknownRecordSkipped
  scan.definitions.forM deliverStack

/-! ## Events -/

structure RecordBounds where
  sequenceBegin : ℕ := 0
  sequenceEnd : ℕ := 0
  maximumTicks : ℕ := 0

def RecordBounds.includeSequence (bounds : RecordBounds) (first last : ℕ) : RecordBounds :=
  { bounds with
    sequenceBegin :=
      if bounds.sequenceBegin = 0 ∨ first < bounds.sequenceBegin then first
      else bounds.sequenceBegin
    sequenceEnd := max bounds.sequenceEnd last }

def RecordBounds.includeTicks (bounds : RecordBounds) (ticks : ℕ) : RecordBounds :=
  { bounds with maximumTicks := max bounds.maximumTicks ticks }

structure EventScan where
  order : EventOrder
  bounds : RecordBounds := {}
  records : List EventChunkRecord := []
  skippedUnknown : Bool := false

namespace EventScan

def event (monotonicOrigin : ℕ) (scan : EventScan) (event : Event) : Except Error EventScan := do
  failIf (event.header.monotonicTicks < monotonicOrigin)
    (.eventStream "event monotonic time precedes the trace origin")
  failIf (scan.order.sawEvent = true ∧ event.header.sequence ≤ scan.order.previousSequence)
    (.eventStream "event sequences are not strictly increasing")
  failIf (scan.order.sawEvent = true ∧ event.header.monotonicTicks < scan.order.previousTicks)
    (.eventStream "event monotonic ticks move backwards")
  return { scan with
    order := ⟨true, event.header.sequence, event.header.monotonicTicks⟩
    bounds := (scan.bounds.includeSequence event.header.sequence event.header.sequence)
      |>.includeTicks event.header.monotonicTicks
    records := scan.records ++ [.event event] }

def loss (monotonicOrigin : ℕ) (scan : EventScan) (loss : LossRecord) :
    Except Error EventScan := do
  let bounds := match loss.sequenceRange with
    | some range => scan.bounds.includeSequence range.first range.last
    | none => scan.bounds
  match loss.tickRange with
  | some range => do
      failIf (range.first < monotonicOrigin)
        (.eventStream "Loss tick range precedes the trace origin")
      return { scan with
        bounds := bounds.includeTicks range.last
        records := scan.records ++ [.loss loss] }
  | none => return { scan with bounds := bounds, records := scan.records ++ [.loss loss] }

def step (monotonicOrigin : ℕ) (scan : EventScan) (record : RecordView) :
    Except Error EventScan := do
  match ← decodeEventChunkRecord record with
  | some (.event event) => scan.event monotonicOrigin event
  | some (.loss loss) => scan.loss monotonicOrigin loss
  | none => return { scan with skippedUnknown := true }

end EventScan

def validateEventSequenceRange (descriptor : ChunkDescriptor) (bounds : RecordBounds)
    (skippedUnknownRecord : Bool) : Except Error Unit := do
  failIf (bounds.sequenceBegin ≠ 0 ∧ descriptor.sequenceBegin = 0)
    (.eventStream "event chunk omits the sequence range of its records")
  failIf (bounds.sequenceBegin = 0 ∧ skippedUnknownRecord = false ∧ descriptor.sequenceBegin ≠ 0)
    (.eventStream "event chunk declares a sequence range without sequenced records")
  failIf (bounds.sequenceBegin ≠ 0 ∧ skippedUnknownRecord = true ∧
      (bounds.sequenceBegin < descriptor.sequenceBegin ∨
        descriptor.sequenceEnd < bounds.sequenceEnd))
    (.eventStream "event chunk sequence range does not cover its known records")
  failIf (bounds.sequenceBegin ≠ 0 ∧ skippedUnknownRecord = false ∧
      (descriptor.sequenceBegin ≠ bounds.sequenceBegin ∨
        descriptor.sequenceEnd ≠ bounds.sequenceEnd))
    (.eventStream "event chunk sequence range does not match its records")

def deliverEventRecord : EventChunkRecord → DecoderM Unit
  | .event event => do
      DecoderM.checkedIncrement .event
      incrementEventsPerApi event.header.apiId
      notify (.event event)
  | .loss loss => do
      DecoderM.checkedIncrement .loss
      withTracker (·.observeLoss loss)
      notify (.loss loss)

def requireNoStatistics : DecoderM Unit := do
  check (failIf ((← get).statistics ≠ none)
    (.eventStream "trace contains events after CaptureStatistics"))

/-- What is required of an event chunk, once in `process_chunk` and once in
`process_events`. -/
def requireEventsAllowed : DecoderM Unit := do
  requireCaptureScope "event chunk appears before CaptureScope"
  requireNoStatistics

def processEvents (descriptor : ChunkDescriptor) (payload : Bytes) : DecoderM Unit := do
  requireEventsAllowed
  let dec ← get
  let scan ← check (forRecords dec.maximumRecordSize
    (EventScan.step dec.fileHeader.monotonicOrigin) { order := dec.order } payload)
  check (validateEventSequenceRange descriptor scan.bounds scan.skippedUnknown)
  onlyIf scan.skippedUnknown markUnknownEventData
  modify fun dec => { dec with
    order := scan.order
    knownSequenceEnd := max dec.knownSequenceEnd scan.bounds.sequenceEnd
    knownMonotonicEnd := max dec.knownMonotonicEnd scan.bounds.maximumTicks }
  scan.records.forM deliverEventRecord

/-! ## Memory samples -/

structure MemoryScan where
  previousTicks : ℕ
  counters : List MemoryCounters := []
  maps : List MemoryMap := []
  samples : List AgentMemory := []
  skippedUnknown : Bool := false

namespace MemoryScan

/-- The ticks of a memory record; `subject` names its kind. -/
def stamp (monotonicOrigin : ℕ) (scan : MemoryScan) (ticks : ℕ) (subject : String) :
    Except Error MemoryScan := do
  failIf (ticks < monotonicOrigin)
    (.eventStream (subject ++ " monotonic time precedes the trace origin"))
  failIf (ticks < scan.previousTicks)
    (.eventStream "memory record monotonic ticks move backwards")
  return { scan with previousTicks := ticks }

def step (monotonicOrigin : ℕ) (scan : MemoryScan) (record : RecordView) :
    Except Error MemoryScan := do
  match ← decodeMemoryCountersRecord record with
  | some counters => do
      let scan ← scan.stamp monotonicOrigin counters.monotonicTicks "memory counters"
      return { scan with counters := scan.counters ++ [counters] }
  | none =>
  match ← decodeMemoryMapRecord record with
  | some map => do
      let scan ← scan.stamp monotonicOrigin map.monotonicTicks "memory map"
      return { scan with maps := scan.maps ++ [map] }
  | none =>
  match ← decodeAgentMemoryRecord record with
  | some memory => do
      let scan ← scan.stamp monotonicOrigin memory.monotonicTicks "agent memory"
      return { scan with samples := scan.samples ++ [memory] }
  | none => return { scan with skippedUnknown := true }

end MemoryScan

/-- A record that is only counted. -/
def deliverCounted (counter : Counter) (callback : Callback) : DecoderM Unit := do
  DecoderM.checkedIncrement counter
  notify callback

def processMemory (payload : Bytes) : DecoderM Unit := do
  requireCaptureScope "memory record appears before CaptureScope"
  let dec ← get
  let scan ← check (forRecords dec.maximumRecordSize
    (MemoryScan.step dec.fileHeader.monotonicOrigin) { previousTicks := dec.previousMemoryTicks }
    payload)
  onlyIf scan.skippedUnknown markUnknownRecordSkipped
  modify fun dec => { dec with previousMemoryTicks := scan.previousTicks }
  scan.counters.forM fun counters => deliverCounted .memoryCounters (.memoryCounters counters)
  scan.maps.forM fun map => deliverCounted .memoryMap (.memoryMap map)
  scan.samples.forM fun memory => deliverCounted .agentMemory (.agentMemory memory)

/-! ## Statistics and the end -/

/-- A record that occurs once in a trace. -/
structure SingleScan (α : Type) where
  value : Option α := none
  skippedUnknown : Bool := false

def SingleScan.step {α : Type} (decode : RecordView → Except Error (Option α)) (known : Bool)
    (what : String) (scan : SingleScan α) (record : RecordView) :
    Except Error (SingleScan α) := do
  match ← decode record with
  | some value => do
      failIf (scan.value.isSome = true ∨ known = true) (.eventStream what)
      return { scan with value := some value }
  | none => return { scan with skippedUnknown := true }

/-- What the statistics say was recorded is what was decoded, where all of it is known. -/
abbrev MatchesRecorded (mayHaveUnknownEvents : Bool) (recorded decoded : ℕ) : Prop :=
  decoded ≤ recorded ∧ (mayHaveUnknownEvents = false → recorded = decoded)

/-- The entry of an API. -/
def findApi (statistics : CaptureStatistics) (apiId : ℕ) : Option ApiStatistics :=
  statistics.perApi.find? fun api => api.apiId = apiId

def checkStatistics (dec : EventStreamDecoder) (statistics : CaptureStatistics) :
    Except Error Unit := do
  failIf (¬ MatchesRecorded dec.mayHaveUnknownEvents statistics.recordedEvents
      (dec.count .event))
    (.eventStream "CaptureStatistics does not match decoded event count")
  failIf (∃ known ∈ dec.eventsPerApi, ¬ ∃ api ∈ findApi statistics known.1,
      MatchesRecorded dec.mayHaveUnknownEvents api.recordedEvents known.2)
    (.eventStream "CaptureStatistics does not match decoded per-API events")

def acceptStatistics (statistics : CaptureStatistics) : DecoderM Unit := do
  check (checkStatistics (← get) statistics)
  modify fun dec => { dec with statistics := some statistics }
  notify (.statistics statistics)

def processStatistics (payload : Bytes) : DecoderM Unit := do
  requireCaptureScope "CaptureStatistics appears before CaptureScope"
  let dec ← get
  let scan ← check (forRecords dec.maximumRecordSize
    (SingleScan.step decodeStatisticsRecord dec.statistics.isSome
      "trace contains more than one CaptureStatistics record") {} payload)
  onlyIf scan.skippedUnknown markUnknownRecordSkipped
  scan.value.forM acceptStatistics

def checkEndOfTrace (dec : EventStreamDecoder) (trace : EndOfTrace) : Except Error Unit := do
  failIf (trace.finalMonotonicTicks < dec.fileHeader.monotonicOrigin)
    (.eventStream "EndOfTrace monotonic time precedes the trace origin")
  failIf (trace.finalSequence < dec.knownSequenceEnd ∨
      trace.finalMonotonicTicks < dec.knownMonotonicEnd)
    (.eventStream "EndOfTrace precedes decoded event or Loss bounds")

def acceptEndOfTrace (trace : EndOfTrace) : DecoderM Unit := do
  check (checkEndOfTrace (← get) trace)
  withTracker (·.observeEndOfTrace trace)
  modify fun dec => { dec with endOfTrace := some trace }
  notify (.endOfTrace trace)

def processEndOfTrace (payload : Bytes) : DecoderM Unit := do
  requireCaptureScope "EndOfTrace appears before CaptureScope"
  let dec ← get
  let scan ← check (forRecords dec.maximumRecordSize
    (SingleScan.step decodeEndOfTraceRecord dec.endOfTrace.isSome
      "trace contains more than one EndOfTrace record") {} payload)
  onlyIf scan.skippedUnknown markUnknownRecordSkipped
  scan.value.forM acceptEndOfTrace

/-! ## Chunks -/

def markEndChunk : DecoderM Unit := modify fun dec => { dec with sawEndChunk := true }

def includeFutureEventRange (descriptor : ChunkDescriptor) : DecoderM Unit :=
  modify fun dec => { dec with knownSequenceEnd := max dec.knownSequenceEnd descriptor.sequenceEnd }

/-- What a chunk of a newer version may have held. -/
def skipFutureData (descriptor : ChunkDescriptor) : DecoderM Unit :=
  if descriptor.type = .event then do
    markUnknownEventData
    includeFutureEventRange descriptor
  else markUnknownRecordSkipped

/-- A chunk of a version this decoder does not know. -/
def skipFutureChunk (descriptor : ChunkDescriptor) : DecoderM Unit := do
  markPartiallyUnderstood
  skipFutureData descriptor
  onlyIf (descriptor.type = .endOfTrace) markEndChunk

def processKnownChunk (descriptor : ChunkDescriptor) (payload : Bytes) : DecoderM Unit :=
  match descriptor.type with
  | .metadata => do
      check (requireEmptySequenceRange descriptor)
      processMetadata payload
  | .module => do
      check (requireEmptySequenceRange descriptor)
      processModules payload
  | .stack => do
      check (requireEmptySequenceRange descriptor)
      processStacks payload
  | .event => processEvents descriptor payload
  | .memory => do
      check (requireEmptySequenceRange descriptor)
      processMemory payload
  | .statistics => do
      check (requireEmptySequenceRange descriptor)
      processStatistics payload
  | .endOfTrace => do
      check (requireEmptySequenceRange descriptor)
      processEndOfTrace payload
      markEndChunk

def processChunk (chunk : TraceChunk) : DecoderM Unit := do
  let descriptor := chunk.header.descriptor
  onlyIf (descriptor.flags ≠ 0) markPartiallyUnderstood
  onlyIf (descriptor.type = .event) requireEventsAllowed
  if descriptor.version ≠ 1 then skipFutureChunk descriptor
  else processKnownChunk descriptor chunk.payload

/-! ## The file -/

/-- The decoder at work: `reader_`, and all else. -/
structure StreamRun where
  reader : TraceReader
  decoder : EventStreamDecoder

abbrev RunM := EStateM Error StreamRun

def withReader {α : Type} (x : ReaderM α) : RunM α := fun stream =>
  match x stream.reader with
  | .ok a reader => .ok a { stream with reader := reader }
  | .error e reader => .error e { stream with reader := reader }

def withDecoder {α : Type} (x : DecoderM α) : RunM α := fun stream =>
  match x stream.decoder with
  | .ok a decoder => .ok a { stream with decoder := decoder }
  | .error e decoder => .error e { stream with decoder := decoder }

/-- `synchronize_reader_understanding` -/
def EventStreamDecoder.synchronize (dec : EventStreamDecoder) (partiallyUnderstood : Bool) :
    EventStreamDecoder :=
  if partiallyUnderstood = true ∧ dec.readerPartialMarked = false then
    { dec with readerPartialMarked := true, mayHaveUnknownEvents := true }.mark
      .partiallyUnderstoodFormat
  else dec

def synchronize : RunM Unit := modify fun stream =>
  { stream with decoder := stream.decoder.synchronize stream.reader.partiallyUnderstood }

def acceptChunk (chunk : TraceChunk) : DecoderM Unit := do
  check (failIf ((← get).sawEndChunk = true)
    (.eventStream "trace contains a chunk after EndOfTrace"))
  processChunk chunk

def acceptTruncation : DecoderM Unit := do
  modify fun dec => { dec with truncated := true }
  markTraceTruncated

section Run

variable (options : TraceReaderOptions) (decompressors : Decompressors)

/-- One round of the loop of `run`; whether it ends the loop. -/
def round : RunM (Option Unit) := do
  let result ← withReader (readNextChunk options decompressors)
  synchronize
  match result with
  | .ended .endOfFile => return some ()
  | .ended .truncated => do
      withDecoder acceptTruncation
      return some ()
  | .chunk chunk => do
      withDecoder (acceptChunk chunk)
      return none

/-- Every chunk is shorter than what was left of the input. -/
def readAll : RunM Unit := loopBy (·.reader.input.length) (round options decompressors) ()

end Run

def CompletenessReport.PartiallyUnderstood (report : CompletenessReport) : Prop :=
  .unknownRecordSkipped ∈ report ∨ .partiallyUnderstoodFormat ∈ report ∨
    ∃ bit, .unknown bit ∈ report

instance (report : CompletenessReport) :
    Decidable (CompletenessReport.PartiallyUnderstood report) := by
  unfold CompletenessReport.PartiallyUnderstood
  infer_instance

/-- What `run` returns at the end of the stream. -/
def StreamRun.result (stream : StreamRun) : Except Error EventStreamResult :=
  let dec := stream.decoder
  match dec.captureScope, dec.completeness with
  | some scope, some tracker => .ok {
      fileHeader := dec.fileHeader
      captureScope := scope
      customHooks := dec.customHooks
      customHookFailures := dec.customHookFailures
      statistics := dec.statistics
      endOfTrace := dec.endOfTrace
      completeness := tracker.report
      knownSequenceEnd := dec.knownSequenceEnd
      knownMonotonicEnd := dec.knownMonotonicEnd
      count := dec.count
      bufferConfiguration := dec.bufferConfiguration
      bytesRead := stream.reader.bytesRead
      truncated := dec.truncated
      partiallyUnderstood := decide (CompletenessReport.PartiallyUnderstood tracker.report) }
  | _, _ => .error (.eventStream "trace does not contain a CaptureScope record")

def run (options : TraceReaderOptions) (decompressors : Decompressors) :
    RunM EventStreamResult := do
  withDecoder (do notify (.fileHeader (← get).fileHeader))
  synchronize
  readAll options decompressors
  check (← get).result

/-- What `analyze_event_stream` returns or throws, and the callbacks it called before. -/
structure Analysis where
  log : List Callback
  outcome : Except Error EventStreamResult

def analyzeEventStream (options : EventStreamOptions) (decompressors : Decompressors)
    (input : Bytes) : Analysis :=
  match openTrace options.readerOptions input with
  | .error e => ⟨[], .error e⟩
  | .ok (header, reader) =>
      match run options.readerOptions decompressors
        ⟨reader, { maximumRecordSize := options.maximumRecordSize, fileHeader := header }⟩ with
      | .ok result stream => ⟨stream.decoder.log, .ok result⟩
      | .error e stream => ⟨stream.decoder.log, .error e⟩

end Noleax.Analyzer
