import Noleax.Agent.TraceWriter

/-!
# Modules, samples and the end of a trace (`agent/linux/trace_writer.cpp`)

`process_module_event`, the memory samples, the metadata, `finalize_trace` and
`write_error_tail`.
-/

namespace Noleax.Agent

open Lib Trace

inductive RawModuleEventType where
  | load | unload
deriving DecidableEq, Repr

structure RawModuleEvent where
  monotonicTicks : ℕ := 0
  baseAddress : ℕ := 0
  imageSize : ℕ := 0
  initialSnapshot : Bool := false
  pathTruncated : Bool := false
  type : RawModuleEventType := .load
  path : Bytes := []
deriving DecidableEq, Repr

def unknownModulePath (baseAddress : ℕ) : Bytes :=
  ("<unknown-module-0x" ++ String.ofList (Nat.toDigits 16 baseAddress) ++ ">").toUTF8.toList

namespace LinuxTraceWriter

open WriterM

variable (options : WriterOptions)

/-! ## Modules -/

/-- The time a module record carries. -/
def moduleTicks (w : LinuxTraceWriter) (raw : RawModuleEvent) : Except Error ℕ := do
  -- the snapshot of the construction may precede the file's origin
  failIf (raw.initialSnapshot = false ∧ raw.monotonicTicks < options.monotonicOrigin)
    (.invalidArgument "raw module event precedes the trace origin")
  let ticks := if raw.initialSnapshot then max raw.monotonicTicks options.monotonicOrigin
    else raw.monotonicTicks
  return max ticks w.lastModuleTicks

def moduleLoad (raw : RawModuleEvent) (moduleId ticks : ℕ) : ModuleLoad where
  moduleId := moduleId
  monotonicTicks := ticks
  baseAddress := raw.baseAddress
  imageSize := raw.imageSize
  imagePath := if raw.path = [] then unknownModulePath raw.baseAddress else raw.path
  flags := if raw.path = [] ∨ raw.pathTruncated = true then pathTruncatedFlag else 0

/-- A module change ends the buffered events. -/
def flushBeforeModule : WriterM Unit := do
  if (← get).pendingEventCount ≠ 0 then flushPending options

def loadModule (raw : RawModuleEvent) (ticks : ℕ) : WriterM Unit := do
  let w ← get
  lift (failIf (raw.imageSize = 0)
    (.invalidArgument "raw module load has an empty image range"))
  lift (failIf (w.liveModules.Contains raw.baseAddress)
    (.runtime "module load overlaps a live module generation"))
  lift (failIf (w.nextModuleId = maxU64) (.overflow "module ID space is exhausted"))
  flushBeforeModule options
  let w ← get
  let load := moduleLoad raw w.nextModuleId ticks
  set { w with nextModuleId := w.nextModuleId + 1 }
  lift (validateModuleLoad load)
  modify fun w => { w with
    modulePayload := w.modulePayload ++ [.load load]
    liveModules := w.liveModules.insert raw.baseAddress ⟨load.moduleId, raw.imageSize⟩ }

def unloadModule (raw : RawModuleEvent) (existing : LiveModule) (ticks : ℕ) : WriterM Unit := do
  flushBeforeModule options
  let unload : ModuleUnload := ⟨existing.moduleId, ticks⟩
  lift (validateModuleUnload unload)
  modify fun w => { w with
    modulePayload := w.modulePayload ++ [.unload unload]
    liveModules := w.liveModules.erase raw.baseAddress }

def modulePayloadSize (w : LinuxTraceWriter) : ℕ :=
  options.encoding.payloadSize (.modules w.modulePayload)

/-- The end of `process_module_event`. -/
def settleModule (ticks : ℕ) : WriterM Unit := do
  modify fun w => { w with lastModuleTicks := ticks }
  if options.chunkTargetSize ≤ (← get).modulePayloadSize options then flushModulePayload options

def processModuleEvent (raw : RawModuleEvent) : WriterM Unit := do
  lift (failIf (raw.baseAddress = 0) (.invalidArgument "raw module event is invalid"))
  let w ← get
  let ticks ← lift (w.moduleTicks options raw)
  match raw.type with
  | .load => do
      loadModule options raw ticks
      settleModule options ticks
  | .unload =>
      match w.liveModules.lookup raw.baseAddress with
      | none => set { w with lastModuleTicks := ticks }
      | some existing => do
          unloadModule options raw existing ticks
          settleModule options ticks

/-! ## Memory samples -/

/-- `capture_memory_snapshot`; `samples` are the records the samplers deliver. -/
def captureMemorySnapshot (now : ℕ) (samples : List (ℕ → MemoryRecord)) : WriterM Unit := do
  let w ← get
  if w.fileLimitReached then return ()
  else do
    let ticks := max now (max w.lastMemoryTicks options.monotonicOrigin)
    set { w with lastMemoryTicks := ticks }
    if samples ≠ [] then
      let _ ← writeDataChunk options { payload := .memory (samples.map (· ticks)) }

structure MemoryBaseline where
  monotonicTicks : ℕ
  hasCounters : Bool

def MemoryBaseline.records (baseline : MemoryBaseline) : List MemoryRecord :=
  (if baseline.hasCounters then [.counters baseline.monotonicTicks] else []) ++
    [.agent baseline.monotonicTicks]

def writeMemoryBaselines (baselines : List MemoryBaseline) : WriterM Unit := do
  if baselines = [] then return ()
  else do
    modify fun w => { w with
      lastMemoryTicks := baselines.foldl (fun ticks b => max ticks b.monotonicTicks)
        w.lastMemoryTicks }
    let _ ← writeDataChunk options
      { payload := .memory (baselines.flatMap MemoryBaseline.records) }

/-! ## The beginning -/

def metadataRecords : List MetadataRecord :=
  [.captureScope options.captureScope] ++
    (if options.bufferConfiguration then [.bufferConfiguration] else []) ++
    (List.range options.customHooks).map (.customHookDefinition <| customHookApiIdBase + ·) ++
    List.replicate options.customHookFailures .customHookFailure

/-- `write_metadata`; it writes past `write_chunk`, so a limit here is no file limit
but an exception. -/
def writeMetadata : WriterM Unit := do
  if (← get).metadataWritten then return ()
  else do
    modify fun w => { w with metadataWritten := true }
    streamOperation options "trace output stream write failed"
    let w ← get
    match ← lift (w.file.writeChunk options.trace options.encoding
        { payload := .metadata (metadataRecords options) } true) with
    | none => throw (.traceWrite "trace file limit cannot hold CaptureScope metadata")
    | some file => set { w with file := file }

def beginCapture (baselines : List MemoryBaseline) : WriterM Unit := do
  writeMetadata options
  flushStream options
  writeMemoryBaselines options baselines

def collectModuleDrops (count : ℕ) : WriterM Unit := do
  let w ← get
  let total ← lift (checkedAdd w.moduleNotificationDrops count
    "module notification drop count overflow")
  set { w with moduleNotificationDrops := total }

def collectQueueDrops (count : ℕ) : WriterM Unit := do
  let w ← get
  let total ← lift (checkedAdd w.queueDroppedEvents count "queue drop count overflow")
  set { w with queueDroppedEvents := total }

/-! ## Loss records -/

def queueFullLoss (count : ℕ) : LossRecord where
  reason := .queueFull
  location := .agentQueue
  estimatedEventCount := some count

def traceFullLoss (w : LinuxTraceWriter) : LossRecord where
  reason := .traceFull
  location := .writer
  estimatedEventCount := some w.traceDroppedEvents
  sequenceRange := some ⟨w.traceDropSequenceBegin, w.traceDropSequenceEnd⟩
  tickRange := some ⟨w.traceDropTickBegin, w.traceDropTickEnd⟩

/-- Observe a loss and append its record. -/
def appendLoss (records : List EventChunkRecord) (loss : LossRecord) :
    WriterM (List EventChunkRecord) := do
  let w ← get
  let completeness ← lift (w.completeness.observeLoss loss)
  set { w with completeness := completeness }
  lift (validateLossRecord loss)
  return records ++ [.loss loss]

/-- A drop counter that is zero has no record. -/
def appendCollected (records : List EventChunkRecord) (count : ℕ) (loss : LossRecord) :
    WriterM (List EventChunkRecord) :=
  if count ≠ 0 then appendLoss records loss else pure records

def appendCollectedLossRecords : WriterM (List EventChunkRecord) := do
  let w ← get
  let records ← appendCollected [] w.moduleNotificationDrops
    (queueFullLoss w.moduleNotificationDrops)
  let records ← appendCollected records w.queueDroppedEvents (queueFullLoss w.queueDroppedEvents)
  appendCollected records w.traceDroppedEvents w.traceFullLoss

/-! ## Statistics -/

/-- Add an API to the aggregate. -/
def addApiStatistics (statistics : CaptureStatistics) (api : ApiStatistics) :
    Except Error CaptureStatistics := do
  let observed ← checkedAdd statistics.observedCalls api.observedCalls
    "aggregate observed call count overflow"
  let successful ← checkedAdd statistics.successfulOperations api.successfulOperations
    "aggregate successful operation count overflow"
  let failed ← checkedAdd statistics.failedOperations api.failedOperations
    "aggregate failed operation count overflow"
  let filtered ← checkedAdd statistics.filteredBeforeQueue api.filteredBeforeQueue
    "aggregate filtered operation count overflow"
  let dropped ← checkedAdd statistics.droppedEvents api.droppedEvents
    "aggregate dropped event count overflow"
  return { statistics with
    observedCalls := observed
    successfulOperations := successful
    failedOperations := failed
    filteredBeforeQueue := filtered
    droppedEvents := dropped
    perApi := statistics.perApi ++ [api] }

def notReconciled : Error :=
  .runtime "glibc heap hook counters do not reconcile with drained trace events"

/-- The statistics of one API from the drained events. -/
def drainedStatistics (apiId : ℕ) (counters : ApiCounters) : Except Error ApiStatistics := do
  let observed ← checkedAdd counters.successful counters.failed
    "per-API observed call count overflow"
  let accounted ← checkedAdd counters.written counters.traceDropped
    "accounted per-API event count overflow"
  failIf (accounted ≠ observed) notReconciled
  return {
    apiId := apiId
    observedCalls := observed
    successfulOperations := counters.successful
    failedOperations := counters.failed
    droppedEvents := counters.traceDropped }

/-- The statistics of one API from the producer's counters. -/
def producerStatistics (apiId : ℕ) (counters : ApiCounters) (snapshot : ApiCounterSnapshot) :
    Except Error ApiStatistics := do
  let observed ← checkedAdd snapshot.recordableCalls counters.extraRecords
    "per-API observed record count overflow"
  let successful ← checkedAdd snapshot.successfulCalls counters.extraRecords
    "per-API successful record count overflow"
  let dropped ← checkedAdd snapshot.droppedEvents counters.traceDropped
    "per-API dropped event count overflow"
  failIf (snapshot.recordableCalls ≠
      (snapshot.successfulCalls + snapshot.failedCalls) % 2 ^ 64)
    (.runtime "glibc heap hook counters do not reconcile (recordable != successful + failed)")
  let accounted ← checkedAdd counters.written snapshot.filteredCalls
    "accounted per-API filtered count overflow"
  let accounted ← checkedAdd accounted dropped "accounted per-API drop count overflow"
  failIf (accounted ≠ observed) notReconciled
  return {
    apiId := apiId
    observedCalls := observed
    successfulOperations := successful
    failedOperations := snapshot.failedCalls
    filteredBeforeQueue := snapshot.filteredCalls
    droppedEvents := dropped }

/-- The snapshot of an API, if the producer has one. -/
def snapshotOf (errorTail : Bool) (apiId : ℕ) : Option ApiCounterSnapshot :=
  match options.counterSource with
  | none => none
  | some source => (source errorTail).find? fun snapshot => snapshot.apiId = apiId

/-- The totals of the file and of the stacks. -/
def withFileTotals (w : LinuxTraceWriter) (statistics : CaptureStatistics) : CaptureStatistics :=
  { statistics with
    uniqueStacks := w.uniqueStacks
    reusedStacks := w.reusedStacks
    writtenUncompressedBytes := w.file.uncompressedPayloadBytesWritten
    writtenStoredBytes := w.file.storedPayloadBytesWritten }

/-- The aggregate over all APIs. -/
def sumStatistics (api : ℕ → Except Error ApiStatistics) : Except Error CaptureStatistics :=
  options.apiIds.foldlM (fun statistics apiId => do addApiStatistics statistics (← api apiId)) {}

def apiStatistics (w : LinuxTraceWriter) (apiId : ℕ) : Except Error ApiStatistics :=
  match snapshotOf options false apiId with
  | some snapshot => producerStatistics apiId (w.counters apiId) snapshot
  | none => drainedStatistics apiId (w.counters apiId)

def makeStatistics (w : LinuxTraceWriter) : Except Error CaptureStatistics := do
  let statistics ← sumStatistics options (w.apiStatistics options)
  let statistics := w.withFileTotals statistics
  let completed ← checkedAdd statistics.successfulOperations statistics.failedOperations
    "completed operation count overflow"
  let accounted ← checkedAdd w.writtenEvents statistics.filteredBeforeQueue
    "accounted filtered event count overflow"
  let accounted ← checkedAdd accounted statistics.droppedEvents "accounted event count overflow"
  failIf (completed ≠ statistics.observedCalls ∨ accounted ≠ statistics.observedCalls)
    (.runtime "hook counters do not reconcile with drained trace events")
  return statistics

/-! ## The orderly end -/

def finalMonotonicTicks (w : LinuxTraceWriter) : ℕ :=
  max (max (max w.lastTicks w.lastModuleTicks) w.lastMemoryTicks) options.monotonicOrigin

def normalEnd (w : LinuxTraceWriter) : EndOfTrace where
  finalSequence := w.lastWireSequence
  finalMonotonicTicks := w.finalMonotonicTicks options
  normalStop := true
  aggregateCompleteness := w.completeness.report.erase .missingEndOfTrace

def writeStatistics (statistics : CaptureStatistics) : WriterM Unit := do
  lift (validateStatistics statistics)
  let written ← writeTerminalChunk options { payload := .statistics statistics }
  modify fun w => { w with statisticsWritten := written }

def writeEndOfTrace (trace : EndOfTrace) : WriterM Unit := do
  lift (validateEndOfTrace trace)
  let written ← writeTerminalChunk options { payload := .endOfTrace trace }
  modify fun w => { w with endOfTraceWritten := written }

def writeTerminalRecords (statistics : CaptureStatistics) : WriterM Unit := do
  writeStatistics options statistics
  writeEndOfTrace options ((← get).normalEnd options)
  flushStream options

def releaseReserve : WriterM Unit :=
  modify fun w => { w with file := w.file.releaseFileReserve }

/-- The Loss chunk of an orderly end. -/
def lossChunk (w : LinuxTraceWriter) (losses : List EventChunkRecord) : Chunk where
  payload := .events losses
  sequenceBegin := if w.traceDroppedEvents = 0 then 0 else w.traceDropSequenceBegin
  sequenceEnd := if w.traceDroppedEvents = 0 then 0 else w.traceDropSequenceEnd

def writeCollectedLosses : WriterM Unit := do
  let losses ← appendCollectedLossRecords
  if losses ≠ [] then
    let _ ← writeTerminalChunk options ((← get).lossChunk losses)

def finalizeTrace : WriterM Unit := do
  releaseReserve
  writeCollectedLosses options
  let statistics ← lift ((← get).makeStatistics options)
  writeTerminalRecords options statistics

/-- The capture never began. -/
def finalizeEmptyTrace : WriterM Unit := do
  writeMetadata options
  releaseReserve
  writeTerminalRecords options { perApi := options.apiIds.map fun apiId => { apiId := apiId } }

/-! ## The error tail -/

/-- Run a stage and keep going; the result says whether it failed. -/
def attempt (stage : WriterM Unit) : WriterM (Option Error) := fun w =>
  match stage w with
  | .ok _ w => .ok none w
  | .error e w => .ok (some e) w

/-- The sum of a counter over all APIs. -/
def totalOf (w : LinuxTraceWriter) (field : ApiCounters → ℕ) : ℕ :=
  (options.apiIds.map fun apiId => field (w.counters apiId)).sum

def consumedButUnwrittenEvents (w : LinuxTraceWriter) : Except Error ℕ := do
  let consumed := w.totalOf options fun counters => counters.successful + counters.failed
  let written := w.totalOf options ApiCounters.written
  failIf (maxU64 < consumed) (.overflow "error-tail consumed count overflow")
  failIf (maxU64 < written) (.overflow "error-tail written count overflow")
  if consumed < (written + w.traceDroppedEvents) % 2 ^ 64 then return 0
  else return (consumed + 2 ^ 64 - written + 2 ^ 64 - w.traceDroppedEvents) % 2 ^ 64

def writerErrorLoss (unwritten : ℕ) : LossRecord where
  reason := .writerError
  location := .writer
  estimatedEventCount := if unwritten = 0 then none else some unwritten

def writeErrorLoss : WriterM Unit := do
  let losses ← appendCollectedLossRecords
  let unwritten ← lift ((← get).consumedButUnwrittenEvents options)
  let losses ← appendLoss losses (writerErrorLoss unwritten)
  let _ ← writeTerminalChunk options { payload := .events losses }

def drainedErrorStatistics (apiId : ℕ) (counters : ApiCounters) : Except Error ApiStatistics := do
  let observed ← checkedAdd counters.successful counters.failed
    "error-tail observed operation count overflow"
  failIf (observed < counters.written)
    (.runtime "error-tail written event count exceeds observed operations")
  return {
    apiId := apiId
    observedCalls := observed
    successfulOperations := counters.successful
    failedOperations := counters.failed
    droppedEvents := observed - counters.written }

def producerErrorStatistics (apiId : ℕ) (counters : ApiCounters)
    (snapshot : ApiCounterSnapshot) : Except Error ApiStatistics := do
  failIf (snapshot.recordableCalls ≠
      (snapshot.successfulCalls + snapshot.failedCalls) % 2 ^ 64)
    (.runtime "glibc heap hook counters do not reconcile (recordable != successful + failed)")
  let observed ← checkedAdd snapshot.recordableCalls counters.extraRecords
    "error-tail observed record count overflow"
  let successful ← checkedAdd snapshot.successfulCalls counters.extraRecords
    "error-tail successful record count overflow"
  failIf (observed < counters.written ∨ observed - counters.written < snapshot.filteredCalls)
    notReconciled
  return {
    apiId := apiId
    observedCalls := observed
    successfulOperations := successful
    failedOperations := snapshot.failedCalls
    filteredBeforeQueue := snapshot.filteredCalls
    droppedEvents := observed - counters.written - snapshot.filteredCalls }

def errorApiStatistics (w : LinuxTraceWriter) (apiId : ℕ) : Except Error ApiStatistics :=
  match snapshotOf options true apiId with
  | some snapshot => producerErrorStatistics apiId (w.counters apiId) snapshot
  | none => drainedErrorStatistics apiId (w.counters apiId)

def makeErrorStatistics (w : LinuxTraceWriter) : Except Error CaptureStatistics := do
  let statistics ← sumStatistics options (w.errorApiStatistics options)
  return w.withFileTotals statistics

def writeErrorStatistics : WriterM Unit := do
  let statistics ← lift ((← get).makeErrorStatistics options)
  writeStatistics options statistics

def abnormalEnd (w : LinuxTraceWriter) : EndOfTrace where
  finalSequence := w.lastWireSequence
  finalMonotonicTicks := w.finalMonotonicTicks options
  normalStop := false
  aggregateCompleteness :=
    (insert .abnormalStop w.completeness.report).erase .missingEndOfTrace

def writeErrorEnd : WriterM Unit := do
  writeEndOfTrace options ((← get).abnormalEnd options)

/-- `write_error_tail`; every stage runs, the first failure is rethrown. -/
def writeErrorTail : WriterM Unit := do
  let w ← get
  if w.errorTailAttempted ∨ w.endOfTraceWritten then return ()
  else do
    modify fun w => { w with errorTailAttempted := true }
    releaseReserve
    let lossFailure ← attempt (writeErrorLoss options)
    let statisticsFailure ← if (← get).statisticsWritten = false
      then attempt (writeErrorStatistics options) else pure none
    let endFailure ← attempt (writeErrorEnd options)
    match lossFailure.or (statisticsFailure.or endFailure) with
    | some failure => throw failure
    | none => return ()

/-! ## Runs -/

/-- What the capture loop does to the members. -/
inductive WriterAction where
  | event (raw : LinuxHeapEvent)
  | module (raw : RawModuleEvent)
  | flushTick
  | queueDrops (count : ℕ)
  | moduleDrops (count : ℕ)
  | memory (now : ℕ) (samples : List (ℕ → MemoryRecord))

def perform : WriterAction → WriterM Unit
  | .event raw => processEvent options raw
  | .module raw => processModuleEvent options raw
  | .flushTick => do
      flushPending options
      flushStream options
  | .queueDrops count => collectQueueDrops count
  | .moduleDrops count => collectModuleDrops count
  | .memory now samples => captureMemorySnapshot options now samples

def captureLoop (actions : List WriterAction) : WriterM Unit := actions.forM (perform options)

/-- The capture: metadata, the actions of the loop, the last flush, the last
sample if there is one, and the end. -/
def capture (baselines : List MemoryBaseline) (actions : List WriterAction)
    (lastSample : Option (ℕ × List (ℕ → MemoryRecord))) : WriterM Unit := do
  beginCapture options baselines
  captureLoop options actions
  flushPending options
  lastSample.forM fun sample => captureMemorySnapshot options sample.1 sample.2
  finalizeTrace options

end LinuxTraceWriter

end Noleax.Agent
