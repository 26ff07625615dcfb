import Noleax.Agent.HeapPlan
import Noleax.Lib.SortedMap
import Noleax.Trace.Chunk

/-!
# The Linux trace writer (`agent/linux/trace_writer.cpp`)

The members of `LinuxTraceWriter::Implementation` and its member functions, as
computations that may throw and then leave the members as the throw found them.
Where a throw interrupts the building of records, the buffers it leaves half
filled are never read again, and the state before stands for them.
`planned` is no member: it logs the records built, for the statements only.
-/

namespace Noleax.Agent

open Lib Trace

/-! ## The stack dictionary (`agent/windows/stack_dictionary.cpp`) -/

structure NormalizedStack where
  frames : List StackFrame := []
  status : StackStatus := .unavailable
deriving DecidableEq, Repr

/-- The entries of the current segment. Equal stacks hash alike, so the bucket
chain finds an entry exactly when the segment holds one. -/
structure StackDictionary where
  capacity : ℕ
  entries : List (NormalizedStack × ℕ) := []
  nextStackId : ℕ := 1

def validateInternedFrame (frame : StackFrame) : Except Error Unit :=
  failIf (frame.absoluteAddress = 0 ∨ (frame.moduleId = 0 ∧ frame.moduleOffset ≠ 0) ∨
      frame.flags ≠ 0)
    (.invalidArgument "normalized stack dictionary frame is invalid")

/-- `intern`: the id, and whether it is a new one. -/
def StackDictionary.intern (dictionary : StackDictionary) (stack : NormalizedStack) :
    Except Error (StackDictionary × ℕ × Bool) := do
  failIf (¬ stack.status.Successful ∨ stack.frames = [] ∨
      maximumCapturedStackDepth < stack.frames.length)
    (.invalidArgument "normalized stack dictionary requires a successful stack")
  stack.frames.forM validateInternedFrame
  match dictionary.entries.find? fun entry => entry.1 = stack with
  | some entry => return (dictionary, entry.2, false)
  | none =>
      -- a full dictionary starts a new segment
      let entries := if dictionary.entries.length = dictionary.capacity then []
        else dictionary.entries
      failIf (dictionary.nextStackId = maxU64) (.overflow "stack ID space is exhausted")
      return ({ dictionary with
        entries := entries ++ [(stack, dictionary.nextStackId)]
        nextStackId := dictionary.nextStackId + 1 }, dictionary.nextStackId, true)

/-! ## Members -/

structure LiveModule where
  moduleId : ℕ
  size : ℕ
deriving DecidableEq, Repr

structure ApiCounters where
  successful : ℕ := 0
  failed : ℕ := 0
  extraRecords : ℕ := 0
  pending : ℕ := 0
  written : ℕ := 0
  traceDropped : ℕ := 0
deriving DecidableEq, Repr

structure ApiCounterSnapshot where
  apiId : ℕ
  recordableCalls : ℕ
  successfulCalls : ℕ
  failedCalls : ℕ
  filteredCalls : ℕ
  droppedEvents : ℕ
deriving DecidableEq, Repr

structure WriterOptions where
  monotonicOrigin : ℕ
  captureScope : CaptureScope
  /-- nanoseconds, like the two sampling intervals -/
  flushInterval : ℤ
  memoryCountersInterval : ℤ
  memoryMapInterval : ℤ
  /-- `custom_definitions_.size()` -/
  customHooks : ℕ
  customHookFailures : ℕ
  bufferConfiguration : Bool
  processId : ℕ
  chunkTargetSize : ℕ
  stackDictionaryCapacity : ℕ
  maximumRecordSize : ℕ
  trace : TraceWriterOptions
  encoding : Encoding
  /-- whether the n-th operation on the output stream fails -/
  fault : ℕ → Bool
  /-- what `counter_source` returns to the finalization and to the error tail -/
  counterSource : Option (Bool → List ApiCounterSnapshot)

/-- `kMaximumStackDefinitionRecordSize` -/
def maximumStackDefinitionRecordSize : ℕ := recordHeaderSize + 16 + maximumCapturedStackDepth * 32

/-- `kMaximumModuleLoadRecordSize` -/
def maximumModuleLoadRecordSize : ℕ := 8 * 1024

/-- `kMaximumEventAdditionSize` -/
def maximumEventAdditionSize : ℕ := 152 + 56

/-- `kMaximumCustomHooks` -/
def maximumCustomHooks : ℕ := 32

namespace WriterOptions

/-- The ids of `api_counters_`: the registry, then the custom hook points. -/
def apiIds (options : WriterOptions) : List ℕ :=
  linuxHookRegistry.map (·.apiId) ++
    (List.range options.customHooks).map (customHookApiIdBase + ·)

def vmContext (options : WriterOptions) : VmContext where
  preexistingAllocationsUnknown := options.captureScope.preexistingAllocationsUnknown
  processId := options.processId

/-- The reserve of `validate_options` for the terminal records. -/
def terminalReserve (options : WriterOptions) : ℕ :=
  (chunkHeaderSize + 4 * lossRecordSize) +
    (chunkHeaderSize + statisticsRecordSize linuxHookRegistry.length) +
    (chunkHeaderSize + endOfTraceRecordSize) + options.customHooks * 48

/-- The stored size of an incompressible chunk of the largest size. -/
def worstStored (options : WriterOptions) : ℕ :=
  options.trace.maxUncompressedChunkSize + options.trace.maxUncompressedChunkSize / 255 + 64

/-- `validate_options`; the sums are sums of 64-bit words. -/
def validateOptions (options : WriterOptions) : Except Error WriterOptions := do
  validateCaptureScope options.captureScope
  failIf (options.flushInterval ≤ 0)
    (.invalidArgument "trace writer flush interval must be positive")
  failIf (options.memoryCountersInterval < 0 ∨ options.memoryMapInterval < 0)
    (.invalidArgument "trace writer memory snapshot intervals must not be negative")
  failIf (maximumCustomHooks < options.customHooks)
    (.invalidArgument "trace writer declares too many custom hook points")
  failIf (options.chunkTargetSize = 0 ∨
      options.trace.maxUncompressedChunkSize < options.chunkTargetSize)
    (.invalidArgument "trace writer chunk target is out of range")
  failIf (options.stackDictionaryCapacity = 0)
    (.invalidArgument "trace writer stack dictionary must not be empty")
  failIf (options.maximumRecordSize < maximumStackDefinitionRecordSize ∨
      options.maximumRecordSize < maximumModuleLoadRecordSize ∨
      options.trace.maxUncompressedChunkSize < maximumStackDefinitionRecordSize ∨
      options.trace.maxUncompressedChunkSize < maximumModuleLoadRecordSize ∨
      options.trace.maxUncompressedChunkSize < maximumEventAdditionSize)
    (.invalidArgument "trace writer limits cannot hold the largest raw stack event")
  failIf (options.trace.maxStoredChunkSize < options.worstStored % 2 ^ 64)
    (.invalidArgument "trace writer stored chunk size cannot hold the largest compressed chunk")
  return { options with
    trace := { options.trace with
      reservedTailSize := max options.trace.reservedTailSize options.terminalReserve } }

/-- Options as the members hold them: `validate_options` returned them and the
constructor of the file writer took its part. -/
def Accepted (options : WriterOptions) : Prop :=
  (∃ requested, validateOptions requested = .ok options) ∧
    options.trace.validate = .ok ()

/-- What an accepted configuration guarantees. -/
structure Limits (options : WriterOptions) : Prop where
  customHooks : options.customHooks ≤ maximumCustomHooks
  targetPositive : 0 < options.chunkTargetSize
  target : options.chunkTargetSize ≤ options.trace.maxUncompressedChunkSize
  chunk : maximumModuleLoadRecordSize ≤ options.trace.maxUncompressedChunkSize
  stored : options.worstStored % 2 ^ 64 ≤ options.trace.maxStoredChunkSize
  dictionary : 0 < options.stackDictionaryCapacity
  reserve : options.terminalReserve ≤ options.trace.reservedTailSize
  header : fileHeaderSize ≤ options.trace.maxFileSize
  file : options.trace.reservedTailSize ≤ options.trace.maxFileSize - fileHeaderSize

theorem Accepted.limits {options : WriterOptions} (h : options.Accepted) : options.Limits := by
  obtain ⟨⟨requested, hvalidate⟩, htrace⟩ := h
  unfold validateOptions at hvalidate
  obtain ⟨_, _, hvalidate⟩ := bind_eq_ok.mp hvalidate
  simp only [failIf_bind_eq_ok, pure_eq_ok, Except.ok.injEq] at hvalidate
  obtain ⟨-, -, hhooks, htarget, hdictionary, hrecord, hstored, rfl⟩ := hvalidate
  rw [TraceWriterOptions.validate_eq_ok] at htrace
  push Not at hhooks htarget hdictionary hrecord hstored
  exact {
    customHooks := hhooks
    targetPositive := Nat.pos_of_ne_zero htarget.1
    target := htarget.2
    chunk := hrecord.2.2.2.1
    stored := hstored
    dictionary := Nat.pos_of_ne_zero hdictionary
    reserve := le_max_right _ _
    header := htrace.1
    file := htrace.2.2.2 }

end WriterOptions

structure LinuxTraceWriter where
  file : TraceWriter
  streamOperations : ℕ := 0
  metadataWritten : Bool := false
  fileLimitReached : Bool := false
  statisticsWritten : Bool := false
  endOfTraceWritten : Bool := false
  errorTailAttempted : Bool := false
  completeness : CompletenessTracker
  vm : VmState := {}
  heap : HeapState := {}
  dictionary : StackDictionary
  liveModules : SortedMap LiveModule := []
  counters : ℕ → ApiCounters := fun _ => {}
  modulePayload : List ModuleRecord := []
  stackPayload : List StackDefinition := []
  eventPayload : List EventChunkRecord := []
  nextModuleId : ℕ := 1
  nextWireSequence : ℕ := 1
  lastWireSequence : ℕ := 0
  lastSequence : ℕ := 0
  lastTicks : ℕ := 0
  lastModuleTicks : ℕ := 0
  lastMemoryTicks : ℕ := 0
  pendingEventCount : ℕ := 0
  pendingUniqueStacks : ℕ := 0
  pendingReusedStacks : ℕ := 0
  pendingSequenceBegin : ℕ := 0
  pendingSequenceEnd : ℕ := 0
  pendingTickBegin : ℕ := 0
  pendingTickEnd : ℕ := 0
  writtenEvents : ℕ := 0
  moduleNotificationDrops : ℕ := 0
  queueDroppedEvents : ℕ := 0
  traceDroppedEvents : ℕ := 0
  traceDropSequenceBegin : ℕ := 0
  traceDropSequenceEnd : ℕ := 0
  traceDropTickBegin : ℕ := 0
  traceDropTickEnd : ℕ := 0
  uniqueStacks : ℕ := 0
  reusedStacks : ℕ := 0
  planned : List Event := []

/-- The constructor. -/
def LinuxTraceWriter.start (options : WriterOptions) : LinuxTraceWriter where
  file := { reservedTailSize := options.trace.reservedTailSize }
  completeness :=
    let tracker := CompletenessTracker.start options.captureScope
    if options.customHookFailures = 0 then tracker else tracker.markCustomHookInstallFailed
  dictionary := { capacity := options.stackDictionaryCapacity }

abbrev WriterM := EStateM Error LinuxTraceWriter

/-- A computation that leaves the members alone. -/
def WriterM.lift {α : Type} (x : Except Error α) : WriterM α := fun w =>
  match x with
  | .ok a => .ok a w
  | .error e => .error e w

def checkedAdd (value addition : ℕ) (subject : String) : Except Error ℕ :=
  if maxU64 - value < addition then .error (.overflow subject) else .ok (value + addition)

namespace LinuxTraceWriter

open WriterM

variable (options : WriterOptions)

def updateCounters (w : LinuxTraceWriter) (apiId : ℕ) (counters : ApiCounters) :
    LinuxTraceWriter :=
  { w with counters := Function.update w.counters apiId counters }

/-! ## Chunks -/

/-- An operation on the output stream, which may fail before it does anything. -/
def streamOperation (what : String) : WriterM Unit := do
  let w ← get
  set { w with streamOperations := w.streamOperations + 1 }
  if options.fault w.streamOperations then throw (.traceWrite what)

/-- `write_chunk`; false at the file limit. -/
def writeChunk (chunk : Chunk) (compress : Bool) : WriterM Bool := do
  streamOperation options "trace output stream write failed"
  let w ← get
  match ← lift (w.file.writeChunk options.trace options.encoding chunk compress) with
  | none =>
      set { w with fileLimitReached := true }
      return false
  | some file =>
      set { w with file := file }
      return true

def writeDataChunk (chunk : Chunk) : WriterM Bool := writeChunk options chunk true

def writeTerminalChunk (chunk : Chunk) : WriterM Bool := writeChunk options chunk false

def flushStream : WriterM Unit := streamOperation options "trace output stream flush failed"

/-! ## Flushing -/

def flushModulePayload : WriterM Unit := do
  let w ← get
  if w.modulePayload = [] then return ()
  else do
    if w.fileLimitReached = false then
      let _ ← writeDataChunk options { payload := .modules w.modulePayload }
    modify fun w => { w with modulePayload := [] }

def clearPending (w : LinuxTraceWriter) : LinuxTraceWriter :=
  { w with
    stackPayload := []
    eventPayload := []
    pendingEventCount := 0
    counters := fun api => { w.counters api with pending := 0 }
    pendingUniqueStacks := 0
    pendingReusedStacks := 0
    pendingSequenceBegin := 0
    pendingSequenceEnd := 0
    pendingTickBegin := 0
    pendingTickEnd := 0 }

def dropPendingEvents : WriterM Unit := do
  let w ← get
  if w.pendingEventCount ≠ 0 then do
    set { w with
      traceDropSequenceBegin :=
        if w.traceDroppedEvents = 0 then w.pendingSequenceBegin else w.traceDropSequenceBegin
      traceDropTickBegin :=
        if w.traceDroppedEvents = 0 then w.pendingTickBegin else w.traceDropTickBegin
      traceDropSequenceEnd := w.pendingSequenceEnd
      traceDropTickEnd := w.pendingTickEnd }
    let total ← lift (checkedAdd w.traceDroppedEvents w.pendingEventCount
      "trace drop count overflow")
    modify fun w => { w with traceDroppedEvents := total }
    lift (failIf (∃ api ∈ options.apiIds,
        maxU64 - (w.counters api).traceDropped < (w.counters api).pending)
      (.overflow "per-API trace drop count overflow"))
    modify fun w => { w with
      counters := fun api =>
        { w.counters api with
          traceDropped := (w.counters api).traceDropped + (w.counters api).pending } }
  modify clearPending

/-- The accounting of an event chunk that reached the file. -/
def notePendingWritten : WriterM Unit := do
  let w ← get
  let total ← lift (checkedAdd w.writtenEvents w.pendingEventCount "written event count overflow")
  set { w with writtenEvents := total }
  lift (failIf (∃ api ∈ options.apiIds,
      maxU64 - (w.counters api).written < (w.counters api).pending)
    (.overflow "written per-API event count overflow"))
  modify fun w => { w with
    counters := fun api =>
      { w.counters api with written := (w.counters api).written + (w.counters api).pending } }
  let unique ← lift (checkedAdd w.uniqueStacks w.pendingUniqueStacks "unique stack count overflow")
  let reused ← lift (checkedAdd w.reusedStacks w.pendingReusedStacks "reused stack count overflow")
  modify fun w => { w with uniqueStacks := unique, reusedStacks := reused }
  modify clearPending

/-- The stack chunk of a flush; true when there is nothing to write. -/
def flushStackPayload : WriterM Bool := do
  let w ← get
  if w.stackPayload = [] then return true
  else writeDataChunk options { payload := .stacks w.stackPayload }

def flushEventPayload : WriterM Bool := do
  let w ← get
  writeDataChunk options
    { payload := .events w.eventPayload
      sequenceBegin := w.pendingSequenceBegin
      sequenceEnd := w.pendingSequenceEnd }

def flushPending : WriterM Unit := do
  if (← get).pendingEventCount = 0 then flushModulePayload options
  else do
    flushModulePayload options
    if (← get).fileLimitReached then dropPendingEvents options
    else if ← flushStackPayload options then
      if ← flushEventPayload options then notePendingWritten options
      else dropPendingEvents options
    else dropPendingEvents options

/-! ## `process_event` -/

def stackPayloadSize (w : LinuxTraceWriter) : ℕ :=
  options.encoding.payloadSize (.stacks w.stackPayload)

def eventPayloadSize (w : LinuxTraceWriter) : ℕ :=
  options.encoding.payloadSize (.events w.eventPayload)

/-- A buffer of `size` bytes cannot take `addition` more within the chunk target. -/
abbrev WouldExceed (size addition : ℕ) : Prop :=
  options.chunkTargetSize < size ∨
    options.chunkTargetSize - min size options.chunkTargetSize < addition

def ensurePendingCapacity (eventRecords : ℕ) : WriterM Unit := do
  let w ← get
  if w.pendingEventCount ≠ 0 ∧
      (WouldExceed options (w.stackPayloadSize options) maximumStackDefinitionRecordSize ∨
        WouldExceed options (w.eventPayloadSize options)
          (eventRecords * maximumEventAdditionSize)) then
    flushPending options

def noteEventTraceDrop (raw : LinuxHeapEvent) (ticks wireBegin eventRecords : ℕ) :
    WriterM Unit := do
  let w ← get
  set { w with
    traceDropSequenceBegin :=
      if w.traceDroppedEvents = 0 then wireBegin else w.traceDropSequenceBegin
    traceDropTickBegin := if w.traceDroppedEvents = 0 then ticks else w.traceDropTickBegin
    traceDropSequenceEnd := (wireBegin + eventRecords + (2 ^ 64 - 1)) % 2 ^ 64
    traceDropTickEnd := ticks }
  let total ← lift (checkedAdd w.traceDroppedEvents eventRecords "trace drop count overflow")
  modify fun w => { w with traceDroppedEvents := total }
  let dropped ← lift (checkedAdd (w.counters raw.apiId).traceDropped eventRecords
    "per-API trace drop count overflow")
  modify fun w => w.updateCounters raw.apiId
    { w.counters raw.apiId with traceDropped := dropped }

def stackStatus : StackCaptureStatus → StackStatus
  | .captured => .complete
  | .truncated => .truncatedByDepth
  | .failed => .unwindFailed
  | .disabled => .unavailable

/-- The frame of an address: inside the live module below it, or nowhere. -/
def normalizeFrame (w : LinuxTraceWriter) (address : ℕ) : StackFrame :=
  match w.liveModules.floor address with
  | some (base, candidate) =>
      if base ≤ address ∧ address - base < candidate.size then
        { moduleId := candidate.moduleId
          moduleOffset := address - base
          absoluteAddress := address }
      else { absoluteAddress := address }
  | none => { absoluteAddress := address }

def normalizeStack (w : LinuxTraceWriter) (stack : CapturedStack) : NormalizedStack where
  frames := stack.captured.map w.normalizeFrame
  status := stackStatus stack.status

def makeStackCaptureLoss (sequenceBegin eventRecords ticks : ℕ) : LossRecord where
  reason := .stackCaptureFailed
  location := .agentQueue
  estimatedEventCount := some eventRecords
  sequenceRange := some ⟨sequenceBegin, sequenceBegin + eventRecords - 1⟩
  tickRange := some ⟨ticks, ticks⟩

/-- What one event adds to the buffers. -/
structure EventAddition where
  dictionary : StackDictionary
  stackId : ℕ := 0
  stack : List StackDefinition := []
  loss : List EventChunkRecord := []
  unique : ℕ := 0
  reused : ℕ := 0

/-- The stack of an event: interned, lost, or not captured. -/
def addStack (w : LinuxTraceWriter) (raw : LinuxHeapEvent) (loss : Option LossRecord) :
    Except Error EventAddition :=
  if stackCaptureSucceeded raw.stack then do
    let stack := w.normalizeStack raw.stack
    let (dictionary, id, inserted) ← w.dictionary.intern stack
    if inserted then
      let definition : StackDefinition :=
        { stackId := id, status := stack.status, frames := stack.frames }
      validateStackDefinition definition
      return { dictionary := dictionary, stackId := id, stack := [definition], unique := 1 }
    else return { dictionary := dictionary, stackId := id, reused := 1 }
  else
    match loss with
    | some loss => do
        validateLossRecord loss
        return { dictionary := w.dictionary, loss := [.loss loss] }
    | none => .ok { dictionary := w.dictionary }

def eventHeader (raw : LinuxHeapEvent) (ticks wireBegin stackId : ℕ) : EventHeader where
  sequence := wireBegin
  monotonicTicks := ticks
  threadId := raw.threadId
  apiId := raw.apiId
  status := if raw.Succeeded then .success else .failure
  stackId := stackId
  systemError := if raw.Succeeded then {} else { domain := .posix, code := raw.operationResult }

/-- The wire records of an event: the stamped plan, or the one heap record. -/
def eventRecordsOf (w : LinuxTraceWriter) (raw : LinuxHeapEvent) (plan : List VmPlanRecord)
    (header : EventHeader) : Except Error (HeapState × List Event) :=
  if raw.IsVm then .ok (w.heap, stampPlan header header.sequence plan)
  else do
    let (heap, status, payload) ← w.heap.planHeapEvent options.vmContext raw
    return (heap, [{ header := { header with status := status }, payload := payload }])

/-- From the header to the pending counts: everything the event puts into the
buffers. -/
def appendEvent (raw : LinuxHeapEvent) (plan : List VmPlanRecord) (loss : Option LossRecord)
    (ticks wireBegin eventRecords : ℕ) (w : LinuxTraceWriter) :
    Except Error LinuxTraceWriter := do
  let addition ← w.addStack raw loss
  let header := eventHeader raw ticks wireBegin addition.stackId
  let (heap, records) ← w.eventRecordsOf options raw plan header
  records.forM validateEvent
  let pendingEventCount ← checkedAdd w.pendingEventCount eventRecords
    "pending event count overflow"
  let pending ← checkedAdd (w.counters raw.apiId).pending eventRecords
    "pending per-API event count overflow"
  let unique ← checkedAdd w.pendingUniqueStacks addition.unique
    "pending unique stack count overflow"
  let reused ← checkedAdd w.pendingReusedStacks addition.reused
    "pending reused stack count overflow"
  return { w with
    heap := heap
    dictionary := addition.dictionary
    stackPayload := w.stackPayload ++ addition.stack
    eventPayload := w.eventPayload ++ addition.loss ++ records.map .event
    pendingSequenceBegin := if w.pendingEventCount = 0 then wireBegin else w.pendingSequenceBegin
    pendingTickBegin := if w.pendingEventCount = 0 then ticks else w.pendingTickBegin
    pendingSequenceEnd := w.lastWireSequence
    pendingTickEnd := ticks
    pendingEventCount := pendingEventCount
    counters := Function.update w.counters raw.apiId
      { w.counters raw.apiId with pending := pending }
    pendingUniqueStacks := unique
    pendingReusedStacks := reused
    planned := w.planned ++ records }

/-- The plan of a VM event; a heap event has none. -/
def planEvent (raw : LinuxHeapEvent) : WriterM (List VmPlanRecord) := do
  if raw.IsVm then do
    let w ← get
    let (vm, plan) ← lift (w.vm.planVmEvent options.vmContext raw)
    set { w with vm := vm }
    return plan
  else return []

/-- The operation counters of one event. -/
def countOperations (raw : LinuxHeapEvent) (eventRecords : ℕ) : WriterM Unit := do
  let w ← get
  lift (failIf (raw.apiId ∉ options.apiIds)
    (.invalidArgument "raw Linux heap event carries an unknown API ID"))
  let counters := w.counters raw.apiId
  if raw.Succeeded then do
    let total ← lift (checkedAdd counters.successful eventRecords
      "successful operation count overflow")
    modify fun w => w.updateCounters raw.apiId { w.counters raw.apiId with successful := total }
  else do
    let total ← lift (checkedAdd counters.failed 1 "failed operation count overflow")
    modify fun w => w.updateCounters raw.apiId { w.counters raw.apiId with failed := total }
  -- the hooks predict a pair of records for a moved mremap and one otherwise
  let predicted := if raw.operation = .vmRemap ∧ raw.Succeeded ∧
    raw.resultAddress ≠ raw.address then 2 else 1
  if predicted < eventRecords then do
    let total ← lift (checkedAdd counters.extraRecords (eventRecords - predicted)
      "extra wire record count overflow")
    modify fun w => w.updateCounters raw.apiId { w.counters raw.apiId with extraRecords := total }

/-- Consecutive wire sequences for the records of one event, in 64-bit words. -/
def takeWireSequences (eventRecords : ℕ) : WriterM ℕ := do
  let w ← get
  lift (failIf (maxU64 - w.nextWireSequence < (eventRecords + (2 ^ 64 - 1)) % 2 ^ 64)
    (.overflow "event sequence space is exhausted"))
  set { w with
    nextWireSequence := (w.nextWireSequence + eventRecords) % 2 ^ 64
    lastWireSequence := ((w.nextWireSequence + eventRecords) % 2 ^ 64 + (2 ^ 64 - 1)) % 2 ^ 64 }
  return w.nextWireSequence

/-- A failed stack capture is a loss of its own. -/
def noteStackCaptureLoss (raw : LinuxHeapEvent) (wireBegin eventRecords ticks : ℕ) :
    WriterM (Option LossRecord) := do
  if raw.stack.status = .failed then do
    let loss := makeStackCaptureLoss wireBegin eventRecords ticks
    let w ← get
    let completeness ← lift (w.completeness.observeLoss loss)
    set { w with completeness := completeness }
    return some loss
  else return none

/-- The header checks and the normalized time. -/
def admitEvent (raw : LinuxHeapEvent) : WriterM ℕ := do
  let w ← get
  lift (validateRawEvent ⟨options.monotonicOrigin, options.customHooks, w.lastSequence⟩ raw)
  lift (validateRawStack raw.stack)
  let ticks := max raw.monotonicTicks w.lastTicks
  set { w with lastSequence := raw.queueSequence, lastTicks := ticks }
  return ticks

/-- The end of `process_event` for an event that still fits the file. -/
def bufferEvent (raw : LinuxHeapEvent) (plan : List VmPlanRecord) (loss : Option LossRecord)
    (ticks wireBegin eventRecords : ℕ) : WriterM Unit := do
  let w ← get
  set (← lift (appendEvent options raw plan loss ticks wireBegin eventRecords w))
  let w ← get
  if options.chunkTargetSize ≤ w.stackPayloadSize options ∨
      options.chunkTargetSize ≤ w.eventPayloadSize options then
    flushPending options

def processEvent (raw : LinuxHeapEvent) : WriterM Unit := do
  let ticks ← admitEvent options raw
  let plan ← planEvent options raw
  let eventRecords := if raw.IsVm then plan.length else 1
  countOperations options raw eventRecords
  let wireBegin ← takeWireSequences eventRecords
  let loss ← noteStackCaptureLoss raw wireBegin eventRecords ticks
  if (← get).fileLimitReached then noteEventTraceDrop raw ticks wireBegin eventRecords
  else do
    ensurePendingCapacity options eventRecords
    if (← get).fileLimitReached then noteEventTraceDrop raw ticks wireBegin eventRecords
    else bufferEvent options raw plan loss ticks wireBegin eventRecords

end LinuxTraceWriter

end Noleax.Agent
