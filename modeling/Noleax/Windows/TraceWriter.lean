import Noleax.Agent.Finalize
import Noleax.Windows.EventPlan

/-!
# The Windows trace writer (`agent/windows/rtl_allocate_heap_trace_writer.cpp`)

The members of `RtlAllocateHeapTraceWriter::Implementation` and its member functions
from `process_event` to `note_trace_drop_range`, with `process_module_event` and the
memory samples, which also end the buffered events or meet the file limit. As on
Linux, a throw leaves the members as it found them, up to buffers that are never read
again, and `planned` logs the records built, for the statements only.
-/

namespace Noleax.Windows

open Lib Trace Agent

/-! ## Members -/

structure LiveModule where
  moduleId : ℕ
  size : ℕ
  initialNotificationPending : Bool := false
deriving DecidableEq, Repr

/-- What the member functions read of the options and of the file header. -/
structure WriterOptions where
  monotonicOrigin : ℕ
  captureScope : CaptureScope
  /-- `GetCurrentProcessId()` -/
  processId : ℕ
  hooks : MemoryHooks
  chunkTargetSize : ℕ
  stackDictionaryCapacity : ℕ
  trace : TraceWriterOptions
  encoding : Encoding

def WriterOptions.vmContext (options : WriterOptions) : VmContext where
  preexistingAllocationsUnknown := options.captureScope.preexistingAllocationsUnknown
  processId := options.processId

/-- The nine counters of one kind, one for each operation. -/
abbrev OperationCounts := RtlHeapEventOperation → ℕ

structure RtlAllocateHeapTraceWriter where
  file : TraceWriter
  fileLimitReached : Bool := false
  completeness : CompletenessTracker
  live : LiveState := {}
  dictionary : StackDictionary
  liveModules : SortedMap LiveModule := []
  modulePayload : List ModuleRecord := []
  stackPayload : List StackDefinition := []
  eventPayload : List EventChunkRecord := []
  nextModuleId : ℕ := 1
  lastSequence : ℕ := 0
  lastTicks : ℕ := 0
  lastModuleTicks : ℕ := 0
  lastMemoryTicks : ℕ := 0
  pendingEventCount : ℕ := 0
  pendingCustomEvents : ℕ := 0
  pending : OperationCounts := fun _ => 0
  pendingUniqueStacks : ℕ := 0
  pendingReusedStacks : ℕ := 0
  pendingSequenceBegin : ℕ := 0
  pendingSequenceEnd : ℕ := 0
  pendingTickBegin : ℕ := 0
  pendingTickEnd : ℕ := 0
  writtenEvents : ℕ := 0
  writtenCustomEvents : ℕ := 0
  written : OperationCounts := fun _ => 0
  traceDroppedEvents : ℕ := 0
  traceCustomDroppedPerApi : ℕ → ℕ := fun _ => 0
  traceDropped : OperationCounts := fun _ => 0
  traceDropSequenceBegin : ℕ := 0
  traceDropSequenceEnd : ℕ := 0
  traceDropTickBegin : ℕ := 0
  traceDropTickEnd : ℕ := 0
  uniqueStacks : ℕ := 0
  reusedStacks : ℕ := 0
  planned : List Event := []

/-- The writer after its constructor and the metadata chunk. -/
def RtlAllocateHeapTraceWriter.start (options : WriterOptions) (file : TraceWriter) :
    RtlAllocateHeapTraceWriter where
  file := file
  completeness := CompletenessTracker.start options.captureScope
  dictionary := { capacity := options.stackDictionaryCapacity }

abbrev WriterM := EStateM Error RtlAllocateHeapTraceWriter

namespace RtlAllocateHeapTraceWriter

variable (options : WriterOptions)

/-! ## Counters -/

/-- How the texts call the counter of an operation. -/
def counterName : RtlHeapEventOperation → String
  | .create => "heap create"
  | .allocate => "allocation"
  | .reallocate => "reallocation"
  | .free => "free"
  | .destroy => "heap destroy"
  | .vmAllocate => "virtual allocation"
  | .vmFree => "virtual free"
  | .sectionMap => "section map"
  | .sectionUnmap => "section unmap"

/-- `checked_add` of the nine counters, one after the other. -/
def addCounts (values additions : OperationCounts) (before after : String) :
    Except Error OperationCounts :=
  RtlHeapEventOperation.all.foldlM (fun sums operation => do
    let sum ← checkedAdd (sums operation) (additions operation)
      (before ++ counterName operation ++ after)
    return Function.update sums operation sum) values

/-! ## Chunks -/

/-- `write_data_chunk`; false at the file limit. -/
def writeDataChunk (chunk : Chunk) : WriterM Bool := do
  let w ← get
  match ← check (w.file.writeChunk options.trace options.encoding chunk true) with
  | none =>
      set { w with fileLimitReached := true }
      return false
  | some file =>
      set { w with file := file }
      return true

def flushModulePayload : WriterM Unit := do
  let w ← get
  if w.modulePayload = [] then return ()
  else do
    if w.fileLimitReached = false then
      let _ ← writeDataChunk options { payload := .modules w.modulePayload }
    modify fun w => { w with modulePayload := [] }

/-! ## Trace drops -/

/-- The order in which `note_trace_drop_range` takes the counts off the total; what
is left must be the section unmaps. -/
def dropOrder : List RtlHeapEventOperation :=
  [.allocate, .reallocate, .free, .create, .destroy, .vmAllocate, .vmFree, .sectionMap]

/-- What remains of `count` after the counts of `order`, unless one is larger than
what remained before it. -/
def remaining (counts : OperationCounts) : ℕ → List RtlHeapEventOperation → Option ℕ
  | count, [] => some count
  | count, operation :: order =>
      if count < counts operation then none else remaining counts (count - counts operation) order

def noteTraceDropRange (count : ℕ) (counts : OperationCounts)
    (sequenceBegin sequenceEnd tickBegin tickEnd : ℕ) : WriterM Unit := do
  check (failIf (remaining counts count dropOrder ≠ some (counts .sectionUnmap))
    (.logic "trace drop API accounting is inconsistent"))
  let w ← get
  set { w with
    traceDropSequenceBegin :=
      if w.traceDroppedEvents = 0 then sequenceBegin else w.traceDropSequenceBegin
    traceDropTickBegin := if w.traceDroppedEvents = 0 then tickBegin else w.traceDropTickBegin
    traceDropSequenceEnd := sequenceEnd
    traceDropTickEnd := tickEnd }
  let total ← check (checkedAdd w.traceDroppedEvents count "trace drop count overflow")
  modify fun w => { w with traceDroppedEvents := total }
  let dropped ← check (addCounts w.traceDropped counts "" " trace drop count overflow")
  modify fun w => { w with traceDropped := dropped }

/-- The count of one event of an operation. -/
def oneOf (operation : RtlHeapEventOperation) : OperationCounts :=
  fun other => if other = operation then 1 else 0

def noteTraceDrop (operation : RtlHeapEventOperation) (sequence ticks : ℕ) : WriterM Unit :=
  noteTraceDropRange 1 (oneOf operation) sequence sequence ticks ticks

/-- A custom event that arrives after the limit. -/
def noteCustomTraceDrop (apiId sequence ticks : ℕ) : WriterM Unit := do
  let w ← get
  set { w with
    traceDropSequenceBegin :=
      if w.traceDroppedEvents = 0 then sequence else w.traceDropSequenceBegin
    traceDropTickBegin := if w.traceDroppedEvents = 0 then ticks else w.traceDropTickBegin
    traceDropSequenceEnd := sequence
    traceDropTickEnd := ticks }
  let total ← check (checkedAdd w.traceDroppedEvents 1 "trace drop count overflow")
  modify fun w => { w with traceDroppedEvents := total }
  let dropped ← check (checkedAdd (w.traceCustomDroppedPerApi apiId) 1
    "custom hook trace drop count overflow")
  modify fun w => { w with
    traceCustomDroppedPerApi := Function.update w.traceCustomDroppedPerApi apiId dropped }

def noteEventTraceDrop (raw : RtlHeapEvent) (ticks : ℕ) : WriterM Unit :=
  if raw.Custom then noteCustomTraceDrop raw.apiId raw.queueSequence ticks
  else noteTraceDrop raw.operation raw.queueSequence ticks

def clearPending (w : RtlAllocateHeapTraceWriter) : RtlAllocateHeapTraceWriter :=
  { w with
    stackPayload := []
    eventPayload := []
    pendingEventCount := 0
    pendingCustomEvents := 0
    pending := fun _ => 0
    pendingUniqueStacks := 0
    pendingReusedStacks := 0
    pendingSequenceBegin := 0
    pendingSequenceEnd := 0
    pendingTickBegin := 0
    pendingTickEnd := 0 }

/-- `drop_pending_events`; the custom events have no argument to pass them in. -/
def dropPendingEvents : WriterM Unit := do
  let w ← get
  onlyIf (w.pendingEventCount ≠ 0)
    (noteTraceDropRange w.pendingEventCount w.pending w.pendingSequenceBegin w.pendingSequenceEnd
      w.pendingTickBegin w.pendingTickEnd)
  modify clearPending

/-! ## Flushing -/

/-- The accounting of an event chunk that reached the file. -/
def notePendingWritten : WriterM Unit := do
  let w ← get
  let events ← check (checkedAdd w.writtenEvents w.pendingEventCount
    "written event count overflow")
  let custom ← check (checkedAdd w.writtenCustomEvents w.pendingCustomEvents
    "written custom hook event count overflow")
  let written ← check (addCounts w.written w.pending "written " " event count overflow")
  let unique ← check (checkedAdd w.uniqueStacks w.pendingUniqueStacks
    "unique stack count overflow")
  let reused ← check (checkedAdd w.reusedStacks w.pendingReusedStacks
    "reused stack count overflow")
  set (clearPending { w with
    writtenEvents := events
    writtenCustomEvents := custom
    written := written
    uniqueStacks := unique
    reusedStacks := reused })

/-- The stack chunk of a flush; true when there is nothing to write. -/
def flushStackPayload : WriterM Bool := do
  let w ← get
  if w.stackPayload = [] then return true
  else writeDataChunk options { payload := .stacks w.stackPayload }

def flushEventPayload : WriterM Bool := do
  let w ← get
  writeDataChunk options
    { payload := .events w.eventPayload
      sequenceBegin := w.pendingSequenceBegin
      sequenceEnd := w.pendingSequenceEnd }

/-- `flush_pending`; at the limit the module payload is cleared without being written. -/
def flushPending : WriterM Unit := do
  if (← get).pendingEventCount = 0 then flushModulePayload options
  else do
    flushModulePayload options
    if (← get).fileLimitReached then dropPendingEvents
    else if ← flushStackPayload options then
      if ← flushEventPayload options then notePendingWritten
      else dropPendingEvents
    else dropPendingEvents

/-! ## `process_event` -/

def stackPayloadSize (w : RtlAllocateHeapTraceWriter) : ℕ :=
  options.encoding.payloadSize (.stacks w.stackPayload)

def eventPayloadSize (w : RtlAllocateHeapTraceWriter) : ℕ :=
  options.encoding.payloadSize (.events w.eventPayload)

/-- A buffer of `size` bytes cannot take `addition` more within the chunk target. -/
abbrev WouldExceed (size addition : ℕ) : Prop :=
  options.chunkTargetSize < size ∨
    options.chunkTargetSize - min size options.chunkTargetSize < addition

/-- The buffers have no room for the largest event. -/
abbrev NeedsCapacity (w : RtlAllocateHeapTraceWriter) : Prop :=
  w.pendingEventCount ≠ 0 ∧
    (WouldExceed options (w.stackPayloadSize options) maximumStackDefinitionRecordSize ∨
      WouldExceed options (w.eventPayloadSize options) maximumEventAdditionSize)

/-- A buffer has reached the chunk target. -/
abbrev IsFull (w : RtlAllocateHeapTraceWriter) : Prop :=
  options.chunkTargetSize ≤ w.stackPayloadSize options ∨
    options.chunkTargetSize ≤ w.eventPayloadSize options

def ensurePendingCapacity : WriterM Unit := do
  let w ← get
  onlyIf (w.NeedsCapacity options) (flushPending options)

def stackStatus : StackCaptureStatus → StackStatus
  | .captured => .complete
  | .truncated => .truncatedByDepth
  | .failed => .unwindFailed
  | .disabled => .unavailable

/-- The frame of an address: inside the live module below it, or nowhere. -/
def normalizeFrame (w : RtlAllocateHeapTraceWriter) (address : ℕ) : StackFrame :=
  match w.liveModules.floor address with
  | some (base, candidate) =>
      if base ≤ address ∧ address - base < candidate.size then
        { moduleId := candidate.moduleId
          moduleOffset := address - base
          absoluteAddress := address }
      else { absoluteAddress := address }
  | none => { absoluteAddress := address }

def normalizeStack (w : RtlAllocateHeapTraceWriter) (stack : CapturedStack) : NormalizedStack where
  frames := stack.captured.map w.normalizeFrame
  status := stackStatus stack.status

def makeStackCaptureLoss (sequence ticks : ℕ) : LossRecord where
  reason := .stackCaptureFailed
  location := .agentQueue
  estimatedEventCount := some 1
  sequenceRange := some ⟨sequence, sequence⟩
  tickRange := some ⟨ticks, ticks⟩

/-- The stack of an event: interned, lost, or not captured. -/
def addStack (w : RtlAllocateHeapTraceWriter) (raw : RtlHeapEvent) (loss : Option LossRecord) :
    Except Error LinuxTraceWriter.EventAddition :=
  if stackCaptureSucceeded raw.stack then do
    let stack := w.normalizeStack raw.stack
    let (dictionary, id, inserted) ← w.dictionary.intern stack
    if inserted then
      let definition : StackDefinition :=
        { stackId := id, status := stack.status, frames := stack.frames }
      validateStackDefinition definition
      return { dictionary := dictionary, stackId := id, stack := [definition], unique := 1 }
    else return { dictionary := dictionary, stackId := id, reused := 1 }
  else
    match loss with
    | some loss => do
        validateLossRecord loss
        return { dictionary := w.dictionary, loss := [.loss loss] }
    | none => .ok { dictionary := w.dictionary }

/-- The API of a record: the custom hook point's, or that of the operation. -/
def recordApiId (raw : RtlHeapEvent) : ℕ := if raw.Custom then raw.apiId else raw.operation.apiId

def recordSystemError (raw : RtlHeapEvent) : SystemError :=
  if raw.status = .exception then { domain := .ntStatus, code := raw.exceptionStatus }
  else if raw.IsNtMemory ∧ raw.status = .failure then
    { domain := .ntStatus, code := raw.operationResult }
  else {}

def eventHeader (raw : RtlHeapEvent) (ticks stackId : ℕ) (status : EventStatus) : EventHeader where
  sequence := raw.queueSequence
  monotonicTicks := ticks
  threadId := raw.threadId
  apiId := recordApiId raw
  status := status
  stackId := stackId
  flags := if ¬ raw.Custom ∧ raw.operation = .sectionUnmap then raw.flags else 0
  systemError := recordSystemError raw

/-- The pending counter an event belongs to. -/
def countPending (raw : RtlHeapEvent) (w : RtlAllocateHeapTraceWriter) :
    Except Error RtlAllocateHeapTraceWriter := do
  let events ← checkedAdd w.pendingEventCount 1 "pending event count overflow"
  if raw.Custom then
    let custom ← checkedAdd w.pendingCustomEvents 1 "pending custom hook event count overflow"
    return { w with pendingEventCount := events, pendingCustomEvents := custom }
  else
    let count ← checkedAdd (w.pending raw.operation) 1
      ("pending " ++ counterName raw.operation ++ " event count overflow")
    return { w with
      pendingEventCount := events
      pending := Function.update w.pending raw.operation count }

/-- From the header to the pending counts: everything the event puts into the
buffers. -/
def appendEvent (raw : RtlHeapEvent) (loss : Option LossRecord) (ticks : ℕ)
    (w : RtlAllocateHeapTraceWriter) : Except Error RtlAllocateHeapTraceWriter := do
  let addition ← w.addStack raw loss
  let (live, status, payload) ← planEvent options.vmContext w.live raw
  let event : Event := ⟨eventHeader raw ticks addition.stackId status, payload⟩
  validateEvent event
  let w ← countPending raw { w with
    live := live
    dictionary := addition.dictionary
    stackPayload := w.stackPayload ++ addition.stack
    eventPayload := w.eventPayload ++ addition.loss ++ [.event event]
    pendingSequenceBegin :=
      if w.pendingEventCount = 0 then raw.queueSequence else w.pendingSequenceBegin
    pendingTickBegin := if w.pendingEventCount = 0 then ticks else w.pendingTickBegin
    pendingSequenceEnd := raw.queueSequence
    pendingTickEnd := ticks
    planned := w.planned ++ [event] }
  let unique ← checkedAdd w.pendingUniqueStacks addition.unique
    "pending unique stack count overflow"
  let reused ← checkedAdd w.pendingReusedStacks addition.reused
    "pending reused stack count overflow"
  return { w with pendingUniqueStacks := unique, pendingReusedStacks := reused }

/-- The checks and the normalized time. -/
def admitEvent (raw : RtlHeapEvent) : WriterM ℕ := do
  let w ← get
  check (validateRawEvent ⟨options.monotonicOrigin, options.hooks, w.lastSequence⟩ raw)
  check (validateRawStack raw.stack)
  let ticks := max raw.monotonicTicks w.lastTicks
  set { w with lastSequence := raw.queueSequence, lastTicks := ticks }
  return ticks

/-- A failed stack capture is a loss of its own. -/
def noteStackCaptureLoss (raw : RtlHeapEvent) (ticks : ℕ) : WriterM (Option LossRecord) := do
  if raw.stack.status = .failed then do
    let loss := makeStackCaptureLoss raw.queueSequence ticks
    let w ← get
    let completeness ← check (w.completeness.observeLoss loss)
    set { w with completeness := completeness }
    return some loss
  else return none

/-- The end of `process_event` for an event that still fits the file. -/
def bufferEvent (raw : RtlHeapEvent) (loss : Option LossRecord) (ticks : ℕ) : WriterM Unit := do
  let w ← get
  set (← check (appendEvent options raw loss ticks w))
  let w ← get
  onlyIf (w.IsFull options) (flushPending options)

def processEvent (raw : RtlHeapEvent) : WriterM Unit := do
  let ticks ← admitEvent options raw
  let loss ← noteStackCaptureLoss raw ticks
  if (← get).fileLimitReached then noteEventTraceDrop raw ticks
  else do
    ensurePendingCapacity options
    if (← get).fileLimitReached then noteEventTraceDrop raw ticks
    else bufferEvent options raw loss ticks

/-! ## Modules -/

/-- `wide_to_utf8` and `pdb_path_to_utf8` have converted the paths; a path they cannot
convert is empty. -/
structure RawModuleEvent where
  monotonicTicks : ℕ := 0
  baseAddress : ℕ := 0
  imageSize : ℕ := 0
  peTimestamp : ℕ := 0
  peChecksum : ℕ := 0
  pdbAge : ℕ := 0
  initialSnapshot : Bool := false
  pathTruncated : Bool := false
  pdbPathTruncated : Bool := false
  hasImageIdentity : Bool := false
  hasPdbIdentity : Bool := false
  type : RawModuleEventType := .load
  pdbGuid : Bytes := List.replicate 16 0
  path : Bytes := []
  pdbPath : Bytes := []
deriving DecidableEq, Repr

/-- `ModuleLoadFlag::kPdbPathTruncated` -/
def pdbPathTruncatedFlag : ℕ := 2

def moduleLoad (raw : RawModuleEvent) (moduleId ticks : ℕ) : ModuleLoad where
  moduleId := moduleId
  monotonicTicks := ticks
  baseAddress := raw.baseAddress
  imageSize := raw.imageSize
  imagePath := if raw.path = [] then unknownModulePath raw.baseAddress else raw.path
  imageIdentity :=
    if raw.hasImageIdentity = true ∧ raw.imageSize < 2 ^ 32 then
      some { timestamp := raw.peTimestamp, checksum := raw.peChecksum, imageSize := raw.imageSize }
    else none
  pdbIdentity := if raw.hasPdbIdentity then some { guid := raw.pdbGuid, age := raw.pdbAge } else none
  pdbPath := if raw.hasPdbIdentity then raw.pdbPath else []
  flags := (if raw.path = [] ∨ raw.pathTruncated = true then pathTruncatedFlag else 0) |||
    (if raw.hasPdbIdentity = true ∧ raw.pdbPathTruncated = true then pdbPathTruncatedFlag else 0)

/-- The notification of a module the snapshot already holds. -/
abbrev ConfirmsInitial (raw : RawModuleEvent) (existing : LiveModule) : Prop :=
  existing.initialNotificationPending = true ∧ raw.initialSnapshot = false ∧
    existing.size = raw.imageSize

/-- A module change ends the buffered events. -/
def flushBeforeModule : WriterM Unit := do
  let w ← get
  onlyIf (w.pendingEventCount ≠ 0) (flushPending options)

def loadModule (raw : RawModuleEvent) (ticks : ℕ) : WriterM Unit := do
  check (failIf ((← get).nextModuleId = maxU64) (.overflow "module ID space is exhausted"))
  flushBeforeModule options
  let w ← get
  let load := moduleLoad raw w.nextModuleId ticks
  set { w with nextModuleId := w.nextModuleId + 1 }
  check (validateModuleLoad load)
  modify fun w => { w with
    modulePayload := w.modulePayload ++ [.load load]
    liveModules := w.liveModules.insert raw.baseAddress
      ⟨load.moduleId, raw.imageSize, raw.initialSnapshot⟩ }

def unloadModule (raw : RawModuleEvent) (existing : LiveModule) (ticks : ℕ) : WriterM Unit := do
  flushBeforeModule options
  let unload : ModuleUnload := ⟨existing.moduleId, ticks⟩
  check (validateModuleUnload unload)
  modify fun w => { w with
    modulePayload := w.modulePayload ++ [.unload unload]
    liveModules := w.liveModules.erase raw.baseAddress }

def modulePayloadSize (w : RtlAllocateHeapTraceWriter) : ℕ :=
  options.encoding.payloadSize (.modules w.modulePayload)

/-- The end of `process_module_event`. -/
def settleModule (ticks : ℕ) : WriterM Unit := do
  modify fun w => { w with lastModuleTicks := ticks }
  let w ← get
  onlyIf (options.chunkTargetSize ≤ w.modulePayloadSize options) (flushModulePayload options)

def processModuleEvent (raw : RawModuleEvent) : WriterM Unit := do
  check (failIf (raw.baseAddress = 0 ∨ raw.monotonicTicks < options.monotonicOrigin)
    (.invalidArgument "raw module event is invalid"))
  let w ← get
  let ticks := max raw.monotonicTicks w.lastModuleTicks
  match raw.type, w.liveModules.lookup raw.baseAddress with
  | .load, existing => do
      check (failIf (raw.imageSize = 0)
        (.invalidArgument "raw module load has an empty image range"))
      match existing with
      | some existing =>
          if ConfirmsInitial raw existing then
            set { w with
              liveModules := w.liveModules.adjust raw.baseAddress
                fun existing => { existing with initialNotificationPending := false }
              lastModuleTicks := ticks }
          else throw (.runtime "module load overlaps a live module generation")
      | none => do
          loadModule options raw ticks
          settleModule options ticks
  | .unload, none => set { w with lastModuleTicks := ticks }
  | .unload, some existing => do
      unloadModule options raw existing ticks
      settleModule options ticks

/-! ## Memory samples -/

/-- `capture_memory_snapshot`; `samples` are the records the samplers deliver, and what
throws is given up. -/
def captureMemorySnapshot (now : ℕ) (samples : List (ℕ → MemoryRecord)) : WriterM Unit := fun w =>
  if w.fileLimitReached then .ok () w
  else
    let ticks := max now (max w.lastMemoryTicks options.monotonicOrigin)
    let w := { w with lastMemoryTicks := ticks }
    if samples = [] then .ok () w
    else
      .ok () (exitState (writeDataChunk options { payload := .memory (samples.map (· ticks)) }) w)

end RtlAllocateHeapTraceWriter

end Noleax.Windows
