import Noleax.Windows.EventRuns
import Noleax.Windows.FileLimit

/-!
# The Windows replacements (`agent/windows/nt_memory_hooks.cpp`, `rtl_create_heap_hook.cpp`,
`rtl_destroy_heap_hook.cpp`)

A replacement calls the original, which is one step of the kernel, and later asks the
queue for a slot to fill in with the event; a full queue refuses. The consumer takes the
events out in the order of their slots and hands them to `process_event`.
-/

namespace Noleax.Windows

open Lib Trace Agent

/-! ## Filling in an event -/

/-- The fields of `MEMORY_BASIC_INFORMATION` that are read. -/
structure RegionInformation where
  allocationBase : ℕ
  baseAddress : ℕ
  regionSize : ℕ

/-- What the slot, the clock, the thread, the stack capture and `VirtualQuery` say while
an event is filled in. -/
structure FillContext where
  queueSequence : ℕ
  ticks : ℕ
  threadId : ℕ
  maximumStackDepth : ℕ
  stack : CapturedStack
  region : Option RegionInformation := none

/-- How the original ended; an exception has a code. -/
inductive CallOutcome where
  | returned
  | raised (exceptionStatus : ℕ)
deriving DecidableEq, Repr

namespace CallOutcome

def exceptionStatus : CallOutcome → ℕ
  | returned => 0
  | raised code => code

/-- The status of the event of a call whose result says `success`. -/
def status (success : Prop) [Decidable success] : CallOutcome → RtlHeapEventStatus
  | returned => if success then .success else .failure
  | raised _ => .exception

/-- A result that only a call that returned has. -/
def result (value : ℕ) : CallOutcome → ℕ
  | returned => value
  | raised _ => 0

end CallOutcome

/-- The stack of an event; an exception filter captures none. -/
def FillContext.stackOf (ctx : FillContext) (missing : StackCaptureStatus) :
    CallOutcome → CapturedStack
  | .returned => ctx.stack
  | .raised _ => { requestedDepth := ctx.maximumStackDepth, status := missing }

section Fill

variable (ctx : FillContext) (outcome : CallOutcome)

/-- `fill_event` of `rtl_create_heap_hook.cpp`. -/
def fillCreateEvent (flags heapBase reserveSize commitSize lock parameters result : ℕ) :
    RtlHeapEvent where
  queueSequence := ctx.queueSequence
  monotonicTicks := ctx.ticks
  threadId := ctx.threadId
  heapHandle := heapBase
  requestedSize := reserveSize
  resultAddress := outcome.result result
  address := lock
  rawResult := commitSize
  auxiliaryAddress := parameters
  flags := flags
  exceptionStatus := outcome.exceptionStatus
  operation := .create
  status := outcome.status (result ≠ 0)
  stack := ctx.stackOf .failed outcome

/-- `fill_event` of `rtl_destroy_heap_hook.cpp`. -/
def fillDestroyEvent (heap result : ℕ) : RtlHeapEvent where
  queueSequence := ctx.queueSequence
  monotonicTicks := ctx.ticks
  threadId := ctx.threadId
  heapHandle := heap
  rawResult := outcome.result result
  exceptionStatus := outcome.exceptionStatus
  operation := .destroy
  status := outcome.status (result = 0)
  stack := ctx.stackOf .failed outcome

/-- The reservation `VirtualQuery` finds at an allocation: base and size. -/
def queriedMapping (region : Option RegionInformation) (resultBase resultSize : ℕ) : ℕ × ℕ :=
  let base := (region.map (·.allocationBase)).getD 0
  let size := match region with
    | some region =>
        if base ≤ region.baseAddress ∧ region.regionSize ≤ maxU64 - (region.baseAddress - base) then
          region.baseAddress - base + region.regionSize
        else 0
    | none => 0
  (if base = 0 then resultBase else base, max size resultSize)

/-- What `fill_vm_event` and `fill_section_event` are told of a call. -/
structure NtArguments where
  process : ℕ
  targetProcessId : ℕ
  requestedBase : ℕ := 0
  resultBase : ℕ := 0
  requestedSize : ℕ := 0
  resultSize : ℕ := 0
  zeroBits : ℕ := 0
  flags : ℕ := 0
  secondaryFlags : ℕ := 0
  result : ℕ := 0
deriving DecidableEq, Repr

/-- `fill_vm_event`; `processId` is `GetCurrentProcessId()`. -/
def fillVmEvent (processId : ℕ) (operation : RtlHeapEventOperation) (call : NtArguments) :
    RtlHeapEvent :=
  let resultBase := outcome.result call.resultBase
  let resultSize := outcome.result call.resultSize
  let mapping :=
    if operation = .vmAllocate ∧ outcome.status (NtSuccess call.result) = .success ∧
        resultBase ≠ 0 ∧ call.targetProcessId = processId then
      queriedMapping ctx.region resultBase resultSize
    else (0, 0)
  { queueSequence := ctx.queueSequence
    monotonicTicks := ctx.ticks
    threadId := ctx.threadId
    heapHandle := call.process
    targetProcessId := call.targetProcessId
    requestedSize := call.requestedSize
    resultAddress := resultBase
    address := call.requestedBase
    rawResult := resultSize
    auxiliaryAddress := call.zeroBits
    mappingBase := mapping.1
    mappingSize := mapping.2
    flags := call.flags
    secondaryFlags := call.secondaryFlags
    operationResult := outcome.result call.result
    exceptionStatus := outcome.exceptionStatus
    operation := operation
    status := outcome.status (NtSuccess call.result)
    stack := ctx.stackOf (if ctx.maximumStackDepth = 0 then .disabled else .failed) outcome }

/-- `fill_section_event` -/
def fillSectionEvent (processId : ℕ) (operation : RtlHeapEventOperation)
    (sectionHandle commitSize sectionOffset inheritDisposition : ℕ) (call : NtArguments) :
    RtlHeapEvent :=
  let event := fillVmEvent ctx outcome processId operation call
  let mapsHere := operation = .sectionMap ∧ event.status = .success ∧ event.resultAddress ≠ 0 ∧
    event.targetProcessId = processId
  { event with
    sectionHandle := sectionHandle
    sectionOffset := sectionOffset
    commitSize := commitSize
    tertiaryFlags := inheritDisposition
    mappingBase := if mapsHere then event.resultAddress else event.mappingBase
    mappingSize := if mapsHere then event.rawResult else event.mappingSize }

end Fill

/-! ## Calls -/

/-- The hooked calls, with their arguments and results. -/
inductive HookedCall where
  | rtlCreateHeap (flags heapBase reserveSize commitSize lock parameters result : ℕ)
  | rtlDestroyHeap (heap result : ℕ)
  | ntAllocateVirtualMemory (call : NtArguments)
  | ntFreeVirtualMemory (process targetProcessId requestedBase resultBase requestedSize resultSize
      freeType result : ℕ)
  | ntMapViewOfSection (sectionHandle commitSize sectionOffset inheritDisposition : ℕ)
      (call : NtArguments)
  | ntUnmapViewOfSection (process targetProcessId baseAddress flags result : ℕ)
deriving DecidableEq, Repr

namespace HookedCall

def operation : HookedCall → RtlHeapEventOperation
  | rtlCreateHeap .. => .create
  | rtlDestroyHeap .. => .destroy
  | ntAllocateVirtualMemory _ => .vmAllocate
  | ntFreeVirtualMemory .. => .vmFree
  | ntMapViewOfSection .. => .sectionMap
  | ntUnmapViewOfSection .. => .sectionUnmap

/-- The event the replacement of a call fills in. -/
def event (processId : ℕ) (ctx : FillContext) (outcome : CallOutcome) : HookedCall → RtlHeapEvent
  | rtlCreateHeap flags heapBase reserveSize commitSize lock parameters result =>
      fillCreateEvent ctx outcome flags heapBase reserveSize commitSize lock parameters result
  | rtlDestroyHeap heap result => fillDestroyEvent ctx outcome heap result
  | ntAllocateVirtualMemory call => fillVmEvent ctx outcome processId .vmAllocate call
  | ntFreeVirtualMemory process targetProcessId requestedBase resultBase requestedSize resultSize
      freeType result =>
      fillVmEvent ctx outcome processId .vmFree
        { process, targetProcessId, requestedBase, resultBase, requestedSize, resultSize, result
          flags := freeType }
  | ntMapViewOfSection sectionHandle commitSize sectionOffset inheritDisposition call =>
      fillSectionEvent ctx outcome processId .sectionMap sectionHandle commitSize sectionOffset
        inheritDisposition call
  | ntUnmapViewOfSection process targetProcessId baseAddress flags result =>
      fillSectionEvent ctx outcome processId .sectionUnmap 0 0 0 0
        { process, targetProcessId, flags, result
          requestedBase := baseAddress
          resultBase := baseAddress }

/-- The size the filter of small calls compares; `none` for a call that is not filtered. -/
def filterSize (outcome : CallOutcome) : HookedCall → Option ℕ
  | ntAllocateVirtualMemory call | ntMapViewOfSection _ _ _ _ call =>
      some (if outcome.status (NtSuccess call.result) = .success ∧ call.resultSize ≠ 0
        then call.resultSize else call.requestedSize)
  | _ => none

/-- The call works on this process and succeeds. -/
abbrev SucceedsHere (processId targetProcessId result : ℕ) : Prop :=
  NtSuccess result ∧ targetProcessId = processId

end HookedCall

/-! ## The kernel -/

/-- What the kernel has handed out: heap handles, and reservations and views with their
sizes. -/
structure Kernel where
  heaps : Finset ℕ
  reservations : SortedMap ℕ
  views : SortedMap ℕ

namespace Kernel

open HookedCall (SucceedsHere)

/-- A view that holds the address. -/
abbrev HasView (k : Kernel) (address : ℕ) : Prop :=
  ∃ view ∈ k.views, view.1 ≤ address ∧ address < view.1 + view.2

/-- What the kernel may answer. A handle or a base is handed out when it is free, and
released when it is not. -/
abbrev Allows (processId : ℕ) (k : Kernel) : HookedCall → Prop
  | .rtlCreateHeap _ _ _ _ _ _ result => result ≠ 0 → result ∉ k.heaps
  | .rtlDestroyHeap heap result => result = 0 → heap ∈ k.heaps
  | .ntAllocateVirtualMemory call => SucceedsHere processId call.targetProcessId call.result →
      call.resultBase ≠ 0 ∧ call.resultSize ≠ 0 ∧
        (call.flags &&& memReserve ≠ 0 → ¬ k.reservations.Contains call.resultBase)
  | .ntFreeVirtualMemory _ targetProcessId requestedBase _ _ _ freeType result =>
      SucceedsHere processId targetProcessId result → freeType &&& memRelease ≠ 0 →
        k.reservations.Contains requestedBase
  | .ntMapViewOfSection _ _ _ _ call => SucceedsHere processId call.targetProcessId call.result →
      call.resultBase ≠ 0 ∧ call.resultSize ≠ 0 ∧ ¬ k.views.Contains call.resultBase
  | .ntUnmapViewOfSection _ targetProcessId baseAddress _ result =>
      SucceedsHere processId targetProcessId result → k.HasView baseAddress

/-- What a call that returned has changed. -/
def after (processId : ℕ) (k : Kernel) : HookedCall → Kernel
  | .rtlCreateHeap _ _ _ _ _ _ result =>
      if result = 0 then k else { k with heaps := insert result k.heaps }
  | .rtlDestroyHeap heap result =>
      if result = 0 then { k with heaps := k.heaps.erase heap } else k
  | .ntAllocateVirtualMemory call =>
      if SucceedsHere processId call.targetProcessId call.result ∧ call.flags &&& memReserve ≠ 0 then
        { k with reservations := k.reservations.insert call.resultBase call.resultSize }
      else k
  | .ntFreeVirtualMemory _ targetProcessId requestedBase _ _ _ freeType result =>
      if SucceedsHere processId targetProcessId result ∧ freeType &&& memRelease ≠ 0 then
        { k with reservations := k.reservations.erase requestedBase }
      else k
  | .ntMapViewOfSection _ _ _ _ call =>
      if SucceedsHere processId call.targetProcessId call.result then
        { k with views := k.views.insert call.resultBase call.resultSize }
      else k
  | .ntUnmapViewOfSection _ targetProcessId baseAddress _ result =>
      if SucceedsHere processId targetProcessId result then
        { k with views := k.views.filter fun view =>
          ¬ (view.1 ≤ baseAddress ∧ baseAddress < view.1 + view.2) }
      else k

end Kernel

/-! ## The capture -/

/-- A call between the step of the kernel and the queue. -/
structure PendingCall where
  call : HookedCall
  outcome : CallOutcome

/-- The threads, the queue and the consumer. -/
structure Capture where
  kernel : Kernel
  pending : ℕ → Option PendingCall := fun _ => none
  queue : List RtlHeapEvent := []
  enqueued : ℕ := 0
  writer : RtlAllocateHeapTraceWriter

/-- What the hooks are constructed with; their `initialize` refuses a larger depth. -/
structure HookOptions where
  queueCapacity : ℕ
  maximumStackDepth : ℕ
  minimumCaptureSize : ℕ
  depth_le : maximumStackDepth ≤ maximumCapturedStackDepth

/-- The queue has no slot to give. -/
abbrev Capture.QueueFull (hooks : HookOptions) (s : Capture) : Prop :=
  hooks.queueCapacity ≤ s.queue.length ∨ s.enqueued = maxU64

/-- What is known of the values an event is filled in with: the clock has passed the
origin of the capture, and `capture_current_stack` delivers what `validate_raw_stack`
accepts. -/
structure FillContext.Sound (options : WriterOptions) (hooks : HookOptions) (sequence : ℕ)
    (ctx : FillContext) : Prop where
  sequence : ctx.queueSequence = sequence
  ticks : options.monotonicOrigin ≤ ctx.ticks
  thread : ctx.threadId ≠ 0
  depth : ctx.maximumStackDepth = hooks.maximumStackDepth
  stack : validateRawStack ctx.stack = .ok ()

open RtlAllocateHeapTraceWriter (WriterAction perform processEvent)

/-- One step of a thread or of the consumer. -/
inductive Capture.Step (options : WriterOptions) (hooks : HookOptions) :
    Capture → Capture → Prop
  | call {s : Capture} {thread : ℕ} {call : HookedCall} (hidle : s.pending thread = none)
      (hhooked : options.hooks.serves call.operation = true)
      (hallows : s.kernel.Allows options.processId call) :
      Step options hooks s { s with
        kernel := s.kernel.after options.processId call
        pending := Function.update s.pending thread (some ⟨call, .returned⟩) }
  | raise {s : Capture} {thread : ℕ} {call : HookedCall} {code : ℕ}
      (hidle : s.pending thread = none) (hhooked : options.hooks.serves call.operation = true)
      (hcode : code ≠ 0) :
      Step options hooks s
        { s with pending := Function.update s.pending thread (some ⟨call, .raised code⟩) }
  | enqueue {s : Capture} {thread : ℕ} {record : PendingCall} {ctx : FillContext}
      (hpending : s.pending thread = some record) (hroom : ¬ s.QueueFull hooks)
      (hctx : ctx.Sound options hooks (s.enqueued + 1)) :
      Step options hooks s { s with
        pending := Function.update s.pending thread none
        queue := s.queue ++ [record.call.event options.processId ctx record.outcome]
        enqueued := s.enqueued + 1 }
  | drop {s : Capture} {thread : ℕ} {record : PendingCall}
      (hpending : s.pending thread = some record) (hfull : s.QueueFull hooks) :
      Step options hooks s { s with pending := Function.update s.pending thread none }
  | filter {s : Capture} {thread size : ℕ} {record : PendingCall}
      (hpending : s.pending thread = some record)
      (hsize : record.call.filterSize record.outcome = some size)
      (hsmall : size < hooks.minimumCaptureSize) :
      Step options hooks s { s with pending := Function.update s.pending thread none }
  | dequeue {s : Capture} {raw : RtlHeapEvent} {rest : List RtlHeapEvent}
      {writer : RtlAllocateHeapTraceWriter} (hqueue : s.queue = raw :: rest)
      (hrun : processEvent options raw s.writer = .ok () writer) :
      Step options hooks s { s with queue := rest, writer := writer }
  | consumer {s : Capture} {action : WriterAction} {writer : RtlAllocateHeapTraceWriter}
      (hother : ∀ raw, action ≠ .event raw) (hrun : perform options action s.writer = .ok () writer) :
      Step options hooks s { s with writer := writer }

/-- The states of every interleaving from the start of the capture. -/
inductive Capture.Run (options : WriterOptions) (hooks : HookOptions) (file : TraceWriter)
    (kernel : Kernel) : Capture → Prop
  | start : Run options hooks file kernel { kernel, writer := .start options file }
  | step {s t : Capture} (h : Run options hooks file kernel s)
      (hstep : Capture.Step options hooks s t) : Run options hooks file kernel t

end Noleax.Windows
