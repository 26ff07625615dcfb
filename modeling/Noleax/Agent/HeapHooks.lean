import Noleax.Agent.HeapEvent

/-!
# The heap replacements

The built-in replacements of `agent/linux/glibc_heap_hooks.cpp` and the custom
ones of `agent/linux/custom_symbol_hooks.cpp`, as far as they decide which raw
event a call enqueues. The original function is outside the agent: a call comes
with the outcome it returned.
-/

namespace Noleax.Agent

inductive ReplacementRoute where
  | target | original | record
deriving DecidableEq, Repr

inductive HookEntryKind where
  | outermost | recursive | internalThread
deriving DecidableEq, Repr

/-- How the call entered the replacement. -/
structure Invocation where
  route : ReplacementRoute := .record
  entryKind : HookEntryKind := .outermost
deriving DecidableEq, Repr

abbrev Invocation.Recorded (inv : Invocation) : Prop :=
  inv.route = .record ∧ inv.entryKind = .outermost

/-- What the event gets when it is enqueued: `try_emplace` hands out the sequence. -/
structure EventStamp where
  queueSequence : ℕ
  monotonicTicks : ℕ
  threadId : ℕ
  stack : CapturedStack := {}
deriving DecidableEq, Repr

structure EventFields where
  apiId : ℕ
  operation : LinuxHeapEventOperation
  requestedSize : UInt64 := 0
  count : UInt64 := 0
  alignment : UInt64 := 0
  address : UInt64 := 0
  result : UInt64 := 0
  failed : Bool := false
  errorCode : UInt32 := 0
deriving DecidableEq, Repr

/-- The body of the `try_emplace` lambda of `emit_event`. -/
def emitEvent (stamp : EventStamp) (fields : EventFields) : LinuxHeapEvent :=
  { queueSequence := stamp.queueSequence
    monotonicTicks := stamp.monotonicTicks
    threadId := stamp.threadId
    requestedSize := fields.requestedSize.toNat
    count := fields.count.toNat
    alignment := fields.alignment.toNat
    resultAddress := fields.result.toNat
    address := fields.address.toNat
    operationResult := if fields.failed then fields.errorCode.toNat else 0
    apiId := fields.apiId
    operation := fields.operation
    status := if fields.failed then .failure else .success
    stack := stamp.stack }

/-! ## Built-in replacements -/

/-- The size floor is creation-side only: a smaller allocation is counted, not
recorded. -/
def recordAllocate (minimumCaptureSize : UInt64) (stamp : EventStamp) (apiId : ℕ)
    (requestedSize count alignment result : UInt64) (failed : Bool) (errorCode : UInt32) :
    Option LinuxHeapEvent :=
  if requestedSize < minimumCaptureSize then none
  else some (emitEvent stamp
    { apiId := apiId
      operation := .allocate
      requestedSize := requestedSize
      count := count
      alignment := alignment
      result := result
      failed := failed
      errorCode := errorCode })

def recordReallocate (stamp : EventStamp) (apiId : ℕ) (address requestedSize count result : UInt64)
    (failed : Bool) (errorCode : UInt32) : LinuxHeapEvent :=
  emitEvent stamp
    { apiId := apiId
      operation := .reallocate
      requestedSize := requestedSize
      count := count
      address := address
      result := result
      failed := failed
      errorCode := errorCode }

def recordFree (stamp : EventStamp) (apiId : ℕ) (address : UInt64) : LinuxHeapEvent :=
  emitEvent stamp
    { apiId := apiId
      operation := .free
      address := address }

/-- A call of a hooked libc function: its arguments, what it returned and the
`errno` it left. -/
inductive HeapCall where
  | malloc (size result : UInt64) (errno : UInt32)
  | calloc (nmemb size result : UInt64) (errno : UInt32)
  | realloc (pointer size result : UInt64) (errno : UInt32)
  | free (pointer : UInt64)
  /-- `stored` is `*memptr` after the call. -/
  | posixMemalign (alignment size stored : UInt64) (result : UInt32)
  | alignedAlloc (alignment size result : UInt64) (errno : UInt32)
  | memalign (alignment size result : UInt64) (errno : UInt32)
  | reallocarray (pointer nmemb size result : UInt64) (errno : UInt32)
deriving DecidableEq, Repr

section Replacements

variable (minimumCaptureSize : UInt64) (stamp : EventStamp)

def replacementMalloc (size result : UInt64) (errno : UInt32) : Option LinuxHeapEvent :=
  recordAllocate minimumCaptureSize stamp LinuxLogicalHookApi.malloc.apiId size 0 0 result
    (result = 0) errno

/-- The product wraps on overflow, as the source's `nmemb * size` does. -/
def replacementCalloc (nmemb size result : UInt64) (errno : UInt32) : Option LinuxHeapEvent :=
  recordAllocate minimumCaptureSize stamp LinuxLogicalHookApi.calloc.apiId (nmemb * size) nmemb 0
    result (result = 0) errno

def replacementRealloc (pointer size result : UInt64) (errno : UInt32) : Option LinuxHeapEvent :=
  -- realloc(p, 0) frees and returns nullptr on glibc: a success, not a failure
  some (recordReallocate stamp LinuxLogicalHookApi.realloc.apiId pointer size 0 result
    (result = 0 ∧ size ≠ 0) errno)

def replacementFree (pointer : UInt64) : Option LinuxHeapEvent :=
  some (recordFree stamp LinuxLogicalHookApi.free.apiId pointer)

/-- Reports through its return code; `*memptr` only counts on success. -/
def replacementPosixMemalign (alignment size stored : UInt64) (result : UInt32) :
    Option LinuxHeapEvent :=
  recordAllocate minimumCaptureSize stamp LinuxLogicalHookApi.posixMemalign.apiId size 0 alignment
    (if result ≠ 0 then 0 else stored) (result ≠ 0) result

def replacementAlignedAlloc (alignment size result : UInt64) (errno : UInt32) :
    Option LinuxHeapEvent :=
  recordAllocate minimumCaptureSize stamp LinuxLogicalHookApi.alignedAlloc.apiId size 0 alignment
    result (result = 0) errno

def replacementMemalign (alignment size result : UInt64) (errno : UInt32) :
    Option LinuxHeapEvent :=
  recordAllocate minimumCaptureSize stamp LinuxLogicalHookApi.memalign.apiId size 0 alignment
    result (result = 0) errno

def replacementReallocarray (pointer nmemb size result : UInt64) (errno : UInt32) :
    Option LinuxHeapEvent :=
  let requestedSize := nmemb * size
  some (recordReallocate stamp LinuxLogicalHookApi.reallocarray.apiId pointer requestedSize nmemb
    result (result = 0 ∧ requestedSize ≠ 0) errno)

/-- The event the replacement of a call enqueues, if any. -/
def HeapCall.event (inv : Invocation) (call : HeapCall) : Option LinuxHeapEvent :=
  if inv.Recorded then
    match call with
    | malloc size result errno => replacementMalloc minimumCaptureSize stamp size result errno
    | calloc nmemb size result errno =>
        replacementCalloc minimumCaptureSize stamp nmemb size result errno
    | realloc pointer size result errno => replacementRealloc stamp pointer size result errno
    | free pointer => replacementFree stamp pointer
    | posixMemalign alignment size stored result =>
        replacementPosixMemalign minimumCaptureSize stamp alignment size stored result
    | alignedAlloc alignment size result errno =>
        replacementAlignedAlloc minimumCaptureSize stamp alignment size result errno
    | memalign alignment size result errno =>
        replacementMemalign minimumCaptureSize stamp alignment size result errno
    | reallocarray pointer nmemb size result errno =>
        replacementReallocarray stamp pointer nmemb size result errno
  else none

end Replacements

/-! ## Custom hook points -/

/-- The immutable part of a `CustomHookSlot`; `resultArg` and `freeSizeArg` may be
`kNoArgumentSlot`. -/
structure CustomHookSlot where
  apiId : ℕ
  allocSizeArg : Fin 8 := 0
  /-- Read only for calloc-kind points. -/
  allocCountArg : Fin 8 := 0
  reallocPtrArg : Fin 8 := 0
  reallocSizeArg : Fin 8 := 0
  freePtrArg : Fin 8 := 0
  resultArg : Option (Fin 8) := none
  freeSizeArg : Option (Fin 8) := none
  calloc : Bool := false
  minimumCaptureSize : UInt64 := 0
deriving DecidableEq, Repr

/-- `ENOMEM` -/
def enomem : UInt32 := 12

/-- The `errno` of a failed call; one that set none reports `ENOMEM`. -/
def customErrorCode (failed : Bool) (originalErrno : UInt32) : UInt32 :=
  if failed then (if originalErrno ≠ 0 then originalErrno else enomem) else 0

section Custom

variable (slot : CustomHookSlot) (stamp : EventStamp)

/-- The size floor does not swallow failures here. -/
def recordCustomAllocate (size count result : UInt64) (sizeValid : Bool)
    (originalErrno : UInt32) : Option LinuxHeapEvent :=
  let failed := decide (sizeValid = false ∨ result = 0)
  if failed = false ∧ size < slot.minimumCaptureSize then none
  else some (emitEvent stamp
    { apiId := slot.apiId
      operation := .allocate
      requestedSize := size
      count := count
      result := if failed then 0 else result
      failed := failed
      errorCode := customErrorCode failed originalErrno })

def recordCustomReallocate (address size result : UInt64) (originalErrno : UInt32) :
    LinuxHeapEvent :=
  let failed := decide (result = 0 ∧ size ≠ 0)
  emitEvent stamp
    { apiId := slot.apiId
      operation := .reallocate
      requestedSize := size
      address := address
      result := if failed then 0 else result
      failed := failed
      errorCode := customErrorCode failed originalErrno }

/-- The freed size is read but not carried on the wire. -/
def recordCustomFree (address _freedSize : UInt64) : LinuxHeapEvent :=
  emitEvent stamp
    { apiId := slot.apiId
      operation := .free
      address := address }

/-- The eight integer argument slots of a call. -/
abbrev HookArguments := Fin 8 → UInt64

/-- `result`, or what the declared out-parameter points to after the call. -/
def resultPointer (memory : UInt64 → UInt64) (args : HookArguments) (result : UInt64) : UInt64 :=
  match slot.resultArg with
  | some arg => memory (args arg)
  | none => result

/-- The recorded size of an allocation and whether it is valid: a calloc-kind
product that overflows counts as a failure of size zero. -/
def customSize (args : HookArguments) : UInt64 × UInt64 × Bool :=
  if slot.calloc then
    let count := args slot.allocCountArg
    let element := args slot.allocSizeArg
    if count ≠ 0 ∧ UInt64.ofNat (2 ^ 64 - 1) / count < element then (0, count, false)
    else (count * element, count, true)
  else (args slot.allocSizeArg, 0, true)

def customAllocImpl (memory : UInt64 → UInt64) (args : HookArguments) (result : UInt64)
    (errno : UInt32) : Option LinuxHeapEvent :=
  let (size, count, sizeValid) := customSize slot args
  recordCustomAllocate slot stamp size count (resultPointer slot memory args result) sizeValid errno

def customReallocImpl (memory : UInt64 → UInt64) (args : HookArguments) (result : UInt64)
    (errno : UInt32) : Option LinuxHeapEvent :=
  some (recordCustomReallocate slot stamp (args slot.reallocPtrArg) (args slot.reallocSizeArg)
    (resultPointer slot memory args result) errno)

def customFreeImpl (args : HookArguments) : Option LinuxHeapEvent :=
  let freedSize := match slot.freeSizeArg with
    | some arg => args arg
    | none => 0
  some (recordCustomFree slot stamp (args slot.freePtrArg) freedSize)

/-- A call of a custom hook point: the arguments, the memory and the result after
the original returned, and its `errno`. -/
inductive CustomCall where
  | alloc (memory : UInt64 → UInt64) (args : HookArguments) (result : UInt64) (errno : UInt32)
  | realloc (memory : UInt64 → UInt64) (args : HookArguments) (result : UInt64) (errno : UInt32)
  | free (args : HookArguments)

def CustomCall.event (inv : Invocation) (call : CustomCall) : Option LinuxHeapEvent :=
  if inv.Recorded then
    match call with
    | alloc memory args result errno => customAllocImpl slot stamp memory args result errno
    | realloc memory args result errno => customReallocImpl slot stamp memory args result errno
    | free args => customFreeImpl slot stamp args
  else none

end Custom

end Noleax.Agent
