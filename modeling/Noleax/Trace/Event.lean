import Noleax.Lib.Checked

/-!
# Trace events (`include/noleax/trace/event.hpp`, `src/trace/event.cpp`)

The nine event payloads of the wire format with their header, and
`validate_event`. An `Identifier` is its representation; zero is the
one. The enumerations are closed here, so the `is_known_…` tests of the source
are the decoder's business (an unknown wire value never becomes an `Event`).
-/

namespace Noleax

/-- The exceptions the modelled code throws, by class, with their texts. -/
inductive Error where
  | eventValidation (what : String)
  | generationState (what : String)
  | invalidArgument (what : String)
  | overflow (what : String)
  | runtime (what : String)
  | traceWrite (what : String)
  | eventStream (what : String)
  | completeness (what : String)
  | moduleValidation (what : String)
  | stackValidation (what : String)
  | wireFormat (what : String)
  | customHookValidation (what : String)
  | memorySnapshotValidation (what : String)
  | recordCodec (what : String)
  | traceRead (what : String)
  | logic (what : String)
deriving DecidableEq, Repr

/-- The text of an exception. -/
def Error.what : Error → String
  | eventValidation what | generationState what | invalidArgument what | overflow what
  | runtime what | traceWrite what | eventStream what | completeness what
  | moduleValidation what | stackValidation what | wireFormat what | customHookValidation what
  | memorySnapshotValidation what | recordCodec what | traceRead what | logic what => what

/-- `std::numeric_limits<std::uint64_t>::max()`. -/
def maxU64 : ℕ := 2 ^ 64 - 1

namespace Trace

open Lib

inductive EventOperation where
  | heapCreate | heapDestroy | allocate | reallocate | free | vmAllocate | vmFree | map | unmap
deriving DecidableEq, Repr

inductive EventStatus where
  | success | failure | unmatched | preexisting
deriving DecidableEq, Repr

inductive SystemErrorDomain where
  | none | win32 | ntStatus | posix | mach
deriving DecidableEq, Repr

inductive ProcessMemoryScope where
  | currentProcess | remoteProcess | unknown
deriving DecidableEq, Repr

inductive ReallocationEffect where
  | noChange | newGeneration | freed
deriving DecidableEq, Repr

structure SystemError where
  domain : SystemErrorDomain := .none
  code : ℕ := 0
deriving DecidableEq, Repr

structure EventHeader where
  sequence : ℕ := 0
  monotonicTicks : ℕ := 0
  threadId : ℕ := 0
  apiId : ℕ := 0
  status : EventStatus := .failure
  stackId : ℕ := 0
  flags : ℕ := 0
  systemError : SystemError := {}
deriving DecidableEq, Repr

structure ProcessTarget where
  scope : ProcessMemoryScope := .unknown
  processHandle : ℕ := 0
  processId : ℕ := 0
deriving DecidableEq, Repr

structure HeapCreateEvent where
  heapHandle : ℕ := 0
  heapId : ℕ := 0
  heapFlags : ℕ := 0
  reserveSize : ℕ := 0
  commitSize : ℕ := 0
deriving DecidableEq, Repr

structure HeapDestroyEvent where
  heapHandle : ℕ := 0
  heapId : ℕ := 0
  rawResult : ℕ := 0
deriving DecidableEq, Repr

structure AllocationEvent where
  heapHandle : ℕ := 0
  heapId : ℕ := 0
  requestedSize : ℕ := 0
  resultAddress : ℕ := 0
  allocationId : ℕ := 0
  apiFlags : ℕ := 0
deriving DecidableEq, Repr

structure ReallocationEvent where
  heapHandle : ℕ := 0
  heapId : ℕ := 0
  oldAddress : ℕ := 0
  oldAllocationId : ℕ := 0
  requestedSize : ℕ := 0
  resultAddress : ℕ := 0
  newAllocationId : ℕ := 0
  apiFlags : ℕ := 0
  effect : ReallocationEffect := .noChange
deriving DecidableEq, Repr

structure FreeEvent where
  heapHandle : ℕ := 0
  heapId : ℕ := 0
  address : ℕ := 0
  allocationId : ℕ := 0
  rawResult : ℕ := 0
  apiFlags : ℕ := 0
deriving DecidableEq, Repr

structure VmAllocateEvent where
  target : ProcessTarget := {}
  requestedBase : ℕ := 0
  resultBase : ℕ := 0
  requestedSize : ℕ := 0
  resultSize : ℕ := 0
  mappingBase : ℕ := 0
  mappingSize : ℕ := 0
  allocationType : ℕ := 0
  protection : ℕ := 0
  mappingId : ℕ := 0
deriving DecidableEq, Repr

structure VmFreeEvent where
  target : ProcessTarget := {}
  base : ℕ := 0
  regionSize : ℕ := 0
  freeType : ℕ := 0
  mappingId : ℕ := 0
deriving DecidableEq, Repr

structure MapEvent where
  sectionHandle : ℕ := 0
  target : ProcessTarget := {}
  resultBase : ℕ := 0
  viewSize : ℕ := 0
  sectionOffset : ℕ := 0
  protection : ℕ := 0
  mappingId : ℕ := 0
deriving DecidableEq, Repr

structure UnmapEvent where
  target : ProcessTarget := {}
  base : ℕ := 0
  mappingId : ℕ := 0
deriving DecidableEq, Repr

inductive EventPayload where
  | heapCreate (event : HeapCreateEvent)
  | heapDestroy (event : HeapDestroyEvent)
  | allocation (event : AllocationEvent)
  | reallocation (event : ReallocationEvent)
  | free (event : FreeEvent)
  | vmAllocate (event : VmAllocateEvent)
  | vmFree (event : VmFreeEvent)
  | map (event : MapEvent)
  | unmap (event : UnmapEvent)
deriving DecidableEq, Repr

structure Event where
  header : EventHeader
  payload : EventPayload
deriving DecidableEq, Repr

def eventOperation : EventPayload → EventOperation
  | .heapCreate _ => .heapCreate
  | .heapDestroy _ => .heapDestroy
  | .allocation _ => .allocate
  | .reallocation _ => .reallocate
  | .free _ => .free
  | .vmAllocate _ => .vmAllocate
  | .vmFree _ => .vmFree
  | .map _ => .map
  | .unmap _ => .unmap

/-- `call_succeeded`: everything but an explicit failure. -/
abbrev callSucceeded (status : EventStatus) : Prop := status ≠ .failure

/-- `kCustomHookApiIdBase`: the ids of custom hook points start here. -/
def customHookApiIdBase : ℕ := 0x1000

/-! ## What an event does to a generation -/

abbrev allocationCreatesGeneration (header : EventHeader) (event : AllocationEvent) : Prop :=
  callSucceeded header.status ∧ event.allocationId ≠ 0

abbrev reallocationEndsOldGeneration (header : EventHeader) (event : ReallocationEvent) : Prop :=
  callSucceeded header.status ∧ event.oldAllocationId ≠ 0 ∧
    (event.effect = .newGeneration ∨ event.effect = .freed)

abbrev reallocationCreatesNewGeneration (header : EventHeader) (event : ReallocationEvent) :
    Prop :=
  callSucceeded header.status ∧ event.effect = .newGeneration ∧ event.newAllocationId ≠ 0

abbrev freeEndsGeneration (header : EventHeader) (event : FreeEvent) : Prop :=
  callSucceeded header.status ∧ event.allocationId ≠ 0

abbrev heapDestroyEndsGenerations (header : EventHeader) (event : HeapDestroyEvent) : Prop :=
  callSucceeded header.status ∧ event.heapId ≠ 0

/-! ## `validate_event` -/

def validateCallResultStatus (status : EventStatus) (operation : String) : Except Error Unit :=
  failIf (status ≠ .success ∧ status ≠ .failure)
    (.eventValidation (operation ++ " status must be success or failure"))

def validateHeader (header : EventHeader) : Except Error Unit := do
  failIf (header.sequence = 0) (.eventValidation "event sequence must not be zero")
  failIf (header.systemError.domain = .none ∧ header.systemError.code ≠ 0)
    (.eventValidation "an event without an error domain must have a zero error code")

def validateHeapCreate (header : EventHeader) (event : HeapCreateEvent) : Except Error Unit := do
  validateCallResultStatus header.status "heap create"
  if callSucceeded header.status then
    failIf (event.heapHandle = 0 ∨ event.heapId = 0)
      (.eventValidation "successful heap create must have a handle and heap_id")
  else
    failIf (event.heapId ≠ 0) (.eventValidation "failed heap create must not have a heap_id")

def validateHeapDestroy (header : EventHeader) (event : HeapDestroyEvent) :
    Except Error Unit := do
  failIf (header.status = .success ∧ event.heapId = 0)
    (.eventValidation "matched successful heap destroy must have a heap_id")
  failIf ((header.status = .unmatched ∨ header.status = .preexisting) ∧ event.heapId ≠ 0)
    (.eventValidation "unmatched or preexisting heap destroy must not have a heap_id")

def validateAllocation (header : EventHeader) (event : AllocationEvent) : Except Error Unit := do
  validateCallResultStatus header.status "allocation"
  if callSucceeded header.status then
    failIf (event.resultAddress = 0 ∨ event.allocationId = 0)
      (.eventValidation "successful allocation must have an address and allocation_id")
  else
    failIf (event.resultAddress ≠ 0 ∨ event.allocationId ≠ 0)
      (.eventValidation "failed allocation must not have a result address or allocation_id")

def validateReallocation (header : EventHeader) (event : ReallocationEvent) :
    Except Error Unit := do
  failIf ((header.status = .unmatched ∨ header.status = .preexisting) ∧
      event.oldAllocationId ≠ 0)
    (.eventValidation "unmatched or preexisting reallocation must not have an old allocation_id")
  if ¬ callSucceeded header.status then
    failIf (event.effect ≠ .noChange ∨ event.resultAddress ≠ 0 ∨ event.newAllocationId ≠ 0)
      (.eventValidation "failed reallocation must preserve the old generation and have no new generation")
  else
    match event.effect with
    | .noChange =>
        failIf (event.resultAddress ≠ 0 ∨ event.newAllocationId ≠ 0)
          (.eventValidation "no-change reallocation must not have a result or new allocation_id")
    | .newGeneration => do
        failIf (event.resultAddress = 0 ∨ event.newAllocationId = 0)
          (.eventValidation "successful reallocation must have a result and new allocation_id")
        failIf (event.oldAllocationId ≠ 0 ∧ event.oldAllocationId = event.newAllocationId)
          (.eventValidation "reallocation generations must have different allocation IDs")
    | .freed => do
        failIf (event.oldAllocationId = 0)
          (.eventValidation "freeing reallocation must identify the old generation")
        failIf (event.resultAddress ≠ 0 ∨ event.newAllocationId ≠ 0)
          (.eventValidation "freeing reallocation must not have a result or new allocation_id")

def validateFree (header : EventHeader) (event : FreeEvent) : Except Error Unit := do
  failIf (header.status = .success ∧ event.allocationId = 0)
    (.eventValidation "matched successful free must have an allocation_id")
  failIf ((header.status = .unmatched ∨ header.status = .preexisting) ∧ event.allocationId ≠ 0)
    (.eventValidation "unmatched or preexisting free must not have an allocation_id")

def validateMappingCreation (header : EventHeader) (target : ProcessTarget) (mappingId : ℕ) :
    Except Error Unit := do
  failIf (header.status ≠ .success ∧ header.status ≠ .failure ∧ header.status ≠ .preexisting)
    (.eventValidation "mapping creation status must be success, failure, or preexisting")
  failIf (¬ callSucceeded header.status ∧ mappingId ≠ 0)
    (.eventValidation "failed virtual memory operation must not have a mapping_id")
  failIf (target.scope ≠ .currentProcess ∧ mappingId ≠ 0)
    (.eventValidation "non-local virtual memory events must not have a mapping_id")
  failIf (callSucceeded header.status ∧ target.scope = .currentProcess ∧ mappingId = 0)
    (.eventValidation "successful current-process mapping must have a mapping_id")

def validateMappingEnd (header : EventHeader) (target : ProcessTarget) (mappingId : ℕ) :
    Except Error Unit := do
  failIf (target.scope ≠ .currentProcess ∧ mappingId ≠ 0)
    (.eventValidation "non-local virtual memory events must not have a mapping_id")
  failIf ((header.status = .unmatched ∨ header.status = .preexisting) ∧ mappingId ≠ 0)
    (.eventValidation "unmatched or preexisting virtual memory event must not have a mapping_id")
  failIf (header.status = .success ∧ target.scope = .currentProcess ∧ mappingId = 0)
    (.eventValidation "matched successful local virtual memory event must have a mapping_id")

def validateEvent (event : Event) : Except Error Unit := do
  validateHeader event.header
  match event.payload with
  | .heapCreate payload => validateHeapCreate event.header payload
  | .heapDestroy payload => validateHeapDestroy event.header payload
  | .allocation payload => validateAllocation event.header payload
  | .reallocation payload => validateReallocation event.header payload
  | .free payload => validateFree event.header payload
  | .vmAllocate payload => validateMappingCreation event.header payload.target payload.mappingId
  | .vmFree payload => validateMappingEnd event.header payload.target payload.mappingId
  | .map payload => validateMappingCreation event.header payload.target payload.mappingId
  | .unmap payload => validateMappingEnd event.header payload.target payload.mappingId

/-! ## Acceptance -/

theorem validateHeader_eq_ok {header : EventHeader} :
    validateHeader header = .ok () ↔ header.sequence ≠ 0 ∧
      ¬ (header.systemError.domain = .none ∧ header.systemError.code ≠ 0) := by
  unfold validateHeader
  rw [failIf_bind_eq_ok, failIf_eq_ok]

/-- A creating record of the current process is valid with a nonzero id exactly
when its call succeeded, matched or not. -/
theorem validateMappingCreation_local {header : EventHeader} {target : ProcessTarget} {id : ℕ}
    (htarget : target.scope = .currentProcess) (hid : id ≠ 0)
    (hstatus : header.status = .success ∨ header.status = .preexisting) :
    validateMappingCreation header target id = .ok () := by
  unfold validateMappingCreation
  rcases hstatus with h | h <;> simp [failIf, h, htarget, hid]

theorem validateMappingEnd_local {header : EventHeader} {target : ProcessTarget} {id : ℕ}
    (htarget : target.scope = .currentProcess) (hid : id ≠ 0) (hstatus : header.status = .success) :
    validateMappingEnd header target id = .ok () := by
  unfold validateMappingEnd
  simp [failIf, hstatus, htarget, hid]

/-- An unmatched release names no generation. -/
theorem validateMappingEnd_unmatched {header : EventHeader} {target : ProcessTarget}
    (hstatus : header.status ≠ .success) : validateMappingEnd header target 0 = .ok () := by
  unfold validateMappingEnd
  simp [failIf, hstatus]

theorem validateMappingCreation_failed {header : EventHeader} {target : ProcessTarget}
    (hstatus : header.status = .failure) : validateMappingCreation header target 0 = .ok () := by
  unfold validateMappingCreation
  simp [failIf, hstatus]

end Trace

end Noleax
