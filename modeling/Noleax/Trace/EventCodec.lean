import Noleax.Trace.Completeness
import Noleax.Trace.Wire

/-!
# Event and Loss records (`src/trace/record_codec.cpp`)

The records of an event chunk. Beside each layout stands what its reader accepts: the
values whose fields fit their words, from exactly the bytes that were appended.
-/

namespace Noleax.Trace

open Lib

/-! ## Enumerations -/

def EventStatus.coding : Coding EventStatus where
  values := [.success, .failure, .unmatched, .preexisting]
  code
    | .success => 0
    | .failure => 1
    | .unmatched => 2
    | .preexisting => 3
  complete := by rintro ⟨⟩ <;> decide
  injective := by rintro ⟨⟩ ⟨⟩ <;> decide
  byte := by rintro ⟨⟩ <;> decide

def SystemErrorDomain.coding : Coding SystemErrorDomain where
  values := [.none, .win32, .ntStatus, .posix, .mach]
  code
    | .none => 0
    | .win32 => 1
    | .ntStatus => 2
    | .posix => 3
    | .mach => 4
  complete := by rintro ⟨⟩ <;> decide
  injective := by rintro ⟨⟩ ⟨⟩ <;> decide
  byte := by rintro ⟨⟩ <;> decide

def ProcessMemoryScope.coding : Coding ProcessMemoryScope where
  values := [.currentProcess, .remoteProcess, .unknown]
  code
    | .currentProcess => 0
    | .remoteProcess => 1
    | .unknown => 2
  complete := by rintro ⟨⟩ <;> decide
  injective := by rintro ⟨⟩ ⟨⟩ <;> decide
  byte := by rintro ⟨⟩ <;> decide

def ReallocationEffect.coding : Coding ReallocationEffect where
  values := [.noChange, .newGeneration, .freed]
  code
    | .noChange => 0
    | .newGeneration => 1
    | .freed => 2
  complete := by rintro ⟨⟩ <;> decide
  injective := by rintro ⟨⟩ ⟨⟩ <;> decide
  byte := by rintro ⟨⟩ <;> decide

def LossReason.coding : Coding LossReason where
  values := [.queueFull, .traceFull, .writerError, .stackCaptureFailed, .rotationLimit,
    .decoderError]
  code
    | .queueFull => 1
    | .traceFull => 2
    | .writerError => 3
    | .stackCaptureFailed => 4
    | .rotationLimit => 5
    | .decoderError => 6
  complete := by rintro ⟨⟩ <;> decide
  injective := by rintro ⟨⟩ ⟨⟩ <;> decide
  byte := by rintro ⟨⟩ <;> decide

def LossLocation.coding : Coding LossLocation where
  values := [.agentQueue, .writer, .rotation, .decoder]
  code
    | .agentQueue => 1
    | .writer => 2
    | .rotation => 3
    | .decoder => 4
  complete := by rintro ⟨⟩ <;> decide
  injective := by rintro ⟨⟩ ⟨⟩ <;> decide
  byte := by rintro ⟨⟩ <;> decide

inductive EventRecordType where
  | heapCreate | heapDestroy | allocate | reallocate | free | vmAllocate | vmFree | map | unmap
  | loss
deriving DecidableEq, Repr

def EventRecordType.coding : Coding EventRecordType where
  values := [.heapCreate, .heapDestroy, .allocate, .reallocate, .free, .vmAllocate, .vmFree, .map,
    .unmap, .loss]
  code
    | .heapCreate => 1
    | .heapDestroy => 2
    | .allocate => 3
    | .reallocate => 4
    | .free => 5
    | .vmAllocate => 6
    | .vmFree => 7
    | .map => 8
    | .unmap => 9
    | .loss => 10
  complete := by rintro ⟨⟩ <;> decide
  injective := by rintro ⟨⟩ ⟨⟩ <;> decide
  byte := by rintro ⟨⟩ <;> decide

/-! ## The header of an event -/

def appendEventHeader (header : EventHeader) : Bytes :=
  appendU64 header.sequence ++ appendU64 header.monotonicTicks ++ appendU64 header.threadId ++
    appendU32 header.apiId ++ EventStatus.coding.append header.status ++
    SystemErrorDomain.coding.append header.systemError.domain ++ appendU16 0 ++
    appendU64 header.stackId ++ appendU32 header.flags ++ appendU32 0 ++
    appendU64 header.systemError.code

def decodeEventHeader : PayloadReader EventHeader := do
  let sequence ← readU64
  let monotonicTicks ← readU64
  let threadId ← readU64
  let apiId ← readU32
  let status ← EventStatus.coding.read "event status is not supported"
  let domain ← SystemErrorDomain.coding.read "event error domain is not supported"
  expectZeros 2
  let stackId ← readU64
  let flags ← readU32
  expectZeros 4
  let code ← readU64
  return ⟨sequence, monotonicTicks, threadId, apiId, status, stackId, flags, ⟨domain, code⟩⟩

def EventHeader.InRange (header : EventHeader) : Prop :=
  IsWord 8 header.sequence ∧ IsWord 8 header.monotonicTicks ∧ IsWord 8 header.threadId ∧
    IsWord 4 header.apiId ∧ IsWord 8 header.stackId ∧ IsWord 4 header.flags ∧
    IsWord 8 header.systemError.code

theorem reads_eventHeader : Reads EventHeader.InRange appendEventHeader decodeEventHeader := by
  apply ReadsTo.reads
  refine ReadsTo.layout (.field reads_u64 EventHeader.sequence fun _ _ =>
    .field reads_u64 EventHeader.monotonicTicks fun _ _ =>
    .field reads_u64 EventHeader.threadId fun _ _ =>
    .field reads_u32 EventHeader.apiId fun _ _ =>
    .field (EventStatus.coding.reads _) EventHeader.status fun _ _ =>
    .field (SystemErrorDomain.coding.reads _) (fun header : EventHeader => header.systemError.domain)
      fun _ _ =>
    .skip (reads_zeros 2) <|
    .field reads_u64 EventHeader.stackId fun _ _ =>
    .field reads_u32 EventHeader.flags fun _ _ =>
    .skip (reads_zeros 4) <|
    .field reads_u64 (fun header : EventHeader => header.systemError.code) fun _ _ =>
    .done (Q := fun _ => True) ?_) ?_ ?_
  · rintro ⟨_, _, _, _, _, _, _, ⟨⟩⟩
    grind
  · simp [EventHeader.InRange]
  · simp [appendEventHeader]

/-! ## The payloads of an event -/

def appendProcessTarget (target : ProcessTarget) : Bytes :=
  ProcessMemoryScope.coding.append target.scope ++ appendZeros 7 ++
    appendU64 target.processHandle ++ appendU64 target.processId

def decodeProcessTarget : PayloadReader ProcessTarget := do
  let scope ← ProcessMemoryScope.coding.read "process memory scope is not supported"
  expectZeros 7
  let processHandle ← readU64
  let processId ← readU64
  return ⟨scope, processHandle, processId⟩

def ProcessTarget.InRange (target : ProcessTarget) : Prop :=
  IsWord 8 target.processHandle ∧ IsWord 8 target.processId

theorem reads_processTarget :
    Reads ProcessTarget.InRange appendProcessTarget decodeProcessTarget := by
  apply ReadsTo.reads
  refine ReadsTo.layout (.field (ProcessMemoryScope.coding.reads _) ProcessTarget.scope fun _ _ =>
    .skip (reads_zeros 7) <|
    .field reads_u64 ProcessTarget.processHandle fun _ _ =>
    .field reads_u64 ProcessTarget.processId fun _ _ => .done (Q := fun _ => True) ?_) ?_ ?_
  · rintro ⟨⟩
    simp [and_assoc]
  · simp [ProcessTarget.InRange]
  · simp [appendProcessTarget]

def appendHeapCreate (event : HeapCreateEvent) : Bytes :=
  appendU64 event.heapHandle ++ appendU64 event.heapId ++ appendU64 event.heapFlags ++
    appendU64 event.reserveSize ++ appendU64 event.commitSize

def readHeapCreate : PayloadReader HeapCreateEvent := do
  let heapHandle ← readU64
  let heapId ← readU64
  let heapFlags ← readU64
  let reserveSize ← readU64
  let commitSize ← readU64
  return ⟨heapHandle, heapId, heapFlags, reserveSize, commitSize⟩

def HeapCreateEvent.InRange (event : HeapCreateEvent) : Prop :=
  IsWord 8 event.heapHandle ∧ IsWord 8 event.heapId ∧ IsWord 8 event.heapFlags ∧
    IsWord 8 event.reserveSize ∧ IsWord 8 event.commitSize

theorem reads_heapCreate : Reads HeapCreateEvent.InRange appendHeapCreate readHeapCreate := by
  apply ReadsTo.reads
  refine ReadsTo.layout (.field reads_u64 HeapCreateEvent.heapHandle fun _ _ =>
    .field reads_u64 HeapCreateEvent.heapId fun _ _ =>
    .field reads_u64 HeapCreateEvent.heapFlags fun _ _ =>
    .field reads_u64 HeapCreateEvent.reserveSize fun _ _ =>
    .field reads_u64 HeapCreateEvent.commitSize fun _ _ =>
    .done (Q := fun _ => True) ?_) ?_ ?_
  · rintro ⟨⟩
    simp [and_assoc]
  · simp [HeapCreateEvent.InRange]
  · simp [appendHeapCreate]

def appendHeapDestroy (event : HeapDestroyEvent) : Bytes :=
  appendU64 event.heapHandle ++ appendU64 event.heapId ++ appendU64 event.rawResult

def readHeapDestroy : PayloadReader HeapDestroyEvent := do
  let heapHandle ← readU64
  let heapId ← readU64
  let rawResult ← readU64
  return ⟨heapHandle, heapId, rawResult⟩

def HeapDestroyEvent.InRange (event : HeapDestroyEvent) : Prop :=
  IsWord 8 event.heapHandle ∧ IsWord 8 event.heapId ∧ IsWord 8 event.rawResult

theorem reads_heapDestroy : Reads HeapDestroyEvent.InRange appendHeapDestroy readHeapDestroy := by
  apply ReadsTo.reads
  refine ReadsTo.layout (.field reads_u64 HeapDestroyEvent.heapHandle fun _ _ =>
    .field reads_u64 HeapDestroyEvent.heapId fun _ _ =>
    .field reads_u64 HeapDestroyEvent.rawResult fun _ _ =>
    .done (Q := fun _ => True) ?_) ?_ ?_
  · rintro ⟨⟩
    simp [and_assoc]
  · simp [HeapDestroyEvent.InRange]
  · simp [appendHeapDestroy]

def appendAllocation (event : AllocationEvent) : Bytes :=
  appendU64 event.heapHandle ++ appendU64 event.heapId ++ appendU64 event.requestedSize ++
    appendU64 event.resultAddress ++ appendU64 event.allocationId ++ appendU64 event.apiFlags

def readAllocation : PayloadReader AllocationEvent := do
  let heapHandle ← readU64
  let heapId ← readU64
  let requestedSize ← readU64
  let resultAddress ← readU64
  let allocationId ← readU64
  let apiFlags ← readU64
  return ⟨heapHandle, heapId, requestedSize, resultAddress, allocationId, apiFlags⟩

def AllocationEvent.InRange (event : AllocationEvent) : Prop :=
  IsWord 8 event.heapHandle ∧ IsWord 8 event.heapId ∧ IsWord 8 event.requestedSize ∧
    IsWord 8 event.resultAddress ∧ IsWord 8 event.allocationId ∧ IsWord 8 event.apiFlags

theorem reads_allocation : Reads AllocationEvent.InRange appendAllocation readAllocation := by
  apply ReadsTo.reads
  refine ReadsTo.layout (.field reads_u64 AllocationEvent.heapHandle fun _ _ =>
    .field reads_u64 AllocationEvent.heapId fun _ _ =>
    .field reads_u64 AllocationEvent.requestedSize fun _ _ =>
    .field reads_u64 AllocationEvent.resultAddress fun _ _ =>
    .field reads_u64 AllocationEvent.allocationId fun _ _ =>
    .field reads_u64 AllocationEvent.apiFlags fun _ _ =>
    .done (Q := fun _ => True) ?_) ?_ ?_
  · rintro ⟨⟩
    simp [and_assoc]
  · simp [AllocationEvent.InRange]
  · simp [appendAllocation]

def appendReallocation (event : ReallocationEvent) : Bytes :=
  appendU64 event.heapHandle ++ appendU64 event.heapId ++ appendU64 event.oldAddress ++
    appendU64 event.oldAllocationId ++ appendU64 event.requestedSize ++
    appendU64 event.resultAddress ++ appendU64 event.newAllocationId ++
    appendU64 event.apiFlags ++ ReallocationEffect.coding.append event.effect ++ appendZeros 7

def readReallocation : PayloadReader ReallocationEvent := do
  let heapHandle ← readU64
  let heapId ← readU64
  let oldAddress ← readU64
  let oldAllocationId ← readU64
  let requestedSize ← readU64
  let resultAddress ← readU64
  let newAllocationId ← readU64
  let apiFlags ← readU64
  let effect ← ReallocationEffect.coding.read "reallocation effect is not supported"
  expectZeros 7
  return ⟨heapHandle, heapId, oldAddress, oldAllocationId, requestedSize, resultAddress,
    newAllocationId, apiFlags, effect⟩

def ReallocationEvent.InRange (event : ReallocationEvent) : Prop :=
  IsWord 8 event.heapHandle ∧ IsWord 8 event.heapId ∧ IsWord 8 event.oldAddress ∧
    IsWord 8 event.oldAllocationId ∧ IsWord 8 event.requestedSize ∧ IsWord 8 event.resultAddress ∧
    IsWord 8 event.newAllocationId ∧ IsWord 8 event.apiFlags

theorem reads_reallocation :
    Reads ReallocationEvent.InRange appendReallocation readReallocation := by
  apply ReadsTo.reads
  refine ReadsTo.layout (.field reads_u64 ReallocationEvent.heapHandle fun _ _ =>
    .field reads_u64 ReallocationEvent.heapId fun _ _ =>
    .field reads_u64 ReallocationEvent.oldAddress fun _ _ =>
    .field reads_u64 ReallocationEvent.oldAllocationId fun _ _ =>
    .field reads_u64 ReallocationEvent.requestedSize fun _ _ =>
    .field reads_u64 ReallocationEvent.resultAddress fun _ _ =>
    .field reads_u64 ReallocationEvent.newAllocationId fun _ _ =>
    .field reads_u64 ReallocationEvent.apiFlags fun _ _ =>
    .field (ReallocationEffect.coding.reads _) ReallocationEvent.effect fun _ _ =>
    .skip (reads_zeros 7) <|
    .done (Q := fun _ => True) ?_) ?_ ?_
  · rintro ⟨⟩
    simp [and_assoc]
  · simp [ReallocationEvent.InRange]
  · simp [appendReallocation]

def appendFree (event : FreeEvent) : Bytes :=
  appendU64 event.heapHandle ++ appendU64 event.heapId ++ appendU64 event.address ++
    appendU64 event.allocationId ++ appendU64 event.rawResult ++ appendU64 event.apiFlags

def readFree : PayloadReader FreeEvent := do
  let heapHandle ← readU64
  let heapId ← readU64
  let address ← readU64
  let allocationId ← readU64
  let rawResult ← readU64
  let apiFlags ← readU64
  return ⟨heapHandle, heapId, address, allocationId, rawResult, apiFlags⟩

def FreeEvent.InRange (event : FreeEvent) : Prop :=
  IsWord 8 event.heapHandle ∧ IsWord 8 event.heapId ∧ IsWord 8 event.address ∧
    IsWord 8 event.allocationId ∧ IsWord 8 event.rawResult ∧ IsWord 8 event.apiFlags

theorem reads_free : Reads FreeEvent.InRange appendFree readFree := by
  apply ReadsTo.reads
  refine ReadsTo.layout (.field reads_u64 FreeEvent.heapHandle fun _ _ =>
    .field reads_u64 FreeEvent.heapId fun _ _ =>
    .field reads_u64 FreeEvent.address fun _ _ =>
    .field reads_u64 FreeEvent.allocationId fun _ _ =>
    .field reads_u64 FreeEvent.rawResult fun _ _ =>
    .field reads_u64 FreeEvent.apiFlags fun _ _ =>
    .done (Q := fun _ => True) ?_) ?_ ?_
  · rintro ⟨⟩
    simp [and_assoc]
  · simp [FreeEvent.InRange]
  · simp [appendFree]

def appendVmAllocate (event : VmAllocateEvent) : Bytes :=
  appendProcessTarget event.target ++ appendU64 event.requestedBase ++
    appendU64 event.resultBase ++ appendU64 event.requestedSize ++ appendU64 event.resultSize ++
    appendU64 event.mappingBase ++ appendU64 event.mappingSize ++
    appendU32 event.allocationType ++ appendU32 event.protection ++ appendU64 event.mappingId

def readVmAllocate : PayloadReader VmAllocateEvent := do
  let target ← decodeProcessTarget
  let requestedBase ← readU64
  let resultBase ← readU64
  let requestedSize ← readU64
  let resultSize ← readU64
  let mappingBase ← readU64
  let mappingSize ← readU64
  let allocationType ← readU32
  let protection ← readU32
  let mappingId ← readU64
  return ⟨target, requestedBase, resultBase, requestedSize, resultSize, mappingBase, mappingSize,
    allocationType, protection, mappingId⟩

def VmAllocateEvent.InRange (event : VmAllocateEvent) : Prop :=
  event.target.InRange ∧ IsWord 8 event.requestedBase ∧ IsWord 8 event.resultBase ∧
    IsWord 8 event.requestedSize ∧ IsWord 8 event.resultSize ∧ IsWord 8 event.mappingBase ∧
    IsWord 8 event.mappingSize ∧ IsWord 4 event.allocationType ∧ IsWord 4 event.protection ∧
    IsWord 8 event.mappingId

theorem reads_vmAllocate : Reads VmAllocateEvent.InRange appendVmAllocate readVmAllocate := by
  apply ReadsTo.reads
  refine ReadsTo.layout (.field reads_processTarget VmAllocateEvent.target fun _ _ =>
    .field reads_u64 VmAllocateEvent.requestedBase fun _ _ =>
    .field reads_u64 VmAllocateEvent.resultBase fun _ _ =>
    .field reads_u64 VmAllocateEvent.requestedSize fun _ _ =>
    .field reads_u64 VmAllocateEvent.resultSize fun _ _ =>
    .field reads_u64 VmAllocateEvent.mappingBase fun _ _ =>
    .field reads_u64 VmAllocateEvent.mappingSize fun _ _ =>
    .field reads_u32 VmAllocateEvent.allocationType fun _ _ =>
    .field reads_u32 VmAllocateEvent.protection fun _ _ =>
    .field reads_u64 VmAllocateEvent.mappingId fun _ _ =>
    .done (Q := fun _ => True) ?_) ?_ ?_
  · rintro ⟨⟩
    simp [and_assoc]
  · simp [VmAllocateEvent.InRange]
  · simp [appendVmAllocate]

def appendVmFree (event : VmFreeEvent) : Bytes :=
  appendProcessTarget event.target ++ appendU64 event.base ++ appendU64 event.regionSize ++
    appendU32 event.freeType ++ appendU32 0 ++ appendU64 event.mappingId

def readVmFree : PayloadReader VmFreeEvent := do
  let target ← decodeProcessTarget
  let base ← readU64
  let regionSize ← readU64
  let freeType ← readU32
  expectZeros 4
  let mappingId ← readU64
  return ⟨target, base, regionSize, freeType, mappingId⟩

def VmFreeEvent.InRange (event : VmFreeEvent) : Prop :=
  event.target.InRange ∧ IsWord 8 event.base ∧ IsWord 8 event.regionSize ∧
    IsWord 4 event.freeType ∧ IsWord 8 event.mappingId

theorem reads_vmFree : Reads VmFreeEvent.InRange appendVmFree readVmFree := by
  apply ReadsTo.reads
  refine ReadsTo.layout (.field reads_processTarget VmFreeEvent.target fun _ _ =>
    .field reads_u64 VmFreeEvent.base fun _ _ =>
    .field reads_u64 VmFreeEvent.regionSize fun _ _ =>
    .field reads_u32 VmFreeEvent.freeType fun _ _ =>
    .skip (reads_zeros 4) <|
    .field reads_u64 VmFreeEvent.mappingId fun _ _ =>
    .done (Q := fun _ => True) ?_) ?_ ?_
  · rintro ⟨⟩
    simp [and_assoc]
  · simp [VmFreeEvent.InRange]
  · simp [appendVmFree]

def appendMap (event : MapEvent) : Bytes :=
  appendU64 event.sectionHandle ++ appendProcessTarget event.target ++
    appendU64 event.resultBase ++ appendU64 event.viewSize ++ appendU64 event.sectionOffset ++
    appendU32 event.protection ++ appendU32 0 ++ appendU64 event.mappingId

def readMap : PayloadReader MapEvent := do
  let sectionHandle ← readU64
  let target ← decodeProcessTarget
  let resultBase ← readU64
  let viewSize ← readU64
  let sectionOffset ← readU64
  let protection ← readU32
  expectZeros 4
  let mappingId ← readU64
  return ⟨sectionHandle, target, resultBase, viewSize, sectionOffset, protection, mappingId⟩

def MapEvent.InRange (event : MapEvent) : Prop :=
  IsWord 8 event.sectionHandle ∧ event.target.InRange ∧ IsWord 8 event.resultBase ∧
    IsWord 8 event.viewSize ∧ IsWord 8 event.sectionOffset ∧ IsWord 4 event.protection ∧
    IsWord 8 event.mappingId

theorem reads_map : Reads MapEvent.InRange appendMap readMap := by
  apply ReadsTo.reads
  refine ReadsTo.layout (.field reads_u64 MapEvent.sectionHandle fun _ _ =>
    .field reads_processTarget MapEvent.target fun _ _ =>
    .field reads_u64 MapEvent.resultBase fun _ _ =>
    .field reads_u64 MapEvent.viewSize fun _ _ =>
    .field reads_u64 MapEvent.sectionOffset fun _ _ =>
    .field reads_u32 MapEvent.protection fun _ _ =>
    .skip (reads_zeros 4) <|
    .field reads_u64 MapEvent.mappingId fun _ _ =>
    .done (Q := fun _ => True) ?_) ?_ ?_
  · rintro ⟨⟩
    simp [and_assoc]
  · simp [MapEvent.InRange]
  · simp [appendMap]

def appendUnmap (event : UnmapEvent) : Bytes :=
  appendProcessTarget event.target ++ appendU64 event.base ++ appendU64 event.mappingId

def readUnmap : PayloadReader UnmapEvent := do
  let target ← decodeProcessTarget
  let base ← readU64
  let mappingId ← readU64
  return ⟨target, base, mappingId⟩

def UnmapEvent.InRange (event : UnmapEvent) : Prop :=
  event.target.InRange ∧ IsWord 8 event.base ∧ IsWord 8 event.mappingId

theorem reads_unmap : Reads UnmapEvent.InRange appendUnmap readUnmap := by
  apply ReadsTo.reads
  refine ReadsTo.layout (.field reads_processTarget UnmapEvent.target fun _ _ =>
    .field reads_u64 UnmapEvent.base fun _ _ =>
    .field reads_u64 UnmapEvent.mappingId fun _ _ =>
    .done (Q := fun _ => True) ?_) ?_ ?_
  · rintro ⟨⟩
    simp [and_assoc]
  · simp [UnmapEvent.InRange]
  · simp [appendUnmap]

/-! ## Event records -/

def eventRecordType : EventPayload → EventRecordType
  | .heapCreate _ => .heapCreate
  | .heapDestroy _ => .heapDestroy
  | .allocation _ => .allocate
  | .reallocation _ => .reallocate
  | .free _ => .free
  | .vmAllocate _ => .vmAllocate
  | .vmFree _ => .vmFree
  | .map _ => .map
  | .unmap _ => .unmap

def appendEventPayload : EventPayload → Bytes
  | .heapCreate event => appendHeapCreate event
  | .heapDestroy event => appendHeapDestroy event
  | .allocation event => appendAllocation event
  | .reallocation event => appendReallocation event
  | .free event => appendFree event
  | .vmAllocate event => appendVmAllocate event
  | .vmFree event => appendVmFree event
  | .map event => appendMap event
  | .unmap event => appendUnmap event

def EventPayload.InRange : EventPayload → Prop
  | heapCreate event => event.InRange
  | heapDestroy event => event.InRange
  | allocation event => event.InRange
  | reallocation event => event.InRange
  | free event => event.InRange
  | vmAllocate event => event.InRange
  | vmFree event => event.InRange
  | map event => event.InRange
  | unmap event => event.InRange

/-- What the fields of an event can hold. -/
def Event.InRange (event : Event) : Prop := event.header.InRange ∧ event.payload.InRange

def decodeEventRecordType (value : ℕ) : Option EventRecordType :=
  EventRecordType.coding.find value

def decodeMemoryEventPayload : EventRecordType → PayloadReader EventPayload
  | .heapCreate => do return .heapCreate (← readHeapCreate)
  | .heapDestroy => do return .heapDestroy (← readHeapDestroy)
  | .allocate => do return .allocation (← readAllocation)
  | .reallocate => do return .reallocation (← readReallocation)
  | .free => do return .free (← readFree)
  | .vmAllocate => do return .vmAllocate (← readVmAllocate)
  | .vmFree => do return .vmFree (← readVmFree)
  | .map => do return .map (← readMap)
  | .unmap => do return .unmap (← readUnmap)
  | .loss => throw (.recordCodec "Loss is not a memory event payload")

def decodeMemoryEvent (type : EventRecordType) : PayloadReader Event := do
  let header ← decodeEventHeader
  let payload ← decodeMemoryEventPayload type
  expectDone
  check (asInvalid "memory event" (validateEvent ⟨header, payload⟩))
  return ⟨header, payload⟩

def appendEventRecord (chunkPayload : Bytes) (event : Event) (maximumRecordSize : ℕ) :
    Except Error Bytes := do
  validateEvent event
  appendRecord chunkPayload ⟨EventRecordType.coding.code (eventRecordType event.payload),
    recordVersion, appendEventHeader event.header ++ appendEventPayload event.payload⟩
    maximumRecordSize

theorem reads_eventPayload (type : EventRecordType) :
    Reads (fun payload => eventRecordType payload = type ∧ payload.InRange) appendEventPayload
      (decodeMemoryEventPayload type) := by
  cases type with
  | heapCreate =>
      refine Reads.congr (reads_heapCreate.variant EventPayload.heapCreate fun _ => rfl) ?_ fun _ => rfl
      rintro ⟨⟩ <;> simp [eventRecordType, EventPayload.InRange]
  | heapDestroy =>
      refine Reads.congr (reads_heapDestroy.variant EventPayload.heapDestroy fun _ => rfl) ?_ fun _ => rfl
      rintro ⟨⟩ <;> simp [eventRecordType, EventPayload.InRange]
  | allocate =>
      refine Reads.congr (reads_allocation.variant EventPayload.allocation fun _ => rfl) ?_ fun _ => rfl
      rintro ⟨⟩ <;> simp [eventRecordType, EventPayload.InRange]
  | reallocate =>
      refine Reads.congr (reads_reallocation.variant EventPayload.reallocation fun _ => rfl) ?_ fun _ => rfl
      rintro ⟨⟩ <;> simp [eventRecordType, EventPayload.InRange]
  | free =>
      refine Reads.congr (reads_free.variant EventPayload.free fun _ => rfl) ?_ fun _ => rfl
      rintro ⟨⟩ <;> simp [eventRecordType, EventPayload.InRange]
  | vmAllocate =>
      refine Reads.congr (reads_vmAllocate.variant EventPayload.vmAllocate fun _ => rfl) ?_ fun _ => rfl
      rintro ⟨⟩ <;> simp [eventRecordType, EventPayload.InRange]
  | vmFree =>
      refine Reads.congr (reads_vmFree.variant EventPayload.vmFree fun _ => rfl) ?_ fun _ => rfl
      rintro ⟨⟩ <;> simp [eventRecordType, EventPayload.InRange]
  | map =>
      refine Reads.congr (reads_map.variant EventPayload.map fun _ => rfl) ?_ fun _ => rfl
      rintro ⟨⟩ <;> simp [eventRecordType, EventPayload.InRange]
  | unmap =>
      refine Reads.congr (reads_unmap.variant EventPayload.unmap fun _ => rfl) ?_ fun _ => rfl
      rintro ⟨⟩ <;> simp [eventRecordType, EventPayload.InRange]
  | loss =>
      intro input payload rest
      constructor
      · intro h
        cases h
      · rintro ⟨⟨htype, -⟩, -⟩
        cases payload <;> cases htype

theorem readsTo_memoryEvent (type : EventRecordType) :
    ReadsTo (fun rest => rest = [])
      (fun event => (eventRecordType event.payload = type ∧ event.InRange) ∧
        validateEvent event = .ok ())
      (fun event => appendEventHeader event.header ++ appendEventPayload event.payload)
      (decodeMemoryEvent type) := by
  refine ReadsTo.layout (.field reads_eventHeader Event.header fun _ _ =>
    .field (reads_eventPayload type) Event.payload fun _ _ =>
    .ending (.valid (fun event => asInvalid "memory event" (validateEvent event))
      (Q := fun _ => True) ?_)) ?_ ?_
  · rintro ⟨⟩
    simp
  · intro event
    rw [asInvalid_eq_ok]
    unfold Event.InRange
    tauto
  · simp

/-! ## Loss records -/

/-- The bits of the presence byte. -/
def LossRecord.presence (loss : LossRecord) : ℕ :=
  (if loss.estimatedEventCount.isSome then 1 else 0) + (if loss.sequenceRange.isSome then 2 else 0) +
    (if loss.tickRange.isSome then 4 else 0)

def appendLoss (loss : LossRecord) : Bytes :=
  LossReason.coding.append loss.reason ++ LossLocation.coding.append loss.location ++
    appendU8 loss.presence ++ appendZeros 5 ++ appendU64 (loss.estimatedEventCount.getD 0) ++
    appendU64 (loss.sequenceRange.elim 0 (·.first)) ++
    appendU64 (loss.sequenceRange.elim 0 (·.last)) ++
    appendU64 (loss.tickRange.elim 0 (·.first)) ++ appendU64 (loss.tickRange.elim 0 (·.last))

def decodeLossPayload : PayloadReader LossRecord := do
  let reason ← LossReason.coding.read "loss reason is not supported"
  let location ← LossLocation.coding.read "loss location is not supported"
  let presence ← readU8
  check (failIf (7 < presence) (.recordCodec "loss presence flags are not supported"))
  expectZeros 5
  let count ← readU64
  let sequenceBegin ← readU64
  let sequenceEnd ← readU64
  let tickBegin ← readU64
  let tickEnd ← readU64
  let estimatedEventCount ← check (decodeOptional (presence.testBit 0) count (count = 0)
    "absent loss count must be zero")
  let sequenceRange ← check (decodeOptional (presence.testBit 1)
    (SequenceRange.mk sequenceBegin sequenceEnd) (sequenceBegin = 0 ∧ sequenceEnd = 0)
    "absent loss sequence range must be zero")
  let tickRange ← check (decodeOptional (presence.testBit 2) (TickRange.mk tickBegin tickEnd)
    (tickBegin = 0 ∧ tickEnd = 0) "absent loss tick range must be zero")
  expectDone
  let loss : LossRecord := ⟨reason, location, estimatedEventCount, sequenceRange, tickRange⟩
  check (asInvalid "Loss" (validateLossRecord loss))
  return loss

def appendLossRecord (chunkPayload : Bytes) (loss : LossRecord) (maximumRecordSize : ℕ) :
    Except Error Bytes := do
  validateLossRecord loss
  appendRecord chunkPayload ⟨EventRecordType.coding.code .loss, recordVersion, appendLoss loss⟩
    maximumRecordSize

def LossRecord.InRange (loss : LossRecord) : Prop :=
  IsWord 8 (loss.estimatedEventCount.getD 0) ∧
    IsWord 8 (loss.sequenceRange.elim 0 (·.first)) ∧
    IsWord 8 (loss.sequenceRange.elim 0 (·.last)) ∧ IsWord 8 (loss.tickRange.elim 0 (·.first)) ∧
    IsWord 8 (loss.tickRange.elim 0 (·.last))

theorem LossRecord.presence_le (loss : LossRecord) : loss.presence ≤ 7 := by
  unfold presence
  split <;> split <;> split <;> decide

/-- The presence byte is known by its bits. -/
theorem bits_of_presence : ∀ presence ≤ 7, presence = (if presence.testBit 0 then 1 else 0) +
    (if presence.testBit 1 then 2 else 0) + (if presence.testBit 2 then 4 else 0) := by
  decide

theorem LossRecord.presence_testBit (loss : LossRecord) :
    loss.presence.testBit 0 = loss.estimatedEventCount.isSome ∧
      loss.presence.testBit 1 = loss.sequenceRange.isSome ∧
      loss.presence.testBit 2 = loss.tickRange.isSome := by
  unfold presence
  generalize loss.estimatedEventCount.isSome = count
  generalize loss.sequenceRange.isSome = sequences
  generalize loss.tickRange.isSome = ticks
  revert count sequences ticks
  decide

theorem readsTo_loss :
    ReadsTo (fun rest => rest = [])
      (fun loss => loss.InRange ∧ validateLossRecord loss = .ok ()) appendLoss
      decodeLossPayload := by
  refine ReadsTo.layout (.field (LossReason.coding.reads _) LossRecord.reason fun _ _ =>
    .field (LossLocation.coding.reads _) LossRecord.location fun _ _ =>
    .field reads_u8 LossRecord.presence fun presence _ => .test ?flags fun hflags =>
    .skip (reads_zeros 5) <|
    .field reads_u64 (fun loss : LossRecord => loss.estimatedEventCount.getD 0) fun _ _ =>
    .field reads_u64 (fun loss : LossRecord => loss.sequenceRange.elim 0 (·.first)) fun _ _ =>
    .field reads_u64 (fun loss : LossRecord => loss.sequenceRange.elim 0 (·.last)) fun _ _ =>
    .field reads_u64 (fun loss : LossRecord => loss.tickRange.elim 0 (·.first)) fun _ _ =>
    .field reads_u64 (fun loss : LossRecord => loss.tickRange.elim 0 (·.last)) fun _ _ =>
    .look LossRecord.estimatedEventCount ?count fun count hcount =>
    .look LossRecord.sequenceRange ?sequences fun sequences hsequences =>
    .look LossRecord.tickRange ?ticks fun ticks hticks =>
    .ending (.valid (fun loss => asInvalid "Loss" (validateLossRecord loss))
      (Q := fun _ => True) ?done)) ?_ ?_
  case flags =>
    rintro loss ⟨-, rfl⟩ -
    exact Nat.not_lt.mpr loss.presence_le
  case count =>
    intro loss hfields _
    simp only [and_assoc] at hfields
    obtain ⟨-, -, -, hpresence, hcount, -⟩ := hfields
    rw [decodeOptional_eq_ok, ← hpresence, ← hcount]
    cases h : loss.estimatedEventCount <;> simp [loss.presence_testBit, h]
  case sequences =>
    intro loss hfields _
    simp only [and_assoc] at hfields
    obtain ⟨-, -, -, hpresence, -, hbegin, hend, -⟩ := hfields
    rw [decodeOptional_eq_ok, ← hpresence, ← hbegin, ← hend]
    cases h : loss.sequenceRange <;> simp [loss.presence_testBit, h]
  case ticks =>
    intro loss hfields _
    simp only [and_assoc] at hfields
    obtain ⟨-, -, -, hpresence, -, -, -, hbegin, hend, -⟩ := hfields
    rw [decodeOptional_eq_ok, ← hpresence, ← hbegin, ← hend]
    cases h : loss.tickRange <;> simp [loss.presence_testBit, h]
  case done =>
    intro loss
    constructor
    · intro h
      simp only [and_assoc] at h
      obtain ⟨-, rfl, rfl, -, -, -, -, -, -, rfl, rfl, rfl, -⟩ := h
      rfl
    · rintro rfl
      have hbits := bits_of_presence presence (Nat.not_lt.mp hflags)
      rw [← (decodeOptional_eq_ok.mp hcount).1, ← (decodeOptional_eq_ok.mp hsequences).1,
        ← (decodeOptional_eq_ok.mp hticks).1] at hbits
      refine ⟨⟨⟨⟨⟨⟨⟨⟨⟨⟨⟨⟨trivial, rfl⟩, rfl⟩, hbits.symm⟩, ?_⟩, ?_⟩, ?_⟩, ?_⟩, ?_⟩, rfl⟩, rfl⟩,
        rfl⟩, trivial⟩
      · have hvalue := decodeOptional_elim hcount id id
        cases count <;> exact hvalue
      · exact decodeOptional_elim hsequences (·.first) And.left
      · exact decodeOptional_elim hsequences (·.last) And.right
      · exact decodeOptional_elim hticks (·.first) And.left
      · exact decodeOptional_elim hticks (·.last) And.right
  · intro loss
    rw [asInvalid_eq_ok]
    have hpresence : IsWord 1 loss.presence := Nat.lt_of_le_of_lt loss.presence_le (by decide)
    unfold LossRecord.InRange
    tauto
  · simp [appendLoss]

/-! ## The records of an event chunk -/

def appendEventChunkRecord (chunkPayload : Bytes) (record : EventChunkRecord)
    (maximumRecordSize : ℕ) : Except Error Bytes :=
  match record with
  | .event event => appendEventRecord chunkPayload event maximumRecordSize
  | .loss loss => appendLossRecord chunkPayload loss maximumRecordSize

def decodeEventChunkRecord (record : RecordView) : Except Error (Option EventChunkRecord) :=
  match decodeEventRecordType record.type with
  | none => .ok none
  | some type =>
      if record.version ≠ recordVersion then .ok none
      else if type = .loss then do
        return some (.loss (← runReader decodeLossPayload record.payload))
      else do
        return some (.event (← runReader (decodeMemoryEvent type) record.payload))

namespace EventChunkRecord

def InRange : EventChunkRecord → Prop
  | event e => e.InRange
  | loss l => l.InRange

def type : EventChunkRecord → EventRecordType
  | event e => eventRecordType e.payload
  | loss _ => .loss

def write : EventChunkRecord → Bytes
  | event e => appendEventHeader e.header ++ appendEventPayload e.payload
  | loss l => appendLoss l

end EventChunkRecord

theorem decodeEventRecordType_eq_some {value : ℕ} {type : EventRecordType} :
    decodeEventRecordType value = some type ↔ value = EventRecordType.coding.code type :=
  EventRecordType.coding.find_eq_some

theorem eventRecordType_ne_loss (payload : EventPayload) : eventRecordType payload ≠ .loss := by
  cases payload <;> exact fun h => nomatch h

theorem decodes_eventChunkRecord :
    Decodes (fun record => record.InRange ∧ validateEventChunkRecord record = .ok ())
      (fun record => EventRecordType.coding.code record.type) EventChunkRecord.write
      decodeEventChunkRecord := by
  rintro ⟨code, version, payload⟩ v
  unfold decodeEventChunkRecord
  constructor
  · intro h
    split at h
    · cases h
    · rename_i type hknown
      have hcode := decodeEventRecordType_eq_some.mp hknown
      obtain rfl : code = EventRecordType.coding.code type := hcode
      by_cases hversion : version = recordVersion
      · subst hversion
        rw [if_neg (not_not.mpr rfl)] at h
        by_cases htype : type = .loss
        · rw [if_pos htype] at h
          obtain ⟨loss, hrun, hv⟩ := bind_eq_ok.mp h
          obtain ⟨hvalid, hpayload⟩ := readsTo_loss.runReader_eq_ok.mp hrun
          cases hv
          subst htype
          exact ⟨hvalid, congrArg (RecordView.mk _ recordVersion) hpayload⟩
        · rw [if_neg htype] at h
          obtain ⟨event, hrun, hv⟩ := bind_eq_ok.mp h
          obtain ⟨⟨⟨hkind, hrange⟩, hvalid⟩, hpayload⟩ :=
            (readsTo_memoryEvent type).runReader_eq_ok.mp hrun
          cases hv
          subst hkind
          exact ⟨⟨hrange, hvalid⟩, congrArg (RecordView.mk _ recordVersion) hpayload⟩
      · rw [if_pos hversion] at h
        cases h
  · rintro ⟨⟨hrange, hvalid⟩, heq⟩
    cases heq
    dsimp only
    rw [decodeEventRecordType_eq_some.mpr rfl]
    dsimp only
    rw [if_neg (not_not.mpr rfl)]
    cases v with
    | event event =>
        refine (if_neg (eventRecordType_ne_loss event.payload)).trans ?_
        exact bind_eq_ok.mpr ⟨event, (readsTo_memoryEvent _).runReader_eq_ok.mpr
          ⟨⟨⟨rfl, hrange⟩, hvalid⟩, rfl⟩, rfl⟩
    | loss loss =>
        refine (if_pos rfl).trans ?_
        exact bind_eq_ok.mpr ⟨loss, readsTo_loss.runReader_eq_ok.mpr ⟨⟨hrange, hvalid⟩, rfl⟩, rfl⟩

theorem appendEventChunkRecord_eq_ok {chunkPayload output : Bytes} {record : EventChunkRecord}
    {maximumRecordSize : ℕ} :
    appendEventChunkRecord chunkPayload record maximumRecordSize = .ok output ↔
      validateEventChunkRecord record = .ok () ∧ True ∧ appendRecord chunkPayload
        ⟨EventRecordType.coding.code record.type, recordVersion, record.write⟩
        maximumRecordSize = .ok output := by
  cases record with
  | event event => exact validated_bind_eq_ok
  | loss loss => exact validated_bind_eq_ok

/-- The event chunk codec, of events of every kind and of losses: what was appended is
decoded again, and nothing else is decoded. -/
theorem eventChunkRecord_roundTrip :
    RoundTrip EventChunkRecord.InRange appendEventChunkRecord decodeEventChunkRecord :=
  roundTrip_of decodes_eventChunkRecord (fun _ _ _ _ => appendEventChunkRecord_eq_ok)
    (fun _ _ _ _ _ => trivial)
    fun record => Nat.lt_trans (EventRecordType.coding.byte record.type) (by decide)

end Noleax.Trace
