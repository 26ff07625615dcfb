import Noleax.Agent.VmPlan
import Noleax.Lib.SortedMap
import Noleax.Windows.RtlHeapEvent

/-!
# Live heaps, blocks and mappings (`agent/windows/rtl_allocate_heap_trace_writer.cpp`)

The part of the writer's members that gives the generations their ids, and the
branches of `process_event` that turn a raw event into the payload of its record.
-/

namespace Noleax.Windows

open Lib Trace
open Agent (VmContext)

/-! ## Members -/

structure AllocationKey where
  heapHandle : ℕ
  address : ℕ
deriving DecidableEq, Repr

/-- A `VirtualMapping`; its base is its key in the map. -/
structure VirtualMapping where
  mappingId : ℕ
  size : ℕ
deriving DecidableEq, Repr

/-- The unordered maps are functions: nothing iterates over them but the erasure by
handle. -/
structure LiveState where
  liveAllocations : AllocationKey → Option ℕ := fun _ => none
  customAllocationCounters : ℕ → ℕ := fun _ => 0
  liveHeaps : ℕ → Option ℕ := fun _ => none
  liveVirtualMappings : SortedMap VirtualMapping := []
  liveSectionMappings : SortedMap VirtualMapping := []
  nextAllocationId : ℕ := 1
  nextHeapId : ℕ := 1
  nextMappingId : ℕ := 1

/-- `MEM_RESERVE` -/
def memReserve : ℕ := 0x2000

/-- `MEM_RELEASE` -/
def memRelease : ℕ := 0x8000

def classifyProcessTarget (ctx : VmContext) (rawHandle processId : ℕ) : ProcessTarget where
  scope := if processId = 0 then .unknown
    else if processId = ctx.processId then .currentProcess
    else .remoteProcess
  processHandle := rawHandle
  processId := processId

namespace LiveState

variable (live : LiveState)

/-! ## Mappings -/

/-- `find_virtual_mapping`: by its base, or by a range inside it. -/
def findVirtualMapping (address size : ℕ) (exactBase : Bool) : Option (ℕ × VirtualMapping) :=
  if address = 0 then none
  else if exactBase then
    (live.liveVirtualMappings.lookup address).map fun mapping => (address, mapping)
  else
    match live.liveVirtualMappings.floor address with
    | none => none
    | some (base, mapping) =>
        let offset := address - base
        if mapping.size < offset ∨ mapping.size - offset < size then none
        else some (base, mapping)

def createVirtualMapping (base size : ℕ) : Except Error (LiveState × ℕ) := do
  failIf (live.nextMappingId = maxU64) (.overflow "mapping ID space is exhausted")
  failIf (base = 0 ∨ size = 0 ∨ live.liveVirtualMappings.Contains base)
    (.runtime ("virtual mapping creation is inconsistent: base=" ++ toString base ++
      " size=" ++ toString size ++
      " duplicate=" ++ if live.liveVirtualMappings.Contains base then "1" else "0"))
  return ({ live with
      nextMappingId := live.nextMappingId + 1
      liveVirtualMappings := live.liveVirtualMappings.insert base ⟨live.nextMappingId, size⟩ },
    live.nextMappingId)

/-- `find_section_mapping` -/
def findSectionMapping (address : ℕ) : Option (ℕ × VirtualMapping) :=
  if address = 0 then none
  else
    match live.liveSectionMappings.floor address with
    | none => none
    | some (base, mapping) => if mapping.size ≤ address - base then none else some (base, mapping)

def createSectionMapping (base size : ℕ) : Except Error (LiveState × ℕ) := do
  failIf (live.nextMappingId = maxU64) (.overflow "mapping ID space is exhausted")
  failIf (base = 0 ∨ size = 0 ∨ live.liveSectionMappings.Contains base)
    (.runtime "section mapping creation is inconsistent")
  return ({ live with
      nextMappingId := live.nextMappingId + 1
      liveSectionMappings := live.liveSectionMappings.insert base ⟨live.nextMappingId, size⟩ },
    live.nextMappingId)

/-! ## Allocation ids -/

def makeAllocationId (apiId : ℕ) : Except Error (LiveState × ℕ) :=
  if apiId = 0 then do
    failIf (live.nextAllocationId = maxU64) (.overflow "allocation ID space is exhausted")
    return ({ live with nextAllocationId := live.nextAllocationId + 1 }, live.nextAllocationId)
  else do
    let counter := live.customAllocationCounters apiId
    failIf (2 ^ 40 ≤ counter) (.overflow "custom hook allocation ID space is exhausted")
    return ({ live with
        customAllocationCounters :=
          Function.update live.customAllocationCounters apiId (counter + 1) },
      (apiId <<< 40) ||| (counter + 1))

/-- `live_allocations_.insert_or_assign` -/
def assignAllocation (key : AllocationKey) (id : ℕ) : LiveState :=
  { live with liveAllocations := Function.update live.liveAllocations key (some id) }

/-- `live_allocations_.erase` -/
def eraseAllocation (key : AllocationKey) : LiveState :=
  { live with liveAllocations := Function.update live.liveAllocations key none }

/-- The heap id of a handle, zero when the heap is not known. -/
def heapIdOf (handle : ℕ) : ℕ := (live.liveHeaps handle).getD 0

end LiveState

/-! ## The branches of `process_event` -/

/-- A branch returns the members, the status of the record and its payload. -/
abbrev Planned := Except Error (LiveState × EventStatus × EventPayload)

/-- The status before a branch changes it. -/
def callStatus (raw : RtlHeapEvent) : EventStatus := if raw.Succeeded then .success else .failure

theorem callStatus_succeeded {raw : RtlHeapEvent} (h : raw.Succeeded) :
    callStatus raw = .success := if_pos h

theorem callStatus_failed {raw : RtlHeapEvent} (h : ¬ raw.Succeeded) :
    callStatus raw = .failure := if_neg h

/-- The status of the end of a block the writer does not know. -/
def unmatchedStatus (ctx : VmContext) (known : Prop) [Decidable known] : EventStatus :=
  if known ∧ ctx.preexistingAllocationsUnknown = true then .preexisting else .unmatched

section Branches

variable (ctx : VmContext) (live : LiveState) (raw : RtlHeapEvent)

def planCreate : Planned :=
  let create : HeapCreateEvent :=
    { heapHandle := raw.resultAddress
      heapFlags := raw.flags
      reserveSize := raw.requestedSize
      commitSize := raw.rawResult }
  if raw.Succeeded then do
    failIf (live.nextHeapId = maxU64) (.overflow "heap ID space is exhausted")
    failIf ((live.liveHeaps raw.resultAddress).isSome = true)
      (.runtime "RtlCreateHeap reused a live heap handle")
    return ({ live with
        nextHeapId := live.nextHeapId + 1
        liveHeaps := Function.update live.liveHeaps raw.resultAddress (some live.nextHeapId) },
      callStatus raw, .heapCreate { create with heapId := live.nextHeapId })
  else return (live, callStatus raw, .heapCreate create)

def planAllocate : Planned :=
  let allocation : AllocationEvent :=
    { heapHandle := raw.heapHandle
      heapId := live.heapIdOf raw.heapHandle
      requestedSize := raw.requestedSize
      resultAddress := raw.resultAddress
      apiFlags := raw.flags }
  if raw.Succeeded then do
    let (live, id) ← live.makeAllocationId raw.apiId
    return (live.assignAllocation ⟨raw.heapHandle, raw.resultAddress⟩ id, callStatus raw,
      .allocation { allocation with allocationId := id })
  else return (live, callStatus raw, .allocation allocation)

def planReallocate : Planned :=
  let old := live.liveAllocations ⟨raw.heapHandle, raw.address⟩
  let reallocation : ReallocationEvent :=
    { heapHandle := raw.heapHandle
      heapId := live.heapIdOf raw.heapHandle
      oldAddress := raw.address
      oldAllocationId := old.getD 0
      requestedSize := raw.requestedSize
      resultAddress := raw.resultAddress
      apiFlags := raw.flags }
  if raw.Succeeded then do
    let status := if old.isSome then callStatus raw else unmatchedStatus ctx (raw.address ≠ 0)
    let (live, id) ← (live.eraseAllocation ⟨raw.heapHandle, raw.address⟩).makeAllocationId raw.apiId
    return (live.assignAllocation ⟨raw.heapHandle, raw.resultAddress⟩ id, status,
      .reallocation { reallocation with newAllocationId := id, effect := .newGeneration })
  else return (live, callStatus raw, .reallocation reallocation)

def planFree : Planned :=
  let free : FreeEvent :=
    { heapHandle := raw.heapHandle
      heapId := live.heapIdOf raw.heapHandle
      address := raw.address
      rawResult := raw.rawResult
      apiFlags := raw.flags }
  if raw.Succeeded then
    match live.liveAllocations ⟨raw.heapHandle, raw.address⟩ with
    | some id =>
        .ok (live.eraseAllocation ⟨raw.heapHandle, raw.address⟩, callStatus raw,
          .free { free with allocationId := id })
    | none => .ok (live, unmatchedStatus ctx (raw.address ≠ 0), .free free)
  else .ok (live, callStatus raw, .free free)

/-- What a successful destroy of a known heap leaves. -/
def LiveState.destroyHeap (handle : ℕ) : LiveState :=
  { live with
    liveHeaps := Function.update live.liveHeaps handle none
    liveAllocations := fun key =>
      if key.heapHandle = handle then none else live.liveAllocations key }

def planDestroy : Planned :=
  let destroy : HeapDestroyEvent := { heapHandle := raw.heapHandle, rawResult := raw.rawResult }
  match live.liveHeaps raw.heapHandle with
  | some id =>
      .ok (if raw.Succeeded then live.destroyHeap raw.heapHandle else live, callStatus raw,
        .heapDestroy { destroy with heapId := id })
  | none =>
      .ok (live, if raw.Succeeded then unmatchedStatus ctx True else callStatus raw,
        .heapDestroy destroy)

/-- The reservation an allocation belongs to: the one at its base, grown to its size,
or a new one. -/
def LiveState.reserveMapping (allocation : VmAllocateEvent) :
    Except Error (LiveState × VmAllocateEvent) :=
  let mappingBase := if raw.mappingBase = 0 then raw.resultAddress else raw.mappingBase
  let mappingSize := if raw.mappingSize = 0 then raw.rawResult else raw.mappingSize
  match live.liveVirtualMappings.lookup mappingBase with
  | some mapping =>
      let size := max mapping.size mappingSize
      .ok ({ live with
          liveVirtualMappings := live.liveVirtualMappings.adjust mappingBase
            fun mapping => { mapping with size := size } },
        { allocation with
          mappingId := mapping.mappingId
          mappingBase := mappingBase
          mappingSize := size })
  | none => do
      let (live, id) ← live.createVirtualMapping mappingBase mappingSize
      return (live, { allocation with mappingId := id })

def planVmAllocate : Planned :=
  let allocation : VmAllocateEvent :=
    { target := classifyProcessTarget ctx raw.heapHandle raw.targetProcessId
      requestedBase := raw.address
      resultBase := raw.resultAddress
      requestedSize := raw.requestedSize
      resultSize := raw.rawResult
      mappingBase := raw.mappingBase
      mappingSize := raw.mappingSize
      allocationType := raw.flags
      protection := raw.secondaryFlags }
  if raw.Succeeded ∧ allocation.target.scope = .currentProcess then
    if raw.flags &&& memReserve ≠ 0 then do
      let (live, allocation) ← live.reserveMapping raw allocation
      return (live, callStatus raw, .vmAllocate allocation)
    else
      match live.findVirtualMapping raw.resultAddress raw.rawResult false with
      | some (base, mapping) =>
          .ok (live, callStatus raw, .vmAllocate { allocation with
            mappingId := mapping.mappingId
            mappingBase := base
            mappingSize := mapping.size })
      | none => do
          let (live, allocation) ← live.reserveMapping raw allocation
          return (live,
            if raw.address ≠ 0 ∧ ctx.preexistingAllocationsUnknown = true then .preexisting
            else callStatus raw,
            .vmAllocate allocation)
  else .ok (live, callStatus raw, .vmAllocate allocation)

/-- Whether a `VmFree` releases its mapping. -/
abbrev RtlHeapEvent.ReleasesMapping (raw : RtlHeapEvent) : Prop := raw.flags &&& memRelease ≠ 0

def planVmFree : Planned :=
  let free : VmFreeEvent :=
    { target := classifyProcessTarget ctx raw.heapHandle raw.targetProcessId
      base := raw.address
      regionSize := raw.rawResult
      freeType := raw.flags }
  if raw.Succeeded ∧ free.target.scope = .currentProcess then
    match live.findVirtualMapping raw.address raw.rawResult raw.ReleasesMapping with
    | some (base, mapping) =>
        .ok (if raw.ReleasesMapping then
            { live with liveVirtualMappings := live.liveVirtualMappings.erase base }
          else live,
          callStatus raw, .vmFree { free with mappingId := mapping.mappingId })
    | none => .ok (live, unmatchedStatus ctx True, .vmFree free)
  else .ok (live, callStatus raw, .vmFree free)

def planSectionMap : Planned :=
  let mapping : MapEvent :=
    { sectionHandle := raw.sectionHandle
      target := classifyProcessTarget ctx raw.heapHandle raw.targetProcessId
      resultBase := raw.resultAddress
      viewSize := raw.rawResult
      sectionOffset := raw.sectionOffset
      protection := raw.secondaryFlags }
  if raw.Succeeded ∧ mapping.target.scope = .currentProcess then do
    let (live, id) ← live.createSectionMapping raw.resultAddress raw.rawResult
    return (live, callStatus raw, .map { mapping with mappingId := id })
  else return (live, callStatus raw, .map mapping)

def planSectionUnmap : Planned :=
  let unmap : UnmapEvent :=
    { target := classifyProcessTarget ctx raw.heapHandle raw.targetProcessId
      base := raw.address }
  if raw.Succeeded ∧ unmap.target.scope = .currentProcess then
    match live.findSectionMapping raw.address with
    | some (base, mapping) =>
        .ok ({ live with liveSectionMappings := live.liveSectionMappings.erase base },
          callStatus raw, .unmap { unmap with mappingId := mapping.mappingId, base := base })
    | none => .ok (live, unmatchedStatus ctx True, .unmap unmap)
  else .ok (live, callStatus raw, .unmap unmap)

/-- The chain of branches over the operation. -/
def planEvent : Planned :=
  match raw.operation with
  | .create => planCreate live raw
  | .allocate => planAllocate live raw
  | .reallocate => planReallocate ctx live raw
  | .free => planFree ctx live raw
  | .destroy => planDestroy ctx live raw
  | .vmAllocate => planVmAllocate ctx live raw
  | .vmFree => planVmFree ctx live raw
  | .sectionMap => planSectionMap ctx live raw
  | .sectionUnmap => planSectionUnmap ctx live raw

end Branches

end Noleax.Windows
