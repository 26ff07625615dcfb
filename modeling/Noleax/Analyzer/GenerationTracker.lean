import Mathlib.Data.Finset.Insert
import Std.Data.ExtTreeMap
import Noleax.Trace.Event
import Noleax.Trace.IntervalSet

/-!
# `GenerationTracker` (`src/analyzer/generation_tracker.cpp`)

The analyzer's state machine over trace events. `observe` returns the next
state and the callback invocations of the event, in order; a throw leaves no
state. Maps are keyed by the numeric id.
-/

namespace Noleax.Analyzer

open Lib Trace

/-- `std::map` / `std::unordered_map` with an integer key. -/
abbrev IdMap (α : Type) := Std.ExtTreeMap ℕ α compare

inductive GenerationKind where
  | heapAllocation | virtualAllocation | mappedView
deriving DecidableEq, Repr

inductive GenerationEndReason where
  | reallocated | reallocationFreed | freed | heapDestroyed | virtualFreed | unmapped
deriving DecidableEq, Repr

structure MemoryGeneration where
  kind : GenerationKind := .heapAllocation
  allocationId : ℕ := 0
  mappingId : ℕ := 0
  heapId : ℕ := 0
  heapHandle : ℕ := 0
  address : ℕ := 0
  /-- Heap: the requested size. Mapping: the live bytes. -/
  size : ℕ := 0
  createdBy : Event
deriving DecidableEq, Repr

/-- One callback invocation. -/
inductive Notification where
  | created (generation : MemoryGeneration)
  | ended (generation : MemoryGeneration) (reason : GenerationEndReason) (event : Event)
  | changed (generation : MemoryGeneration) (event : Event)
deriving DecidableEq, Repr

/-- A live mapping and its live fragments. -/
structure MappingState where
  generation : MemoryGeneration
  live : IntervalSet Unit
deriving DecidableEq

structure GenerationTracker where
  liveAllocations : IdMap MemoryGeneration := ∅
  liveMappings : IdMap MappingState := ∅
  seenAllocationIds : Finset ℕ := ∅
  seenMappingIds : Finset ℕ := ∅
  createdCount : ℕ := 0
  endedCount : ℕ := 0
  orphanedAllocationEndCount : ℕ := 0
  orphanedMappingEndCount : ℕ := 0

/-- The result of observing an event. -/
abbrev Observed := Except Error (GenerationTracker × List Notification)

/-- `checked_increment`. -/
def checkedIncrement (value : ℕ) (subject : String) : Except Error ℕ :=
  if value = maxU64 then .error (.generationState (subject ++ " count overflow"))
  else .ok (value + 1)

theorem checkedIncrement_ok {value : ℕ} {subject : String} (h : value < maxU64) :
    checkedIncrement value subject = .ok (value + 1) := if_neg (by omega)

abbrev heapIdsConflict (left right : ℕ) : Prop := left ≠ 0 ∧ right ≠ 0 ∧ left ≠ right

namespace GenerationTracker

/-! ## Creating and ending generations -/

def requireNewAllocationId (t : GenerationTracker) (id : ℕ) : Except Error Unit := do
  failIf (id = 0) (.generationState "new allocation generation requires an allocation_id")
  failIf (id ∈ t.seenAllocationIds)
    (.generationState "allocation_id is reused by more than one generation")

def requireNewMappingId (t : GenerationTracker) (id : ℕ) : Except Error Unit := do
  failIf (id = 0) (.generationState "new mapping generation requires a mapping_id")
  failIf (id ∈ t.seenMappingIds)
    (.generationState "mapping_id is reused by more than one generation")

def addAllocation (t : GenerationTracker) (generation : MemoryGeneration) : Observed := do
  t.requireNewAllocationId generation.allocationId
  failIf (generation.allocationId ∈ t.liveAllocations)
    (.generationState "allocation_id is already live")
  let createdCount ← checkedIncrement t.createdCount "created generation"
  return ({ t with
      seenAllocationIds := insert generation.allocationId t.seenAllocationIds
      liveAllocations := t.liveAllocations.insert generation.allocationId generation
      createdCount := createdCount },
    [.created generation])

def addMapping (t : GenerationTracker) (state : MappingState) : Observed := do
  t.requireNewMappingId state.generation.mappingId
  failIf (state.generation.mappingId ∈ t.liveMappings)
    (.generationState "mapping_id is already live")
  let createdCount ← checkedIncrement t.createdCount "created generation"
  return ({ t with
      seenMappingIds := insert state.generation.mappingId t.seenMappingIds
      liveMappings := t.liveMappings.insert state.generation.mappingId state
      createdCount := createdCount },
    [.created state.generation])

/-- End a live allocation: `notify_ended`, count, erase. -/
def eraseAllocation (t : GenerationTracker) (id : ℕ) (generation : MemoryGeneration)
    (reason : GenerationEndReason) (event : Event) : Observed := do
  let endedCount ← checkedIncrement t.endedCount "ended generation"
  return ({ t with liveAllocations := t.liveAllocations.erase id, endedCount := endedCount },
    [.ended generation reason event])

/-- End a live mapping: `notify_ended`, count, erase. -/
def eraseMapping (t : GenerationTracker) (id : ℕ) (generation : MemoryGeneration)
    (reason : GenerationEndReason) (event : Event) : Observed := do
  let endedCount ← checkedIncrement t.endedCount "ended generation"
  return ({ t with liveMappings := t.liveMappings.erase id, endedCount := endedCount },
    [.ended generation reason event])

def endAllocation (t : GenerationTracker) (id expectedAddress expectedHeapId : ℕ)
    (reason : GenerationEndReason) (event : Event) : Observed :=
  match t.liveAllocations[id]? with
  | none => do
      let orphans ← checkedIncrement t.orphanedAllocationEndCount "orphaned allocation end"
      return ({ t with orphanedAllocationEndCount := orphans }, [])
  | some generation => do
      failIf (generation.address ≠ expectedAddress)
        (.generationState "allocation end address does not match its allocation_id")
      failIf (heapIdsConflict generation.heapId expectedHeapId)
        (.generationState "allocation end heap_id does not match its allocation_id")
      t.eraseAllocation id generation reason event

def orphanedMappingEnd (t : GenerationTracker) : Observed := do
  let orphans ← checkedIncrement t.orphanedMappingEndCount "orphaned mapping end"
  return ({ t with orphanedMappingEndCount := orphans }, [])

def endMapping (t : GenerationTracker) (id expectedAddress : ℕ) (expectedKind : GenerationKind)
    (reason : GenerationEndReason) (event : Event) : Observed :=
  match t.liveMappings[id]? with
  | none => t.orphanedMappingEnd
  | some state => do
      failIf (state.generation.kind ≠ expectedKind)
        (.generationState "mapping end operation does not match its mapping_id kind")
      failIf (state.generation.address ≠ expectedAddress)
        (.generationState "mapping end address does not match its mapping_id")
      t.eraseMapping id state.generation reason event

/-! ## Heap events -/

def observeAllocation (t : GenerationTracker) (event : Event) (allocation : AllocationEvent) :
    Observed :=
  if allocationCreatesGeneration event.header allocation then
    t.addAllocation
      { kind := .heapAllocation
        allocationId := allocation.allocationId
        heapId := allocation.heapId
        heapHandle := allocation.heapHandle
        address := allocation.resultAddress
        size := allocation.requestedSize
        createdBy := event }
  else .ok (t, [])

/-- The old generation of a reallocation ends before the new one starts. -/
def endReallocated (t : GenerationTracker) (event : Event) (reallocation : ReallocationEvent) :
    Observed :=
  if reallocationEndsOldGeneration event.header reallocation then
    t.endAllocation reallocation.oldAllocationId reallocation.oldAddress reallocation.heapId
      (if reallocation.effect = .freed then .reallocationFreed else .reallocated) event
  else .ok (t, [])

def observeReallocation (t : GenerationTracker) (event : Event)
    (reallocation : ReallocationEvent) : Observed :=
  if reallocationCreatesNewGeneration event.header reallocation then do
    t.requireNewAllocationId reallocation.newAllocationId
    let (t, ended) ← t.endReallocated event reallocation
    let (t, created) ← t.addAllocation
      { kind := .heapAllocation
        allocationId := reallocation.newAllocationId
        heapId := reallocation.heapId
        heapHandle := reallocation.heapHandle
        address := reallocation.resultAddress
        size := reallocation.requestedSize
        createdBy := event }
    return (t, ended ++ created)
  else t.endReallocated event reallocation

def observeFree (t : GenerationTracker) (event : Event) (free : FreeEvent) : Observed :=
  if freeEndsGeneration event.header free then
    t.endAllocation free.allocationId free.address free.heapId .freed event
  else .ok (t, [])

/-- `observe_heap_destroy`: end every live allocation of the heap, in id order. -/
def observeHeapDestroy (t : GenerationTracker) (event : Event) (destroy : HeapDestroyEvent) :
    Observed :=
  if heapDestroyEndsGenerations event.header destroy then
    t.liveAllocations.toList.foldlM (fun (t, notes) (id, generation) =>
      if generation.heapId ≠ destroy.heapId then .ok (t, notes)
      else do
        let (t, ended) ← t.eraseAllocation id generation .heapDestroyed event
        return (t, notes ++ ended)) (t, [])
  else .ok (t, [])

/-! ## Virtual memory events -/

/-- The live set after a same-id update `[base, base + size)` of a resized run:
a grow inserts past the run, a shrink subtracts the run's tail. -/
def resizeLive (live : IntervalSet Unit) (fragment : Fragment Unit) (base size : ℕ) :
    IntervalSet Unit :=
  let runEnd := live.runEnd (fun _ => true) fragment.stop
  let extent := runEnd - base
  if extent < size then (live.insert runEnd (base + size) ()).1
  else if size < extent then (live.subtract (base + size) runEnd).1
  else live

/-- Store a mapping whose live bytes may have changed. -/
def updateMapping (t : GenerationTracker) (id : ℕ) (state : MappingState)
    (live : IntervalSet Unit) (event : Event) : Observed :=
  let bytes := live.totalBytes
  if bytes ≠ state.generation.size then
    let generation := { state.generation with size := bytes }
    .ok ({ t with liveMappings := t.liveMappings.insert id ⟨generation, live⟩ },
      [.changed generation event])
  else
    .ok ({ t with liveMappings := t.liveMappings.insert id ⟨state.generation, live⟩ }, [])

/-- The same-id branch of `observe_vm_allocate`. -/
def observeVmUpdate (t : GenerationTracker) (event : Event) (id : ℕ) (state : MappingState)
    (base size : ℕ) : Observed := do
  failIf (state.generation.kind ≠ .virtualAllocation ∨ base < state.generation.address)
    (.generationState "virtual memory update does not match its mapping generation")
  match state.live.find base with
  | none =>
      throw (.generationState "virtual memory update does not match its mapping generation")
  | some fragment =>
      if fragment.start = base then
        t.updateMapping id state (resizeLive state.live fragment base size) event
      else do
        failIf (fragment.stop - base < size)
          (.generationState "virtual memory update exceeds its mapping generation")
        t.updateMapping id state state.live event

def observeVmAllocate (t : GenerationTracker) (event : Event) (allocation : VmAllocateEvent) :
    Observed :=
  if callSucceeded event.header.status ∧ allocation.mappingId ≠ 0 then do
    let updateBase :=
      if allocation.mappingBase = 0 then allocation.resultBase else allocation.mappingBase
    let updateSize :=
      if allocation.mappingSize = 0 then allocation.resultSize else allocation.mappingSize
    failIf (maxU64 - updateBase < updateSize)
      (.generationState "virtual memory generation range overflows")
    match t.liveMappings[allocation.mappingId]? with
    | some state => t.observeVmUpdate event allocation.mappingId state updateBase updateSize
    | none =>
        t.addMapping
          { generation :=
              { kind := .virtualAllocation
                mappingId := allocation.mappingId
                address := updateBase
                size := updateSize
                createdBy := event }
            live := (IntervalSet.empty.insert updateBase (updateBase + updateSize) ()).1 }
  else .ok (t, [])

def memRelease : ℕ := 0x00008000

/-- The ranged release of `observe_vm_free`. -/
def observeRangedFree (t : GenerationTracker) (event : Event) (free : VmFreeEvent)
    (state : MappingState) : Observed := do
  failIf (maxU64 - free.base < free.regionSize)
    (.generationState "virtual memory free range overflows")
  let (live, removed) := state.live.subtract free.base (free.base + free.regionSize)
  failIf (removed = []) (.generationState "mapping free matches no live fragment of its mapping_id")
  if live.isEmpty then
    -- the size still holds the bytes this record removed
    t.eraseMapping free.mappingId state.generation
      (if state.generation.kind = .mappedView then .unmapped else .virtualFreed) event
  else
    let generation := { state.generation with size := live.totalBytes }
    return ({ t with liveMappings := t.liveMappings.insert free.mappingId ⟨generation, live⟩ },
      [.changed generation event])

def observeVmFree (t : GenerationTracker) (event : Event) (free : VmFreeEvent) : Observed :=
  if callSucceeded event.header.status ∧ free.mappingId ≠ 0 ∧
      free.freeType &&& memRelease ≠ 0 then
    match t.liveMappings[free.mappingId]? with
    | none => t.orphanedMappingEnd
    | some state =>
        if free.regionSize = 0 then do
          -- legacy whole-region release
          failIf (state.generation.kind ≠ .virtualAllocation ∨
              free.base ≠ state.generation.address)
            (.generationState "mapping end address does not match its mapping_id")
          t.eraseMapping free.mappingId state.generation .virtualFreed event
        else t.observeRangedFree event free state
  else .ok (t, [])

def observeMap (t : GenerationTracker) (event : Event) (mapping : MapEvent) : Observed :=
  if callSucceeded event.header.status ∧ mapping.mappingId ≠ 0 then do
    failIf (maxU64 - mapping.resultBase < mapping.viewSize)
      (.generationState "mapped view generation range overflows")
    t.addMapping
      { generation :=
          { kind := .mappedView
            mappingId := mapping.mappingId
            address := mapping.resultBase
            size := mapping.viewSize
            createdBy := event }
        live := (IntervalSet.empty.insert mapping.resultBase
          (mapping.resultBase + mapping.viewSize) ()).1 }
  else .ok (t, [])

def observeUnmap (t : GenerationTracker) (event : Event) (unmap : UnmapEvent) : Observed :=
  if callSucceeded event.header.status ∧ unmap.mappingId ≠ 0 then
    t.endMapping unmap.mappingId unmap.base .mappedView .unmapped event
  else .ok (t, [])

/-! ## `observe` -/

/-- The switch of `observe`. -/
def dispatch (t : GenerationTracker) (event : Event) : Observed :=
  match event.payload with
  | .heapCreate _ => .ok (t, [])
  | .heapDestroy payload => t.observeHeapDestroy event payload
  | .allocation payload => t.observeAllocation event payload
  | .reallocation payload => t.observeReallocation event payload
  | .free payload => t.observeFree event payload
  | .vmAllocate payload => t.observeVmAllocate event payload
  | .vmFree payload => t.observeVmFree event payload
  | .map payload => t.observeMap event payload
  | .unmap payload => t.observeUnmap event payload

def observe (t : GenerationTracker) (event : Event) : Observed := do
  validateEvent event
  t.dispatch event

/-- `observe` without the callbacks. -/
def step (t : GenerationTracker) (event : Event) : Except Error GenerationTracker := do
  let (t, _) ← t.observe event
  return t

theorem step_of_dispatch {t t' : GenerationTracker} {event : Event} (notes : List Notification)
    (hvalid : validateEvent event = .ok ()) (hdispatch : t.dispatch event = .ok (t', notes)) :
    t.step event = .ok t' := by
  unfold step observe
  rw [hvalid, ok_bind, hdispatch]
  rfl

/-- Observe a sequence of events. -/
def run (t : GenerationTracker) (events : List Event) : Except Error GenerationTracker :=
  events.foldlM step t

def liveCount (t : GenerationTracker) : ℕ := t.liveAllocations.size + t.liveMappings.size

/-- `live_generations`: allocations by id, then mappings by id. -/
def liveGenerations (t : GenerationTracker) : List MemoryGeneration :=
  t.liveAllocations.toList.map Prod.snd ++ t.liveMappings.toList.map fun (_, m) => m.generation

end GenerationTracker

end Noleax.Analyzer
