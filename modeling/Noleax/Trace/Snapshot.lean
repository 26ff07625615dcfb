import Noleax.Lib.Bytes
import Noleax.Trace.Event

/-!
# Custom hooks and memory snapshots (`trace/custom_hook.hpp`, `trace/memory_snapshot.hpp`)

The records of the metadata chunk besides the scope, and those of the memory chunks,
with their validators.
-/

namespace Noleax.Trace

open Lib

/-! ## Custom hooks -/

structure CustomHookDefinition where
  apiId : ℕ
  moduleName : Bytes
  label : Bytes
deriving DecidableEq, Repr

/-- `point` stands for a failure of every role of its hook point. -/
inductive CustomHookFailureRole where
  | alloc | realloc | free | point
deriving DecidableEq, Repr

inductive CustomHookFailureReason where
  | moduleNotLoaded | exportNotFound | forwardedExport | invalidRva | wrongSignature
  | imageIdentityMismatch | backendUnavailable | other
deriving DecidableEq, Repr

structure CustomHookFailure where
  module : Bytes
  role : CustomHookFailureRole := .point
  reason : CustomHookFailureReason := .other
  detail : Bytes
deriving DecidableEq, Repr

def validateCustomHookString (value : Bytes) (field : String) : Except Error Unit := do
  failIf (value = []) (.customHookValidation (field ++ " must not be empty"))
  failIf (0 ∈ value) (.customHookValidation (field ++ " must not contain NUL"))

def validateCustomHookDefinition (definition : CustomHookDefinition) : Except Error Unit := do
  failIf (definition.apiId < customHookApiIdBase)
    (.customHookValidation "custom hook api_id is outside the custom hook ID range")
  validateCustomHookString definition.moduleName "custom hook module name"
  validateCustomHookString definition.label "custom hook label"

def validateCustomHookFailure (failure : CustomHookFailure) : Except Error Unit := do
  validateCustomHookString failure.module "custom hook failure module"
  validateCustomHookString failure.detail "custom hook failure detail"

/-! ## Memory -/

def maximumMemoryMapRegions : ℕ := 32768

structure MemoryCounters where
  monotonicTicks : ℕ := 0
  workingSetBytes : ℕ := 0
  peakWorkingSetBytes : ℕ := 0
  privateBytes : ℕ := 0
  commitBytes : ℕ := 0
deriving DecidableEq, Repr

inductive MemoryRegionState where
  | commit | reserve
deriving DecidableEq, Repr

inductive MemoryRegionType where
  | image | mapped | privateMemory
deriving DecidableEq, Repr

structure MemoryMapRegion where
  base : ℕ := 0
  size : ℕ := 0
  state : MemoryRegionState := .commit
  type : MemoryRegionType := .privateMemory
  protect : ℕ := 0
deriving DecidableEq, Repr

structure MemoryMap where
  monotonicTicks : ℕ := 0
  truncated : Bool := false
  committedBytes : ℕ := 0
  reservedBytes : ℕ := 0
  freeBytes : ℕ := 0
  largestFreeBytes : ℕ := 0
  regions : List MemoryMapRegion := []
deriving DecidableEq, Repr

def validateMemoryCounters (counters : MemoryCounters) : Except Error Unit :=
  failIf (counters.peakWorkingSetBytes < counters.workingSetBytes)
    (.memorySnapshotValidation
      "memory counters peak working set is below the current working set")

/-- `previousEnd` is the end of the region before. -/
def validateMemoryMapRegion (previousEnd : ℕ) (region : MemoryMapRegion) : Except Error ℕ := do
  failIf (region.size = 0 ∨ maxU64 - region.size < region.base)
    (.memorySnapshotValidation "memory map region address range is invalid")
  failIf (region.base < previousEnd)
    (.memorySnapshotValidation "memory map regions overlap or are out of order")
  return region.base + region.size

def validateMemoryMap (map : MemoryMap) : Except Error Unit := do
  failIf (maximumMemoryMapRegions < map.regions.length)
    (.memorySnapshotValidation "memory map exceeds the region count limit")
  let _ ← map.regions.foldlM validateMemoryMapRegion 0

def maximumAgentMemoryCategories : ℕ := 64

inductive AgentMemorySampleKind where
  | periodic | baselinePreInit | baselinePostInit
deriving DecidableEq, Repr

/-- A category that this version does not know keeps its number. -/
structure AgentMemoryCategorySample where
  category : ℕ := 1
  flags : ℕ := 0
  reservedBytes : ℕ := 0
  residentBytes : ℕ := 0
deriving DecidableEq, Repr

structure AgentMemory where
  monotonicTicks : ℕ := 0
  kind : AgentMemorySampleKind := .periodic
  categories : List AgentMemoryCategorySample := []
deriving DecidableEq, Repr

/-- The categories seen so far, with their totals. -/
structure CategoryScan where
  seen : List ℕ := []
  reservedTotal : ℕ := 0
  residentTotal : ℕ := 0

def CategoryScan.step (scan : CategoryScan) (sample : AgentMemoryCategorySample) :
    Except Error CategoryScan := do
  failIf (sample.category ∈ scan.seen)
    (.memorySnapshotValidation "agent memory sample contains a duplicate category")
  failIf (sample.reservedBytes < sample.residentBytes)
    (.memorySnapshotValidation
      "agent memory category resident bytes exceed the reserved bytes")
  failIf (maxU64 - scan.reservedTotal < sample.reservedBytes ∨
      maxU64 - scan.residentTotal < sample.residentBytes)
    (.memorySnapshotValidation "agent memory category byte totals overflow")
  return {
    seen := sample.category :: scan.seen
    reservedTotal := scan.reservedTotal + sample.reservedBytes
    residentTotal := scan.residentTotal + sample.residentBytes }

def validateAgentMemory (memory : AgentMemory) : Except Error Unit := do
  failIf (maximumAgentMemoryCategories < memory.categories.length)
    (.memorySnapshotValidation "agent memory category count is out of range")
  let _ ← memory.categories.foldlM CategoryScan.step {}

/-! ## The event buffer -/

structure BufferConfiguration where
  requestedBytes : ℕ := 0
  effectiveSlots : ℕ := 0
  eventSize : ℕ := 0
  slotSize : ℕ := 0
  reservedBytes : ℕ := 0
  residentAfterInitBytes : ℕ := 0
  flags : ℕ := 0
deriving DecidableEq, Repr

def validateBufferConfiguration (configuration : BufferConfiguration) : Except Error Unit := do
  failIf (configuration.requestedBytes = 0 ∨ configuration.effectiveSlots = 0 ∨
      configuration.eventSize = 0 ∨ configuration.slotSize = 0 ∨
      configuration.slotSize < configuration.eventSize)
    (.memorySnapshotValidation "buffer configuration slot math is invalid")
  failIf (maxU64 / configuration.slotSize < configuration.effectiveSlots)
    (.memorySnapshotValidation "buffer configuration reserved bytes overflow")
  failIf (configuration.reservedBytes ≠ configuration.effectiveSlots * configuration.slotSize ∨
      configuration.reservedBytes < configuration.residentAfterInitBytes)
    (.memorySnapshotValidation "buffer configuration byte counts are inconsistent")

end Noleax.Trace
