import Noleax.Trace.Snapshot
import Noleax.Trace.Wire

/-!
# Memory records (`src/trace/record_codec.cpp`)
-/

namespace Noleax.Trace

open Lib

/-- `MemoryRecordType` -/
def memoryCountersType : ℕ := 1
def memoryMapType : ℕ := 2
def agentMemoryType : ℕ := 3

/-! ## Counters -/

def appendMemoryCounters (counters : MemoryCounters) : Bytes :=
  appendU64 counters.monotonicTicks ++ appendU64 counters.workingSetBytes ++
    appendU64 counters.peakWorkingSetBytes ++ appendU64 counters.privateBytes ++
    appendU64 counters.commitBytes ++ appendZeros 8

def readMemoryCounters (size : ℕ) : PayloadReader MemoryCounters := do
  check (failIf (size ≠ 48) (.recordCodec "memory counters payload has an invalid size"))
  let monotonicTicks ← readU64
  let workingSetBytes ← readU64
  let peakWorkingSetBytes ← readU64
  let privateBytes ← readU64
  let commitBytes ← readU64
  expectZeros 8
  expectDone
  let counters : MemoryCounters :=
    ⟨monotonicTicks, workingSetBytes, peakWorkingSetBytes, privateBytes, commitBytes⟩
  check (asInvalid "MemoryCounters" (validateMemoryCounters counters))
  return counters

def appendMemoryCountersRecord (chunkPayload : Bytes) (counters : MemoryCounters)
    (maximumRecordSize : ℕ) : Except Error Bytes := do
  validateMemoryCounters counters
  appendRecord chunkPayload ⟨memoryCountersType, recordVersion, appendMemoryCounters counters⟩
    maximumRecordSize

def decodeMemoryCountersRecord : RecordView → Except Error (Option MemoryCounters) :=
  decodeRecord memoryCountersType readMemoryCounters

def MemoryCounters.InRange (counters : MemoryCounters) : Prop :=
  IsWord 8 counters.monotonicTicks ∧ IsWord 8 counters.workingSetBytes ∧
    IsWord 8 counters.peakWorkingSetBytes ∧ IsWord 8 counters.privateBytes ∧
    IsWord 8 counters.commitBytes

theorem readsTo_memoryCounters (size : ℕ) :
    ReadsTo (fun rest => rest = [])
      (fun counters => (counters.InRange ∧ validateMemoryCounters counters = .ok ()) ∧ size = 48)
      appendMemoryCounters (readMemoryCounters size) := by
  refine ReadsTo.layout (.test ?size fun hsize =>
    .field reads_u64 MemoryCounters.monotonicTicks fun _ _ =>
    .field reads_u64 MemoryCounters.workingSetBytes fun _ _ =>
    .field reads_u64 MemoryCounters.peakWorkingSetBytes fun _ _ =>
    .field reads_u64 MemoryCounters.privateBytes fun _ _ =>
    .field reads_u64 MemoryCounters.commitBytes fun _ _ =>
    .skip (reads_zeros 8) <|
    .ending (.valid (fun counters => asInvalid "MemoryCounters" (validateMemoryCounters counters))
      (Q := fun _ => size = 48) ?done)) ?_ ?_
  case size =>
    rintro counters - ⟨-, -, -, -, -, hsize, -⟩
    exact not_not.mpr hsize
  case done =>
    obtain rfl := not_not.mp hsize
    rintro ⟨⟩
    simp [and_assoc]
  · intro counters
    rw [asInvalid_eq_ok]
    unfold MemoryCounters.InRange
    tauto
  · simp [appendMemoryCounters]

theorem memoryCounters_roundTrip :
    RoundTrip MemoryCounters.InRange appendMemoryCountersRecord decodeMemoryCountersRecord := by
  refine roundTrip_of (decodes_record fun _ _ =>
    ReadsTo.runReader_sized readsTo_memoryCounters ?_)
    (fun _ _ _ _ => validated_bind_eq_ok) (fun _ _ _ _ _ => trivial) fun _ => by decide
  intro counters _
  simp [appendMemoryCounters, appendU64, appendZeros]

/-! ## The memory map -/

def MemoryRegionState.coding : Coding MemoryRegionState where
  values := [.commit, .reserve]
  code
    | .commit => 1
    | .reserve => 2
  complete := by rintro ⟨⟩ <;> decide
  injective := by rintro ⟨⟩ ⟨⟩ <;> decide
  byte := by rintro ⟨⟩ <;> decide

def MemoryRegionType.coding : Coding MemoryRegionType where
  values := [.image, .mapped, .privateMemory]
  code
    | .image => 1
    | .mapped => 2
    | .privateMemory => 3
  complete := by rintro ⟨⟩ <;> decide
  injective := by rintro ⟨⟩ ⟨⟩ <;> decide
  byte := by rintro ⟨⟩ <;> decide

def appendMemoryMapRegion (region : MemoryMapRegion) : Bytes :=
  appendU64 region.base ++ appendU64 region.size ++ MemoryRegionState.coding.append region.state ++
    MemoryRegionType.coding.append region.type ++ appendU32 region.protect ++ appendZeros 2

def readMemoryMapRegion : PayloadReader MemoryMapRegion := do
  let base ← readU64
  let size ← readU64
  let state ← MemoryRegionState.coding.read "memory region state is not supported"
  let type ← MemoryRegionType.coding.read "memory region type is not supported"
  let protect ← readU32
  expectZeros 2
  return ⟨base, size, state, type, protect⟩

def appendMemoryMap (map : MemoryMap) : Bytes :=
  appendU64 map.monotonicTicks ++ appendBool map.truncated ++ appendZeros 3 ++
    appendU32 map.regions.length ++ appendU64 map.committedBytes ++ appendU64 map.reservedBytes ++
    appendU64 map.freeBytes ++ appendU64 map.largestFreeBytes ++
    map.regions.flatMap appendMemoryMapRegion

def readMemoryMap (size : ℕ) : PayloadReader MemoryMap := do
  check (failIf (size < 48) (.recordCodec "memory map payload is truncated"))
  let monotonicTicks ← readU64
  let truncated ← decodeBool "memory map truncated flag is not zero or one"
  expectZeros 3
  let regionCount ← readU32
  let committedBytes ← readU64
  let reservedBytes ← readU64
  let freeBytes ← readU64
  let largestFreeBytes ← readU64
  check (failIf (maximumMemoryMapRegions < regionCount ∨ 48 + regionCount * 24 ≠ size)
    (.recordCodec "memory map region count does not match the record payload"))
  let regions ← readMany readMemoryMapRegion regionCount
  expectDone
  let map : MemoryMap := ⟨monotonicTicks, truncated, committedBytes, reservedBytes, freeBytes,
    largestFreeBytes, regions⟩
  check (asInvalid "MemoryMap" (validateMemoryMap map))
  return map

def appendMemoryMapRecord (chunkPayload : Bytes) (map : MemoryMap) (maximumRecordSize : ℕ) :
    Except Error Bytes := do
  validateMemoryMap map
  failIf (maximumRecordSize < 8 + 48 ∨ (maximumRecordSize - 8 - 48) / 24 < map.regions.length)
    (.recordCodec "memory map exceeds the configured record size limit")
  appendRecord chunkPayload ⟨memoryMapType, recordVersion, appendMemoryMap map⟩ maximumRecordSize

def decodeMemoryMapRecord : RecordView → Except Error (Option MemoryMap) :=
  decodeRecord memoryMapType readMemoryMap

def MemoryMapRegion.InRange (region : MemoryMapRegion) : Prop :=
  IsWord 8 region.base ∧ IsWord 8 region.size ∧ IsWord 4 region.protect

def MemoryMap.InRange (map : MemoryMap) : Prop :=
  IsWord 8 map.monotonicTicks ∧ IsWord 8 map.committedBytes ∧ IsWord 8 map.reservedBytes ∧
    IsWord 8 map.freeBytes ∧ IsWord 8 map.largestFreeBytes ∧
    ∀ region ∈ map.regions, region.InRange

theorem reads_memoryMapRegion :
    Reads MemoryMapRegion.InRange appendMemoryMapRegion readMemoryMapRegion := by
  apply ReadsTo.reads
  refine ReadsTo.layout (.field reads_u64 MemoryMapRegion.base fun _ _ =>
    .field reads_u64 MemoryMapRegion.size fun _ _ =>
    .field (MemoryRegionState.coding.reads _) MemoryMapRegion.state fun _ _ =>
    .field (MemoryRegionType.coding.reads _) MemoryMapRegion.type fun _ _ =>
    .field reads_u32 MemoryMapRegion.protect fun _ _ =>
    .skip (reads_zeros 2) <| .done (Q := fun _ => True) ?_) ?_ ?_
  · rintro ⟨⟩
    simp [and_assoc]
  · simp [MemoryMapRegion.InRange]
  · simp [appendMemoryMapRegion]

/-- The validator bounds the count before it is written. -/
theorem regions_length_of_valid {map : MemoryMap} (h : validateMemoryMap map = .ok ()) :
    map.regions.length ≤ maximumMemoryMapRegions := by
  unfold validateMemoryMap at h
  exact Nat.not_lt.mp (failIf_bind_eq_ok.mp h).1

theorem appendMemoryMap_length (map : MemoryMap) :
    (appendMemoryMap map).length = 48 + map.regions.length * 24 := by
  have hregions := flatMap_length appendMemoryMapRegion 24
    (fun _ => by simp [appendMemoryMapRegion, Coding.append, appendU64, appendU32, appendU8,
      appendZeros]) map.regions
  simp only [appendMemoryMap, List.length_append, hregions]
  simp [appendU64, appendU32, appendBool, appendU8, appendZeros]

theorem readsTo_memoryMap (size : ℕ) :
    ReadsTo (fun rest => rest = [])
      (fun map => (map.InRange ∧ validateMemoryMap map = .ok ()) ∧
        size = 48 + map.regions.length * 24)
      appendMemoryMap (readMemoryMap size) := by
  refine ReadsTo.layout (.test ?truncated fun htruncated =>
    .field reads_u64 MemoryMap.monotonicTicks fun _ _ =>
    .field (reads_bool _) MemoryMap.truncated fun _ _ =>
    .skip (reads_zeros 3) <|
    .field reads_u32 (fun map : MemoryMap => map.regions.length) fun regionCount _ =>
    .field reads_u64 MemoryMap.committedBytes fun _ _ =>
    .field reads_u64 MemoryMap.reservedBytes fun _ _ =>
    .field reads_u64 MemoryMap.freeBytes fun _ _ =>
    .field reads_u64 MemoryMap.largestFreeBytes fun _ _ => .test ?count fun hcount =>
    .known (reads_readMany reads_memoryMapRegion _) MemoryMap.regions
      (fun regions => ∀ region ∈ regions, region.InRange) ?regions fun regions hregions =>
    .ending <|
    .valid (fun map => asInvalid "MemoryMap" (validateMemoryMap map))
      (Q := fun map => size = 48 + map.regions.length * 24) ?done) ?_ ?_
  case truncated =>
    intro map _ h
    have hsize : size = 48 + map.regions.length * 24 := by tauto
    omega
  case count =>
    intro map hfields h
    simp only [asInvalid_eq_ok] at h
    obtain ⟨-, hsize, hvalid⟩ := h
    have hlimit := regions_length_of_valid hvalid
    simp only [and_assoc] at hfields
    obtain ⟨-, -, -, rfl, -⟩ := hfields
    omega
  case regions =>
    intro map hfields
    simp only [and_assoc] at hfields
    obtain ⟨-, -, -, hcount, -⟩ := hfields
    exact and_iff_right hcount
  case done =>
    rintro ⟨⟩
    obtain ⟨rfl, -⟩ := hregions
    simp only [MemoryMap.mk.injEq]
    constructor
    · tauto
    · rintro ⟨rfl, rfl, rfl, rfl, rfl, rfl, rfl⟩
      simp
      omega
  · intro map
    rw [asInvalid_eq_ok]
    unfold MemoryMap.InRange
    constructor
    · rintro ⟨⟨hrange, hvalid⟩, hsize⟩
      have hlimit := regions_length_of_valid hvalid
      have hcount : IsWord 4 map.regions.length := Nat.lt_of_le_of_lt hlimit (by decide)
      tauto
    · tauto
  · simp [appendMemoryMap]

theorem memoryMap_roundTrip :
    RoundTrip MemoryMap.InRange appendMemoryMapRecord decodeMemoryMapRecord := by
  refine roundTrip_of (decodes_record fun _ _ =>
    ReadsTo.runReader_sized readsTo_memoryMap ?_)
    (fun _ _ _ _ => limited_bind_eq_ok) ?_ fun _ => by decide
  · intro map _
    exact appendMemoryMap_length map
  · intro map maximumRecordSize _ hsize hlimit
    rw [appendMemoryMap_length] at hsize hlimit
    omega

/-! ## The memory of the agent -/

def AgentMemorySampleKind.coding : Coding AgentMemorySampleKind where
  values := [.periodic, .baselinePreInit, .baselinePostInit]
  code
    | .periodic => 1
    | .baselinePreInit => 2
    | .baselinePostInit => 3
  complete := by rintro ⟨⟩ <;> decide
  injective := by rintro ⟨⟩ ⟨⟩ <;> decide
  byte := by rintro ⟨⟩ <;> decide

def appendCategorySample (sample : AgentMemoryCategorySample) : Bytes :=
  appendU32 sample.category ++ appendU32 sample.flags ++ appendU64 sample.reservedBytes ++
    appendU64 sample.residentBytes

/-- A category of a newer agent is kept, not rejected. -/
def readCategorySample : PayloadReader AgentMemoryCategorySample := do
  let category ← readU32
  let flags ← readU32
  let reservedBytes ← readU64
  let residentBytes ← readU64
  return ⟨category, flags, reservedBytes, residentBytes⟩

def appendAgentMemory (memory : AgentMemory) : Bytes :=
  appendU64 memory.monotonicTicks ++ AgentMemorySampleKind.coding.append memory.kind ++
    appendZeros 3 ++ appendU32 memory.categories.length ++
    memory.categories.flatMap appendCategorySample

def readAgentMemory (size : ℕ) : PayloadReader AgentMemory := do
  check (failIf (size < 16) (.recordCodec "agent memory payload is truncated"))
  let monotonicTicks ← readU64
  let kind ← AgentMemorySampleKind.coding.read "agent memory sample kind is not supported"
  expectZeros 3
  let categoryCount ← readU32
  check (failIf (maximumAgentMemoryCategories < categoryCount ∨ 16 + categoryCount * 24 ≠ size)
    (.recordCodec "agent memory category count does not match the record payload"))
  let categories ← readMany readCategorySample categoryCount
  expectDone
  let memory : AgentMemory := ⟨monotonicTicks, kind, categories⟩
  check (asInvalid "AgentMemory" (validateAgentMemory memory))
  return memory

def appendAgentMemoryRecord (chunkPayload : Bytes) (memory : AgentMemory)
    (maximumRecordSize : ℕ) : Except Error Bytes := do
  validateAgentMemory memory
  failIf (maximumRecordSize < 8 + 16 ∨ (maximumRecordSize - 8 - 16) / 24 < memory.categories.length)
    (.recordCodec "agent memory exceeds the configured record size limit")
  appendRecord chunkPayload ⟨agentMemoryType, recordVersion, appendAgentMemory memory⟩
    maximumRecordSize

def decodeAgentMemoryRecord : RecordView → Except Error (Option AgentMemory) :=
  decodeRecord agentMemoryType readAgentMemory

def AgentMemoryCategorySample.InRange (sample : AgentMemoryCategorySample) : Prop :=
  IsWord 4 sample.category ∧ IsWord 4 sample.flags ∧ IsWord 8 sample.reservedBytes ∧
    IsWord 8 sample.residentBytes

def AgentMemory.InRange (memory : AgentMemory) : Prop :=
  IsWord 8 memory.monotonicTicks ∧ ∀ sample ∈ memory.categories, sample.InRange

theorem reads_categorySample :
    Reads AgentMemoryCategorySample.InRange appendCategorySample readCategorySample := by
  apply ReadsTo.reads
  refine ReadsTo.layout (.field reads_u32 AgentMemoryCategorySample.category fun _ _ =>
    .field reads_u32 AgentMemoryCategorySample.flags fun _ _ =>
    .field reads_u64 AgentMemoryCategorySample.reservedBytes fun _ _ =>
    .field reads_u64 AgentMemoryCategorySample.residentBytes fun _ _ =>
    .done (Q := fun _ => True) ?_) ?_ ?_
  · rintro ⟨⟩
    simp [and_assoc]
  · simp [AgentMemoryCategorySample.InRange]
  · simp [appendCategorySample]

theorem categories_length_of_valid {memory : AgentMemory} (h : validateAgentMemory memory = .ok ()) :
    memory.categories.length ≤ maximumAgentMemoryCategories := by
  unfold validateAgentMemory at h
  exact Nat.not_lt.mp (failIf_bind_eq_ok.mp h).1

theorem appendAgentMemory_length (memory : AgentMemory) :
    (appendAgentMemory memory).length = 16 + memory.categories.length * 24 := by
  have hcategories := flatMap_length appendCategorySample 24
    (fun _ => by simp [appendCategorySample, appendU64, appendU32]) memory.categories
  simp only [appendAgentMemory, List.length_append, hcategories]
  simp [appendU64, appendU32, Coding.append, appendU8, appendZeros]

theorem readsTo_agentMemory (size : ℕ) :
    ReadsTo (fun rest => rest = [])
      (fun memory => (memory.InRange ∧ validateAgentMemory memory = .ok ()) ∧
        size = 16 + memory.categories.length * 24)
      appendAgentMemory (readAgentMemory size) := by
  refine ReadsTo.layout (.test ?truncated fun htruncated =>
    .field reads_u64 AgentMemory.monotonicTicks fun _ _ =>
    .field (AgentMemorySampleKind.coding.reads _) AgentMemory.kind fun _ _ =>
    .skip (reads_zeros 3) <|
    .field reads_u32 (fun memory : AgentMemory => memory.categories.length)
      fun categoryCount _ => .test ?count fun hcount =>
    .known (reads_readMany reads_categorySample _) AgentMemory.categories
      (fun categories => ∀ sample ∈ categories, sample.InRange) ?categories
      fun categories hcategories =>
    .ending <|
    .valid (fun memory => asInvalid "AgentMemory" (validateAgentMemory memory))
      (Q := fun memory => size = 16 + memory.categories.length * 24) ?done) ?_ ?_
  case truncated =>
    intro memory _ h
    have hsize : size = 16 + memory.categories.length * 24 := by tauto
    omega
  case count =>
    intro memory hfields h
    simp only [asInvalid_eq_ok] at h
    obtain ⟨-, hsize, hvalid⟩ := h
    have hlimit := categories_length_of_valid hvalid
    obtain ⟨-, rfl⟩ := hfields
    omega
  case categories =>
    rintro memory ⟨-, hcount⟩
    exact and_iff_right hcount
  case done =>
    rintro ⟨⟩
    obtain ⟨rfl, -⟩ := hcategories
    simp only [AgentMemory.mk.injEq]
    constructor
    · tauto
    · rintro ⟨rfl, rfl, rfl⟩
      simp
      omega
  · intro memory
    rw [asInvalid_eq_ok]
    unfold AgentMemory.InRange
    constructor
    · rintro ⟨⟨hrange, hvalid⟩, hsize⟩
      have hlimit := categories_length_of_valid hvalid
      have hcount : IsWord 4 memory.categories.length := Nat.lt_of_le_of_lt hlimit (by decide)
      tauto
    · tauto
  · simp [appendAgentMemory]

theorem agentMemory_roundTrip :
    RoundTrip AgentMemory.InRange appendAgentMemoryRecord decodeAgentMemoryRecord := by
  refine roundTrip_of (decodes_record fun _ _ =>
    ReadsTo.runReader_sized readsTo_agentMemory ?_)
    (fun _ _ _ _ => limited_bind_eq_ok) ?_ fun _ => by decide
  · intro memory _
    exact appendAgentMemory_length memory
  · intro memory maximumRecordSize _ hsize hlimit
    rw [appendAgentMemory_length] at hsize hlimit
    omega

end Noleax.Trace
