import Mathlib.Data.Nat.Log
import Noleax.Agent.MemoryRegistry

/-!
# The accounting of the event queue (`agent/linux/agent_memory.cpp`, `agent_runtime.cpp`)

A buffer size becomes a ring of slots in a mapping of its own. The reserved bytes are those of
the slots, the resident bytes those of whole pages, so a ring that ends inside of a page can
have more resident than reserved bytes, which the validators refuse.
-/

namespace Noleax.Agent

open Lib Trace

/-! ## The plan -/

/-- `sizeof(LinuxHeapEvent)` -/
def eventSize : ℕ := 648

/-- `LinuxHeapEventQueue::slot_size()`, an event behind its sequence word. -/
def slotSize : ℕ := 656

def maximumCapacity : ℕ := 2 ^ 24

def bufferConfigurationFlagAdjusted : ℕ := 1

/-- The smallest buffer size that configuration validation accepts. -/
def minimumTraceBufferSize : ℕ := 4 * 1024

/-- `std::bit_floor` -/
def bitFloor (value : ℕ) : ℕ := if value = 0 then 0 else 2 ^ Nat.log 2 value

structure EventQueuePlan where
  capacity : ℕ
  configuration : BufferConfiguration
deriving DecidableEq, Repr

/-- `plan_event_queue` -/
def planEventQueue (requestedBytes : ℕ) : EventQueuePlan :=
  let requestedSlots := max 2 (requestedBytes / eventSize)
  let slots := bitFloor (min requestedSlots maximumCapacity)
  { capacity := slots
    configuration := {
      requestedBytes := requestedBytes
      effectiveSlots := slots
      eventSize := eventSize
      slotSize := slotSize
      reservedBytes := slots * slotSize
      residentAfterInitBytes := 0
      flags := if slots ≠ requestedSlots then bufferConfigurationFlagAdjusted else 0 } }

/-- The mapping that `make_linux_heap_event_queue` registers, at the address the kernel chose. -/
def eventQueueRegion (base capacity : ℕ) : MemoryRegion :=
  ⟨base, capacity * slotSize, categoryEventQueue⟩

/-- `make_linux_heap_event_queue`, with the address that `mmap` returns. -/
def makeLinuxHeapEventQueue (registry : AgentMemoryRegistry) (base capacity : ℕ) :
    Except AgentMemoryError AgentMemoryRegistry := do
  failIf (capacity ≠ 0 ∧ maxU64 / slotSize < capacity)
    ⟨"event queue slot array size overflows"⟩
  registry.registerRegion (eventQueueRegion base capacity)

/-! ## The records -/

/-- The runtime copies the resident bytes of the event queue's category. -/
def residentAfterInit (categories : List AgentMemoryCategorySample) : ℕ :=
  categories.foldl (fun resident sample =>
    if sample.category = categoryEventQueue then sample.residentBytes else resident) 0

/-- The configuration that `note_startup_memory` validates. -/
def completedConfiguration (requestedBytes : ℕ) (categories : List AgentMemoryCategorySample) :
    BufferConfiguration :=
  { (planEventQueue requestedBytes).configuration with
    residentAfterInitBytes := residentAfterInit categories }

section Records

variable (pageSize : ℕ) (mincore : MemoryRegion → Option Bytes) (registry : AgentMemoryRegistry)

/-- The `AgentMemory` record of `capture_memory_snapshot`: a throw skips it. -/
def periodicRecord (monotonicTicks : ℕ) : Option AgentMemory :=
  match registry.snapshot pageSize mincore with
  | .error _ => none
  | .ok categories =>
      let memory : AgentMemory := ⟨monotonicTicks, .periodic, categories⟩
      match validateAgentMemory memory with
      | .error _ => none
      | .ok () => some memory

/-- Every record and the completed configuration of a registry validate. -/
def Accounted (requestedBytes : ℕ) : Prop :=
  ∃ categories, registry.snapshot pageSize mincore = .ok categories ∧
    (∀ monotonicTicks kind,
      validateAgentMemory ⟨monotonicTicks, kind, categories⟩ = .ok ()) ∧
    validateBufferConfiguration (completedConfiguration requestedBytes categories) = .ok () ∧
    ∀ monotonicTicks, periodicRecord pageSize mincore registry monotonicTicks =
      some ⟨monotonicTicks, .periodic, categories⟩

end Records

/-! ## The validators -/

section Validators

variable {samples : List AgentMemoryCategorySample}

theorem room_iff {total value : ℕ} (h : total ≤ maxU64) :
    ¬ maxU64 - total < value ↔ total + value ≤ maxU64 := by
  rw [Nat.not_lt, Nat.le_sub_iff_add_le' h]

section Scan

variable {scan next : CategoryScan} {first : AgentMemoryCategorySample}

/-- What one step of the scan accepts. -/
theorem categoryStep_eq_ok (hreserved : scan.reservedTotal ≤ maxU64)
    (hresident : scan.residentTotal ≤ maxU64) :
    scan.step first = .ok next ↔
      first.category ∉ scan.seen ∧ first.residentBytes ≤ first.reservedBytes ∧
        (scan.reservedTotal + first.reservedBytes ≤ maxU64 ∧
          scan.residentTotal + first.residentBytes ≤ maxU64) ∧
        ⟨first.category :: scan.seen, scan.reservedTotal + first.reservedBytes,
          scan.residentTotal + first.residentBytes⟩ = next := by
  unfold CategoryScan.step
  rw [failIf_bind_eq_ok, failIf_bind_eq_ok, failIf_bind_eq_ok, pure_eq_ok, Except.ok.injEq,
    not_or, room_iff hreserved, room_iff hresident, Nat.not_lt]

/-- The scan of the categories accepts distinct ones whose bytes are in order and fit. -/
theorem categoryScan_ok (hreserved : scan.reservedTotal ≤ maxU64)
    (hresident : scan.residentTotal ≤ maxU64) :
    (∃ result, samples.foldlM CategoryScan.step scan = .ok result) ↔
      (∀ sample ∈ samples, sample.category ∉ scan.seen) ∧ (samples.map (·.category)).Nodup ∧
      (∀ sample ∈ samples, sample.residentBytes ≤ sample.reservedBytes) ∧
      scan.reservedTotal + (samples.map (·.reservedBytes)).sum ≤ maxU64 ∧
      scan.residentTotal + (samples.map (·.residentBytes)).sum ≤ maxU64 := by
  induction samples generalizing scan with
  | nil => exact iff_of_true ⟨scan, rfl⟩ ⟨nofun, List.nodup_nil, nofun, hreserved, hresident⟩
  | cons first samples ih =>
      rw [List.forall_mem_cons, List.map_cons, List.nodup_cons, List.forall_mem_cons,
        List.map_cons, List.sum_cons, List.map_cons, List.sum_cons]
      constructor
      · intro ⟨result, hrun⟩
        rw [List.foldlM_cons, bind_eq_ok] at hrun
        obtain ⟨next, hnext, hrun⟩ := hrun
        obtain ⟨hnew, hle, ⟨hroom, hroom'⟩, rfl⟩ :=
          (categoryStep_eq_ok hreserved hresident).mp hnext
        obtain ⟨hseen, hnodup, hles, hsum, hsum'⟩ := (ih hroom hroom').mp ⟨result, hrun⟩
        have hfresh : first.category ∉ samples.map (·.category) := by
          intro hmem
          obtain ⟨sample, hsample, heq⟩ := List.mem_map.mp hmem
          exact hseen sample hsample (heq ▸ List.mem_cons_self)
        refine ⟨⟨hnew, ?_⟩, ⟨hfresh, hnodup⟩, ⟨hle, hles⟩, ?_, ?_⟩
        · intro sample hsample hin
          exact hseen sample hsample (List.mem_cons_of_mem _ hin)
        · rw [← Nat.add_assoc]
          exact hsum
        · rw [← Nat.add_assoc]
          exact hsum'
      · intro ⟨⟨hnew, hseen⟩, ⟨hfresh, hnodup⟩, ⟨hle, hles⟩, hsum, hsum'⟩
        rw [← Nat.add_assoc] at hsum hsum'
        have hroom := Nat.le_trans (Nat.le_add_right _ _) hsum
        have hroom' := Nat.le_trans (Nat.le_add_right _ _) hsum'
        rw [List.foldlM_cons]
        refine exists_bind_ok ⟨_, (categoryStep_eq_ok hreserved hresident).mpr
          ⟨hnew, hle, ⟨hroom, hroom'⟩, rfl⟩⟩ ?_
        intro next hnext
        obtain ⟨-, -, -, rfl⟩ := (categoryStep_eq_ok hreserved hresident).mp hnext
        refine (ih hroom hroom').mpr ⟨?_, hnodup, hles, hsum, hsum'⟩
        intro sample hsample hin
        cases List.mem_cons.mp hin with
        | inl heq => exact hfresh (heq ▸ List.mem_map_of_mem hsample)
        | inr hin => exact hseen sample hsample hin

end Scan

/-- `validate_agent_memory` accepts at most 64 distinct categories, no more resident than reserved
bytes in each, and a reserved total that fits. -/
theorem validateAgentMemory_ok {ticks : ℕ} {kind : AgentMemorySampleKind} :
    validateAgentMemory ⟨ticks, kind, samples⟩ = .ok () ↔
      samples.length ≤ maximumAgentMemoryCategories ∧ (samples.map (·.category)).Nodup ∧
      (∀ sample ∈ samples, sample.residentBytes ≤ sample.reservedBytes) ∧
      (samples.map (·.reservedBytes)).sum ≤ maxU64 := by
  have hscan := @categoryScan_ok samples {} (Nat.zero_le _) (Nat.zero_le _)
  have hbind : validateAgentMemory ⟨ticks, kind, samples⟩ = .ok () ↔
      ¬ maximumAgentMemoryCategories < samples.length ∧
        ∃ result, samples.foldlM CategoryScan.step {} = .ok result := by
    unfold validateAgentMemory
    rw [failIf_bind_eq_ok, bind_eq_ok]
    simp
  rw [hbind, hscan, Nat.not_lt, Nat.zero_add, Nat.zero_add]
  constructor
  · intro ⟨hlength, _, hnodup, hles, hsum, _⟩
    exact ⟨hlength, hnodup, hles, hsum⟩
  · intro ⟨hlength, hnodup, hles, hsum⟩
    refine ⟨hlength, fun _ _ => List.not_mem_nil, hnodup, hles, hsum, ?_⟩
    exact Nat.le_trans (List.sum_le_sum hles) hsum

/-- With distinct categories, the runtime copies the resident bytes of the event queue. -/
theorem residentAfterInit_of_mem (hnodup : (samples.map (·.category)).Nodup)
    {sample : AgentMemoryCategorySample} (hsample : sample ∈ samples)
    (hcategory : sample.category = categoryEventQueue) :
    residentAfterInit samples = sample.residentBytes := by
  have hother : ∀ (rest : List AgentMemoryCategorySample) (resident : ℕ),
      categoryEventQueue ∉ rest.map (·.category) →
      rest.foldl (fun resident sample =>
        if sample.category = categoryEventQueue then sample.residentBytes else resident) resident =
          resident := by
    intro rest
    induction rest with
    | nil => exact fun _ _ => rfl
    | cons first rest ih =>
        intro resident hmem
        rw [List.map_cons, List.mem_cons, not_or] at hmem
        rw [List.foldl_cons, if_neg (Ne.symm hmem.1)]
        exact ih resident hmem.2
  obtain ⟨before, rest, rfl⟩ := List.append_of_mem hsample
  rw [List.map_append, List.map_cons] at hnodup
  have hrest := (List.nodup_cons.mp (List.nodup_append.mp hnodup).2.1).1
  unfold residentAfterInit
  rw [List.foldl_append, List.foldl_cons, if_pos hcategory]
  exact hother rest _ (hcategory ▸ hrest)

end Validators

/-! ## When a registry is accounted -/

section Accounting

variable {pageSize bufferSize base : ℕ} {mincore : MemoryRegion → Option Bytes}
  {registry : AgentMemoryRegistry}

theorem bitFloor_pos {value : ℕ} (h : value ≠ 0) : 0 < bitFloor value := by
  unfold bitFloor
  rw [if_neg h]
  exact Nat.two_pow_pos _

theorem bitFloor_le (value : ℕ) : bitFloor value ≤ value := by
  unfold bitFloor
  split
  · exact Nat.zero_le _
  · rename_i h
    exact Nat.pow_log_le_self 2 h

theorem capacity_pos : 0 < (planEventQueue bufferSize).capacity := by
  refine bitFloor_pos ?_
  show min (max 2 (bufferSize / eventSize)) maximumCapacity ≠ 0
  unfold maximumCapacity
  omega

theorem capacity_le : (planEventQueue bufferSize).capacity ≤ maximumCapacity :=
  Nat.le_trans (bitFloor_le _) (Nat.min_le_right _ _)

/-- The completed configuration validates when the ring's resident bytes are within its reserved
ones. -/
theorem validateBufferConfiguration_ok {categories : List AgentMemoryCategorySample}
    (hbuffer : minimumTraceBufferSize ≤ bufferSize) :
    validateBufferConfiguration (completedConfiguration bufferSize categories) = .ok () ↔
      residentAfterInit categories ≤
        (eventQueueRegion base (planEventQueue bufferSize).capacity).bytes := by
  have hpos := @capacity_pos bufferSize
  have hle := @capacity_le bufferSize
  have hrequested : bufferSize ≠ 0 := by
    unfold minimumTraceBufferSize at hbuffer
    omega
  have hroom : ¬ maxU64 / slotSize < (planEventQueue bufferSize).capacity := by
    refine Nat.not_lt.mpr (Nat.le_trans hle ?_)
    decide
  show (failIf (bufferSize = 0 ∨ (planEventQueue bufferSize).capacity = 0 ∨ eventSize = 0 ∨
      slotSize = 0 ∨ slotSize < eventSize) _ >>= fun _ =>
    failIf (maxU64 / slotSize < (planEventQueue bufferSize).capacity) _ >>= fun _ =>
      failIf ((planEventQueue bufferSize).capacity * slotSize ≠
        (planEventQueue bufferSize).capacity * slotSize ∨
          (planEventQueue bufferSize).capacity * slotSize < residentAfterInit categories) _) =
      Except.ok () ↔ _
  rw [failIf_bind_eq_ok, failIf_bind_eq_ok, failIf_eq_ok, and_iff_right, and_iff_right hroom,
    ne_self_iff_false, false_or, Nat.not_lt]
  · rfl
  · unfold slotSize eventSize
    omega

theorem estimateSamples_length (slot : ℕ) (estimates : List (Option MemoryEstimate)) :
    (estimateSamples slot estimates).length ≤ estimates.length := by
  induction estimates generalizing slot with
  | nil => exact Nat.le_refl _
  | cons estimate rest ih =>
      cases estimate with
      | none => exact Nat.le_succ_of_le (ih (slot + 1))
      | some estimate => exact Nat.succ_le_succ (ih (slot + 1))

theorem contributions_length :
    (contributions pageSize mincore registry).length ≤ maximumAgentMemoryCategories := by
  have hregions := registry.regions_le
  have hestimates := estimateSamples_length 0 registry.estimates
  rw [registry.estimates_length] at hestimates
  unfold contributions
  rw [List.length_append, List.length_map]
  exact Nat.le_trans (Nat.add_le_add hregions hestimates) (by decide)

theorem Merged.length_le {samples merged : List AgentMemoryCategorySample}
    (h : Merged samples merged) : merged.length ≤ samples.length := by
  have hsub : merged.map (·.category) ⊆ samples.map (·.category) :=
    fun category hmem => (h.categories category).mp hmem
  have := (List.subperm_of_subset h.nodup hsub).length_le
  rwa [List.length_map, List.length_map] at this

/-- A snapshot is accounted when the reserved bytes fit, no category has more resident than
reserved bytes, and the event queue's resident bytes are within its ring. -/
theorem accounted_iff (hbuffer : minimumTraceBufferSize ≤ bufferSize)
    (hqueue : categoryEventQueue ∈ (contributions pageSize mincore registry).map (·.category)) :
    Accounted pageSize mincore registry bufferSize ↔
      ((contributions pageSize mincore registry).map (·.reservedBytes)).sum ≤ maxU64 ∧
      (∀ category, totalOf (·.residentBytes) category (contributions pageSize mincore registry) ≤
        totalOf (·.reservedBytes) category (contributions pageSize mincore registry)) ∧
      totalOf (·.residentBytes) categoryEventQueue (contributions pageSize mincore registry) ≤
        (eventQueueRegion base (planEventQueue bufferSize).capacity).bytes := by
  have hinit {categories : List AgentMemoryCategorySample}
      (hmerged : Merged (contributions pageSize mincore registry) categories) :
      residentAfterInit categories =
        totalOf (·.residentBytes) categoryEventQueue (contributions pageSize mincore registry) := by
    obtain ⟨sample, hsample, hcategory⟩ := List.mem_map.mp ((hmerged.categories _).mpr hqueue)
    rw [residentAfterInit_of_mem hmerged.nodup hsample hcategory, hmerged.resident sample hsample,
      hcategory]
  constructor
  · intro ⟨categories, hsnapshot, hmemory, hconfiguration, _⟩
    have hmerged := snapshot_ok hsnapshot
    obtain ⟨-, -, hles, hsum⟩ := validateAgentMemory_ok.mp (hmemory 0 .periodic)
    rw [hmerged.reservedSum] at hsum
    refine ⟨hsum, ?_, ?_⟩
    · intro category
      by_cases hmem : category ∈ (contributions pageSize mincore registry).map (·.category)
      · obtain ⟨sample, hsample, rfl⟩ := List.mem_map.mp ((hmerged.categories _).mpr hmem)
        rw [← hmerged.resident sample hsample, ← hmerged.reserved sample hsample]
        exact hles sample hsample
      · rw [totalOf_eq_zero hmem]
        exact Nat.zero_le _
    · rw [← hinit hmerged]
      exact (validateBufferConfiguration_ok hbuffer).mp hconfiguration
  · intro ⟨hsum, hles, hring⟩
    have hreserved (category : ℕ) :=
      Nat.le_trans (@totalOf_le_sum (·.reservedBytes) category _) hsum
    obtain ⟨categories, hsnapshot⟩ := exists_snapshot hreserved
      fun category => Nat.le_trans (hles category) (hreserved category)
    have hmerged := snapshot_ok hsnapshot
    have hmemory (ticks : ℕ) (kind : AgentMemorySampleKind) :
        validateAgentMemory ⟨ticks, kind, categories⟩ = .ok () := by
      refine validateAgentMemory_ok.mpr
        ⟨Nat.le_trans hmerged.length_le contributions_length, hmerged.nodup, ?_, ?_⟩
      · intro sample hsample
        rw [hmerged.resident sample hsample, hmerged.reserved sample hsample]
        exact hles sample.category
      · rw [hmerged.reservedSum]
        exact hsum
    refine ⟨categories, hsnapshot, hmemory, ?_, ?_⟩
    · exact (@validateBufferConfiguration_ok _ base _ hbuffer).mpr ((hinit hmerged).symm ▸ hring)
    · intro ticks
      unfold periodicRecord
      rw [hsnapshot]
      show (match validateAgentMemory ⟨ticks, .periodic, categories⟩ with
        | .error _ => none
        | .ok () => some _) = _
      rw [hmemory ticks .periodic]

end Accounting

/-! ## The ring -/

section Ring

variable {pageSize bufferSize base : ℕ} {mincore : MemoryRegion → Option Bytes}
  {registry : AgentMemoryRegistry} {further : List MemoryRegion}

/-- The ring of a buffer size, in the mapping at `base`. -/
def ringRegion (base bufferSize : ℕ) : MemoryRegion :=
  eventQueueRegion base (planEventQueue bufferSize).capacity

/-- What the other regions and the estimates contribute. -/
def furtherSamples (pageSize : ℕ) (mincore : MemoryRegion → Option Bytes)
    (further : List MemoryRegion) (registry : AgentMemoryRegistry) :
    List AgentMemoryCategorySample :=
  further.map (regionSample pageSize mincore) ++ estimateSamples 0 registry.estimates

/-- What is reserved altogether. -/
def reservedTotal (pageSize : ℕ) (mincore : MemoryRegion → Option Bytes) (ring : MemoryRegion)
    (further : List MemoryRegion) (registry : AgentMemoryRegistry) : ℕ :=
  ring.bytes + ((furtherSamples pageSize mincore further registry).map (·.reservedBytes)).sum

/-- The resident bytes that other contributions add to the event queue's category. -/
def furtherQueueBytes (pageSize : ℕ) (mincore : MemoryRegion → Option Bytes)
    (further : List MemoryRegion) (registry : AgentMemoryRegistry) : ℕ :=
  totalOf (·.residentBytes) categoryEventQueue (furtherSamples pageSize mincore further registry)

/-- The registered ring stays in the registry, among other regions, through every sequence of
updates that does not unregister its mapping. -/
theorem ring_registered {made : AgentMemoryRegistry}
    (hmade : makeLinuxHeapEventQueue registry base (planEventQueue bufferSize).capacity = .ok made)
    (updates : List RegistryUpdate) (hupdates : .unregister base ∉ updates) :
    ∃ others, (updates.foldl AgentMemoryRegistry.update made).regions.Perm
      (ringRegion base bufferSize :: others) := by
  obtain ⟨-, hregister⟩ := failIf_bind_eq_ok.mp hmade
  have hring : ringRegion base bufferSize ∈ made.regions := by
    rw [registerRegion_ok hregister]
    exact List.mem_append_right _ (List.mem_singleton_self _)
  exact ⟨_, List.perm_cons_erase (mem_regions_updates hring updates hupdates)⟩

theorem contributions_perm
    (hregions : registry.regions.Perm (ringRegion base bufferSize :: further)) :
    (contributions pageSize mincore registry).Perm
      (regionSample pageSize mincore (ringRegion base bufferSize) ::
        furtherSamples pageSize mincore further registry) :=
  (hregions.map (regionSample pageSize mincore)).append_right _

theorem totalOf_le_totalOf {samples : List AgentMemoryCategorySample} (category : ℕ)
    (h : ∀ sample ∈ samples, sample.residentBytes ≤ sample.reservedBytes) :
    totalOf (·.residentBytes) category samples ≤ totalOf (·.reservedBytes) category samples :=
  List.sum_le_sum fun sample hsample => h sample (List.mem_of_mem_filter hsample)

/-- For one answer of the kernel: accounted when the reserved bytes fit and the event queue's
resident bytes are within the ring. -/
theorem accounted_ring_iff (hbuffer : minimumTraceBufferSize ≤ bufferSize)
    (hregions : registry.regions.Perm (ringRegion base bufferSize :: further))
    (hwithin : ∀ sample ∈ furtherSamples pageSize mincore further registry,
      sample.residentBytes ≤ sample.reservedBytes) :
    Accounted pageSize mincore registry bufferSize ↔
      reservedTotal pageSize mincore (ringRegion base bufferSize) further registry ≤ maxU64 ∧
      measuredResidentBytes pageSize (mincore (ringRegion base bufferSize))
          (ringRegion base bufferSize).bytes +
        furtherQueueBytes pageSize mincore further registry ≤
          (ringRegion base bufferSize).bytes := by
  have hperm := @contributions_perm pageSize _ _ mincore _ _ hregions
  have hsame : (regionSample pageSize mincore (ringRegion base bufferSize)).category =
      categoryEventQueue := rfl
  have hqueue : categoryEventQueue ∈
      (contributions pageSize mincore registry).map (·.category) := by
    rw [(hperm.map _).mem_iff]
    exact List.mem_cons_self
  have hsum : ((contributions pageSize mincore registry).map (·.reservedBytes)).sum =
      reservedTotal pageSize mincore (ringRegion base bufferSize) further registry :=
    (hperm.map _).sum_nat
  have hresident : totalOf (·.residentBytes) categoryEventQueue
        (contributions pageSize mincore registry) =
      measuredResidentBytes pageSize (mincore (ringRegion base bufferSize))
          (ringRegion base bufferSize).bytes +
        furtherQueueBytes pageSize mincore further registry := by
    rw [totalOf_perm hperm, totalOf_cons_same hsame]
    rfl
  rw [@accounted_iff _ _ base _ _ hbuffer hqueue, hsum, hresident]
  constructor
  · intro ⟨htotal, _, hring⟩
    exact ⟨htotal, hring⟩
  · intro ⟨htotal, hring⟩
    refine ⟨htotal, ?_, hring⟩
    intro category
    rw [totalOf_perm hperm, totalOf_perm hperm]
    by_cases hcategory : categoryEventQueue = category
    · subst hcategory
      rw [totalOf_cons_same hsame, totalOf_cons_same hsame]
      exact Nat.le_trans hring (Nat.le_add_right _ _)
    · rw [totalOf_cons_other hcategory, totalOf_cons_other hcategory]
      exact totalOf_le_totalOf category hwithin

/-- A residency vector counts at most the pages of the range, and a full one counts them all. -/
theorem measured_le (residency : Option Bytes) (bytes : ℕ) :
    measuredResidentBytes pageSize residency bytes ≤
      (bytes + pageSize - 1) % 2 ^ 64 / pageSize * pageSize := by
  cases residency with
  | none => exact Nat.zero_le _
  | some scratch =>
      refine Nat.mul_le_mul_right pageSize (Nat.le_trans List.countP_le_length ?_)
      rw [List.length_take]
      exact Nat.min_le_left _ _

theorem measured_full (bytes : ℕ) :
    measuredResidentBytes pageSize
        (some (List.replicate ((bytes + pageSize - 1) % 2 ^ 64 / pageSize) 1)) bytes =
      (bytes + pageSize - 1) % 2 ^ 64 / pageSize * pageSize := by
  show List.countP _ (List.take _ (List.replicate _ 1)) * pageSize = _
  rw [List.take_replicate, Nat.min_self, List.countP_replicate]
  rfl

/-- Every residency is within the range exactly when the range is whole pages and nothing is added
to it. -/
theorem residency_le_iff {bytes added : ℕ} (hpage : 0 < pageSize)
    (hbytes : bytes + pageSize ≤ 2 ^ 64) :
    (∀ residency, measuredResidentBytes pageSize residency bytes + added ≤ bytes) ↔
      pageSize ∣ bytes ∧ added = 0 := by
  have hmod : (bytes + pageSize - 1) % 2 ^ 64 = bytes + pageSize - 1 :=
    Nat.mod_eq_of_lt (by omega)
  constructor
  · intro h
    have hfull := h (some (List.replicate ((bytes + pageSize - 1) % 2 ^ 64 / pageSize) 1))
    rw [measured_full, hmod] at hfull
    have hcover : bytes ≤ (bytes + pageSize - 1) / pageSize * pageSize := by
      have := Nat.lt_div_mul_add hpage (a := bytes + pageSize - 1)
      omega
    have heq : bytes = (bytes + pageSize - 1) / pageSize * pageSize := by omega
    exact ⟨⟨_, heq.trans (Nat.mul_comm _ _)⟩, by omega⟩
  · intro ⟨hdvd, hadded⟩ residency
    obtain ⟨pages, rfl⟩ := hdvd
    have hmeasured := @measured_le pageSize residency (pageSize * pages)
    have hpages : (pageSize * pages + pageSize - 1) / pageSize = pages := by
      rw [Nat.add_sub_assoc hpage, Nat.mul_add_div hpage, Nat.div_eq_of_lt (by omega)]
      rfl
    rw [hmod, hpages, Nat.mul_comm pages] at hmeasured
    rw [hadded]
    exact hmeasured

end Ring

section Size

variable {bufferSize : ℕ}

theorem page_dvd_slots {exponent : ℕ} : 4096 ∣ 2 ^ exponent * slotSize ↔ 8 ≤ exponent := by
  constructor
  · intro hdvd
    by_contra hsmall
    have hsmall : exponent < 8 := Nat.lt_of_not_le hsmall
    revert hdvd
    interval_cases exponent <;> decide
  · intro hlarge
    obtain ⟨rest, rfl⟩ := Nat.exists_eq_add_of_le hlarge
    exact ⟨41 * 2 ^ rest, by rw [Nat.pow_add, slotSize]; omega⟩

/-- The ring is whole 4 KiB pages when it has 256 slots or more. -/
theorem page_dvd_ring (base : ℕ) :
    4096 ∣ (ringRegion base bufferSize).bytes ↔ 256 * eventSize ≤ bufferSize := by
  have hslots : min (max 2 (bufferSize / eventSize)) maximumCapacity ≠ 0 := by
    unfold maximumCapacity
    omega
  show 4096 ∣ bitFloor (min (max 2 (bufferSize / eventSize)) maximumCapacity) * slotSize ↔ _
  rw [bitFloor, if_neg hslots, page_dvd_slots, Nat.le_log_iff_pow_le (by decide) hslots]
  unfold eventSize maximumCapacity
  omega

/-- The ring is far below what 64 bits hold. -/
theorem ring_bytes_le (base : ℕ) : (ringRegion base bufferSize).bytes ≤ 2 ^ 34 :=
  Nat.le_trans (Nat.mul_le_mul_right slotSize capacity_le) (by decide)

end Size

/-! ## Accounting of every residency -/

section Residency

variable {pageSize bufferSize base : ℕ} {mincore : MemoryRegion → Option Bytes}
  {registry : AgentMemoryRegistry} {further : List MemoryRegion}

/-- Another answer for the ring leaves the other contributions. -/
theorem furtherSamples_update (hring : ringRegion base bufferSize ∉ further)
    (residency : Option Bytes) :
    furtherSamples pageSize (Function.update mincore (ringRegion base bufferSize) residency)
        further registry =
      furtherSamples pageSize mincore further registry := by
  unfold furtherSamples
  congr 1
  apply List.map_congr_left
  intro region hregion
  have hne : region ≠ ringRegion base bufferSize := fun heq => hring (heq ▸ hregion)
  unfold regionSample
  rw [Function.update_of_ne hne]

/-- One answer of the kernel is accounted when the ring's resident pages, with what else counts as
event queue, are within the slots. Every answer is when the ring is whole pages, nothing resident
is added to it and the reserved bytes fit; with pages of 4 KiB that is 256 slots or more. -/
theorem memory_accounting_validates (hpage : 0 < pageSize ∧ pageSize < 2 ^ 63)
    (hbuffer : minimumTraceBufferSize ≤ bufferSize)
    (hregions : registry.regions.Perm (ringRegion base bufferSize :: further))
    (hring : ringRegion base bufferSize ∉ further)
    (hwithin : ∀ sample ∈ furtherSamples pageSize mincore further registry,
      sample.residentBytes ≤ sample.reservedBytes) :
    (Accounted pageSize mincore registry bufferSize ↔
      reservedTotal pageSize mincore (ringRegion base bufferSize) further registry ≤ maxU64 ∧
      measuredResidentBytes pageSize (mincore (ringRegion base bufferSize))
          (ringRegion base bufferSize).bytes +
        furtherQueueBytes pageSize mincore further registry ≤
          (ringRegion base bufferSize).bytes) ∧
    ((∀ residency, Accounted pageSize
        (Function.update mincore (ringRegion base bufferSize) residency) registry bufferSize) ↔
      reservedTotal pageSize mincore (ringRegion base bufferSize) further registry ≤ maxU64 ∧
      pageSize ∣ (ringRegion base bufferSize).bytes ∧
      furtherQueueBytes pageSize mincore further registry = 0) ∧
    (4096 ∣ (ringRegion base bufferSize).bytes ↔ 256 * eventSize ≤ bufferSize) := by
  refine ⟨accounted_ring_iff hbuffer hregions hwithin, ?_, page_dvd_ring base⟩
  have hbytes := @ring_bytes_le bufferSize base
  have hone (residency : Option Bytes) : Accounted pageSize
        (Function.update mincore (ringRegion base bufferSize) residency) registry bufferSize ↔
      reservedTotal pageSize mincore (ringRegion base bufferSize) further registry ≤ maxU64 ∧
      measuredResidentBytes pageSize residency (ringRegion base bufferSize).bytes +
        furtherQueueBytes pageSize mincore further registry ≤
          (ringRegion base bufferSize).bytes := by
    have hsame := @furtherSamples_update pageSize _ _ mincore registry _ hring residency
    have hiff := accounted_ring_iff hbuffer hregions (hsame.symm ▸ hwithin)
    unfold reservedTotal furtherQueueBytes at hiff ⊢
    rwa [hsame, Function.update_self] at hiff
  rw [← residency_le_iff hpage.1 (by omega)]
  constructor
  · intro h
    exact ⟨((hone none).mp (h none)).1, fun residency => ((hone residency).mp (h residency)).2⟩
  · intro ⟨htotal, h⟩ residency
    exact (hone residency).mpr ⟨htotal, h residency⟩

end Residency

section Sample

/-- A registry with one region and no estimates. -/
def registryOf (region : MemoryRegion) : AgentMemoryRegistry :=
  { AgentMemoryRegistry.empty with
    regions := [region]
    regions_le := (by decide : 1 ≤ maximumRegions) }

/-- The ring of 1 MiB validates when its 164 pages are resident. -/
theorem memory_accounting_validates_mebibyte :
    Accounted 4096
      (Function.update (fun _ => none) (ringRegion 65536 (2 ^ 20)) (some (List.replicate 164 1)))
      (registryOf (ringRegion 65536 (2 ^ 20))) (2 ^ 20) := by
  have h := @memory_accounting_validates 4096 (2 ^ 20) 65536 (fun _ => none)
    (registryOf (ringRegion 65536 (2 ^ 20))) [] (by decide) (by decide) (List.Perm.refl _)
    List.not_mem_nil nofun
  refine h.2.1.mpr ⟨?_, h.2.2.mpr (by decide), rfl⟩ (some (List.replicate 164 1))
  exact Nat.le_trans (Nat.add_le_add_right (@ring_bytes_le (2 ^ 20) 65536) 0) (by decide)

/-- The smallest buffer has four slots of 2624 bytes on one page of 4096. -/
theorem memory_accounting_smallest : ¬ ∀ (pageSize bufferSize base : ℕ)
    (mincore : MemoryRegion → Option Bytes) (registry : AgentMemoryRegistry)
    (further : List MemoryRegion), 0 < pageSize ∧ pageSize < 2 ^ 63 →
    minimumTraceBufferSize ≤ bufferSize →
    registry.regions.Perm (ringRegion base bufferSize :: further) →
    ringRegion base bufferSize ∉ further →
    (∀ sample ∈ furtherSamples pageSize mincore further registry,
      sample.residentBytes ≤ sample.reservedBytes) →
    Accounted pageSize mincore registry bufferSize := by
  intro hclaim
  have hwithin : ∀ sample ∈ furtherSamples 4096 (fun _ => some [1]) []
      (registryOf (ringRegion 65536 4096)), sample.residentBytes ≤ sample.reservedBytes := nofun
  have haccounted := hclaim 4096 4096 65536 (fun _ => some [1]) (registryOf (ringRegion 65536 4096))
    [] (by decide) (by decide) (List.Perm.refl _) List.not_mem_nil hwithin
  have hring := ((accounted_ring_iff (by decide) (List.Perm.refl _) hwithin).mp haccounted).2
  exact absurd hring (by decide)

end Sample

end Noleax.Agent
