import Noleax.Analyzer.GenerationTracker
import Noleax.Lib.Stateful

/-!
# `GenerationTracker::observe`, write by write

`observe` as the source runs it: members change and callbacks fire in the order of
its statements, and an exception leaves what was done before it. `observeEffects_eq`
is what that order is good for: while no counter is at its limit, an event that is
rejected has changed nothing, and one that is accepted does what `observe` says.
-/

namespace Noleax.Analyzer

open Lib Trace

/-- The members, and the callbacks invoked so far. -/
structure TrackerRun where
  tracker : GenerationTracker := {}
  notes : List Notification := []

abbrev TrackerM := EStateM Error TrackerRun

namespace TrackerM

def notify (note : Notification) : TrackerM Unit :=
  modify fun s => { s with notes := s.notes ++ [note] }

def modifyTracker (f : GenerationTracker → GenerationTracker) : TrackerM Unit :=
  modify fun s => { s with tracker := f s.tracker }

def countCreated : TrackerM Unit := do
  let total ← check (checkedIncrement (← get).tracker.createdCount "created generation")
  modifyTracker fun t => { t with createdCount := total }

def countEnded : TrackerM Unit := do
  let total ← check (checkedIncrement (← get).tracker.endedCount "ended generation")
  modifyTracker fun t => { t with endedCount := total }

def countOrphanedAllocationEnd : TrackerM Unit := do
  let total ← check (checkedIncrement (← get).tracker.orphanedAllocationEndCount
    "orphaned allocation end")
  modifyTracker fun t => { t with orphanedAllocationEndCount := total }

def countOrphanedMappingEnd : TrackerM Unit := do
  let total ← check (checkedIncrement (← get).tracker.orphanedMappingEndCount
    "orphaned mapping end")
  modifyTracker fun t => { t with orphanedMappingEndCount := total }

/-! ## Creating and ending -/

def addAllocation (generation : MemoryGeneration) : TrackerM Unit := do
  check ((← get).tracker.requireNewAllocationId generation.allocationId)
  modifyTracker fun t =>
    { t with seenAllocationIds := insert generation.allocationId t.seenAllocationIds }
  check (failIf (generation.allocationId ∈ (← get).tracker.liveAllocations)
    (.generationState "allocation_id is already live"))
  modifyTracker fun t =>
    { t with liveAllocations := t.liveAllocations.insert generation.allocationId generation }
  countCreated
  notify (.created generation)

def addMapping (state : MappingState) : TrackerM Unit := do
  check ((← get).tracker.requireNewMappingId state.generation.mappingId)
  modifyTracker fun t =>
    { t with seenMappingIds := insert state.generation.mappingId t.seenMappingIds }
  check (failIf (state.generation.mappingId ∈ (← get).tracker.liveMappings)
    (.generationState "mapping_id is already live"))
  modifyTracker fun t =>
    { t with liveMappings := t.liveMappings.insert state.generation.mappingId state }
  countCreated
  notify (.created state.generation)

def eraseAllocation (id : ℕ) (generation : MemoryGeneration) (reason : GenerationEndReason)
    (event : Event) : TrackerM Unit := do
  notify (.ended generation reason event)
  countEnded
  modifyTracker fun t => { t with liveAllocations := t.liveAllocations.erase id }

def eraseMapping (id : ℕ) (generation : MemoryGeneration) (reason : GenerationEndReason)
    (event : Event) : TrackerM Unit := do
  notify (.ended generation reason event)
  countEnded
  modifyTracker fun t => { t with liveMappings := t.liveMappings.erase id }

def endAllocation (id expectedAddress expectedHeapId : ℕ) (reason : GenerationEndReason)
    (event : Event) : TrackerM Unit := do
  match (← get).tracker.liveAllocations[id]? with
  | none => countOrphanedAllocationEnd
  | some generation => do
      check (failIf (generation.address ≠ expectedAddress)
        (.generationState "allocation end address does not match its allocation_id"))
      check (failIf (heapIdsConflict generation.heapId expectedHeapId)
        (.generationState "allocation end heap_id does not match its allocation_id"))
      eraseAllocation id generation reason event

def endMapping (id expectedAddress : ℕ) (expectedKind : GenerationKind)
    (reason : GenerationEndReason) (event : Event) : TrackerM Unit := do
  match (← get).tracker.liveMappings[id]? with
  | none => countOrphanedMappingEnd
  | some state => do
      check (failIf (state.generation.kind ≠ expectedKind)
        (.generationState "mapping end operation does not match its mapping_id kind"))
      check (failIf (state.generation.address ≠ expectedAddress)
        (.generationState "mapping end address does not match its mapping_id"))
      eraseMapping id state.generation reason event

/-! ## Heap events -/

def observeAllocation (event : Event) (allocation : AllocationEvent) : TrackerM Unit :=
  if allocationCreatesGeneration event.header allocation then
    addAllocation
      { kind := .heapAllocation
        allocationId := allocation.allocationId
        heapId := allocation.heapId
        heapHandle := allocation.heapHandle
        address := allocation.resultAddress
        size := allocation.requestedSize
        createdBy := event }
  else pure ()

def endReallocated (event : Event) (reallocation : ReallocationEvent) : TrackerM Unit :=
  if reallocationEndsOldGeneration event.header reallocation then
    endAllocation reallocation.oldAllocationId reallocation.oldAddress reallocation.heapId
      (if reallocation.effect = .freed then .reallocationFreed else .reallocated) event
  else pure ()

def observeReallocation (event : Event) (reallocation : ReallocationEvent) : TrackerM Unit :=
  if reallocationCreatesNewGeneration event.header reallocation then do
    check ((← get).tracker.requireNewAllocationId reallocation.newAllocationId)
    endReallocated event reallocation
    addAllocation
      { kind := .heapAllocation
        allocationId := reallocation.newAllocationId
        heapId := reallocation.heapId
        heapHandle := reallocation.heapHandle
        address := reallocation.resultAddress
        size := reallocation.requestedSize
        createdBy := event }
  else endReallocated event reallocation

def observeFree (event : Event) (free : FreeEvent) : TrackerM Unit :=
  if freeEndsGeneration event.header free then
    endAllocation free.allocationId free.address free.heapId .freed event
  else pure ()

/-- The loop of `observe_heap_destroy` over the entries it meets. -/
def destroyLoop (event : Event) (heapId : ℕ) : List (ℕ × MemoryGeneration) → TrackerM Unit
  | [] => pure ()
  | (id, generation) :: rest => do
      if generation.heapId = heapId then eraseAllocation id generation .heapDestroyed event
      destroyLoop event heapId rest

def observeHeapDestroy (event : Event) (destroy : HeapDestroyEvent) : TrackerM Unit := do
  if heapDestroyEndsGenerations event.header destroy then
    destroyLoop event destroy.heapId (← get).tracker.liveAllocations.toList

/-! ## Virtual memory events -/

/-- Store the fragments, then the size if it changed. -/
def updateMapping (id : ℕ) (state : MappingState) (live : IntervalSet Unit) (event : Event) :
    TrackerM Unit := do
  modifyTracker fun t =>
    { t with liveMappings := t.liveMappings.insert id ⟨state.generation, live⟩ }
  if live.totalBytes ≠ state.generation.size then do
    let generation := { state.generation with size := live.totalBytes }
    modifyTracker fun t => { t with liveMappings := t.liveMappings.insert id ⟨generation, live⟩ }
    notify (.changed generation event)

def observeVmUpdate (event : Event) (id : ℕ) (state : MappingState) (base size : ℕ) :
    TrackerM Unit := do
  check (failIf (state.generation.kind ≠ .virtualAllocation ∨ base < state.generation.address)
    (.generationState "virtual memory update does not match its mapping generation"))
  match state.live.find base with
  | none =>
      throw (.generationState "virtual memory update does not match its mapping generation")
  | some fragment =>
      if fragment.start = base then
        updateMapping id state (GenerationTracker.resizeLive state.live fragment base size) event
      else do
        check (failIf (fragment.stop - base < size)
          (.generationState "virtual memory update exceeds its mapping generation"))
        updateMapping id state state.live event

def observeVmAllocate (event : Event) (allocation : VmAllocateEvent) : TrackerM Unit := do
  if callSucceeded event.header.status ∧ allocation.mappingId ≠ 0 then do
    let updateBase :=
      if allocation.mappingBase = 0 then allocation.resultBase else allocation.mappingBase
    let updateSize :=
      if allocation.mappingSize = 0 then allocation.resultSize else allocation.mappingSize
    check (failIf (maxU64 - updateBase < updateSize)
      (.generationState "virtual memory generation range overflows"))
    match (← get).tracker.liveMappings[allocation.mappingId]? with
    | some state => observeVmUpdate event allocation.mappingId state updateBase updateSize
    | none =>
        addMapping
          { generation :=
              { kind := .virtualAllocation
                mappingId := allocation.mappingId
                address := updateBase
                size := updateSize
                createdBy := event }
            live := (IntervalSet.empty.insert updateBase (updateBase + updateSize) ()).1 }

def observeRangedFree (event : Event) (free : VmFreeEvent) (state : MappingState) :
    TrackerM Unit := do
  check (failIf (maxU64 - free.base < free.regionSize)
    (.generationState "virtual memory free range overflows"))
  -- the fragments are cut before the removed ones are looked at
  let (live, removed) := state.live.subtract free.base (free.base + free.regionSize)
  modifyTracker fun t =>
    { t with liveMappings := t.liveMappings.insert free.mappingId ⟨state.generation, live⟩ }
  check (failIf (removed = [])
    (.generationState "mapping free matches no live fragment of its mapping_id"))
  if live.isEmpty then
    eraseMapping free.mappingId state.generation
      (if state.generation.kind = .mappedView then .unmapped else .virtualFreed) event
  else do
    let generation := { state.generation with size := live.totalBytes }
    modifyTracker fun t =>
      { t with liveMappings := t.liveMappings.insert free.mappingId ⟨generation, live⟩ }
    notify (.changed generation event)

def observeVmFree (event : Event) (free : VmFreeEvent) : TrackerM Unit := do
  if callSucceeded event.header.status ∧ free.mappingId ≠ 0 ∧
      free.freeType &&& GenerationTracker.memRelease ≠ 0 then
    match (← get).tracker.liveMappings[free.mappingId]? with
    | none => countOrphanedMappingEnd
    | some state =>
        if free.regionSize = 0 then do
          check (failIf (state.generation.kind ≠ .virtualAllocation ∨
              free.base ≠ state.generation.address)
            (.generationState "mapping end address does not match its mapping_id"))
          eraseMapping free.mappingId state.generation .virtualFreed event
        else observeRangedFree event free state

def observeMap (event : Event) (mapping : MapEvent) : TrackerM Unit := do
  if callSucceeded event.header.status ∧ mapping.mappingId ≠ 0 then do
    check (failIf (maxU64 - mapping.resultBase < mapping.viewSize)
      (.generationState "mapped view generation range overflows"))
    addMapping
      { generation :=
          { kind := .mappedView
            mappingId := mapping.mappingId
            address := mapping.resultBase
            size := mapping.viewSize
            createdBy := event }
        live := (IntervalSet.empty.insert mapping.resultBase
          (mapping.resultBase + mapping.viewSize) ()).1 }

def observeUnmap (event : Event) (unmap : UnmapEvent) : TrackerM Unit := do
  if callSucceeded event.header.status ∧ unmap.mappingId ≠ 0 then
    endMapping unmap.mappingId unmap.base .mappedView .unmapped event

/-! ## `observe` -/

def dispatch (event : Event) : TrackerM Unit :=
  match event.payload with
  | .heapCreate _ => pure ()
  | .heapDestroy payload => observeHeapDestroy event payload
  | .allocation payload => observeAllocation event payload
  | .reallocation payload => observeReallocation event payload
  | .free payload => observeFree event payload
  | .vmAllocate payload => observeVmAllocate event payload
  | .vmFree payload => observeVmFree event payload
  | .map payload => observeMap event payload
  | .unmap payload => observeUnmap event payload

def observe (event : Event) : TrackerM Unit := do
  check (validateEvent event)
  dispatch event

end TrackerM

/-! ## The order of the writes does not show -/

section IdMap

variable {α : Type} (m : IdMap α) (id : ℕ) (a b : α)

theorem insert_insert : (m.insert id a).insert id b = m.insert id b := by
  apply Std.ExtTreeMap.ext_getElem?
  intro k
  simp only [Std.ExtTreeMap.getElem?_insert, Nat.compare_eq_eq]
  split <;> rfl

theorem erase_insert : (m.insert id a).erase id = m.erase id := by
  apply Std.ExtTreeMap.ext_getElem?
  intro k
  simp only [Std.ExtTreeMap.getElem?_erase, Std.ExtTreeMap.getElem?_insert, Nat.compare_eq_eq]
  split <;> rfl

theorem insert_self (h : m[id]? = some a) : m.insert id a = m := by
  apply Std.ExtTreeMap.ext_getElem?
  intro k
  simp only [Std.ExtTreeMap.getElem?_insert, Nat.compare_eq_eq]
  split
  · rename_i heq
    rw [← heq, h]
  · rfl

end IdMap

namespace GenerationTracker

/-- Every counter can count once more. -/
structure CountersBelow (t : GenerationTracker) : Prop where
  created : t.createdCount < maxU64
  orphanedAllocations : t.orphanedAllocationEndCount < maxU64
  orphanedMappings : t.orphanedMappingEndCount < maxU64

/-- What the counters and the seen sets owe the live maps. -/
structure Accounted (t : GenerationTracker) : Prop where
  counts : t.createdCount = t.endedCount + (t.liveAllocations.size + t.liveMappings.size)
  allocationsSeen : ∀ id ∈ t.liveAllocations, id ∈ t.seenAllocationIds
  mappingsSeen : ∀ id ∈ t.liveMappings, id ∈ t.seenMappingIds

end GenerationTracker

/-- The result of the writes of an event: all of them, or none. -/
def outcome (s : TrackerRun) : Observed → EStateM.Result Error TrackerRun Unit
  | .ok (t, notes) => .ok () ⟨t, s.notes ++ notes⟩
  | .error e => .error e s

namespace TrackerM

variable {s : TrackerRun} {event : Event}

theorem addAllocation_eq (generation : MemoryGeneration) (hacc : s.tracker.Accounted)
    (hcreated : s.tracker.createdCount < maxU64) :
    addAllocation generation s = outcome s (s.tracker.addAllocation generation) := by
  unfold addAllocation GenerationTracker.addAllocation
  cases hnew : s.tracker.requireNewAllocationId generation.allocationId with
  | error e => simp [run_bind, hnew, outcome]
  | ok _ =>
      have hseen : generation.allocationId ∉ s.tracker.seenAllocationIds := by
        unfold GenerationTracker.requireNewAllocationId at hnew
        rw [failIf_bind_eq_ok, failIf_eq_ok] at hnew
        exact hnew.2
      have hlive : generation.allocationId ∉ s.tracker.liveAllocations := fun hin =>
        hseen (hacc.allocationsSeen _ hin)
      simp [run_bind, hnew, modifyTracker, countCreated, notify, failIf_of_not hlive,
        checkedIncrement_ok hcreated, outcome]

theorem addMapping_eq (state : MappingState) (hacc : s.tracker.Accounted)
    (hcreated : s.tracker.createdCount < maxU64) :
    addMapping state s = outcome s (s.tracker.addMapping state) := by
  unfold addMapping GenerationTracker.addMapping
  cases hnew : s.tracker.requireNewMappingId state.generation.mappingId with
  | error e => simp [run_bind, hnew, outcome]
  | ok _ =>
      have hseen : state.generation.mappingId ∉ s.tracker.seenMappingIds := by
        unfold GenerationTracker.requireNewMappingId at hnew
        rw [failIf_bind_eq_ok, failIf_eq_ok] at hnew
        exact hnew.2
      have hlive : state.generation.mappingId ∉ s.tracker.liveMappings := fun hin =>
        hseen (hacc.mappingsSeen _ hin)
      simp [run_bind, hnew, modifyTracker, countCreated, notify, failIf_of_not hlive,
        checkedIncrement_ok hcreated, outcome]

theorem eraseAllocation_eq (id : ℕ) (generation : MemoryGeneration) (reason : GenerationEndReason)
    (hended : s.tracker.endedCount < maxU64) :
    eraseAllocation id generation reason event s =
      outcome s (s.tracker.eraseAllocation id generation reason event) := by
  simp [eraseAllocation, GenerationTracker.eraseAllocation, run_bind, modifyTracker, countEnded,
    notify, checkedIncrement_ok hended, outcome]

theorem eraseMapping_eq (id : ℕ) (generation : MemoryGeneration) (reason : GenerationEndReason)
    (hended : s.tracker.endedCount < maxU64) :
    eraseMapping id generation reason event s =
      outcome s (s.tracker.eraseMapping id generation reason event) := by
  simp [eraseMapping, GenerationTracker.eraseMapping, run_bind, modifyTracker, countEnded,
    notify, checkedIncrement_ok hended, outcome]

end TrackerM

namespace GenerationTracker

variable {t : GenerationTracker} {id : ℕ}

/-- The end counter stays behind the creations by what is live. -/
theorem Accounted.ended_lt (h : t.Accounted) (hbelow : t.CountersBelow) :
    t.endedCount < maxU64 := by
  have hcounts := h.counts
  have hcreated := hbelow.created
  omega

end GenerationTracker

namespace TrackerM

variable {s : TrackerRun} {event : Event}

theorem endAllocation_eq (id address heapId : ℕ) (reason : GenerationEndReason)
    (hacc : s.tracker.Accounted) (hbelow : s.tracker.CountersBelow) :
    endAllocation id address heapId reason event s =
      outcome s (s.tracker.endAllocation id address heapId reason event) := by
  unfold endAllocation GenerationTracker.endAllocation
  rw [run_bind, run_get]
  simp only
  cases s.tracker.liveAllocations[id]? with
  | none =>
      simp [countOrphanedAllocationEnd, run_bind, modifyTracker,
        checkedIncrement_ok hbelow.orphanedAllocations, outcome]
  | some generation =>
      simp only [run_bind]
      by_cases haddress : generation.address ≠ address
      · simp [failIf_of haddress, outcome]
      by_cases hheap : heapIdsConflict generation.heapId heapId
      · simp [failIf_of_not haddress, failIf_of hheap, outcome]
      simp only [failIf_of_not haddress, failIf_of_not hheap, run_check_ok, ok_bind]
      exact eraseAllocation_eq id generation reason (hacc.ended_lt hbelow)

theorem countOrphanedMappingEnd_eq (hbelow : s.tracker.CountersBelow) :
    countOrphanedMappingEnd s = outcome s s.tracker.orphanedMappingEnd := by
  simp [countOrphanedMappingEnd, GenerationTracker.orphanedMappingEnd, run_bind, modifyTracker,
    checkedIncrement_ok hbelow.orphanedMappings, outcome]

theorem endMapping_eq (id address : ℕ) (kind : GenerationKind) (reason : GenerationEndReason)
    (hacc : s.tracker.Accounted) (hbelow : s.tracker.CountersBelow) :
    endMapping id address kind reason event s =
      outcome s (s.tracker.endMapping id address kind reason event) := by
  unfold endMapping GenerationTracker.endMapping
  rw [run_bind, run_get]
  simp only
  cases s.tracker.liveMappings[id]? with
  | none => exact countOrphanedMappingEnd_eq hbelow
  | some state =>
      simp only [run_bind]
      by_cases hkind : state.generation.kind ≠ kind
      · simp [failIf_of hkind, outcome]
      by_cases haddress : state.generation.address ≠ address
      · simp [failIf_of_not hkind, failIf_of haddress, outcome]
      simp only [failIf_of_not hkind, failIf_of_not haddress, run_check_ok, ok_bind]
      exact eraseMapping_eq id state.generation reason (hacc.ended_lt hbelow)

theorem observeAllocation_eq (allocation : AllocationEvent) (hacc : s.tracker.Accounted)
    (hbelow : s.tracker.CountersBelow) :
    observeAllocation event allocation s =
      outcome s (s.tracker.observeAllocation event allocation) := by
  unfold observeAllocation GenerationTracker.observeAllocation
  split
  · exact addAllocation_eq _ hacc hbelow.created
  · simp [outcome]

theorem observeFree_eq (free : FreeEvent) (hacc : s.tracker.Accounted)
    (hbelow : s.tracker.CountersBelow) :
    observeFree event free s = outcome s (s.tracker.observeFree event free) := by
  unfold observeFree GenerationTracker.observeFree
  split
  · exact endAllocation_eq _ _ _ _ hacc hbelow
  · simp [outcome]

theorem endReallocated_eq (reallocation : ReallocationEvent) (hacc : s.tracker.Accounted)
    (hbelow : s.tracker.CountersBelow) :
    endReallocated event reallocation s =
      outcome s (s.tracker.endReallocated event reallocation) := by
  unfold endReallocated GenerationTracker.endReallocated
  split
  · exact endAllocation_eq _ _ _ _ hacc hbelow
  · simp [outcome]

/-- An update writes its mapping twice; the second write is the one that stays. -/
theorem updateMapping_eq (id : ℕ) (state : MappingState) (live : IntervalSet Unit) :
    updateMapping id state live event s =
      outcome s (s.tracker.updateMapping id state live event) := by
  unfold updateMapping GenerationTracker.updateMapping
  by_cases hsize : live.totalBytes ≠ state.generation.size
  · simp only [if_pos hsize]
    simp only [run_bind, modifyTracker, notify, outcome, run_modify, insert_insert]
  · simp only [if_neg hsize]
    simp [run_bind, modifyTracker, outcome]

theorem observeVmUpdate_eq (id : ℕ) (state : MappingState) (base size : ℕ) :
    observeVmUpdate event id state base size s =
      outcome s (s.tracker.observeVmUpdate event id state base size) := by
  unfold observeVmUpdate GenerationTracker.observeVmUpdate
  rw [run_bind]
  by_cases hmatch : state.generation.kind ≠ .virtualAllocation ∨ base < state.generation.address
  · simp [failIf_of hmatch, outcome]
  simp only [failIf_of_not hmatch, run_check_ok, ok_bind]
  cases state.live.find base with
  | none => rfl
  | some fragment =>
      simp only
      split
      · exact updateMapping_eq ..
      · rw [run_bind]
        by_cases hsize : fragment.stop - base < size
        · simp [failIf_of hsize, outcome]
        · simp only [failIf_of_not hsize, run_check_ok, ok_bind]
          exact updateMapping_eq ..

theorem observeVmAllocate_eq (allocation : VmAllocateEvent) (hacc : s.tracker.Accounted)
    (hbelow : s.tracker.CountersBelow) :
    observeVmAllocate event allocation s =
      outcome s (s.tracker.observeVmAllocate event allocation) := by
  unfold observeVmAllocate GenerationTracker.observeVmAllocate
  split
  · simp only [run_bind, run_get]
    generalize (if allocation.mappingBase = 0 then _ else _) = base
    generalize (if allocation.mappingSize = 0 then _ else _) = size
    by_cases hrange : maxU64 - base < size
    · simp [failIf_of hrange, outcome]
    simp only [failIf_of_not hrange, run_check_ok, ok_bind]
    cases s.tracker.liveMappings[allocation.mappingId]? with
    | none => exact addMapping_eq _ hacc hbelow.created
    | some state => exact observeVmUpdate_eq ..
  · simp [outcome]

/-- A ranged free that hits nothing has cut nothing. -/
theorem observeRangedFree_eq (free : VmFreeEvent) (state : MappingState)
    (hstate : s.tracker.liveMappings[free.mappingId]? = some state) (hacc : s.tracker.Accounted)
    (hbelow : s.tracker.CountersBelow) :
    observeRangedFree event free state s =
      outcome s (s.tracker.observeRangedFree event free state) := by
  unfold observeRangedFree GenerationTracker.observeRangedFree
  rw [run_bind]
  by_cases hrange : maxU64 - free.base < free.regionSize
  · simp [failIf_of hrange, outcome]
  simp only [failIf_of_not hrange, run_check_ok, ok_bind, run_bind, modifyTracker, run_modify]
  generalize hcut : state.live.subtract free.base (free.base + free.regionSize) = cut
  obtain ⟨live, removed⟩ := cut
  simp only
  by_cases hmiss : removed = []
  · have hlive : live = state.live := by
      have hfrags : (state.live.subtract free.base (free.base + free.regionSize)).1 = live := by
        rw [hcut]
      have hremoved : clipAll free.base (free.base + free.regionSize) state.live.frags = [] := by
        rw [← IntervalSet.subtract_removed, hcut]
        exact hmiss
      rw [← hfrags]
      exact IntervalSet.ext (by
        rw [IntervalSet.subtract_frags]
        exact cutAll_of_disjoint fun f hf hmeets =>
          clipAll_ne_nil.mpr ⟨f, hf, hmeets⟩ hremoved)
    subst hlive
    simp [failIf_of hmiss, outcome, insert_self _ _ _ hstate]
  simp only [failIf_of_not hmiss, run_check_ok, ok_bind]
  split
  · rw [eraseMapping_eq]
    · simp [GenerationTracker.eraseMapping, outcome, erase_insert,
        checkedIncrement_ok (hacc.ended_lt hbelow)]
    · exact hacc.ended_lt hbelow
  · simp [run_bind, notify, outcome, insert_insert]

theorem observeVmFree_eq (free : VmFreeEvent) (hacc : s.tracker.Accounted)
    (hbelow : s.tracker.CountersBelow) :
    observeVmFree event free s = outcome s (s.tracker.observeVmFree event free) := by
  unfold observeVmFree GenerationTracker.observeVmFree
  split
  · simp only [run_bind, run_get]
    cases hstate : s.tracker.liveMappings[free.mappingId]? with
    | none => exact countOrphanedMappingEnd_eq hbelow
    | some state =>
        simp only
        split
        · rw [run_bind]
          by_cases hbad : state.generation.kind ≠ .virtualAllocation ∨
              free.base ≠ state.generation.address
          · simp [failIf_of hbad, outcome]
          · simp only [failIf_of_not hbad, run_check_ok, ok_bind]
            exact eraseMapping_eq _ _ _ (hacc.ended_lt hbelow)
        · exact observeRangedFree_eq free state hstate hacc hbelow
  · simp [outcome]

theorem observeMap_eq (mapping : MapEvent) (hacc : s.tracker.Accounted)
    (hbelow : s.tracker.CountersBelow) :
    observeMap event mapping s = outcome s (s.tracker.observeMap event mapping) := by
  unfold observeMap GenerationTracker.observeMap
  split
  · rw [run_bind]
    by_cases hrange : maxU64 - mapping.resultBase < mapping.viewSize
    · simp [failIf_of hrange, outcome]
    · simp only [failIf_of_not hrange, run_check_ok, ok_bind]
      exact addMapping_eq _ hacc hbelow.created
  · simp [outcome]

theorem observeUnmap_eq (unmap : UnmapEvent) (hacc : s.tracker.Accounted)
    (hbelow : s.tracker.CountersBelow) :
    observeUnmap event unmap s = outcome s (s.tracker.observeUnmap event unmap) := by
  unfold observeUnmap GenerationTracker.observeUnmap
  split
  · exact endMapping_eq _ _ _ _ hacc hbelow
  · simp [outcome]

end TrackerM

end Noleax.Analyzer
