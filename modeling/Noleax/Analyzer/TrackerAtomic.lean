import Noleax.Analyzer.TrackerRuns

/-!
# A rejected event leaves the tracker alone

`observe` writes its members one after the other and throws wherever a check fails.
The counters only grow, so a counter with room now had room at every earlier event of
the run, and each of those left a sound tracker behind, whether it threw or not.
-/

namespace Noleax.Analyzer

open Lib Trace

/-- The counters of `s` have reached those of `t`. -/
structure CountersReach (t : GenerationTracker) (s : TrackerRun) : Prop where
  created : t.createdCount ≤ s.tracker.createdCount
  orphanedAllocations :
    t.orphanedAllocationEndCount ≤ s.tracker.orphanedAllocationEndCount
  orphanedMappings : t.orphanedMappingEndCount ≤ s.tracker.orphanedMappingEndCount

theorem CountersReach.refl (s : TrackerRun) : CountersReach s.tracker s :=
  ⟨le_refl _, le_refl _, le_refl _⟩

theorem CountersReach.below {t : GenerationTracker} {s : TrackerRun} (h : CountersReach t s)
    (hbelow : s.tracker.CountersBelow) : t.CountersBelow where
  created := lt_of_le_of_lt h.created hbelow.created
  orphanedAllocations := lt_of_le_of_lt h.orphanedAllocations hbelow.orphanedAllocations
  orphanedMappings := lt_of_le_of_lt h.orphanedMappings hbelow.orphanedMappings

/-! ## The counters only grow -/

namespace TrackerM

variable {t : GenerationTracker} {event : Event}

theorem keeps_notify (note : Notification) : Keeps (CountersReach t) (notify note) :=
  keeps_modify fun _ h => ⟨h.created, h.orphanedAllocations, h.orphanedMappings⟩

/-- A write to the maps and the seen ids alone. -/
theorem keeps_modifyTracker {f : GenerationTracker → GenerationTracker}
    (hkept : ∀ u, (f u).createdCount = u.createdCount ∧
      (f u).orphanedAllocationEndCount = u.orphanedAllocationEndCount ∧
      (f u).orphanedMappingEndCount = u.orphanedMappingEndCount) :
    Keeps (CountersReach t) (modifyTracker f) := by
  apply keeps_modify
  intro s h
  obtain ⟨hcreated, hallocations, hmappings⟩ := hkept s.tracker
  constructor
  · show t.createdCount ≤ (f s.tracker).createdCount
    rw [hcreated]
    exact h.created
  · show t.orphanedAllocationEndCount ≤ (f s.tracker).orphanedAllocationEndCount
    rw [hallocations]
    exact h.orphanedAllocations
  · show t.orphanedMappingEndCount ≤ (f s.tracker).orphanedMappingEndCount
    rw [hmappings]
    exact h.orphanedMappings

/-- A checked counter is read, counted up and written back. -/
theorem keeps_count {read : GenerationTracker → ℕ} {write : ℕ → GenerationTracker → GenerationTracker}
    {subject : String}
    (hwrite : ∀ s, CountersReach t s → CountersReach t
      { s with tracker := write (read s.tracker + 1) s.tracker }) :
    Keeps (CountersReach t) (do
      let total ← check (checkedIncrement (read (← get).tracker) subject)
      modifyTracker (write total)) := by
  intro s h
  unfold exitState
  simp only [run_bind, run_get, checkedIncrement]
  by_cases hfull : read s.tracker = maxU64
  · simp only [hfull, if_true, run_check_error]
    exact h
  · simp only [hfull, if_false, run_check_ok]
    exact hwrite s h

theorem keeps_countCreated : Keeps (CountersReach t) countCreated :=
  keeps_count fun _ h =>
    ⟨Nat.le_succ_of_le h.created, h.orphanedAllocations, h.orphanedMappings⟩

theorem keeps_countEnded : Keeps (CountersReach t) countEnded :=
  keeps_count fun _ h => ⟨h.created, h.orphanedAllocations, h.orphanedMappings⟩

theorem keeps_countOrphanedAllocationEnd :
    Keeps (CountersReach t) countOrphanedAllocationEnd :=
  keeps_count fun _ h =>
    ⟨h.created, Nat.le_succ_of_le h.orphanedAllocations, h.orphanedMappings⟩

theorem keeps_countOrphanedMappingEnd : Keeps (CountersReach t) countOrphanedMappingEnd :=
  keeps_count fun _ h =>
    ⟨h.created, h.orphanedAllocations, Nat.le_succ_of_le h.orphanedMappings⟩

theorem keeps_addAllocation (generation : MemoryGeneration) :
    Keeps (CountersReach t) (addAllocation generation) := by
  apply keeps_get_bind
  intro s _
  refine (keeps_check _).bind fun _ => ?_
  refine (keeps_modifyTracker (by intro _; exact ⟨rfl, rfl, rfl⟩)).bind fun _ => ?_
  apply keeps_get_bind
  intro s _
  refine (keeps_check _).bind fun _ => ?_
  refine (keeps_modifyTracker (by intro _; exact ⟨rfl, rfl, rfl⟩)).bind fun _ => ?_
  exact keeps_countCreated.bind fun _ => keeps_notify _

theorem keeps_addMapping (state : MappingState) :
    Keeps (CountersReach t) (addMapping state) := by
  apply keeps_get_bind
  intro s _
  refine (keeps_check _).bind fun _ => ?_
  refine (keeps_modifyTracker (by intro _; exact ⟨rfl, rfl, rfl⟩)).bind fun _ => ?_
  apply keeps_get_bind
  intro s _
  refine (keeps_check _).bind fun _ => ?_
  refine (keeps_modifyTracker (by intro _; exact ⟨rfl, rfl, rfl⟩)).bind fun _ => ?_
  exact keeps_countCreated.bind fun _ => keeps_notify _

theorem keeps_eraseAllocation (id : ℕ) (generation : MemoryGeneration)
    (reason : GenerationEndReason) :
    Keeps (CountersReach t) (eraseAllocation id generation reason event) := by
  refine (keeps_notify _).bind fun _ => keeps_countEnded.bind fun _ => ?_
  exact keeps_modifyTracker (by intro _; exact ⟨rfl, rfl, rfl⟩)

theorem keeps_eraseMapping (id : ℕ) (generation : MemoryGeneration)
    (reason : GenerationEndReason) :
    Keeps (CountersReach t) (eraseMapping id generation reason event) := by
  refine (keeps_notify _).bind fun _ => keeps_countEnded.bind fun _ => ?_
  exact keeps_modifyTracker (by intro _; exact ⟨rfl, rfl, rfl⟩)

theorem keeps_endAllocation (id address heapId : ℕ) (reason : GenerationEndReason) :
    Keeps (CountersReach t) (endAllocation id address heapId reason event) := by
  apply keeps_get_bind
  intro s _
  cases s.tracker.liveAllocations[id]? with
  | none => exact keeps_countOrphanedAllocationEnd
  | some generation =>
      refine (keeps_check _).bind fun _ => (keeps_check _).bind fun _ => ?_
      exact keeps_eraseAllocation id generation reason

theorem keeps_endMapping (id address : ℕ) (kind : GenerationKind) (reason : GenerationEndReason) :
    Keeps (CountersReach t) (endMapping id address kind reason event) := by
  apply keeps_get_bind
  intro s _
  cases s.tracker.liveMappings[id]? with
  | none => exact keeps_countOrphanedMappingEnd
  | some state =>
      refine (keeps_check _).bind fun _ => (keeps_check _).bind fun _ => ?_
      exact keeps_eraseMapping id state.generation reason

theorem keeps_observeAllocation (allocation : AllocationEvent) :
    Keeps (CountersReach t) (observeAllocation event allocation) :=
  keeps_ite (fun _ => keeps_addAllocation _) fun _ => keeps_pure ()

theorem keeps_endReallocated (reallocation : ReallocationEvent) :
    Keeps (CountersReach t) (endReallocated event reallocation) :=
  keeps_ite (fun _ => keeps_endAllocation _ _ _ _) fun _ => keeps_pure ()

theorem keeps_observeReallocation (reallocation : ReallocationEvent) :
    Keeps (CountersReach t) (observeReallocation event reallocation) := by
  apply keeps_ite
  · intro _
    apply keeps_get_bind
    intro s _
    refine (keeps_check _).bind fun _ => ?_
    exact (keeps_endReallocated reallocation).bind fun _ => keeps_addAllocation _
  · intro _
    exact keeps_endReallocated reallocation

theorem keeps_observeFree (free : FreeEvent) :
    Keeps (CountersReach t) (observeFree event free) :=
  keeps_ite (fun _ => keeps_endAllocation _ _ _ _) fun _ => keeps_pure ()

theorem keeps_destroyLoop (heapId : ℕ) (entries : List (ℕ × MemoryGeneration)) :
    Keeps (CountersReach t) (destroyLoop event heapId entries) := by
  induction entries with
  | nil => exact keeps_pure ()
  | cons entry rest ih =>
      obtain ⟨id, generation⟩ := entry
      unfold destroyLoop
      split
      · exact (keeps_eraseAllocation id generation .heapDestroyed).bind fun _ => ih
      · exact ih

theorem keeps_observeHeapDestroy (destroy : HeapDestroyEvent) :
    Keeps (CountersReach t) (observeHeapDestroy event destroy) := by
  apply keeps_ite
  · intro _
    apply keeps_get_bind
    intro s _
    exact keeps_destroyLoop destroy.heapId _
  · intro _
    exact keeps_pure ()

theorem keeps_updateMapping (id : ℕ) (state : MappingState) (live : IntervalSet Unit) :
    Keeps (CountersReach t) (updateMapping id state live event) := by
  refine (keeps_modifyTracker (by intro _; exact ⟨rfl, rfl, rfl⟩)).bind fun _ => ?_
  apply keeps_ite
  · intro _
    refine (keeps_modifyTracker (by intro _; exact ⟨rfl, rfl, rfl⟩)).bind fun _ => ?_
    exact keeps_notify _
  · intro _
    exact keeps_pure ()

theorem keeps_observeVmUpdate (id : ℕ) (state : MappingState) (base size : ℕ) :
    Keeps (CountersReach t) (observeVmUpdate event id state base size) := by
  refine (keeps_check _).bind fun _ => ?_
  cases state.live.find base with
  | none => exact keeps_throw _
  | some fragment =>
      apply keeps_ite
      · intro _
        exact keeps_updateMapping _ _ _
      · intro _
        exact (keeps_check _).bind fun _ => keeps_updateMapping _ _ _

theorem keeps_observeVmAllocate (allocation : VmAllocateEvent) :
    Keeps (CountersReach t) (observeVmAllocate event allocation) := by
  apply keeps_ite
  · intro _
    refine (keeps_check _).bind fun _ => ?_
    apply keeps_get_bind
    intro s _
    cases s.tracker.liveMappings[allocation.mappingId]? with
    | none => exact keeps_addMapping _
    | some state => exact keeps_observeVmUpdate _ _ _ _
  · intro _
    exact keeps_pure ()

theorem keeps_observeRangedFree (free : VmFreeEvent) (state : MappingState) :
    Keeps (CountersReach t) (observeRangedFree event free state) := by
  refine (keeps_check _).bind fun _ => ?_
  refine (keeps_modifyTracker (by intro _; exact ⟨rfl, rfl, rfl⟩)).bind fun _ => ?_
  refine (keeps_check _).bind fun _ => ?_
  apply keeps_ite
  · intro _
    exact keeps_eraseMapping _ _ _
  · intro _
    refine (keeps_modifyTracker (by intro _; exact ⟨rfl, rfl, rfl⟩)).bind fun _ => ?_
    exact keeps_notify _

theorem keeps_observeVmFree (free : VmFreeEvent) :
    Keeps (CountersReach t) (observeVmFree event free) := by
  apply keeps_ite
  · intro _
    apply keeps_get_bind
    intro s _
    cases s.tracker.liveMappings[free.mappingId]? with
    | none => exact keeps_countOrphanedMappingEnd
    | some state =>
        apply keeps_ite
        · intro _
          exact (keeps_check _).bind fun _ => keeps_eraseMapping _ _ _
        · intro _
          exact keeps_observeRangedFree free state
  · intro _
    exact keeps_pure ()

theorem keeps_observeMap (mapping : MapEvent) :
    Keeps (CountersReach t) (observeMap event mapping) := by
  apply keeps_ite
  · intro _
    exact (keeps_check _).bind fun _ => keeps_addMapping _
  · intro _
    exact keeps_pure ()

theorem keeps_observeUnmap (unmap : UnmapEvent) :
    Keeps (CountersReach t) (observeUnmap event unmap) :=
  keeps_ite (fun _ => keeps_endMapping _ _ _ _) fun _ => keeps_pure ()

theorem keeps_observe : Keeps (CountersReach t) (TrackerM.observe event) := by
  refine (keeps_check _).bind fun _ => ?_
  unfold dispatch
  cases event.payload with
  | heapCreate _ => exact keeps_pure ()
  | heapDestroy payload => exact keeps_observeHeapDestroy payload
  | allocation payload => exact keeps_observeAllocation payload
  | reallocation payload => exact keeps_observeReallocation payload
  | free payload => exact keeps_observeFree payload
  | vmAllocate payload => exact keeps_observeVmAllocate payload
  | vmFree payload => exact keeps_observeVmFree payload
  | map payload => exact keeps_observeMap payload
  | unmap payload => exact keeps_observeUnmap payload

end TrackerM

/-! ## Runs -/

namespace TrackerRun

variable {events : List Event}

theorem feed_eq_exitState (s : TrackerRun) (event : Event) :
    s.feed event = exitState (TrackerM.observe event) s := by
  unfold feed exitState
  cases TrackerM.observe event s <;> rfl

/-- Room at the end of a run is room in every state before. -/
theorem feedAll_reach (before after : List Event) :
    CountersReach (feedAll before).tracker (feedAll (before ++ after)) := by
  induction after using List.reverseRecOn with
  | nil =>
      rw [List.append_nil]
      exact .refl _
  | append_singleton after event ih =>
      rw [← List.append_assoc, feedAll_append_singleton, feed_eq_exitState]
      exact TrackerM.keeps_observe _ ih

theorem countersHold_of_below (hbelow : (feedAll events).tracker.CountersBelow) :
    CountersHold events := by
  intro before event after heq
  have hreach := feedAll_reach before (event :: after)
  rw [← heq] at hreach
  exact hreach.below hbelow

end TrackerRun

open TrackerRun

/-- Whatever came before, accepted or rejected: an event that `observe` throws on has
changed no member of the tracker, and no callback was called for it. -/
theorem observe_atomic (events : List Event) (event : Event)
    (hbelow : (feedAll events).tracker.CountersBelow) {e : Error} {next : TrackerRun}
    (hthrow : TrackerM.observe event (feedAll events) = .error e next) :
    next = feedAll events := by
  have hsound := (feedAll_invariant (countersHold_of_below hbelow)).sound
  rw [TrackerM.observe_eq hsound hbelow] at hthrow
  cases hrun : (feedAll events).tracker.observe event with
  | ok result =>
      rw [hrun] at hthrow
      cases hthrow
  | error _ =>
      rw [hrun] at hthrow
      cases hthrow
      rfl

/-- The second release of the same page finds no fragment; the cut that was written
before the check shows nowhere. -/
theorem observe_atomic_released_twice :
    ∃ e, TrackerM.observe trimmedView (feedAll [mappedView, trimmedView]) =
      .error e (feedAll [mappedView, trimmedView]) := by
  cases hrun : TrackerM.observe trimmedView (feedAll [mappedView, trimmedView]) with
  | ok _ next =>
      have hthrows : EStateM.Result.rec (motive := fun _ => Bool) (fun _ _ => false)
          (fun _ _ => true) (TrackerM.observe trimmedView (feedAll [mappedView, trimmedView])) =
            true := by
        decide +kernel
      rw [hrun] at hthrows
      cases hthrows
  | error e next =>
      have hnext : next = feedAll [mappedView, trimmedView] :=
        observe_atomic [mappedView, trimmedView] trimmedView
          ⟨by decide +kernel, by decide +kernel, by decide +kernel⟩ hrun
      exact ⟨e, by rw [hnext]⟩

end Noleax.Analyzer
