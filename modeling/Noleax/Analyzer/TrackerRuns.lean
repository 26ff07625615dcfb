import Noleax.Analyzer.TrackerInvariant

/-!
# Runs of the `GenerationTracker`

Events arrive in any order; an exception of one leaves the tracker to the next.
The members are accounted for and the callbacks tell the life of every generation
in every state (`tracker_run_invariant`). A mapping that is live has bytes left as
long as no event names a size of zero (`mapping_bytes_iff`).
-/

namespace Noleax.Analyzer

open Lib Trace

/-! ## Accepted or rejected -/

namespace GenerationTracker

variable {t u : GenerationTracker} {notes : List Notification} {event : Event}

theorem endAllocation_keeps {id address heapId : ℕ} {reason : GenerationEndReason}
    (hrun : t.endAllocation id address heapId reason event = .ok (u, notes)) :
    u.createdCount = t.createdCount ∧ u.seenAllocationIds = t.seenAllocationIds := by
  unfold endAllocation at hrun
  split at hrun
  · obtain ⟨total, -, heq⟩ := bind_eq_ok.mp hrun
    cases heq
    exact ⟨rfl, rfl⟩
  · rw [failIf_bind_eq_ok, failIf_bind_eq_ok] at hrun
    obtain ⟨total, -, heq⟩ := bind_eq_ok.mp hrun.2.2
    cases heq
    exact ⟨rfl, rfl⟩

/-- The end of an old generation neither creates nor sees an id. -/
theorem endReallocated_keeps {reallocation : ReallocationEvent}
    (hrun : t.endReallocated event reallocation = .ok (u, notes)) :
    u.createdCount = t.createdCount ∧ u.seenAllocationIds = t.seenAllocationIds := by
  unfold endReallocated at hrun
  split at hrun
  · exact endAllocation_keeps hrun
  · cases hrun
    exact ⟨rfl, rfl⟩

/-- A new id is accepted while the counter has room. -/
theorem addAllocation_ok (generation : MemoryGeneration) (hacc : t.Accounted)
    (hcreated : t.createdCount < maxU64)
    (hnew : t.requireNewAllocationId generation.allocationId = .ok ()) :
    ∃ result, t.addAllocation generation = .ok result := by
  have hseen : generation.allocationId ∉ t.seenAllocationIds := by
    unfold requireNewAllocationId at hnew
    rw [failIf_bind_eq_ok, failIf_eq_ok] at hnew
    exact hnew.2
  have hlive : generation.allocationId ∉ t.liveAllocations := fun hin =>
    hseen (hacc.allocationsSeen _ hin)
  unfold addAllocation
  rw [hnew, ok_bind, failIf_of_not hlive, ok_bind, checkedIncrement_ok hcreated]
  exact ⟨_, rfl⟩

end GenerationTracker

namespace TrackerM

open GenerationTracker

variable {s : TrackerRun} {event : Event}

theorem observeReallocation_eq (reallocation : ReallocationEvent) (hsound : s.tracker.Sound)
    (hbelow : s.tracker.CountersBelow) :
    observeReallocation event reallocation s =
      outcome s (s.tracker.observeReallocation event reallocation) := by
  have hend : TrackerM.endReallocated event reallocation s =
      outcome s (s.tracker.endReallocated event reallocation) :=
    endReallocated_eq reallocation hsound.toAccounted hbelow
  unfold observeReallocation GenerationTracker.observeReallocation
  split
  · simp only [run_bind, run_get]
    cases hnew : s.tracker.requireNewAllocationId reallocation.newAllocationId with
    | error e => simp [outcome]
    | ok _ =>
        simp only [run_check_ok, ok_bind, hend]
        cases hrun : s.tracker.endReallocated event reallocation with
        | error e => simp [outcome]
        | ok result =>
            obtain ⟨mid, ended⟩ := result
            have hchange : Change (fun _ => True) event s.tracker ended mid := endReallocated_change hrun
            obtain ⟨hcount, hseen⟩ := endReallocated_keeps hrun
            have hacc : mid.Accounted := (hchange.sound hsound).toAccounted
            have hcreated : mid.createdCount < maxU64 := by
              rw [hcount]
              exact hbelow.created
            have hnewMid : mid.requireNewAllocationId reallocation.newAllocationId = .ok () := by
              unfold requireNewAllocationId at hnew ⊢
              rw [hseen]
              exact hnew
            -- so the new generation starts, and no partial reallocation is left behind
            simp only [outcome, ok_bind]
            rw [addAllocation_eq _ hacc hcreated]
            obtain ⟨⟨final, created⟩, hadd⟩ := addAllocation_ok
              { kind := .heapAllocation
                allocationId := reallocation.newAllocationId
                heapId := reallocation.heapId
                heapHandle := reallocation.heapHandle
                address := reallocation.resultAddress
                size := reallocation.requestedSize
                createdBy := event } hacc hcreated hnewMid
            rw [hadd]
            simp [outcome]
  · exact hend

/-- The loop of a heap destroy runs to its end. -/
theorem destroyLoop_eq (heapId : ℕ) (rest : List (ℕ × MemoryGeneration)) {t : GenerationTracker}
    {old notes : List Notification} (hroom : t.endedCount + rest.length ≤ maxU64) :
    ∃ u notes', destroyLoop event heapId rest ⟨t, old ++ notes⟩ = .ok () ⟨u, old ++ notes'⟩ ∧
      rest.foldlM (destroyStep event heapId) (t, notes) = .ok (u, notes') := by
  induction rest generalizing t notes with
  | nil => exact ⟨t, notes, rfl, rfl⟩
  | cons entry rest ih =>
      obtain ⟨id, generation⟩ := entry
      simp only [List.length_cons] at hroom
      unfold destroyLoop
      simp only [List.foldlM_cons, destroyStep]
      by_cases hheap : generation.heapId = heapId
      · have hended : t.endedCount < maxU64 := by omega
        have hstep : t.eraseAllocation id generation .heapDestroyed event =
            .ok ({ t with
              liveAllocations := t.liveAllocations.erase id
              endedCount := t.endedCount + 1 }, [.ended generation .heapDestroyed event]) := by
          unfold GenerationTracker.eraseAllocation
          rw [checkedIncrement_ok hended]
          rfl
        have hrun : TrackerM.eraseAllocation id generation .heapDestroyed event ⟨t, old ++ notes⟩ =
            outcome ⟨t, old ++ notes⟩ (t.eraseAllocation id generation .heapDestroyed event) :=
          eraseAllocation_eq id generation .heapDestroyed hended
        simp only [hheap, ne_eq, not_true_eq_false, if_false, if_true, run_bind, hrun, hstep,
          ok_bind, pure_eq_ok, outcome, List.append_assoc]
        refine ih ?_
        simp only
        omega
      · simp only [hheap, ne_eq, not_false_eq_true, if_false, if_true, ok_bind]
        exact ih (by omega)

theorem observeHeapDestroy_eq (destroy : HeapDestroyEvent) (hacc : s.tracker.Accounted)
    (hbelow : s.tracker.CountersBelow) :
    observeHeapDestroy event destroy s =
      outcome s (s.tracker.observeHeapDestroy event destroy) := by
  rw [observeHeapDestroy_eq_fold]
  unfold observeHeapDestroy
  split
  · rw [run_bind, run_get]
    have hroom : s.tracker.endedCount + s.tracker.liveAllocations.toList.length ≤ maxU64 := by
      rw [Std.ExtTreeMap.length_toList]
      have hcounts := hacc.counts
      have hcreated := hbelow.created
      omega
    obtain ⟨u, notes, hloop, hfold⟩ : ∃ u notes,
        destroyLoop event destroy.heapId s.tracker.liveAllocations.toList ⟨s.tracker, s.notes ++ []⟩ =
          .ok () ⟨u, s.notes ++ notes⟩ ∧
        s.tracker.liveAllocations.toList.foldlM (destroyStep event destroy.heapId)
          (s.tracker, []) = .ok (u, notes) := destroyLoop_eq destroy.heapId _ hroom
    rw [List.append_nil] at hloop
    rw [hfold]
    exact hloop
  · simp [outcome]

/-- While the counters have room, an event that is rejected has changed nothing. -/
theorem observe_eq (hsound : s.tracker.Sound) (hbelow : s.tracker.CountersBelow) :
    TrackerM.observe event s = outcome s (s.tracker.observe event) := by
  have hacc := hsound.toAccounted
  unfold TrackerM.observe GenerationTracker.observe
  rw [run_bind]
  cases validateEvent event with
  | error e => rfl
  | ok _ =>
      simp only [run_check_ok, ok_bind]
      unfold TrackerM.dispatch GenerationTracker.dispatch
      cases event.payload with
      | heapCreate _ => simp [outcome]
      | heapDestroy payload => exact observeHeapDestroy_eq payload hacc hbelow
      | allocation payload => exact observeAllocation_eq payload hacc hbelow
      | reallocation payload => exact observeReallocation_eq payload hsound hbelow
      | free payload => exact observeFree_eq payload hacc hbelow
      | vmAllocate payload => exact observeVmAllocate_eq payload hacc hbelow
      | vmFree payload => exact observeVmFree_eq payload hacc hbelow
      | map payload => exact observeMap_eq payload hacc hbelow
      | unmap payload => exact observeUnmap_eq payload hacc hbelow

end TrackerM

/-! ## Runs -/

namespace TrackerRun

/-- Observe an event; an exception is the caller's to catch. -/
def feed (s : TrackerRun) (event : Event) : TrackerRun :=
  match TrackerM.observe event s with
  | .ok _ next => next
  | .error _ next => next

def feedAll (events : List Event) : TrackerRun := events.foldl feed {}

/-- No counter of the tracker is at its limit when an event comes. -/
def CountersHold (events : List Event) : Prop :=
  ∀ before event after, events = before ++ event :: after →
    (feedAll before).tracker.CountersBelow

theorem feedAll_append_singleton (events : List Event) (event : Event) :
    feedAll (events ++ [event]) = (feedAll events).feed event := by
  simp [feedAll]

variable {events : List Event} {s : TrackerRun} {event : Event}

theorem CountersHold.init (h : CountersHold (events ++ [event])) : CountersHold events :=
  fun before e after heq => h before e (after ++ [event]) (by rw [heq]; simp)

theorem CountersHold.last (h : CountersHold (events ++ [event])) :
    (feedAll events).tracker.CountersBelow := h events event [] rfl

structure Invariant (s : TrackerRun) : Prop where
  sound : s.tracker.Sound
  recorded : s.tracker.Recorded s.notes

theorem feed_ok (hsound : s.tracker.Sound) (hbelow : s.tracker.CountersBelow)
    {t : GenerationTracker} {notes : List Notification}
    (hrun : s.tracker.observe event = .ok (t, notes)) : s.feed event = ⟨t, s.notes ++ notes⟩ := by
  unfold feed
  rw [TrackerM.observe_eq hsound hbelow, hrun]
  rfl

theorem feed_error (hsound : s.tracker.Sound) (hbelow : s.tracker.CountersBelow) {e : Error}
    (hrun : s.tracker.observe event = .error e) : s.feed event = s := by
  unfold feed
  rw [TrackerM.observe_eq hsound hbelow, hrun]
  rfl

theorem Invariant.feed (h : s.Invariant) (hbelow : s.tracker.CountersBelow) (event : Event) :
    (s.feed event).Invariant := by
  cases hrun : s.tracker.observe event with
  | error e =>
      rw [feed_error h.sound hbelow hrun]
      exact h
  | ok result =>
      obtain ⟨t, notes⟩ := result
      have hchange := GenerationTracker.observe_change hrun
      rw [feed_ok h.sound hbelow hrun]
      exact ⟨hchange.sound h.sound, hchange.recorded h.sound h.recorded⟩

theorem feedAll_invariant (hcounters : CountersHold events) : (feedAll events).Invariant := by
  induction events using List.reverseRecOn with
  | nil => exact ⟨GenerationTracker.sound_init, GenerationTracker.recorded_init⟩
  | append_singleton events event ih =>
      rw [feedAll_append_singleton]
      exact (ih hcounters.init).feed hcounters.last event

end TrackerRun

open TrackerRun

/-- In every state of every run: the counts add up, what is live has been seen, a
mapping's size is the bytes of its sorted, disjoint, nonempty fragments, and the
callbacks of a generation are none while its id is unseen, a creation and changes
while it is live, and those with one end once it is not. -/
theorem tracker_run_invariant (events : List Event) (hcounters : CountersHold events) :
    (feedAll events).tracker.createdCount =
      (feedAll events).tracker.endedCount + (feedAll events).tracker.liveCount ∧
    (∀ key, (feedAll events).tracker.Live key → (feedAll events).tracker.Seen key) ∧
    (∀ (id : ℕ) (state : MappingState), (feedAll events).tracker.liveMappings[id]? = some state →
      state.generation.size = state.live.totalBytes ∧ Layout state.live.frags) ∧
    ∀ key,
      (¬ (feedAll events).tracker.Seen key ∧ history (feedAll events).notes key = []) ∨
      ((feedAll events).tracker.Live key ∧ Alive (history (feedAll events).notes key)) ∨
      ((feedAll events).tracker.Seen key ∧ ¬ (feedAll events).tracker.Live key ∧
        Over (history (feedAll events).notes key)) := by
  have h := feedAll_invariant hcounters
  refine ⟨h.sound.counts, fun key => h.sound.seen_of_live, ?_, ?_⟩
  · intro id state hstate
    exact ⟨h.sound.bytes id state hstate, state.live.layout⟩
  · intro key
    by_cases hseen : (feedAll events).tracker.Seen key
    · by_cases hlive : (feedAll events).tracker.Live key
      · exact .inr (.inl ⟨hlive, h.recorded.live key hlive⟩)
      · exact .inr (.inr ⟨hseen, hlive, h.recorded.dead key hseen hlive⟩)
    · exact .inl ⟨hseen, h.recorded.unseen key hseen⟩

/-- A view of two pages, and the release of the first. -/
def mappedView : Event where
  header := { sequence := 1, status := .success }
  payload := .map
    { target := { scope := .currentProcess }
      resultBase := 0x1000
      viewSize := 0x2000
      mappingId := 7 }

def trimmedView : Event where
  header := { sequence := 2, status := .success }
  payload := .vmFree
    { target := { scope := .currentProcess }
      base := 0x1000
      regionSize := 0x1000
      freeType := 0x8000
      mappingId := 7 }

theorem countersHold_trimmed : CountersHold [mappedView, trimmedView] := by
  intro before event after heq
  rcases before with _ | ⟨first, _ | ⟨second, rest⟩⟩
  · exact ⟨by decide, by decide, by decide⟩
  · obtain ⟨rfl, -⟩ := List.cons.inj heq
    exact ⟨by decide +kernel, by decide +kernel, by decide +kernel⟩
  · simp at heq

theorem tracker_run_invariant_trimmed :
    (feedAll [mappedView, trimmedView]).tracker.Live (.mapping 7) ∧
      Alive (history (feedAll [mappedView, trimmedView]).notes (.mapping 7)) := by
  have hlive : 7 ∈ (feedAll [mappedView, trimmedView]).tracker.liveMappings := by decide +kernel
  obtain ⟨-, hseen, -, hhistory⟩ :=
    tracker_run_invariant [mappedView, trimmedView] countersHold_trimmed
  rcases hhistory (.mapping 7) with ⟨hnot, -⟩ | halive | ⟨-, hnot, -⟩
  · exact absurd (hseen (.mapping 7) hlive) hnot
  · exact halive
  · exact absurd hlive hnot

/-! ## Bytes of mappings -/

namespace GenerationTracker

/-- Every live mapping has bytes left. -/
def HasBytes (t : GenerationTracker) : Prop :=
  ∀ (id : ℕ) (state : MappingState), t.liveMappings[id]? = some state →
    0 < state.generation.size ∧ state.live.frags ≠ []

variable {Kept : IntervalSet Unit → Prop} {t u : GenerationTracker} {notes : List Notification}
  {event : Event}

/-- Changes that store nonempty sets of fragments keep every live set nonempty. -/
theorem Change.nonempty (hchange : Change Kept event t notes u)
    (hkept : ∀ live, Kept live → live.frags ≠ [])
    (h : ∀ (id : ℕ) (state : MappingState), t.liveMappings[id]? = some state →
      state.live.frags ≠ []) :
    ∀ (id : ℕ) (state : MappingState), u.liveMappings[id]? = some state →
      state.live.frags ≠ [] := by
  induction hchange with
  | refl t => exact h
  | orphan t allocations mappings => exact h
  | createAllocation t generation _ _ _ => exact h
  | createMapping t state _ _ _ hlive =>
      intro id m hm
      obtain ⟨-, rfl⟩ | ⟨-, hm⟩ := getElem?_insert_cases hm
      · exact hkept _ hlive
      · exact h id m hm
  | endAllocation t id generation _ _ => exact h
  | endMapping t id state _ _ => exact fun k m hm => h k m (getElem?_erase_cases hm).2
  | resize t id state _ live hlive _ _ =>
      intro k m hm
      obtain ⟨-, rfl⟩ | ⟨-, hm⟩ := getElem?_insert_cases hm
      · exact hkept _ hlive
      · exact h k m hm
  | trans _ _ ih ih' => exact ih' (ih h)

theorem Sound.hasBytes (h : t.Sound)
    (hne : ∀ (id : ℕ) (state : MappingState), t.liveMappings[id]? = some state →
      state.live.frags ≠ []) : t.HasBytes := by
  intro id state hstate
  refine ⟨?_, hne id state hstate⟩
  rw [h.bytes id state hstate]
  refine Nat.pos_of_ne_zero fun hzero => hne id state hstate ?_
  exact (totalBytes_eq_zero state.live.layout).mp hzero

theorem hasBytes_observe (h : t.Sound) (hbytes : t.HasBytes)
    (hrun : t.observe event = .ok (u, notes)) (hkeeps : ¬ t.EmptiesMapping event) :
    u.HasBytes := by
  have hchange := observe_change hrun
  refine (hchange.sound h).hasBytes (hchange.nonempty ?_ fun id state hstate => ?_)
  · exact fun live hlive => hlive.resolve_right hkeeps
  · exact (hbytes id state hstate).2

theorem not_hasBytes_of_insert {m : IdMap MappingState} {id : ℕ} {state : MappingState}
    (hu : u.liveMappings = m.insert id state) (hempty : state.live.frags = []) : ¬ u.HasBytes := by
  intro hbytes
  refine (hbytes id state ?_).2 hempty
  rw [hu, Std.ExtTreeMap.getElem?_insert_self]

/-- A new mapping of size zero is accepted. -/
theorem addMapping_empty (h : t.Sound) (hbelow : t.CountersBelow) {state : MappingState}
    (hid : state.generation.mappingId ≠ 0)
    (hnew : state.generation.mappingId ∉ t.seenMappingIds) (hempty : state.live.frags = []) :
    ∃ u notes, t.addMapping state = .ok (u, notes) ∧ ¬ u.HasBytes := by
  have hlive : state.generation.mappingId ∉ t.liveMappings := fun hin =>
    hnew (h.mappingsSeen _ hin)
  unfold addMapping requireNewMappingId
  rw [failIf_of_not hid, ok_bind, failIf_of_not hnew, ok_bind, failIf_of_not hlive, ok_bind,
    checkedIncrement_ok hbelow.created]
  exact ⟨_, _, rfl, not_hasBytes_of_insert rfl hempty⟩

/-- An update that cuts everything is accepted and leaves the mapping live. -/
theorem observeVmUpdate_empty {id base : ℕ} {state : MappingState}
    (hcut : CutsEverything state base) :
    ∃ u notes, t.observeVmUpdate event id state base 0 = .ok (u, notes) ∧ ¬ u.HasBytes := by
  obtain ⟨hkind, haddress, fragment, hfind, rfl, hall⟩ := hcut
  have hfragment := (IntervalSet.find_eq_some.mp hfind).1
  have hempty : (resizeLive state.live fragment fragment.start 0).frags = [] :=
    not_not.mp fun hne => (resizeLive_ne_nil hfragment).mp hne ⟨rfl, hall⟩
  unfold observeVmUpdate
  rw [failIf_of_not (by simp [hkind]; omega), ok_bind, hfind]
  simp only [if_true, updateMapping]
  split
  · exact ⟨_, _, rfl, not_hasBytes_of_insert rfl hempty⟩
  · exact ⟨_, _, rfl, not_hasBytes_of_insert rfl hempty⟩

/-- The condition is exact: an event that empties a mapping is accepted and leaves it
live. -/
theorem observe_empties (h : t.Sound) (hbelow : t.CountersBelow)
    (hempties : t.EmptiesMapping event) :
    ∃ u notes, t.observe event = .ok (u, notes) ∧ ¬ u.HasBytes := by
  obtain ⟨hvalid, hstatus, hpayload⟩ := hempties
  unfold observe
  rw [hvalid, ok_bind]
  unfold dispatch
  cases hkind : event.payload with
  | map mapping =>
      rw [hkind] at hpayload
      obtain ⟨hid, hsize, hnew⟩ := hpayload
      simp only [observeMap, if_pos (And.intro hstatus hid)]
      rw [failIf_of_not (by omega), ok_bind]
      refine addMapping_empty h hbelow hid hnew ?_
      refine not_not.mp fun hne => insert_empty_frags_ne_nil.mp hne hsize
  | vmAllocate allocation =>
      rw [hkind] at hpayload
      obtain ⟨hid, hsize, hrest⟩ := hpayload
      simp only [observeVmAllocate, if_pos (And.intro hstatus hid)]
      change ∃ u notes, (failIf (maxU64 - updateBase allocation < updateSize allocation) _ >>= _) =
        Except.ok (u, notes) ∧ _
      rw [failIf_of_not (by omega), ok_bind]
      cases hstate : t.liveMappings[allocation.mappingId]? with
      | none =>
          simp only [hstate] at hrest
          refine addMapping_empty h hbelow hid hrest ?_
          refine not_not.mp fun hne => insert_empty_frags_ne_nil.mp hne hsize
      | some state =>
          simp only [hstate] at hrest
          have hupdate : ∃ u notes, t.observeVmUpdate event allocation.mappingId state
              (updateBase allocation) 0 = .ok (u, notes) ∧ ¬ u.HasBytes :=
            observeVmUpdate_empty hrest
          rw [← hsize] at hupdate
          exact hupdate
  | _ => rw [hkind] at hpayload; exact hpayload.elim

end GenerationTracker

open GenerationTracker

theorem hasBytes_feed {s : TrackerRun} (h : s.Invariant) (hbelow : s.tracker.CountersBelow)
    (hbytes : s.tracker.HasBytes) (event : Event) :
    (s.feed event).tracker.HasBytes ↔ ¬ s.tracker.EmptiesMapping event := by
  constructor
  · intro hnext hempties
    obtain ⟨u, notes, hrun, hbroken⟩ := observe_empties h.sound hbelow hempties
    rw [feed_ok h.sound hbelow hrun] at hnext
    exact hbroken hnext
  · intro hkeeps
    cases hrun : s.tracker.observe event with
    | error e => rwa [feed_error h.sound hbelow hrun]
    | ok result =>
        rw [feed_ok h.sound hbelow hrun]
        exact hasBytes_observe h.sound hbytes hrun hkeeps

/-- Live mappings have bytes in every state of a run exactly when no event of it
names a size of zero for a new mapping, or for everything a live one has left. -/
theorem mapping_bytes_iff (events : List Event) (hcounters : CountersHold events) :
    (∀ before after, events = before ++ after → (feedAll before).tracker.HasBytes) ↔
      ∀ before event after, events = before ++ event :: after →
        ¬ (feedAll before).tracker.EmptiesMapping event := by
  constructor
  · intro hbytes before event after heq
    have hbelow := hcounters before event after heq
    have hinit : CountersHold before := fun b e a hb => hcounters b e (a ++ event :: after) (by
      rw [heq, hb]
      simp)
    have hnow := hbytes before (event :: after) heq
    have hnext := hbytes (before ++ [event]) after (by rw [heq]; simp)
    rw [feedAll_append_singleton] at hnext
    exact (hasBytes_feed (feedAll_invariant hinit) hbelow hnow event).mp hnext
  · intro hkeeps before
    induction before using List.reverseRecOn with
    | nil =>
        intro after _ id state hstate
        simp [feedAll] at hstate
    | append_singleton before event ih =>
        intro after heq
        have heq : events = before ++ event :: after := by rw [heq]; simp
        have hinit : CountersHold before := fun b e a hb => hcounters b e (a ++ event :: after) (by
          rw [heq, hb]
          simp)
        rw [feedAll_append_singleton]
        exact (hasBytes_feed (feedAll_invariant hinit) (hcounters before event after heq)
          (ih (event :: after) heq) event).mpr (hkeeps before event after heq)

theorem mapping_bytes_iff_trimmed :
    (feedAll []).tracker.HasBytes ∧ (feedAll [mappedView]).tracker.HasBytes ∧
      (feedAll [mappedView, trimmedView]).tracker.HasBytes := by
  have hbytes := (mapping_bytes_iff [mappedView, trimmedView] countersHold_trimmed).mpr (by
    intro before event after heq
    rcases before with _ | ⟨first, _ | ⟨second, rest⟩⟩
    · obtain ⟨rfl, -⟩ := List.cons.inj heq
      simp [EmptiesMapping, mappedView]
    · simp only [List.cons_append, List.nil_append, List.cons.injEq] at heq
      obtain ⟨-, rfl, -⟩ := heq
      simp [EmptiesMapping, trimmedView]
    · simp at heq)
  exact ⟨hbytes [] _ rfl, hbytes [mappedView] _ rfl, hbytes [mappedView, trimmedView] [] rfl⟩

/-- A reservation that names no size. -/
def emptyReservation : Event where
  header := { sequence := 1, status := .success }
  payload := .vmAllocate
    { target := { scope := .currentProcess }
      resultBase := 0x1000
      mappingId := 7 }

/-- The valid event starts a generation of no bytes, which is live. -/
theorem emptyReservation_live :
    validateEvent emptyReservation = .ok () ∧
      ∃ state, (feedAll [emptyReservation]).tracker.liveMappings[7]? = some state ∧
        state.generation.size = 0 ∧ state.live.frags = [] ∧
        (feedAll [emptyReservation]).notes = [.created state.generation] :=
  ⟨rfl, _, rfl, rfl, rfl, rfl⟩

end Noleax.Analyzer
