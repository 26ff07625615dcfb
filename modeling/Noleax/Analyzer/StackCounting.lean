import Noleax.Analyzer.StackTotals
import Noleax.Analyzer.StreamEvents
import Noleax.Analyzer.TrackerRuns
import Noleax.Trace.FileRoundTrip

/-!
# Stack groups are exact (`src/analyzer/stacks.cpp`)

The collector keeps, event by event, what the events so far must leave in its groups; so that
`analyze_event_stacks` returns it, for every accepted trace.
-/

namespace Noleax.Analyzer

open Lib Trace

/-! ## One more event -/

section Snoc

variable {chosen : Event → Prop} [DecidablePred chosen] {history : List Observation}
  {o : Observation} {id : ℕ}

theorem filter_snoc {p : Observation → Prop} [DecidablePred p] (h : p o) :
    (history ++ [o]).filter (fun o => p o) = history.filter (fun o => p o) ++ [o] := by
  rw [List.filter_append, List.filter_singleton, decide_eq_true h]
  rfl

theorem filter_snoc_not {p : Observation → Prop} [DecidablePred p] (h : ¬p o) :
    (history ++ [o]).filter (fun o => p o) = history.filter (fun o => p o) := by
  rw [List.filter_append, List.filter_singleton, decide_eq_false h]
  exact List.append_nil _

theorem requestedBytes_snoc : requestedBytes (history ++ [o]) =
    requestedBytes history + (eventRequestedSize o.event.payload).getD 0 := by
  simp [requestedBytes]

theorem endedBytes_snoc : endedBytes (history ++ [o]) = endedBytes history +
    ((endedGenerations o.notes).map MemoryGeneration.size).sum := by
  simp [endedBytes]

theorem not_free_of_allocation (h : IsAllocation o) : ¬IsFree o := by
  intro hfree
  rcases h with h | h
  · exact nomatch h.symm.trans hfree
  · exact nomatch h.symm.trans hfree

theorem increment_eq {value : ℕ} (h : value < maxU64) : increment value = value + 1 := by
  have hmax : maxU64 = 2 ^ 64 - 1 := rfl
  exact Nat.mod_eq_of_lt (by omega)

theorem checkedAddBytes_eq {total value : ℕ} {subject : String} (h : total + value ≤ maxU64) :
    checkedAddBytes total value subject = .ok (total + value) := by
  unfold checkedAddBytes
  rw [if_neg (by omega)]
  rfl

namespace EventsStacksGroup

variable {group : EventsStacksGroup}

theorem exact_empty (stackId : ℕ) (sample : Event) :
    Exact [] { stackId := stackId, sampleEvent := sample } :=
  ⟨rfl, rfl, rfl, rfl, rfl, rfl⟩

theorem Exact.noteApi (h : group.Exact history) (apiId : ℕ) :
    (group.noteApi apiId).Exact history := by
  unfold EventsStacksGroup.noteApi
  split
  · exact h
  · exact ⟨h.calls, h.allocCalls, h.allocBytes, h.freeCalls, h.freeBytes, h.split⟩

theorem Exact.allocation (h : group.Exact history) (ho : IsAllocation o)
    (hroom : history.length < maxU64) {size : ℕ}
    (hsize : eventRequestedSize o.event.payload = some size) :
    Exact (history ++ [o]) { group with
      allocCalls := increment group.allocCalls
      calls := increment group.calls
      allocBytes := group.allocBytes + size } := by
  have hallocations : allocations (history ++ [o]) = allocations history ++ [o] := filter_snoc ho
  have hfrees : frees (history ++ [o]) = frees history :=
    filter_snoc_not (not_free_of_allocation ho)
  have hsplit := h.split
  have hcalls : increment group.calls = group.calls + 1 := increment_eq (by rw [h.calls]; exact hroom)
  have hallocCalls : increment group.allocCalls = group.allocCalls + 1 :=
    increment_eq (by rw [h.calls] at hsplit; omega)
  constructor
  · show increment group.calls = _
    rw [hcalls, h.calls, List.length_append, List.length_singleton]
  · show increment group.allocCalls = _
    rw [hallocCalls, h.allocCalls, hallocations, List.length_append, List.length_singleton]
  · show group.allocBytes + size = _
    rw [h.allocBytes, hallocations, requestedBytes_snoc, hsize]
    rfl
  · rw [hfrees]
    exact h.freeCalls
  · rw [hfrees]
    exact h.freeBytes
  · show increment group.calls = increment group.allocCalls + group.freeCalls
    omega

theorem Exact.free (h : group.Exact history) (ho : IsFree o) (hroom : history.length < maxU64)
    {size : ℕ} (hsize : ((endedGenerations o.notes).map MemoryGeneration.size).sum = size) :
    Exact (history ++ [o]) { group with
      freeCalls := increment group.freeCalls
      calls := increment group.calls
      freeBytes := group.freeBytes + size } := by
  have hallocations : allocations (history ++ [o]) = allocations history :=
    filter_snoc_not fun hallocation => not_free_of_allocation hallocation ho
  have hfrees : frees (history ++ [o]) = frees history ++ [o] := filter_snoc ho
  have hsplit := h.split
  have hcalls : increment group.calls = group.calls + 1 := increment_eq (by rw [h.calls]; exact hroom)
  have hfreeCalls : increment group.freeCalls = group.freeCalls + 1 :=
    increment_eq (by rw [h.calls] at hsplit; omega)
  constructor
  · show increment group.calls = _
    rw [hcalls, h.calls, List.length_append, List.length_singleton]
  · rw [hallocations]
    exact h.allocCalls
  · rw [hallocations]
    exact h.allocBytes
  · show increment group.freeCalls = _
    rw [hfreeCalls, h.freeCalls, hfrees, List.length_append, List.length_singleton]
  · show group.freeBytes + size = _
    rw [h.freeBytes, hfrees, endedBytes_snoc, hsize]
  · show increment group.calls = group.allocCalls + increment group.freeCalls
    omega

end EventsStacksGroup

end Snoc

/-! ## The collector -/

/-- The collector holds what the events must leave in it. -/
structure Tallied (chosen : Event → Prop) [DecidablePred chosen] (history : List Observation)
    (collector : EventsStacksCollector) : Prop where
  aggregated : collector.aggregatedEventCount = (counted chosen history).length
  unmatched : collector.unmatchedFreeCount = (unmatched (counted chosen history)).length
  groups : ∀ (id : ℕ) (group : EventsStacksGroup), collector.groups[id]? = some group →
    group.stackId = id ∧ ofStack id (counted chosen history) ≠ [] ∧
      group.Exact (ofStack id (counted chosen history))
  complete : ∀ o ∈ counted chosen history, o.event.header.stackId ∈ collector.groups

namespace Tallied

variable {chosen : Event → Prop} [DecidablePred chosen] {history : List Observation}
  {o : Observation} {collector : EventsStacksCollector}

theorem init : Tallied chosen [] {} where
  aggregated := rfl
  unmatched := rfl
  groups := by
    intro id group hgroup
    simp at hgroup
  complete := List.forall_mem_nil _

theorem skip (h : Tallied chosen history collector) (ho : ¬Counts chosen o) :
    Tallied chosen (history ++ [o]) collector := by
  have hcounted : counted chosen (history ++ [o]) = counted chosen history := filter_snoc_not ho
  constructor
  · rw [hcounted]
    exact h.aggregated
  · rw [hcounted]
    exact h.unmatched
  · rw [hcounted]
    exact h.groups
  · rw [hcounted]
    exact h.complete

/-- The group of a stack holds what came before. -/
abbrev GroupOf (chosen : Event → Prop) [DecidablePred chosen] (history : List Observation)
    (id : ℕ) (group : EventsStacksGroup) : Prop :=
  group.stackId = id ∧ group.Exact (ofStack id (counted chosen history))

theorem groupFor (h : Tallied chosen history collector) (event : Event) :
    GroupOf chosen history event.header.stackId (collector.groupFor event) := by
  unfold EventsStacksCollector.groupFor
  split
  · rename_i hnone
    refine ⟨rfl, ?_⟩
    have hnothing : ofStack event.header.stackId (counted chosen history) = [] := by
      refine List.filter_eq_nil_iff.mpr ?_
      intro o ho hsame
      have hmem := h.complete o ho
      rw [of_decide_eq_true hsame, Std.ExtTreeMap.mem_iff_isSome_getElem?, hnone] at hmem
      cases hmem
    rw [hnothing]
    exact EventsStacksGroup.exact_empty _ _
  · rename_i group hsome
    obtain ⟨hid, hne, hexact⟩ := h.groups _ group hsome
    rw [if_neg ?_]
    · exact ⟨hid, hexact⟩
    · rw [hexact.calls]
      exact fun hzero => hne (List.length_eq_zero_iff.mp hzero)

theorem noted (h : Tallied chosen history collector) (event : Event) :
    GroupOf chosen history event.header.stackId
      ((collector.groupFor event).noteApi event.header.apiId) := by
  obtain ⟨hid, hexact⟩ := h.groupFor event
  refine ⟨?_, hexact.noteApi _⟩
  unfold EventsStacksGroup.noteApi
  split <;> exact hid

theorem counted_length_le : (counted chosen history).length ≤ history.length :=
  List.length_filter_le _ _

theorem ofStack_length_le (id : ℕ) :
    (ofStack id (counted chosen history)).length ≤ history.length :=
  Nat.le_trans (List.length_filter_le _ _) counted_length_le

/-- A group with one event more is stored. -/
theorem store (h : Tallied chosen history collector) (ho : Counts chosen o)
    (hroom : history.length < maxU64) {group : EventsStacksGroup} {unmatchedCount : ℕ}
    (hid : group.stackId = o.event.header.stackId)
    (hexact : group.Exact (ofStack o.event.header.stackId (counted chosen history) ++ [o]))
    (hunmatched : unmatchedCount =
      (Analyzer.unmatched (counted chosen (history ++ [o]))).length) :
    Tallied chosen (history ++ [o])
      { collector.store o.event group with unmatchedFreeCount := unmatchedCount } := by
  have hcounted : counted chosen (history ++ [o]) = counted chosen history ++ [o] := filter_snoc ho
  have hsame : ofStack o.event.header.stackId (counted chosen history ++ [o]) =
      ofStack o.event.header.stackId (counted chosen history) ++ [o] := filter_snoc rfl
  constructor
  · show increment collector.aggregatedEventCount = _
    rw [h.aggregated, increment_eq (Nat.lt_of_le_of_lt counted_length_le hroom), hcounted,
      List.length_append, List.length_singleton]
  · exact hunmatched
  · intro id stored hstored
    rw [hcounted]
    obtain ⟨rfl, rfl⟩ | ⟨hother, hold⟩ := getElem?_insert_cases hstored
    · rw [hsame]
      exact ⟨hid, by simp, hexact⟩
    · have hleft : ofStack id (counted chosen history ++ [o]) =
          ofStack id (counted chosen history) := filter_snoc_not hother
      rw [hleft]
      exact h.groups id stored hold
  · intro other hmem
    rw [hcounted] at hmem
    refine mem_insert_iff.mpr ?_
    rcases List.mem_append.mp hmem with hold | hnew
    · exact .inr (h.complete other hold)
    · rw [List.mem_singleton.mp hnew]
      exact .inl rfl

theorem unmatched_snoc_not {events : List Observation}
    (ho : ¬(IsFree o ∧ endedGenerations o.notes = [])) :
    Analyzer.unmatched (events ++ [o]) = Analyzer.unmatched events := by
  unfold Analyzer.unmatched
  by_cases hfree : IsFree o
  · rw [show frees (events ++ [o]) = frees events ++ [o] from filter_snoc hfree]
    exact filter_snoc_not fun hnone => ho ⟨hfree, hnone⟩
  · rw [show frees (events ++ [o]) = frees events from filter_snoc_not hfree]

theorem unmatched_snoc {events : List Observation} (hfree : IsFree o)
    (hnone : endedGenerations o.notes = []) :
    Analyzer.unmatched (events ++ [o]) = Analyzer.unmatched events ++ [o] := by
  unfold Analyzer.unmatched
  rw [show frees (events ++ [o]) = frees events ++ [o] from filter_snoc hfree]
  exact filter_snoc hnone

/-- A collector that counted the last event, and is otherwise as before. -/
abbrev Counted (chosen : Event → Prop) [DecidablePred chosen] (history : List Observation)
    (collector next : EventsStacksCollector) : Prop :=
  next.fileHeader = collector.fileHeader ∧ next.tracker = collector.tracker ∧
    Tallied chosen history next

/-- An allocation is counted in the group of its stack. -/
theorem countAllocation (h : Tallied chosen history collector) (ho : Counts chosen o)
    (hallocation : IsAllocation o) (hroom : history.length < maxU64) {size : ℕ}
    (hsize : eventRequestedSize o.event.payload = some size)
    (hbytes : BytesFit (counted chosen (history ++ [o]))) :
    ∃ next, collector.countAllocation o.event size = .ok next ∧
      Counted chosen (history ++ [o]) collector next := by
  have hcounted : counted chosen (history ++ [o]) = counted chosen history ++ [o] := filter_snoc ho
  have hstack : ofStack o.event.header.stackId (counted chosen history ++ [o]) =
      ofStack o.event.header.stackId (counted chosen history) ++ [o] := filter_snoc rfl
  obtain ⟨hid, hexact⟩ := h.noted o.event
  unfold EventsStacksCollector.countAllocation
  dsimp only
  generalize (collector.groupFor o.event).noteApi o.event.header.apiId = group at hid hexact ⊢
  have hgrown := hexact.allocation hallocation
    (Nat.lt_of_le_of_lt (ofStack_length_le _) hroom) hsize
  have hfits : group.allocBytes + size < 2 ^ 64 := by
    have hbelow := (hbytes o.event.header.stackId).1
    rw [hcounted, hstack, ← hgrown.allocBytes] at hbelow
    exact hbelow
  rw [checkedAddBytes_eq (Nat.le_sub_one_of_lt hfits)]
  refine ⟨_, rfl, rfl, rfl, h.store ho hroom hid hgrown ?_⟩
  rw [hcounted, unmatched_snoc_not fun hfree => not_free_of_allocation hallocation hfree.1]
  exact h.unmatched

/-- A free of a live allocation is counted with the size of the generation it ended. -/
theorem countFree (h : Tallied chosen history collector) (ho : Counts chosen o)
    (hfree : IsFree o) (hroom : history.length < maxU64) {generation : MemoryGeneration}
    (hended : endedGenerations o.notes = [generation])
    (hbytes : BytesFit (counted chosen (history ++ [o]))) :
    ∃ next, collector.countFree o.event generation.size = .ok next ∧
      Counted chosen (history ++ [o]) collector next := by
  have hcounted : counted chosen (history ++ [o]) = counted chosen history ++ [o] := filter_snoc ho
  have hstack : ofStack o.event.header.stackId (counted chosen history ++ [o]) =
      ofStack o.event.header.stackId (counted chosen history) ++ [o] := filter_snoc rfl
  have hsize : ((endedGenerations o.notes).map MemoryGeneration.size).sum = generation.size := by
    rw [hended]
    exact List.sum_singleton
  obtain ⟨hid, hexact⟩ := h.noted o.event
  unfold EventsStacksCollector.countFree
  dsimp only
  generalize (collector.groupFor o.event).noteApi o.event.header.apiId = group at hid hexact ⊢
  have hgrown := hexact.free hfree (Nat.lt_of_le_of_lt (ofStack_length_le _) hroom) hsize
  have hfits : group.freeBytes + generation.size < 2 ^ 64 := by
    have hbelow := (hbytes o.event.header.stackId).2
    rw [hcounted, hstack, ← hgrown.freeBytes] at hbelow
    exact hbelow
  rw [checkedAddBytes_eq (Nat.le_sub_one_of_lt hfits)]
  refine ⟨_, rfl, rfl, rfl, h.store ho hroom hid hgrown ?_⟩
  rw [hcounted, unmatched_snoc_not fun hnone => by rw [hended] at hnone; cases hnone.2]
  exact h.unmatched

/-- A free of nothing that is live is counted without a size. -/
theorem countUntrackedFree (h : Tallied chosen history collector) (ho : Counts chosen o)
    (hfree : IsFree o) (hroom : history.length < maxU64) (hnone : endedGenerations o.notes = []) :
    Counted chosen (history ++ [o]) collector (collector.countUntrackedFree o.event) := by
  have hcounted : counted chosen (history ++ [o]) = counted chosen history ++ [o] := filter_snoc ho
  have hsize : ((endedGenerations o.notes).map MemoryGeneration.size).sum = 0 := by
    rw [hnone]
    rfl
  obtain ⟨hid, hexact⟩ := h.noted o.event
  unfold EventsStacksCollector.countUntrackedFree
  dsimp only
  generalize (collector.groupFor o.event).noteApi o.event.header.apiId = group at hid hexact ⊢
  have hgrown := hexact.free hfree (Nat.lt_of_le_of_lt (ofStack_length_le _) hroom) hsize
  refine ⟨rfl, rfl, h.store ho hroom hid hgrown ?_⟩
  have hle : (Analyzer.unmatched (counted chosen history)).length ≤ history.length :=
    Nat.le_trans (List.length_filter_le _ _)
      (Nat.le_trans (List.length_filter_le _ _) counted_length_le)
  rw [hcounted, unmatched_snoc hfree hnone, h.unmatched,
    increment_eq (Nat.lt_of_le_of_lt hle hroom), List.length_append, List.length_singleton]

end Tallied

/-! ## Observing -/

section Observing

variable {window : StacksWindow} {filter : AnalysisFilter} {resolver : Option EventMetadataResolver}
  {header : FileHeader} {chosen : Event → Prop} [DecidablePred chosen]
  {history : List Observation} {collector : EventsStacksCollector} {event : Event}
  {tracker : GenerationTracker} {notes : List Notification}

/-- The selection of an event is decided by `chosen`. -/
abbrev Chooses (window : StacksWindow) (filter : AnalysisFilter)
    (resolver : Option EventMetadataResolver) (header : FileHeader) (chosen : Event → Prop)
    [DecidablePred chosen] (event : Event) : Prop :=
  (chosen event → callSucceeded event.header.status) ∧
    selected window filter resolver header event = .ok (decide (chosen event))

/-- What the tracker tells of an event that is no free is not listened to. -/
theorem notes_ignored (hother : eventOperation event.payload ≠ .free)
    (hnotes : ∀ note ∈ notes, ∀ generation reason other,
      note = .ended generation reason other → other = event) :
    notes.foldlM (EventsStacksCollector.observeNotification window filter resolver header)
      collector = .ok collector := by
  induction notes with
  | nil => rfl
  | cons note notes ih =>
      have hrest := ih fun n hn => hnotes n (List.mem_cons_of_mem _ hn)
      have hfirst : EventsStacksCollector.observeNotification window filter resolver header
          collector note = .ok collector := by
        cases note with
        | created generation => rfl
        | changed generation other => rfl
        | ended generation reason other =>
            obtain rfl := hnotes _ List.mem_cons_self generation reason other rfl
            exact if_pos (.inr hother)
      rw [List.foldlM_cons, hfirst]
      exact hrest

theorem eventRequestedSize_of_allocation {payload : EventPayload}
    (h : eventOperation payload = .allocate ∨ eventOperation payload = .reallocate) :
    ∃ size, eventRequestedSize payload = some size := by
  cases payload with
  | allocation payload => exact ⟨payload.requestedSize, rfl⟩
  | reallocation payload => exact ⟨payload.requestedSize, rfl⟩
  | _ => simp [eventOperation] at h

theorem eventRequestedSize_of_other {payload : EventPayload}
    (h : ¬(eventOperation payload = .allocate ∨ eventOperation payload = .reallocate)) :
    eventRequestedSize payload = none := by
  cases payload with
  | allocation payload => exact absurd (.inl rfl) h
  | reallocation payload => exact absurd (.inr rfl) h
  | _ => rfl

theorem payload_of_free {payload : EventPayload} (h : eventOperation payload = .free) :
    ∃ free, payload = .free free := by
  cases payload with
  | free free => exact ⟨free, rfl⟩
  | _ => cases h

theorem untrackedFree_of_other (hother : eventOperation event.payload ≠ .free) :
    collector.untrackedFree event = false := by
  unfold EventsStacksCollector.untrackedFree
  split
  · rename_i free hpayload
    rw [hpayload] at hother
    exact absurd rfl hother
  · rfl

/-- `observe`, of a collector that has the header, when the tracker accepts the event. -/
theorem observe_eq (hheader : collector.fileHeader = some header)
    (hrun : collector.tracker.observe event = .ok (tracker, notes)) :
    EventsStacksCollector.observe window filter resolver collector event =
      notes.foldlM (EventsStacksCollector.observeNotification window filter resolver header)
        { collector with tracker := tracker } >>= fun next =>
          EventsStacksCollector.observeTracked window filter resolver header
            (collector.untrackedFree event) next event := by
  unfold EventsStacksCollector.observe
  rw [hheader, hrun]
  rfl

theorem Tallied.observe_other (h : Tallied chosen history collector)
    (hheader : collector.fileHeader = some header)
    (hrun : collector.tracker.observe event = .ok (tracker, notes))
    (hchooses : Chooses window filter resolver header chosen event)
    (hother : eventOperation event.payload ≠ .free) (hroom : history.length < maxU64)
    (hbytes : BytesFit (counted chosen (history ++ [⟨event, notes⟩]))) :
    ∃ next, EventsStacksCollector.observe window filter resolver collector event = .ok next ∧
      next.fileHeader = some header ∧ next.tracker = tracker ∧
      Tallied chosen (history ++ [⟨event, notes⟩]) next := by
  have hmoved : Tallied chosen history { collector with tracker := tracker } :=
    ⟨h.aggregated, h.unmatched, h.groups, h.complete⟩
  have hended := (GenerationTracker.observe_change hrun).ended_event
  rw [observe_eq hheader hrun, notes_ignored hother hended, ok_bind,
    untrackedFree_of_other hother]
  unfold EventsStacksCollector.observeTracked
  by_cases hallocation : eventOperation event.payload = .allocate ∨
      eventOperation event.payload = .reallocate
  · obtain ⟨size, hsize⟩ := eventRequestedSize_of_allocation hallocation
    rw [hsize, hchooses.2]
    by_cases hchosen : chosen event
    · obtain ⟨next, hcount, hfile, htracker, htallied⟩ :=
        hmoved.countAllocation (o := ⟨event, notes⟩) ⟨.inl hallocation, hchosen⟩ hallocation hroom
          hsize hbytes
      exact ⟨next, by simpa [hchosen] using hcount, hfile.trans hheader, htracker, htallied⟩
    · refine ⟨{ collector with tracker := tracker }, ?_, hheader, rfl,
        hmoved.skip fun hcounts => hchosen hcounts.2⟩
      simp [hchosen]
  · rw [eventRequestedSize_of_other hallocation]
    refine ⟨_, rfl, hheader, rfl, hmoved.skip fun hcounts => ?_⟩
    rcases hcounts.1 with hallocated | hfree
    · exact hallocation hallocated
    · exact hother hfree

theorem Tallied.observe_free (h : Tallied chosen history collector)
    (hheader : collector.fileHeader = some header) (hsound : collector.tracker.Sound)
    (hzero : 0 ∉ collector.tracker.liveAllocations)
    (hrun : collector.tracker.observe event = .ok (tracker, notes))
    (hchooses : Chooses window filter resolver header chosen event)
    (hfree : eventOperation event.payload = .free) (hroom : history.length < maxU64)
    (hbytes : BytesFit (counted chosen (history ++ [⟨event, notes⟩]))) :
    ∃ next, EventsStacksCollector.observe window filter resolver collector event = .ok next ∧
      next.fileHeader = some header ∧ next.tracker = tracker ∧
      Tallied chosen (history ++ [⟨event, notes⟩]) next := by
  have hmoved : Tallied chosen history { collector with tracker := tracker } :=
    ⟨h.aggregated, h.unmatched, h.groups, h.complete⟩
  obtain ⟨free, hpayload⟩ := payload_of_free hfree
  have hsize : eventRequestedSize event.payload = none := by rw [hpayload]; rfl
  have huntracked : collector.untrackedFree event = decide (callSucceeded event.header.status ∧
      free.allocationId ∉ collector.tracker.liveAllocations) := by
    unfold EventsStacksCollector.untrackedFree
    rw [hpayload]
  rw [observe_eq hheader hrun, huntracked]
  rcases GenerationTracker.observe_free hpayload hzero hrun with
    ⟨hsucceeded, generation, hlive, rfl⟩ | ⟨hnone, rfl⟩
  · -- the free is counted by the callback, and not after it
    have htracked : ∀ next, EventsStacksCollector.observeTracked window filter resolver header
        (decide (callSucceeded event.header.status ∧
          free.allocationId ∉ collector.tracker.liveAllocations)) next event = .ok next := by
      intro next
      unfold EventsStacksCollector.observeTracked
      rw [decide_eq_false fun hnot => hnot.2 (mem_of_getElem? hlive), hsize]
      rfl
    suffices hcallback : ∃ next, EventsStacksCollector.observeNotification window filter resolver
        header { collector with tracker := tracker } (.ended generation .freed event) = .ok next ∧
        next.fileHeader = some header ∧ next.tracker = tracker ∧
        Tallied chosen (history ++ [⟨event, [.ended generation .freed event]⟩]) next by
      obtain ⟨next, hcallback, hrest⟩ := hcallback
      refine ⟨next, ?_, hrest⟩
      rw [List.foldlM_cons, hcallback]
      exact htracked next
    unfold EventsStacksCollector.observeNotification EventsStacksCollector.observeGenerationEnded
    dsimp only
    rw [if_neg fun hor => hor.elim (fun hkind => hkind (hsound.heap_of_live hlive))
      fun hoperation => hoperation hfree, hchooses.2]
    by_cases hchosen : chosen event
    · obtain ⟨next, hcount, hfile, htracker, htallied⟩ :=
        hmoved.countFree (o := ⟨event, [.ended generation .freed event]⟩) ⟨.inr hfree, hchosen⟩ hfree
          hroom rfl hbytes
      exact ⟨next, by simpa [hchosen] using hcount, hfile.trans hheader, htracker, htallied⟩
    · refine ⟨{ collector with tracker := tracker }, ?_, hheader, rfl,
        hmoved.skip fun hcounts => hchosen hcounts.2⟩
      simp [hchosen]
  · rw [List.foldlM_nil]
    show ∃ next, EventsStacksCollector.observeTracked _ _ _ _ _ _ _ = .ok next ∧ _
    unfold EventsStacksCollector.observeTracked
    rw [hsize, hchooses.2]
    by_cases hchosen : chosen event
    · have hmissing : free.allocationId ∉ collector.tracker.liveAllocations :=
        fun hmem => hnone ⟨hchooses.1 hchosen, hmem⟩
      obtain ⟨hfile, htracker, htallied⟩ := hmoved.countUntrackedFree (o := ⟨event, []⟩)
        ⟨.inr hfree, hchosen⟩ hfree hroom rfl
      refine ⟨_, ?_, hfile.trans hheader, htracker, htallied⟩
      simp [hchosen, hmissing, hchooses.1 hchosen]
    · refine ⟨{ collector with tracker := tracker }, ?_, hheader, rfl,
        hmoved.skip fun hcounts => hchosen hcounts.2⟩
      simp [hchosen]

theorem Tallied.observe (h : Tallied chosen history collector)
    (hheader : collector.fileHeader = some header) (hsound : collector.tracker.Sound)
    (hzero : 0 ∉ collector.tracker.liveAllocations)
    (hrun : collector.tracker.observe event = .ok (tracker, notes))
    (hchooses : Chooses window filter resolver header chosen event)
    (hroom : history.length < maxU64)
    (hbytes : BytesFit (counted chosen (history ++ [⟨event, notes⟩]))) :
    ∃ next, EventsStacksCollector.observe window filter resolver collector event = .ok next ∧
      next.fileHeader = some header ∧ next.tracker = tracker ∧
      Tallied chosen (history ++ [⟨event, notes⟩]) next := by
  by_cases hfree : eventOperation event.payload = .free
  · exact h.observe_free hheader hsound hzero hrun hchooses hfree hroom hbytes
  · exact h.observe_other hheader hrun hchooses hfree hroom hbytes

theorem BytesFit.init {more : List Observation}
    (h : BytesFit (counted chosen (history ++ more))) : BytesFit (counted chosen history) := by
  intro id
  obtain ⟨hrequested, hended⟩ := h id
  simp only [counted, ofStack, allocations, frees, requestedBytes, endedBytes, List.filter_append,
    List.map_append, List.sum_append] at hrequested hended ⊢
  exact ⟨Nat.lt_of_le_of_lt (Nat.le_add_right _ _) hrequested,
    Nat.lt_of_le_of_lt (Nat.le_add_right _ _) hended⟩

theorem sum_filter_le (f : Observation → ℕ) (p : Observation → Bool) :
    ((history.filter p).map f).sum ≤ (history.map f).sum := by
  induction history with
  | nil => exact Nat.le_refl _
  | cons o history ih =>
      rw [List.map_cons, List.sum_cons]
      by_cases hp : p o = true
      · rw [List.filter_cons_of_pos hp, List.map_cons, List.sum_cons]
        exact Nat.add_le_add_left ih _
      · rw [List.filter_cons_of_neg hp]
        exact Nat.le_add_left_of_le ih

/-- Totals of the whole trace below `2 ^ 64` are enough. -/
theorem bytesFit_of_totals (hrequested : requestedBytes history < 2 ^ 64)
    (hended : endedBytes history < 2 ^ 64) : BytesFit (counted chosen history) := by
  intro id
  constructor
  · refine Nat.lt_of_le_of_lt ?_ hrequested
    exact (sum_filter_le _ _).trans ((sum_filter_le _ _).trans (sum_filter_le _ _))
  · refine Nat.lt_of_le_of_lt ?_ hended
    exact (sum_filter_le _ _).trans ((sum_filter_le _ _).trans (sum_filter_le _ _))

/-- The collector, over events that the tracker accepts. -/
theorem Tallied.run {events : List Event} {more : List Observation}
    (h : Tallied chosen history collector) (hheader : collector.fileHeader = some header)
    (hsound : collector.tracker.Sound) (hzero : 0 ∉ collector.tracker.liveAllocations)
    (htracked : collector.tracker.observeAll events = .ok more)
    (hchooses : ∀ event ∈ events, Chooses window filter resolver header chosen event)
    (hroom : (history ++ more).length ≤ maxU64)
    (hbytes : BytesFit (counted chosen (history ++ more))) :
    ∃ last, events.foldlM (EventsStacksCollector.observe window filter resolver) collector =
      .ok last ∧ Tallied chosen (history ++ more) last := by
  induction events generalizing collector history more with
  | nil =>
      cases htracked
      rw [List.append_nil]
      exact ⟨collector, rfl, h⟩
  | cons event events ih =>
      obtain ⟨⟨tracker, notes⟩, hrun, htracked⟩ := bind_eq_ok.mp htracked
      obtain ⟨rest, hrest, htracked⟩ := bind_eq_ok.mp htracked
      cases htracked
      have hlength : history.length < maxU64 := by
        rw [List.length_append, List.length_cons] at hroom
        omega
      rw [List.append_cons] at hroom hbytes ⊢
      obtain ⟨next, hobserve, hfile, htracker, htallied⟩ := h.observe hheader hsound hzero hrun
        (hchooses event List.mem_cons_self) hlength hbytes.init
      have hchange := GenerationTracker.observe_change hrun
      rw [← htracker] at hrest
      obtain ⟨last, hfold, hlast⟩ := ih htallied hfile
        (by rw [htracker]; exact hchange.sound hsound)
        (by rw [htracker]; exact hchange.zero_not_live hzero) hrest
        (fun e he => hchooses e (List.mem_cons_of_mem _ he)) hroom hbytes
      refine ⟨last, ?_, hlast⟩
      rw [List.foldlM_cons, hobserve]
      exact hfold

/-- After the header, the collector hears the events. -/
theorem hear_events {log : List Callback}
    (h : ∀ callback ∈ log, ∀ other, callback ≠ .fileHeader other) :
    log.foldlM (EventsStacksCollector.hear window filter resolver) collector =
      (loggedEvents log).foldlM (EventsStacksCollector.observe window filter resolver)
        collector := by
  induction log generalizing collector with
  | nil => rfl
  | cons callback log ih =>
      have hrest : ∀ next, log.foldlM (EventsStacksCollector.hear window filter resolver) next =
          (loggedEvents log).foldlM (EventsStacksCollector.observe window filter resolver) next :=
        fun next => ih fun c hc => h c (List.mem_cons_of_mem _ hc)
      cases callback with
      | fileHeader other => exact absurd rfl (h _ List.mem_cons_self other)
      | event event =>
          show (EventsStacksCollector.observe window filter resolver collector event >>= fun next =>
            log.foldlM _ next) = EventsStacksCollector.observe window filter resolver collector
              event >>= fun next => (loggedEvents log).foldlM _ next
          simp only [hrest]
      | _ => exact hrest collector

end Observing

/-! ## The groups in order -/

section Order

variable {sort : StacksSort} {groups : List EventsStacksGroup}

theorem comesBefore_iff {left right : EventsStacksGroup} : sort.comesBefore left right = true ↔
    sort.metric right < sort.metric left ∨
      (sort.metric left = sort.metric right ∧ left.stackId < right.stackId) := by
  unfold StacksSort.comesBefore
  by_cases hne : sort.metric left ≠ sort.metric right
  · rw [if_pos hne, decide_eq_true_eq]
    tauto
  · rw [if_neg hne, decide_eq_true_eq]
    have heq := not_not.mp hne
    constructor
    · exact fun hlt => .inr ⟨heq, hlt⟩
    · rintro (hlt | ⟨-, hlt⟩)
      · omega
      · exact hlt

/-- Groups of different stacks are sorted. -/
theorem sortEventGroups_sorted (h : groups.Pairwise fun left right => left.stackId ≠ right.stackId) :
    (sortEventGroups groups sort).Pairwise fun left right =>
      sort.comesBefore left right = true := by
  have htotal : ∀ left right : EventsStacksGroup,
      (!sort.comesBefore right left || !sort.comesBefore left right) = true := by
    intro left right
    rw [Bool.or_eq_true, Bool.not_eq_true', Bool.not_eq_true', ← Bool.not_eq_true,
      ← Bool.not_eq_true, comesBefore_iff, comesBefore_iff]
    omega
  have htrans : ∀ first second third : EventsStacksGroup, (!sort.comesBefore second first) = true →
      (!sort.comesBefore third second) = true → (!sort.comesBefore third first) = true := by
    intro first second third
    rw [Bool.not_eq_true', Bool.not_eq_true', Bool.not_eq_true', ← Bool.not_eq_true,
      ← Bool.not_eq_true, ← Bool.not_eq_true, comesBefore_iff, comesBefore_iff, comesBefore_iff]
    omega
  have hsorted := List.pairwise_mergeSort htrans htotal groups
  have hdistinct : (sortEventGroups groups sort).Pairwise fun left right =>
      left.stackId ≠ right.stackId :=
    ((List.mergeSort_perm groups _).pairwise_iff fun hne => Ne.symm hne).mpr h
  refine (hsorted.and hdistinct).imp ?_
  rintro left right ⟨hle, hne⟩
  rw [Bool.not_eq_true', ← Bool.not_eq_true, comesBefore_iff] at hle
  rw [comesBefore_iff]
  omega

/-- The order in which the hash table lists its groups makes no difference. -/
theorem sortEventGroups_perm {other : List EventsStacksGroup}
    (h : groups.Pairwise fun left right => left.stackId ≠ right.stackId) (hperm : groups.Perm other) :
    sortEventGroups groups sort = sortEventGroups other sort := by
  have hother := (hperm.pairwise_iff fun hne => Ne.symm hne).mp h
  have hsame : (sortEventGroups groups sort).Perm (sortEventGroups other sort) :=
    (List.mergeSort_perm groups _).trans (hperm.trans (List.mergeSort_perm other _).symm)
  refine List.Perm.eq_of_pairwise ?_ (sortEventGroups_sorted h) (sortEventGroups_sorted hother) hsame
  intro left right _ _ hbefore hafter
  rw [comesBefore_iff] at hbefore hafter
  omega

end Order

/-! ## The analysis -/

/-- What the result must be. -/
structure StacksExact (chosen : Event → Prop) [DecidablePred chosen] (history : List Observation)
    (sort : StacksSort) (result : EventsStacksResult) : Prop where
  aggregated : result.aggregatedEventCount = (counted chosen history).length
  unmatched : result.unmatchedFreeCount = (unmatched (counted chosen history)).length
  oneGroup : ∀ o ∈ counted chosen history,
    ∃! group, group ∈ result.groups ∧ group.stackId = o.event.header.stackId
  exact : ∀ group ∈ result.groups, ofStack group.stackId (counted chosen history) ≠ [] ∧
    group.Exact (ofStack group.stackId (counted chosen history))
  ordered : result.groups.Pairwise fun left right => sort.comesBefore left right = true

theorem Tallied.result {chosen : Event → Prop} [DecidablePred chosen] {history : List Observation}
    {collector : EventsStacksCollector} (h : Tallied chosen history collector) (sort : StacksSort)
    (trace : EventStreamResult) (window : StacksWindow) :
    StacksExact chosen history sort {
      trace := trace
      window := window
      groups := sortEventGroups (collector.groups.toList.map Prod.snd) sort
      aggregatedEventCount := collector.aggregatedEventCount
      unmatchedFreeCount := collector.unmatchedFreeCount } := by
  have hmem : ∀ group, group ∈ sortEventGroups (collector.groups.toList.map Prod.snd) sort ↔
      collector.groups[group.stackId]? = some group := by
    intro group
    unfold sortEventGroups
    rw [List.mem_mergeSort, List.mem_map]
    constructor
    · rintro ⟨⟨id, stored⟩, hentry, rfl⟩
      have hlookup := Std.ExtTreeMap.mem_toList_iff_getElem?_eq_some.mp hentry
      rw [(h.groups id stored hlookup).1]
      exact hlookup
    · intro hlookup
      exact ⟨(group.stackId, group), Std.ExtTreeMap.mem_toList_iff_getElem?_eq_some.mpr hlookup, rfl⟩
  have hdistinct : (collector.groups.toList.map Prod.snd).Pairwise fun left right =>
      left.stackId ≠ right.stackId := by
    refine List.pairwise_map.mpr ?_
    refine Std.ExtTreeMap.distinct_keys_toList.imp_of_mem ?_
    rintro ⟨id, left⟩ ⟨id', right⟩ hleft hright hne
    have hleftId := (h.groups id left (Std.ExtTreeMap.mem_toList_iff_getElem?_eq_some.mp hleft)).1
    have hrightId := (h.groups id' right
      (Std.ExtTreeMap.mem_toList_iff_getElem?_eq_some.mp hright)).1
    rw [Nat.compare_eq_eq] at hne
    rw [hleftId, hrightId]
    exact hne
  constructor
  · exact h.aggregated
  · exact h.unmatched
  · intro o ho
    have hstored := h.complete o ho
    rw [Std.ExtTreeMap.mem_iff_isSome_getElem?] at hstored
    obtain ⟨group, hgroup⟩ := Option.isSome_iff_exists.mp hstored
    have hid := (h.groups _ group hgroup).1
    refine ⟨group, ⟨(hmem group).mpr (by rw [hid]; exact hgroup), hid⟩, ?_⟩
    rintro other ⟨hother, hotherId⟩
    have hlookup := (hmem other).mp hother
    rw [hotherId, hgroup] at hlookup
    exact (Option.some.inj hlookup).symm
  · intro group hgroup
    exact (h.groups _ group ((hmem group).mp hgroup)).2
  · exact sortEventGroups_sorted hdistinct

section Analysis

variable {options : EventStreamOptions} {decompressors : Decompressors} {input : Bytes}
  {trace : EventStreamResult} {window : StacksWindow} {filter : AnalysisFilter}
  {resolver : Option EventMetadataResolver} {history : List Observation}

/-- Stack aggregation is exact, for every accepted trace whose events the tracker accepts. -/
theorem event_stacks_exact (sort : StacksSort)
    (haccepted : (analyzeEventStream options decompressors input).outcome = .ok trace)
    (htracked : ({} : GenerationTracker).observeAll
      (loggedEvents (analyzeEventStream options decompressors input).log) = .ok history)
    (hwindow : validateWindow window = .ok ())
    (hresolver : filter.RequiresMetadata → resolver ≠ none)
    (hbytes : BytesFit (counted (Selected window filter resolver trace.fileHeader) history)) :
    ∃ result,
      analyzeEventStacks window filter resolver options decompressors input sort = .ok result ∧
      StacksExact (Selected window filter resolver trace.fileHeader) history sort result := by
  have hevents := accepted_events haccepted
  obtain ⟨rest, hlog, hrest⟩ := hevents.begins
  have hsame : loggedEvents (analyzeEventStream options decompressors input).log =
      loggedEvents rest := by
    rw [hlog]
    rfl
  have hchooses : ∀ event ∈ loggedEvents rest, Chooses window filter resolver trace.fileHeader
      (Selected window filter resolver trace.fileHeader) event := by
    intro event hevent
    rw [← hsame] at hevent
    exact ⟨And.left, selected_eq hevents.frequency (hevents.since event hevent) hwindow hresolver⟩
  have hlength : history.length ≤ maxU64 := by
    rw [GenerationTracker.observeAll_length htracked]
    exact hevents.count
  rw [hsame] at htracked
  have hstart : Tallied (Selected window filter resolver trace.fileHeader) []
      { ({} : EventsStacksCollector) with fileHeader := some trace.fileHeader } :=
    ⟨Tallied.init.aggregated, Tallied.init.unmatched, Tallied.init.groups, Tallied.init.complete⟩
  obtain ⟨last, hfold, htallied⟩ := hstart.run rfl GenerationTracker.sound_init (by simp) htracked
    hchooses hlength hbytes
  refine ⟨_, ?_, htallied.result sort trace window⟩
  unfold analyzeEventStacks
  rw [hwindow, ok_bind, failIf_of_not ?_, ok_bind]
  · dsimp only
    rw [hlog, List.foldlM_cons]
    show (rest.foldlM (EventsStacksCollector.hear window filter resolver)
      { ({} : EventsStacksCollector) with fileHeader := some trace.fileHeader } >>= _) = _
    rw [hear_events hrest, hfold, ok_bind, haccepted]
    rfl
  · rintro ⟨hrequired, hnone⟩
    exact hresolver hrequired (Option.isNone_iff_eq_none.mp hnone)

end Analysis

/-! ## An allocation that is freed -/

def sampleAllocation : Event where
  header := { sequence := 1, status := .success, stackId := 5 }
  payload := .allocation { requestedSize := 32, resultAddress := 4096, allocationId := 1 }

def sampleFree : Event where
  header := { sequence := 2, status := .success, stackId := 6 }
  payload := .free { address := 4096, allocationId := 1 }

/-- A chunk of one event. -/
def eventChunk (event : Event) : Bytes :=
  plainChunk { sequenceBegin := event.header.sequence, sequenceEnd := event.header.sequence }
    ⟨EventRecordType.coding.code (eventRecordType event.payload), recordVersion,
      appendEventHeader event.header ++ appendEventPayload event.payload⟩

def sampleStacks : Bytes :=
  appendFileHeader { header := sampleHeader } ++
    plainChunk { type := .metadata } ⟨captureScopeType, recordVersion, appendCaptureScope {}⟩ ++
    eventChunk sampleAllocation ++ eventChunk sampleFree

/-- The events that the decoder logs, when it accepts the trace. -/
def acceptedEvents (analysis : Analysis) : Option (List Event) :=
  match analysis.outcome with
  | .ok _ => some (loggedEvents analysis.log)
  | .error _ => none

/-- The totals of what the tracker tells, when it accepts the events. -/
def trackedTotals (events : List Event) : Option (ℕ × ℕ × ℕ) :=
  match ({} : GenerationTracker).observeAll events with
  | .ok history => some (history.length, requestedBytes history, endedBytes history)
  | .error _ => none

set_option maxRecDepth 20000 in
theorem sampleStacks_events : acceptedEvents (analyzeEventStream {} literalDecompressors
    sampleStacks) = some [sampleAllocation, sampleFree] := by
  decide +kernel

theorem sampleStacks_totals : trackedTotals [sampleAllocation, sampleFree] = some (2, 32, 32) := by
  decide +kernel

theorem acceptedEvents_eq_some {analysis : Analysis} {events : List Event}
    (h : acceptedEvents analysis = some events) :
    ∃ trace, analysis.outcome = .ok trace ∧ loggedEvents analysis.log = events := by
  unfold acceptedEvents at h
  split at h
  · rename_i trace haccepted
    cases h
    exact ⟨trace, haccepted, rfl⟩
  · cases h

theorem trackedTotals_eq_some {events : List Event} {length requested ended : ℕ}
    (h : trackedTotals events = some (length, requested, ended)) :
    ∃ history, ({} : GenerationTracker).observeAll events = .ok history ∧ history.length = length ∧
      requestedBytes history = requested ∧ endedBytes history = ended := by
  unfold trackedTotals at h
  split at h
  · rename_i history htracked
    cases h
    exact ⟨history, htracked, rfl, rfl, rfl⟩
  · cases h

theorem event_stacks_exact_freed : ∃ trace history result,
    (analyzeEventStream {} literalDecompressors sampleStacks).outcome = .ok trace ∧
      history.length = 2 ∧
      analyzeEventStacks {} {} none {} literalDecompressors sampleStacks .bytes = .ok result ∧
      StacksExact (Selected {} {} none trace.fileHeader) history .bytes result := by
  obtain ⟨trace, haccepted, hevents⟩ := acceptedEvents_eq_some sampleStacks_events
  obtain ⟨history, htracked, hlength, hrequested, hended⟩ :=
    trackedTotals_eq_some sampleStacks_totals
  have hbytes : BytesFit (counted (Selected {} {} none trace.fileHeader) history) :=
    bytesFit_of_totals (by rw [hrequested]; decide) (by rw [hended]; decide)
  rw [← hevents] at htracked
  obtain ⟨result, hresult, hexact⟩ := event_stacks_exact .bytes haccepted htracked rfl
    (fun hrequired => absurd hrequired (by decide)) hbytes
  exact ⟨trace, history, result, haccepted, hlength, hresult, hexact⟩

end Noleax.Analyzer
