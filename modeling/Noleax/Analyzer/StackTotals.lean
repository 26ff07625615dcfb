import Noleax.Analyzer.Stacks
import Noleax.Analyzer.TrackerInvariant

/-!
# What stack groups must hold (`src/analyzer/stacks.cpp`)

The totals of the groups, told of the events, of the selection, and of the generations that
the tracker says ended with each event.
-/

namespace Noleax.Analyzer

open Lib Trace

/-! ## What the tracker tells -/

/-- An event, and the callbacks while the tracker observed it. -/
structure Observation where
  event : Event
  notes : List Notification

def Notification.toEnded : Notification → Option MemoryGeneration
  | .ended generation _ _ => some generation
  | _ => none

/-- The generations that ended, as the tracker held them. -/
def endedGenerations (notes : List Notification) : List MemoryGeneration :=
  notes.filterMap Notification.toEnded

namespace GenerationTracker

variable {Kept : IntervalSet Unit → Prop} {event : Event} {t u : GenerationTracker}
  {notes : List Notification}

/-- The tracker observes the events, one after the other. -/
def observeAll (t : GenerationTracker) : List Event → Except Error (List Observation)
  | [] => .ok []
  | event :: events => do
      let (t, notes) ← t.observe event
      return ⟨event, notes⟩ :: (← t.observeAll events)

theorem observeAll_length {events : List Event} {history : List Observation}
    (h : t.observeAll events = .ok history) : history.length = events.length := by
  induction events generalizing t history with
  | nil =>
      cases h
      rfl
  | cons event events ih =>
      obtain ⟨⟨u, notes⟩, -, h⟩ := bind_eq_ok.mp h
      obtain ⟨rest, hrest, h⟩ := bind_eq_ok.mp h
      cases h
      rw [List.length_cons, List.length_cons, ih hrest]

/-- A generation ends with the event that is observed. -/
theorem Change.ended_event (h : Change Kept event t notes u) :
    ∀ note ∈ notes, ∀ generation reason other, note = .ended generation reason other →
      other = event := by
  induction h with
  | refl t => exact List.forall_mem_nil _
  | orphan t allocations mappings => exact List.forall_mem_nil _
  | createAllocation t generation hkey hid hnew => simp
  | createMapping t state hkey hnew hbytes hkept => simp
  | endAllocation t id generation hlive reason =>
      simp only [List.mem_singleton, forall_eq, Notification.ended.injEq]
      rintro _ _ other ⟨-, -, rfl⟩
      rfl
  | endMapping t id state hlive reason =>
      simp only [List.mem_singleton, forall_eq, Notification.ended.injEq]
      rintro _ _ other ⟨-, -, rfl⟩
      rfl
  | resize t id state hlive live hkept notes hnotes =>
      rcases hnotes with rfl | rfl
      · exact List.forall_mem_nil _
      · simp
  | trans hfirst hsecond ih ih' =>
      intro note hnote
      rcases List.mem_append.mp hnote with hbefore | hafter
      · exact ih note hbefore
      · exact ih' note hafter

/-- The id that names nothing is never live. -/
theorem Change.zero_not_live (hchange : Change Kept event t notes u)
    (h : 0 ∉ t.liveAllocations) : 0 ∉ u.liveAllocations := by
  induction hchange with
  | refl t => exact h
  | orphan t allocations mappings => exact h
  | createAllocation t generation hkey hid hnew =>
      intro hzero
      rcases mem_insert_iff.mp hzero with hsame | hold
      · exact hid hsame
      · exact h hold
  | createMapping t state hkey hnew hbytes hkept => exact h
  | endAllocation t id generation hlive reason =>
      exact fun hzero => h (mem_erase_iff.mp hzero).2
  | endMapping t id state hlive reason => exact h
  | resize t id state hlive live hkept notes hnotes => exact h
  | trans hfirst hsecond ih ih' => exact ih' (ih h)

theorem Sound.heap_of_live (h : t.Sound) {id : ℕ} {generation : MemoryGeneration}
    (hlive : t.liveAllocations[id]? = some generation) : generation.kind = .heapAllocation := by
  have hkey := h.allocationKeys id generation hlive
  unfold MemoryGeneration.key at hkey
  split at hkey
  · assumption
  · cases hkey

/-- A free ends the generation of its id, when it went well and the id is live. -/
theorem observe_free {free : FreeEvent} (hpayload : event.payload = .free free)
    (hzero : 0 ∉ t.liveAllocations) (hrun : t.observe event = .ok (u, notes)) :
    (callSucceeded event.header.status ∧ ∃ generation,
      t.liveAllocations[free.allocationId]? = some generation ∧
        notes = [.ended generation .freed event]) ∨
    (¬(callSucceeded event.header.status ∧ free.allocationId ∈ t.liveAllocations) ∧
      notes = []) := by
  obtain ⟨⟨⟩, -, hrun⟩ := bind_eq_ok.mp hrun
  unfold dispatch at hrun
  rw [hpayload] at hrun
  change t.observeFree event free = _ at hrun
  unfold observeFree at hrun
  split at hrun
  · rename_i hends
    unfold endAllocation at hrun
    split at hrun
    · rename_i hnone
      obtain ⟨_, -, hrun⟩ := bind_eq_ok.mp hrun
      cases hrun
      refine .inr ⟨?_, rfl⟩
      rintro ⟨-, hmem⟩
      rw [Std.ExtTreeMap.mem_iff_isSome_getElem?, hnone] at hmem
      cases hmem
    · rename_i generation hlive
      obtain ⟨-, hrun⟩ := failIf_bind_eq_ok.mp hrun
      obtain ⟨-, hrun⟩ := failIf_bind_eq_ok.mp hrun
      obtain ⟨_, -, hrun⟩ := bind_eq_ok.mp hrun
      cases hrun
      exact .inl ⟨hends.1, generation, hlive, rfl⟩
  · rename_i hends
    cases hrun
    refine .inr ⟨?_, rfl⟩
    rintro ⟨hsucceeded, hmem⟩
    refine hends ⟨hsucceeded, ?_⟩
    intro hid
    rw [hid] at hmem
    exact hzero hmem

end GenerationTracker

/-! ## What must be counted -/

section Totals

/-- No event that came is before the bound. -/
def WindowBound.Reached (bound : WindowBound) (header : FileHeader) (event : Event) : Prop :=
  (∀ time ∈ bound.time, (time : ℚ) ≤ elapsed event.header.monotonicTicks header) ∧
    ∀ sequence ∈ bound.sequence, sequence ≤ event.header.sequence

/-- The event is before the bound. -/
def WindowBound.Ahead (bound : WindowBound) (header : FileHeader) (event : Event) : Prop :=
  (∀ time ∈ bound.time, elapsed event.header.monotonicTicks header < (time : ℚ)) ∧
    ∀ sequence ∈ bound.sequence, event.header.sequence < sequence

instance (bound : WindowBound) (header : FileHeader) (event : Event) :
    Decidable (bound.Reached header event) :=
  inferInstanceAs (Decidable (_ ∧ _))

instance (bound : WindowBound) (header : FileHeader) (event : Event) :
    Decidable (bound.Ahead header event) :=
  inferInstanceAs (Decidable (_ ∧ _))

/-- The window `[from, to)`. -/
def StacksWindow.Contains (window : StacksWindow) (header : FileHeader) (event : Event) : Prop :=
  window.fromBound.Reached header event ∧ ∀ bound ∈ window.toBound, bound.Ahead header event

instance (window : StacksWindow) (header : FileHeader) (event : Event) :
    Decidable (window.Contains header event) :=
  inferInstanceAs (Decidable (_ ∧ _))

/-- Not a failure, in the window, and matched by the filter. -/
abbrev Selected (window : StacksWindow) (filter : AnalysisFilter)
    (resolver : Option EventMetadataResolver) (header : FileHeader) (event : Event) : Prop :=
  callSucceeded event.header.status ∧ window.Contains header event ∧
    filter.matchesEvent event (AnalysisFilter.metadataOf resolver event) = true

abbrev IsFree (observation : Observation) : Prop :=
  eventOperation observation.event.payload = .free

abbrev IsAllocation (observation : Observation) : Prop :=
  eventOperation observation.event.payload = .allocate ∨
    eventOperation observation.event.payload = .reallocate

/-- An allocation, a reallocation or a free that was chosen. -/
abbrev Counts (chosen : Event → Prop) (observation : Observation) : Prop :=
  (IsAllocation observation ∨ IsFree observation) ∧ chosen observation.event

def counted (chosen : Event → Prop) [DecidablePred chosen] (history : List Observation) :
    List Observation :=
  history.filter fun o => Counts chosen o

def ofStack (id : ℕ) (history : List Observation) : List Observation :=
  history.filter fun o => o.event.header.stackId = id

def allocations (history : List Observation) : List Observation :=
  history.filter fun o => IsAllocation o

def frees (history : List Observation) : List Observation :=
  history.filter fun o => IsFree o

/-- The sizes that were asked for. -/
def requestedBytes (history : List Observation) : ℕ :=
  (history.map fun o => (eventRequestedSize o.event.payload).getD 0).sum

/-- The sizes of the generations that ended. -/
def endedBytes (history : List Observation) : ℕ :=
  (history.map fun o => ((endedGenerations o.notes).map MemoryGeneration.size).sum).sum

/-- The frees that ended no generation. -/
def unmatched (history : List Observation) : List Observation :=
  (frees history).filter fun o => endedGenerations o.notes = []

/-- What the group of the events `history` holds. -/
structure EventsStacksGroup.Exact (history : List Observation) (group : EventsStacksGroup) :
    Prop where
  calls : group.calls = history.length
  allocCalls : group.allocCalls = (allocations history).length
  allocBytes : group.allocBytes = requestedBytes (allocations history)
  freeCalls : group.freeCalls = (frees history).length
  freeBytes : group.freeBytes = endedBytes (frees history)
  split : group.calls = group.allocCalls + group.freeCalls

/-- No byte total goes over 64 bits. -/
def BytesFit (counted : List Observation) : Prop :=
  ∀ id, requestedBytes (allocations (ofStack id counted)) < 2 ^ 64 ∧
    endedBytes (frees (ofStack id counted)) < 2 ^ 64

end Totals

/-! ## The selection -/

section Selection

variable {window : StacksWindow} {filter : AnalysisFilter} {resolver : Option EventMetadataResolver}
  {header : FileHeader} {event : Event} {bound : WindowBound}

/-- The second test is made where the first holds. -/
theorem both_eq {p q : Prop} [Decidable p] [Decidable q] :
    (if (!decide p) = true then return false else return decide q : Except TraceTimeError Bool) =
      .ok (decide (p ∧ q)) := by
  by_cases hp : p
  · simp [hp]
  · simp [hp]

theorem timeHolds_eq (hfrequency : 0 < header.monotonicFrequency)
    (horigin : header.monotonicOrigin ≤ event.header.monotonicTicks)
    (htime : ∀ time ∈ bound.time, 0 ≤ time) (asked : Ordering → Bool) :
    bound.timeHolds header event.header.monotonicTicks asked =
      .ok (decide (∀ time ∈ bound.time,
        asked (Ord.compare (elapsed event.header.monotonicTicks header) time) = true)) := by
  unfold WindowBound.timeHolds
  cases hbound : bound.time with
  | none => simp
  | some time =>
      simp only
      rw [compareTraceTime_eq hfrequency horigin (htime time hbound)]
      simp

theorem windowAtOrAfter_eq (hfrequency : 0 < header.monotonicFrequency)
    (horigin : header.monotonicOrigin ≤ event.header.monotonicTicks)
    (htime : ∀ time ∈ bound.time, 0 ≤ time) :
    windowAtOrAfter bound header event = .ok (decide (bound.Reached header event)) := by
  have hholds : (∀ time ∈ bound.time, decide (Ord.compare
      (elapsed event.header.monotonicTicks header) (time : ℚ) ≠ .lt) = true) ↔
      ∀ time ∈ bound.time, (time : ℚ) ≤ elapsed event.header.monotonicTicks header := by
    simp only [decide_eq_true_eq, Ne, compare_lt_iff_lt, not_lt]
  have hsequence : bound.sequenceHolds (· ≤ event.header.sequence) =
      decide (∀ sequence ∈ bound.sequence, sequence ≤ event.header.sequence) := by
    unfold WindowBound.sequenceHolds
    cases bound.sequence <;> simp
  unfold windowAtOrAfter
  rw [timeHolds_eq hfrequency horigin htime, ok_bind, hsequence]
  exact both_eq.trans (congrArg _ (decide_eq_decide.mpr (and_congr_left' hholds)))

theorem windowBefore_eq (hfrequency : 0 < header.monotonicFrequency)
    (horigin : header.monotonicOrigin ≤ event.header.monotonicTicks)
    (htime : ∀ time ∈ bound.time, 0 ≤ time) :
    windowBefore bound header event = .ok (decide (bound.Ahead header event)) := by
  have hholds : (∀ time ∈ bound.time, decide (Ord.compare
      (elapsed event.header.monotonicTicks header) (time : ℚ) = .lt) = true) ↔
      ∀ time ∈ bound.time, elapsed event.header.monotonicTicks header < (time : ℚ) := by
    simp only [decide_eq_true_eq, compare_lt_iff_lt]
  have hsequence : bound.sequenceHolds (event.header.sequence < ·) =
      decide (∀ sequence ∈ bound.sequence, event.header.sequence < sequence) := by
    unfold WindowBound.sequenceHolds
    cases bound.sequence <;> simp
  unfold windowBefore
  rw [timeHolds_eq hfrequency horigin htime, ok_bind, hsequence]
  exact both_eq.trans (congrArg _ (decide_eq_decide.mpr (and_congr_left' hholds)))

theorem validateWindow_eq_ok (h : validateWindow window = .ok ()) :
    (∀ time ∈ window.fromBound.time, 0 ≤ time) ∧
      ∀ bound ∈ window.toBound, ∀ time ∈ bound.time, 0 ≤ time := by
  obtain ⟨hnegative, -⟩ := failIf_bind_eq_ok.mp h
  constructor
  · intro time htime
    exact Int.not_lt.mp fun hlt => hnegative (.inl ⟨time, htime, hlt⟩)
  · intro bound hbound time htime
    exact Int.not_lt.mp fun hlt => hnegative (.inr ⟨bound, hbound, time, htime, hlt⟩)

theorem inWindow_eq (hfrequency : 0 < header.monotonicFrequency)
    (horigin : header.monotonicOrigin ≤ event.header.monotonicTicks)
    (hwindow : validateWindow window = .ok ()) :
    window.inWindow header event = .ok (decide (window.Contains header event)) := by
  obtain ⟨hfrom, hto⟩ := validateWindow_eq_ok hwindow
  unfold StacksWindow.inWindow
  rw [windowAtOrAfter_eq hfrequency horigin hfrom, ok_bind]
  by_cases hreached : window.fromBound.Reached header event
  · rw [if_neg (by simp [hreached])]
    split
    · rename_i hbound
      simp [StacksWindow.Contains, hreached, hbound]
    · rename_i bound hbound
      rw [windowBefore_eq hfrequency horigin (hto bound hbound)]
      simp [StacksWindow.Contains, hreached, hbound]
  · simp [StacksWindow.Contains, hreached]

/-- The selection is the one that is asked for. -/
theorem selected_eq (hfrequency : 0 < header.monotonicFrequency)
    (horigin : header.monotonicOrigin ≤ event.header.monotonicTicks)
    (hwindow : validateWindow window = .ok ())
    (hresolver : filter.RequiresMetadata → resolver ≠ none) :
    selected window filter resolver header event =
      .ok (decide (Selected window filter resolver header event)) := by
  unfold selected
  rw [inWindow_eq hfrequency horigin hwindow, filter.matchesResolved_eq event hresolver]
  by_cases hsucceeded : callSucceeded event.header.status
  · rw [if_pos hsucceeded]
    by_cases hcontains : window.Contains header event
    · simp [Except.mapError, Selected, hcontains, hsucceeded]
    · simp [Except.mapError, Selected, hcontains]
  · rw [if_neg hsucceeded]
    simp [Selected, hsucceeded]

end Selection

end Noleax.Analyzer
