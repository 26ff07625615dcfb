import Noleax.Hooks.Counts

/-!
# The status of a running capture (`LinuxCaptureRuntime::status`)

`status` reads `recordable_calls` of a channel first and its `filtered_calls` and
`dropped_events` later, and takes the difference of the sums for the written events.
A call that enters and is discarded between the loads is subtracted without having
been added.
-/

namespace Noleax.Hooks

open Lib Agent Agent.HookState

/-! ## The sums -/

/-- What `status` sums over the channels, and the difference. -/
structure CaptureStatus where
  observedCalls : ℕ
  filteredCalls : ℕ
  droppedEvents : ℕ
  writtenEvents : ℕ

def sumOver (reads : List (ℕ × CounterReads)) (field : ℕ → CounterReads → ℕ) : ℕ :=
  (reads.map fun entry => field entry.1 entry.2).sum

/-- The branch of `status` for the state `kCapturing`. The subtractions wrap. -/
def liveStatus (reads : List (ℕ × CounterReads)) : CaptureStatus :=
  let observed := sumOver reads fun apiId r => (r.counters apiId).recordableCalls
  let filtered := sumOver reads fun apiId r => (r.counters apiId).filteredCalls
  let dropped := sumOver reads fun apiId r => (r.counters apiId).droppedEvents
  { observedCalls := observed
    filteredCalls := filtered
    droppedEvents := dropped
    writtenEvents := (observed + 2 * 2 ^ 64 - filtered - dropped) % 2 ^ 64 }

/-- What was discarded was observed. -/
def CaptureStatus.NoUnderflow (status : CaptureStatus) : Prop :=
  status.filteredCalls + status.droppedEvents ≤ status.observedCalls

/-- Without an underflow the written events are the difference. -/
theorem CaptureStatus.NoUnderflow.written {reads : List (ℕ × CounterReads)}
    (h : (liveStatus reads).NoUnderflow) (hbound : (liveStatus reads).observedCalls < 2 ^ 64) :
    (liveStatus reads).writtenEvents + (liveStatus reads).filteredCalls +
      (liveStatus reads).droppedEvents = (liveStatus reads).observedCalls := by
  unfold NoUnderflow at h
  unfold liveStatus at h hbound ⊢
  dsimp only at h hbound ⊢
  omega

/-! ## The condition -/

/-- Neither filtered nor counted as dropped. -/
def undiscarded : Region := fun _ place => place ≠ .filtered ∧ place ≠ .dropped

/-- The calls that are discarded between the load of their channel's recordable calls
and the later loads. -/
def discardedMeanwhile (apiId : ℕ) (reads : CounterReads) : ℕ :=
  (callsIn reads.filtered apiId (at_ .filtered) -
      callsIn reads.recordable apiId (at_ .filtered)) +
    (callsIn reads.dropped apiId (at_ .dropped) - callsIn reads.recordable apiId (at_ .dropped))

/-- The calls that are not discarded when the recordable calls are loaded. -/
def undiscardedThen (apiId : ℕ) (reads : CounterReads) : ℕ :=
  callsIn reads.recordable apiId undiscarded

/-- Every call is discarded one way, the other, or not. -/
theorem callsIn_everywhere (s : HookState) (apiId : ℕ) :
    callsIn s apiId everywhere =
      callsIn s apiId undiscarded + callsIn s apiId (at_ .filtered) +
        callsIn s apiId (at_ .dropped) := by
  unfold callsIn numberIn
  induction s.calls with
  | nil => rfl
  | cons entry rest ih =>
      obtain ⟨call, place⟩ := entry
      simp only [List.countP_cons, ih]
      by_cases happi : call.apiId = apiId
      · cases place <;> simp [happi, everywhere, undiscarded, at_] <;> omega
      · simp [happi]

section Reads

variable {s : HookState} {reads : CounterReads}

theorem follows_reached (h : reads.Follows s) : s.Steps reads.paired :=
  h.recordable.trans (h.successful.trans (h.failed.trans (h.filtered.trans
    (h.dropped.trans h.paired))))

/-- One channel: what it loads as discarded, against what it loads as recordable. -/
theorem follows_balance (h : reads.Follows s) (hs : Counted s) (apiId : ℕ) :
    (reads.counters apiId).filteredCalls + (reads.counters apiId).droppedEvents +
        undiscardedThen apiId reads =
      (reads.counters apiId).recordableCalls + discardedMeanwhile apiId reads := by
  have hrecordable := hs.steps h.recordable
  have hlater := h.successful.trans (h.failed.trans h.filtered)
  have hfiltered := hrecordable.steps hlater
  have hdropped := hfiltered.steps h.dropped
  have hgrowsFiltered := (behind_steps hlater apiId).filtered
  have hgrowsDropped := (behind_steps (hlater.trans h.dropped) apiId).dropped
  have hall := callsIn_everywhere reads.recordable apiId
  have htotal : (reads.recordable.counters apiId).recordableCalls = _ :=
    hrecordable.recordable apiId
  have hfilteredThen : (reads.recordable.counters apiId).filteredCalls = _ :=
    hrecordable.filtered apiId
  have hdroppedThen : (reads.recordable.counters apiId).droppedEvents = _ :=
    hrecordable.dropped apiId
  have hfilteredNow : (reads.filtered.counters apiId).filteredCalls = _ := hfiltered.filtered apiId
  have hdroppedNow : (reads.dropped.counters apiId).droppedEvents = _ := hdropped.dropped apiId
  unfold CounterReads.counters discardedMeanwhile undiscardedThen
  dsimp only
  omega

theorem sums_balance {reads : List (ℕ × CounterReads)} (hs : Counted s)
    (h : Interleaved s reads) :
    sumOver reads (fun apiId r => (r.counters apiId).filteredCalls) +
        sumOver reads (fun apiId r => (r.counters apiId).droppedEvents) +
        sumOver reads undiscardedThen =
      sumOver reads (fun apiId r => (r.counters apiId).recordableCalls) +
        sumOver reads discardedMeanwhile := by
  induction reads generalizing s with
  | nil => rfl
  | cons entry rest ih =>
      obtain ⟨id, r⟩ := entry
      obtain ⟨hfollows, hrest⟩ := h
      have hone := follows_balance hfollows hs id
      have hmore := ih (hs.steps (follows_reached hfollows)) hrest
      unfold sumOver at hmore ⊢
      simp only [List.map_cons, List.sum_cons] at hmore ⊢
      omega

end Reads

/-- The status of a running capture is free of underflow exactly when no more calls
are discarded during the loads than had entered and were not discarded before. -/
theorem live_status_iff (reads : List (ℕ × CounterReads)) (h : Interleaved {} reads) :
    (liveStatus reads).NoUnderflow ↔
      sumOver reads discardedMeanwhile ≤ sumOver reads undiscardedThen := by
  have hbalance := sums_balance counted_init h
  unfold CaptureStatus.NoUnderflow liveStatus
  dsimp only
  omega

/-! ## A call below the size floor

It enters after its channel's recordable calls were loaded, and is filtered before
the filtered calls are. -/

/-- `malloc(8)` under a floor of 16. -/
def smallMalloc : RecordedCall := (HeapCall.malloc 8 0x1000 0).recorded 16

def smallEntered : HookState :=
  (withCalls {} [(smallMalloc, .entered)]).count smallMalloc.apiId .noteEntry

def smallSettled : HookState :=
  (smallEntered.withCalls [(smallMalloc, .settled)]).count smallMalloc.apiId
    (.noteCallOutcome · smallMalloc.failed)

def smallFiltered : HookState :=
  (smallSettled.withCalls [(smallMalloc, .filtered)]).count smallMalloc.apiId .noteFiltered

theorem small_enters : Steps {} smallEntered := by
  have hstep : Step {} smallEntered := .enter smallMalloc rfl
  exact .single hstep

theorem small_isFiltered : Steps smallEntered smallFiltered := by
  have houtcome : Step smallEntered smallSettled :=
    .outcome (show smallEntered.calls = [] ++ (smallMalloc, .entered) :: [] from rfl)
  have hfilter : Step smallSettled smallFiltered :=
    .filter (show smallSettled.calls = [] ++ (smallMalloc, .settled) :: [] from rfl) rfl
  exact .tail (.single houtcome) hfilter

/-- The loads of one `counters()`, the recordable calls in one state and the others in
a later one. -/
def readsAt (first later : HookState) : CounterReads where
  recordable := first
  successful := later
  failed := later
  filtered := later
  dropped := later
  paired := later

theorem readsAt_follows {s first later : HookState} (hfirst : s.Steps first)
    (hlater : first.Steps later) : (readsAt first later).Follows s :=
  ⟨hfirst, hlater, .refl, .refl, .refl, .refl⟩

/-- One call is filtered, none observed, and 2^64 - 1 events are reported as written. -/
theorem live_status_underflow :
    ¬ ∀ reads : List (ℕ × CounterReads), Interleaved {} reads → (liveStatus reads).NoUnderflow := by
  intro hclaim
  have hreads : Interleaved {} [(10, readsAt {} smallFiltered)] :=
    ⟨readsAt_follows .refl (small_enters.trans small_isFiltered), trivial⟩
  have hwritten : (liveStatus [(10, readsAt {} smallFiltered)]).writtenEvents = 2 ^ 64 - 1 := by
    decide +kernel
  have hflow := hclaim _ hreads
  have hobserved : (liveStatus [(10, readsAt {} smallFiltered)]).observedCalls = 0 := by
    decide +kernel
  have hsum := hflow.written (by omega)
  rw [hwritten, hobserved] at hsum
  omega

/-- The call had entered before the first load. -/
theorem live_status_iff_entered :
    (liveStatus [(10, readsAt smallEntered smallFiltered)]).NoUnderflow := by
  have hreads : Interleaved {} [(10, readsAt smallEntered smallFiltered)] :=
    ⟨readsAt_follows small_enters small_isFiltered, trivial⟩
  exact (live_status_iff _ hreads).mpr (by decide +kernel)

end Noleax.Hooks
