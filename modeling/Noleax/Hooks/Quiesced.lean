import Noleax.Hooks.CutOff

/-!
# A stop that reaches quiescence

Once every `stop_recording` has returned true, no recorded call is left between two of
its updates, and none begins. The producers' counts and the writer's then differ by the
moved `mremap`s and the extra records alone, which both sides count.
-/

namespace Noleax.Hooks

open Lib Trace Agent Agent.HookState Agent.LinuxTraceWriter Capture

/-! ## Quiescence -/

/-- A recorded call that has returned. -/
def AtRest (call : RecordedCall) : CallPlace → Prop
  | .filtered | .dropped | .paired => True
  | .queued => call.paired = false
  | .entered | .settled | .refused => False

/-- What `stop_recording` waits for on all channels: none records, and no call is inside. -/
structure Quiesced (s : HookState) : Prop where
  stopped : ∀ apiId, s.recording apiId = false
  atRest : ∀ entry ∈ s.calls, AtRest entry.1 entry.2

section Steps

variable {s t : HookState}

/-- A call inside its replacement is not at rest. -/
theorem Quiesced.no_call (h : Quiesced s) {before after : List (RecordedCall × CallPlace)}
    {call : RecordedCall} {place : CallPlace} (hcalls : s.calls = before ++ (call, place) :: after)
    (hinside : ¬ AtRest call place) : False := by
  apply hinside
  apply h.atRest (call, place)
  rw [hcalls]
  exact List.mem_append_right _ List.mem_cons_self

/-- No call moves any more. -/
theorem Quiesced.step (h : Quiesced s) (hstep : s.Step t) : Quiesced t ∧ t.calls = s.calls := by
  cases hstep with
  | enter call hrecording =>
      rw [h.stopped] at hrecording
      cases hrecording
  | outcome hcalls => exact (h.no_call hcalls id).elim
  | filter hcalls hfiltered => exact (h.no_call hcalls id).elim
  | emplace hcalls stamp hsequence event hevent => exact (h.no_call hcalls id).elim
  | refuse hcalls hrecorded => exact (h.no_call hcalls id).elim
  | drop hcalls => exact (h.no_call hcalls id).elim
  | pair hcalls hpaired =>
      refine (h.no_call hcalls fun hrest => ?_).elim
      have hunpaired : _ = false := hrest
      rw [hpaired] at hunpaired
      cases hunpaired
  | stop apiId =>
      refine ⟨⟨?_, h.atRest⟩, rfl⟩
      intro id
      show Function.update s.recording apiId false id = false
      by_cases heq : id = apiId
      · rw [heq, Function.update_self]
      · rw [Function.update_of_ne heq]
        exact h.stopped id

theorem Quiesced.steps (h : Quiesced s) (hsteps : s.Steps t) : Quiesced t ∧ t.calls = s.calls := by
  induction hsteps with
  | refl => exact ⟨h, rfl⟩
  | tail _ hstep ih =>
      obtain ⟨hquiesced, hcalls⟩ := ih
      obtain ⟨hnext, hsame⟩ := hquiesced.step hstep
      exact ⟨hnext, hsame.trans hcalls⟩

end Steps

/-- All loads of a channel find the calls in the same places. -/
structure LoadsStill (s : HookState) (loads : CounterReads) : Prop where
  recordable : loads.recordable.calls = s.calls
  successful : loads.successful.calls = s.calls
  failed : loads.failed.calls = s.calls
  filtered : loads.filtered.calls = s.calls
  dropped : loads.dropped.calls = s.calls
  paired : loads.paired.calls = s.calls

theorem Quiesced.follows {s : HookState} {loads : CounterReads} (h : Quiesced s)
    (hfollows : loads.Follows s) : Quiesced loads.paired ∧ LoadsStill s loads := by
  obtain ⟨hquiesced, hrecordable⟩ := h.steps hfollows.recordable
  obtain ⟨hquiesced, hsuccessful⟩ := hquiesced.steps hfollows.successful
  obtain ⟨hquiesced, hfailed⟩ := hquiesced.steps hfollows.failed
  obtain ⟨hquiesced, hfiltered⟩ := hquiesced.steps hfollows.filtered
  obtain ⟨hquiesced, hdropped⟩ := hquiesced.steps hfollows.dropped
  obtain ⟨hquiesced, hpaired⟩ := hquiesced.steps hfollows.paired
  rw [hrecordable] at hsuccessful
  rw [hsuccessful] at hfailed
  rw [hfailed] at hfiltered
  rw [hfiltered] at hdropped
  rw [hdropped] at hpaired
  exact ⟨hquiesced, hrecordable, hsuccessful, hfailed, hfiltered, hdropped, hpaired⟩

theorem Quiesced.interleaved {s : HookState} {reads : List (ℕ × CounterReads)} (h : Quiesced s)
    (hreads : Interleaved s reads) : ∀ entry ∈ reads, LoadsStill s entry.2 := by
  induction reads generalizing s with
  | nil =>
      intro entry hentry
      cases hentry
  | cons first rest ih =>
      obtain ⟨hfollows, hrest⟩ := hreads
      obtain ⟨hquiesced, hstill⟩ := h.follows hfollows
      intro entry hentry
      rcases List.mem_cons.mp hentry with rfl | hmem
      · exact hstill
      · have hentry := ih hquiesced hrest entry hmem
        have hsame := hstill.paired
        exact ⟨hentry.recordable.trans hsame, hentry.successful.trans hsame,
          hentry.failed.trans hsame, hentry.filtered.trans hsame, hentry.dropped.trans hsame,
          hentry.paired.trans hsame⟩

/-! ## The equations -/

/-- A region that splits every call at hand splits their number. -/
theorem numberIn_split {calls : List (RecordedCall × CallPlace)} {whole part rest : Region}
    (h : ∀ entry ∈ calls, inside whole entry.1 entry.2 =
      inside part entry.1 entry.2 + inside rest entry.1 entry.2) (apiId : ℕ) :
    numberIn calls apiId whole = numberIn calls apiId part + numberIn calls apiId rest := by
  induction calls with
  | nil => rfl
  | cons entry calls ih =>
      obtain ⟨call, place⟩ := entry
      have hentry : inside whole call place = inside part call place + inside rest call place :=
        h (call, place) List.mem_cons_self
      have hrest := ih fun other hother => h other (List.mem_cons_of_mem _ hother)
      have hcons : ∀ region, numberIn ((call, place) :: calls) apiId region =
          (if call.apiId = apiId then inside region call place else 0) +
            numberIn calls apiId region := by
        intro region
        rw [← numberIn_singleton, ← numberIn_append]
        rfl
      rw [hcons, hcons, hcons, hrest, hentry]
      split <;> omega

/-- Discarded one way or the other. -/
def discarded : Region := fun _ place => place = .filtered ∨ place = .dropped

/-- The outcome of every call is counted. -/
theorem quiesced_calls {s : HookState} (h : Quiesced s) (apiId : ℕ) :
    callsIn s apiId everywhere =
      callsIn s apiId (settledAs false) + callsIn s apiId (settledAs true) := by
  apply numberIn_split
  intro ⟨call, place⟩ hentry
  have hrest := h.atRest _ hentry
  unfold inside everywhere settledAs
  cases place with
  | entered => exact hrest.elim
  | settled | filtered | refused | dropped | queued | paired => cases call.failed <;> rfl

/-- Every call is queued or discarded, and every move in the queue is counted as a pair. -/
theorem quiesced_records {s : HookState} (hs : Counted s) (h : Quiesced s) (apiId : ℕ) :
    callsIn s apiId inQueue + callsIn s apiId pairInQueue + callsIn s apiId (at_ .filtered) +
        callsIn s apiId (at_ .dropped) =
      callsIn s apiId everywhere + callsIn s apiId (at_ .paired) := by
  have hall : callsIn s apiId everywhere = callsIn s apiId inQueue + callsIn s apiId discarded := by
    apply numberIn_split
    intro ⟨call, place⟩ hentry
    have hrest := h.atRest _ hentry
    cases place with
    | entered | settled | refused => exact hrest.elim
    | filtered | dropped | queued | paired => rfl
  have hdiscarded : callsIn s apiId discarded =
      callsIn s apiId (at_ .filtered) + callsIn s apiId (at_ .dropped) := by
    apply numberIn_split
    intro ⟨call, place⟩ hentry
    cases place <;> rfl
  have hpairs : callsIn s apiId pairInQueue =
      callsIn s apiId (at_ .paired) + callsIn s apiId (fun _ _ => false) := by
    apply numberIn_split
    intro ⟨call, place⟩ hentry
    cases place with
    | entered | settled | refused | filtered | dropped => rfl
    | queued =>
        have hunpaired : call.paired = false := h.atRest _ hentry
        unfold inside pairInQueue at_
        rw [hunpaired]
        rfl
    | paired =>
        have hpaired : call.paired = true := hs.ofPairs _ hentry rfl
        unfold inside pairInQueue at_
        rw [hpaired]
        rfl
  have hnone : callsIn s apiId (fun _ _ => false) = 0 := by
    apply List.countP_eq_zero.mpr
    intro entry hentry
    simp
  omega

section Stopped

variable {options : WriterOptions} {baselines : List MemoryBaseline}
  {actions : List WriterAction} {lastSample : Option (ℕ × List (ℕ → MemoryRecord))}
  {hooks : InstalledHooks} {last : HookState} {reads : List (ℕ × CounterReads)}
  {w : LinuxTraceWriter}

/-- The two equations of an API, in its counters at their loads. -/
structure Balances (w : LinuxTraceWriter) (loads : CounterReads) (apiId : ℕ) : Prop where
  calls : (loads.counters apiId).recordableCalls + pairedOf apiId (loads.counters apiId) =
    (loads.counters apiId).successfulCalls + pairedOf apiId (loads.counters apiId) +
      (loads.counters apiId).failedCalls
  records : (w.counters apiId).written + (w.counters apiId).traceDropped +
      (loads.counters apiId).filteredCalls + (loads.counters apiId).droppedEvents =
    (loads.counters apiId).recordableCalls + pairedOf apiId (loads.counters apiId) +
      (w.counters apiId).extraRecords

theorem StoppedCapture.balances
    (h : StoppedCapture options baselines actions lastSample hooks last reads w)
    (hquiesced : Quiesced last) (hdrained : eventsAmong actions = last.enqueued) {apiId : ℕ}
    (hapi : apiId ∈ options.apiIds) {loads : CounterReads} (hloads : (apiId, loads) ∈ reads) :
    Balances w loads apiId := by
  have hcounted := interleaved_counted h.counted h.loads _ hloads
  have hstill := hquiesced.interleaved h.loads _ hloads
  dsimp only at hcounted hstill
  have hrecords := atFinalize_records h.writer hapi
  rw [hdrained] at hrecords
  have hqueued : eventsOf last.enqueued apiId (fun _ => true) = _ := h.counted.queued apiId
  have hmoves : eventsOf last.enqueued apiId isMove = _ := h.counted.moves apiId
  have hcalls := quiesced_calls hquiesced apiId
  have hplaces := quiesced_records h.counted hquiesced apiId
  have hrecordable : (loads.counters apiId).recordableCalls = _ := hcounted.recordable.recordable apiId
  have hsuccessful : (loads.counters apiId).successfulCalls = _ :=
    hcounted.successful.successful apiId
  have hfailed : (loads.counters apiId).failedCalls = _ := hcounted.failed.failed apiId
  have hfiltered : (loads.counters apiId).filteredCalls = _ := hcounted.filtered.filtered apiId
  have hdropped : (loads.counters apiId).droppedEvents = _ := hcounted.dropped.dropped apiId
  have hpaired : pairedOf apiId (loads.counters apiId) = _ := pairedOf_eq hcounted.paired apiId
  unfold callsIn at *
  rw [hstill.recordable] at hrecordable
  rw [hstill.successful] at hsuccessful
  rw [hstill.failed] at hfailed
  rw [hstill.filtered] at hfiltered
  rw [hstill.dropped] at hdropped
  rw [hstill.paired] at hpaired
  constructor
  · omega
  · omega

/-- Balanced counters agree with the drained events, as words. -/
theorem Balances.agrees {loads : CounterReads} {apiId : ℕ} (h : Balances w loads apiId)
    (hwritten : (w.counters apiId).written ≤ maxU64) :
    AgreesAsWords (w.counters apiId) (channelSnapshot apiId (loads.counters apiId)) := by
  obtain ⟨hcalls, hrecords⟩ := h
  unfold channelSnapshot word
  refine ⟨?_, ?_, hwritten, ?_⟩
  · dsimp only
    omega
  · dsimp only
    omega
  · dsimp only
    unfold maxU64
    omega

theorem StoppedCapture.agrees
    (h : StoppedCapture options baselines actions lastSample hooks last reads w)
    (hquiesced : Quiesced last) (hdrained : eventsAmong actions = last.enqueued) :
    ∀ id ∈ options.apiIds, ∀ snapshot ∈ LinuxTraceWriter.snapshotOf options false id,
      AgreesAsWords (w.counters id) snapshot := by
  intro id hid snapshot hsnapshot
  obtain ⟨loads, hloads, rfl⟩ := h.mem_of_snapshot hsnapshot
  exact (h.balances hquiesced hdrained hid hloads).agrees (atFinalize_written h.writer hid)

end Stopped

/-! ## The result -/

/-- Whatever calls were interleaved, filtered or dropped, and wherever the file limit
was met: once all stops have returned true and the queue is drained, producers and
writer agree on every channel, no reconciliation check of the finalization throws, and
the statistics it emits validate. -/
theorem quiesced_reconciles (options : WriterOptions) (baselines : List MemoryBaseline)
    (actions : List WriterAction) (lastSample : Option (ℕ × List (ℕ → MemoryRecord)))
    (hooks : InstalledHooks) (last : HookState) (reads : List (ℕ × CounterReads))
    (w : LinuxTraceWriter)
    (h : StoppedCapture options baselines actions lastSample hooks last reads w)
    (hquiesced : Quiesced last) (hdrained : eventsAmong actions = last.enqueued) :
    (∀ apiId ∈ options.apiIds, ∀ loads, (apiId, loads) ∈ reads → Balances w loads apiId) ∧
    (∀ text after, finalizeTrace options w ≠ .error (.runtime text) after) ∧
    ∀ m, (do releaseReserve; writeCollectedLosses options : WriterM Unit) w = .ok () m →
      (∀ text, m.makeStatistics options ≠ .error (.runtime text)) ∧
      ∀ statistics, m.makeStatistics options = .ok statistics →
        validateStatistics statistics = .ok () := by
  have hthrows : ∀ m, ledger m = ledger w → ThrowsOnly Overflow (m.makeStatistics options) := by
    intro m hledger
    have hcounters : m.counters = w.counters := congrArg Ledger.counters hledger
    apply makeStatistics_throws_of ((atFinalize_drained h.writer).congr hledger)
    rw [hcounters]
    exact h.agrees hquiesced hdrained
  refine ⟨fun apiId hapi loads hloads => h.balances hquiesced hdrained hapi hloads, ?_, ?_⟩
  · intro text after hrun
    exact finalizeTrace_notRuntime hthrows hrun
  · intro m hm
    have hledger := beforeStatistics_ledger hm
    constructor
    · intro text hthrow
      exact hthrows m hledger _ hthrow
    · intro statistics hmake
      obtain ⟨rfl, hreconciled⟩ := makeStatistics_reconciled hmake
      exact (hreconciled.statistics ((atFinalize_drained h.writer).congr hledger)).2

/-! ### One call, recorded and drained -/

/-- Stop the channels, one after the other. -/
theorem stops (s : HookState) (channels : List ℕ) :
    s.Steps { s with recording := fun apiId => s.recording apiId && decide (apiId ∉ channels) } := by
  induction channels with
  | nil =>
      simp only [List.not_mem_nil, not_false_eq_true, decide_true, Bool.and_true]
      exact .refl
  | cons channel channels ih =>
      refine .tail ih ?_
      have hlast : (fun apiId => s.recording apiId && decide (apiId ∉ channel :: channels)) =
          Function.update (fun apiId => s.recording apiId && decide (apiId ∉ channels)) channel
            false := by
        funext apiId
        by_cases heq : apiId = channel
        · subst heq
          simp
        · rw [Function.update_of_ne heq]
          simp [heq]
      rw [hlast]
      exact .stop channel

def lateEvent : LinuxHeapEvent :=
  emitEvent ⟨1, 11, 1, {}⟩ { apiId := 10, operation := .allocate, requestedSize := 32, result := 0x1000 }

def lateSettled : HookState :=
  (lateEntered.withCalls [(lateMalloc, .settled)]).count lateMalloc.apiId
    (.noteCallOutcome · lateMalloc.failed)

def lateQueued : HookState :=
  (lateSettled.withCalls [(lateMalloc, .queued)]).enqueue lateEvent

/-- The call has returned and the heap family is stopped. -/
def lateStopped : HookState := { lateQueued with recording := fun _ => false }

theorem late_stops : Steps heapHooks.start lateStopped := by
  have houtcome : Step lateEntered lateSettled :=
    .outcome (show lateEntered.calls = [] ++ (lateMalloc, .entered) :: [] from rfl)
  have hemplace : Step lateSettled lateQueued :=
    .emplace (show lateSettled.calls = [] ++ (lateMalloc, .settled) :: [] from rfl) ⟨1, 11, 1, {}⟩
      rfl lateEvent rfl
  have hstops := stops lateQueued heapHooks.channels
  have hlast : (fun apiId => lateQueued.recording apiId && decide (apiId ∉ heapHooks.channels)) =
      fun _ => false := by
    funext apiId
    show (decide (apiId ∈ heapHooks.channels) && decide (apiId ∉ heapHooks.channels)) = false
    by_cases hmem : apiId ∈ heapHooks.channels
    · simp [hmem]
    · simp [hmem]
  rw [hlast] at hstops
  exact ((late_enters.tail houtcome).tail hemplace).trans hstops

theorem late_quiesced : Quiesced lateStopped where
  stopped _ := rfl
  atRest := by
    intro entry hentry
    obtain rfl := List.mem_singleton.mp hentry
    rfl

/-- One `malloc` is recorded and written, and the counts agree. -/
theorem quiesced_reconciles_malloc :
    ∃ w, AtFinalize (countingOptions lateStopped) [] [.event lateEvent] none w ∧
      w.writtenEvents = 1 ∧
      ∀ text after, finalizeTrace (countingOptions lateStopped) w ≠ .error (.runtime text) after := by
  generalize hoptions : countingOptions lateStopped = options
  have hrun : wp (do
      beginCapture options []
      captureLoop options [.event lateEvent]
      flushPending options : WriterM Unit)
      (fun _ w => w.writtenEvents = 1) (fun _ _ => False) (.start options) := by
    rw [← hoptions]
    decide +kernel
  obtain ⟨_, k, hrun, hwritten⟩ := wp_run hrun
  obtain ⟨_, m, hbegin, hrun⟩ := run_bind_eq_ok.mp hrun
  obtain ⟨_, w, hloop, hflush⟩ := run_bind_eq_ok.mp hrun
  have hk : AtFinalize options [] [.event lateEvent] none k :=
    ⟨w, k, run_bind_eq_ok.mpr ⟨_, m, hbegin, hloop⟩, hflush, rfl⟩
  subst hoptions
  have hstopped : StoppedCapture (countingOptions lateStopped) [] [.event lateEvent] none heapHooks
      lateStopped (readsIn lateStopped heapHooks) k :=
    ⟨late_stops, List.prefix_refl _, readsIn_channels _ _, readsIn_interleaved _ _, ⟨_, rfl, rfl⟩, hk⟩
  exact ⟨k, hk, hwritten, (quiesced_reconciles _ [] _ none heapHooks _ _ k hstopped late_quiesced
    rfl).2.1⟩

end Noleax.Hooks
