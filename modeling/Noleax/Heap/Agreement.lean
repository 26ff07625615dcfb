import Noleax.Agent.TraceWriter
import Noleax.Heap.Mirror

/-!
# Writer and analyzer agree on the heap

The writer stamps the records of a stream of raw heap events, the analyzer observes
them. As long as the id spaces stay apart, the analyzer holds every generation of the
writer, and the ones it holds beyond are those whose address was handed out again.
-/

namespace Noleax.Heap

open Lib Trace Agent Analyzer LinuxTraceWriter

/-! ## The records -/

/-- The generation a record creates, with its address. -/
def createdGeneration (event : Event) : Option (ℕ × ℕ) :=
  match event.payload with
  | .allocation payload =>
      if allocationCreatesGeneration event.header payload then
        some (payload.allocationId, payload.resultAddress)
      else none
  | .reallocation payload =>
      if reallocationCreatesNewGeneration event.header payload then
        some (payload.newAllocationId, payload.resultAddress)
      else none
  | _ => none

/-- The generations the records create, in order. -/
def createdLog (events : List Event) : Log := events.filterMap createdGeneration

theorem createdLog_append (events more : List Event) :
    createdLog (events ++ more) = createdLog events ++ createdLog more :=
  List.filterMap_append

/-- The record of a raw heap event at a wire sequence. -/
def stampHeap (ticks stackId : LinuxHeapEvent → ℕ) (raw : LinuxHeapEvent) (wire : ℕ)
    (status : EventStatus) (payload : EventPayload) : Event where
  header := { eventHeader raw (ticks raw) wire (stackId raw) with status := status }
  payload := payload

/-- A record creates one generation at most. -/
theorem logged_length (log : Log) (event : Event) :
    (log ++ (createdGeneration event).toList).length ≤ log.length + 1 := by
  rw [List.length_append]
  cases createdGeneration event <;> simp

/-- Stamp the events one after the other; the ticks and the stack ids come from the
rest of the writer. -/
def heapStream (ctx : VmContext) (ticks stackId : LinuxHeapEvent → ℕ) :
    HeapState → ℕ → List LinuxHeapEvent → Except Error (HeapState × List Event)
  | st, _, [] => .ok (st, [])
  | st, wire, raw :: raws => do
      let (st, status, payload) ← st.planHeapEvent ctx raw
      let (st, events) ← heapStream ctx ticks stackId st (wire + 1) raws
      return (st, stampHeap ticks stackId raw wire status payload :: events)

/-- Heap events that pass `validate_raw_event` one after the other. -/
def AcceptedHeap (monotonicOrigin customDefinitions : ℕ) : ℕ → List LinuxHeapEvent → Prop
  | _, [] => True
  | lastSequence, raw :: raws =>
      ¬ raw.IsVm ∧
        validateRawEvent ⟨monotonicOrigin, customDefinitions, lastSequence⟩ raw = .ok () ∧
        AcceptedHeap monotonicOrigin customDefinitions raw.queueSequence raws

/-- A call that returned a block. -/
abbrev ReturnsBlock (raw : LinuxHeapEvent) : Prop := raw.Succeeded ∧ raw.resultAddress ≠ 0

/-- At every call that returns a block, the id spaces are apart. -/
def StreamApart (ctx : VmContext) : HeapState → List LinuxHeapEvent → Prop
  | _, [] => True
  | st, raw :: raws =>
      (ReturnsBlock raw → IdsApart st raw.apiId) ∧
        ∀ st' status payload, st.planHeapEvent ctx raw = .ok (st', status, payload) →
          StreamApart ctx st' raws

/-! ## One record -/

/-- The record is valid, and observing it takes the analyzer along. -/
def Observed (st' : HeapState) (t : GenerationTracker) (log : Log) (event : Event) : Prop :=
  validateEvent event = .ok () ∧
    ∃ t', t.step event = .ok t' ∧ Mirrors st' t' (log ++ (createdGeneration event).toList)

variable {ctx : VmContext} {st st' : HeapState} {t : GenerationTracker} {log : Log}
  {raw : LinuxHeapEvent} {status : EventStatus} {header : EventHeader}

/-- A record that does nothing to any generation. -/
theorem observed_silent (h : Mirrors st t log) {event : Event} (hvalid : validateEvent event = .ok ())
    (hdispatch : t.dispatch event = .ok (t, [])) (hcreated : createdGeneration event = none) :
    Observed st t log event := by
  refine ⟨hvalid, t, GenerationTracker.step_of_dispatch [] hvalid hdispatch, ?_⟩
  rw [hcreated]
  simpa using h

theorem create_eq_ok {apiId address id : ℕ} (h : st.create apiId address = .ok (st', id)) :
    ∃ m, st.makeAllocationId apiId = .ok (m, id) ∧ st' = Mirrors.createdState m id address := by
  unfold HeapState.create at h
  obtain ⟨⟨m, made⟩, hmake, h⟩ := bind_eq_ok.mp h
  cases h
  exact ⟨m, hmake, rfl⟩

section Allocate

theorem validateEvent_allocation {event : AllocationEvent} (hheader : validateHeader header = .ok ())
    (hstatus : header.status = .success) (hresult : event.resultAddress ≠ 0)
    (hid : event.allocationId ≠ 0) : validateEvent ⟨header, .allocation event⟩ = .ok () := by
  unfold validateEvent validateAllocation validateCallResultStatus
  simp [hheader, hstatus, hresult, hid]

theorem observed_allocation_failure (h : Mirrors st t log) {event : AllocationEvent}
    (hheader : validateHeader header = .ok ()) (hstatus : header.status = .failure)
    (hresult : event.resultAddress = 0) (hid : event.allocationId = 0) :
    Observed st t log ⟨header, .allocation event⟩ := by
  have hfailed : ¬ allocationCreatesGeneration header event := by
    rintro ⟨hsucceeded, -⟩
    exact hsucceeded hstatus
  refine observed_silent h ?_ ?_ ?_
  · unfold validateEvent validateAllocation validateCallResultStatus
    simp [hheader, hstatus, hresult, hid]
  · show t.observeAllocation _ event = _
    unfold GenerationTracker.observeAllocation
    rw [if_neg hfailed]
  · unfold createdGeneration
    exact if_neg hfailed

theorem observed_allocation (h : Mirrors st t log) {m : HeapState} {event : AllocationEvent}
    (hheader : validateHeader header = .ok ()) (hstatus : header.status = .success)
    (hresult : event.resultAddress ≠ 0) (hheap : event.heapId = 0)
    (hminted : Minted st m event.allocationId) (hroom : log.length < maxU64) :
    Observed (Mirrors.createdState m event.allocationId event.resultAddress) t log
      ⟨header, .allocation event⟩ := by
  have hcreates : allocationCreatesGeneration header event := by
    refine ⟨?_, hminted.ne_zero⟩
    rw [hstatus]
    decide
  have hvalid := validateEvent_allocation hheader hstatus hresult hminted.ne_zero
  let g : MemoryGeneration :=
    { kind := .heapAllocation
      allocationId := event.allocationId
      heapId := event.heapId
      heapHandle := event.heapHandle
      address := event.resultAddress
      size := event.requestedSize
      createdBy := ⟨header, .allocation event⟩ }
  refine ⟨hvalid, Mirrors.added t g,
    GenerationTracker.step_of_dispatch [.created g] hvalid ?_, ?_⟩
  · show t.observeAllocation _ event = _
    unfold GenerationTracker.observeAllocation
    rw [if_pos hcreates]
    exact h.addAllocation_minted (g := g) hminted hroom
  · have hcreated : createdGeneration ⟨header, .allocation event⟩ =
        some (event.allocationId, event.resultAddress) := if_pos hcreates
    rw [hcreated]
    exact h.create (g := g) hminted rfl hheap

end Allocate

section Reallocate

variable {event : ReallocationEvent}

/-- What an unmatched record's status is not. -/
theorem unmatchedStatus_cases (ctx : VmContext) (address : ℕ) :
    unmatchedStatus ctx address = .unmatched ∨ unmatchedStatus ctx address = .preexisting := by
  unfold unmatchedStatus
  split
  · exact .inr rfl
  · exact .inl rfl

/-- A failed reallocation, or one of an unknown block that returned none. -/
theorem observed_reallocation_none (h : Mirrors st t log) (hheader : validateHeader header = .ok ())
    (hstatus : header.status = .failure ∨
      ((header.status = .unmatched ∨ header.status = .preexisting) ∧ event.oldAllocationId = 0))
    (heffect : event.effect = .noChange) (hresult : event.resultAddress = 0)
    (hnew : event.newAllocationId = 0) :
    Observed st t log ⟨header, .reallocation event⟩ := by
  have hcreates : ¬ reallocationCreatesNewGeneration header event := by
    rintro ⟨-, heff, -⟩
    rw [heffect] at heff
    cases heff
  have hends : ¬ reallocationEndsOldGeneration header event := by
    rintro ⟨-, -, heff⟩
    rw [heffect] at heff
    rcases heff with heff | heff <;> cases heff
  refine observed_silent h ?_ ?_ ?_
  · unfold validateEvent validateReallocation
    rcases hstatus with hstatus | ⟨hstatus | hstatus, hold⟩
    · simp [hheader, hstatus, heffect, hresult, hnew]
    · simp [hheader, hstatus, heffect, hresult, hnew, hold]
    · simp [hheader, hstatus, heffect, hresult, hnew, hold]
  · show t.observeReallocation _ event = _
    unfold GenerationTracker.observeReallocation GenerationTracker.endReallocated
    rw [if_neg hcreates, if_neg hends]
  · unfold createdGeneration
    exact if_neg hcreates

/-- `realloc(p, 0)`: the generation at the old address ends. -/
theorem observed_reallocation_freed (h : Mirrors st t log)
    (hheader : validateHeader header = .ok ()) (hstatus : header.status = .success)
    (heffect : event.effect = .freed) (hresult : event.resultAddress = 0)
    (hnew : event.newAllocationId = 0) (hheap : event.heapId = 0)
    (hlive : st.live[event.oldAddress]? = some event.oldAllocationId)
    (hold : event.oldAllocationId ≠ 0) (hroom : log.length < maxU64) :
    Observed (Mirrors.releasedState st event.oldAddress) t log ⟨header, .reallocation event⟩ := by
  have hcreates : ¬ reallocationCreatesNewGeneration header event := by
    rintro ⟨-, heff, -⟩
    rw [heffect] at heff
    cases heff
  have hends : reallocationEndsOldGeneration header event := by
    refine ⟨?_, hold, .inr heffect⟩
    rw [hstatus]
    decide
  have hvalid : validateEvent ⟨header, .reallocation event⟩ = .ok () := by
    unfold validateEvent validateReallocation
    simp [hheader, hstatus, heffect, hresult, hnew, hold]
  obtain ⟨notes, hend⟩ := h.endAllocation_live hlive hroom
    (if event.effect = .freed then .reallocationFreed else .reallocated)
    ⟨header, .reallocation event⟩
  refine ⟨hvalid, Mirrors.endedTracker t event.oldAllocationId,
    GenerationTracker.step_of_dispatch notes hvalid ?_, ?_⟩
  · show t.observeReallocation _ event = _
    unfold GenerationTracker.observeReallocation GenerationTracker.endReallocated
    rw [if_neg hcreates, if_pos hends, hheap]
    exact hend
  · have hcreated : createdGeneration ⟨header, .reallocation event⟩ = none := if_neg hcreates
    rw [hcreated]
    simpa using h.release hlive

/-- The generation a reallocation creates. -/
def reallocated (header : EventHeader) (event : ReallocationEvent) : MemoryGeneration where
  kind := .heapAllocation
  allocationId := event.newAllocationId
  heapId := event.heapId
  heapHandle := event.heapHandle
  address := event.resultAddress
  size := event.requestedSize
  createdBy := ⟨header, .reallocation event⟩

/-- A reallocation whose old generation, if it names one, has ended on both sides. -/
theorem observed_reallocation_new {st₁ : HeapState} {t₁ : GenerationTracker}
    {notes : List Notification} (h : Mirrors st t log) (h₁ : Mirrors st₁ t₁ log)
    (hvalid : validateEvent ⟨header, .reallocation event⟩ = .ok ())
    (hcreates : reallocationCreatesNewGeneration header event) (hheap : event.heapId = 0)
    (hend : t.endReallocated ⟨header, .reallocation event⟩ event = .ok (t₁, notes))
    (hfresh : ¬ HandedOut st event.newAllocationId) {m : HeapState}
    (hminted : Minted st₁ m event.newAllocationId) (hroom : log.length < maxU64) :
    Observed (Mirrors.createdState m event.newAllocationId event.resultAddress) t log
      ⟨header, .reallocation event⟩ := by
  have hadd := h₁.addAllocation_minted (g := reallocated header event) hminted hroom
  refine ⟨hvalid, Mirrors.added t₁ (reallocated header event), GenerationTracker.step_of_dispatch
    (notes ++ [.created (reallocated header event)]) hvalid ?_, ?_⟩
  · show t.observeReallocation _ event = _
    unfold GenerationTracker.observeReallocation
    rw [if_pos hcreates, h.requireNew_fresh hminted.ne_zero hfresh, ok_bind, hend, ok_bind]
    dsimp only
    unfold reallocated at hadd ⊢
    rw [hadd, ok_bind]
    rfl
  · have hcreated : createdGeneration ⟨header, .reallocation event⟩ =
        some (event.newAllocationId, event.resultAddress) := if_pos hcreates
    rw [hcreated]
    exact h₁.create (g := reallocated header event) hminted rfl hheap

/-- `realloc(p, n)` of a known block: its generation ends, a new one is created. -/
theorem observed_reallocation_moved (h : Mirrors st t log) {m : HeapState}
    (hheader : validateHeader header = .ok ()) (hstatus : header.status = .success)
    (heffect : event.effect = .newGeneration) (hresult : event.resultAddress ≠ 0)
    (hheap : event.heapId = 0) (hlive : st.live[event.oldAddress]? = some event.oldAllocationId)
    (hminted : Minted (Mirrors.releasedState st event.oldAddress) m event.newAllocationId)
    (hroom : log.length < maxU64) :
    Observed (Mirrors.createdState m event.newAllocationId event.resultAddress) t log
      ⟨header, .reallocation event⟩ := by
  have hreleased := h.release hlive
  obtain ⟨g, hg, -⟩ := h.live _ _ hlive
  have hold := h.live_handedOut hg
  have hfresh : ¬ HandedOut st event.newAllocationId := hminted.fresh
  have hne : event.oldAllocationId ≠ event.newAllocationId := fun heq => hfresh (heq ▸ hold)
  have hsucceeded : callSucceeded header.status := by
    rw [hstatus]
    decide
  have hvalid : validateEvent ⟨header, .reallocation event⟩ = .ok () := by
    unfold validateEvent validateReallocation
    simp [hheader, hstatus, heffect, hresult, hminted.ne_zero, hold.ne_zero, hne]
  obtain ⟨notes, hend⟩ := h.endAllocation_live hlive hroom
    (if event.effect = .freed then .reallocationFreed else .reallocated)
    ⟨header, .reallocation event⟩
  have hended : t.endReallocated ⟨header, .reallocation event⟩ event =
      .ok (Mirrors.endedTracker t event.oldAllocationId, notes) := by
    unfold GenerationTracker.endReallocated
    rw [if_pos ⟨hsucceeded, hold.ne_zero, .inl heffect⟩, hheap]
    exact hend
  exact observed_reallocation_new h hreleased hvalid ⟨hsucceeded, heffect, hminted.ne_zero⟩ hheap
    hended hfresh hminted hroom

/-- A reallocation that allocates: no known block ends. -/
theorem observed_reallocation_fresh (h : Mirrors st t log) {m : HeapState}
    (hheader : validateHeader header = .ok ())
    (hstatus : header.status = .unmatched ∨ header.status = .preexisting)
    (heffect : event.effect = .newGeneration) (hresult : event.resultAddress ≠ 0)
    (hheap : event.heapId = 0) (hold : event.oldAllocationId = 0)
    (hminted : Minted st m event.newAllocationId) (hroom : log.length < maxU64) :
    Observed (Mirrors.createdState m event.newAllocationId event.resultAddress) t log
      ⟨header, .reallocation event⟩ := by
  have hsucceeded : callSucceeded header.status := by
    rcases hstatus with hstatus | hstatus <;> rw [hstatus] <;> decide
  have hvalid : validateEvent ⟨header, .reallocation event⟩ = .ok () := by
    unfold validateEvent validateReallocation
    rcases hstatus with hstatus | hstatus <;>
      simp [hheader, hstatus, heffect, hresult, hminted.ne_zero, hold]
  have hended : t.endReallocated ⟨header, .reallocation event⟩ event = .ok (t, []) := by
    unfold GenerationTracker.endReallocated
    rw [if_neg fun hends => hends.2.1 hold]
  exact observed_reallocation_new h h hvalid ⟨hsucceeded, heffect, hminted.ne_zero⟩ hheap hended
    hminted.fresh hminted hroom

end Reallocate

section Free

variable {event : FreeEvent}

/-- A free that failed or met no known block. -/
theorem observed_free_none (h : Mirrors st t log) (hheader : validateHeader header = .ok ())
    (hstatus : header.status ≠ .success) (hid : event.allocationId = 0) :
    Observed st t log ⟨header, .free event⟩ := by
  have hends : ¬ freeEndsGeneration header event := fun hends => hends.2 hid
  refine observed_silent h ?_ ?_ rfl
  · unfold validateEvent validateFree
    simp [hheader, hstatus, hid]
  · show t.observeFree _ event = _
    unfold GenerationTracker.observeFree
    rw [if_neg hends]

theorem observed_free (h : Mirrors st t log) (hheader : validateHeader header = .ok ())
    (hstatus : header.status = .success) (hheap : event.heapId = 0)
    (hlive : st.live[event.address]? = some event.allocationId) (hid : event.allocationId ≠ 0)
    (hroom : log.length < maxU64) :
    Observed (Mirrors.releasedState st event.address) t log ⟨header, .free event⟩ := by
  have hends : freeEndsGeneration header event := by
    refine ⟨?_, hid⟩
    rw [hstatus]
    decide
  have hvalid : validateEvent ⟨header, .free event⟩ = .ok () := by
    unfold validateEvent validateFree
    simp [hheader, hstatus, hid]
  obtain ⟨notes, hend⟩ := h.endAllocation_live hlive hroom .freed ⟨header, .free event⟩
  refine ⟨hvalid, Mirrors.endedTracker t event.allocationId,
    GenerationTracker.step_of_dispatch notes hvalid ?_, ?_⟩
  · show t.observeFree _ event = _
    unfold GenerationTracker.observeFree
    rw [if_pos hends, hheap]
    exact hend
  · have hcreated : createdGeneration ⟨header, .free event⟩ = none := rfl
    rw [hcreated]
    simpa using h.release hlive

end Free

/-! ## One raw event -/

theorem validateHeader_status (hheader : validateHeader header = .ok ()) (status : EventStatus) :
    validateHeader { header with status := status } = .ok () :=
  validateHeader_eq_ok.mpr (validateHeader_eq_ok.mp hheader)

theorem planFree_observed (h : Mirrors st t log) (hheader : validateHeader header = .ok ())
    (hroom : log.length < maxU64) :
    Observed (st.planFree ctx raw).1 t log
      ⟨{ header with status := (st.planFree ctx raw).2.1 }, .free (st.planFree ctx raw).2.2⟩ := by
  have hheader' := validateHeader_status hheader
  unfold HeapState.planFree
  by_cases hok : raw.Succeeded
  · rw [if_pos hok]
    cases hlive : st.live[raw.address]? with
    | some id =>
        obtain ⟨g, hg, -⟩ := h.live _ _ hlive
        exact observed_free h (hheader' _) rfl rfl hlive (h.live_handedOut hg).ne_zero hroom
    | none =>
        have hstatus : unmatchedStatus ctx raw.address ≠ .success := by
          rcases unmatchedStatus_cases ctx raw.address with hstatus | hstatus <;> rw [hstatus] <;>
            decide
        exact observed_free_none h (hheader' _) hstatus rfl
  · rw [if_neg hok]
    exact observed_free_none h (hheader' _) (fun hstatus => by cases hstatus) rfl

section Plan

variable {payload : EventPayload} (h : Mirrors st t log) (hheader : validateHeader header = .ok ())
  (hvalid : validateOperation raw = .ok ()) (hapart : ReturnsBlock raw → IdsApart st raw.apiId)
  (hroom : log.length < maxU64)

include h hheader hvalid hapart hroom

theorem planAllocate_observed (hop : raw.operation = .allocate) {event : AllocationEvent}
    (hplan : st.planAllocate raw = .ok (st', status, event)) :
    Observed st' t log ⟨{ header with status := status }, .allocation event⟩ := by
  have hheader' := validateHeader_status hheader status
  unfold validateOperation at hvalid
  rw [hop] at hvalid
  dsimp only at hvalid
  rw [failIf_eq_ok] at hvalid
  unfold HeapState.planAllocate at hplan
  by_cases hok : raw.Succeeded
  · rw [if_pos hok] at hplan
    have hresult : raw.resultAddress ≠ 0 := by tauto
    obtain ⟨⟨made, id⟩, hcreate, hplan⟩ := bind_eq_ok.mp hplan
    cases hplan
    obtain ⟨m, hmake, rfl⟩ := create_eq_ok hcreate
    have hminted := makeAllocationId_minted h.counting (hapart ⟨hok, hresult⟩) hmake
    exact observed_allocation h hheader' rfl hresult rfl hminted hroom
  · rw [if_neg hok] at hplan
    cases hplan
    have hresult : raw.resultAddress = 0 := by tauto
    exact observed_allocation_failure h hheader' rfl hresult rfl

/-- The block a reallocation knows is the one the writer holds at its address. -/
theorem planReallocate_observed (hop : raw.operation = .reallocate) {event : ReallocationEvent}
    (hplan : st.planReallocate ctx raw = .ok (st', status, event)) :
    Observed st' t log ⟨{ header with status := status }, .reallocation event⟩ := by
  have hheader' := validateHeader_status hheader status
  unfold validateOperation at hvalid
  rw [hop] at hvalid
  simp only [failIf_bind_eq_ok, failIf_eq_ok] at hvalid
  obtain ⟨hfailure, hsuccess⟩ := hvalid
  unfold HeapState.planReallocate at hplan
  by_cases hok : raw.Succeeded
  · rw [if_pos hok] at hplan
    cases hold : st.oldAllocation raw with
    | some old =>
        rw [hold] at hplan
        dsimp only at hplan
        have hlive : st.live[raw.address]? = some old := by
          unfold HeapState.oldAllocation at hold
          split at hold
          · exact hold
          · cases hold
        have hbase : (st.reallocationBase raw).oldAllocationId = old := by
          unfold HeapState.reallocationBase
          rw [hold]
          rfl
        obtain ⟨g, hg, -⟩ := h.live _ _ hlive
        have hhanded := h.live_handedOut hg
        by_cases hresult : raw.resultAddress = 0
        · rw [if_pos hresult] at hplan
          cases hplan
          refine observed_reallocation_freed h hheader' rfl rfl hresult rfl rfl ?_ ?_ hroom
          · show st.live[raw.address]? = some (st.reallocationBase raw).oldAllocationId
            rw [hbase, hlive]
          · show (st.reallocationBase raw).oldAllocationId ≠ 0
            rw [hbase]
            exact hhanded.ne_zero
        · rw [if_neg hresult] at hplan
          obtain ⟨⟨made, id⟩, hcreate, hplan⟩ := bind_eq_ok.mp hplan
          cases hplan
          obtain ⟨m, hmake, rfl⟩ := create_eq_ok hcreate
          have hreleased := h.release hlive
          have hminted : Minted (Mirrors.releasedState st raw.address) m id :=
            makeAllocationId_minted hreleased.counting (hapart ⟨hok, hresult⟩) hmake
          refine observed_reallocation_moved h hheader' rfl rfl hresult rfl ?_ hminted hroom
          show st.live[raw.address]? = some (st.reallocationBase raw).oldAllocationId
          rw [hbase, hlive]
    | none =>
        rw [hold] at hplan
        dsimp only at hplan
        have hbase : (st.reallocationBase raw).oldAllocationId = 0 := by
          unfold HeapState.reallocationBase
          rw [hold]
          rfl
        have hstatus := unmatchedStatus_cases ctx raw.address
        by_cases hresult : raw.resultAddress = 0
        · rw [if_neg (not_not.mpr hresult)] at hplan
          cases hplan
          exact observed_reallocation_none h hheader' (.inr ⟨hstatus, hbase⟩) rfl hresult rfl
        · rw [if_pos hresult] at hplan
          obtain ⟨⟨made, id⟩, hcreate, hplan⟩ := bind_eq_ok.mp hplan
          cases hplan
          obtain ⟨m, hmake, rfl⟩ := create_eq_ok hcreate
          have hminted := makeAllocationId_minted h.counting (hapart ⟨hok, hresult⟩) hmake
          exact observed_reallocation_fresh h hheader' hstatus rfl hresult rfl hbase hminted hroom
  · rw [if_neg hok] at hplan
    cases hplan
    have hresult : raw.resultAddress = 0 := by tauto
    exact observed_reallocation_none h hheader' (.inl rfl) rfl hresult rfl

theorem planHeapEvent_observed (hheap : ¬ raw.IsVm)
    (hplan : st.planHeapEvent ctx raw = .ok (st', status, payload)) :
    Observed st' t log ⟨{ header with status := status }, payload⟩ := by
  unfold HeapState.planHeapEvent at hplan
  cases hop : raw.operation with
  | allocate =>
      rw [hop] at hplan
      obtain ⟨⟨st₁, status₁, event⟩, hrun, hplan⟩ := bind_eq_ok.mp hplan
      cases hplan
      exact planAllocate_observed h hheader hvalid hapart hroom hop hrun
  | reallocate =>
      rw [hop] at hplan
      obtain ⟨⟨st₁, status₁, event⟩, hrun, hplan⟩ := bind_eq_ok.mp hplan
      cases hplan
      exact planReallocate_observed h hheader hvalid hapart hroom hop hrun
  | free =>
      rw [hop] at hplan
      cases hplan
      exact planFree_observed h hheader hroom
  | _ => exact absurd (by simp [LinuxHeapEvent.IsVm, hop]) hheap

end Plan

/-! ### Planning fails only when an id space is exhausted -/

/-- The id counters have run out. -/
abbrev Exhausted (e : Error) : Prop := ∃ what, e = .overflow what

theorem makeAllocationId_throws (st : HeapState) (apiId : ℕ) :
    ThrowsOnly Exhausted (st.makeAllocationId apiId) := by
  intro e h
  unfold HeapState.makeAllocationId at h
  dsimp only at h
  split at h
  · split at h
    · cases h
      exact ⟨_, rfl⟩
    · cases h
  · split at h
    · cases h
      exact ⟨_, rfl⟩
    · cases h

theorem create_throws (st : HeapState) (apiId address : ℕ) :
    ThrowsOnly Exhausted (st.create apiId address) :=
  (makeAllocationId_throws st apiId).bind fun _ _ => throwsOnly_pure _

theorem planHeapEvent_throws (hheap : ¬ raw.IsVm) :
    ThrowsOnly Exhausted (st.planHeapEvent ctx raw) := by
  unfold HeapState.planHeapEvent
  cases hop : raw.operation with
  | allocate =>
      refine ThrowsOnly.bind ?_ fun _ _ => throwsOnly_pure _
      unfold HeapState.planAllocate
      exact throwsOnly_ite (fun _ => (create_throws _ _ _).bind fun _ _ => throwsOnly_pure _)
        fun _ => throwsOnly_ok _
  | reallocate =>
      refine ThrowsOnly.bind ?_ fun _ _ => throwsOnly_pure _
      unfold HeapState.planReallocate
      refine throwsOnly_ite (fun _ => ?_) fun _ => throwsOnly_ok _
      cases st.oldAllocation raw with
      | some old =>
          exact throwsOnly_ite (fun _ => throwsOnly_ok _) fun _ =>
            (create_throws _ _ _).bind fun _ _ => throwsOnly_pure _
      | none =>
          exact throwsOnly_ite (fun _ => (create_throws _ _ _).bind fun _ _ => throwsOnly_pure _)
            fun _ => throwsOnly_ok _
  | free => exact throwsOnly_ok _
  | _ => exact absurd (by simp [LinuxHeapEvent.IsVm, hop]) hheap

/-! ## The stream -/

theorem validateHeader_eventHeader (raw : LinuxHeapEvent) (ticks stackId : ℕ) {wire : ℕ}
    (hwire : wire ≠ 0) : validateHeader (eventHeader raw ticks wire stackId) = .ok () := by
  rw [validateHeader_eq_ok]
  refine ⟨hwire, ?_⟩
  rintro ⟨hdomain, hcode⟩
  unfold eventHeader at hdomain hcode
  dsimp only at hdomain hcode
  split at hdomain
  · rename_i hok
    rw [if_pos hok] at hcode
    exact hcode rfl
  · cases hdomain

theorem heapStream_observed {ticks stackId : LinuxHeapEvent → ℕ} {monotonicOrigin customDefinitions
    lastSequence wire : ℕ} {raws : List LinuxHeapEvent} (h : Mirrors st t log)
    (haccepted : AcceptedHeap monotonicOrigin customDefinitions lastSequence raws)
    (hlast : lastSequence ≤ maxU64) (hlog : log.length ≤ lastSequence) (hwire : wire ≠ 0)
    (hapart : StreamApart ctx st raws)
    (hids : ∀ what, heapStream ctx ticks stackId st wire raws ≠ .error (.overflow what)) :
    ∃ st' events t', heapStream ctx ticks stackId st wire raws = .ok (st', events) ∧
      (∀ event ∈ events, validateEvent event = .ok ()) ∧ t.run events = .ok t' ∧
      Mirrors st' t' (log ++ createdLog events) := by
  induction raws generalizing st t log lastSequence wire with
  | nil => exact ⟨st, [], t, rfl, by simp, rfl, by simpa [createdLog] using h⟩
  | cons raw raws ih =>
      obtain ⟨hheap, hvalid, haccepted⟩ := haccepted
      obtain ⟨hcreates, hrest⟩ := hapart
      obtain ⟨-, -, -, hoperation, -, hne, hnext⟩ := validateRawEvent_eq_ok.mp hvalid
      dsimp only at hne hnext
      unfold heapStream at hids ⊢
      cases hplan : st.planHeapEvent ctx raw with
      | error e =>
          obtain ⟨what, rfl⟩ := planHeapEvent_throws hheap e hplan
          rw [hplan, error_bind] at hids
          exact absurd rfl (hids what)
      | ok planned =>
          obtain ⟨st₁, status, payload⟩ := planned
          obtain ⟨hevent, t₁, hstep, h₁⟩ := planHeapEvent_observed h
            (validateHeader_eventHeader raw (ticks raw) (stackId raw) hwire) hoperation hcreates
            (by omega) hheap hplan
          rw [hplan, ok_bind] at hids
          rw [ok_bind]
          dsimp only at hids ⊢
          have hgrown : (log ++ (createdGeneration
              (stampHeap ticks stackId raw wire status payload)).toList).length ≤
                raw.queueSequence := by
            have := logged_length log (stampHeap ticks stackId raw wire status payload)
            omega
          obtain ⟨st₂, events, t₂, hstream, hevents, hrun, h₂⟩ := ih h₁ haccepted (by omega) hgrown
            (show wire + 1 ≠ 0 by omega) (hrest st₁ status payload hplan) (by
              intro what herr
              rw [herr, error_bind] at hids
              exact hids what rfl)
          refine ⟨st₂, stampHeap ticks stackId raw wire status payload :: events, t₂, ?_, ?_, ?_, ?_⟩
          · rw [hstream, ok_bind]
            rfl
          · intro event hmem
            rcases List.mem_cons.mp hmem with rfl | hmem
            · exact hevent
            · exact hevents event hmem
          · unfold GenerationTracker.run at hrun ⊢
            rw [List.foldlM_cons]
            show (t.step _ >>= _) = _
            rw [show t.step (stampHeap ticks stackId raw wire status payload) = .ok t₁ from hstep,
              ok_bind]
            exact hrun
          · rw [List.append_assoc] at h₂
            have hlogged : createdLog (stampHeap ticks stackId raw wire status payload :: events) =
                (createdGeneration (stampHeap ticks stackId raw wire status payload)).toList ++
                  createdLog events := by
              unfold createdLog
              rw [List.filterMap_cons]
              cases createdGeneration (stampHeap ticks stackId raw wire status payload) <;> rfl
            rw [hlogged]
            exact h₂

/-- What the analyzer knows after the records of a stream, beside the writer's heap. -/
structure Agrees (st : HeapState) (events : List Event) (t : GenerationTracker) : Prop where
  valid : ∀ event ∈ events, validateEvent event = .ok ()
  observed : GenerationTracker.run {} events = .ok t
  orphans : t.orphanedAllocationEndCount = 0
  distinct : ((createdLog events).map Prod.fst).Nodup
  live : ∀ address id : ℕ, st.live[address]? = some id →
    ∃ g : MemoryGeneration, t.liveAllocations[id]? = some g ∧ g.address = address
  reused : ∀ (id : ℕ) (g : MemoryGeneration), t.liveAllocations[id]? = some g →
    (∀ address : ℕ, st.live[address]? ≠ some id) →
    ∃ before after later, events = before ++ after ∧ (id, g.address) ∈ createdLog before ∧
      (later, g.address) ∈ createdLog after

theorem Superseded.split {events : List Event} {id address : ℕ}
    (h : Superseded (createdLog events) id address) :
    ∃ before after later, events = before ++ after ∧ (id, address) ∈ createdLog before ∧
      (later, address) ∈ createdLog after := by
  obtain ⟨before, after, later, hsplit, hid, hlater⟩ := h
  obtain ⟨first, second, rfl, rfl, rfl⟩ := List.filterMap_eq_append_iff.mp hsplit
  exact ⟨first, second, later, rfl, hid, hlater⟩

/-- For every stream of accepted heap events that does not exhaust its id counters and
at whose creations the id spaces are apart, the analyzer observes the writer's records
without an error and agrees with the writer. -/
theorem heap_records_agree (ctx : VmContext) (monotonicOrigin customDefinitions : ℕ)
    (ticks stackId : LinuxHeapEvent → ℕ) (raws : List LinuxHeapEvent)
    (haccepted : AcceptedHeap monotonicOrigin customDefinitions 0 raws)
    (hapart : StreamApart ctx {} raws)
    (hids : ∀ what, heapStream ctx ticks stackId {} 1 raws ≠ .error (.overflow what)) :
    ∃ st events t, heapStream ctx ticks stackId {} 1 raws = .ok (st, events) ∧
      Agrees st events t := by
  obtain ⟨st, events, t, hstream, hvalid, hrun, h⟩ := heapStream_observed mirrors_empty haccepted
    (Nat.zero_le _) (le_refl 0) (by decide) hapart hids
  rw [List.nil_append] at h
  refine ⟨st, events, t, hstream, hvalid, hrun, h.orphans, h.distinct, h.live, ?_⟩
  intro id g hg hgone
  rcases h.current id g hg with hcurrent | hsuperseded
  · exact absurd hcurrent (hgone g.address)
  · exact hsuperseded.split

/-! ### Streams of built-in hooks -/

theorem idsApart_builtin {apiId : ℕ} (hapi : apiId < customHookApiIdBase)
    (hcounters : st.customCounters = ∅) : IdsApart st apiId := by
  unfold IdsApart
  rw [if_pos hapi]
  intro custom counter _ hpos hle
  unfold counterOf at hle
  rw [hcounters] at hle
  have hle : counter ≤ 0 := by simpa using hle
  omega

theorem create_builtin {apiId address id : ℕ} (hapi : apiId < customHookApiIdBase)
    (h : st.create apiId address = .ok (st', id)) : st'.customCounters = st.customCounters := by
  obtain ⟨m, hmake, rfl⟩ := create_eq_ok h
  obtain ⟨rfl, -⟩ := makeAllocationId_builtin hapi hmake
  rfl

theorem planHeapEvent_builtin (hapi : raw.apiId < customHookApiIdBase) {payload : EventPayload}
    (hplan : st.planHeapEvent ctx raw = .ok (st', status, payload)) :
    st'.customCounters = st.customCounters := by
  unfold HeapState.planHeapEvent at hplan
  cases hop : raw.operation with
  | allocate =>
      rw [hop] at hplan
      obtain ⟨⟨st₁, status₁, event⟩, hrun, hplan⟩ := bind_eq_ok.mp hplan
      cases hplan
      unfold HeapState.planAllocate at hrun
      split at hrun
      · obtain ⟨⟨st₂, id⟩, hcreate, hrun⟩ := bind_eq_ok.mp hrun
        cases hrun
        exact create_builtin hapi hcreate
      · cases hrun
        rfl
  | reallocate =>
      rw [hop] at hplan
      obtain ⟨⟨st₁, status₁, event⟩, hrun, hplan⟩ := bind_eq_ok.mp hplan
      cases hplan
      unfold HeapState.planReallocate at hrun
      dsimp only at hrun
      split at hrun
      · split at hrun <;> split at hrun
        · cases hrun
          rfl
        · obtain ⟨⟨st₂, id⟩, hcreate, hrun⟩ := bind_eq_ok.mp hrun
          cases hrun
          exact (create_builtin hapi hcreate).trans rfl
        · obtain ⟨⟨st₂, id⟩, hcreate, hrun⟩ := bind_eq_ok.mp hrun
          cases hrun
          exact create_builtin hapi hcreate
        · cases hrun
          rfl
      · cases hrun
        rfl
  | free =>
      rw [hop] at hplan
      have hstate : (st.planFree ctx raw).1 = st' := by
        cases hplan
        rfl
      rw [← hstate]
      unfold HeapState.planFree
      split
      · split <;> rfl
      · rfl
  | _ =>
      rw [hop] at hplan
      cases hplan

/-- Without custom hook points there is one id space only. -/
theorem streamApart_builtin {raws : List LinuxHeapEvent}
    (h : ∀ raw ∈ raws, raw.apiId < customHookApiIdBase) (hcounters : st.customCounters = ∅) :
    StreamApart ctx st raws := by
  induction raws generalizing st with
  | nil => trivial
  | cons raw raws ih =>
      have hapi := h raw List.mem_cons_self
      refine ⟨fun _ => idsApart_builtin hapi hcounters, ?_⟩
      intro st' status payload hplan
      apply ih fun other hmem => h other (List.mem_cons_of_mem _ hmem)
      rw [planHeapEvent_builtin hapi hplan, hcounters]

/-- A block is moved; the free of the new one is lost and its address handed out again. -/
def reusedStream : List LinuxHeapEvent :=
  [{ queueSequence := 1
     monotonicTicks := 10
     threadId := 7
     requestedSize := 16
     resultAddress := 0x1000
     apiId := LinuxLogicalHookApi.malloc.apiId
     operation := .allocate
     status := .success },
   { queueSequence := 2
     monotonicTicks := 11
     threadId := 7
     requestedSize := 64
     resultAddress := 0x2000
     address := 0x1000
     apiId := LinuxLogicalHookApi.realloc.apiId
     operation := .reallocate
     status := .success },
   { queueSequence := 3
     monotonicTicks := 12
     threadId := 8
     requestedSize := 32
     resultAddress := 0x2000
     apiId := LinuxLogicalHookApi.calloc.apiId
     operation := .allocate
     status := .success }]

theorem heap_records_agree_reused :
    ∃ st events t, heapStream ⟨false, 1⟩ (·.monotonicTicks) (fun _ => 0) {} 1 reusedStream =
        .ok (st, events) ∧ Agrees st events t :=
  heap_records_agree ⟨false, 1⟩ 0 0 (·.monotonicTicks) (fun _ => 0) reusedStream
    (by refine ⟨?_, ?_, ?_, ?_, ?_, ?_, trivial⟩ <;> decide)
    (streamApart_builtin (by decide) rfl) (by
      intro what h
      have hok : (heapStream ⟨false, 1⟩ (·.monotonicTicks) (fun _ => 0) {} 1
        reusedStream).isOk = true := by decide +kernel
      rw [h] at hok
      cases hok)

/-! ### Spaces that meet -/

/-- The n-th event, a `malloc`. -/
def builtinAllocation (sequence : ℕ) : LinuxHeapEvent where
  queueSequence := sequence
  threadId := 7
  requestedSize := 16
  resultAddress := 0x1000
  apiId := LinuxLogicalHookApi.malloc.apiId
  operation := .allocate
  status := .success

/-- The n-th event, an allocation of the first custom hook point. -/
def customAllocation (sequence : ℕ) : LinuxHeapEvent :=
  { builtinAllocation sequence with apiId := customHookApiIdBase }

/-- `count` calls of `malloc`, then one of the custom hook point. -/
def crowdedStream : ℕ → ℕ → List LinuxHeapEvent
  | sequence, 0 => [customAllocation sequence]
  | sequence, count + 1 => builtinAllocation sequence :: crowdedStream (sequence + 1) count

theorem builtinAllocation_accepted (lastSequence : ℕ) (h : lastSequence < maxU64) :
    ¬ (builtinAllocation (lastSequence + 1)).IsVm ∧
      validateRawEvent ⟨0, 1, lastSequence⟩ (builtinAllocation (lastSequence + 1)) = .ok () := by
  have hheap : ¬ (builtinAllocation (lastSequence + 1)).IsVm := by
    rintro (hvm | hvm | hvm) <;> cases hvm
  refine ⟨hheap, validateRawEvent_eq_ok.mpr ⟨⟨Nat.succ_ne_zero _, ?_, Nat.zero_le _⟩,
    iff_of_true rfl rfl, ?_, rfl, fun hvm => absurd hvm hheap, ?_, rfl⟩⟩
  · show (7 : ℕ) ≠ 0
    decide
  · show expectedOperation .malloc = .allocate
    rfl
  · show lastSequence ≠ maxU64
    omega

theorem customAllocation_accepted (lastSequence : ℕ) (h : lastSequence < maxU64) :
    ¬ (customAllocation (lastSequence + 1)).IsVm ∧
      validateRawEvent ⟨0, 1, lastSequence⟩ (customAllocation (lastSequence + 1)) = .ok () := by
  have hheap : ¬ (customAllocation (lastSequence + 1)).IsVm := by
    rintro (hvm | hvm | hvm) <;> cases hvm
  refine ⟨hheap, validateRawEvent_eq_ok.mpr ⟨⟨Nat.succ_ne_zero _, ?_, Nat.zero_le _⟩,
    iff_of_true rfl rfl, ?_, rfl, fun hvm => absurd hvm hheap, ?_, rfl⟩⟩
  · show (7 : ℕ) ≠ 0
    decide
  · show isDeclaredCustomApi 1 customHookApiIdBase ∧ _
    exact ⟨by decide, .inl rfl⟩
  · show lastSequence ≠ maxU64
    omega

theorem crowdedStream_accepted (lastSequence count : ℕ) (h : lastSequence + count < maxU64) :
    AcceptedHeap 0 1 lastSequence (crowdedStream (lastSequence + 1) count) := by
  induction count generalizing lastSequence with
  | zero =>
      obtain ⟨hheap, hvalid⟩ := customAllocation_accepted lastSequence (by omega)
      exact ⟨hheap, hvalid, trivial⟩
  | succ count ih =>
      obtain ⟨hheap, hvalid⟩ := builtinAllocation_accepted lastSequence (by omega)
      exact ⟨hheap, hvalid, ih (lastSequence + 1) (by omega)⟩

/-- An id that was seen cannot be that of another generation. -/
theorem step_allocation_seen {event : AllocationEvent} (hheader : validateHeader header = .ok ())
    (hstatus : header.status = .success) (hresult : event.resultAddress ≠ 0)
    (hid : event.allocationId ≠ 0) (hseen : event.allocationId ∈ t.seenAllocationIds) :
    t.step ⟨header, .allocation event⟩ = .error (.generationState
      "allocation_id is reused by more than one generation") := by
  have hcreates : allocationCreatesGeneration header event := by
    refine ⟨?_, hid⟩
    rw [hstatus]
    decide
  unfold GenerationTracker.step GenerationTracker.observe
  rw [validateEvent_allocation hheader hstatus hresult hid, ok_bind]
  show (t.observeAllocation _ event >>= _) = _
  unfold GenerationTracker.observeAllocation GenerationTracker.addAllocation
    GenerationTracker.requireNewAllocationId
  rw [if_pos hcreates]
  dsimp only
  rw [failIf_of_not hid, ok_bind, failIf_of hseen]
  rfl

/-- A successful allocation gets the id that `make_allocation_id` hands out. -/
theorem planHeapEvent_allocation (ctx : VmContext) (raw : LinuxHeapEvent) {m : HeapState}
    {id : ℕ} (hop : raw.operation = .allocate)
    (hok : raw.Succeeded) (hmake : st.makeAllocationId raw.apiId = .ok (m, id)) :
    st.planHeapEvent ctx raw = .ok (Mirrors.createdState m id raw.resultAddress, .success,
      .allocation
        { requestedSize := raw.requestedSize
          resultAddress := raw.resultAddress
          allocationId := id }) := by
  unfold HeapState.planHeapEvent HeapState.planAllocate HeapState.create
  rw [hop]
  dsimp only
  rw [if_pos hok, hmake]
  rfl

/-- Once the built-in counter has passed the first custom id, the custom hook point hands
it out a second time, and the analyzer refuses it. -/
theorem crowdedStream_refused {ticks stackId : LinuxHeapEvent → ℕ} (sequence wire count : ℕ)
    (h : Mirrors st t log) (hcounters : st.customCounters = ∅)
    (hnext : st.nextAllocationId + count = customId customHookApiIdBase 1 + 1)
    (hlog : log.length + count < maxU64) (hwire : wire ≠ 0) :
    ∃ st' events, heapStream ctx ticks stackId st wire (crowdedStream sequence count) =
        .ok (st', events) ∧
      t.run events = .error (.generationState
        "allocation_id is reused by more than one generation") := by
  have hlimit : customId customHookApiIdBase 1 + 1 < maxU64 := by decide
  induction count generalizing st t log sequence wire with
  | zero =>
      -- the first custom id is a built-in one
      have hhanded : HandedOut st (customId customHookApiIdBase 1) :=
        .inl ⟨by decide, by omega⟩
      have hcounter : counterOf st customHookApiIdBase = 0 := by
        unfold counterOf
        rw [hcounters]
        rfl
      have hmake := makeAllocationId_custom_ok st (Nat.lt_irrefl customHookApiIdBase)
        (by rw [hcounter]; decide)
      rw [hcounter] at hmake
      have hplan := planHeapEvent_allocation ctx (customAllocation sequence) rfl rfl hmake
      unfold crowdedStream heapStream
      rw [hplan]
      refine ⟨_, _, rfl, ?_⟩
      have hheader := validateHeader_status (validateHeader_eventHeader
        (customAllocation sequence) (ticks (customAllocation sequence))
        (stackId (customAllocation sequence)) hwire) .success
      unfold GenerationTracker.run stampHeap
      rw [List.foldlM_cons, step_allocation_seen hheader rfl (by show (0x1000 : ℕ) ≠ 0; decide)
        hhanded.ne_zero ((h.seen _).mpr hhanded)]
      rfl
  | succ count ih =>
      have hapi : (builtinAllocation sequence).apiId < customHookApiIdBase := by
        show (10 : ℕ) < customHookApiIdBase
        decide
      have hplan := planHeapEvent_allocation ctx (builtinAllocation sequence) rfl rfl
        (makeAllocationId_builtin_ok st hapi (by omega))
      obtain ⟨-, t₁, hstep, h₁⟩ := planHeapEvent_observed h
        (validateHeader_eventHeader (builtinAllocation sequence)
          (ticks (builtinAllocation sequence)) (stackId (builtinAllocation sequence)) hwire)
        rfl (fun _ => idsApart_builtin hapi hcounters) (by omega)
        (by rintro (hvm | hvm | hvm) <;> cases hvm) hplan
      obtain ⟨st₂, events, hstream, hrun⟩ := ih (sequence + 1) (wire + 1) h₁ hcounters
         (by show st.nextAllocationId + 1 + count = _; omega)
        (lt_of_le_of_lt (Nat.add_le_add_right (logged_length _ _) count) (by omega))
        (Nat.succ_ne_zero wire)
      unfold crowdedStream heapStream
      rw [hplan, ok_bind]
      dsimp only
      rw [hstream]
      refine ⟨_, _, rfl, ?_⟩
      unfold GenerationTracker.run at hrun ⊢
      rw [List.foldlM_cons]
      unfold stampHeap
      rw [hstep, ok_bind]
      exact hrun

/-- Two to the 52 and one calls of `malloc`, then one of a custom hook point: every event
is accepted, and the record of the last one stops the analyzer. -/
theorem heap_records_disagree_crowded :
    AcceptedHeap 0 1 0 (crowdedStream 1 (customId customHookApiIdBase 1)) ∧
    ∃ st events, heapStream ⟨false, 1⟩ (·.monotonicTicks) (fun _ => 0) {} 1
        (crowdedStream 1 (customId customHookApiIdBase 1)) = .ok (st, events) ∧
      GenerationTracker.run {} events = .error (.generationState
        "allocation_id is reused by more than one generation") :=
  ⟨crowdedStream_accepted 0 _ (by decide),
    crowdedStream_refused 1 1 _ mirrors_empty rfl (Nat.add_comm 1 _) (by decide) (by decide)⟩

end Noleax.Heap
