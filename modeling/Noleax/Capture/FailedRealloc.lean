import Mathlib.Data.UInt
import Noleax.Capture.Conservation
import Noleax.Agent.HeapHooks

/-!
# A reallocation that failed

The realloc replacements infer the outcome of a call from the null pointer and the
size they were asked for; the writer infers what happened to the old generation
from the outcome. A call that returned null without releasing its block keeps the
block's generation exactly when the size, as the replacement computes it in one
64-bit word, is not zero.
-/

namespace Noleax.Agent

open Lib Trace Capture

namespace LinuxTraceWriter

variable {options : WriterOptions} {w w' k : LinuxTraceWriter}

/-! ## What a flush leaves alone -/

/-- The heap model and the log of records are the same. -/
def HeapKept (w w' : LinuxTraceWriter) : Prop := w'.heap = w.heap ∧ w'.planned = w.planned

theorem HeapKept.refl (w : LinuxTraceWriter) : HeapKept w w := ⟨rfl, rfl⟩

theorem HeapKept.trans {m : LinuxTraceWriter} (h : HeapKept w m) (h' : HeapKept m w') :
    HeapKept w w' :=
  ⟨h'.1.trans h.1, h'.2.trans h.2⟩

theorem Filed.heapKept (h : Filed options w w') : HeapKept w w' := by
  obtain ⟨_, _, _, _, _, rfl⟩ := h
  exact ⟨rfl, rfl⟩

theorem flushModulePayload_heapKept {u : Unit} (h : flushModulePayload options w = .ok u w') :
    HeapKept w w' := by
  obtain ⟨m, hfiled, rfl⟩ := flushModulePayload_filed h
  exact hfiled.heapKept.trans ⟨rfl, rfl⟩

theorem dropPendingEvents_heapKept {u : Unit} (h : dropPendingEvents options w = .ok u w') :
    HeapKept w w' := by
  rcases dropPendingEvents_ok h with ⟨-, rfl⟩ | ⟨-, rfl⟩
  · exact ⟨rfl, rfl⟩
  · exact ⟨rfl, rfl⟩

theorem notePendingWritten_heapKept {u : Unit} (h : notePendingWritten options w = .ok u w') :
    HeapKept w w' := by
  rw [notePendingWritten_ok h]
  exact ⟨rfl, rfl⟩

theorem flushPending_heapKept {u : Unit} (h : flushPending options w = .ok u w') :
    HeapKept w w' := by
  rcases flushPending_ok h with ⟨-, hmodules⟩ | ⟨-, m, hmodules, hevents⟩
  · exact flushModulePayload_heapKept hmodules
  · apply (flushModulePayload_heapKept hmodules).trans
    rcases hevents.cases_limit with ⟨n, hfiled, -, hdrop⟩ | ⟨n, hfiled, hnote⟩
    · exact hfiled.heapKept.trans (dropPendingEvents_heapKept hdrop)
    · exact hfiled.heapKept.trans (notePendingWritten_heapKept hnote)

theorem ensurePendingCapacity_heapKept {n : ℕ} {u : Unit}
    (h : ensurePendingCapacity options n w = .ok u w') : HeapKept w w' := by
  rcases ensurePendingCapacity_ok h with rfl | ⟨-, hflush⟩
  · exact .refl w'
  · exact flushPending_heapKept hflush

theorem Entered.heapKept {raw : LinuxHeapEvent} (entry : Entered options raw w k) :
    HeapKept w k := by
  obtain ⟨plan, vm, loss, completeness, -, -, -, -, -, -, rfl⟩ := entry
  exact ⟨rfl, rfl⟩

/-- What a heap event that was processed did to the heap model: its one record was
planned, or it met the file limit first. -/
theorem processEvent_heap {raw : LinuxHeapEvent} (hheap : ¬ raw.IsVm) {u : Unit}
    (h : processEvent options raw w = .ok u w') :
    HeapKept w w' ∨ ∃ heap status payload, ∃ header : EventHeader,
      w.heap.planHeapEvent options.vmContext raw = .ok (heap, status, payload) ∧
      w'.heap = heap ∧ header.status = status ∧
      w'.planned = w.planned ++ [{ header := header, payload := payload }] := by
  obtain ⟨m, entry, hsettled⟩ := processEvent_ok h
  have hentered := entry.heapKept
  cases hsettled with
  | past hlimit hdrop =>
      rw [hdrop]
      exact .inl (hentered.trans ⟨rfl, rfl⟩)
  | reached k hlimit hensure hreached hdrop =>
      rw [hdrop]
      exact .inl ((hentered.trans (ensurePendingCapacity_heapKept hensure)).trans ⟨rfl, rfl⟩)
  | buffered k hlimit hensure hbelow hbuffer =>
      have hkept := hentered.trans (ensurePendingCapacity_heapKept hensure)
      obtain ⟨n, happend, hend⟩ := bufferEvent_ok hbuffer
      obtain ⟨⟨addition, heap, records, -, hrecords, -, rfl⟩⟩ := appendEvent_ok happend
      unfold eventRecordsOf at hrecords
      rw [if_neg hheap] at hrecords
      obtain ⟨⟨heap', status, payload⟩, hplan, hrecords⟩ := bind_eq_ok.mp hrecords
      cases hrecords
      rw [hkept.1] at hplan
      refine .inr ⟨heap, status, payload, { eventHeader raw (max raw.monotonicTicks w.lastTicks)
        w.nextWireSequence addition.stackId with status := status }, hplan, ?_⟩
      rw [← hkept.2]
      rcases hend with rfl | hflush
      · exact ⟨rfl, rfl, rfl⟩
      · obtain ⟨hsame, hlog⟩ := flushPending_heapKept hflush
        exact ⟨hsame, rfl, hlog⟩

end LinuxTraceWriter

/-! ## The calls -/

/-- A call of the realloc family that returned null and released nothing. -/
inductive FailedResize where
  | realloc (pointer size : UInt64) (errno : UInt32)
  | reallocarray (pointer nmemb size : UInt64) (errno : UInt32)
deriving DecidableEq, Repr

namespace FailedResize

def call : FailedResize → HeapCall
  | realloc pointer size errno => .realloc pointer size 0 errno
  | reallocarray pointer nmemb size errno => .reallocarray pointer nmemb size 0 errno

def pointer : FailedResize → UInt64
  | realloc pointer _ _ => pointer
  | reallocarray pointer _ _ _ => pointer

/-- The size the replacement works with: of `reallocarray` the product in one word. -/
def requestedSize : FailedResize → UInt64
  | realloc _ size _ => size
  | reallocarray _ nmemb size _ => nmemb * size

/-- The raw event of the call reports a failure. -/
theorem event_status (resize : FailedResize) (minimumCaptureSize : UInt64) (stamp : EventStamp) :
    ∃ raw, resize.call.event minimumCaptureSize stamp {} = some raw ∧
      raw.operation = .reallocate ∧ raw.address = resize.pointer.toNat ∧
      (raw.status = .failure ↔ resize.requestedSize ≠ 0) := by
  cases resize with
  | realloc pointer size errno =>
      refine ⟨_, rfl, rfl, rfl, ?_⟩
      by_cases hsize : size = 0 <;> simp [recordReallocate, emitEvent, requestedSize, hsize]
  | reallocarray pointer nmemb size errno =>
      refine ⟨_, rfl, rfl, rfl, ?_⟩
      by_cases hsize : nmemb * size = 0 <;>
        simp [recordReallocate, emitEvent, requestedSize, hsize]

end FailedResize

/-! ## The old generation -/

/-- A record that ends the generation `id`. -/
def EndsAllocation (event : Event) (id : ℕ) : Prop :=
  match event.payload with
  | .reallocation payload =>
      reallocationEndsOldGeneration event.header payload ∧ payload.oldAllocationId = id
  | .free payload => freeEndsGeneration event.header payload ∧ payload.allocationId = id
  | _ => False

/-- Processing `raw` keeps the generation `id` of the block at `address`: the heap
model still has it there, and no record of the event ends it. -/
def KeepsGeneration (options : WriterOptions) (raw : LinuxHeapEvent) (address : ℕ) : Prop :=
  ∀ w w' id, w.heap.live[address]? = some id →
    LinuxTraceWriter.processEvent options raw w = .ok () w' →
    w'.heap.live[address]? = some id ∧
      ∃ records, w'.planned = w.planned ++ records ∧ ∀ event ∈ records, ¬ EndsAllocation event id

/-- A failed reallocation changes nothing. -/
theorem HeapState.planReallocate_failed {ctx : VmContext} {st : HeapState} {raw : LinuxHeapEvent}
    (h : raw.status = .failure) :
    st.planReallocate ctx raw = .ok (st, .failure, st.reallocationBase raw) := by
  unfold planReallocate
  rw [if_neg]
  simp [LinuxHeapEvent.Succeeded, h]

theorem keepsGeneration_of_failure {options : WriterOptions} {raw : LinuxHeapEvent}
    (hop : raw.operation = .reallocate) (hfailed : raw.status = .failure) (address : ℕ) :
    KeepsGeneration options raw address := by
  intro w w' id hlive hrun
  have hheap : ¬ raw.IsVm := by simp [LinuxHeapEvent.IsVm, hop]
  rcases LinuxTraceWriter.processEvent_heap hheap hrun with
    ⟨hsame, hlog⟩ | ⟨heap, status, payload, header, hplan, hheap', hheader, hlog⟩
  · rw [hsame]
    exact ⟨hlive, [], by rw [hlog, List.append_nil], by simp⟩
  · unfold HeapState.planHeapEvent at hplan
    rw [hop] at hplan
    dsimp only at hplan
    rw [HeapState.planReallocate_failed hfailed] at hplan
    cases hplan
    rw [hheap']
    refine ⟨hlive, _, hlog, ?_⟩
    intro event hmem
    rw [List.mem_singleton.mp hmem]
    -- a record with failure status ends nothing
    rintro ⟨⟨hsucceeded, -⟩, -⟩
    exact hsucceeded hheader

/-- The replacement of a reallocation that failed enqueues a failure, and processing it
keeps the old generation, exactly when the requested size is not zero as a word. -/
theorem failed_resize_keeps_generation (options : WriterOptions) (minimumCaptureSize : UInt64)
    (stamp : EventStamp) (resize : FailedResize) :
    (∃ raw, resize.call.event minimumCaptureSize stamp {} = some raw ∧ raw.status = .failure ∧
        KeepsGeneration options raw resize.pointer.toNat) ↔
      resize.requestedSize ≠ 0 := by
  obtain ⟨raw, hevent, hop, -, hstatus⟩ := resize.event_status minimumCaptureSize stamp
  constructor
  · rintro ⟨raw', hevent', hfailed, -⟩
    rw [hevent] at hevent'
    cases hevent'
    exact hstatus.mp hfailed
  · intro hsize
    have hfailed := hstatus.mpr hsize
    exact ⟨raw, hevent, hfailed, keepsGeneration_of_failure hop hfailed _⟩

/-! ### A product that wraps to zero -/

/-- `reallocarray` of 2³² elements of 2³² bytes: no such block exists, the call returns
null with `ENOMEM` and leaves its block alone, and the product is zero in one word. -/
def wrappedResize : FailedResize :=
  .reallocarray 4096 (2 ^ 32) (2 ^ 32) enomem

def wrappedResizeEvent : LinuxHeapEvent :=
  recordReallocate ⟨2, 12, 1, {}⟩ LinuxLogicalHookApi.reallocarray.apiId 4096 0 (2 ^ 32) 0 false
    enomem

/-- The block that `malloc` had returned is still there, but its generation is ended and
gone from the heap model. -/
theorem wrapped_resize_frees :
    wrappedResize.call.event 0 ⟨2, 12, 1, {}⟩ {} = some wrappedResizeEvent ∧
    wrappedResizeEvent.status = .success ∧
    ∃ w w', LinuxTraceWriter.processEvent sampleOptions (sampleAllocation 1)
        (.start sampleOptions) = .ok () w ∧
      w.heap.live[4096]? = some 1 ∧
      LinuxTraceWriter.processEvent sampleOptions wrappedResizeEvent w = .ok () w' ∧
      w'.heap.live[4096]? = none ∧
      ¬ KeepsGeneration sampleOptions wrappedResizeEvent 4096 := by
  refine ⟨by decide, by decide, ?_⟩
  have hrun : wp (LinuxTraceWriter.processEvent sampleOptions (sampleAllocation 1))
      (fun _ w => w.heap.live[4096]? = some 1 ∧
        wp (LinuxTraceWriter.processEvent sampleOptions wrappedResizeEvent)
          (fun _ w' => w'.heap.live[4096]? = none) (fun _ _ => False) w)
      (fun _ _ => False) (.start sampleOptions) := by
    decide +kernel
  obtain ⟨_, w, hfirst, hlive, hsecond⟩ := wp_run hrun
  obtain ⟨_, w', hsecond, hgone⟩ := wp_run hsecond
  refine ⟨w, w', hfirst, hlive, hsecond, hgone, ?_⟩
  intro hkeeps
  have hstill := (hkeeps w w' 1 hlive hsecond).1
  rw [hgone] at hstill
  cases hstill

end Noleax.Agent
