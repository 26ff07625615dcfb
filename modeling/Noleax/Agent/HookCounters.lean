import Noleax.Agent.VmHooks
import Mathlib.Logic.Relation
import Mathlib.Logic.Function.Basic

/-!
# The counters of the hooks

A recorded call raises `recordable_calls` on entry; after the original returned it
counts its outcome, and then its event is filtered, queued, or refused by a full queue
and counted as dropped. Any number of calls do this at once; every counter update is
a step of its own, and so is every load of `counters()`.
-/

namespace Noleax.Agent

/-! ## Calls -/

/-- The event carries the call's API, its outcome, and the move the hook counts. -/
structure LinuxHeapEvent.Tells (e : LinuxHeapEvent) (apiId : ℕ) (failed paired : Bool) :
    Prop where
  api : e.apiId = apiId
  succeeds : e.Succeeded ↔ failed = false
  pairs : paired = true ↔ e.operation = .vmRemap ∧ e.Succeeded ∧ e.resultAddress ≠ e.address

/-- A call that entered with the route `kRecord` as the outermost one. -/
structure RecordedCall where
  apiId : ℕ
  /-- what `note_call_outcome` counts -/
  failed : Bool
  /-- below the size floor -/
  filtered : Bool
  /-- a moved `mremap`, for which two records are predicted -/
  paired : Bool
  event : EventStamp → Option LinuxHeapEvent
  emits : ∀ stamp, event stamp = none ↔ filtered = true
  tells : ∀ stamp, ∀ e ∈ event stamp, e.Tells apiId failed paired
  pairs : paired = true → apiId = LinuxLogicalHookApi.mremap.apiId

namespace HeapCall

def apiId : HeapCall → ℕ
  | malloc .. => LinuxLogicalHookApi.malloc.apiId
  | calloc .. => LinuxLogicalHookApi.calloc.apiId
  | realloc .. => LinuxLogicalHookApi.realloc.apiId
  | free .. => LinuxLogicalHookApi.free.apiId
  | posixMemalign .. => LinuxLogicalHookApi.posixMemalign.apiId
  | alignedAlloc .. => LinuxLogicalHookApi.alignedAlloc.apiId
  | memalign .. => LinuxLogicalHookApi.memalign.apiId
  | reallocarray .. => LinuxLogicalHookApi.reallocarray.apiId

def failed : HeapCall → Bool
  | malloc _ result _ => result = 0
  | calloc _ _ result _ => result = 0
  | realloc _ size result _ => result = 0 ∧ size ≠ 0
  | free _ => false
  | posixMemalign _ _ _ result => result ≠ 0
  | alignedAlloc _ _ result _ => result = 0
  | memalign _ _ result _ => result = 0
  | reallocarray _ nmemb size result _ => result = 0 ∧ nmemb * size ≠ 0

def filtered (minimumCaptureSize : UInt64) : HeapCall → Bool
  | malloc size _ _ => size < minimumCaptureSize
  | calloc nmemb size _ _ => nmemb * size < minimumCaptureSize
  | posixMemalign _ size _ _ => size < minimumCaptureSize
  | alignedAlloc _ size _ _ => size < minimumCaptureSize
  | memalign _ size _ _ => size < minimumCaptureSize
  | realloc .. | free .. | reallocarray .. => false

end HeapCall

theorem tells_emitEvent {stamp : EventStamp} {fields : EventFields}
    (hop : fields.operation ≠ .vmRemap) :
    (emitEvent stamp fields).Tells fields.apiId fields.failed false where
  api := rfl
  succeeds := by
    unfold emitEvent LinuxHeapEvent.Succeeded
    cases fields.failed <;> simp
  pairs := by
    apply iff_of_false (by simp)
    rintro ⟨hremap, -⟩
    exact hop hremap

theorem recordAllocate_eq_none {minimumCaptureSize size count alignment result : UInt64}
    {stamp : EventStamp} {api : ℕ} {failed : Bool} {errorCode : UInt32} :
    recordAllocate minimumCaptureSize stamp api size count alignment result failed errorCode =
      none ↔ size < minimumCaptureSize := by
  unfold recordAllocate
  split
  · rename_i h
    exact iff_of_true rfl h
  · rename_i h
    exact iff_of_false nofun h

theorem recordAllocate_tells {minimumCaptureSize size count alignment result : UInt64}
    {stamp : EventStamp} {api : ℕ} {failed : Bool} {errorCode : UInt32} {e : LinuxHeapEvent}
    (h : e ∈ recordAllocate minimumCaptureSize stamp api size count alignment result failed
      errorCode) : e.Tells api failed false := by
  unfold recordAllocate at h
  split at h
  · cases h
  · cases h
    refine tells_emitEvent ?_
    exact nofun

/-- The replacement's recorded call. -/
def HeapCall.recorded (minimumCaptureSize : UInt64) (call : HeapCall) : RecordedCall where
  apiId := call.apiId
  failed := call.failed
  filtered := call.filtered minimumCaptureSize
  paired := false
  event stamp := call.event minimumCaptureSize stamp {}
  emits stamp := by
    cases call with
    | realloc | free | reallocarray => exact iff_of_false nofun nofun
    | _ => exact recordAllocate_eq_none.trans decide_eq_true_iff.symm
  tells stamp e he := by
    cases call with
    | realloc | free | reallocarray =>
        cases he
        refine tells_emitEvent ?_
        exact nofun
    | _ => exact recordAllocate_tells he
  pairs := nofun

section CustomAllocate

variable {slot : CustomHookSlot} {stamp : EventStamp} {size count result : UInt64}
  {sizeValid : Bool} {errno : UInt32}

theorem recordCustomAllocate_eq_none :
    recordCustomAllocate slot stamp size count result sizeValid errno = none ↔
      decide (sizeValid = false ∨ result = 0) = false ∧ size < slot.minimumCaptureSize := by
  unfold recordCustomAllocate
  dsimp only
  split
  · rename_i h
    exact iff_of_true rfl h
  · rename_i h
    exact iff_of_false nofun h

theorem recordCustomAllocate_tells {e : LinuxHeapEvent}
    (h : e ∈ recordCustomAllocate slot stamp size count result sizeValid errno) :
    e.Tells slot.apiId (decide (sizeValid = false ∨ result = 0)) false := by
  unfold recordCustomAllocate at h
  dsimp only at h
  split at h
  · cases h
  · cases h
    refine tells_emitEvent ?_
    exact nofun

end CustomAllocate

namespace CustomCall

variable (slot : CustomHookSlot)

def failed : CustomCall → Bool
  | alloc memory args result _ =>
      (customSize slot args).2.2 = false ∨ resultPointer slot memory args result = 0
  | realloc memory args result _ =>
      resultPointer slot memory args result = 0 ∧ args slot.reallocSizeArg ≠ 0
  | free _ => false

/-- The size floor does not swallow failures here. -/
def filtered (call : CustomCall) : Bool :=
  match call with
  | alloc _ args _ _ =>
      call.failed slot = false ∧ (customSize slot args).1 < slot.minimumCaptureSize
  | _ => false

def recorded (call : CustomCall) : RecordedCall where
  apiId := slot.apiId
  failed := call.failed slot
  filtered := call.filtered slot
  paired := false
  event stamp := call.event slot stamp {}
  emits stamp := by
    cases call with
    | alloc => exact recordCustomAllocate_eq_none.trans decide_eq_true_iff.symm
    | realloc | free => exact iff_of_false nofun nofun
  tells stamp e he := by
    cases call with
    | alloc => exact recordCustomAllocate_tells he
    | realloc | free =>
        cases he
        refine tells_emitEvent ?_
        exact nofun
  pairs := nofun

end CustomCall

theorem tells_emitVmEvent {stamp : EventStamp} {fields : VmEventFields} {paired : Bool}
    (hpairs : paired = true ↔ fields.operation = .vmRemap ∧ fields.failed = false ∧
      fields.result ≠ fields.address) :
    (emitVmEvent stamp fields).Tells fields.apiId fields.failed paired := by
  have hsucceeds : (emitVmEvent stamp fields).Succeeded ↔ fields.failed = false := by
    unfold emitVmEvent LinuxHeapEvent.Succeeded
    cases fields.failed <;> simp
  constructor
  · rfl
  · exact hsucceeds
  · rw [hpairs, hsucceeds, Ne, ← UInt64.toNat_inj]
    exact Iff.rfl

namespace VmCall

def filtered (minimumCaptureSize : UInt64) : VmCall → Bool
  | mmap _ length _ _ _ _ _ _ => length < minimumCaptureSize
  | munmap .. | mremap .. => false

def recorded (minimumCaptureSize : UInt64) (completionSequence : ℕ) (call : VmCall) :
    RecordedCall where
  apiId := call.apiId
  failed := call.failed
  filtered := call.filtered minimumCaptureSize
  paired := call.paired
  event stamp := call.event minimumCaptureSize stamp completionSequence
  emits stamp := by
    cases call with
    | mmap address length protection flags fd offset result errno =>
        simp only [VmCall.event, recordVmAllocate, filtered]
        by_cases h : length < minimumCaptureSize
        · simp [h]
        · simp [h]
    | munmap | mremap => exact iff_of_false nofun nofun
  tells stamp e he := by
    cases call with
    | mmap address length protection flags fd offset result errno =>
        simp only [VmCall.event, recordVmAllocate] at he
        split at he
        · cases he
        · cases he
          refine tells_emitVmEvent ?_
          exact iff_of_false nofun nofun
    | munmap address length result errno =>
        cases he
        refine tells_emitVmEvent ?_
        exact iff_of_false nofun nofun
    | mremap oldAddress oldSize newSize flags newAddress result errno =>
        cases he
        refine tells_emitVmEvent ?_
        by_cases hfailed : result = mapFailed
        · simp [paired, hfailed]
        · simp [paired, hfailed]
  pairs hpaired := by
    cases call with
    | mremap => rfl
    | mmap | munmap => cases hpaired

end VmCall

/-! ## The shared state -/

/-- What the runtime reads of a hook channel. The counts are natural numbers: 2^64
calls are out of reach. -/
structure ChannelCounters where
  recordableCalls : ℕ := 0
  successfulCalls : ℕ := 0
  failedCalls : ℕ := 0
  filteredCalls : ℕ := 0
  droppedEvents : ℕ := 0
  /-- kept by `mremap` alone -/
  pairedRecords : ℕ := 0
deriving DecidableEq, Repr

namespace ChannelCounters

variable (counters : ChannelCounters)

def noteEntry : ChannelCounters :=
  { counters with recordableCalls := counters.recordableCalls + 1 }

def noteCallOutcome (failed : Bool) : ChannelCounters :=
  if failed then { counters with failedCalls := counters.failedCalls + 1 }
  else { counters with successfulCalls := counters.successfulCalls + 1 }

def noteFiltered : ChannelCounters :=
  { counters with filteredCalls := counters.filteredCalls + 1 }

def noteDropped : ChannelCounters :=
  { counters with droppedEvents := counters.droppedEvents + 1 }

def notePaired : ChannelCounters :=
  { counters with pairedRecords := counters.pairedRecords + 1 }

end ChannelCounters

/-- How far a recorded call has come. -/
inductive CallPlace where
  /-- counted as recordable -/
  | entered
  /-- its outcome is counted -/
  | settled
  /-- counted as filtered -/
  | filtered
  /-- the queue was full -/
  | refused
  /-- counted as dropped -/
  | dropped
  /-- its event is in the queue -/
  | queued
  /-- its pair is counted as well -/
  | paired
deriving DecidableEq, Repr

structure HookState where
  /-- every call that ever entered -/
  calls : List (RecordedCall × CallPlace) := []
  counters : ℕ → ChannelCounters := fun _ => {}
  /-- every event that was ever queued, in queue order -/
  enqueued : List LinuxHeapEvent := []
  /-- the channel's lifecycle hands out the route `kRecord` -/
  recording : ℕ → Bool := fun _ => true

namespace HookState

def count (s : HookState) (apiId : ℕ) (f : ChannelCounters → ChannelCounters) : HookState :=
  { s with counters := Function.update s.counters apiId (f (s.counters apiId)) }

/-- Replace the calls, one of which has moved. -/
def withCalls (s : HookState) (calls : List (RecordedCall × CallPlace)) : HookState :=
  { s with calls := calls }

def enqueue (s : HookState) (event : LinuxHeapEvent) : HookState :=
  { s with enqueued := s.enqueued ++ [event] }

/-- One atomic operation of a hooked call, or of `stop_recording`. -/
inductive Step (s : HookState) : HookState → Prop
  | enter (call : RecordedCall) (hrecording : s.recording call.apiId = true) :
      Step s ((s.withCalls (s.calls ++ [(call, .entered)])).count call.apiId .noteEntry)
  | outcome {before after : List (RecordedCall × CallPlace)} {call : RecordedCall}
      (hcalls : s.calls = before ++ (call, .entered) :: after) :
      Step s ((s.withCalls (before ++ (call, .settled) :: after)).count call.apiId
        (.noteCallOutcome · call.failed))
  | filter {before after : List (RecordedCall × CallPlace)} {call : RecordedCall}
      (hcalls : s.calls = before ++ (call, .settled) :: after) (hfiltered : call.filtered = true) :
      Step s ((s.withCalls (before ++ (call, .filtered) :: after)).count call.apiId .noteFiltered)
  | emplace {before after : List (RecordedCall × CallPlace)} {call : RecordedCall}
      (hcalls : s.calls = before ++ (call, .settled) :: after) (stamp : EventStamp)
      (hsequence : stamp.queueSequence = s.enqueued.length + 1) (event : LinuxHeapEvent)
      (hevent : event ∈ call.event stamp) :
      Step s ((s.withCalls (before ++ (call, .queued) :: after)).enqueue event)
  | refuse {before after : List (RecordedCall × CallPlace)} {call : RecordedCall}
      (hcalls : s.calls = before ++ (call, .settled) :: after)
      (hrecorded : call.filtered = false) :
      Step s (s.withCalls (before ++ (call, .refused) :: after))
  | drop {before after : List (RecordedCall × CallPlace)} {call : RecordedCall}
      (hcalls : s.calls = before ++ (call, .refused) :: after) :
      Step s ((s.withCalls (before ++ (call, .dropped) :: after)).count call.apiId .noteDropped)
  | pair {before after : List (RecordedCall × CallPlace)} {call : RecordedCall}
      (hcalls : s.calls = before ++ (call, .queued) :: after) (hpaired : call.paired = true) :
      Step s ((s.withCalls (before ++ (call, .paired) :: after)).count call.apiId .notePaired)
  | stop (apiId : ℕ) :
      Step s { s with recording := Function.update s.recording apiId false }

/-- Any number of steps of any calls. -/
abbrev Steps : HookState → HookState → Prop := Relation.ReflTransGen Step

end HookState

/-! ## `counters()` -/

/-- The states in which the loads of one `counters()` happen, in the order of the source. -/
structure CounterReads where
  recordable : HookState
  successful : HookState
  failed : HookState
  filtered : HookState
  dropped : HookState
  paired : HookState

/-- The snapshot that `counters()` returns. -/
def CounterReads.counters (reads : CounterReads) (apiId : ℕ) : ChannelCounters where
  recordableCalls := (reads.recordable.counters apiId).recordableCalls
  successfulCalls := (reads.successful.counters apiId).successfulCalls
  failedCalls := (reads.failed.counters apiId).failedCalls
  filteredCalls := (reads.filtered.counters apiId).filteredCalls
  droppedEvents := (reads.dropped.counters apiId).droppedEvents
  pairedRecords := (reads.paired.counters apiId).pairedRecords

/-- Between any two loads the hooked calls take any number of steps. -/
structure CounterReads.Follows (reads : CounterReads) (s : HookState) : Prop where
  recordable : s.Steps reads.recordable
  successful : reads.recordable.Steps reads.successful
  failed : reads.successful.Steps reads.failed
  filtered : reads.failed.Steps reads.filtered
  dropped : reads.filtered.Steps reads.dropped
  paired : reads.dropped.Steps reads.paired

/-- The channels are read one after the other. -/
def Interleaved : HookState → List (ℕ × CounterReads) → Prop
  | _, [] => True
  | s, (_, reads) :: rest => reads.Follows s ∧ Interleaved reads.paired rest

end Noleax.Agent
