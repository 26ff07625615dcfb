import Noleax.Agent.HeapEvent

/-!
# Raw Windows events (`agent/windows/rtl_heap_event.hpp`)

The event the Windows hooks queue, the profile of hooks a writer serves, and the
consumer's checks `validate_raw_event` and `validate_raw_stack` of
`agent/windows/rtl_allocate_heap_trace_writer.cpp`.
-/

namespace Noleax.Windows

open Lib Trace Agent

/-! ## The event -/

inductive RtlHeapEventOperation where
  | create | allocate | reallocate | free | destroy
  | vmAllocate | vmFree | sectionMap | sectionUnmap
deriving DecidableEq, Repr

namespace RtlHeapEventOperation

/-- The operations of the enumeration. -/
def all : List RtlHeapEventOperation :=
  [create, allocate, reallocate, free, destroy, vmAllocate, vmFree, sectionMap, sectionUnmap]

theorem mem_all (operation : RtlHeapEventOperation) : operation ∈ all := by
  cases operation <;> decide

/-- `kRtlAllocateHeapApiId` … `kNtUnmapViewOfSectionApiId` (`hook_registry.hpp`). -/
def apiId : RtlHeapEventOperation → ℕ
  | allocate => 1
  | free => 2
  | reallocate => 3
  | create => 4
  | destroy => 5
  | vmAllocate => 6
  | vmFree => 7
  | sectionMap => 8
  | sectionUnmap => 9

theorem apiId_injective {a b : RtlHeapEventOperation} (h : a.apiId = b.apiId) : a = b := by
  cases a <;> cases b <;> first | rfl | cases h

theorem apiId_lt (operation : RtlHeapEventOperation) :
    operation.apiId < customHookApiIdBase := by
  cases operation <;> decide

end RtlHeapEventOperation

inductive RtlHeapEventStatus where
  | success | failure | exception
deriving DecidableEq, Repr

/-- An event of a built-in hook has no `apiId`; a custom symbol hook stamps its own. -/
structure RtlHeapEvent where
  queueSequence : ℕ := 0
  monotonicTicks : ℕ := 0
  threadId : ℕ := 0
  heapHandle : ℕ := 0
  targetProcessId : ℕ := 0
  requestedSize : ℕ := 0
  resultAddress : ℕ := 0
  address : ℕ := 0
  rawResult : ℕ := 0
  auxiliaryAddress : ℕ := 0
  mappingBase : ℕ := 0
  mappingSize : ℕ := 0
  sectionHandle : ℕ := 0
  sectionOffset : ℕ := 0
  commitSize : ℕ := 0
  flags : ℕ := 0
  secondaryFlags : ℕ := 0
  tertiaryFlags : ℕ := 0
  operationResult : ℕ := 0
  exceptionStatus : ℕ := 0
  apiId : ℕ := 0
  operation : RtlHeapEventOperation := .allocate
  status : RtlHeapEventStatus := .failure
  stack : CapturedStack := {}
deriving DecidableEq, Repr

namespace RtlHeapEvent

abbrev Succeeded (raw : RtlHeapEvent) : Prop := raw.status = .success

abbrev Custom (raw : RtlHeapEvent) : Prop := raw.apiId ≠ 0

/-- The operations of the NT memory hooks. -/
abbrev IsNtMemory (raw : RtlHeapEvent) : Prop :=
  raw.operation = .vmAllocate ∨ raw.operation = .vmFree ∨ raw.operation = .sectionMap ∨
    raw.operation = .sectionUnmap

end RtlHeapEvent

/-! ## `validate_raw_event` -/

/-- The hooks a writer was constructed with; `custom` holds the ids of the definitions
of the custom symbol hooks, when there are such hooks. -/
structure MemoryHooks where
  create : Bool := false
  allocate : Bool := false
  reallocate : Bool := false
  free : Bool := false
  destroy : Bool := false
  ntMemory : Bool := false
  custom : Option (List ℕ) := none
deriving DecidableEq, Repr

namespace MemoryHooks

variable (hooks : MemoryHooks)

/-- Whether the hook of an operation exists. -/
def serves : RtlHeapEventOperation → Bool
  | .create => hooks.create
  | .allocate => hooks.allocate
  | .reallocate => hooks.reallocate
  | .free => hooks.free
  | .destroy => hooks.destroy
  | .vmAllocate | .vmFree | .sectionMap | .sectionUnmap => hooks.ntMemory

/-- The ids of the custom hook points. -/
def customApiIds : List ℕ := hooks.custom.getD []

/-- `is_known_custom_api`. -/
abbrev IsKnownCustomApi (apiId : ℕ) : Prop :=
  customHookApiIdBase ≤ apiId ∧ apiId ∈ hooks.customApiIds

end MemoryHooks

/-- `NT_SUCCESS` of a 32-bit status: as a signed word it is not negative. -/
abbrev NtSuccess (status : ℕ) : Prop := status < 2 ^ 31

/-- An NT call succeeds exactly when its status does; an exception has none. -/
abbrev NtResultInconsistent (raw : RtlHeapEvent) : Prop :=
  raw.status ≠ .exception ∧ ¬ (raw.Succeeded ↔ NtSuccess raw.operationResult)

/-- What each case of the switch refuses, besides a missing hook. -/
abbrev OperationInconsistent (raw : RtlHeapEvent) : RtlHeapEventOperation → Prop
  | .create =>
      ¬ (raw.Succeeded ↔ raw.resultAddress ≠ 0) ∨ raw.secondaryFlags ≠ 0 ∨
        raw.operationResult ≠ 0
  | .allocate =>
      ¬ (raw.Succeeded ↔ raw.resultAddress ≠ 0) ∨ raw.address ≠ 0 ∨ raw.rawResult ≠ 0 ∨
        raw.auxiliaryAddress ≠ 0 ∨ raw.secondaryFlags ≠ 0 ∨ raw.operationResult ≠ 0
  | .free =>
      raw.requestedSize ≠ 0 ∨ raw.resultAddress ≠ 0 ∨ raw.auxiliaryAddress ≠ 0 ∨
        raw.secondaryFlags ≠ 0 ∨ raw.operationResult ≠ 0 ∨
        ¬ (raw.Succeeded ↔ raw.rawResult ≠ 0)
  | .reallocate =>
      ¬ (raw.Succeeded ↔ raw.resultAddress ≠ 0) ∨ raw.rawResult ≠ 0 ∨
        raw.auxiliaryAddress ≠ 0 ∨ raw.secondaryFlags ≠ 0 ∨ raw.operationResult ≠ 0
  | .destroy =>
      raw.requestedSize ≠ 0 ∨ raw.resultAddress ≠ 0 ∨ raw.address ≠ 0 ∨
        raw.auxiliaryAddress ≠ 0 ∨ raw.flags ≠ 0 ∨ raw.secondaryFlags ≠ 0 ∨
        raw.operationResult ≠ 0 ∨ (raw.status = .success ∧ raw.rawResult ≠ 0) ∨
        (raw.status = .failure ∧ raw.rawResult = 0)
  | .vmAllocate =>
      raw.sectionHandle ≠ 0 ∨ raw.sectionOffset ≠ 0 ∨ raw.commitSize ≠ 0 ∨
        raw.tertiaryFlags ≠ 0 ∨ NtResultInconsistent raw
  | .vmFree =>
      raw.auxiliaryAddress ≠ 0 ∨ raw.secondaryFlags ≠ 0 ∨ raw.mappingBase ≠ 0 ∨
        raw.mappingSize ≠ 0 ∨ raw.sectionHandle ≠ 0 ∨ raw.sectionOffset ≠ 0 ∨
        raw.commitSize ≠ 0 ∨ raw.tertiaryFlags ≠ 0 ∨ NtResultInconsistent raw
  | .sectionMap => NtResultInconsistent raw
  | .sectionUnmap =>
      raw.requestedSize ≠ 0 ∨ raw.rawResult ≠ 0 ∨ raw.auxiliaryAddress ≠ 0 ∨
        raw.mappingBase ≠ 0 ∨ raw.mappingSize ≠ 0 ∨ raw.sectionHandle ≠ 0 ∨
        raw.sectionOffset ≠ 0 ∨ raw.commitSize ≠ 0 ∨ raw.secondaryFlags ≠ 0 ∨
        raw.tertiaryFlags ≠ 0 ∨ NtResultInconsistent raw

instance (raw : RtlHeapEvent) : DecidablePred (OperationInconsistent raw)
  | .create | .allocate | .reallocate | .free | .destroy => inferInstance
  | .vmAllocate | .vmFree | .sectionMap | .sectionUnmap => inferInstance

/-- The text of each case of the switch. -/
def operationText : RtlHeapEventOperation → String
  | .create => "raw RtlCreateHeap event result is inconsistent"
  | .allocate => "raw RtlAllocateHeap event result is inconsistent"
  | .free => "raw RtlFreeHeap event result is inconsistent"
  | .reallocate => "raw RtlReAllocateHeap event result is inconsistent"
  | .destroy => "raw RtlDestroyHeap event result is inconsistent"
  | .vmAllocate => "raw NtAllocateVirtualMemory event is inconsistent"
  | .vmFree => "raw NtFreeVirtualMemory event is inconsistent"
  | .sectionMap => "raw NtMapViewOfSection event is inconsistent"
  | .sectionUnmap => "raw NtUnmapViewOfSection event is inconsistent"

/-- `validate_custom_raw_event`. -/
def validateCustomRawEvent (raw : RtlHeapEvent) : Except Error Unit := do
  failIf (raw.heapHandle ≠ 0)
    (.invalidArgument "raw custom hook event carries a heap handle")
  match raw.operation with
  | .allocate =>
      failIf (¬ (raw.Succeeded ↔ raw.resultAddress ≠ 0) ∨ raw.address ≠ 0 ∨
          raw.rawResult ≠ 0 ∨ raw.auxiliaryAddress ≠ 0 ∨ raw.secondaryFlags ≠ 0 ∨
          raw.operationResult ≠ 0)
        (.invalidArgument "raw custom allocation event is inconsistent")
  | .reallocate =>
      failIf (¬ (raw.Succeeded ↔ raw.resultAddress ≠ 0) ∨ raw.rawResult ≠ 0 ∨
          raw.auxiliaryAddress ≠ 0 ∨ raw.secondaryFlags ≠ 0 ∨ raw.operationResult ≠ 0)
        (.invalidArgument "raw custom reallocation event is inconsistent")
  | .free =>
      failIf (¬ (raw.Succeeded ↔ raw.rawResult ≠ 0) ∨ raw.resultAddress ≠ 0 ∨
          raw.auxiliaryAddress ≠ 0 ∨ raw.secondaryFlags ≠ 0 ∨ raw.operationResult ≠ 0)
        (.invalidArgument "raw custom free event is inconsistent")
  | _ => throw (.invalidArgument "raw custom hook event operation is not supported")

/-- What `validate_raw_event` reads of the writer. -/
structure RawEventContext where
  monotonicOrigin : ℕ
  hooks : MemoryHooks
  lastSequence : ℕ

/-- A custom event, or the case of the switch for the event's operation. -/
def validateResult (hooks : MemoryHooks) (raw : RtlHeapEvent) : Except Error Unit :=
  if raw.Custom then validateCustomRawEvent raw
  else
    failIf (hooks.serves raw.operation = false ∨ OperationInconsistent raw raw.operation)
      (.invalidArgument (operationText raw.operation))

def validateRawEvent (ctx : RawEventContext) (raw : RtlHeapEvent) : Except Error Unit := do
  failIf (raw.queueSequence = 0 ∨ raw.threadId = 0 ∨ raw.monotonicTicks < ctx.monotonicOrigin)
    (.invalidArgument "raw Rtl heap event header is invalid")
  failIf (¬ (raw.status = .exception ↔ raw.exceptionStatus ≠ 0))
    (.invalidArgument "raw Rtl heap event result is inconsistent")
  failIf (raw.Custom ∧ ¬ ctx.hooks.IsKnownCustomApi raw.apiId)
    (.invalidArgument "raw event carries an unknown custom hook API ID")
  failIf (¬ raw.IsNtMemory ∧ (raw.targetProcessId ≠ 0 ∨ raw.mappingBase ≠ 0 ∨
      raw.mappingSize ≠ 0 ∨ raw.sectionHandle ≠ 0 ∨ raw.sectionOffset ≠ 0 ∨
      raw.commitSize ≠ 0 ∨ raw.tertiaryFlags ≠ 0))
    (.invalidArgument "raw Rtl heap event contains NT memory fields")
  validateResult ctx.hooks raw
  failIf (ctx.lastSequence = maxU64 ∨ raw.queueSequence ≠ ctx.lastSequence + 1)
    (.invalidArgument "raw Rtl heap event sequence is not contiguous")

/-- What a custom hook point may report. -/
structure CustomAccepted (raw : RtlHeapEvent) : Prop where
  handle : raw.heapHandle = 0
  operation : raw.operation = .allocate ∨ raw.operation = .reallocate ∨ raw.operation = .free
  result : raw.operation ≠ .free → (raw.Succeeded ↔ raw.resultAddress ≠ 0)

theorem CustomAccepted.of_ok {raw : RtlHeapEvent} (h : validateCustomRawEvent raw = .ok ()) :
    CustomAccepted raw := by
  unfold validateCustomRawEvent at h
  rw [failIf_bind_eq_ok, not_not] at h
  obtain ⟨hhandle, h⟩ := h
  cases hop : raw.operation <;> rw [hop] at h <;> dsimp only at h
  case allocate =>
    rw [failIf_eq_ok] at h
    exact ⟨hhandle, .inl hop, fun _ => by tauto⟩
  case reallocate =>
    rw [failIf_eq_ok] at h
    exact ⟨hhandle, .inr (.inl hop), fun _ => by tauto⟩
  case free => exact ⟨hhandle, .inr (.inr hop), fun hne => absurd hop hne⟩
  all_goals cases h

/-- What the rest of the writer relies on in an accepted event. -/
structure Accepted (ctx : RawEventContext) (raw : RtlHeapEvent) : Prop where
  sequence : raw.queueSequence = ctx.lastSequence + 1
  last : ctx.lastSequence < maxU64
  origin : ctx.monotonicOrigin ≤ raw.monotonicTicks
  custom : raw.Custom → ctx.hooks.IsKnownCustomApi raw.apiId ∧ CustomAccepted raw
  builtin : ¬ raw.Custom →
    ctx.hooks.serves raw.operation = true ∧ ¬ OperationInconsistent raw raw.operation

theorem Accepted.of_ok {ctx : RawEventContext} {raw : RtlHeapEvent}
    (hlast : ctx.lastSequence ≤ maxU64) (h : validateRawEvent ctx raw = .ok ()) :
    Accepted ctx raw := by
  unfold validateRawEvent at h
  simp only [failIf_bind_eq_ok] at h
  obtain ⟨hheader, -, hknown, -, h⟩ := h
  obtain ⟨⟨⟩, hkind, hsequence⟩ := bind_eq_ok.mp h
  unfold validateResult at hkind
  rw [failIf_eq_ok] at hsequence
  push Not at hheader hknown hsequence
  refine ⟨hsequence.2, by omega, hheader.2.2, ?_, ?_⟩
  · intro hcustom
    rw [if_pos hcustom] at hkind
    exact ⟨hknown hcustom, CustomAccepted.of_ok hkind⟩
  · intro hbuiltin
    rw [if_neg hbuiltin, failIf_eq_ok] at hkind
    obtain ⟨hserved, hconsistent⟩ := not_or.mp hkind
    exact ⟨by simpa using hserved, hconsistent⟩

/-! ## `validate_raw_stack` -/

def validateRawStack (stack : CapturedStack) : Except Error Unit := do
  failIf (maximumCapturedStackDepth < stack.requestedDepth)
    (.invalidArgument "raw captured stack depth exceeds its fixed capacity")
  if stackCaptureSucceeded stack then
    failIf (∃ frame ∈ stack.captured, frame = 0)
      (.invalidArgument "raw captured stack contains a zero frame")
  else if stack.status = .failed ∧ stack.frameCount = 0 then
    return ()
  else if stack.status = .disabled ∧ stack.frameCount = 0 ∧ stack.requestedDepth = 0 then
    return ()
  else
    throw (.invalidArgument "raw captured stack encoding is invalid")

/-- The frames of an accepted stack that was captured. -/
theorem validateRawStack_captured {stack : CapturedStack}
    (h : validateRawStack stack = .ok ()) (hcaptured : stackCaptureSucceeded stack) :
    ∀ frame ∈ stack.captured, frame ≠ 0 := by
  unfold validateRawStack at h
  rw [failIf_bind_eq_ok, if_pos hcaptured, failIf_eq_ok] at h
  push Not at h
  exact h.2

end Noleax.Windows
