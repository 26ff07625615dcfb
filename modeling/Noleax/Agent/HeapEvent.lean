import Noleax.Trace.Event

/-!
# Raw Linux events (`heap_event.hpp`, `hook_registry.hpp`, `stack_capture.hpp`)

The event the hooks queue, the registry of built-in hooks, and the consumer's
checks `validate_raw_event` and `validate_raw_stack` of
`agent/linux/trace_writer.cpp`.
-/

namespace Noleax.Agent

open Lib Trace

/-! ## The hook registry -/

inductive LinuxLogicalHookApi where
  | malloc | calloc | realloc | free | posixMemalign | alignedAlloc | memalign | reallocarray
  | mmap | munmap | mremap
deriving DecidableEq, Repr

namespace LinuxLogicalHookApi

/-- `kMallocApiId` … `kMremapApiId`: Windows built-ins end at 9, Linux starts at 10. -/
def apiId : LinuxLogicalHookApi → ℕ
  | malloc => 10
  | calloc => 11
  | realloc => 12
  | free => 13
  | posixMemalign => 14
  | alignedAlloc => 15
  | memalign => 16
  | reallocarray => 17
  | mmap => 18
  | munmap => 19
  | mremap => 20

end LinuxLogicalHookApi

open LinuxLogicalHookApi in
/-- The order of the entries is the channel order, heap group first. -/
def linuxHookRegistry : List LinuxLogicalHookApi :=
  [malloc, calloc, realloc, free, posixMemalign, alignedAlloc, memalign, reallocarray,
    mmap, munmap, mremap]

def findLinuxHook (apiId : ℕ) : Option LinuxLogicalHookApi :=
  linuxHookRegistry.find? fun entry => entry.apiId = apiId

@[simp] theorem findLinuxHook_apiId (api : LinuxLogicalHookApi) :
    findLinuxHook api.apiId = some api := by
  cases api <;> rfl

theorem findLinuxHook_custom {apiId : ℕ} (h : customHookApiIdBase ≤ apiId) :
    findLinuxHook apiId = none := by
  refine List.find?_eq_none.mpr fun api _ hid => ?_
  have : api.apiId ≤ 20 := by cases api <;> decide
  simp only [decide_eq_true_eq] at hid
  unfold customHookApiIdBase at h
  omega

/-! ## The event -/

inductive LinuxHeapEventOperation where
  | allocate | reallocate | free | vmAllocate | vmUnmap | vmRemap
deriving DecidableEq, Repr

inductive LinuxHeapEventStatus where
  | success | failure
deriving DecidableEq, Repr

inductive StackCaptureStatus where
  | disabled | captured | truncated | failed
deriving DecidableEq, Repr

def maximumCapturedStackDepth : ℕ := 64

/-- `CapturedStack`: a fixed array of frames with a count. -/
structure CapturedStack where
  frames : Vector ℕ maximumCapturedStackDepth := Vector.replicate _ 0
  frameCount : ℕ := 0
  requestedDepth : ℕ := 0
  status : StackCaptureStatus := .disabled
deriving DecidableEq, Repr

abbrev stackCaptureSucceeded (stack : CapturedStack) : Prop :=
  (stack.status = .captured ∨ stack.status = .truncated) ∧ 0 < stack.frameCount ∧
    stack.frameCount ≤ stack.requestedDepth ∧ stack.requestedDepth ≤ maximumCapturedStackDepth

/-- The first `frame_count` frames. -/
def CapturedStack.captured (stack : CapturedStack) : List ℕ :=
  stack.frames.toList.take stack.frameCount

structure LinuxHeapEvent where
  queueSequence : ℕ := 0
  monotonicTicks : ℕ := 0
  threadId : ℕ := 0
  requestedAddress : ℕ := 0
  requestedSize : ℕ := 0
  count : ℕ := 0
  alignment : ℕ := 0
  resultAddress : ℕ := 0
  address : ℕ := 0
  protection : ℕ := 0
  mapFlags : ℕ := 0
  sectionHandle : ℕ := 0
  sectionOffset : ℕ := 0
  completionSequence : ℕ := 0
  operationResult : ℕ := 0
  apiId : ℕ := 0
  operation : LinuxHeapEventOperation := .allocate
  status : LinuxHeapEventStatus := .failure
  stack : CapturedStack := {}
deriving DecidableEq, Repr

abbrev LinuxHeapEvent.Succeeded (event : LinuxHeapEvent) : Prop := event.status = .success

/-- The operations whose plan goes through the interval model. -/
abbrev LinuxHeapEvent.IsVm (event : LinuxHeapEvent) : Prop :=
  event.operation = .vmAllocate ∨ event.operation = .vmUnmap ∨ event.operation = .vmRemap

def expectedOperation : LinuxLogicalHookApi → LinuxHeapEventOperation
  | .malloc | .calloc | .posixMemalign | .alignedAlloc | .memalign => .allocate
  | .realloc | .reallocarray => .reallocate
  | .free => .free
  | .mmap => .vmAllocate
  | .munmap => .vmUnmap
  | .mremap => .vmRemap

/-! ## `validate_raw_event` -/

/-- What `validate_raw_event` reads of the writer. -/
structure RawEventContext where
  monotonicOrigin : ℕ
  /-- `custom_definitions_.size()` -/
  customDefinitions : ℕ
  lastSequence : ℕ

abbrev isDeclaredCustomApi (customDefinitions apiId : ℕ) : Prop :=
  customHookApiIdBase ≤ apiId ∧ apiId - customHookApiIdBase < customDefinitions

/-- The per-operation invariants of the switch. -/
def validateOperation (raw : LinuxHeapEvent) : Except Error Unit :=
  match raw.operation with
  | .allocate =>
      failIf (raw.address ≠ 0 ∨ ¬ (raw.Succeeded ↔ raw.resultAddress ≠ 0))
        (.invalidArgument "raw malloc-family event result is inconsistent")
  | .reallocate => do
      failIf (¬ raw.Succeeded ∧ raw.resultAddress ≠ 0)
        (.invalidArgument "raw realloc-family event result is inconsistent")
      -- realloc(NULL, 0) returning NULL is indistinguishable from a failure
      failIf (raw.Succeeded ∧ raw.resultAddress = 0 ∧ raw.address = 0)
        (.invalidArgument "raw realloc-family event result is inconsistent")
  | .free =>
      failIf (raw.requestedSize ≠ 0 ∨ raw.resultAddress ≠ 0 ∨ raw.count ≠ 0 ∨ raw.alignment ≠ 0)
        (.invalidArgument "raw free event is inconsistent")
  | .vmAllocate =>
      failIf (raw.address ≠ 0 ∨ raw.count ≠ 0 ∨ raw.alignment ≠ 0 ∨
          (raw.Succeeded ∧ raw.requestedSize = 0) ∨
          ¬ (raw.Succeeded ↔ raw.resultAddress ≠ 0) ∨
          (raw.Succeeded ∧ maxU64 - raw.resultAddress < raw.requestedSize))
        (.invalidArgument "raw mmap event result is inconsistent")
  | .vmUnmap =>
      failIf (raw.requestedAddress ≠ 0 ∨ raw.count ≠ 0 ∨ raw.alignment ≠ 0 ∨
          raw.resultAddress ≠ 0 ∨ raw.protection ≠ 0 ∨ raw.mapFlags ≠ 0 ∨
          raw.sectionHandle ≠ 0 ∨ raw.sectionOffset ≠ 0 ∨
          (raw.Succeeded ∧ (raw.address = 0 ∨ raw.requestedSize = 0 ∨
            maxU64 - raw.address < raw.requestedSize)))
        (.invalidArgument "raw munmap event result is inconsistent")
  | .vmRemap =>
      -- MREMAP_FIXED is bit 1 of the flags
      failIf (raw.requestedAddress ≠ 0 ∨ raw.protection ≠ 0 ∨ raw.sectionHandle ≠ 0 ∨
          raw.sectionOffset ≠ 0 ∨ (raw.alignment ≠ 0 ∧ raw.mapFlags &&& 0x2 = 0) ∨
          (raw.Succeeded ∧ (raw.address = 0 ∨ raw.count = 0 ∨
            maxU64 - raw.address < raw.requestedSize ∨ maxU64 - raw.resultAddress < raw.count)) ∨
          ¬ (raw.Succeeded ↔ raw.resultAddress ≠ 0))
        (.invalidArgument "raw mremap event result is inconsistent")

/-- Custom hook points produce only the three heap operations; a built-in API
has its one operation. -/
def validateApi (customDefinitions : ℕ) (raw : LinuxHeapEvent) : Except Error Unit :=
  match findLinuxHook raw.apiId with
  | none => do
      failIf (¬ isDeclaredCustomApi customDefinitions raw.apiId)
        (.invalidArgument "raw Linux heap event carries an unknown API ID")
      failIf (raw.operation ≠ .allocate ∧ raw.operation ≠ .reallocate ∧ raw.operation ≠ .free)
        (.invalidArgument "raw custom hook event operation is not supported")
  | some api =>
      failIf (expectedOperation api ≠ raw.operation)
        (.invalidArgument "raw Linux heap event operation does not match its API")

def validateRawEvent (ctx : RawEventContext) (raw : LinuxHeapEvent) : Except Error Unit := do
  failIf (raw.queueSequence = 0 ∨ raw.threadId = 0 ∨ raw.monotonicTicks < ctx.monotonicOrigin)
    (.invalidArgument "raw Linux heap event header is invalid")
  failIf (¬ (raw.Succeeded ↔ raw.operationResult = 0))
    (.invalidArgument "raw Linux heap event result is inconsistent")
  validateApi ctx.customDefinitions raw
  validateOperation raw
  failIf (raw.IsVm ∧ raw.completionSequence = 0)
    (.invalidArgument "raw Linux VM event carries no completion sequence")
  failIf (ctx.lastSequence = maxU64 ∨ raw.queueSequence ≠ ctx.lastSequence + 1)
    (.invalidArgument "raw Linux heap event sequence is not contiguous")

/-- What `validateApi` accepts. -/
abbrev ApiAccepted (customDefinitions : ℕ) (raw : LinuxHeapEvent) : Prop :=
  match findLinuxHook raw.apiId with
  | none => isDeclaredCustomApi customDefinitions raw.apiId ∧
      (raw.operation = .allocate ∨ raw.operation = .reallocate ∨ raw.operation = .free)
  | some api => expectedOperation api = raw.operation

theorem validateApi_eq_ok {customDefinitions : ℕ} {raw : LinuxHeapEvent} :
    validateApi customDefinitions raw = .ok () ↔ ApiAccepted customDefinitions raw := by
  unfold validateApi ApiAccepted
  cases findLinuxHook raw.apiId with
  | none =>
      rw [failIf_bind_eq_ok, failIf_eq_ok, not_not]
      refine and_congr_right fun _ => ⟨fun h => ?_, ?_⟩
      · by_contra hno
        push Not at hno
        exact h hno
      · rintro (h | h | h) ⟨h1, h2, h3⟩
        · exact h1 h
        · exact h2 h
        · exact h3 h
  | some api => simp only [failIf_eq_ok, not_not, ne_eq]

/-- Acceptance, check by check. -/
theorem validateRawEvent_eq_ok {ctx : RawEventContext} {raw : LinuxHeapEvent} :
    validateRawEvent ctx raw = .ok () ↔
      (raw.queueSequence ≠ 0 ∧ raw.threadId ≠ 0 ∧ ctx.monotonicOrigin ≤ raw.monotonicTicks) ∧
      (raw.Succeeded ↔ raw.operationResult = 0) ∧
      ApiAccepted ctx.customDefinitions raw ∧
      validateOperation raw = .ok () ∧
      (raw.IsVm → raw.completionSequence ≠ 0) ∧
      ctx.lastSequence ≠ maxU64 ∧ raw.queueSequence = ctx.lastSequence + 1 := by
  unfold validateRawEvent
  rw [failIf_bind_eq_ok, failIf_bind_eq_ok, ← validateApi_eq_ok]
  constructor
  · rintro ⟨h1, h2, h3⟩
    rw [bind_eq_ok] at h3
    obtain ⟨⟨⟩, h3, h4⟩ := h3
    rw [bind_eq_ok] at h4
    obtain ⟨⟨⟩, h4, h5⟩ := h4
    rw [failIf_bind_eq_ok, failIf_eq_ok] at h5
    refine ⟨by omega, by tauto, h3, h4, ?_, by omega⟩
    exact fun hvm hz => h5.1 ⟨hvm, hz⟩
  · rintro ⟨h1, h2, h3, h4, h5, h6⟩
    refine ⟨by omega, by tauto, ?_⟩
    rw [bind_eq_ok]
    refine ⟨(), h3, ?_⟩
    rw [bind_eq_ok]
    refine ⟨(), h4, ?_⟩
    rw [failIf_bind_eq_ok, failIf_eq_ok]
    exact ⟨fun h => h5 h.1 h.2, by omega⟩

/-! ## `validate_raw_stack` -/

def validateRawStack (stack : CapturedStack) : Except Error Unit := do
  failIf (maximumCapturedStackDepth < stack.requestedDepth ∨
      maximumCapturedStackDepth < stack.frameCount)
    (.invalidArgument "raw captured stack depth exceeds its fixed capacity")
  if stackCaptureSucceeded stack then
    failIf (∃ frame ∈ stack.captured, frame = 0)
      (.invalidArgument "raw captured stack contains a zero frame")
  else if stack.status = .failed ∧ stack.frameCount = 0 then
    return ()
  else if stack.status = .disabled ∧ stack.frameCount = 0 ∧ stack.requestedDepth = 0 then
    return ()
  else
    throw (.invalidArgument "raw captured stack encoding is invalid")

end Noleax.Agent
