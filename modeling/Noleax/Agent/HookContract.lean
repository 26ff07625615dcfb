import Noleax.Agent.HeapHooks

/-!
# What the hooks enqueue and what the writer accepts

The hooks decide success or failure from the pointer, the size and `errno`; the
writer derives its own consistency rules per operation and ends the capture when
an event breaks one. The two encodings agree on every call except those that are
recorded as a success although they returned no block and released none.
-/

namespace Noleax.Agent

open Lib Trace

/-- A call of a hooked function, with the settings of its hook. -/
inductive HookCall where
  | builtin (minimumCaptureSize : UInt64) (call : HeapCall)
  | custom (slot : CustomHookSlot) (call : CustomCall)

/-- The raw event the call enqueues, if any. -/
def HookCall.event (stamp : EventStamp) (inv : Invocation) : HookCall → Option LinuxHeapEvent
  | builtin minimumCaptureSize call => call.event minimumCaptureSize stamp inv
  | custom slot call => call.event slot stamp inv

/-- The outcomes libc permits: a failed call leaves a nonzero `errno`. -/
def HeapCall.Permitted : HeapCall → Prop
  | malloc _ result errno => result = 0 → errno ≠ 0
  | calloc _ _ result errno => result = 0 → errno ≠ 0
  | realloc _ size result errno => result = 0 → size ≠ 0 → errno ≠ 0
  | free _ => True
  | posixMemalign _ _ _ _ => True
  | alignedAlloc _ _ result errno => result = 0 → errno ≠ 0
  | memalign _ _ result errno => result = 0 → errno ≠ 0
  | reallocarray _ nmemb size result errno => result = 0 → nmemb ≠ 0 → size ≠ 0 → errno ≠ 0

/-- A libc call has a permitted outcome; a custom hook point is a declared one,
its outcome is anything. -/
def HookCall.Permitted (customDefinitions : ℕ) : HookCall → Prop
  | builtin _ call => call.Permitted
  | custom slot _ => isDeclaredCustomApi customDefinitions slot.apiId

/-- A null pointer, resized to a (wrapped) size of zero, came back null; or
`posix_memalign` reported success for a null block. -/
def HookCall.NullSuccess : HookCall → Prop
  | builtin _ (.realloc pointer size result _) => pointer = 0 ∧ size = 0 ∧ result = 0
  | builtin _ (.reallocarray pointer nmemb size result _) =>
      pointer = 0 ∧ nmemb * size = 0 ∧ result = 0
  | builtin minimumCaptureSize (.posixMemalign _ size stored result) =>
      minimumCaptureSize ≤ size ∧ result = 0 ∧ stored = 0
  | custom slot (.realloc memory args result _) =>
      args slot.reallocPtrArg = 0 ∧ args slot.reallocSizeArg = 0 ∧
        resultPointer slot memory args result = 0
  | _ => False

/-- The writer's side of the stamp: the next queue sequence, a thread and a tick
not before the origin. -/
structure Stampable (ctx : RawEventContext) (stamp : EventStamp) : Prop where
  notLast : ctx.lastSequence ≠ maxU64
  sequence : stamp.queueSequence = ctx.lastSequence + 1
  thread : stamp.threadId ≠ 0
  ticks : ctx.monotonicOrigin ≤ stamp.monotonicTicks

section Accept

variable {ctx : RawEventContext} {stamp : EventStamp} {fields : EventFields}

theorem toNat_eq_zero {x : UInt64} : x.toNat = 0 ↔ x = 0 := by
  rw [← UInt64.toNat_inj]
  rfl

theorem errorCode_toNat_eq_zero {x : UInt32} : x.toNat = 0 ↔ x = 0 := by
  rw [← UInt32.toNat_inj]
  rfl

/-- What is left to check of a stamped event. -/
theorem validateRawEvent_emitEvent (hstamp : Stampable ctx stamp)
    (hapi : ApiAccepted ctx.customDefinitions (emitEvent stamp fields))
    (hvm : ¬ (emitEvent stamp fields).IsVm) (herror : fields.failed = true → fields.errorCode ≠ 0) :
    validateRawEvent ctx (emitEvent stamp fields) = .ok () ↔
      validateOperation (emitEvent stamp fields) = .ok () := by
  have hseq := hstamp.sequence
  have hresult : (emitEvent stamp fields).Succeeded ↔
      (emitEvent stamp fields).operationResult = 0 := by
    unfold emitEvent LinuxHeapEvent.Succeeded
    cases hfailed : fields.failed with
    | false => simp
    | true => simpa [errorCode_toNat_eq_zero] using herror hfailed
  rw [validateRawEvent_eq_ok]
  constructor
  · intro h
    exact h.2.2.2.1
  · intro h
    refine ⟨⟨?_, hstamp.thread, hstamp.ticks⟩, hresult, hapi, h, fun h => absurd h hvm,
      hstamp.notLast, hseq⟩
    change stamp.queueSequence ≠ 0
    omega

/-- The malloc family: success exactly when there is a block. -/
theorem accepts_allocate (hstamp : Stampable ctx stamp) (hop : fields.operation = .allocate)
    (hapi : ApiAccepted ctx.customDefinitions (emitEvent stamp fields))
    (herror : fields.failed = true → fields.errorCode ≠ 0) (haddress : fields.address = 0) :
    validateRawEvent ctx (emitEvent stamp fields) = .ok () ↔
      (fields.failed = true ↔ fields.result = 0) := by
  rw [validateRawEvent_emitEvent hstamp hapi (by simp [emitEvent, hop]) herror]
  unfold validateOperation
  simp only [emitEvent, hop, failIf_eq_ok, haddress, LinuxHeapEvent.Succeeded]
  cases fields.failed <;> simp [toNat_eq_zero]

/-- The realloc family: no block on a failure, and a success without a block
released one. -/
theorem accepts_reallocate (hstamp : Stampable ctx stamp) (hop : fields.operation = .reallocate)
    (hapi : ApiAccepted ctx.customDefinitions (emitEvent stamp fields))
    (herror : fields.failed = true → fields.errorCode ≠ 0)
    (hresult : fields.failed = true → fields.result = 0) :
    validateRawEvent ctx (emitEvent stamp fields) = .ok () ↔
      ¬ (fields.failed = false ∧ fields.result = 0 ∧ fields.address = 0) := by
  rw [validateRawEvent_emitEvent hstamp hapi (by simp [emitEvent, hop]) herror]
  unfold validateOperation
  simp only [emitEvent, hop, failIf_bind_eq_ok, failIf_eq_ok, LinuxHeapEvent.Succeeded]
  cases hfailed : fields.failed with
  | false => simp [toNat_eq_zero]
  | true => simp [toNat_eq_zero, hresult hfailed]

theorem accepts_free (hstamp : Stampable ctx stamp) (hop : fields.operation = .free)
    (hapi : ApiAccepted ctx.customDefinitions (emitEvent stamp fields))
    (hfailed : fields.failed = false) (hsize : fields.requestedSize = 0)
    (hresult : fields.result = 0) (hcount : fields.count = 0) (halign : fields.alignment = 0) :
    validateRawEvent ctx (emitEvent stamp fields) = .ok () := by
  rw [validateRawEvent_emitEvent hstamp hapi (by simp [emitEvent, hop]) (by simp [hfailed])]
  unfold validateOperation
  simp [emitEvent, hop, hsize, hresult, hcount, halign]

/-- A built-in API has the operation of its registry entry. -/
theorem apiAccepted_builtin {api : LinuxLogicalHookApi} (hid : fields.apiId = api.apiId)
    (hop : expectedOperation api = fields.operation) (n : ℕ) :
    ApiAccepted n (emitEvent stamp fields) := by
  have hfind : findLinuxHook (emitEvent stamp fields).apiId = some api := by
    change findLinuxHook fields.apiId = some api
    rw [hid, findLinuxHook_apiId]
  unfold ApiAccepted
  rw [hfind]
  exact hop

theorem apiAccepted_custom {n : ℕ} (hdeclared : isDeclaredCustomApi n fields.apiId)
    (hop : fields.operation = .allocate ∨ fields.operation = .reallocate ∨
      fields.operation = .free) :
    ApiAccepted n (emitEvent stamp fields) := by
  have hfind : findLinuxHook (emitEvent stamp fields).apiId = none :=
    findLinuxHook_custom hdeclared.1
  unfold ApiAccepted
  rw [hfind]
  exact ⟨hdeclared, hop⟩

end Accept

/-! ## Every replacement -/

/-- What is enqueued, if anything, passes `validate_raw_event`. -/
def EventAccepted (ctx : RawEventContext) (event : Option LinuxHeapEvent) : Prop :=
  ∀ raw ∈ event, validateRawEvent ctx raw = .ok ()

theorem eventAccepted_some {ctx : RawEventContext} {raw : LinuxHeapEvent} :
    EventAccepted ctx (some raw) ↔ validateRawEvent ctx raw = .ok () := by
  simp [EventAccepted]

theorem eventAccepted_none (ctx : RawEventContext) : EventAccepted ctx none := by
  simp [EventAccepted]

section Records

variable {ctx : RawEventContext} {stamp : EventStamp} {api : LinuxLogicalHookApi}

theorem recordAllocate_accepted {minimum size count alignment result : UInt64} {failed : Bool}
    {errorCode : UInt32} (hstamp : Stampable ctx stamp)
    (hapi : expectedOperation api = .allocate) (herror : failed = true → errorCode ≠ 0) :
    EventAccepted ctx
        (recordAllocate minimum stamp api.apiId size count alignment result failed errorCode) ↔
      (minimum ≤ size → (failed = true ↔ result = 0)) := by
  unfold recordAllocate
  by_cases hfilter : size < minimum
  · rw [if_pos hfilter]
    exact iff_of_true (eventAccepted_none ctx) fun hle => absurd hfilter (UInt64.not_lt.mpr hle)
  · rw [if_neg hfilter, eventAccepted_some,
      accepts_allocate hstamp rfl (apiAccepted_builtin rfl hapi _) herror rfl]
    exact ⟨fun h _ => h, fun h => h (UInt64.not_lt.mp hfilter)⟩

theorem recordReallocate_accepted {address size count result : UInt64} {failed : Bool}
    {errorCode : UInt32} (hstamp : Stampable ctx stamp)
    (hapi : expectedOperation api = .reallocate) (herror : failed = true → errorCode ≠ 0)
    (hresult : failed = true → result = 0) :
    EventAccepted ctx
        (some (recordReallocate stamp api.apiId address size count result failed errorCode)) ↔
      ¬ (failed = false ∧ result = 0 ∧ address = 0) := by
  rw [eventAccepted_some]
  exact accepts_reallocate hstamp rfl (apiAccepted_builtin rfl hapi _) herror hresult

theorem customErrorCode_ne {failed : Bool} {errno : UInt32} (h : failed = true) :
    customErrorCode failed errno ≠ 0 := by
  unfold customErrorCode
  rw [if_pos h]
  split
  · assumption
  · decide

/-- Every allocation of a custom point is accepted. -/
theorem recordCustomAllocate_accepted {slot : CustomHookSlot} (hstamp : Stampable ctx stamp)
    (hdeclared : isDeclaredCustomApi ctx.customDefinitions slot.apiId)
    (size count result : UInt64) (sizeValid : Bool) (errno : UInt32) :
    EventAccepted ctx (recordCustomAllocate slot stamp size count result sizeValid errno) := by
  unfold recordCustomAllocate
  simp only
  split
  · exact eventAccepted_none ctx
  · rw [eventAccepted_some, accepts_allocate hstamp rfl
      (apiAccepted_custom hdeclared (.inl rfl)) customErrorCode_ne rfl]
    by_cases hfailed : sizeValid = false ∨ result = 0
    · simp [hfailed]
    · simpa [hfailed] using (not_or.mp hfailed).2

theorem recordCustomReallocate_accepted {slot : CustomHookSlot} (hstamp : Stampable ctx stamp)
    (hdeclared : isDeclaredCustomApi ctx.customDefinitions slot.apiId)
    (address size result : UInt64) (errno : UInt32) :
    EventAccepted ctx (some (recordCustomReallocate slot stamp address size result errno)) ↔
      ¬ (address = 0 ∧ size = 0 ∧ result = 0) := by
  unfold recordCustomReallocate
  simp only
  rw [eventAccepted_some, accepts_reallocate hstamp rfl
    (apiAccepted_custom hdeclared (.inr (.inl rfl))) customErrorCode_ne
    (fun hfailed => if_pos hfailed)]
  by_cases hfailed : result = 0 ∧ size ≠ 0
  · simp [hfailed]
  · simp only [hfailed, decide_false, true_and, Bool.false_eq_true, if_false]
    grind

end Records

/-- A libc allocation that fails exactly when it returns null is always accepted. -/
theorem allocation_accepted {ctx : RawEventContext} {stamp : EventStamp}
    {api : LinuxLogicalHookApi} {minimum size count alignment result : UInt64} {errno : UInt32}
    (hstamp : Stampable ctx stamp) (hapi : expectedOperation api = .allocate)
    (hpermitted : result = 0 → errno ≠ 0) :
    EventAccepted ctx (recordAllocate minimum stamp api.apiId size count alignment result
      (result = 0) errno) :=
  (recordAllocate_accepted hstamp hapi fun h => hpermitted (by simpa using h)).mpr
    fun _ => by simp

/-- A libc resize is a success without a block when both sizes say so. -/
theorem resize_accepted_iff {ctx : RawEventContext} {stamp : EventStamp}
    {api : LinuxLogicalHookApi} {pointer size count result : UInt64} {errno : UInt32}
    (hstamp : Stampable ctx stamp) (hapi : expectedOperation api = .reallocate)
    (hpermitted : result = 0 → size ≠ 0 → errno ≠ 0) :
    EventAccepted ctx (some (recordReallocate stamp api.apiId pointer size count result
      (result = 0 ∧ size ≠ 0) errno)) ↔ ¬ (pointer = 0 ∧ size = 0 ∧ result = 0) := by
  rw [recordReallocate_accepted hstamp hapi]
  · grind
  · intro hfailed
    obtain ⟨hresult, hsize⟩ := of_decide_eq_true hfailed
    exact hpermitted hresult hsize
  · intro hfailed
    exact (of_decide_eq_true hfailed).1

section Calls

variable {ctx : RawEventContext} {stamp : EventStamp} {inv : Invocation}

theorem builtin_accepted_iff {minimum : UInt64} {call : HeapCall} (hstamp : Stampable ctx stamp)
    (hrecord : inv.Recorded) (hpermitted : call.Permitted) :
    EventAccepted ctx (call.event minimum stamp inv) ↔
      ¬ (HookCall.builtin minimum call).NullSuccess := by
  unfold HeapCall.event
  rw [if_pos hrecord]
  cases call with
  | malloc size result errno =>
      exact iff_of_true (allocation_accepted hstamp rfl hpermitted) id
  | calloc nmemb size result errno =>
      exact iff_of_true (allocation_accepted hstamp rfl hpermitted) id
  | alignedAlloc alignment size result errno =>
      exact iff_of_true (allocation_accepted hstamp rfl hpermitted) id
  | memalign alignment size result errno =>
      exact iff_of_true (allocation_accepted hstamp rfl hpermitted) id
  | free pointer =>
      refine iff_of_true (eventAccepted_some.mpr ?_) id
      have hapi : expectedOperation .free = .free := rfl
      exact accepts_free hstamp rfl (apiAccepted_builtin rfl hapi _) rfl rfl rfl rfl rfl
  | realloc pointer size result errno =>
      exact resize_accepted_iff hstamp rfl hpermitted
  | reallocarray pointer nmemb size result errno =>
      refine resize_accepted_iff hstamp rfl fun hresult hproduct => ?_
      -- a nonzero product has nonzero factors
      refine hpermitted hresult (fun hn => hproduct ?_) fun hs => hproduct ?_
      · rw [hn, UInt64.zero_mul]
      · rw [hs, UInt64.mul_zero]
  | posixMemalign alignment size stored result =>
      -- the code is the result, so only a reported success can lack a block
      refine (recordAllocate_accepted hstamp rfl fun h => of_decide_eq_true h).trans ?_
      unfold HookCall.NullSuccess
      by_cases hresult : result = 0
      · simp [hresult]
      · simp [hresult]

theorem custom_accepted_iff {slot : CustomHookSlot} {call : CustomCall}
    (hstamp : Stampable ctx stamp) (hrecord : inv.Recorded)
    (hdeclared : isDeclaredCustomApi ctx.customDefinitions slot.apiId) :
    EventAccepted ctx (call.event slot stamp inv) ↔
      ¬ (HookCall.custom slot call).NullSuccess := by
  unfold CustomCall.event
  rw [if_pos hrecord]
  cases call with
  | alloc memory args result errno =>
      refine iff_of_true ?_ id
      exact recordCustomAllocate_accepted hstamp hdeclared _ _ _ _ _
  | realloc memory args result errno => exact recordCustomReallocate_accepted hstamp hdeclared ..
  | free args =>
      refine iff_of_true (eventAccepted_some.mpr ?_) id
      exact accepts_free hstamp rfl (apiAccepted_custom hdeclared (.inr (.inr rfl))) rfl rfl rfl
        rfl rfl

end Calls

/-- The raw event of a hooked call is accepted exactly when the call is not
recorded as a success without a block. -/
theorem hook_event_accepted_iff (ctx : RawEventContext) (stamp : EventStamp) (inv : Invocation)
    (call : HookCall) (hstamp : Stampable ctx stamp)
    (hpermitted : call.Permitted ctx.customDefinitions) :
    EventAccepted ctx (call.event stamp inv) ↔ ¬ (inv.Recorded ∧ call.NullSuccess) := by
  by_cases hrecord : inv.Recorded
  · rw [not_congr (and_iff_right hrecord)]
    cases call with
    | builtin minimum call => exact builtin_accepted_iff hstamp hrecord hpermitted
    | custom slot call => exact custom_accepted_iff hstamp hrecord hpermitted
  · -- an unrecorded call enqueues nothing
    have hnone : call.event stamp inv = none := by
      cases call <;> simp [HookCall.event, HeapCall.event, CustomCall.event, hrecord]
    rw [hnone]
    exact iff_of_true (eventAccepted_none ctx) fun h => hrecord h.1

/-! ## A wrapped product

`reallocarray(nullptr, 1 << 32, 1 << 32)`: glibc sees the overflow, returns null
and sets `ENOMEM`; the replacement multiplies to zero and records a success. -/

def firstStamp : EventStamp := ⟨1, 0, 7, {}⟩

def wrappedReallocarray : HookCall :=
  .builtin 0 (.reallocarray 0 0x100000000 0x100000000 0 enomem)

theorem stampable_first : Stampable ⟨0, 0, 0⟩ firstStamp := ⟨by decide, rfl, by decide, le_rfl⟩

theorem wrappedReallocarray_permitted : wrappedReallocarray.Permitted 0 := by
  intro _ _ _
  decide

/-- The writer throws on the event of that call. -/
theorem wrappedReallocarray_rejected :
    ¬ ∀ (ctx : RawEventContext) (stamp : EventStamp) (inv : Invocation) (call : HookCall),
      Stampable ctx stamp → call.Permitted ctx.customDefinitions →
        EventAccepted ctx (call.event stamp inv) := by
  intro hclaim
  have haccepted := hclaim ⟨0, 0, 0⟩ firstStamp {} wrappedReallocarray stampable_first
    wrappedReallocarray_permitted
  have hevent : wrappedReallocarray.event firstStamp {} = some
      { queueSequence := 1
        threadId := 7
        count := 2 ^ 32
        apiId := LinuxLogicalHookApi.reallocarray.apiId
        operation := .reallocate
        status := .success } := by decide
  rw [hevent, eventAccepted_some] at haccepted
  revert haccepted
  decide

/-- The same call on a live block is accepted. -/
theorem hook_event_accepted_iff_liveBlock :
    EventAccepted ⟨0, 0, 0⟩
        (HookCall.event firstStamp {} (.builtin 0 (.realloc 0x5000 0 0 0))) ↔
      ¬ (Invocation.Recorded {} ∧ (HookCall.builtin 0 (.realloc 0x5000 0 0 0)).NullSuccess) :=
  hook_event_accepted_iff ⟨0, 0, 0⟩ firstStamp {} (.builtin 0 (.realloc 0x5000 0 0 0))
    stampable_first (fun _ h => absurd rfl h)

end Noleax.Agent
