import Noleax.Windows.Replacements

/-!
# Every interleaving of the Windows replacements

Whatever the threads do, the consumer finds events it accepts, numbered without a gap.
Their records can be built unless a creation meets a handle or a view base that is still
live in the writer, which the order of the queue and its losses allow.
-/

namespace Noleax.Windows

open Lib Trace Agent

/-! ## The events of the replacements -/

/-- What a call that succeeds here delivers. -/
def HookedCall.Delivers (processId : ℕ) : HookedCall → Prop
  | .ntAllocateVirtualMemory call | .ntMapViewOfSection _ _ _ _ call =>
      SucceedsHere processId call.targetProcessId call.result →
        call.resultBase ≠ 0 ∧ call.resultSize ≠ 0
  | _ => True

/-- A call of a hook that is installed, as the kernel answers it. -/
structure PendingCall.Answered (options : WriterOptions) (record : PendingCall) : Prop where
  hooked : options.hooks.serves record.call.operation = true
  delivers : record.outcome = .returned → record.call.Delivers options.processId
  code : ∀ code, record.outcome = .raised code → code ≠ 0

/-- What the consumer relies on in the event of a replacement. -/
structure Hooked (options : WriterOptions) (raw : RtlHeapEvent) : Prop where
  builtin : ¬ raw.Custom
  block : raw.operation ≠ .allocate ∧ raw.operation ≠ .reallocate
  valid : ∀ last, last < maxU64 → raw.queueSequence = last + 1 →
    validateRawEvent ⟨options.monotonicOrigin, options.hooks, last⟩ raw = .ok ()
  stack : validateRawStack raw.stack = .ok ()
  reservation : raw.operation = .vmAllocate → raw.Succeeded →
    raw.OnCurrentProcess options.vmContext → raw.reservedBase ≠ 0 ∧ raw.reservedSize ≠ 0
  view : raw.operation = .sectionMap → raw.Succeeded → raw.OnCurrentProcess options.vmContext →
    raw.resultAddress ≠ 0 ∧ raw.rawResult ≠ 0

section Fill

variable {options : WriterOptions} {hooks : HookOptions} {sequence : ℕ} {ctx : FillContext}
  {outcome : CallOutcome}

theorem status_eq_success {success : Prop} [Decidable success] :
    outcome.status success = .success ↔ outcome = .returned ∧ success := by
  unfold CallOutcome.status
  cases outcome with
  | returned => by_cases h : success <;> simp [h]
  | raised code => simp

theorem status_eq_exception {success : Prop} [Decidable success]
    (hcode : ∀ code, outcome = .raised code → code ≠ 0) :
    outcome.status success = .exception ↔ outcome.exceptionStatus ≠ 0 := by
  unfold CallOutcome.status CallOutcome.exceptionStatus
  cases outcome with
  | returned => by_cases h : success <;> simp [h]
  | raised code => simp [hcode code rfl]

/-- The stack of an event is one the consumer accepts. -/
theorem stackOf_valid (hctx : ctx.Sound options hooks sequence) {missing : StackCaptureStatus}
    (hmissing : missing = .failed ∨ (missing = .disabled ∧ ctx.maximumStackDepth = 0)) :
    validateRawStack (ctx.stackOf missing outcome) = .ok () := by
  cases outcome with
  | returned => exact hctx.stack
  | raised code =>
      have hdepth : ¬ maximumCapturedStackDepth < ctx.maximumStackDepth := by
        rw [hctx.depth]
        exact Nat.not_lt.mpr hooks.depth_le
      unfold validateRawStack FillContext.stackOf
      dsimp only
      rw [failIf_of_not hdepth, ok_bind, if_neg fun hcaptured => Nat.lt_irrefl 0 hcaptured.2.1]
      rcases hmissing with rfl | ⟨rfl, hzero⟩
      · exact if_pos ⟨rfl, rfl⟩
      · rw [if_neg fun hfailed => nomatch hfailed.1]
        exact if_pos ⟨rfl, rfl, hzero⟩

/-- The checks of `validate_raw_event` that do not depend on the operation. -/
theorem validateRawEvent_hooked {raw : RtlHeapEvent} {last : ℕ} (hlast : last < maxU64)
    (hsequence : raw.queueSequence = last + 1) (hthread : raw.threadId ≠ 0)
    (hticks : options.monotonicOrigin ≤ raw.monotonicTicks)
    (hstatus : raw.status = .exception ↔ raw.exceptionStatus ≠ 0) (hbuiltin : ¬ raw.Custom)
    (hmemory : raw.IsNtMemory ∨ (raw.targetProcessId = 0 ∧ raw.mappingBase = 0 ∧
      raw.mappingSize = 0 ∧ raw.sectionHandle = 0 ∧ raw.sectionOffset = 0 ∧ raw.commitSize = 0 ∧
      raw.tertiaryFlags = 0))
    (hhooked : options.hooks.serves raw.operation = true)
    (hconsistent : ¬ OperationInconsistent raw raw.operation) :
    validateRawEvent ⟨options.monotonicOrigin, options.hooks, last⟩ raw = .ok () := by
  have hheader : ¬ (raw.queueSequence = 0 ∨ raw.threadId = 0 ∨
      raw.monotonicTicks < options.monotonicOrigin) := by omega
  unfold validateRawEvent validateResult
  rw [failIf_of_not hheader, ok_bind, failIf_of_not (not_not.mpr hstatus), ok_bind,
    failIf_of_not fun hcustom => hbuiltin hcustom.1, ok_bind, failIf_of_not, ok_bind,
    if_neg hbuiltin, failIf_of_not, ok_bind, failIf_of_not]
  · dsimp only
    omega
  · rintro (hserves | hno)
    · rw [hhooked] at hserves
      cases hserves
    · exact hconsistent hno
  · rintro ⟨hheap, hfields⟩
    rcases hmemory with hmemory | hzero
    · exact hheap hmemory
    · omega

theorem hooked_create (hctx : ctx.Sound options hooks sequence)
    (hcode : ∀ code, outcome = .raised code → code ≠ 0) (hserves : options.hooks.create = true)
    (flags heapBase reserveSize commitSize lock parameters result : ℕ) :
    Hooked options (fillCreateEvent ctx outcome flags heapBase reserveSize commitSize lock parameters
      result) where
  builtin := fun hcustom => hcustom rfl
  block := ⟨nofun, nofun⟩
  valid := by
    intro last hlast hsequence
    apply validateRawEvent_hooked hlast hsequence hctx.thread hctx.ticks (status_eq_exception hcode)
    · exact fun hcustom => hcustom rfl
    · exact .inr ⟨rfl, rfl, rfl, rfl, rfl, rfl, rfl⟩
    · exact hserves
    · have hresult : outcome.status (result ≠ 0) = .success ↔ outcome.result result ≠ 0 := by
        rw [status_eq_success]
        unfold CallOutcome.result
        cases outcome <;> simp
      rintro (hno | hno | hno)
      · exact hno hresult
      · exact hno rfl
      · exact hno rfl
  stack := stackOf_valid hctx (.inl rfl)
  reservation := by
    intro hop
    cases hop
  view := by
    intro hop
    cases hop

theorem hooked_destroy (hctx : ctx.Sound options hooks sequence)
    (hcode : ∀ code, outcome = .raised code → code ≠ 0) (hserves : options.hooks.destroy = true)
    (heap result : ℕ) : Hooked options (fillDestroyEvent ctx outcome heap result) where
  builtin := fun hcustom => hcustom rfl
  block := ⟨nofun, nofun⟩
  valid := by
    intro last hlast hsequence
    apply validateRawEvent_hooked hlast hsequence hctx.thread hctx.ticks (status_eq_exception hcode)
    · exact fun hcustom => hcustom rfl
    · exact .inr ⟨rfl, rfl, rfl, rfl, rfl, rfl, rfl⟩
    · exact hserves
    · have hsuccess : ¬ (outcome.status (result = 0) = .success ∧ outcome.result result ≠ 0) := by
        rw [status_eq_success]
        intro ⟨⟨hreturned, hzero⟩, hne⟩
        subst hreturned
        exact hne hzero
      have hfailure : ¬ (outcome.status (result = 0) = .failure ∧ outcome.result result = 0) := by
        unfold CallOutcome.status CallOutcome.result
        cases outcome with
        | returned => by_cases hzero : result = 0 <;> simp [hzero]
        | raised code => simp
      rintro (hno | hno | hno | hno | hno | hno | hno | hno | hno)
      · exact hno rfl
      · exact hno rfl
      · exact hno rfl
      · exact hno rfl
      · exact hno rfl
      · exact hno rfl
      · exact hno rfl
      · exact hsuccess hno
      · exact hfailure hno
  stack := stackOf_valid hctx (.inl rfl)
  reservation := by
    intro hop
    cases hop
  view := by
    intro hop
    cases hop

theorem missing_stack (ctx : FillContext) :
    (if ctx.maximumStackDepth = 0 then StackCaptureStatus.disabled else .failed) = .failed ∨
      (if ctx.maximumStackDepth = 0 then StackCaptureStatus.disabled else .failed) = .disabled ∧
        ctx.maximumStackDepth = 0 := by
  by_cases hzero : ctx.maximumStackDepth = 0
  · exact .inr ⟨if_pos hzero, hzero⟩
  · exact .inl (if_neg hzero)

/-- An NT call's status says what its result says. -/
theorem ntResult_consistent {raw : RtlHeapEvent} {result : ℕ}
    (hstatus : raw.status = outcome.status (NtSuccess result))
    (hresult : raw.operationResult = outcome.result result) : ¬ NtResultInconsistent raw := by
  intro ⟨hreturned, hinconsistent⟩
  apply hinconsistent
  unfold RtlHeapEvent.Succeeded
  rw [hstatus] at hreturned ⊢
  rw [hresult, status_eq_success]
  cases outcome with
  | returned => exact ⟨fun h => h.2, fun h => ⟨rfl, h⟩⟩
  | raised code => exact absurd rfl hreturned

theorem onCurrentProcess_iff {ctx : VmContext} {raw : RtlHeapEvent}
    (h : raw.OnCurrentProcess ctx) : raw.targetProcessId = ctx.processId := by
  unfold RtlHeapEvent.OnCurrentProcess classifyProcessTarget at h
  dsimp only at h
  split at h
  · cases h
  · split at h
    · assumption
    · cases h

/-- What a successful event of an NT call on this process was told. -/
theorem delivered {call : NtArguments} {raw : RtlHeapEvent}
    (hdelivers : outcome = .returned → HookedCall.SucceedsHere options.processId
      call.targetProcessId call.result → call.resultBase ≠ 0 ∧ call.resultSize ≠ 0)
    (hstatus : raw.status = outcome.status (NtSuccess call.result))
    (hprocess : raw.targetProcessId = call.targetProcessId)
    (hbase : raw.resultAddress = outcome.result call.resultBase)
    (hsize : raw.rawResult = outcome.result call.resultSize) (hsucceeded : raw.Succeeded)
    (hlocal : raw.OnCurrentProcess options.vmContext) :
    raw.resultAddress ≠ 0 ∧ raw.rawResult ≠ 0 := by
  unfold RtlHeapEvent.Succeeded at hsucceeded
  rw [hstatus, status_eq_success] at hsucceeded
  obtain ⟨hreturned, hsuccess⟩ := hsucceeded
  have htarget : call.targetProcessId = options.processId :=
    hprocess.symm.trans (onCurrentProcess_iff hlocal)
  have hresults := hdelivers hreturned ⟨hsuccess, htarget⟩
  rw [hbase, hsize, hreturned]
  exact hresults

theorem reserved_ne_zero {raw : RtlHeapEvent} (h : raw.resultAddress ≠ 0 ∧ raw.rawResult ≠ 0) :
    raw.reservedBase ≠ 0 ∧ raw.reservedSize ≠ 0 := by
  unfold RtlHeapEvent.reservedBase RtlHeapEvent.reservedSize
  constructor
  · split
    · exact h.1
    · assumption
  · split
    · exact h.2
    · assumption

theorem hooked_vmAllocate (hctx : ctx.Sound options hooks sequence)
    (hcode : ∀ code, outcome = .raised code → code ≠ 0) (hserves : options.hooks.ntMemory = true)
    {call : NtArguments} (hdelivers : outcome = .returned → HookedCall.SucceedsHere
      options.processId call.targetProcessId call.result →
        call.resultBase ≠ 0 ∧ call.resultSize ≠ 0) :
    Hooked options (fillVmEvent ctx outcome options.processId .vmAllocate call) where
  builtin := fun hcustom => hcustom rfl
  block := ⟨nofun, nofun⟩
  valid := by
    intro last hlast hsequence
    apply validateRawEvent_hooked hlast hsequence hctx.thread hctx.ticks (status_eq_exception hcode)
    · exact fun hcustom => hcustom rfl
    · exact .inl (.inl rfl)
    · exact hserves
    · rintro (hno | hno | hno | hno | hno)
      · exact hno rfl
      · exact hno rfl
      · exact hno rfl
      · exact hno rfl
      · exact ntResult_consistent rfl rfl hno
  stack := stackOf_valid hctx (missing_stack ctx)
  reservation := fun _ hsucceeded hlocal =>
    reserved_ne_zero (delivered hdelivers rfl rfl rfl rfl hsucceeded hlocal)
  view := by
    intro hop
    cases hop

theorem hooked_vmFree (hctx : ctx.Sound options hooks sequence)
    (hcode : ∀ code, outcome = .raised code → code ≠ 0) (hserves : options.hooks.ntMemory = true)
    {call : NtArguments} (hzeroBits : call.zeroBits = 0) (hflags : call.secondaryFlags = 0) :
    Hooked options (fillVmEvent ctx outcome options.processId .vmFree call) where
  builtin := fun hcustom => hcustom rfl
  block := ⟨nofun, nofun⟩
  valid := by
    intro last hlast hsequence
    apply validateRawEvent_hooked hlast hsequence hctx.thread hctx.ticks (status_eq_exception hcode)
    · exact fun hcustom => hcustom rfl
    · exact .inl (.inr (.inl rfl))
    · exact hserves
    · rintro (hno | hno | hno | hno | hno | hno | hno | hno | hno)
      · exact hno hzeroBits
      · exact hno hflags
      · exact hno rfl
      · exact hno rfl
      · exact hno rfl
      · exact hno rfl
      · exact hno rfl
      · exact hno rfl
      · exact ntResult_consistent rfl rfl hno
  stack := stackOf_valid hctx (missing_stack ctx)
  reservation := by
    intro hop
    cases hop
  view := by
    intro hop
    cases hop

theorem hooked_sectionMap (hctx : ctx.Sound options hooks sequence)
    (hcode : ∀ code, outcome = .raised code → code ≠ 0) (hserves : options.hooks.ntMemory = true)
    (sectionHandle commitSize sectionOffset inheritDisposition : ℕ) {call : NtArguments}
    (hdelivers : outcome = .returned → HookedCall.SucceedsHere options.processId
      call.targetProcessId call.result → call.resultBase ≠ 0 ∧ call.resultSize ≠ 0) :
    Hooked options (fillSectionEvent ctx outcome options.processId .sectionMap sectionHandle
      commitSize sectionOffset inheritDisposition call) where
  builtin := fun hcustom => hcustom rfl
  block := ⟨nofun, nofun⟩
  valid := by
    intro last hlast hsequence
    apply validateRawEvent_hooked hlast hsequence hctx.thread hctx.ticks (status_eq_exception hcode)
    · exact fun hcustom => hcustom rfl
    · exact .inl (.inr (.inr (.inl rfl)))
    · exact hserves
    · exact ntResult_consistent rfl rfl
  stack := stackOf_valid hctx (missing_stack ctx)
  reservation := by
    intro hop
    cases hop
  view := fun _ hsucceeded hlocal => delivered hdelivers rfl rfl rfl rfl hsucceeded hlocal

theorem hooked_sectionUnmap (hctx : ctx.Sound options hooks sequence)
    (hcode : ∀ code, outcome = .raised code → code ≠ 0) (hserves : options.hooks.ntMemory = true)
    (process targetProcessId baseAddress flags result : ℕ) :
    Hooked options ((HookedCall.ntUnmapViewOfSection process targetProcessId baseAddress flags
      result).event options.processId ctx outcome) where
  builtin := fun hcustom => hcustom rfl
  block := ⟨nofun, nofun⟩
  valid := by
    intro last hlast hsequence
    apply validateRawEvent_hooked hlast hsequence hctx.thread hctx.ticks (status_eq_exception hcode)
    · exact fun hcustom => hcustom rfl
    · exact .inl (.inr (.inr (.inr rfl)))
    · exact hserves
    · have hsize : outcome.result 0 = 0 := by
        cases outcome with
        | returned => rfl
        | raised code => rfl
      rintro (hno | hno | hno | hno | hno | hno | hno | hno | hno | hno | hno)
      · exact hno rfl
      · exact hno hsize
      · exact hno rfl
      · exact hno rfl
      · exact hno rfl
      · exact hno rfl
      · exact hno rfl
      · exact hno rfl
      · exact hno rfl
      · exact hno rfl
      · exact ntResult_consistent rfl rfl hno
  stack := stackOf_valid hctx (missing_stack ctx)
  reservation := by
    intro hop
    cases hop
  view := by
    intro hop
    cases hop

/-- Every replacement fills in an event the consumer accepts. -/
theorem hooked_event {record : PendingCall} (hanswered : record.Answered options)
    (hctx : ctx.Sound options hooks sequence) :
    Hooked options (record.call.event options.processId ctx record.outcome) := by
  obtain ⟨call, outcome⟩ := record
  obtain ⟨hserves, hdelivers, hcode⟩ := hanswered
  cases call with
  | rtlCreateHeap flags heapBase reserveSize commitSize lock parameters result =>
      exact hooked_create hctx hcode hserves _ _ _ _ _ _ _
  | rtlDestroyHeap heap result => exact hooked_destroy hctx hcode hserves _ _
  | ntAllocateVirtualMemory call => exact hooked_vmAllocate hctx hcode hserves hdelivers
  | ntFreeVirtualMemory process targetProcessId requestedBase resultBase requestedSize resultSize
      freeType result => exact hooked_vmFree hctx hcode hserves rfl rfl
  | ntMapViewOfSection sectionHandle commitSize sectionOffset inheritDisposition call =>
      exact hooked_sectionMap hctx hcode hserves _ _ _ _ hdelivers
  | ntUnmapViewOfSection process targetProcessId baseAddress flags result =>
      exact hooked_sectionUnmap hctx hcode hserves _ _ _ _ _

end Fill

/-! ## No custom event is pending -/

theorem Counts.pendingCustom_eq_zero {hooks : MemoryHooks} {raws : List RtlHeapEvent}
    {ledger : Ledger} (h : Counts hooks raws ledger) (hbuiltin : ∀ raw ∈ raws, ¬ raw.Custom) :
    ledger.pendingCustom = 0 := by
  rw [h.pendingCustom, List.countP_eq_zero]
  intro record hmem hcustom
  cases record with
  | loss loss => cases hcustom
  | event event =>
      have hbase : customHookApiIdBase ≤ event.header.apiId := by
        simpa [isCustomRecord] using hcustom
      have hcount : 0 < ledger.buffered.countP (isRecordOf event.header.apiId) :=
        List.countP_pos_iff.mpr ⟨_, hmem, by simp [isRecordOf]⟩
      have hprocessed := h.custom event.header.apiId hbase
      have hnone : processedBy raws event.header.apiId = 0 := by
        unfold processedBy
        rw [List.countP_eq_zero]
        intro raw hraw heq
        have hzero : raw.apiId = 0 := not_not.mp (hbuiltin raw hraw)
        have heq : raw.apiId = event.header.apiId := by simpa using heq
        unfold customHookApiIdBase at hbase
        omega
      omega

namespace RtlAllocateHeapTraceWriter

variable {options : WriterOptions} {w w' : RtlAllocateHeapTraceWriter} {raw : RtlHeapEvent}
  {raws : List RtlHeapEvent}

theorem admission_ok {loss : Option LossRecord} {m : RtlAllocateHeapTraceWriter}
    (h : admission options raw w = .ok loss m) :
    loss = stackLoss raw (w.normalizedTicks raw) ∧
      ∃ completeness, m = w.admitted raw completeness := by
  unfold admission at h
  obtain ⟨ticks, a, hadmit, hloss⟩ := run_bind_eq_ok.mp h
  obtain ⟨-, -, rfl, rfl⟩ := admitEvent_ok hadmit
  obtain ⟨rfl, completeness, -, rfl⟩ := noteStackCaptureLoss_ok hloss
  exact ⟨rfl, completeness, rfl⟩

/-- The events in a state `process_event` flushes are those before it and its own. -/
theorem eventFlushes_counts {m : RtlAllocateHeapTraceWriter}
    (h : Counts options.hooks raws w.ledger)
    (hknown : raw.Custom → options.hooks.IsKnownCustomApi raw.apiId)
    (hmem : m ∈ eventFlushes options raw w) :
    Counts options.hooks raws m.ledger ∨ Counts options.hooks (raws ++ [raw]) m.ledger := by
  unfold eventFlushes at hmem
  split at hmem
  · cases hmem
  rename_i loss a hadmission
  obtain ⟨rfl, completeness, rfl⟩ := admission_ok hadmission
  have hadmitted : Counts options.hooks raws (w.admitted raw completeness).ledger := h
  split at hmem
  · cases hmem
  rcases List.mem_append.mp hmem with hcapacity | hfull
  · split at hcapacity
    · rw [List.mem_singleton.mp hcapacity]
      exact .inl hadmitted
    · cases hcapacity
  · split at hfull
    · cases hfull
    rename_i k hensure
    have hk := counts_ensurePendingCapacity hadmitted hensure
    split at hfull
    · cases hfull
    split at hfull
    · cases hfull
    rename_i full happend
    obtain ⟨happended⟩ := appendEvent_ok happend
    split at hfull
    · rw [List.mem_singleton.mp hfull]
      exact .inr (counts_appended hk hknown happended)
    · cases hfull

/-! ## A creation of something live -/

/-- `write_chunk` takes or refuses every chunk that a flush of the event tries to write. -/
def Writable (options : WriterOptions) (w : RtlAllocateHeapTraceWriter) (raw : RtlHeapEvent) :
    Prop :=
  ∀ m ∈ eventFlushes options raw w,
    m.fileLimitReached = true ∨ ∃ result, writeChunks options m.file m.pendingChunks = .ok result

/-- The handle of a heap that was created, and the base of a view that was mapped, are not
live in the writer. -/
structure NotReused (options : WriterOptions) (w : RtlAllocateHeapTraceWriter)
    (raw : RtlHeapEvent) : Prop where
  handle : raw.operation = .create → raw.Succeeded → w.live.liveHeaps raw.resultAddress = none
  base : raw.operation = .sectionMap → raw.Succeeded → raw.OnCurrentProcess options.vmContext →
    ¬ w.live.liveSectionMappings.Contains raw.resultAddress

theorem planEvent_notReused {live : LiveState} {status : EventStatus} {payload : EventPayload}
    (hplan : planEvent options.vmContext w.live raw = .ok (live, status, payload)) :
    NotReused options w raw where
  handle := by
    intro hop hsucceeded
    unfold planEvent planCreate at hplan
    rw [hop] at hplan
    dsimp only at hplan
    rw [if_pos hsucceeded, failIf_bind_eq_ok, failIf_bind_eq_ok] at hplan
    simpa using hplan.2.1
  base := by
    intro hop hsucceeded hlocal
    unfold planEvent planSectionMap at hplan
    rw [hop] at hplan
    dsimp only at hplan
    rw [if_pos ⟨hsucceeded, hlocal⟩] at hplan
    obtain ⟨⟨next, id⟩, hcreate, -⟩ := bind_eq_ok.mp hplan
    unfold LiveState.createSectionMapping at hcreate
    rw [failIf_bind_eq_ok, failIf_bind_eq_ok] at hcreate
    obtain ⟨-, hfree, -⟩ := hcreate
    exact fun hcontains => hfree (.inr (.inr hcontains))

/-- An event that was processed where its record is built had it planned. -/
theorem planned_of_returns (h : Counts options.hooks raws w.ledger) (hbound : raws.length ≤ maxU64)
    (hflushes : ∀ m ∈ eventFlushes options raw w, FlushSafe options m)
    (hbuffers : Buffers options w) (hrun : processEvent options raw w = .ok () w') :
    ∃ result, planEvent options.vmContext w.live raw = .ok result := by
  have hadmission : ∃ loss m, admission options raw w = .ok loss m := by
    unfold processEvent at hrun
    obtain ⟨ticks, a, hadmit, hrest⟩ := run_bind_eq_ok.mp hrun
    obtain ⟨loss, m, hloss, -⟩ := run_bind_eq_ok.mp hrest
    exact ⟨loss, m, run_bind_eq_ok.mpr ⟨ticks, a, hadmit, hloss⟩⟩
  obtain ⟨loss, m, hadmission⟩ := hadmission
  rw [processEvent_eq options raw w hadmission] at hrun
  obtain ⟨-, completeness, rfl⟩ := admission_ok hadmission
  have hadmitted : Counts options.hooks raws (w.admitted raw completeness).ledger := h
  have hbelow : (w.admitted raw completeness).fileLimitReached = false := hbuffers.1
  obtain ⟨_, _, hget, hrun⟩ := run_bind_eq_ok.mp hrun
  obtain ⟨rfl, rfl⟩ := run_get_eq_ok.mp hget
  rw [if_neg (by rw [hbelow]; decide)] at hrun
  obtain ⟨_, k, hensure, hrun⟩ := run_bind_eq_ok.mp hrun
  obtain ⟨_, _, hget, hrun⟩ := run_bind_eq_ok.mp hrun
  obtain ⟨rfl, rfl⟩ := run_get_eq_ok.mp hget
  have hkbelow : ¬ k.fileLimitReached = true := by
    intro hreached
    rcases ensurePendingCapacity_ok hensure with rfl | ⟨hneeds, hflush⟩
    · rw [hbelow] at hreached
      cases hreached
    · obtain ⟨k', hk', hmeets⟩ := flushPending_run hadmitted hbound
        (hflushes _ (mem_eventFlushes_capacity hadmission hbelow hneeds))
      rw [hflush] at hk'
      cases hk'
      exact hbuffers.2 hneeds (hmeets.mpr hreached)
  rw [if_neg hkbelow] at hrun
  obtain ⟨m, happend, -⟩ := bufferEvent_ok hrun
  obtain ⟨⟨addition, live, status, payload, hadded, hplan, -, -⟩⟩ := appendEvent_ok happend
  have hlive : k.live = w.live := (kept_ensurePendingCapacity hensure).live
  rw [hlive] at hplan
  exact ⟨_, hplan⟩

/-- An event of a replacement is processed, when its record is built, exactly if it does
not create what is live. -/
theorem hooked_returns_iff (h : Ready options raws w) (hbuiltin : ∀ raw ∈ raws, ¬ raw.Custom)
    (hhooked : Hooked options raw) (hsequence : raw.queueSequence = raws.length + 1)
    (hlast : raw.queueSequence < maxU64) (hwritable : Writable options w raw) :
    (∃ w', processEvent options raw w = .ok () w') ↔
      (Buffers options w → NotReused options w raw) := by
  have hcounts := h.accounted.counts
  have hknown : raw.Custom → options.hooks.IsKnownCustomApi raw.apiId :=
    fun hcustom => absurd hcustom hhooked.builtin
  have hall : ∀ other ∈ raws ++ [raw], ¬ other.Custom := by
    intro other hmem
    rcases List.mem_append.mp hmem with hmem | hmem
    · exact hbuiltin other hmem
    · rw [List.mem_singleton.mp hmem]
      exact hhooked.builtin
  have hflushes : ∀ m ∈ eventFlushes options raw w, FlushSafe options m := by
    intro m hmem
    refine ⟨hwritable m hmem, fun _ => ?_⟩
    rcases eventFlushes_counts hcounts hknown hmem with hm | hm
    · exact Counts.pendingCustom_eq_zero hm hbuiltin
    · exact Counts.pendingCustom_eq_zero hm hall
  have hvalid := hhooked.valid w.lastSequence (by rw [h.accounted.last]; omega)
    (by rw [h.accounted.last]; exact hsequence)
  constructor
  · intro ⟨w', hrun⟩ hbuffers
    obtain ⟨⟨live, status, payload⟩, hplan⟩ := planned_of_returns hcounts (by omega) hflushes
      hbuffers hrun
    exact planEvent_notReused hplan
  · intro hfresh
    refine processEvent_run h ⟨hvalid, hhooked.stack, ?_, hflushes⟩
    intro hbuffers
    have hnot := hfresh hbuffers
    have hheap := h.ids.heap
    have hmapping := h.ids.mapping
    have hstack := h.ids.stack
    refine ⟨⟨?_, ?_, ?_, ?_, ?_⟩, by omega⟩
    · intro hop hsucceeded
      exact ⟨by omega, hnot.handle hop hsucceeded⟩
    · intro hop
      exact absurd hop (not_or.mpr hhooked.block)
    · intro hop
      exact absurd hop hhooked.block.2
    · intro hop hsucceeded hlocal _
      exact ⟨by omega, hhooked.reservation hop hsucceeded hlocal⟩
    · intro hop hsucceeded hlocal
      obtain ⟨hbase, hsize⟩ := hhooked.view hop hsucceeded hlocal
      exact ⟨by omega, hbase, hsize, hnot.base hop hsucceeded hlocal⟩

end RtlAllocateHeapTraceWriter

/-! ## Every interleaving -/

open RtlAllocateHeapTraceWriter (Ready NotReused Writable Buffers processEvent perform filedRecords
  ready_start ready_event ready_perform hooked_returns_iff)

/-- What every step keeps: `raws` are the events that were dequeued. -/
structure Capture.Consistent (options : WriterOptions) (raws : List RtlHeapEvent) (s : Capture) :
    Prop where
  ready : Ready options raws s.writer
  builtin : ∀ raw ∈ raws, ¬ raw.Custom
  hooked : ∀ raw ∈ s.queue, Hooked options raw
  numbered : s.queue.map (·.queueSequence) = List.range' (raws.length + 1) s.queue.length
  enqueued : s.enqueued = raws.length + s.queue.length
  bound : s.enqueued ≤ maxU64
  pending : ∀ thread record, s.pending thread = some record → record.Answered options

variable {options : WriterOptions} {hooks : HookOptions} {file : TraceWriter} {kernel : Kernel}
  {raws : List RtlHeapEvent} {s t : Capture}

namespace Capture

/-- A thread that starts or ends a call. -/
theorem Consistent.withPending (h : s.Consistent options raws) {k : Kernel} {thread : ℕ}
    {record : Option PendingCall} (hrecord : ∀ r, record = some r → r.Answered options) :
    Consistent options raws
      { s with kernel := k, pending := Function.update s.pending thread record } where
  ready := h.ready
  builtin := h.builtin
  hooked := h.hooked
  numbered := h.numbered
  enqueued := h.enqueued
  bound := h.bound
  pending := by
    intro other r hr
    by_cases hother : other = thread
    · subst hother
      dsimp only at hr
      rw [Function.update_self] at hr
      exact hrecord r hr
    · dsimp only at hr
      rw [Function.update_of_ne hother] at hr
      exact h.pending other r hr

/-- What the kernel answers, the consumer relies on. -/
theorem delivers_of_allows {processId : ℕ} {k : Kernel} {call : HookedCall}
    (h : k.Allows processId call) : call.Delivers processId := by
  cases call with
  | ntAllocateVirtualMemory call =>
      intro hsucceeds
      exact ⟨(h hsucceeds).1, (h hsucceeds).2.1⟩
  | ntMapViewOfSection sectionHandle commitSize sectionOffset inheritDisposition call =>
      intro hsucceeds
      exact ⟨(h hsucceeds).1, (h hsucceeds).2.1⟩
  | rtlCreateHeap | rtlDestroyHeap | ntFreeVirtualMemory | ntUnmapViewOfSection => exact trivial

theorem event_sequence (processId : ℕ) (ctx : FillContext) (outcome : CallOutcome)
    (call : HookedCall) : (call.event processId ctx outcome).queueSequence = ctx.queueSequence := by
  cases call <;> rfl

/-- The head of the queue is the next event, and the rest is numbered on. -/
theorem Consistent.head (h : s.Consistent options raws) {raw : RtlHeapEvent}
    {rest : List RtlHeapEvent} (hqueue : s.queue = raw :: rest) :
    Hooked options raw ∧ raw.queueSequence = raws.length + 1 ∧
      rest.map (·.queueSequence) = List.range' (raws.length + 1 + 1) rest.length := by
  have hnumbered := h.numbered
  rw [hqueue, List.map_cons, List.length_cons, List.range'_succ, List.cons.injEq] at hnumbered
  exact ⟨h.hooked raw (by rw [hqueue]; exact List.mem_cons_self), hnumbered⟩

theorem Consistent.step (h : s.Consistent options raws) (hstep : Step options hooks s t) :
    ∃ raws, t.Consistent options raws := by
  cases hstep with
  | call hidle hhooked hallows =>
      refine ⟨raws, h.withPending ?_⟩
      intro r hr
      cases hr
      exact ⟨hhooked, fun _ => delivers_of_allows hallows, nofun⟩
  | raise hidle hhooked hcode =>
      refine ⟨raws, h.withPending ?_⟩
      intro r hr
      cases hr
      refine ⟨hhooked, nofun, ?_⟩
      intro code hraised
      cases hraised
      exact hcode
  | enqueue hpending hroom hctx =>
      rename_i thread record ctx
      have hnone : ∀ r, (none : Option PendingCall) = some r → r.Answered options := nofun
      have hthreads := (@Consistent.withPending _ _ _ h s.kernel thread none hnone).pending
      have hcount := h.enqueued
      have hbound := h.bound
      have hevent := hooked_event (h.pending thread record hpending) hctx
      refine ⟨raws, h.ready, h.builtin, ?_, ?_, ?_, ?_, hthreads⟩
      · intro raw hmem
        rcases List.mem_append.mp hmem with hmem | hmem
        · exact h.hooked raw hmem
        · rw [List.mem_singleton.mp hmem]
          exact hevent
      · show (s.queue ++ [_]).map RtlHeapEvent.queueSequence =
          List.range' (raws.length + 1) (s.queue ++ [_]).length
        rw [List.map_append, h.numbered, List.length_append, List.length_singleton,
          List.range'_concat, List.map_singleton, event_sequence, hctx.sequence, hcount]
        congr 2
        omega
      · show s.enqueued + 1 = raws.length + (s.queue ++ [_]).length
        rw [List.length_append, hcount]
        rfl
      · show s.enqueued + 1 ≤ maxU64
        have hleft := (not_or.mp hroom).2
        omega
  | drop hpending hfull => exact ⟨raws, h.withPending (k := s.kernel) nofun⟩
  | filter hpending hsize hsmall => exact ⟨raws, h.withPending (k := s.kernel) nofun⟩
  | dequeue hqueue hrun =>
      rename_i raw rest writer
      have hcount := h.enqueued
      rw [hqueue, List.length_cons] at hcount
      have hlength : (raws ++ [raw]).length = raws.length + 1 := List.length_append
      refine ⟨raws ++ [raw], ready_event h.ready hrun, ?_, ?_, ?_, ?_, h.bound, h.pending⟩
      · intro other hmem
        rcases List.mem_append.mp hmem with hmem | hmem
        · exact h.builtin other hmem
        · rw [List.mem_singleton.mp hmem]
          exact (h.head hqueue).1.builtin
      · intro other hmem
        exact h.hooked other (by rw [hqueue]; exact List.mem_cons_of_mem _ hmem)
      · rw [hlength]
        exact (h.head hqueue).2.2
      · show s.enqueued = (raws ++ [raw]).length + rest.length
        omega
  | consumer hother hrun =>
      rename_i action writer
      have hready := ready_perform h.ready hrun
      have hnone : RtlAllocateHeapTraceWriter.processed [action] = [] := by
        cases action with
        | event raw => exact absurd rfl (hother raw)
        | module | memory | flush => rfl
      rw [hnone, List.append_nil] at hready
      exact ⟨raws, hready, h.builtin, h.hooked, h.numbered, h.enqueued, h.bound, h.pending⟩

theorem Run.consistent (hfresh : filedRecords file = []) (h : Run options hooks file kernel s) :
    ∃ raws, s.Consistent options raws := by
  induction h with
  | start => exact ⟨[], ready_start hfresh, nofun, nofun, rfl, rfl, Nat.zero_le _, nofun⟩
  | step _ hstep ih =>
      obtain ⟨raws, hraws⟩ := ih
      exact hraws.step hstep

/-- In every interleaving the consumer processes the next event, and where its record is
built, exactly if the event does not create a heap handle or a view base that is live in
the writer. -/
theorem Run.processes_iff (hfresh : filedRecords file = []) (h : Run options hooks file kernel s)
    {raw : RtlHeapEvent} {rest : List RtlHeapEvent} (hqueue : s.queue = raw :: rest)
    (hlast : raw.queueSequence ≠ maxU64) (hwritable : Writable options s.writer raw) :
    (∃ w', processEvent options raw s.writer = .ok () w') ↔
      (Buffers options s.writer → NotReused options s.writer raw) := by
  obtain ⟨raws, hconsistent⟩ := h.consistent hfresh
  obtain ⟨hhooked, hsequence, -⟩ := hconsistent.head hqueue
  have hbound := hconsistent.bound
  have hcount := hconsistent.enqueued
  rw [hqueue, List.length_cons] at hcount
  exact hooked_returns_iff hconsistent.ready hconsistent.builtin hhooked hsequence (by omega)
    hwritable

/-! ### A handle that is reused before its release is queued -/

/-- The hooks of the heaps alone, and a queue of 64 slots. -/
def heapHooksOptions : HookOptions where
  queueCapacity := 64
  maximumStackDepth := 0
  minimumCaptureSize := 0
  depth_le := Nat.zero_le _

/-- What the slot `sequence` is filled in with. -/
def heapContext (sequence : ℕ) : FillContext where
  queueSequence := sequence
  ticks := 10
  threadId := 7
  maximumStackDepth := 0
  stack := {}

theorem heapContext_sound (hooks : MemoryHooks) (size sequence : ℕ) :
    (heapContext sequence).Sound (smallOptions hooks size) heapHooksOptions sequence where
  sequence := rfl
  ticks := Nat.le_refl _
  thread := by
    show (7 : ℕ) ≠ 0
    decide
  depth := rfl
  stack := rfl

/-- `RtlCreateHeap` returned the handle `0x5000`. -/
def createsHeap : HookedCall := .rtlCreateHeap 0 0 0 0 0 0 0x5000

def destroysHeap : HookedCall := .rtlDestroyHeap 0x5000 0

def heapOptions : WriterOptions := smallOptions { create := true, destroy := true } 1048576

/-- The start of the capture. -/
def heapCapture : Capture where
  kernel := ⟨∅, [], []⟩
  writer := .start heapOptions smallFile

/-- A thread has created the heap and queued the event. -/
def createdCapture : Capture where
  kernel := ⟨{0x5000}, [], []⟩
  pending := Function.update (Function.update (fun _ => none) 1
    (some ⟨createsHeap, .returned⟩)) 1 none
  queue := [createsHeap.event heapOptions.processId (heapContext 1) .returned]
  enqueued := 1
  writer := .start heapOptions smallFile

theorem createdCapture_run :
    Run heapOptions heapHooksOptions smallFile ⟨∅, [], []⟩ createdCapture := by
  have hstart : Run heapOptions heapHooksOptions smallFile ⟨∅, [], []⟩ heapCapture := .start
  have hcreated := hstart.step (@Step.call heapOptions heapHooksOptions _ 1 createsHeap rfl rfl
    fun _ => Finset.notMem_empty _)
  exact hcreated.step (@Step.enqueue heapOptions heapHooksOptions _ 1 ⟨createsHeap, .returned⟩
    (heapContext 1) rfl (by decide) (heapContext_sound _ _ _))

/-- The record of the first event is built: nothing is live yet. -/
theorem created_heap_processes :
    ∃ w', processEvent heapOptions
      (createsHeap.event heapOptions.processId (heapContext 1) .returned)
      (.start heapOptions smallFile) = .ok () w' := by
  have hwritable : Writable heapOptions (.start heapOptions smallFile)
      (createsHeap.event heapOptions.processId (heapContext 1) .returned) := by
    have hnone : RtlAllocateHeapTraceWriter.eventFlushes heapOptions
        (createsHeap.event heapOptions.processId (heapContext 1) .returned)
        (.start heapOptions smallFile) = [] :=
      List.eq_nil_of_length_eq_zero (by decide +kernel)
    intro m hmem
    rw [hnone] at hmem
    cases hmem
  exact (Run.processes_iff rfl createdCapture_run rfl nofun hwritable).mpr
    fun _ => ⟨fun _ _ => rfl, nofun⟩

/-- In every interleaving the consumer processes the next event. -/
def NeverThrows (options : WriterOptions) (hooks : HookOptions) (file : TraceWriter)
    (kernel : Kernel) : Prop :=
  ∀ (s : Capture) (raw : RtlHeapEvent) (rest : List RtlHeapEvent),
    Run options hooks file kernel s → s.queue = raw :: rest →
      ∃ w', processEvent options raw s.writer = .ok () w'

/-- The thread destroys the heap; before it queues that, a second thread gets the same
handle from the kernel and queues its own event. -/
theorem reused_handle_throws :
    ¬ NeverThrows heapOptions heapHooksOptions smallFile ⟨∅, [], []⟩ := by
  intro hnever
  have hruns : wp (processEvent heapOptions
        (createsHeap.event heapOptions.processId (heapContext 1) .returned))
      (fun _ w => wp (processEvent heapOptions
          (createsHeap.event heapOptions.processId (heapContext 2) .returned))
        (fun _ _ => False)
        (fun e _ => e = .runtime "RtlCreateHeap reused a live heap handle") w)
      (fun _ _ => False) (.start heapOptions smallFile) := by
    decide +kernel
  obtain ⟨⟨⟩, w, hfirst, hthrows⟩ := wp_run hruns
  have hdestroyed := createdCapture_run.step (@Step.call heapOptions heapHooksOptions _ 1
    destroysHeap rfl rfl fun _ => Finset.mem_singleton_self _)
  -- the handle is free in the kernel, and its release is not in the queue
  have hreused := hdestroyed.step (@Step.call heapOptions heapHooksOptions _ 2 createsHeap rfl rfl
    fun _ => Finset.notMem_erase _ _)
  have hqueued := hreused.step (@Step.enqueue heapOptions heapHooksOptions _ 2
    ⟨createsHeap, .returned⟩ (heapContext 2) rfl (by decide) (heapContext_sound _ _ _))
  have htaken := hqueued.step (@Step.dequeue heapOptions heapHooksOptions _ _ _ w rfl hfirst)
  obtain ⟨w', hsecond⟩ := hnever _ _ _ htaken rfl
  exact wp_ok hthrows hsecond

end Capture

end Noleax.Windows
