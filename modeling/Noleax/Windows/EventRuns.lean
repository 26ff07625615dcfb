import Noleax.Windows.Dropping
import Noleax.Windows.Recordable

/-!
# When `process_event` returns

`Ready` is what holds of the members between two steps. In a ready state an accepted event
is processed when its record can be built and every flush on its way is safe.
-/

namespace Noleax.Windows

open Lib Trace Agent

namespace RtlAllocateHeapTraceWriter

variable {options : WriterOptions} {w w' : RtlAllocateHeapTraceWriter} {raw : RtlHeapEvent}
  {raws : List RtlHeapEvent}

/-- Each event has taken at most one id of each kind. -/
structure IdsWithin (count : ℕ) (w : RtlAllocateHeapTraceWriter) : Prop where
  heap : w.live.nextHeapId ≤ count + 1
  mapping : w.live.nextMappingId ≤ count + 1
  stack : w.dictionary.nextStackId ≤ count + 1

theorem IdsWithin.kept {count more : ℕ} (h : IdsWithin count w) (hlive : w'.live = w.live)
    (hdictionary : w'.dictionary = w.dictionary) (hle : count ≤ more) : IdsWithin more w' where
  heap := by
    rw [hlive]
    exact h.heap.trans (Nat.succ_le_succ hle)
  mapping := by
    rw [hlive]
    exact h.mapping.trans (Nat.succ_le_succ hle)
  stack := by
    rw [hdictionary]
    exact h.stack.trans (Nat.succ_le_succ hle)

/-- What holds of the members between two steps. -/
structure Ready (options : WriterOptions) (raws : List RtlHeapEvent)
    (w : RtlAllocateHeapTraceWriter) : Prop where
  accounted : Accounted options raws w
  identified : Identified w.live
  ids : IdsWithin raws.length w
  modules : ∀ entry ∈ w.liveModules, entry.2.moduleId ≠ 0
  nextModule : w.nextModuleId ≠ 0
  nextStack : w.dictionary.nextStackId ≠ 0
  unended : w.completeness.sawEndOfTrace = false

theorem ready_start {file : TraceWriter} (hfresh : filedRecords file = []) :
    Ready options [] (start options file) where
  accounted := by
    refine ⟨?_, rfl, Nat.zero_le _⟩
    have hledger : (start options file).ledger =
        ⟨0, 0, fun _ => 0, 0, [], 0, 0, fun _ => 0, 0, [], 0, fun _ => 0, fun _ => 0⟩ := by
      unfold ledger
      dsimp only [start]
      rw [hfresh]
    rw [hledger]
    exact {
      total := rfl
      builtin := fun _ => rfl
      custom := fun _ _ => rfl
      pendingTotal := rfl
      writtenTotal := rfl
      droppedTotal := by
        show 0 = sumCounts (fun _ => 0) + sumCustom options.hooks fun _ => 0
        unfold sumCustom
        rw [Finset.sum_const_zero]
        rfl
      pendingCustom := rfl
      pendingStacks := Nat.le_refl _
      writtenStacks := Nat.le_refl _ }
  identified := identified_empty
  ids := ⟨Nat.le_refl _, Nat.le_refl _, Nat.le_refl _⟩
  modules := by
    intro entry hmem
    cases hmem
  nextModule := Nat.one_ne_zero
  nextStack := Nat.one_ne_zero
  unended := rfl

/-! ## What a flush leaves alone -/

structure Kept (w w' : RtlAllocateHeapTraceWriter) : Prop where
  live : w'.live = w.live
  liveModules : w'.liveModules = w.liveModules
  nextModuleId : w'.nextModuleId = w.nextModuleId
  dictionary : w'.dictionary = w.dictionary
  completeness : w'.completeness = w.completeness

theorem Kept.refl (w : RtlAllocateHeapTraceWriter) : Kept w w := ⟨rfl, rfl, rfl, rfl, rfl⟩

theorem Kept.trans {a b c : RtlAllocateHeapTraceWriter} (hab : Kept a b) (hbc : Kept b c) :
    Kept a c :=
  ⟨hbc.live.trans hab.live, hbc.liveModules.trans hab.liveModules,
    hbc.nextModuleId.trans hab.nextModuleId, hbc.dictionary.trans hab.dictionary,
    hbc.completeness.trans hab.completeness⟩

theorem Beside.kept (h : Beside w w') : Kept w w' := by
  obtain ⟨file, limit, modules, -, -, rfl⟩ := h
  exact ⟨rfl, rfl, rfl, rfl, rfl⟩

theorem Flushed.kept (h : Flushed options w w') : Kept w w' := by
  cases h with
  | modules hpending h => exact h.beside.kept
  | written m k hpending hm hfiled h =>
      rw [h]
      cases hfiled with
      | written hadmits => exact hm.kept.trans ⟨rfl, rfl, rfl, rfl, rfl⟩
  | dropped m hpending hm hlimit hcounts h =>
      rw [h]
      exact hm.kept.trans ⟨rfl, rfl, rfl, rfl, rfl⟩

theorem kept_notedEventDrop (w : RtlAllocateHeapTraceWriter) (raw : RtlHeapEvent) (ticks : ℕ) :
    Kept w (w.notedEventDrop raw ticks) := by
  unfold notedEventDrop
  split
  · exact ⟨rfl, rfl, rfl, rfl, rfl⟩
  · exact ⟨rfl, rfl, rfl, rfl, rfl⟩

theorem kept_ensurePendingCapacity {u : Unit}
    (h : ensurePendingCapacity options w = .ok u w') : Kept w w' := by
  rcases ensurePendingCapacity_ok h with rfl | ⟨-, hflush⟩
  · exact .refl w'
  · exact (flushPending_ok hflush).kept

/-- What a step leaves alone stays ready. -/
theorem Ready.kept (h : Ready options raws w) (hkept : Kept w w')
    (haccounted : Accounted options raws w') : Ready options raws w' where
  accounted := haccounted
  identified := by
    rw [hkept.live]
    exact h.identified
  ids := h.ids.kept hkept.live hkept.dictionary (Nat.le_refl _)
  modules := by
    rw [hkept.liveModules]
    exact h.modules
  nextModule := by
    rw [hkept.nextModuleId]
    exact h.nextModule
  nextStack := by
    rw [hkept.dictionary]
    exact h.nextStack
  unended := by
    rw [hkept.completeness]
    exact h.unended

theorem ready_flushed (h : Ready options raws w) (hflushed : Flushed options w w') :
    Ready options raws w' :=
  h.kept hflushed.kept (accounted_flushed h.accounted hflushed)

/-! ## The stack of an event -/

theorem forM_run {α : Type} {f : α → Except Error Unit} {as : List α}
    (h : ∀ a ∈ as, f a = .ok ()) : as.forM f = .ok () := by
  induction as with
  | nil => rfl
  | cons a as ih =>
      show (f a >>= fun _ => as.forM f) = _
      rw [h a List.mem_cons_self, ok_bind]
      exact ih fun b hb => h b (List.mem_cons_of_mem _ hb)

/-- A frame of an address that is not zero lies in a module or nowhere. -/
theorem normalizeFrame_valid (hmodules : ∀ entry ∈ w.liveModules, entry.2.moduleId ≠ 0)
    {address : ℕ} (haddress : address ≠ 0) :
    (w.normalizeFrame address).absoluteAddress ≠ 0 ∧
      ¬ ((w.normalizeFrame address).moduleId = 0 ∧ (w.normalizeFrame address).moduleOffset ≠ 0) ∧
      (w.normalizeFrame address).flags = 0 := by
  unfold normalizeFrame
  split
  · rename_i base candidate hfloor
    have hid := hmodules _ (SortedMap.mem_of_floor hfloor).1
    split
    · exact ⟨haddress, fun hboth => hid hboth.1, rfl⟩
    · exact ⟨haddress, fun hboth => hboth.2 rfl, rfl⟩
  · exact ⟨haddress, fun hboth => hboth.2 rfl, rfl⟩

theorem stackStatus_successful {status : StackCaptureStatus}
    (h : status = .captured ∨ status = .truncated) : (stackStatus status).Successful := by
  rcases h with rfl | rfl
  · exact .inl rfl
  · exact .inr rfl

/-- A stack that was captured has a frame, and not more than fit. -/
theorem captured_length {stack : CapturedStack} (h : stackCaptureSucceeded stack) :
    stack.captured ≠ [] ∧ stack.captured.length ≤ maximumCapturedStackDepth := by
  have hlength : stack.captured.length = min stack.frameCount maximumCapturedStackDepth := by
    unfold CapturedStack.captured
    rw [List.length_take, Vector.length_toList]
  refine ⟨?_, by omega⟩
  intro hempty
  rw [hempty] at hlength
  have hpositive := h.2.1
  have hdepth : 0 < maximumCapturedStackDepth := by decide
  change 0 = _ at hlength
  omega

theorem makeStackCaptureLoss_valid {sequence : ℕ} (hsequence : sequence ≠ 0) (ticks : ℕ) :
    validateLossRecord (makeStackCaptureLoss sequence ticks) = .ok () := by
  rw [validateLossRecord_eq_ok]
  refine ⟨show (some 1 : Option ℕ) ≠ some 0 by decide, ?_, ?_⟩
  · intro range hmem
    cases hmem
    exact ⟨hsequence, hsequence, Nat.le_refl _⟩
  · intro range hmem
    cases hmem
    exact Nat.le_refl _

/-- The stack of an accepted event is interned, lost, or not captured. -/
theorem addStack_run (hmodules : ∀ entry ∈ w.liveModules, entry.2.moduleId ≠ 0)
    (hnext : w.dictionary.nextStackId ≠ 0) (hroom : w.dictionary.nextStackId ≠ maxU64)
    (hstack : validateRawStack raw.stack = .ok ()) (hsequence : raw.queueSequence ≠ 0)
    (ticks : ℕ) : ∃ addition, w.addStack raw (stackLoss raw ticks) = .ok addition := by
  unfold addStack
  by_cases hcaptured : stackCaptureSucceeded raw.stack
  · rw [if_pos hcaptured]
    have hframes := validateRawStack_captured hstack hcaptured
    obtain ⟨hsome, hlength⟩ := captured_length hcaptured
    have hsuccessful := stackStatus_successful hcaptured.1
    have hframe : ∀ frame ∈ (w.normalizeStack raw.stack).frames, frame.absoluteAddress ≠ 0 ∧
        ¬ (frame.moduleId = 0 ∧ frame.moduleOffset ≠ 0) ∧ frame.flags = 0 := by
      intro frame hmem
      obtain ⟨address, haddress, rfl⟩ := List.mem_map.mp hmem
      exact normalizeFrame_valid hmodules (hframes address haddress)
    have hne : (w.normalizeStack raw.stack).frames ≠ [] := by
      intro hempty
      exact hsome (List.map_eq_nil_iff.mp hempty)
    have hshort : (w.normalizeStack raw.stack).frames.length ≤ maximumCapturedStackDepth := by
      show (raw.stack.captured.map w.normalizeFrame).length ≤ _
      rwa [List.length_map]
    have hinterned : (w.normalizeStack raw.stack).frames.forM validateInternedFrame = .ok () := by
      apply forM_run
      intro frame hmem
      obtain ⟨hnonzero, hoffset, hflags⟩ := hframe frame hmem
      apply failIf_of_not
      rintro (hzero | hboth | hset)
      · exact hnonzero hzero
      · exact hoffset hboth
      · exact hset hflags
    have hdefinition : validateStackDefinition ⟨w.dictionary.nextStackId,
        (w.normalizeStack raw.stack).status, (w.normalizeStack raw.stack).frames⟩ = .ok () := by
      unfold validateStackDefinition
      have hmatch : ¬ ¬ ((w.normalizeStack raw.stack).status.Successful ↔
          (w.normalizeStack raw.stack).frames ≠ []) :=
        not_not.mpr ⟨fun _ => hne, fun _ => hsuccessful⟩
      rw [failIf_of_not hnext, ok_bind, failIf_of_not hmatch, ok_bind]
      apply forM_run
      intro frame hmem
      obtain ⟨hnonzero, hoffset, hflags⟩ := hframe frame hmem
      unfold validateStackFrame
      rw [failIf_of_not hnonzero, ok_bind, failIf_of_not hoffset, ok_bind]
      exact failIf_of_not (not_not.mpr hflags)
    have hchecks : ¬ (¬ (w.normalizeStack raw.stack).status.Successful ∨
        (w.normalizeStack raw.stack).frames = [] ∨
        maximumCapturedStackDepth < (w.normalizeStack raw.stack).frames.length) := by
      rintro (hno | hempty | hlong)
      · exact hno hsuccessful
      · exact hne hempty
      · omega
    dsimp only
    unfold StackDictionary.intern
    rw [failIf_of_not hchecks, ok_bind, hinterned, ok_bind]
    cases w.dictionary.entries.find? fun entry => entry.1 = w.normalizeStack raw.stack with
    | some entry => exact ⟨_, rfl⟩
    | none =>
        dsimp only
        rw [failIf_of_not hroom, ok_bind, pure_eq_ok, ok_bind]
        dsimp only
        rw [if_pos rfl, hdefinition]
        exact ⟨_, rfl⟩
  · rw [if_neg hcaptured]
    unfold stackLoss
    by_cases hfailed : raw.stack.status = .failed
    · rw [if_pos hfailed]
      dsimp only
      rw [makeStackCaptureLoss_valid hsequence]
      exact ⟨_, rfl⟩
    · rw [if_neg hfailed]
      exact ⟨_, rfl⟩

/-! ## The record of an event -/

/-- What the members must leave for the record of an event to be built. -/
structure Buildable (options : WriterOptions) (w : RtlAllocateHeapTraceWriter)
    (raw : RtlHeapEvent) : Prop where
  recordable : Recordable options.vmContext w.live raw
  stackId : w.dictionary.nextStackId ≠ maxU64

theorem eventHeader_valid (hsequence : raw.queueSequence ≠ 0) (ticks stackId : ℕ)
    (status : EventStatus) :
    validateHeader (eventHeader raw ticks stackId status) = .ok () := by
  unfold validateHeader
  rw [failIf_of_not (show ¬ (eventHeader raw ticks stackId status).sequence = 0 from hsequence),
    ok_bind]
  apply failIf_of_not
  show ¬ ((recordSystemError raw).domain = .none ∧ (recordSystemError raw).code ≠ 0)
  unfold recordSystemError
  split
  · exact fun hboth => nomatch hboth.1
  · split
    · exact fun hboth => nomatch hboth.1
    · exact fun hboth => hboth.2 rfl

theorem countPending_run (hevents : w.pendingEventCount < maxU64)
    (hpending : w.pending raw.operation ≤ w.pendingEventCount)
    (hcustom : w.pendingCustomEvents ≤ w.pendingEventCount) : ∃ m, countPending raw w = .ok m := by
  unfold countPending
  rw [checkedAdd_of (show w.pendingEventCount + 1 ≤ maxU64 by omega), ok_bind]
  by_cases hkind : raw.Custom
  · rw [if_pos hkind, checkedAdd_of (show w.pendingCustomEvents + 1 ≤ maxU64 by omega)]
    exact ⟨_, rfl⟩
  · rw [if_neg hkind, checkedAdd_of (show w.pending raw.operation + 1 ≤ maxU64 by omega)]
    exact ⟨_, rfl⟩

/-- The members before an event that was accepted enters the buffers. -/
structure Admitted (options : WriterOptions) (raws : List RtlHeapEvent) (raw : RtlHeapEvent)
    (w : RtlAllocateHeapTraceWriter) : Prop where
  counts : Counts options.hooks raws w.ledger
  room : raws.length < maxU64
  identified : Identified w.live
  modules : ∀ entry ∈ w.liveModules, entry.2.moduleId ≠ 0
  nextStack : w.dictionary.nextStackId ≠ 0
  sequence : raw.queueSequence ≠ 0
  stack : validateRawStack raw.stack = .ok ()
  result : ResultNamed raw
  known : raw.Custom → options.hooks.IsKnownCustomApi raw.apiId

theorem Admitted.kept (h : Admitted options raws raw w) (hkept : Kept w w')
    (hcounts : Counts options.hooks raws w'.ledger) : Admitted options raws raw w' where
  counts := hcounts
  room := h.room
  identified := by
    rw [hkept.live]
    exact h.identified
  modules := by
    rw [hkept.liveModules]
    exact h.modules
  nextStack := by
    rw [hkept.dictionary]
    exact h.nextStack
  sequence := h.sequence
  stack := h.stack
  result := h.result
  known := h.known

theorem Buildable.kept (h : Buildable options w raw) (hkept : Kept w w') :
    Buildable options w' raw where
  recordable := by
    rw [hkept.live]
    exact h.recordable
  stackId := by
    rw [hkept.dictionary]
    exact h.stackId

theorem appendEvent_run (h : Admitted options raws raw w) (hbuild : Buildable options w raw)
    (ticks : ℕ) : ∃ m, appendEvent options raw (stackLoss raw ticks) ticks w = .ok m := by
  have hroom := h.room
  have hbounded := bounded_of h.counts hroom.le
  have htotal : raws.length = w.pendingEventCount + w.writtenEvents + w.traceDroppedEvents :=
    h.counts.total
  have hinterned := hbounded.pendingStacks
  obtain ⟨addition, hadded⟩ := addStack_run h.modules h.nextStack hbuild.stackId h.stack h.sequence
    ticks
  have hunits := (addStack_ok hadded).2
  obtain ⟨⟨live, status, payload⟩, hplan⟩ := planEvent_run hbuild.recordable
  have hvalid := (planEvent_recorded h.identified h.result hbuild.recordable.distinct hplan).2
    (eventHeader raw ticks addition.stackId status) (eventHeader_valid h.sequence _ _ _) rfl
  unfold appendEvent
  rw [hadded, ok_bind, hplan, ok_bind]
  dsimp only
  rw [hvalid, ok_bind]
  have hevents : w.pendingEventCount < maxU64 := by omega
  refine exists_bind_ok
    (countPending_run hevents (hbounded.pending raw.operation) hbounded.pendingCustom) ?_
  intro m hcount
  obtain rfl := countPending_ok hcount
  dsimp only
  rw [checkedAdd_of (show w.pendingUniqueStacks + addition.unique ≤ maxU64 by omega), ok_bind,
    checkedAdd_of (show w.pendingReusedStacks + addition.reused ≤ maxU64 by omega)]
  exact ⟨_, rfl⟩

/-! ## `process_event` -/

/-- The record of the event is built: below the limit, unless the flush for its room
meets it. -/
abbrev Buffers (options : WriterOptions) (w : RtlAllocateHeapTraceWriter) : Prop :=
  w.fileLimitReached = false ∧ (w.NeedsCapacity options → ¬ MeetsLimit options w)

/-- `process_event` up to the file limit. -/
def admission (options : WriterOptions) (raw : RtlHeapEvent) : WriterM (Option LossRecord) := do
  noteStackCaptureLoss raw (← admitEvent options raw)

/-- The states in which `process_event` calls `flush_pending`: for the room of the event,
and when a buffer is full. -/
def eventFlushes (options : WriterOptions) (raw : RtlHeapEvent) (w : RtlAllocateHeapTraceWriter) :
    List RtlAllocateHeapTraceWriter :=
  match admission options raw w with
  | .error _ _ => []
  | .ok loss m =>
      if m.fileLimitReached then []
      else (if m.NeedsCapacity options then [m] else []) ++
        match ensurePendingCapacity options m with
        | .error _ _ => []
        | .ok _ k =>
            if k.fileLimitReached then []
            else
              match appendEvent options raw loss (w.normalizedTicks raw) k with
              | .error _ => []
              | .ok full => if full.IsFull options then [full] else []

/-- An accepted event whose record can be built and whose flushes are safe. -/
structure EventSafe (options : WriterOptions) (w : RtlAllocateHeapTraceWriter)
    (raw : RtlHeapEvent) : Prop where
  valid : validateRawEvent ⟨options.monotonicOrigin, options.hooks, w.lastSequence⟩ raw = .ok ()
  stack : validateRawStack raw.stack = .ok ()
  buildable : Buffers options w → Buildable options w raw
  flushes : ∀ m ∈ eventFlushes options raw w, FlushSafe options m

instance (options : WriterOptions) (w : RtlAllocateHeapTraceWriter) (raw : RtlHeapEvent) :
    Decidable (EventSafe options w raw) :=
  decidable_of_iff
    (validateRawEvent ⟨options.monotonicOrigin, options.hooks, w.lastSequence⟩ raw = .ok () ∧
      validateRawStack raw.stack = .ok () ∧
      (Buffers options w → Recordable options.vmContext w.live raw ∧
        w.dictionary.nextStackId ≠ maxU64) ∧
      ∀ m ∈ eventFlushes options raw w, FlushSafe options m)
    ⟨fun h => ⟨h.1, h.2.1, fun hbuffers => ⟨(h.2.2.1 hbuffers).1, (h.2.2.1 hbuffers).2⟩, h.2.2.2⟩,
      fun h => ⟨h.valid, h.stack, fun hbuffers =>
        ⟨(h.buildable hbuffers).recordable, (h.buildable hbuffers).stackId⟩, h.flushes⟩⟩

theorem noteStackCaptureLoss_run (hsequence : raw.queueSequence ≠ 0)
    (hopen : w.completeness.sawEndOfTrace = false) (ticks : ℕ) :
    ∃ completeness, noteStackCaptureLoss raw ticks w =
      .ok (stackLoss raw ticks) { w with completeness := completeness } := by
  unfold noteStackCaptureLoss stackLoss
  by_cases hfailed : raw.stack.status = .failed
  · have hnot : ¬ w.completeness.sawEndOfTrace = true := by
      rw [hopen]
      exact Bool.false_ne_true
    rw [if_pos hfailed, if_pos hfailed, run_bind, run_get]
    dsimp only
    unfold CompletenessTracker.observeLoss
    rw [failIf_of_not hnot, ok_bind, makeStackCaptureLoss_valid hsequence]
    exact ⟨_, rfl⟩
  · rw [if_neg hfailed, if_neg hfailed]
    exact ⟨w.completeness, rfl⟩

/-- The drops of a custom hook point are drops. -/
theorem customDrops_le (h : Counts options.hooks raws w.ledger) {apiId : ℕ}
    (hknown : options.hooks.IsKnownCustomApi apiId) :
    w.traceCustomDroppedPerApi apiId ≤ w.traceDroppedEvents := by
  have htotal : w.traceDroppedEvents =
      sumCounts w.traceDropped + sumCustom options.hooks w.traceCustomDroppedPerApi :=
    h.droppedTotal
  have hmem : apiId ∈ options.hooks.customApiIds.toFinset := List.mem_toFinset.mpr hknown.2
  have hle : w.traceCustomDroppedPerApi apiId ≤
      sumCustom options.hooks w.traceCustomDroppedPerApi :=
    Finset.single_le_sum (fun _ _ => Nat.zero_le _) hmem
  omega

/-- An event that arrives at the limit is counted. -/
theorem noteEventTraceDrop_counted (h : Counts options.hooks raws w.ledger)
    (hroom : raws.length < maxU64) (hknown : raw.Custom → options.hooks.IsKnownCustomApi raw.apiId)
    (ticks : ℕ) : ∃ m, noteEventTraceDrop raw ticks w = .ok () m := by
  have htotal : raws.length = w.pendingEventCount + w.writtenEvents + w.traceDroppedEvents :=
    h.total
  exact noteEventTraceDrop_run (bounded_of h hroom.le) (by omega)
    (fun hcustom => customDrops_le h (hknown hcustom)) ticks

theorem bufferEvent_run (h : Admitted options raws raw w) (hbuild : Buildable options w raw)
    (ticks : ℕ) (hsafe : ∀ m, appendEvent options raw (stackLoss raw ticks) ticks w = .ok m →
      m.IsFull options → FlushSafe options m) :
    ∃ m, bufferEvent options raw (stackLoss raw ticks) ticks w = .ok () m := by
  obtain ⟨m, happend⟩ := appendEvent_run h hbuild ticks
  obtain ⟨happended⟩ := appendEvent_ok happend
  have hcounts := counts_appended h.counts h.known happended
  have hbound : (raws ++ [raw]).length ≤ maxU64 := by
    rw [List.length_append]
    exact h.room
  unfold bufferEvent
  rw [run_bind, run_get]
  dsimp only
  rw [run_bind, happend, run_check_ok]
  dsimp only
  rw [run_bind, run_set]
  dsimp only
  rw [run_bind, run_get]
  dsimp only
  rw [run_onlyIf]
  by_cases hfull : m.IsFull options
  · obtain ⟨k, hk, -⟩ := flushPending_run hcounts hbound (hsafe m happend hfull)
    rw [if_pos hfull]
    exact ⟨k, hk⟩
  · rw [if_neg hfull]
    exact ⟨m, rfl⟩

section Flushes

variable {loss : Option LossRecord} {m k full : RtlAllocateHeapTraceWriter}

theorem mem_eventFlushes_capacity (hadmission : admission options raw w = .ok loss m)
    (hbelow : m.fileLimitReached = false) (hneeds : m.NeedsCapacity options) :
    m ∈ eventFlushes options raw w := by
  unfold eventFlushes
  rw [hadmission]
  dsimp only
  rw [if_neg (by rw [hbelow]; decide), if_pos hneeds]
  exact List.mem_append_left _ List.mem_cons_self

theorem mem_eventFlushes_full (hadmission : admission options raw w = .ok loss m)
    (hbelow : m.fileLimitReached = false) (hensure : ensurePendingCapacity options m = .ok () k)
    (hkbelow : k.fileLimitReached = false)
    (happend : appendEvent options raw loss (w.normalizedTicks raw) k = .ok full)
    (hfull : full.IsFull options) : full ∈ eventFlushes options raw w := by
  unfold eventFlushes
  rw [hadmission]
  dsimp only
  rw [if_neg (by rw [hbelow]; decide), hensure]
  dsimp only
  apply List.mem_append_right
  rw [if_neg (by rw [hkbelow]; decide), happend]
  dsimp only
  rw [if_pos hfull]
  exact List.mem_cons_self

end Flushes

/-- An accepted event is admitted, with the loss of its stack. -/
theorem admission_run (h : Ready options raws w) (hsafe : EventSafe options w raw) :
    ∃ completeness, Admitted options raws raw (w.admitted raw completeness) ∧
      admission options raw w =
        .ok (stackLoss raw (w.normalizedTicks raw)) (w.admitted raw completeness) := by
  have hlast := h.accounted.last
  have haccepted := Accepted.of_ok (by rw [hlast]; exact h.accounted.bound) hsafe.valid
  have hroom : raws.length < maxU64 := by
    rw [← hlast]
    exact haccepted.last
  have hsequence : raw.queueSequence ≠ 0 := by
    rw [haccepted.sequence]
    exact Nat.succ_ne_zero _
  obtain ⟨completeness, hloss⟩ := noteStackCaptureLoss_run
    (w := { w with lastSequence := raw.queueSequence, lastTicks := w.normalizedTicks raw })
    hsequence h.unended (w.normalizedTicks raw)
  have hadmit : admitEvent options raw w = .ok (w.normalizedTicks raw)
      { w with lastSequence := raw.queueSequence, lastTicks := w.normalizedTicks raw } := by
    unfold admitEvent
    rw [run_bind, run_get]
    dsimp only
    rw [hsafe.valid, hsafe.stack]
    rfl
  refine ⟨completeness, ?_, ?_⟩
  · exact ⟨h.accounted.counts, hroom, h.identified, h.modules, h.nextStack, hsequence, hsafe.stack,
      haccepted.resultNamed, fun hcustom => (haccepted.custom hcustom).1⟩
  · unfold admission
    rw [run_bind, hadmit]
    exact hloss

/-- The flush for the room of an event; below the limit after it, the record is built. -/
theorem ensurePendingCapacity_run {m : RtlAllocateHeapTraceWriter}
    (h : Counts options.hooks raws m.ledger) (hroom : raws.length ≤ maxU64)
    (hbelow : m.fileLimitReached = false)
    (hsafe : m.NeedsCapacity options → FlushSafe options m) :
    ∃ k, ensurePendingCapacity options m = .ok () k ∧
      (k.fileLimitReached = false → Buffers options m) := by
  unfold ensurePendingCapacity
  rw [run_bind, run_get]
  dsimp only
  rw [run_onlyIf]
  by_cases hneeds : m.NeedsCapacity options
  · obtain ⟨k, hk, hmeets⟩ := flushPending_run h hroom (hsafe hneeds)
    rw [if_pos hneeds]
    refine ⟨k, hk, ?_⟩
    intro hkbelow
    refine ⟨hbelow, ?_⟩
    intro _ hreached
    rw [hmeets.mp hreached] at hkbelow
    cases hkbelow
  · rw [if_neg hneeds]
    exact ⟨m, rfl, fun _ => ⟨hbelow, fun hcontra => absurd hcontra hneeds⟩⟩

theorem processEvent_eq (options : WriterOptions) (raw : RtlHeapEvent)
    (w : RtlAllocateHeapTraceWriter) {loss : Option LossRecord} {m : RtlAllocateHeapTraceWriter}
    (hadmission : admission options raw w = .ok loss m) :
    processEvent options raw w = (do
      if (← get).fileLimitReached then noteEventTraceDrop raw (w.normalizedTicks raw)
      else do
        ensurePendingCapacity options
        if (← get).fileLimitReached then noteEventTraceDrop raw (w.normalizedTicks raw)
        else bufferEvent options raw loss (w.normalizedTicks raw) : WriterM Unit) m := by
  unfold admission at hadmission
  obtain ⟨ticks, a, hadmit, hloss⟩ := run_bind_eq_ok.mp hadmission
  obtain ⟨-, -, hticks, -⟩ := admitEvent_ok hadmit
  have hticks : ticks = w.normalizedTicks raw := hticks
  subst hticks
  unfold processEvent
  rw [run_bind, hadmit]
  dsimp only
  rw [run_bind, hloss]

/-- An event that is safe is processed. -/
theorem processEvent_run (h : Ready options raws w) (hsafe : EventSafe options w raw) :
    ∃ w', processEvent options raw w = .ok () w' := by
  obtain ⟨completeness, hadmitted, hadmission⟩ := admission_run h hsafe
  have hroom := hadmitted.room
  rw [processEvent_eq options raw w hadmission, run_bind, run_get]
  dsimp only
  by_cases hlimit : (w.admitted raw completeness).fileLimitReached = true
  · rw [if_pos hlimit]
    exact noteEventTraceDrop_counted hadmitted.counts hroom hadmitted.known _
  rw [if_neg hlimit]
  have hbelow : (w.admitted raw completeness).fileLimitReached = false := by simpa using hlimit
  obtain ⟨k, hk, hbuffers⟩ := ensurePendingCapacity_run hadmitted.counts hroom.le hbelow
    fun hneeds => hsafe.flushes _ (mem_eventFlushes_capacity hadmission hbelow hneeds)
  have hkept := kept_ensurePendingCapacity hk
  have hcounts := counts_ensurePendingCapacity hadmitted.counts hk
  rw [run_bind, hk]
  dsimp only
  rw [run_bind, run_get]
  dsimp only
  by_cases hreached : k.fileLimitReached = true
  · rw [if_pos hreached]
    exact noteEventTraceDrop_counted hcounts hroom hadmitted.known _
  · have hkbelow : k.fileLimitReached = false := by simpa using hreached
    have hbuild : Buildable options (w.admitted raw completeness) raw :=
      have hw := hsafe.buildable (hbuffers hkbelow)
      ⟨hw.recordable, hw.stackId⟩
    rw [if_neg hreached]
    refine bufferEvent_run (hadmitted.kept hkept hcounts) (hbuild.kept hkept) _ ?_
    intro m happend hfull
    exact hsafe.flushes m (mem_eventFlushes_full hadmission hbelow hk hkbelow happend hfull)

/-! ## What a step leaves ready -/

/-- The dictionary gives a new id out, or none. -/
theorem addStack_next {loss : Option LossRecord} {addition : LinuxTraceWriter.EventAddition}
    (h : w.addStack raw loss = .ok addition) :
    addition.dictionary.nextStackId = w.dictionary.nextStackId ∨
      addition.dictionary.nextStackId = w.dictionary.nextStackId + 1 := by
  unfold addStack at h
  by_cases hcaptured : stackCaptureSucceeded raw.stack
  · rw [if_pos hcaptured] at h
    obtain ⟨⟨dictionary, id, inserted⟩, hintern, h⟩ := bind_eq_ok.mp h
    have hdictionary : dictionary.nextStackId = w.dictionary.nextStackId ∨
        dictionary.nextStackId = w.dictionary.nextStackId + 1 := by
      unfold StackDictionary.intern at hintern
      obtain ⟨-, hintern⟩ := failIf_bind_eq_ok.mp hintern
      obtain ⟨⟨⟩, -, hintern⟩ := bind_eq_ok.mp hintern
      cases hfound : w.dictionary.entries.find? fun entry =>
          entry.1 = w.normalizeStack raw.stack with
      | some entry =>
          rw [hfound] at hintern
          cases hintern
          exact .inl rfl
      | none =>
          rw [hfound] at hintern
          cases (failIf_bind_eq_ok.mp hintern).2
          exact .inr rfl
    cases inserted with
    | true =>
        obtain ⟨⟨⟩, -, h⟩ := bind_eq_ok.mp h
        cases h
        exact hdictionary
    | false =>
        cases h
        exact hdictionary
  · rw [if_neg hcaptured] at h
    cases loss with
    | some loss =>
        obtain ⟨⟨⟩, -, h⟩ := bind_eq_ok.mp h
        cases h
        exact .inl rfl
    | none =>
        cases h
        exact .inl rfl

/-- Every event that is processed leaves the members ready. -/
theorem ready_event {u : Unit} (h : Ready options raws w)
    (hrun : processEvent options raw w = .ok u w') : Ready options (raws ++ [raw]) w' := by
  have haccounted := accounted_event h.accounted hrun
  obtain ⟨hvalid, -, completeness, hsaw, hsettled⟩ := processEvent_ok hrun
  have hlast := h.accounted.last
  have haccepted := Accepted.of_ok (by rw [hlast]; exact h.accounted.bound) hvalid
  have hlength : raws.length ≤ (raws ++ [raw]).length := by
    rw [List.length_append]
    exact Nat.le_add_right _ _
  -- the event that was admitted is ready but for its count
  have hready : ∀ k, Kept (w.admitted raw completeness) k → Kept k w' →
      Ready options (raws ++ [raw]) w' := by
    intro k hk hkept
    have hall := hk.trans hkept
    refine ⟨haccounted, ?_, ?_, ?_, ?_, ?_, ?_⟩
    · rw [hall.live]
      exact h.identified
    · exact h.ids.kept hall.live hall.dictionary hlength
    · rw [hall.liveModules]
      exact h.modules
    · rw [hall.nextModuleId]
      exact h.nextModule
    · rw [hall.dictionary]
      exact h.nextStack
    · rw [hall.completeness]
      exact hsaw.trans h.unended
  cases hsettled with
  | past hlimit hdrop =>
      subst hdrop
      exact hready _ (.refl _) (kept_notedEventDrop _ _ _)
  | reached k hlimit hensure hreached hdrop =>
      subst hdrop
      exact hready k (kept_ensurePendingCapacity hensure) (kept_notedEventDrop _ _ _)
  | buffered k hlimit hensure hbelow hbuffer =>
      have hk := kept_ensurePendingCapacity hensure
      obtain ⟨m, happend, hm⟩ := bufferEvent_ok hbuffer
      obtain ⟨⟨addition, live, status, payload, hadded, hplan, -, rfl⟩⟩ := appendEvent_ok happend
      have hlive : k.live = w.live := hk.live
      have hmodules : k.liveModules = w.liveModules := hk.liveModules
      have hdictionary : k.dictionary = w.dictionary := hk.dictionary
      have hidentified : Identified live :=
        planEvent_identified (by rw [hlive]; exact h.identified) haccepted.resultNamed hplan
      have hnext : addition.dictionary.nextStackId ≠ 0 := by
        have hold := h.nextStack
        have hadded := addStack_next hadded
        rw [hdictionary] at hadded
        omega
      have hkept := hm.elim (fun heq => heq ▸ Kept.refl w')
        fun hflush => (flushPending_ok hflush.2).kept
      have hids : IdsWithin (raws ++ [raw]).length w' := by
        have hstep := planEvent_ids hplan
        rw [hlive] at hstep
        have hstack := addStack_next hadded
        rw [hdictionary] at hstack
        have hheap := h.ids.heap
        have hmapping := h.ids.mapping
        have hstackIds := h.ids.stack
        have hlength : (raws ++ [raw]).length = raws.length + 1 := List.length_append
        have hheapStep := hstep.heap
        have hmappingStep := hstep.mapping
        refine ⟨?_, ?_, ?_⟩
        · rw [hkept.live]
          show live.nextHeapId ≤ _
          omega
        · rw [hkept.live]
          show live.nextMappingId ≤ _
          omega
        · rw [hkept.dictionary]
          show addition.dictionary.nextStackId ≤ _
          omega
      refine ⟨haccounted, ?_, hids, ?_, ?_, ?_, ?_⟩
      · rw [hkept.live]
        exact hidentified
      · rw [hkept.liveModules]
        show ∀ entry ∈ k.liveModules, entry.2.moduleId ≠ 0
        rw [hmodules]
        exact h.modules
      · rw [hkept.nextModuleId]
        show k.nextModuleId ≠ 0
        rw [hk.nextModuleId]
        exact h.nextModule
      · rw [hkept.dictionary]
        exact hnext
      · rw [hkept.completeness]
        show k.completeness.sawEndOfTrace = false
        rw [hk.completeness]
        exact hsaw.trans h.unended

end RtlAllocateHeapTraceWriter

end Noleax.Windows
