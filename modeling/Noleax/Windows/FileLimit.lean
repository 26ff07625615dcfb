import Noleax.Windows.EventRuns

/-!
# Reaching the file limit

The steps of the capture loop, with module events and memory samples between the events,
and every flush. A run whose steps are safe returns and accounts for every event. At the
limit a step is safe when no custom event is pending: `drop_pending_events` has no
argument for those.
-/

namespace Noleax.Windows

open Lib Trace Agent

namespace RtlAllocateHeapTraceWriter

variable {options : WriterOptions} {w w' : RtlAllocateHeapTraceWriter} {raw : RtlHeapEvent}
  {raws : List RtlHeapEvent}

/-! ## Steps -/

inductive WriterAction where
  | event (raw : RtlHeapEvent)
  | module (raw : RawModuleEvent)
  | memory (now : ℕ) (samples : List (ℕ → MemoryRecord))
  | flush

/-- What the capture loop does to the members. -/
def perform (options : WriterOptions) : WriterAction → WriterM Unit
  | .event raw => processEvent options raw
  | .module raw => processModuleEvent options raw
  | .memory now samples => captureMemorySnapshot options now samples
  | .flush => flushPending options

def performAll (options : WriterOptions) (actions : List WriterAction) : WriterM Unit :=
  actions.forM (perform options)

/-- The events among the steps. -/
def processed : List WriterAction → List RtlHeapEvent
  | [] => []
  | .event raw :: actions => raw :: processed actions
  | _ :: actions => processed actions

/-! ## Every step leaves the members ready -/

theorem preserves_flush : Preserves (Ready options raws) (flushPending options) :=
  fun _ _ _ h hrun => ready_flushed h (flushPending_ok hrun)

theorem preserves_flushModules : Preserves (Ready options raws) (flushModulePayload options) := by
  intro w u w' h hrun
  have hbeside := (flushModulePayload_ok hrun).beside
  exact h.kept hbeside.kept
    ⟨counts_beside h.accounted.counts hbeside,
      hbeside.sameLive.lastSequence.trans h.accounted.last, h.accounted.bound⟩

/-- A change of the modules alone. -/
theorem Ready.withModules (h : Ready options raws w) (hledger : w'.ledger = w.ledger)
    (hlast : w'.lastSequence = w.lastSequence) (hlive : w'.live = w.live)
    (hdictionary : w'.dictionary = w.dictionary) (hcompleteness : w'.completeness = w.completeness)
    (hmodules : ∀ entry ∈ w'.liveModules, entry.2.moduleId ≠ 0) (hnext : w'.nextModuleId ≠ 0) :
    Ready options raws w' where
  accounted := by
    refine ⟨?_, hlast.trans h.accounted.last, h.accounted.bound⟩
    rw [hledger]
    exact h.accounted.counts
  identified := by
    rw [hlive]
    exact h.identified
  ids := h.ids.kept hlive hdictionary (Nat.le_refl _)
  modules := hmodules
  nextModule := hnext
  nextStack := by
    rw [hdictionary]
    exact h.nextStack
  unended := by
    rw [hcompleteness]
    exact h.unended

theorem preserves_flushBeforeModule :
    Preserves (Ready options raws) (flushBeforeModule options) := by
  unfold flushBeforeModule
  exact preserves_get_bind fun _ _ => preserves_onlyIf preserves_flush

theorem preserves_loadModule (raw : RawModuleEvent) (ticks : ℕ) :
    Preserves (Ready options raws) (loadModule options raw ticks) := by
  unfold loadModule
  refine preserves_get_bind fun _ _ => (keeps_check _).preserves.bind fun _ => ?_
  refine preserves_flushBeforeModule.bind fun _ => preserves_get_bind fun w h => ?_
  have hstamped : Ready options raws { w with nextModuleId := w.nextModuleId + 1 } :=
    h.withModules rfl rfl rfl rfl rfl h.modules (Nat.succ_ne_zero _)
  refine (keeps_set hstamped).preserves.bind fun _ => (keeps_check _).preserves.bind fun _ => ?_
  apply Keeps.preserves
  apply keeps_modify
  intro m hm
  refine hm.withModules rfl rfl rfl rfl rfl ?_ hm.nextModule
  intro entry hmem
  rcases SortedMap.mem_insert.mp hmem with heq | hmem
  · cases heq
    exact h.nextModule
  · exact hm.modules entry hmem

theorem preserves_unloadModule (raw : RawModuleEvent) (existing : LiveModule) (ticks : ℕ) :
    Preserves (Ready options raws) (unloadModule options raw existing ticks) := by
  unfold unloadModule
  refine preserves_flushBeforeModule.bind fun _ => (keeps_check _).preserves.bind fun _ => ?_
  apply Keeps.preserves
  apply keeps_modify
  intro m hm
  refine hm.withModules rfl rfl rfl rfl rfl ?_ hm.nextModule
  intro entry hmem
  exact hm.modules entry (SortedMap.mem_erase.mp hmem).1

theorem preserves_settleModule (ticks : ℕ) :
    Preserves (Ready options raws) (settleModule options ticks) := by
  unfold settleModule
  apply Preserves.bind
  · apply Keeps.preserves
    apply keeps_modify
    intro w h
    exact h.withModules rfl rfl rfl rfl rfl h.modules h.nextModule
  · intro _
    exact preserves_get_bind fun _ _ => preserves_onlyIf preserves_flushModules

theorem preserves_module (raw : RawModuleEvent) :
    Preserves (Ready options raws) (processModuleEvent options raw) := by
  unfold processModuleEvent
  refine (keeps_check _).preserves.bind fun _ => preserves_get_bind fun w h => ?_
  dsimp only
  split
  · rename_i existing
    refine (keeps_check _).preserves.bind fun _ => ?_
    split
    · apply preserves_ite
      · intro _
        apply Keeps.preserves
        apply keeps_set
        refine h.withModules rfl rfl rfl rfl rfl ?_ h.nextModule
        intro entry hmem
        dsimp only at hmem
        rcases SortedMap.mem_adjust.mp hmem with ⟨hmem, -⟩ | ⟨-, value, hmem, hvalue⟩
        · exact h.modules entry hmem
        · rw [hvalue]
          exact h.modules _ hmem
      · intro _
        exact (keeps_throw _).preserves
    · exact (preserves_loadModule raw _).bind fun _ => preserves_settleModule _
  · apply Keeps.preserves
    exact keeps_set (h.withModules rfl rfl rfl rfl rfl h.modules h.nextModule)
  · exact (preserves_unloadModule raw _ _).bind fun _ => preserves_settleModule _

/-- A chunk that holds no events. -/
theorem keeps_writeDataChunk {chunk : Chunk} (hquiet : eventRecords chunk = []) :
    Keeps (Ready options raws) (writeDataChunk options chunk) := by
  intro w h
  cases hrun : writeDataChunk options chunk w with
  | ok written w' =>
      have hbeside := (writeDataChunk_ok hrun).beside hquiet
      rw [exitState_of_ok hrun]
      exact h.kept hbeside.kept
        ⟨counts_beside h.accounted.counts hbeside,
          hbeside.sameLive.lastSequence.trans h.accounted.last, h.accounted.bound⟩
  | error e w' =>
      have hsame : w' = w := by
        unfold writeDataChunk at hrun
        rw [run_bind, run_get] at hrun
        dsimp only at hrun
        rw [run_bind] at hrun
        cases hchunk : w.file.writeChunk options.trace options.encoding chunk true with
        | error e =>
            rw [hchunk, run_check_error] at hrun
            cases hrun
            rfl
        | ok result =>
            rw [hchunk, run_check_ok] at hrun
            cases result <;> cases hrun
      rw [exitState_of_error hrun, hsame]
      exact h

theorem preserves_memory (now : ℕ) (samples : List (ℕ → MemoryRecord)) :
    Preserves (Ready options raws) (captureMemorySnapshot options now samples) := by
  intro w u w' h hrun
  unfold captureMemorySnapshot at hrun
  split at hrun
  · cases hrun
    exact h
  · have hstamped : Ready options raws { w with
        lastMemoryTicks := max now (max w.lastMemoryTicks options.monotonicOrigin) } :=
      h.withModules rfl rfl rfl rfl rfl h.modules h.nextModule
    dsimp only at hrun
    split at hrun
    · cases hrun
      exact hstamped
    · cases hrun
      exact keeps_writeDataChunk rfl _ hstamped

/-- Every step that returns leaves the members ready. -/
theorem ready_perform {action : WriterAction} {u : Unit} (h : Ready options raws w)
    (hrun : perform options action w = .ok u w') :
    Ready options (raws ++ processed [action]) w' := by
  cases action with
  | event raw => exact ready_event h hrun
  | module raw =>
      show Ready options (raws ++ []) w'
      rw [List.append_nil]
      exact preserves_module raw w u w' h hrun
  | memory now samples =>
      show Ready options (raws ++ []) w'
      rw [List.append_nil]
      exact preserves_memory now samples w u w' h hrun
  | flush =>
      show Ready options (raws ++ []) w'
      rw [List.append_nil]
      exact preserves_flush w u w' h hrun

/-! ## Safe steps -/

/-- A load or an unload, which ends the buffered events. -/
abbrev ChangesModules (w : RtlAllocateHeapTraceWriter) (raw : RawModuleEvent) : Prop :=
  raw.type = .load ↔ w.liveModules.lookup raw.baseAddress = none

/-- The flush of a module event is safe, and `process_module_event` throws nothing else. -/
structure ModuleSafe (options : WriterOptions) (w : RtlAllocateHeapTraceWriter)
    (raw : RawModuleEvent) : Prop where
  flush : w.ChangesModules raw → w.pendingEventCount ≠ 0 → FlushSafe options w
  processed : (w.ChangesModules raw → wp (flushBeforeModule options) (fun _ _ => True)
      (fun _ _ => False) w) →
    wp (processModuleEvent options raw) (fun _ _ => True) (fun _ _ => False) w

/-- The record an event needs can be built, and no custom event is pending where a flush
meets the limit. -/
def SafeStep (options : WriterOptions) (w : RtlAllocateHeapTraceWriter) : WriterAction → Prop
  | .event raw => EventSafe options w raw
  | .module raw => ModuleSafe options w raw
  | .memory _ _ => True
  | .flush => FlushSafe options w

/-- A run of safe steps. -/
def SafeRun (options : WriterOptions) :
    List WriterAction → RtlAllocateHeapTraceWriter → Prop
  | [], _ => True
  | action :: actions, w =>
      SafeStep options w action ∧
        match perform options action w with
        | .ok _ w' => SafeRun options actions w'
        | .error _ _ => True

instance (options : WriterOptions) (w : RtlAllocateHeapTraceWriter) :
    (action : WriterAction) → Decidable (SafeStep options w action)
  | .event raw => inferInstanceAs (Decidable (EventSafe options w raw))
  | .module raw =>
      decidable_of_iff
        ((w.ChangesModules raw → w.pendingEventCount ≠ 0 → FlushSafe options w) ∧
          ((w.ChangesModules raw → wp (flushBeforeModule options) (fun _ _ => True)
              (fun _ _ => False) w) →
            wp (processModuleEvent options raw) (fun _ _ => True) (fun _ _ => False) w))
        ⟨fun h => ⟨h.1, h.2⟩, fun h => ⟨h.flush, h.processed⟩⟩
  | .memory _ _ => isTrue trivial
  | .flush => inferInstanceAs (Decidable (FlushSafe options w))

instance decidableSafeRun (options : WriterOptions) : (actions : List WriterAction) →
    (w : RtlAllocateHeapTraceWriter) → Decidable (SafeRun options actions w)
  | [], _ => isTrue trivial
  | action :: actions, w =>
      match hrun : perform options action w with
      | .ok _ w' =>
          have := decidableSafeRun options actions w'
          decidable_of_iff (SafeStep options w action ∧ SafeRun options actions w') (by
            conv_rhs => unfold SafeRun
            rw [hrun])
      | .error _ _ =>
          decidable_of_iff (SafeStep options w action ∧ True) (by
            conv_rhs => unfold SafeRun
            rw [hrun])

theorem flushBeforeModule_run (h : Ready options raws w)
    (hsafe : w.pendingEventCount ≠ 0 → FlushSafe options w) :
    wp (flushBeforeModule options) (fun _ _ => True) (fun _ _ => False) w := by
  unfold flushBeforeModule
  rw [wp_bind, wp_get]
  unfold onlyIf
  rw [wp_ite]
  constructor
  · intro hpending
    obtain ⟨m, hm, -⟩ := flushPending_run h.accounted.counts h.accounted.bound (hsafe hpending)
    exact wp_of_ok hm trivial
  · intro _
    exact wp_pure.mpr trivial

/-- A safe step returns. -/
theorem perform_run {action : WriterAction} (h : Ready options raws w)
    (hsafe : SafeStep options w action) : ∃ w', perform options action w = .ok () w' := by
  cases action with
  | event raw => exact processEvent_run h hsafe
  | module raw =>
      obtain ⟨⟨⟩, w', hrun, -⟩ := wp_run (hsafe.processed fun hchanges =>
        flushBeforeModule_run h (hsafe.flush hchanges))
      exact ⟨w', hrun⟩
  | memory now samples =>
      show ∃ w', captureMemorySnapshot options now samples w = .ok () w'
      unfold captureMemorySnapshot
      split
      · exact ⟨_, rfl⟩
      · dsimp only
        split
        · exact ⟨_, rfl⟩
        · exact ⟨_, rfl⟩
  | flush =>
      obtain ⟨m, hm, -⟩ := flushPending_run h.accounted.counts h.accounted.bound hsafe
      exact ⟨m, hm⟩

/-- The first steps of a safe run return. -/
theorem performAll_run {done rest : List WriterAction} (h : Ready options raws w)
    (hsafe : SafeRun options (done ++ rest) w) :
    ∃ w', performAll options done w = .ok () w' ∧ Ready options (raws ++ processed done) w' := by
  induction done generalizing w raws with
  | nil =>
      refine ⟨w, rfl, ?_⟩
      show Ready options (raws ++ []) w
      rwa [List.append_nil]
  | cons action done ih =>
      obtain ⟨hstep, hrest⟩ := hsafe
      obtain ⟨m, hm⟩ := perform_run h hstep
      rw [hm] at hrest
      obtain ⟨w', hw', hready⟩ := ih (ready_perform h hm) hrest
      refine ⟨w', ?_, ?_⟩
      · unfold performAll at hw' ⊢
        rw [run_forM_cons, run_bind, hm]
        exact hw'
      · have hprocessed : processed (action :: done) = processed [action] ++ processed done := by
          cases action <;> rfl
        rw [hprocessed, ← List.append_assoc]
        exact hready

/-! ## Conservation in every state -/

/-- Every processed event is pending, written, or a trace drop of its operation or API,
and the trace drops add up. -/
structure Conserved (options : WriterOptions) (raws : List RtlHeapEvent)
    (w : RtlAllocateHeapTraceWriter) : Prop where
  builtin : ∀ operation, processedOf raws operation =
    w.pending operation + w.written operation + w.traceDropped operation
  custom : ∀ apiId, customHookApiIdBase ≤ apiId → processedBy raws apiId =
    w.eventPayload.countP (isRecordOf apiId) + (filedRecords w.file).countP (isRecordOf apiId) +
      w.traceCustomDroppedPerApi apiId
  dropped : w.traceDroppedEvents = (RtlHeapEventOperation.all.map w.traceDropped).sum +
    ∑ apiId ∈ options.hooks.customApiIds.toFinset, w.traceCustomDroppedPerApi apiId

/-- A run of safe steps reaches every one of its states, and accounts for every event
there. What is pending can be dropped exactly when no custom event is. -/
theorem safe_run_conserves {file : TraceWriter} {done rest : List WriterAction}
    (hfresh : filedRecords file = []) (hsafe : SafeRun options (done ++ rest) (start options file)) :
    ∃ w, performAll options done (start options file) = .ok () w ∧
      Conserved options (processed done) w ∧
      ((∃ m, dropPendingEvents w = .ok () m) ↔ w.pendingCustomEvents = 0) := by
  obtain ⟨w, hrun, hready⟩ := performAll_run (ready_start hfresh) hsafe
  have hcounts := hready.accounted.counts
  exact ⟨w, hrun, ⟨hcounts.builtin, hcounts.custom, hcounts.droppedTotal⟩,
    dropPendingEvents_iff hcounts hready.accounted.bound⟩

/-! ### A custom event at the limit -/

/-- A custom hook point reports an allocation. -/
def customAllocated (sequence address : ℕ) : RtlHeapEvent where
  queueSequence := sequence
  monotonicTicks := 10
  threadId := 7
  requestedSize := 16
  resultAddress := address
  apiId := customHookApiIdBase
  operation := .allocate
  status := .success

/-- `RtlAllocateHeap` returned a block. -/
def heapAllocated (sequence address : ℕ) : RtlHeapEvent where
  queueSequence := sequence
  monotonicTicks := 10
  threadId := 7
  heapHandle := 0x5000
  requestedSize := 16
  resultAddress := address
  operation := .allocate
  status := .success

/-- Whatever events were processed, `flush_pending` returns. -/
def FlushNeverFails (options : WriterOptions) (file : TraceWriter) : Prop :=
  ∀ raws w, processEvents options raws (start options file) = .ok () w →
    ∃ w', flushPending options w = .ok () w'

/-- Room for a chunk of one event, and not for two. -/
def limitedOptions : WriterOptions :=
  smallOptions { allocate := true, custom := some [customHookApiIdBase] } 1246

/-- A custom event that is written, a built-in one that meets the limit, and a custom one
that arrives after it. -/
def limitedRun : List WriterAction :=
  [.event (customAllocated 1 0x6000), .flush, .event (heapAllocated 2 0x8000), .flush,
    .event (customAllocated 3 0x7000)]

theorem safe_run_conserves_limited :
    ∃ w, performAll limitedOptions limitedRun (start limitedOptions smallFile) = .ok () w ∧
      Conserved limitedOptions (processed limitedRun) w ∧
      ((∃ m, dropPendingEvents w = .ok () m) ↔ w.pendingCustomEvents = 0) :=
  @safe_run_conserves limitedOptions smallFile limitedRun [] rfl (by decide +kernel)

/-- A flush that meets the limit with a custom event pending throws. -/
theorem pending_custom_fails :
    ¬ FlushNeverFails limitedOptions smallFile ∧
      wp (do
          processEvents limitedOptions
            [heapAllocated 1 0x6000, customAllocated 2 0x7000, heapAllocated 3 0x8000]
          flushPending limitedOptions)
        (fun _ _ => False)
        (fun e _ => e = .logic "trace drop API accounting is inconsistent")
        (start limitedOptions smallFile) := by
  have hruns : wp (processEvents limitedOptions
        [heapAllocated 1 0x6000, customAllocated 2 0x7000, heapAllocated 3 0x8000])
      (fun _ w => wp (flushPending limitedOptions) (fun _ _ => False)
        (fun e _ => e = .logic "trace drop API accounting is inconsistent") w)
      (fun _ _ => False) (start limitedOptions smallFile) := by
    decide +kernel
  constructor
  · intro hnever
    obtain ⟨⟨⟩, w, hrun, hthrows⟩ := wp_run hruns
    obtain ⟨w', hw'⟩ := hnever _ w hrun
    obtain ⟨e, t, hthrow, -⟩ := wp_throws hthrows
    rw [hw'] at hthrow
    cases hthrow
  · rw [wp_bind]
    exact wp_mono hruns (fun _ _ h => h) fun _ _ h => h.elim

end RtlAllocateHeapTraceWriter

end Noleax.Windows
