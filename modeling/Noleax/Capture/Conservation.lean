import Noleax.Capture.Statistics

/-!
# Conservation over a whole capture

Every action of the capture loop leaves the books balanced, so they are balanced in
every state between two actions and when `finalize_trace` computes its statistics.
-/

namespace Noleax.Capture

open Lib Trace Agent Agent.LinuxTraceWriter

variable {options : WriterOptions} {w w' : LinuxTraceWriter}

/-! ## Runs -/

theorem flushBeforeModule_books {owed : ℕ → ℕ} (h : Books options owed w) {u : Unit}
    (hrun : flushBeforeModule options w = .ok u w') : Books options owed w' := by
  rcases flushBeforeModule_ok hrun with ⟨-, rfl⟩ | ⟨-, hflush⟩
  · exact h
  · exact flushPending_books h hflush

theorem settleModule_ledger {ticks : ℕ} {u : Unit}
    (hrun : settleModule options ticks w = .ok u w') : ledger w' = ledger w := by
  rcases settleModule_ok hrun with rfl | hflush
  · rfl
  · have heq := flushModulePayload_ledger hflush
    exact heq

/-- A module event posts nothing; it may flush. -/
theorem processModuleEvent_books {owed : ℕ → ℕ} (h : Books options owed w) {raw : RawModuleEvent}
    {u : Unit} (hrun : processModuleEvent options raw w = .ok u w') : Books options owed w' := by
  obtain ⟨-, ticks, -, hprocessed⟩ := processModuleEvent_ok hrun
  cases hprocessed with
  | load m htype hload hsettle =>
      obtain ⟨-, -, -, k, hflush, -, rfl⟩ := loadModule_ok hload
      have hk := flushBeforeModule_books h hflush
      unfold Books
      rw [settleModule_ledger hsettle]
      exact hk
  | unload existing m htype hlive hunload hsettle =>
      obtain ⟨k, hflush, -, rfl⟩ := unloadModule_ok hunload
      have hk := flushBeforeModule_books h hflush
      unfold Books
      rw [settleModule_ledger hsettle]
      exact hk
  | unknown htype hlive hstate =>
      rw [hstate]
      exact h

theorem captureMemorySnapshot_ledger {now : ℕ} {samples : List (ℕ → MemoryRecord)} {u : Unit}
    (hrun : captureMemorySnapshot options now samples w = .ok u w') : ledger w' = ledger w := by
  rcases captureMemorySnapshot_ok hrun with ⟨-, rfl⟩ | ⟨-, ticks, -, ⟨-, rfl⟩ | ⟨-, written, hwrite⟩⟩
  · rfl
  · rfl
  · have heq := writeChunk_ledger hwrite
    exact heq

theorem perform_books {action : WriterAction} (h : Books options (fun _ => 0) w)
    (hrun : perform options action w = .ok () w') : Books options (fun _ => 0) w' := by
  cases action with
  | event raw => exact processEvent_books h hrun
  | module raw => exact processModuleEvent_books h hrun
  | flushTick =>
      obtain ⟨_, m, hflush, hstream⟩ := run_bind_eq_ok.mp hrun
      rw [flushStream_ok hstream]
      have hm := flushPending_books h hflush
      exact hm
  | queueDrops count =>
      rw [collectQueueDrops_ok hrun]
      exact h
  | moduleDrops count =>
      rw [collectModuleDrops_ok hrun]
      exact h
  | memory now samples =>
      unfold Books
      rw [captureMemorySnapshot_ledger hrun]
      exact h

theorem start_books (options : WriterOptions) : Books options (fun _ => 0) (.start options) where
  account := fun _ _ => rfl
  pending := by
    change (options.apiIds.map fun _ => 0).sum = 0
    simp
  written := by
    change (options.apiIds.map fun _ => 0).sum = 0
    simp
  dropped := by
    change (options.apiIds.map fun _ => 0).sum = 0
    simp
  pendingStacks := le_refl 0
  writtenStacks := le_refl 0

theorem beginCapture_ledger {baselines : List MemoryBaseline} {u : Unit}
    (hrun : beginCapture options baselines w = .ok u w') : ledger w' = ledger w := by
  obtain ⟨_, m, hmetadata, hrun⟩ := run_bind_eq_ok.mp hrun
  obtain ⟨_, k, hflush, hbaselines⟩ := run_bind_eq_ok.mp hrun
  have hm : ledger m = ledger w := by
    rcases writeMetadata_ok hmetadata with ⟨-, rfl⟩ | ⟨-, file, -, rfl⟩
    · rfl
    · rfl
  have hk : ledger k = ledger m := by
    rw [flushStream_ok hflush]
    rfl
  rcases writeMemoryBaselines_ok hbaselines with ⟨-, rfl⟩ | ⟨-, written, hwrite⟩
  · rw [hk, hm]
  · have heq := writeChunk_ledger hwrite
    rw [heq, ← hm, ← hk]
    rfl

theorem between_books {baselines : List MemoryBaseline} {actions : List WriterAction}
    (h : Between options baselines actions w) : Books options (fun _ => 0) w := by
  obtain ⟨_, m, hbegin, hloop⟩ := run_bind_eq_ok.mp h
  have hm : Books options (fun _ => 0) m := by
    unfold Books
    rw [beginCapture_ledger hbegin]
    exact start_books options
  exact captureLoop_preserves (fun action w w' => perform_books) hm hloop

/-- The states of a capture at the door of `finalize_trace`. -/
def AtFinalize (options : WriterOptions) (baselines : List MemoryBaseline)
    (actions : List WriterAction) (lastSample : Option (ℕ × List (ℕ → MemoryRecord)))
    (w : LinuxTraceWriter) : Prop :=
  ∃ before flushed, Between options baselines actions before ∧
    flushPending options before = .ok () flushed ∧
    (lastSample.forM fun sample => captureMemorySnapshot options sample.1 sample.2) flushed
      = .ok () w

theorem lastSample_ledger {lastSample : Option (ℕ × List (ℕ → MemoryRecord))} {u : Unit}
    (hrun : (lastSample.forM fun sample => captureMemorySnapshot options sample.1 sample.2) w
      = .ok u w') : ledger w' = ledger w := by
  cases lastSample with
  | none =>
      cases hrun
      rfl
  | some sample => exact captureMemorySnapshot_ledger hrun

theorem atFinalize_drained {baselines : List MemoryBaseline} {actions : List WriterAction}
    {lastSample : Option (ℕ × List (ℕ → MemoryRecord))}
    (h : AtFinalize options baselines actions lastSample w) : Drained options w := by
  obtain ⟨before, flushed, hbetween, hflush, hsample⟩ := h
  have hledger := lastSample_ledger hsample
  constructor
  · unfold Books
    rw [hledger]
    exact flushPending_books (between_books hbetween) hflush
  · exact (congrArg Ledger.pendingEvents hledger).trans (flushPending_none hflush)

/-! ## The collected losses touch no count -/

theorem appendLoss_ok {records losses : List EventChunkRecord} {loss : LossRecord}
    (h : appendLoss records loss w = .ok losses w') :
    losses = records ++ [.loss loss] ∧ validateLossRecord loss = .ok () ∧
      ∃ completeness, w.completeness.observeLoss loss = .ok completeness ∧
        w' = { w with completeness := completeness } := by
  unfold appendLoss at h
  simp only [run_bind_eq_ok, run_get_eq_ok, run_set_eq_ok, WriterM.lift_eq_check,
    run_check_eq_ok, run_pure_eq_ok] at h
  obtain ⟨_, _, ⟨rfl, rfl⟩, completeness, _, ⟨hobserve, rfl⟩, _, _, rfl, _, _, ⟨hvalid, rfl⟩,
    rfl, rfl⟩ := h
  exact ⟨rfl, hvalid, completeness, hobserve, rfl⟩

theorem appendCollected_ok {records losses : List EventChunkRecord} {count : ℕ}
    {loss : LossRecord} (h : appendCollected records count loss w = .ok losses w') :
    losses = records ++ (if count = 0 then [] else [.loss loss]) ∧
      ∃ completeness, w' = { w with completeness := completeness } := by
  unfold appendCollected at h
  by_cases hcount : count = 0
  · rw [if_neg (not_not.mpr hcount), run_pure_eq_ok] at h
    obtain ⟨rfl, rfl⟩ := h
    rw [if_pos hcount, List.append_nil]
    exact ⟨rfl, w.completeness, rfl⟩
  · rw [if_pos hcount] at h
    obtain ⟨rfl, -, completeness, -, rfl⟩ := appendLoss_ok h
    rw [if_neg hcount]
    exact ⟨rfl, completeness, rfl⟩

/-- The records of the drop counters. -/
def collectedLosses (w : LinuxTraceWriter) : List EventChunkRecord :=
  (if w.moduleNotificationDrops = 0 then [] else
      [.loss (queueFullLoss w.moduleNotificationDrops)]) ++
    (if w.queueDroppedEvents = 0 then [] else [.loss (queueFullLoss w.queueDroppedEvents)]) ++
    if w.traceDroppedEvents = 0 then [] else [.loss w.traceFullLoss]

theorem appendCollectedLossRecords_ok {losses : List EventChunkRecord}
    (h : appendCollectedLossRecords w = .ok losses w') :
    losses = collectedLosses w ∧ ∃ completeness, w' = { w with completeness := completeness } := by
  unfold appendCollectedLossRecords at h
  obtain ⟨_, _, hget, h⟩ := run_bind_eq_ok.mp h
  obtain ⟨rfl, rfl⟩ := run_get_eq_ok.mp hget
  obtain ⟨first, m, hfirst, h⟩ := run_bind_eq_ok.mp h
  obtain ⟨rfl, c₁, rfl⟩ := appendCollected_ok hfirst
  obtain ⟨second, k, hsecond, h⟩ := run_bind_eq_ok.mp h
  obtain ⟨rfl, c₂, rfl⟩ := appendCollected_ok hsecond
  obtain ⟨rfl, c₃, rfl⟩ := appendCollected_ok h
  exact ⟨rfl, c₃, rfl⟩

theorem writeCollectedLosses_ok {u : Unit} (h : writeCollectedLosses options w = .ok u w') :
    ∃ completeness,
      (collectedLosses w = [] ∧ w' = { w with completeness := completeness }) ∨
      (collectedLosses w ≠ [] ∧ ∃ written, writeChunk options (w.lossChunk (collectedLosses w))
        false { w with completeness := completeness } = .ok written w') := by
  unfold writeCollectedLosses at h
  obtain ⟨losses, m, hlosses, h⟩ := run_bind_eq_ok.mp h
  obtain ⟨rfl, completeness, rfl⟩ := appendCollectedLossRecords_ok hlosses
  refine ⟨completeness, ?_⟩
  by_cases hempty : collectedLosses w = []
  · rw [if_neg (not_not.mpr hempty), run_pure_eq_ok] at h
    exact .inl ⟨hempty, h.2.symm⟩
  · rw [if_pos hempty] at h
    obtain ⟨_, _, hget, h⟩ := run_bind_eq_ok.mp h
    obtain ⟨rfl, rfl⟩ := run_get_eq_ok.mp hget
    obtain ⟨written, k, hwrite, h⟩ := run_bind_eq_ok.mp h
    rw [run_pure_eq_ok] at h
    obtain ⟨-, rfl⟩ := h
    exact .inr ⟨hempty, written, hwrite⟩

theorem writeCollectedLosses_ledger {u : Unit} (h : writeCollectedLosses options w = .ok u w') :
    ledger w' = ledger w := by
  obtain ⟨completeness, ⟨-, rfl⟩ | ⟨-, written, hwrite⟩⟩ := writeCollectedLosses_ok h
  · rfl
  · have heq := writeChunk_ledger hwrite
    exact heq

/-! ## What the finalization can throw -/

/-- The reconciliation checks throw runtime errors, and nothing else of the
finalization does. -/
def NotRuntime : Error → Prop
  | .runtime _ => False
  | _ => True

theorem overflow_notRuntime {e : Error} (h : Overflow e) : NotRuntime e := by
  cases e with
  | overflow what => exact trivial
  | _ => exact h.elim

theorem traceWriter_writeChunk_throws (file : TraceWriter) (trace : TraceWriterOptions)
    (encoding : Encoding) (chunk : Chunk) (compress : Bool) :
    ThrowsOnly NotRuntime (file.writeChunk trace encoding chunk compress) := by
  unfold TraceWriter.writeChunk
  refine (throwsOnly_failIf fun _ => trivial).bind fun _ _ =>
    (throwsOnly_failIf fun _ => trivial).bind fun _ _ => ThrowsOnly.bind ?_ fun _ _ => ?_
  · unfold validateChunkHeader
    exact (throwsOnly_failIf fun _ => trivial).bind fun _ _ => throwsOnly_failIf fun _ => trivial
  · exact throwsOnly_ite (fun _ => throwsOnly_pure _) fun _ =>
      (throwsOnly_failIf fun _ => trivial).bind fun _ _ => throwsOnly_pure _

theorem writeChunk_raises (options : WriterOptions) (chunk : Chunk) (compress : Bool) :
    Raises NotRuntime (writeChunk options chunk compress) := by
  unfold writeChunk streamOperation
  refine Raises.bind (raises_get.bind fun w => (raises_set _).bind fun _ =>
    raises_ite (fun _ => raises_throw trivial) fun _ => raises_pure _) fun _ =>
    raises_get.bind fun w => ?_
  rw [WriterM.lift_eq_check]
  refine (raises_check (traceWriter_writeChunk_throws _ _ _ _ _)).bind fun result => ?_
  cases result with
  | none => exact (raises_set _).bind fun _ => raises_pure _
  | some file => exact (raises_set _).bind fun _ => raises_pure _

theorem validateLossRecord_throws (loss : LossRecord) :
    ThrowsOnly NotRuntime (validateLossRecord loss) := by
  unfold validateLossRecord
  exact (throwsOnly_failIf fun _ => trivial).bind fun _ _ =>
    (throwsOnly_failIf fun _ => trivial).bind fun _ _ => throwsOnly_failIf fun _ => trivial

theorem appendLoss_raises (records : List EventChunkRecord) (loss : LossRecord) :
    Raises NotRuntime (appendLoss records loss) := by
  unfold appendLoss
  refine raises_get.bind fun w => ?_
  rw [WriterM.lift_eq_check, WriterM.lift_eq_check]
  refine (raises_check ?_).bind fun _ => (raises_set _).bind fun _ =>
    (raises_check (validateLossRecord_throws loss)).bind fun _ => raises_pure _
  unfold CompletenessTracker.observeLoss
  exact (throwsOnly_failIf fun _ => trivial).bind fun _ _ =>
    (validateLossRecord_throws loss).bind fun _ _ => throwsOnly_pure _

theorem appendCollected_raises (records : List EventChunkRecord) (count : ℕ) (loss : LossRecord) :
    Raises NotRuntime (appendCollected records count loss) :=
  raises_ite (fun _ => appendLoss_raises records loss) fun _ => raises_pure _

theorem writeCollectedLosses_raises (options : WriterOptions) :
    Raises NotRuntime (writeCollectedLosses options) := by
  unfold writeCollectedLosses appendCollectedLossRecords
  refine Raises.bind (raises_get.bind fun w => (appendCollected_raises _ _ _).bind fun _ =>
    (appendCollected_raises _ _ _).bind fun _ => appendCollected_raises _ _ _) fun losses => ?_
  refine raises_ite (fun _ => raises_get.bind fun w => ?_) fun _ => raises_pure _
  exact (writeChunk_raises options _ _).bind fun _ => raises_pure _

theorem validateCallCounts_throws (observed succeeded failed filtered dropped : ℕ)
    (subject : String) :
    ThrowsOnly NotRuntime
      (validateCallCounts observed succeeded failed filtered dropped subject) := by
  unfold validateCallCounts
  exact (throwsOnly_failIf fun _ => trivial).bind fun _ _ => throwsOnly_failIf fun _ => trivial

theorem checkedTotal_throws (total value : ℕ) : ThrowsOnly NotRuntime (checkedTotal total value) :=
  throwsOnly_ite (fun _ => throwsOnly_error trivial) fun _ => throwsOnly_ok _

theorem validateStatistics_throws (statistics : CaptureStatistics) :
    ThrowsOnly NotRuntime (validateStatistics statistics) := by
  unfold validateStatistics
  refine (validateCallCounts_throws _ _ _ _ _ _).bind fun _ _ =>
    (ThrowsOnly.foldlM (fun scan api _ => ?_) _).bind fun _ _ =>
    (throwsOnly_failIf fun _ => trivial).bind fun _ _ => throwsOnly_failIf fun _ => trivial
  unfold StatisticsScan.step
  exact (throwsOnly_failIf fun _ => trivial).bind fun _ _ =>
    (throwsOnly_failIf fun _ => trivial).bind fun _ _ =>
    (validateCallCounts_throws _ _ _ _ _ _).bind fun _ _ =>
    (checkedTotal_throws _ _).bind fun _ _ => (checkedTotal_throws _ _).bind fun _ _ =>
    (checkedTotal_throws _ _).bind fun _ _ => (checkedTotal_throws _ _).bind fun _ _ =>
    (checkedTotal_throws _ _).bind fun _ _ => throwsOnly_pure _

theorem validateEndOfTrace_throws (trace : EndOfTrace) :
    ThrowsOnly NotRuntime (validateEndOfTrace trace) := by
  unfold validateEndOfTrace
  exact (throwsOnly_failIf fun _ => trivial).bind fun _ _ => throwsOnly_failIf fun _ => trivial

theorem writeTerminalRecords_raises (options : WriterOptions) (statistics : CaptureStatistics) :
    Raises NotRuntime (writeTerminalRecords options statistics) := by
  unfold writeTerminalRecords writeStatistics writeEndOfTrace flushStream streamOperation
  simp only [WriterM.lift_eq_check]
  refine Raises.bind ((raises_check (validateStatistics_throws statistics)).bind fun _ =>
    (writeChunk_raises options _ _).bind fun _ => raises_modify _) fun _ =>
    raises_get.bind fun w => Raises.bind ((raises_check (validateEndOfTrace_throws _)).bind fun _ =>
    (writeChunk_raises options _ _).bind fun _ => raises_modify _) fun _ => ?_
  exact raises_get.bind fun w => (raises_set _).bind fun _ =>
    raises_ite (fun _ => raises_throw trivial) fun _ => raises_pure _

/-! ## The result -/

/-- The conservation law of the writer's counters. -/
structure Conserved (options : WriterOptions) (w : LinuxTraceWriter) : Prop where
  perApi : ∀ api ∈ options.apiIds, (w.counters api).successful + (w.counters api).failed =
    (w.counters api).pending + (w.counters api).written + (w.counters api).traceDropped
  pending : w.totalOf options ApiCounters.pending = w.pendingEventCount
  dropped : w.totalOf options ApiCounters.traceDropped = w.traceDroppedEvents

theorem Ledger.Balanced.conserved (h : Books options (fun _ => 0) w) : Conserved options w where
  perApi := h.account
  pending := h.pending
  dropped := h.dropped

theorem Drained.congr (h : Drained options w) (hledger : ledger w' = ledger w) :
    Drained options w' := by
  refine ⟨?_, (congrArg Ledger.pendingEvents hledger).trans h.none⟩
  unfold Books
  rw [hledger]
  exact h.books

/-- Past the release of the reserve and the Loss chunk the statistics are computed from
the same books. -/
theorem finalizeTrace_notRuntime
    (hstatistics : ∀ m, ledger m = ledger w → ThrowsOnly Overflow (m.makeStatistics options))
    {e : Error} (hrun : finalizeTrace options w = .error e w') : NotRuntime e := by
  unfold finalizeTrace releaseReserve at hrun
  rcases run_bind_eq_error.mp hrun with hrelease | ⟨_, m, hrelease, hrun⟩
  · cases hrelease
  obtain rfl := run_modify_eq_ok.mp hrelease
  rcases run_bind_eq_error.mp hrun with hlosses | ⟨_, m, hlosses, hrun⟩
  · exact writeCollectedLosses_raises options _ _ _ hlosses
  have hledger := writeCollectedLosses_ledger hlosses
  rcases run_bind_eq_error.mp hrun with hget | ⟨_, _, hget, hrun⟩
  · cases hget
  obtain ⟨rfl, rfl⟩ := run_get_eq_ok.mp hget
  rw [WriterM.lift_eq_check] at hrun
  rcases run_bind_eq_error.mp hrun with hthrow | ⟨statistics, k, -, hrun⟩
  · exact overflow_notRuntime (raises_check (hstatistics m hledger) _ _ _ hthrow)
  · exact writeTerminalRecords_raises options statistics _ _ _ hrun

/-- The state in which the finalization computes its statistics. -/
theorem beforeStatistics_ledger {u : Unit}
    (h : (do releaseReserve; writeCollectedLosses options : WriterM Unit) w = .ok u w') :
    ledger w' = ledger w := by
  obtain ⟨_, k, hrelease, hlosses⟩ := run_bind_eq_ok.mp h
  obtain rfl := run_modify_eq_ok.mp hrelease
  have hledger := writeCollectedLosses_ledger hlosses
  exact hledger

/-- In every state of a capture between two actions, at the end of its flushes, and
when its statistics are computed, each API's records are pending, written or dropped;
so without a counter source the reconciliation never throws, and the statistics
`finalize_trace` emits validate. -/
theorem per_api_conservation (options : WriterOptions) (baselines : List MemoryBaseline)
    (actions : List WriterAction) (lastSample : Option (ℕ × List (ℕ → MemoryRecord))) :
    (∀ w, Between options baselines actions w → Conserved options w) ∧
    (∀ w flushed, Between options baselines actions w →
      flushPending options w = .ok () flushed → Conserved options flushed) ∧
    ∀ w, AtFinalize options baselines actions lastSample w →
      Conserved options w ∧ w.pendingEventCount = 0 ∧
      (options.counterSource = none →
        (∀ text after, finalizeTrace options w ≠ .error (.runtime text) after) ∧
        ∀ m, (do releaseReserve; writeCollectedLosses options : WriterM Unit) w = .ok () m →
          (∀ text, m.makeStatistics options ≠ .error (.runtime text)) ∧
          ∀ statistics, m.makeStatistics options = .ok statistics →
            validateStatistics statistics = .ok ()) := by
  refine ⟨fun w h => (between_books h).conserved,
    fun w flushed h hflush => (flushPending_books (between_books h) hflush).conserved, ?_⟩
  intro w hw
  have hdrained := atFinalize_drained hw
  refine ⟨hdrained.books.conserved, hdrained.none, fun hsource => ⟨?_, ?_⟩⟩
  · intro text after hrun
    exact finalizeTrace_notRuntime
      (fun m hledger => makeStatistics_throws (hdrained.congr hledger) hsource) hrun
  · intro m hm
    have hm := hdrained.congr (beforeStatistics_ledger hm)
    refine ⟨fun text hthrow => ?_, fun statistics => drained_statistics_valid hm hsource⟩
    exact makeStatistics_throws hm hsource _ hthrow

/-! ### A small capture -/

/-- Round sizes, and a compressor that halves. -/
def sampleEncoding : Encoding where
  metadata := fun _ => 32
  module := fun _ => 96
  stack := fun _ => 56
  event := fun _ => 96
  memory := fun _ => 40
  compressed := fun
    | .events records => 48 * records.length
    | _ => 64

/-- A process-start capture without custom hooks into a megabyte. -/
def sampleOptions : WriterOptions where
  monotonicOrigin := 10
  captureScope := { startedAtProcessStart := true, preexistingAllocationsUnknown := false }
  flushInterval := 250000000
  memoryCountersInterval := 0
  memoryMapInterval := 0
  customHooks := 0
  customHookFailures := 0
  bufferConfiguration := false
  processId := 42
  chunkTargetSize := 65536
  stackDictionaryCapacity := 16
  maximumRecordSize := 65536
  trace := {
    maxFileSize := 1048576
    maxUncompressedChunkSize := 65536
    maxStoredChunkSize := 131072
    reservedTailSize := 2048 }
  encoding := sampleEncoding
  fault := fun _ => false
  counterSource := none

theorem sampleOptions_accepted : sampleOptions.Accepted :=
  ⟨⟨sampleOptions, rfl⟩, rfl⟩

/-- The n-th event of a thread that allocates. -/
def sampleAllocation (sequence : ℕ) : LinuxHeapEvent where
  queueSequence := sequence
  monotonicTicks := 10 + sequence
  threadId := 1
  requestedSize := 32
  resultAddress := 4096 * sequence
  apiId := LinuxLogicalHookApi.malloc.apiId
  operation := .allocate
  status := .success

/-- One allocation is pending between two actions, and written once the events are
flushed. -/
theorem per_api_conservation_allocation :
    (∃ w, Between sampleOptions [] [.event (sampleAllocation 1)] w ∧ w.pendingEventCount = 1 ∧
      Conserved sampleOptions w) ∧
    ∃ w, AtFinalize sampleOptions [] [.event (sampleAllocation 1)] none w ∧
      w.writtenEvents = 1 ∧ Conserved sampleOptions w ∧
      ∀ text after, finalizeTrace sampleOptions w ≠ .error (.runtime text) after := by
  obtain ⟨conserved, -, final⟩ :=
    per_api_conservation sampleOptions [] [.event (sampleAllocation 1)] none
  constructor
  · have hrun : wp (do
        beginCapture sampleOptions []
        captureLoop sampleOptions [.event (sampleAllocation 1)] : WriterM Unit)
        (fun _ w => w.pendingEventCount = 1) (fun _ _ => False) (.start sampleOptions) := by
      decide +kernel
    obtain ⟨_, w, hrun, hcount⟩ := wp_run hrun
    exact ⟨w, hrun, hcount, conserved w hrun⟩
  · have hrun : wp (do
        beginCapture sampleOptions []
        captureLoop sampleOptions [.event (sampleAllocation 1)]
        flushPending sampleOptions : WriterM Unit)
        (fun _ w => w.writtenEvents = 1) (fun _ _ => False) (.start sampleOptions) := by
      decide +kernel
    obtain ⟨_, k, hrun, hcount⟩ := wp_run hrun
    obtain ⟨_, m, hbegin, hrun⟩ := run_bind_eq_ok.mp hrun
    obtain ⟨_, w, hloop, hflush⟩ := run_bind_eq_ok.mp hrun
    have hk : AtFinalize sampleOptions [] [.event (sampleAllocation 1)] none k :=
      ⟨w, k, run_bind_eq_ok.mpr ⟨_, m, hbegin, hloop⟩, hflush, rfl⟩
    obtain ⟨hconserved, -, hquiet⟩ := final k hk
    exact ⟨k, hk, hcount, hconserved, (hquiet rfl).1⟩

end Noleax.Capture
