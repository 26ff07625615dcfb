import Noleax.Capture.Reconcile
import Noleax.Capture.Sequences

/-!
# The terminal records

`validate_options` keeps a reserve no data chunk can use, and the terminal records fit
it. So they are written unless the finalization throws before it gets there, which the
counters, the drop range and the size limits of the file writer decide.
-/

namespace Noleax.Capture

open Lib Trace Agent Agent.LinuxTraceWriter

variable {options : WriterOptions} {w w' : LinuxTraceWriter}

/-! ## The file during the capture -/

/-- The file of a running capture keeps its reserve, and nothing has ended it. -/
structure Intact (options : WriterOptions) (w : LinuxTraceWriter) : Prop where
  reserve : w.file.reservedTailSize = options.trace.reservedTailSize
  fits : w.file.Fits options.trace
  unended : w.completeness.sawEndOfTrace = false
  unstopped : CompletenessIssue.abnormalStop ∉ w.completeness.report
  unfinished : w.endOfTraceWritten = false

theorem grown_reserve {a b : TraceWriter} (h : Grown options a b) :
    b.reservedTailSize = a.reservedTailSize := by
  induction h with
  | refl => rfl
  | step h chunk compress hadmits ih => exact ih

theorem grown_fits {a b : TraceWriter} (h : Grown options a b) (ha : a.Fits options.trace) :
    b.Fits options.trace := by
  induction h with
  | refl => exact ha
  | step h chunk compress hadmits ih => exact ih.withChunk hadmits

theorem Intact.filed (h : Intact options w) (hfiled : Filed options w w') :
    Intact options w' := by
  obtain ⟨operations, file, limit, hgrown, -, rfl⟩ := hfiled
  exact ⟨(grown_reserve hgrown).trans h.reserve, grown_fits hgrown h.fits, h.unended, h.unstopped,
    h.unfinished⟩

/-- Members the file and the completeness do not depend on. -/
theorem Intact.same (h : Intact options w) (hfile : w'.file = w.file)
    (hcompleteness : w'.completeness = w.completeness)
    (hend : w'.endOfTraceWritten = w.endOfTraceWritten) : Intact options w' := by
  obtain ⟨hreserve, hfits, hunended, hunstopped, hunfinished⟩ := h
  rw [← hfile] at hreserve hfits
  rw [← hcompleteness] at hunended hunstopped
  rw [← hend] at hunfinished
  exact ⟨hreserve, hfits, hunended, hunstopped, hunfinished⟩

theorem Intact.flush (h : Intact options w) {u : Unit}
    (hrun : flushPending options w = .ok u w') : Intact options w' := by
  rcases flushPending_ok hrun with ⟨-, hmodules⟩ | ⟨-, m, hmodules, hevents⟩
  · obtain ⟨k, hfiled, rfl⟩ := flushModulePayload_filed hmodules
    exact (h.filed hfiled).same rfl rfl rfl
  obtain ⟨k, hfiled, rfl⟩ := flushModulePayload_filed hmodules
  have hk : Intact options { k with modulePayload := [] } := (h.filed hfiled).same rfl rfl rfl
  rcases hevents.cases_limit with ⟨n, hn, -, hdrop⟩ | ⟨n, hn, hnote⟩
  · rcases dropPendingEvents_ok hdrop with ⟨-, rfl⟩ | ⟨-, rfl⟩
    · exact (hk.filed hn).same rfl rfl rfl
    · exact (hk.filed hn).same rfl rfl rfl
  · obtain rfl := notePendingWritten_ok hnote
    exact (hk.filed hn).same rfl rfl rfl

/-- A loss adds its issues and ends nothing. -/
theorem observeLoss_ok {tracker after : CompletenessTracker} {loss : LossRecord}
    (h : tracker.observeLoss loss = .ok after) :
    validateLossRecord loss = .ok () ∧ after.sawEndOfTrace = tracker.sawEndOfTrace ∧
      after.report = tracker.report ∪ CompletenessTracker.lossIssues loss.reason := by
  unfold CompletenessTracker.observeLoss at h
  rw [failIf_bind_eq_ok, bind_eq_ok] at h
  obtain ⟨-, ⟨⟩, hvalid, h⟩ := h
  cases h
  exact ⟨hvalid, rfl, rfl⟩

theorem lossIssues_unstopped (reason : LossReason) :
    CompletenessIssue.abnormalStop ∉ CompletenessTracker.lossIssues reason := by
  cases reason <;> decide

theorem Intact.entered (h : Intact options w) {raw : LinuxHeapEvent} {m : LinuxTraceWriter}
    (entry : Entered options raw w m) : Intact options m := by
  obtain ⟨plan, vm, loss, completeness, -, -, -, -, -, hobserved, rfl⟩ := entry
  rcases hobserved with ⟨-, -, rfl⟩ | ⟨-, -, hobserve⟩
  · exact h.same rfl rfl rfl
  · obtain ⟨-, hsaw, hreport⟩ := observeLoss_ok hobserve
    refine ⟨h.reserve, h.fits, hsaw.trans h.unended, ?_, h.unfinished⟩
    change _ ∉ completeness.report
    rw [hreport, Finset.mem_union]
    rintro (hmem | hmem)
    · exact h.unstopped hmem
    · exact lossIssues_unstopped _ hmem

theorem processEvent_intact (h : Intact options w) {raw : LinuxHeapEvent} {u : Unit}
    (hrun : processEvent options raw w = .ok u w') : Intact options w' := by
  obtain ⟨m, entry, hsettled⟩ := processEvent_ok hrun
  have hm := h.entered entry
  have hensured : ∀ k, ensurePendingCapacity options (eventRecordCount raw entry.plan) m
      = .ok () k → Intact options k := by
    intro k hensure
    rcases ensurePendingCapacity_ok hensure with rfl | ⟨-, hflush⟩
    · exact hm
    · exact hm.flush hflush
  cases hsettled with
  | past hlimit hdrop =>
      rw [hdrop]
      exact hm.same rfl rfl rfl
  | reached k hlimit hensure hreached hdrop =>
      rw [hdrop]
      exact (hensured k hensure).same rfl rfl rfl
  | buffered k hlimit hensure hbelow hbuffer =>
      obtain ⟨n, happend, hbuffered⟩ := bufferEvent_ok hbuffer
      obtain ⟨addition, heap, records, -, -, -, hn⟩ := appendEvent_ok happend
      have hn : Intact options n := by
        rw [hn]
        exact (hensured k hensure).same rfl rfl rfl
      rcases hbuffered with rfl | hflush
      · exact hn
      · exact hn.flush hflush

theorem processModuleEvent_intact (h : Intact options w) {raw : RawModuleEvent} {u : Unit}
    (hrun : processModuleEvent options raw w = .ok u w') : Intact options w' := by
  obtain ⟨-, ticks, -, hprocessed⟩ := processModuleEvent_ok hrun
  have hbefore : ∀ k, flushBeforeModule options w = .ok () k → Intact options k := by
    intro k hflush
    rcases flushBeforeModule_ok hflush with ⟨-, rfl⟩ | ⟨-, hflush⟩
    · exact h
    · exact h.flush hflush
  have hsettled : ∀ k, Intact options k → settleModule options ticks k = .ok () w' →
      Intact options w' := by
    intro k hk hsettle
    have hk : Intact options { k with lastModuleTicks := ticks } := hk.same rfl rfl rfl
    rcases settleModule_ok hsettle with rfl | hflush
    · exact hk
    · obtain ⟨n, hfiled, rfl⟩ := flushModulePayload_filed hflush
      exact (hk.filed hfiled).same rfl rfl rfl
  cases hprocessed with
  | load m htype hload hsettle =>
      obtain ⟨-, -, -, k, hflush, -, rfl⟩ := loadModule_ok hload
      have hk := hbefore k hflush
      exact hsettled (k.loadedModule raw ticks) (hk.same rfl rfl rfl) hsettle
  | unload existing m htype hlive hunload hsettle =>
      obtain ⟨k, hflush, -, rfl⟩ := unloadModule_ok hunload
      have hk := hbefore k hflush
      exact hsettled (k.unloadedModule raw.baseAddress existing.moduleId ticks) (hk.same rfl rfl rfl)
        hsettle
  | unknown htype hlive hstate =>
      rw [hstate]
      exact h.same rfl rfl rfl

theorem Intact.sample (h : Intact options w) {now : ℕ} {samples : List (ℕ → MemoryRecord)}
    {u : Unit} (hrun : captureMemorySnapshot options now samples w = .ok u w') :
    Intact options w' := by
  rcases captureMemorySnapshot_ok hrun with ⟨-, rfl⟩ | ⟨-, ticks, -, ⟨-, rfl⟩ | ⟨-, written, hwrite⟩⟩
  · exact h
  · exact h.same rfl rfl rfl
  · have hw : Intact options { w with lastMemoryTicks := ticks } := h.same rfl rfl rfl
    exact hw.filed (writeChunk_filed hwrite)

theorem perform_intact {action : WriterAction} (h : Intact options w)
    (hrun : perform options action w = .ok () w') : Intact options w' := by
  cases action with
  | event raw => exact processEvent_intact h hrun
  | module raw => exact processModuleEvent_intact h hrun
  | flushTick =>
      obtain ⟨_, m, hflush, hstream⟩ := run_bind_eq_ok.mp hrun
      rw [flushStream_ok hstream]
      exact (h.flush hflush).same rfl rfl rfl
  | queueDrops count =>
      rw [collectQueueDrops_ok hrun]
      exact h.same rfl rfl rfl
  | moduleDrops count =>
      rw [collectModuleDrops_ok hrun]
      exact h.same rfl rfl rfl
  | memory now samples => exact h.sample hrun

theorem start_intact (haccepted : options.Accepted) : Intact options (.start options) := by
  have hlimits := haccepted.limits
  refine ⟨rfl, ⟨rfl, ?_⟩, ?_, ?_, rfl⟩
  · change fileHeaderSize + options.trace.reservedTailSize ≤ options.trace.maxFileSize
    have := hlimits.header
    have := hlimits.file
    omega
  · unfold LinuxTraceWriter.start
    dsimp only
    split
    · rfl
    · rfl
  · have hstart : CompletenessIssue.abnormalStop ∉
        (CompletenessTracker.start options.captureScope).report := by
      rcases options.captureScope with ⟨started, unknown⟩
      cases started <;> cases unknown <;> decide
    unfold LinuxTraceWriter.start
    dsimp only
    split
    · exact hstart
    · change _ ∉ insert _ _
      rw [Finset.mem_insert]
      rintro (heq | hmem)
      · cases heq
      · exact hstart hmem

theorem writeMetadata_intact (h : Intact options w) {u : Unit}
    (hrun : writeMetadata options w = .ok u w') : Intact options w' := by
  rcases writeMetadata_ok hrun with ⟨-, rfl⟩ | ⟨-, file, hwrite, rfl⟩
  · exact h
  · obtain ⟨hadmits, rfl⟩ := TraceWriter.writeChunk_eq_some.mp hwrite
    exact ⟨h.reserve, h.fits.withChunk hadmits, h.unended, h.unstopped, h.unfinished⟩

theorem beginCapture_intact (h : Intact options w) {baselines : List MemoryBaseline} {u : Unit}
    (hrun : beginCapture options baselines w = .ok u w') : Intact options w' := by
  obtain ⟨_, m, hmetadata, hrun⟩ := run_bind_eq_ok.mp hrun
  obtain ⟨_, k, hflush, hbaselines⟩ := run_bind_eq_ok.mp hrun
  have hk : Intact options k := by
    rw [flushStream_ok hflush]
    exact (writeMetadata_intact h hmetadata).same rfl rfl rfl
  rcases writeMemoryBaselines_ok hbaselines with ⟨-, rfl⟩ | ⟨-, written, hwrite⟩
  · exact hk
  · have hk : Intact options { k with lastMemoryTicks := k.baselineTicks baselines } :=
      hk.same rfl rfl rfl
    exact hk.filed (writeChunk_filed hwrite)

theorem between_intact (haccepted : options.Accepted) {baselines : List MemoryBaseline}
    {actions : List WriterAction} (h : Between options baselines actions w) :
    Intact options w := by
  obtain ⟨_, m, hbegin, hloop⟩ := run_bind_eq_ok.mp h
  exact captureLoop_preserves (fun action w w' => perform_intact)
    (beginCapture_intact (start_intact haccepted) hbegin) hloop

theorem atFinalize_intact (haccepted : options.Accepted) {baselines : List MemoryBaseline}
    {actions : List WriterAction} {lastSample : Option (ℕ × List (ℕ → MemoryRecord))}
    (h : AtFinalize options baselines actions lastSample w) : Intact options w := by
  obtain ⟨before, flushed, hbetween, hflush, hsample⟩ := h
  have hflushed := (between_intact haccepted hbetween).flush hflush
  cases lastSample with
  | none =>
      cases hsample
      exact hflushed
  | some sample => exact hflushed.sample hsample

end Noleax.Capture
