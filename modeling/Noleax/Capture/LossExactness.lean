import Noleax.Capture.ErrorTail

/-!
# Loss accounting on every exit

The finalization and the error tail report the same drop counters. A run that fails
between the two, with its Loss chunk already in the file, reports every drop twice;
every other exit reports each drop once.
-/

namespace Noleax.Capture

open Lib Trace Agent Agent.LinuxTraceWriter

variable {options : WriterOptions} {w w' : LinuxTraceWriter}

/-- The file reports the drops the members have counted, each once. -/
structure Exact (w : LinuxTraceWriter) : Prop where
  queueFull : reportedLosses .queueFull w.file.chunks =
    w.queueDroppedEvents + w.moduleNotificationDrops
  traceFull : reportedLosses .traceFull w.file.chunks = w.traceDroppedEvents

/-! ## The collected losses -/

/-- What the drop counters amount to for `reason`. -/
def countedDrops (w : LinuxTraceWriter) : LossReason → ℕ
  | .queueFull => w.queueDroppedEvents + w.moduleNotificationDrops
  | .traceFull => w.traceDroppedEvents
  | _ => 0

theorem sameDrops_counted (h : SameDrops w w') (reason : LossReason) :
    countedDrops w' reason = countedDrops w reason := by
  obtain ⟨hqueue, hmodules, htrace⟩ := h
  unfold countedDrops
  rw [hqueue, hmodules, htrace]

theorem exact_iff : Exact w ↔
    ∀ reason, DropReason reason → reportedLosses reason w.file.chunks = countedDrops w reason := by
  constructor
  · rintro ⟨hqueue, htrace⟩ reason (rfl | rfl)
    · exact hqueue
    · exact htrace
  · intro h
    exact ⟨h .queueFull (.inl rfl), h .traceFull (.inr rfl)⟩

theorem lossTotal_collected {reason : LossReason} (hreason : DropReason reason) :
    lossTotal reason (collectedLosses w) = countedDrops w reason := by
  have hpart : ∀ (count : ℕ) (loss : LossRecord), loss.estimatedEventCount = some count →
      lossTotal reason (if count = 0 then [] else [.loss loss]) =
        if loss.reason = reason then count else 0 := by
    intro count loss hcount
    by_cases hzero : count = 0
    · rw [if_pos hzero, hzero]
      simp [lossTotal]
    · rw [if_neg hzero]
      simp [lossTotal, lossCount, hcount]
  unfold collectedLosses
  rw [lossTotal_append, lossTotal_append, hpart _ (queueFullLoss _) rfl,
    hpart _ (queueFullLoss _) rfl, hpart _ w.traceFullLoss rfl]
  unfold queueFullLoss traceFullLoss countedDrops
  rcases hreason with rfl | rfl <;> simp [Nat.add_comm]

/-- The collected losses are empty when no drop is counted. -/
theorem collectedLosses_eq_nil :
    collectedLosses w = [] ↔ ∀ reason, DropReason reason → countedDrops w reason = 0 := by
  constructor
  · intro h reason hreason
    rw [← lossTotal_collected hreason, h]
    rfl
  · intro h
    have hqueue := h .queueFull (.inl rfl)
    have htrace := h .traceFull (.inr rfl)
    unfold countedDrops at hqueue htrace
    dsimp only at hqueue htrace
    unfold collectedLosses
    rw [if_pos (by omega), if_pos (by omega), if_pos htrace]
    rfl

/-! ## The tail -/

theorem chunkLosses_errorLoss {reason : LossReason} (hreason : DropReason reason) (n : ℕ) :
    chunkLosses reason (w.errorLossChunk n) = countedDrops w reason := by
  change lossTotal reason (collectedLosses w ++ [.loss (writerErrorLoss n)]) = _
  rw [lossTotal_append, lossTotal_collected hreason]
  rcases hreason with rfl | rfl <;> rfl

/-- A tail reports every drop, whatever the file already reports. -/
theorem tail_reported (h : TailWritten options w w')
    (huntried : w.errorTailAttempted = false) (hunfinished : w.endOfTraceWritten = false) :
    SameDrops w w' ∧ ∀ reason, DropReason reason → reportedLosses reason w'.file.chunks =
      reportedLosses reason w.file.chunks + countedDrops w reason := by
  obtain ⟨hdrops, unwritten, terminal, trace, hchunks, hterminal⟩ :=
    h.chunks huntried hunfinished
  refine ⟨hdrops, fun reason hreason => ?_⟩
  have hzero : reportedLosses reason (terminal ++ [{ payload := .endOfTrace trace }]) = 0 := by
    rcases hterminal with rfl | ⟨statistics, rfl⟩ <;> rfl
  have htail : reportedLosses reason (w.errorLossChunk unwritten ::
      (terminal ++ [{ payload := .endOfTrace trace }])) = countedDrops w reason := by
    change chunkLosses reason _ + reportedLosses reason (terminal ++ _) = _
    rw [hzero, chunkLosses_errorLoss hreason, Nat.add_zero]
  rw [hchunks, reportedLosses_append, htail]

/-- A tail is exact if and only if no drop was reported before it. -/
theorem tail_exact_iff (h : TailWritten options w w')
    (huntried : w.errorTailAttempted = false) (hunfinished : w.endOfTraceWritten = false) :
    Exact w' ↔ ∀ reason, DropReason reason → reportedLosses reason w.file.chunks = 0 := by
  obtain ⟨hdrops, hreported⟩ := tail_reported h huntried hunfinished
  rw [exact_iff]
  constructor
  · intro hexact reason hreason
    have heq := hexact reason hreason
    rw [hreported reason hreason, sameDrops_counted hdrops] at heq
    omega
  · intro hnone reason hreason
    rw [hreported reason hreason, hnone reason hreason, sameDrops_counted hdrops, Nat.zero_add]

theorem tail_skipped (h : TailWritten options w w') (hend : w.endOfTraceWritten = true) :
    w' = w := by
  rcases writeErrorTail_ok h.1 with ⟨-, heq⟩ | ⟨-, hunfinished, -⟩
  · exact heq
  · rw [hend] at hunfinished
    cases hunfinished

/-! ## The finalization -/

/-- What has been reported and counted since `before`: nothing new. -/
structure Tallied (before w : LinuxTraceWriter) : Prop where
  reported : ∀ reason, DropReason reason →
    reportedLosses reason w.file.chunks = reportedLosses reason before.file.chunks
  drops : SameDrops before w
  untried : w.errorTailAttempted = before.errorTailAttempted

theorem Tallied.refl (w : LinuxTraceWriter) : Tallied w w := ⟨fun _ _ => rfl, ⟨rfl, rfl, rfl⟩, rfl⟩

/-- Members the tally does not depend on. -/
theorem Tallied.same {before : LinuxTraceWriter} (h : Tallied before w)
    (hfile : w'.file.chunks = w.file.chunks) (hdrops : SameDrops w w')
    (htail : w'.errorTailAttempted = w.errorTailAttempted) : Tallied before w' where
  reported := hfile ▸ h.reported
  drops := h.drops.trans hdrops
  untried := htail.trans h.untried

theorem writeChunk_tallied {before : LinuxTraceWriter} {chunk : Chunk} {compress : Bool}
    (hchunk : ∀ reason, DropReason reason → chunkLosses reason chunk = 0) :
    Keeps (Tallied before) (writeChunk options chunk compress) := by
  refine writeChunk_keeps (fun _ h => h.same rfl ⟨rfl, rfl, rfl⟩ rfl)
    (fun _ h => h.same rfl ⟨rfl, rfl, rfl⟩ rfl) fun w h _ => ?_
  refine ⟨fun reason hreason => ?_, h.drops.trans ⟨rfl, rfl, rfl⟩, h.untried⟩
  change reportedLosses reason (w.file.chunks ++ [chunk]) = _
  rw [reportedLosses_append, reportedLosses_singleton, hchunk reason hreason, Nat.add_zero]
  exact h.reported reason hreason

theorem streamOperation_tallied {before : LinuxTraceWriter} (what : String) :
    Keeps (Tallied before) (streamOperation options what) := by
  unfold streamOperation
  exact keeps_get_bind fun w h => Keeps.bind (keeps_set (h.same rfl ⟨rfl, rfl, rfl⟩ rfl)) fun _ =>
    keeps_ite (fun _ => keeps_throw _) fun _ => keeps_pure _

/-- Past the Loss chunk the finalization reports nothing. -/
theorem writeTerminalRecords_tallied {before : LinuxTraceWriter} (statistics : CaptureStatistics) :
    Keeps (Tallied before) (writeTerminalRecords options statistics) := by
  unfold writeTerminalRecords writeStatistics writeEndOfTrace flushStream writeTerminalChunk
  simp only [WriterM.lift_eq_check]
  refine Keeps.bind ((keeps_check _).bind fun _ =>
    (writeChunk_tallied fun _ _ => rfl).bind fun _ =>
    keeps_modify fun w h => h.same rfl ⟨rfl, rfl, rfl⟩ rfl)
    fun _ => keeps_get_bind fun w h => ?_
  exact Keeps.bind ((keeps_check _).bind fun _ =>
    (writeChunk_tallied fun _ _ => rfl).bind fun _ =>
    keeps_modify fun w h => h.same rfl ⟨rfl, rfl, rfl⟩ rfl)
    fun _ => streamOperation_tallied _

/-- The members a chunk write leaves alone when it throws. -/
theorem writeCollectedLosses_error {e : Error} (h : writeCollectedLosses options w = .error e w') :
    Tallied w w' := by
  unfold writeCollectedLosses at h
  have hcollect : Keeps (Tallied w) appendCollectedLossRecords := by
    unfold appendCollectedLossRecords
    exact keeps_get_bind fun _ _ => (appendCollected_keeps _ _ _ fun _ _ h => h.same rfl ⟨rfl, rfl, rfl⟩ rfl).bind fun _ =>
      (appendCollected_keeps _ _ _ fun _ _ h => h.same rfl ⟨rfl, rfl, rfl⟩ rfl).bind fun _ =>
      appendCollected_keeps _ _ _ fun _ _ h => h.same rfl ⟨rfl, rfl, rfl⟩ rfl
  rcases run_bind_eq_error.mp h with h | ⟨losses, m, hrun, h⟩
  · exact hcollect.error (Tallied.refl w) h
  have hm := hcollect.ok (Tallied.refl w) hrun
  split at h
  · rcases run_bind_eq_error.mp h with h | ⟨_, _, hget, h⟩
    · cases h
    obtain ⟨rfl, rfl⟩ := run_get_eq_ok.mp hget
    rcases run_bind_eq_error.mp h with h | ⟨written, k, -, h⟩
    · -- a write that throws has added no chunk
      unfold writeTerminalChunk writeChunk at h
      rcases run_bind_eq_error.mp h with h | ⟨_, n, hrun, h⟩
      · exact (streamOperation_tallied _).error hm h
      have hn := (streamOperation_tallied _).ok hm hrun
      rw [run_bind, run_get] at h
      dsimp only at h
      rw [WriterM.lift_eq_check] at h
      rcases run_bind_eq_error.mp h with h | ⟨result, k, hcheck, h⟩
      · exact (keeps_check _).error hn h
      · cases result <;> cases h
    · cases h
  · cases h

/-- The Loss chunk of an accepted configuration never meets the file limit. -/
theorem writeCollectedLosses_chunks {u : Unit}
    (hroom : w.file.bytesWritten + (chunkHeaderSize + 3 * lossRecordSize) ≤
      options.trace.maxFileSize - w.file.reservedTailSize)
    (h : writeCollectedLosses options w = .ok u w') :
    w'.file.chunks = w.file.chunks ++ lossChunks w ∧ SameDrops w w' ∧
      w'.errorTailAttempted = w.errorTailAttempted := by
  obtain ⟨completeness, ⟨hempty, rfl⟩ | ⟨hsome, written, hwrite⟩⟩ := writeCollectedLosses_ok h
  · unfold lossChunks
    rw [if_pos hempty, List.append_nil]
    exact ⟨rfl, ⟨rfl, rfl, rfl⟩, rfl⟩
  · unfold lossChunks
    rw [if_neg hsome]
    rcases writeChunk_ok hwrite with ⟨-, file, hfile, rfl⟩ | ⟨-, hnone, -⟩
    · obtain ⟨-, rfl⟩ := TraceWriter.writeChunk_eq_some.mp hfile
      exact ⟨rfl, ⟨rfl, rfl, rfl⟩, rfl⟩
    · have hexceeds := TraceWriter.writeChunk_eq_none hnone
      have hle := lossBytes_le options w
      change ExceedsFileLimit w.file.bytesWritten (lossBytes options w)
        (options.trace.maxFileSize - w.file.reservedTailSize) at hexceeds
      change _ ∨ _ < w.file.bytesWritten ∨ options.trace.maxFileSize - w.file.reservedTailSize -
        w.file.bytesWritten < _ at hexceeds
      unfold lossRecordSize recordHeaderSize chunkHeaderSize maxU64 at *
      omega

/-! ## Whole runs -/

/-- A capture up to its finalization. -/
def untilFinalize (options : WriterOptions) (baselines : List MemoryBaseline)
    (actions : List WriterAction) (lastSample : Option (ℕ × List (ℕ → MemoryRecord))) :
    WriterM Unit := do
  beginCapture options baselines
  captureLoop options actions
  flushPending options
  lastSample.forM fun sample => captureMemorySnapshot options sample.1 sample.2

theorem capture_eq (options : WriterOptions) (baselines : List MemoryBaseline)
    (actions : List WriterAction) (lastSample : Option (ℕ × List (ℕ → MemoryRecord))) :
    capture options baselines actions lastSample =
      (untilFinalize options baselines actions lastSample >>= fun _ => finalizeTrace options) := by
  unfold capture untilFinalize
  funext w
  simp only [run_bind]
  cases beginCapture options baselines w with
  | error e m => rfl
  | ok u m =>
      dsimp only
      cases captureLoop options actions m with
      | error e m => rfl
      | ok u m =>
          dsimp only
          cases flushPending options m with
          | error e m => rfl
          | ok u m => rfl

theorem atFinalize_iff {baselines : List MemoryBaseline} {actions : List WriterAction}
    {lastSample : Option (ℕ × List (ℕ → MemoryRecord))} :
    AtFinalize options baselines actions lastSample w ↔
      untilFinalize options baselines actions lastSample (.start options) = .ok () w := by
  unfold AtFinalize untilFinalize Between
  simp only [run_bind_eq_ok]
  constructor
  · rintro ⟨before, flushed, ⟨_, m, hbegin, hloop⟩, hflush, hsample⟩
    exact ⟨(), m, hbegin, (), before, hloop, (), flushed, hflush, hsample⟩
  · rintro ⟨_, m, hbegin, _, before, hloop, _, flushed, hflush, hsample⟩
    exact ⟨before, flushed, ⟨(), m, hbegin, hloop⟩, hflush, hsample⟩

theorem untilFinalize_dropFree (baselines : List MemoryBaseline) (actions : List WriterAction)
    (lastSample : Option (ℕ × List (ℕ → MemoryRecord))) :
    Keeps DropFree (untilFinalize options baselines actions lastSample) := by
  unfold untilFinalize
  refine (beginCapture_dropFree baselines).bind fun _ => (captureLoop_dropFree actions).bind
    fun _ => flushPending_dropFree.bind fun _ => ?_
  cases lastSample with
  | none => exact keeps_pure _
  | some sample => exact captureMemorySnapshot_dropFree sample.1 sample.2

theorem atFinalize_dropFree {baselines : List MemoryBaseline} {actions : List WriterAction}
    {lastSample : Option (ℕ × List (ℕ → MemoryRecord))}
    (h : AtFinalize options baselines actions lastSample w) : DropFree w :=
  (untilFinalize_dropFree baselines actions lastSample).ok (start_dropFree options)
    (atFinalize_iff.mp h)

/-- The run failed in its finalization, past the Loss chunk and before the end. -/
def FailsAfterLoss (options : WriterOptions) (baselines : List MemoryBaseline)
    (actions : List WriterAction) (lastSample : Option (ℕ × List (ℕ → MemoryRecord)))
    (w : LinuxTraceWriter) : Prop :=
  w.endOfTraceWritten = false ∧ ∃ before m, AtFinalize options baselines actions lastSample before ∧
    (do releaseReserve; writeCollectedLosses options : WriterM Unit) before = .ok () m ∧
    collectedLosses before ≠ []

/-- The Loss chunk of a finalization reports every drop. -/
theorem releasedLosses_reported (haccepted : options.Accepted) (hintact : Intact options w)
    (hfree : DropFree w) {m : LinuxTraceWriter}
    (h : (do releaseReserve; writeCollectedLosses options : WriterM Unit) w = .ok () m) :
    SameDrops w m ∧ m.errorTailAttempted = false ∧ ∀ reason, DropReason reason →
      reportedLosses reason m.file.chunks = countedDrops w reason := by
  obtain ⟨_, k, hrelease, hlosses⟩ := run_bind_eq_ok.mp h
  obtain rfl := run_modify_eq_ok.mp hrelease
  have hlimits := haccepted.limits
  have hreserve := hlimits.reserve
  have hroom := hintact.fits.room
  rw [hintact.reserve] at hroom
  rw [terminalReserve_eq] at hreserve
  have hspace : w.file.bytesWritten + (chunkHeaderSize + 3 * lossRecordSize) ≤
      options.trace.maxFileSize - 0 := by
    omega
  obtain ⟨hchunks, hdrops, htail⟩ := writeCollectedLosses_chunks hspace hlosses
  refine ⟨⟨hdrops.queue, hdrops.modules, hdrops.trace⟩, htail.trans hfree.untried, ?_⟩
  intro reason hreason
  rw [hchunks, reportedLosses_append]
  change reportedLosses reason w.file.chunks + reportedLosses reason (lossChunks w) = _
  rw [hfree.file reason hreason, Nat.zero_add]
  unfold lossChunks
  split
  · rename_i hempty
    exact (collectedLosses_eq_nil.mp hempty reason hreason).symm
  · rw [reportedLosses_singleton]
    exact lossTotal_collected hreason

theorem finalizeTrace_eq (options : WriterOptions) : finalizeTrace options =
    ((do releaseReserve; writeCollectedLosses options : WriterM Unit) >>= fun _ => do
      let statistics ← WriterM.lift ((← get).makeStatistics options)
      writeTerminalRecords options statistics) := by
  unfold finalizeTrace
  funext w
  simp only [run_bind]
  unfold releaseReserve
  rw [run_modify]

theorem finalStages_tallied {before : LinuxTraceWriter} :
    Keeps (Tallied before) (do
      let statistics ← WriterM.lift ((← get).makeStatistics options)
      writeTerminalRecords options statistics) := by
  refine keeps_get_bind fun w h => ?_
  rw [WriterM.lift_eq_check]
  exact (keeps_check _).bind fun statistics => writeTerminalRecords_tallied statistics

/-- An orderly run is exact. -/
theorem capture_exact (haccepted : options.Accepted) {baselines : List MemoryBaseline}
    {actions : List WriterAction} {lastSample : Option (ℕ × List (ℕ → MemoryRecord))}
    (h : capture options baselines actions lastSample (.start options) = .ok () w) : Exact w := by
  rw [capture_eq] at h
  obtain ⟨_, before, huntil, h⟩ := run_bind_eq_ok.mp h
  have hbefore := atFinalize_iff.mpr huntil
  rw [finalizeTrace_eq] at h
  obtain ⟨_, m, hlosses, h⟩ := run_bind_eq_ok.mp h
  obtain ⟨hdrops, -, hreported⟩ := releasedLosses_reported haccepted
    (atFinalize_intact haccepted hbefore) (atFinalize_dropFree hbefore) hlosses
  have htallied := finalStages_tallied.ok (Tallied.refl m) h
  rw [exact_iff]
  intro reason hreason
  rw [htallied.reported reason hreason, hreported reason hreason,
    sameDrops_counted htallied.drops, sameDrops_counted hdrops]

/-- A run that failed: no drop is reported yet, or all are. -/
theorem capture_failed (haccepted : options.Accepted) {baselines : List MemoryBaseline}
    {actions : List WriterAction} {lastSample : Option (ℕ × List (ℕ → MemoryRecord))} {e : Error}
    (h : capture options baselines actions lastSample (.start options) = .error e w) :
    w.errorTailAttempted = false ∧
    (((∀ reason, DropReason reason → reportedLosses reason w.file.chunks = 0) ∧
        w.endOfTraceWritten = false ∧
        ¬ FailsAfterLoss options baselines actions lastSample w) ∨
      (Exact w ∧ (FailsAfterLoss options baselines actions lastSample w ↔
        w.endOfTraceWritten = false ∧
          ∃ reason, DropReason reason ∧ reportedLosses reason w.file.chunks ≠ 0))) := by
  rw [capture_eq] at h
  rcases run_bind_eq_error.mp h with h | ⟨_, before, huntil, h⟩
  · have hfree := (untilFinalize_dropFree baselines actions lastSample).error
      (start_dropFree options) h
    refine ⟨hfree.untried, .inl ⟨hfree.file, hfree.unfinished, ?_⟩⟩
    rintro ⟨-, before, m, hbefore, -⟩
    rw [atFinalize_iff.mp hbefore] at h
    cases h
  have hbefore := atFinalize_iff.mpr huntil
  have hfree := atFinalize_dropFree hbefore
  have hunique : ∀ other, AtFinalize options baselines actions lastSample other →
      other = before := by
    intro other hother
    have heq := (atFinalize_iff.mp hother).symm.trans huntil
    cases heq
    rfl
  rw [finalizeTrace_eq] at h
  rcases run_bind_eq_error.mp h with h | ⟨_, m, hlosses, h⟩
  · -- the Loss chunk was not written
    have hthrew := h
    rcases run_bind_eq_error.mp h with h | ⟨_, k, hrelease, h⟩
    · cases h
    obtain rfl := run_modify_eq_ok.mp hrelease
    have htallied := writeCollectedLosses_error h
    have hend : Keeps (fun m => m.endOfTraceWritten = false) (writeCollectedLosses options) :=
      writeCollectedLosses_keeps (fun _ _ h => h) fun _ =>
        writeChunk_keeps (fun _ h => h) (fun _ h => h) fun _ h _ => h
    have hunfinished := hend.error (s := { before with file := before.file.releaseFileReserve })
      hfree.unfinished h
    refine ⟨htallied.untried.trans hfree.untried, .inl ⟨?_, hunfinished, ?_⟩⟩
    · intro reason hreason
      exact (htallied.reported reason hreason).trans (hfree.file reason hreason)
    · rintro ⟨-, other, n, hother, hrun, -⟩
      obtain rfl := hunique other hother
      rw [hrun] at hthrew
      cases hthrew
  · obtain ⟨hdrops, huntried, hreported⟩ := releasedLosses_reported haccepted
      (atFinalize_intact haccepted hbefore) hfree hlosses
    have htallied := finalStages_tallied.error (Tallied.refl m) h
    have hw : ∀ reason, DropReason reason →
        reportedLosses reason w.file.chunks = countedDrops before reason := by
      intro reason hreason
      rw [htallied.reported reason hreason, hreported reason hreason]
    refine ⟨htallied.untried.trans huntried, .inr ⟨?_, ?_⟩⟩
    · rw [exact_iff]
      intro reason hreason
      rw [hw reason hreason, sameDrops_counted htallied.drops, sameDrops_counted hdrops]
    · have hsome : collectedLosses before ≠ [] ↔
          ∃ reason, DropReason reason ∧ reportedLosses reason w.file.chunks ≠ 0 := by
        rw [Ne, collectedLosses_eq_nil]
        push Not
        constructor
        · rintro ⟨reason, hreason, hne⟩
          exact ⟨reason, hreason, by rwa [hw reason hreason]⟩
        · rintro ⟨reason, hreason, hne⟩
          exact ⟨reason, hreason, by rwa [hw reason hreason] at hne⟩
      rw [← hsome]
      constructor
      · rintro ⟨hend, other, n, hother, -, hsomething⟩
        obtain rfl := hunique other hother
        exact ⟨hend, hsomething⟩
      · rintro ⟨hend, hne⟩
        exact ⟨hend, before, m, hbefore, hlosses, hne⟩

theorem capture_tail (haccepted : options.Accepted) {baselines : List MemoryBaseline}
    {actions : List WriterAction} {lastSample : Option (ℕ × List (ℕ → MemoryRecord))} {e : Error}
    (h : capture options baselines actions lastSample (.start options) = .error e w)
    (htail : TailWritten options w w') :
    Exact w' ↔ ¬ FailsAfterLoss options baselines actions lastSample w := by
  obtain ⟨huntried, ⟨hnone, hunfinished, hnot⟩ | ⟨hexact, hfails⟩⟩ := capture_failed haccepted h
  · rw [tail_exact_iff htail huntried hunfinished]
    exact ⟨fun _ => hnot, fun _ => hnone⟩
  · rw [hfails]
    cases hend : w.endOfTraceWritten with
    | true =>
        rw [tail_skipped htail hend]
        simp [hexact]
    | false =>
        rw [tail_exact_iff htail huntried hend]
        push Not
        exact ⟨fun h _ => h, fun h => h rfl⟩

/-! ## A capture that never began -/

theorem writeMetadata_tallied {before : LinuxTraceWriter} :
    Keeps (Tallied before) (writeMetadata options) := by
  unfold writeMetadata
  refine keeps_get_bind fun w h => keeps_ite (fun _ => keeps_pure _) fun _ => ?_
  refine Keeps.bind (keeps_modify fun w h => h.same rfl ⟨rfl, rfl, rfl⟩ rfl) fun _ =>
    (streamOperation_tallied _).bind fun _ => keeps_get_bind fun w h => ?_
  rw [WriterM.lift_eq_check]
  refine Keeps.bind_of (keeps_check _) (fun s result t hrun => (run_check_eq_ok.mp hrun).1)
    fun result hwrite => ?_
  cases result with
  | none => exact keeps_throw _
  | some file =>
      obtain ⟨-, rfl⟩ := TraceWriter.writeChunk_eq_some.mp hwrite
      refine keeps_set ⟨fun reason hreason => ?_, h.drops.trans ⟨rfl, rfl, rfl⟩, h.untried⟩
      change reportedLosses reason (w.file.chunks ++ [_]) = _
      rw [reportedLosses_append, reportedLosses_singleton]
      exact h.reported reason hreason

theorem beginCapture_tallied {before : LinuxTraceWriter} (baselines : List MemoryBaseline) :
    Keeps (Tallied before) (beginCapture options baselines) := by
  unfold beginCapture writeMemoryBaselines writeDataChunk
  refine writeMetadata_tallied.bind fun _ => (streamOperation_tallied _).bind fun _ =>
    keeps_ite (fun _ => keeps_pure _) fun _ => ?_
  refine Keeps.bind (keeps_modify fun w h => h.same rfl ⟨rfl, rfl, rfl⟩ rfl) fun _ => ?_
  exact (writeChunk_tallied fun _ _ => rfl).bind fun _ => keeps_pure _

theorem finalizeEmptyTrace_tallied {before : LinuxTraceWriter} :
    Keeps (Tallied before) (finalizeEmptyTrace options) := by
  unfold finalizeEmptyTrace releaseReserve
  refine writeMetadata_tallied.bind fun _ => ?_
  refine Keeps.bind (keeps_modify fun w h => h.same rfl ⟨rfl, rfl, rfl⟩ rfl) fun _ => ?_
  exact writeTerminalRecords_tallied _

theorem Unbegun.tallied (h : Unbegun options w) : Tallied (.start options) w := by
  rcases h with rfl | ⟨baselines, e, hrun⟩
  · exact Tallied.refl _
  · exact (beginCapture_tallied baselines).error (Tallied.refl _) hrun

/-- Nothing is reported and nothing is counted. -/
theorem Tallied.exact (h : Tallied (.start options) w) : Exact w := by
  rw [exact_iff]
  intro reason hreason
  rw [h.reported reason hreason, sameDrops_counted h.drops]
  rcases hreason with rfl | rfl <;> rfl

theorem empty_tail (h : Tallied (.start options) w) (htail : TailWritten options w w') :
    Exact w' := by
  cases hend : w.endOfTraceWritten with
  | true =>
      rw [tail_skipped htail hend]
      exact h.exact
  | false =>
      rw [tail_exact_iff htail h.untried hend]
      intro reason hreason
      rw [h.reported reason hreason]
      rfl

/-! ## The result -/

/-- Every orderly run reports each drop once. A run that fails does so, once its error
tail is written, exactly when it did not fail in the finalization past the Loss chunk of
some drop and before the end; a capture that never began reports nothing. -/
theorem loss_accounting (haccepted : options.Accepted) :
    (∀ baselines actions lastSample w,
      capture options baselines actions lastSample (.start options) = .ok () w → Exact w) ∧
    (∀ baselines actions lastSample e w w',
      capture options baselines actions lastSample (.start options) = .error e w →
      TailWritten options w w' →
      (Exact w' ↔ ¬ FailsAfterLoss options baselines actions lastSample w)) ∧
    (∀ w₀ w, Unbegun options w₀ → finalizeEmptyTrace options w₀ = .ok () w → Exact w) ∧
    ∀ w₀ e w w', Unbegun options w₀ → finalizeEmptyTrace options w₀ = .error e w →
      TailWritten options w w' → Exact w' := by
  refine ⟨fun baselines actions lastSample w h => capture_exact haccepted h,
    fun baselines actions lastSample e w w' h htail => capture_tail haccepted h htail, ?_, ?_⟩
  · intro w₀ w hw₀ hrun
    exact (finalizeEmptyTrace_tallied.ok hw₀.tallied hrun).exact
  · intro w₀ e w w' hw₀ hrun htail
    exact empty_tail (finalizeEmptyTrace_tallied.error hw₀.tallied hrun) htail

/-- An orderly run with one queue drop reports it once. -/
theorem loss_accounting_queueDrop : ∃ w,
    capture sampleOptions [] [.queueDrops 3] none (.start sampleOptions) = .ok () w ∧ Exact w := by
  have hrun : wp (capture sampleOptions [] [.queueDrops 3] none) (fun _ _ => True)
      (fun _ _ => False) (.start sampleOptions) := by
    decide +kernel
  obtain ⟨_, w, hrun, -⟩ := wp_run hrun
  exact ⟨w, hrun, (loss_accounting sampleOptions_accepted).1 _ _ _ w hrun⟩

/-- A producer that counted a call whose event never reached the writer. -/
def strandedOptions : WriterOptions :=
  { sampleOptions with
    counterSource := some fun _ =>
      [⟨LinuxLogicalHookApi.malloc.apiId, 4, 4, 0, 0, 3⟩] }

/-- Three queue drops and counters that do not reconcile: the finalization throws after
its Loss chunk, and the tail reports the drops again. -/
theorem loss_accounting_twice : strandedOptions.Accepted ∧ ∃ e w w',
    capture strandedOptions [] [.queueDrops 3] none (.start strandedOptions) = .error e w ∧
      TailWritten strandedOptions w w' ∧
      reportedLosses .queueFull w'.file.chunks = 6 ∧ w'.queueDroppedEvents = 3 ∧
      w'.moduleNotificationDrops = 0 ∧ ¬ Exact w' := by
  refine ⟨⟨⟨strandedOptions, rfl⟩, rfl⟩, ?_⟩
  have hrun : wp (capture strandedOptions [] [.queueDrops 3] none) (fun _ _ => False)
      (fun _ w => wp (writeErrorTail strandedOptions) (fun _ w' =>
        w'.file.chunks.length = w.file.chunks.length + (if w.statisticsWritten then 2 else 3) ∧
          reportedLosses .queueFull w'.file.chunks = 6 ∧ w'.queueDroppedEvents = 3 ∧
          w'.moduleNotificationDrops = 0) (fun _ _ => False) w)
      (.start strandedOptions) := by
    decide +kernel
  obtain ⟨e, w, hcapture, htail⟩ := wp_throws hrun
  obtain ⟨_, w', htail, hlength, hreported, hqueue, hmodules⟩ := wp_run htail
  refine ⟨e, w, w', hcapture, ⟨htail, fun _ _ => hlength⟩, hreported, hqueue, hmodules, ?_⟩
  intro hexact
  have heq := hexact.queueFull
  rw [hreported, hqueue, hmodules] at heq
  cases heq

end Noleax.Capture
