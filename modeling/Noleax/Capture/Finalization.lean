import Noleax.Capture.Terminal

/-!
# The finalization

The three terminal chunks of an orderly end, one stage each: with the reserve
released, a chunk is written when the room it needs is left, and leaves the room the
next ones need.
-/

namespace Noleax.Capture

open Lib Trace Agent Agent.LinuxTraceWriter

variable {options : WriterOptions} {w w' : LinuxTraceWriter}

/-! ## One terminal chunk -/

/-- A writer whose stream works, and whose file takes chunks of `bytes` bytes more with
payloads of `payload` bytes. -/
structure Ready (options : WriterOptions) (bytes payload : ℕ) (w : LinuxTraceWriter) : Prop where
  stream : ∀ n, w.streamOperations ≤ n → options.fault n = false
  released : w.file.reservedTailSize = 0
  length : w.file.bytesWritten = w.file.fileLength
  room : w.file.bytesWritten + bytes ≤ options.trace.maxFileSize
  total : w.file.uncompressedPayloadBytesWritten + payload ≤ maxU64

/-- The members after a terminal chunk. -/
def withTerminalChunk (options : WriterOptions) (w : LinuxTraceWriter) (chunk : Chunk) :
    LinuxTraceWriter :=
  { w with
    streamOperations := w.streamOperations + 1
    file := w.file.withChunk options.encoding chunk false }

theorem streamOperation_run {what : String} (h : options.fault w.streamOperations = false) :
    streamOperation options what w =
      .ok () { w with streamOperations := w.streamOperations + 1 } := by
  unfold streamOperation
  rw [run_bind, run_get]
  dsimp only
  rw [run_bind, run_set]
  dsimp only
  rw [h, if_neg Bool.false_ne_true, run_pure]

theorem writeChunk_run {chunk : Chunk} (hstream : options.fault w.streamOperations = false)
    (hadmits : w.file.Admits options.trace options.encoding chunk false) :
    writeTerminalChunk options chunk w = .ok true (withTerminalChunk options w chunk) := by
  have hwrite := TraceWriter.writeChunk_eq_some.mpr ⟨hadmits, rfl⟩
  unfold writeTerminalChunk writeChunk
  rw [run_bind, streamOperation_run hstream]
  dsimp only
  rw [run_bind, run_get]
  dsimp only
  rw [run_bind, WriterM.lift_eq_check, hwrite, run_check_ok]
  dsimp only
  rw [run_bind, run_set]
  dsimp only
  rw [run_pure]
  rfl

/-- A terminal chunk that is in the file met its limits. -/
theorem writeTerminalChunk_ok {chunk : Chunk} {written : Bool}
    (h : writeTerminalChunk options chunk w = .ok written w') :
    (written = true ∧ w.file.Admits options.trace options.encoding chunk false ∧
      w' = withTerminalChunk options w chunk) ∨
    (written = false ∧ w'.file = w.file) := by
  rcases writeChunk_ok h with ⟨rfl, file, hwrite, rfl⟩ | ⟨rfl, -, rfl⟩
  · obtain ⟨hadmits, rfl⟩ := TraceWriter.writeChunk_eq_some.mp hwrite
    exact .inl ⟨rfl, hadmits, rfl⟩
  · exact .inr ⟨rfl, rfl⟩

theorem Ready.chunk {size bytes payload : ℕ} (chunk : Chunk)
    (h : Ready options (chunkHeaderSize + size + bytes) (size + payload) w)
    (hsize : options.encoding.payloadSize chunk.payload = size)
    (hsmall : size ≤ maximumModuleLoadRecordSize)
    (hchunk : size ≤ options.trace.maxUncompressedChunkSize)
    (hstored : size ≤ options.trace.maxStoredChunkSize)
    (hheader : validateChunkHeader chunk = .ok ()) :
    writeTerminalChunk options chunk w = .ok true (withTerminalChunk options w chunk) ∧
      Ready options bytes payload (withTerminalChunk options w chunk) := by
  obtain ⟨hstream, hreleased, hlength, hroom, htotal⟩ := h
  have hstoredSize : options.encoding.storedSize chunk false = size := hsize
  have hadmits : w.file.Admits options.trace options.encoding chunk false := by
    constructor
    · rw [hsize]
      exact hchunk
    · rw [hstoredSize]
      exact hstored
    · exact hheader
    · rw [hstoredSize, hreleased]
      unfold maximumModuleLoadRecordSize at hsmall
      unfold ExceedsFileLimit
      unfold chunkHeaderSize maxU64 at *
      omega
    · rw [hsize]
      omega
  refine ⟨writeChunk_run (hstream _ (le_refl _)) hadmits, ?_⟩
  have hfits : w.file.Fits options.trace := ⟨hlength, by omega⟩
  constructor
  · intro n hn
    have hn : w.streamOperations + 1 ≤ n := hn
    exact hstream n (by omega)
  · exact hreleased
  · exact (hfits.withChunk hadmits).length
  · change w.file.bytesWritten + chunkHeaderSize + options.encoding.storedSize chunk false + bytes
      ≤ options.trace.maxFileSize
    omega
  · change w.file.uncompressedPayloadBytesWritten + options.encoding.payloadSize chunk.payload +
      payload ≤ maxU64
    omega

/-! ## The Loss chunk -/

/-- Nothing has ended the trace the tracker observes. -/
def Unended (tracker : CompletenessTracker) : Prop :=
  tracker.sawEndOfTrace = false ∧ CompletenessIssue.abnormalStop ∉ tracker.report

theorem Unended.observeLoss {tracker : CompletenessTracker} (h : Unended tracker)
    {loss : LossRecord} (hvalid : validateLossRecord loss = .ok ()) :
    ∃ after, tracker.observeLoss loss = .ok after ∧ Unended after := by
  obtain ⟨hsaw, hstop⟩ := h
  refine ⟨{ tracker with report := tracker.report ∪ CompletenessTracker.lossIssues loss.reason },
    ?_, hsaw, ?_⟩
  · unfold CompletenessTracker.observeLoss
    rw [hsaw, failIf_of_not Bool.false_ne_true, ok_bind, hvalid, ok_bind]
    rfl
  · rw [Finset.mem_union]
    rintro (hmem | hmem)
    · exact hstop hmem
    · exact lossIssues_unstopped _ hmem

theorem appendCollected_run (records : List EventChunkRecord) {count : ℕ} (loss : LossRecord)
    (h : Unended w.completeness) (hvalid : count ≠ 0 → validateLossRecord loss = .ok ()) :
    ∃ completeness, Unended completeness ∧ appendCollected records count loss w =
      .ok (records ++ if count = 0 then [] else [.loss loss])
        { w with completeness := completeness } := by
  unfold appendCollected
  by_cases hcount : count = 0
  · refine ⟨w.completeness, h, ?_⟩
    rw [if_neg (not_not.mpr hcount), if_pos hcount, List.append_nil]
    rfl
  · obtain ⟨after, hobserve, hafter⟩ := h.observeLoss (hvalid hcount)
    refine ⟨after, hafter, ?_⟩
    rw [if_pos hcount, if_neg hcount]
    unfold appendLoss
    rw [run_bind, run_get]
    dsimp only
    rw [run_bind, WriterM.lift_eq_check, hobserve, run_check_ok]
    dsimp only
    rw [run_bind, run_set]
    dsimp only
    rw [run_bind, WriterM.lift_eq_check, hvalid hcount, run_check_ok]
    rfl

theorem queueFullLoss_valid {count : ℕ} (h : count ≠ 0) :
    validateLossRecord (queueFullLoss count) = .ok () := by
  rw [validateLossRecord_eq_ok]
  refine ⟨fun heq => h (Option.some.inj heq), ?_, ?_⟩ <;> (intro range hrange; cases hrange)

theorem appendCollectedLossRecords_run (h : Unended w.completeness)
    (hvalid : w.traceDroppedEvents ≠ 0 → validateLossRecord w.traceFullLoss = .ok ()) :
    ∃ completeness, Unended completeness ∧ appendCollectedLossRecords w =
      .ok (collectedLosses w) { w with completeness := completeness } := by
  let module := if w.moduleNotificationDrops = 0 then [] else
    [EventChunkRecord.loss (queueFullLoss w.moduleNotificationDrops)]
  let queue := if w.queueDroppedEvents = 0 then [] else
    [EventChunkRecord.loss (queueFullLoss w.queueDroppedEvents)]
  obtain ⟨first, hfirst, hrun₁⟩ := appendCollected_run (w := w) []
    (queueFullLoss w.moduleNotificationDrops) h queueFullLoss_valid
  obtain ⟨second, hsecond, hrun₂⟩ := appendCollected_run (w := { w with completeness := first })
    ([] ++ module) (queueFullLoss w.queueDroppedEvents) hfirst queueFullLoss_valid
  obtain ⟨third, hthird, hrun₃⟩ := appendCollected_run (w := { w with completeness := second })
    ([] ++ module ++ queue) w.traceFullLoss hsecond hvalid
  refine ⟨third, hthird, ?_⟩
  unfold appendCollectedLossRecords
  rw [run_bind, run_get]
  dsimp only
  rw [run_bind, hrun₁]
  dsimp only
  rw [run_bind, hrun₂]
  dsimp only
  exact hrun₃

/-- The Loss chunk of an orderly end, if there is anything to report. -/
def lossChunks (w : LinuxTraceWriter) : List Chunk :=
  if collectedLosses w = [] then [] else [w.lossChunk (collectedLosses w)]

/-- The payload bytes of the Loss chunk. -/
def lossBytes (options : WriterOptions) (w : LinuxTraceWriter) : ℕ :=
  options.encoding.payloadSize (.events (collectedLosses w))

theorem lossBytes_le (options : WriterOptions) (w : LinuxTraceWriter) :
    lossBytes options w ≤ 3 * lossRecordSize := by
  unfold lossBytes collectedLosses Encoding.payloadSize
  simp only [List.map_append, List.sum_append]
  have hpart : ∀ (count : ℕ) (loss : LossRecord),
      ((if count = 0 then [] else [EventChunkRecord.loss loss]).map
        options.encoding.eventRecord).sum ≤ lossRecordSize := by
    intro count loss
    split
    · exact Nat.zero_le _
    · exact le_refl _
  have := hpart w.moduleNotificationDrops (queueFullLoss w.moduleNotificationDrops)
  have := hpart w.queueDroppedEvents (queueFullLoss w.queueDroppedEvents)
  have := hpart w.traceDroppedEvents w.traceFullLoss
  omega

theorem lossBytes_nil (h : collectedLosses w = []) : lossBytes options w = 0 := by
  unfold lossBytes
  rw [h]
  rfl

/-- A drop range in order. -/
def Ordered (w : LinuxTraceWriter) : Prop :=
  w.traceDroppedEvents ≠ 0 → w.traceDropSequenceBegin ≤ w.traceDropSequenceEnd

theorem Ordered.valid (h : Ordered w) (hsequenced : Sequenced options w)
    (hdropped : w.traceDroppedEvents ≠ 0) : validateLossRecord w.traceFullLoss = .ok () := by
  have hordered := h hdropped
  obtain ⟨hbegin, hend, -, htick⟩ := hsequenced.dropped hdropped
  rw [validateLossRecord_eq_ok]
  refine ⟨fun heq => hdropped (Option.some.inj heq), ?_, ?_⟩
  · intro range hrange
    cases hrange
    change w.traceDropSequenceBegin ≠ 0 ∧ w.traceDropSequenceEnd ≠ 0 ∧
      w.traceDropSequenceBegin ≤ w.traceDropSequenceEnd
    omega
  · intro range hrange
    cases hrange
    exact htick hordered

theorem Ordered.header (h : Ordered w) (hsequenced : Sequenced options w)
    (losses : List EventChunkRecord) : validateChunkHeader (w.lossChunk losses) = .ok () := by
  unfold validateChunkHeader lossChunk
  rw [failIf_bind_eq_ok, failIf_eq_ok]
  dsimp only
  by_cases hdropped : w.traceDroppedEvents = 0
  · simp [hdropped]
  · have hordered := h hdropped
    obtain ⟨hbegin, hend, -⟩ := hsequenced.dropped hdropped
    simp only [if_neg hdropped]
    omega

/-- Members of the finalization: the rest of the writer stays as it was. -/
def Closing (w w' : LinuxTraceWriter) : Prop :=
  ∃ operations file completeness, w' = { w with
    streamOperations := operations
    file := file
    completeness := completeness }

theorem writeCollectedLosses_run {bytes payload : ℕ}
    (h : Ready options ((if collectedLosses w = [] then 0 else chunkHeaderSize) +
      lossBytes options w + bytes) (lossBytes options w + payload) w)
    (hlimits : options.Limits) (hstored : 3 * lossRecordSize ≤ options.trace.maxStoredChunkSize)
    (hunended : Unended w.completeness) (hsequenced : Sequenced options w) (hordered : Ordered w) :
    ∃ m, writeCollectedLosses options w = .ok () m ∧ Ready options bytes payload m ∧ Closing w m ∧
      Unended m.completeness ∧ m.file.chunks = w.file.chunks ++ lossChunks w := by
  obtain ⟨completeness, hafter, hrun⟩ := appendCollectedLossRecords_run hunended
    (fun hdropped => hordered.valid hsequenced hdropped)
  unfold writeCollectedLosses
  rw [run_bind, hrun]
  dsimp only
  unfold lossChunks
  by_cases hempty : collectedLosses w = []
  · rw [if_neg (not_not.mpr hempty), if_pos hempty, List.append_nil]
    simp only [if_pos hempty, lossBytes_nil hempty, Nat.zero_add] at h
    exact ⟨_, rfl, ⟨h.stream, h.released, h.length, h.room, h.total⟩, ⟨_, _, _, rfl⟩, hafter, rfl⟩
  · rw [if_pos hempty, if_neg hempty]
    rw [if_neg hempty] at h
    have hle := lossBytes_le options w
    have hchunk := hlimits.chunk
    unfold lossRecordSize recordHeaderSize at hle hstored
    unfold maximumModuleLoadRecordSize at hchunk
    have hready : Ready options (chunkHeaderSize + lossBytes options w + bytes)
        (lossBytes options w + payload) { w with completeness := completeness } :=
      ⟨h.stream, h.released, h.length, h.room, h.total⟩
    obtain ⟨hwrite, hready⟩ := hready.chunk (w.lossChunk (collectedLosses w)) rfl
      (by unfold maximumModuleLoadRecordSize; omega) (by omega) (by omega)
      (hordered.header hsequenced _)
    have hchunk : ({ w with completeness := completeness } : LinuxTraceWriter).lossChunk
        (collectedLosses w) = w.lossChunk (collectedLosses w) := rfl
    rw [run_bind, run_get]
    dsimp only
    rw [run_bind, hchunk, hwrite]
    exact ⟨_, rfl, hready, ⟨_, _, _, rfl⟩, hafter, rfl⟩

/-! ## The statistics and the end -/

def statisticsBytes (options : WriterOptions) : ℕ := statisticsRecordSize options.apiIds.length

theorem statisticsBytes_le (hlimits : options.Limits) :
    statisticsBytes options ≤ maximumModuleLoadRecordSize := by
  have hhooks := hlimits.customHooks
  have hlength : options.apiIds.length = linuxHookRegistry.length + options.customHooks := by
    unfold WriterOptions.apiIds
    rw [List.length_append, List.length_map, List.length_map, List.length_range]
  have hregistry : linuxHookRegistry.length ≤ 64 := by decide
  unfold maximumCustomHooks at hhooks
  unfold statisticsBytes statisticsRecordSize recordHeaderSize maximumModuleLoadRecordSize
  omega

theorem lossRecordSize_le_statistics (options : WriterOptions) :
    3 * lossRecordSize ≤ statisticsBytes options := by
  have hlength : options.apiIds.length = linuxHookRegistry.length + options.customHooks := by
    unfold WriterOptions.apiIds
    rw [List.length_append, List.length_map, List.length_map, List.length_range]
  have hregistry : 2 ≤ linuxHookRegistry.length := by decide
  unfold statisticsBytes statisticsRecordSize lossRecordSize recordHeaderSize
  omega

theorem normalEnd_valid (h : Unended w.completeness) :
    validateEndOfTrace (w.normalEnd options) = .ok () := by
  unfold validateEndOfTrace normalEnd
  rw [failIf_bind_eq_ok, failIf_eq_ok]
  exact ⟨Finset.notMem_erase _ _, fun hstop => h.2 (Finset.mem_of_mem_erase hstop.2)⟩

theorem writeStatistics_ok {statistics : CaptureStatistics} {u : Unit}
    (h : writeStatistics options statistics w = .ok u w') :
    validateStatistics statistics = .ok () ∧ ∃ written m,
      writeTerminalChunk options { payload := .statistics statistics } w = .ok written m ∧
      w' = { m with statisticsWritten := written } := by
  unfold writeStatistics at h
  simp only [run_bind_eq_ok, WriterM.lift_eq_check, run_check_eq_ok, run_modify_eq_ok] at h
  obtain ⟨_, _, ⟨hvalid, rfl⟩, written, m, hwrite, rfl⟩ := h
  exact ⟨hvalid, written, m, hwrite, rfl⟩

theorem writeStatistics_run {statistics : CaptureStatistics} {m : LinuxTraceWriter}
    (hvalid : validateStatistics statistics = .ok ())
    (hwrite : writeTerminalChunk options { payload := .statistics statistics } w = .ok true m) :
    writeStatistics options statistics w = .ok () { m with statisticsWritten := true } := by
  unfold writeStatistics
  simp only [run_bind_eq_ok, WriterM.lift_eq_check, run_check_eq_ok, run_modify_eq_ok]
  exact ⟨(), w, ⟨hvalid, rfl⟩, true, m, hwrite, rfl⟩

theorem writeEndOfTrace_ok {trace : EndOfTrace} {u : Unit}
    (h : writeEndOfTrace options trace w = .ok u w') : ∃ written m,
      writeTerminalChunk options { payload := .endOfTrace trace } w = .ok written m ∧
      w' = { m with endOfTraceWritten := written } := by
  unfold writeEndOfTrace at h
  simp only [run_bind_eq_ok, WriterM.lift_eq_check, run_check_eq_ok, run_modify_eq_ok] at h
  obtain ⟨_, _, ⟨-, rfl⟩, written, m, hwrite, rfl⟩ := h
  exact ⟨written, m, hwrite, rfl⟩

theorem writeEndOfTrace_run {trace : EndOfTrace} {m : LinuxTraceWriter}
    (hvalid : validateEndOfTrace trace = .ok ())
    (hwrite : writeTerminalChunk options { payload := .endOfTrace trace } w = .ok true m) :
    writeEndOfTrace options trace w = .ok () { m with endOfTraceWritten := true } := by
  unfold writeEndOfTrace
  simp only [run_bind_eq_ok, WriterM.lift_eq_check, run_check_eq_ok, run_modify_eq_ok]
  exact ⟨(), w, ⟨hvalid, rfl⟩, true, m, hwrite, rfl⟩

/-- The trace is terminated: past the chunks `before` there are the statistics and the
end, and the file is as long as its byte count, within its limit. -/
structure Terminated (options : WriterOptions) (before : List Chunk) (w : LinuxTraceWriter) :
    Prop where
  statistics : w.statisticsWritten = true
  endOfTrace : w.endOfTraceWritten = true
  chunks : ∃ statistics trace, w.file.chunks = before ++
    [{ payload := .statistics statistics }, { payload := .endOfTrace trace }]
  length : w.file.fileLength = w.file.bytesWritten
  limit : w.file.bytesWritten ≤ options.trace.maxFileSize

theorem writeTerminalRecords_run {statistics : CaptureStatistics}
    (h : Ready options
      (chunkHeaderSize + statisticsBytes options + (chunkHeaderSize + endOfTraceRecordSize))
      (statisticsBytes options + endOfTraceRecordSize) w)
    (hlimits : options.Limits)
    (hstored : statisticsBytes options ≤ options.trace.maxStoredChunkSize)
    (hapis : statistics.perApi.length = options.apiIds.length)
    (hvalid : validateStatistics statistics = .ok ()) (hunended : Unended w.completeness) :
    ∃ m, writeTerminalRecords options statistics w = .ok () m ∧
      Terminated options w.file.chunks m := by
  have hsmall := statisticsBytes_le hlimits
  have hchunk := hlimits.chunk
  have hend : endOfTraceRecordSize ≤ maximumModuleLoadRecordSize := by decide
  have hendStored : endOfTraceRecordSize ≤ statisticsBytes options := by
    refine le_trans ?_ (lossRecordSize_le_statistics options)
    decide
  have hsize : options.encoding.payloadSize (.statistics statistics) = statisticsBytes options := by
    change statisticsRecordSize statistics.perApi.length = _
    rw [hapis]
    rfl
  obtain ⟨hwrite₁, hready₁⟩ := h.chunk { payload := .statistics statistics } hsize hsmall
    (le_trans hsmall hchunk) hstored rfl
  have hstatistics := writeStatistics_run hvalid hwrite₁
  generalize hm₁ : ({ withTerminalChunk options w { payload := .statistics statistics } with
    statisticsWritten := true } : LinuxTraceWriter) = m₁ at hstatistics
  have hready₁ : Ready options (chunkHeaderSize + endOfTraceRecordSize + 0)
      (endOfTraceRecordSize + 0) m₁ := by
    rw [← hm₁]
    exact ⟨hready₁.stream, hready₁.released, hready₁.length, hready₁.room, hready₁.total⟩
  have hunended₁ : Unended m₁.completeness := by
    rw [← hm₁]
    exact hunended
  obtain ⟨hwrite₂, hready₂⟩ := hready₁.chunk { payload := .endOfTrace (m₁.normalEnd options) } rfl
    hend (le_trans hend hchunk) (le_trans hendStored hstored) rfl
  have hendOfTrace := writeEndOfTrace_run (normalEnd_valid hunended₁) hwrite₂
  have hflush := hready₂.stream _ (le_refl _)
  refine ⟨{ withTerminalChunk options m₁ { payload := .endOfTrace (m₁.normalEnd options) } with
    endOfTraceWritten := true
    streamOperations := m₁.streamOperations + 1 + 1 }, ?_, ?_⟩
  · unfold writeTerminalRecords
    rw [run_bind, hstatistics]
    dsimp only
    rw [run_bind, run_get]
    dsimp only
    rw [run_bind, hendOfTrace]
    exact streamOperation_run hflush
  · have hlength := hready₂.length
    have hroom := hready₂.room
    constructor
    · rw [← hm₁]
      rfl
    · rfl
    · refine ⟨statistics, m₁.normalEnd options, ?_⟩
      rw [← hm₁]
      change w.file.chunks ++ [_] ++ [_] = _
      rw [List.append_assoc]
      rfl
    · exact hlength.symm
    · exact le_trans (Nat.le_add_right _ _) hroom

end Noleax.Capture
