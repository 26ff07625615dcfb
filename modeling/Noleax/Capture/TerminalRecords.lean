import Noleax.Capture.Finalization

/-!
# Whether the terminal records are written

The reserve holds every terminal record, so the finalization writes them unless it
throws first: when the drop range is reversed, when the producer's counters do not
reconcile, or when a size runs over.
-/

namespace Noleax.Capture

open Lib Trace Agent Agent.LinuxTraceWriter

variable {options : WriterOptions} {w w' : LinuxTraceWriter}

/-- No operation of the output stream fails from here on. -/
def Reliable (options : WriterOptions) (w : LinuxTraceWriter) : Prop :=
  ∀ n, w.streamOperations ≤ n → options.fault n = false

/-- What the finalization needs of the members it finds. -/
structure Finishable (options : WriterOptions) (w : LinuxTraceWriter) : Prop where
  ordered : Ordered w
  reconciled : Reconciled options w
  stored : statisticsBytes options ≤ options.trace.maxStoredChunkSize
  total : w.file.uncompressedPayloadBytesWritten + lossBytes options w +
    (statisticsBytes options + endOfTraceRecordSize) ≤ maxU64

/-! ## Enough -/

theorem Intact.ready (h : Intact options w) (hlimits : options.Limits)
    (hreliable : Reliable options w) {payload : ℕ}
    (htotal : w.file.uncompressedPayloadBytesWritten + payload ≤ maxU64) :
    Ready options options.terminalReserve payload
      { w with file := w.file.releaseFileReserve } := by
  have hroom := h.fits.room
  rw [h.reserve] at hroom
  have hreserve := hlimits.reserve
  refine ⟨hreliable, rfl, h.fits.length, ?_, htotal⟩
  change w.file.bytesWritten + options.terminalReserve ≤ options.trace.maxFileSize
  omega

theorem Ready.mono {bytes bytes' payload payload' : ℕ} (h : Ready options bytes payload w)
    (hbytes : bytes' ≤ bytes) (hpayload : payload' ≤ payload) : Ready options bytes' payload' w :=
  ⟨h.stream, h.released, h.length, le_trans (by omega) h.room, le_trans (by omega) h.total⟩

/-- The reserve is room for all terminal records at once. -/
theorem terminalReserve_eq : options.terminalReserve =
    (chunkHeaderSize + 4 * lossRecordSize) +
      (chunkHeaderSize + statisticsBytes options + (chunkHeaderSize + endOfTraceRecordSize)) := by
  have hlength : options.apiIds.length = linuxHookRegistry.length + options.customHooks := by
    unfold WriterOptions.apiIds
    rw [List.length_append, List.length_map, List.length_map, List.length_range]
  unfold WriterOptions.terminalReserve statisticsBytes statisticsRecordSize
  rw [hlength]
  omega

theorem entryOf_counters (options : WriterOptions) {m : LinuxTraceWriter}
    (h : m.counters = w.counters) (id : ℕ) :
    entryOf options m id = entryOf options w id := by
  unfold entryOf
  rw [h]

theorem Reconciled.congr {m : LinuxTraceWriter} (h : Reconciled options w)
    (hcounters : m.counters = w.counters) : Reconciled options m where
  agrees := by
    rw [hcounters]
    exact h.agrees
  total := by
    have htotal := h.total
    rwa [← List.map_congr_left fun id _ =>
      congrArg ApiStatistics.observedCalls (entryOf_counters options hcounters id)]
      at htotal

/-- Reconciled counters count no more records than fit 64 bits. -/
theorem Reconciled.consumed_le (h : Reconciled options w) (hdrained : Drained options w) :
    consumed options w ≤ maxU64 := by
  refine le_trans ?_ h.total
  apply List.sum_le_sum
  intro id hid
  have hentry := (h.entry hdrained hid).2
  have haccount := hdrained.account hid
  have hdropped : (w.counters id).traceDropped ≤ (entryOf options w id).droppedEvents := by
    unfold entryOf
    split
    · exact Nat.le_add_left _ _
    · exact le_refl _
  dsimp only
  omega

theorem finalizeTrace_run (haccepted : options.Accepted) (hintact : Intact options w)
    (hdrained : Drained options w)
    (hsequenced : consumed options w ≤ maxU64 → Sequenced options w)
    (hreliable : Reliable options w) (h : Finishable options w) :
    ∃ m, finalizeTrace options w = .ok () m ∧
      Terminated options (w.file.chunks ++ lossChunks w) m := by
  have hlimits := haccepted.limits
  have hsequenced := hsequenced (h.reconciled.consumed_le hdrained)
  have hlosses := lossBytes_le options w
  have hlossStored := lossRecordSize_le_statistics options
  have htotal := h.total
  rw [Nat.add_assoc] at htotal
  have hready := hintact.ready hlimits hreliable htotal
  rw [terminalReserve_eq] at hready
  generalize hreleased : ({ w with file := w.file.releaseFileReserve } : LinuxTraceWriter) = k
    at hready
  have hk : Sequenced options k ∧ Ordered k ∧ Unended k.completeness ∧
      lossBytes options k = lossBytes options w ∧ lossChunks k = lossChunks w ∧
      k.file.chunks = w.file.chunks ∧ k.counters = w.counters ∧ Drained options k := by
    rw [← hreleased]
    exact ⟨⟨hsequenced.next, hsequenced.last, hsequenced.pending, hsequenced.below,
      hsequenced.dropped, hsequenced.crossed⟩, h.ordered, ⟨hintact.unended, hintact.unstopped⟩,
      rfl, rfl, rfl, rfl, hdrained.books, hdrained.none⟩
  obtain ⟨hsequencedk, horderedk, hunendedk, hbytesk, hchunksk, hfilek, hcountersk, hdrainedk⟩ := hk
  have hreadyk : Ready options ((if collectedLosses k = [] then 0 else chunkHeaderSize) +
      lossBytes options k +
      (chunkHeaderSize + statisticsBytes options + (chunkHeaderSize + endOfTraceRecordSize)))
      (lossBytes options k + (statisticsBytes options + endOfTraceRecordSize)) k := by
    rw [hbytesk]
    refine hready.mono ?_ (le_refl _)
    have hheader : (if collectedLosses k = [] then 0 else chunkHeaderSize) ≤ chunkHeaderSize := by
      split
      · exact Nat.zero_le _
      · exact le_refl _
    omega
  obtain ⟨m, hrun, hreadym, hclosing, hunendedm, hchunksm⟩ := writeCollectedLosses_run hreadyk
    hlimits (le_trans hlossStored h.stored) hunendedk hsequencedk horderedk
  have hcountersm : m.counters = w.counters := by
    obtain ⟨_, _, _, rfl⟩ := hclosing
    exact hcountersk
  have hdrainedm : Drained options m := by
    obtain ⟨_, _, _, rfl⟩ := hclosing
    exact ⟨hdrainedk.books, hdrainedk.none⟩
  obtain ⟨hmake, hvalid⟩ := (h.reconciled.congr hcountersm).statistics hdrainedm
  have hapis : (m.withFileTotals (entryAggregate options m)).perApi.length =
      options.apiIds.length := by
    change (aggregate {} (options.apiIds.map (entryOf options m))).perApi.length = _
    rw [aggregate_perApi, List.length_map]
  obtain ⟨last, hlast, hterminated⟩ :=
    writeTerminalRecords_run hreadym hlimits h.stored hapis hvalid hunendedm
  refine ⟨last, ?_, ?_⟩
  · unfold finalizeTrace releaseReserve
    rw [run_bind, run_modify]
    dsimp only
    rw [hreleased, run_bind, hrun]
    dsimp only
    rw [run_bind, run_get]
    dsimp only
    rw [run_bind, WriterM.lift_eq_check, hmake, run_check_ok]
    exact hlast
  · rwa [hchunksm, hfilek, hchunksk] at hterminated

/-! ## Needed -/

/-- A chunk write keeps what the file, the limit and the operation count leave alone. -/
theorem writeChunk_keeps {P : LinuxTraceWriter → Prop} {chunk : Chunk} {compress : Bool}
    (hstream : ∀ w, P w → P { w with streamOperations := w.streamOperations + 1 })
    (hlimit : ∀ w, P w → P { w with fileLimitReached := true })
    (hfile : ∀ w, P w → w.file.Admits options.trace options.encoding chunk compress →
      P { w with file := w.file.withChunk options.encoding chunk compress }) :
    Keeps P (writeChunk options chunk compress) := by
  unfold writeChunk streamOperation
  refine Keeps.bind (keeps_get_bind fun w hw => (keeps_set (hstream w hw)).bind fun _ =>
    keeps_ite (fun _ => keeps_throw _) fun _ => keeps_pure _) fun _ => ?_
  intro w hw
  unfold exitState
  rw [run_bind, run_get]
  dsimp only
  rw [run_bind, WriterM.lift_eq_check]
  cases hwrite : w.file.writeChunk options.trace options.encoding chunk compress with
  | error e => exact hw
  | ok result =>
      rw [run_check_ok]
      cases result with
      | none => exact hlimit w hw
      | some file =>
          obtain ⟨hadmits, rfl⟩ := TraceWriter.writeChunk_eq_some.mp hwrite
          exact hfile w hw hadmits

theorem appendCollected_keeps {P : LinuxTraceWriter → Prop} (records : List EventChunkRecord)
    (count : ℕ) (loss : LossRecord)
    (hcompleteness : ∀ w completeness, P w → P { w with completeness := completeness }) :
    Keeps P (appendCollected records count loss) := by
  refine keeps_ite (fun _ => ?_) fun _ => keeps_pure _
  unfold appendLoss
  refine keeps_get_bind fun w hw => ?_
  rw [WriterM.lift_eq_check, WriterM.lift_eq_check]
  exact (keeps_check _).bind fun completeness => (keeps_set (hcompleteness w completeness hw)).bind
    fun _ => (keeps_check _).bind fun _ => keeps_pure _

theorem writeCollectedLosses_keeps {P : LinuxTraceWriter → Prop}
    (hcompleteness : ∀ w completeness, P w → P { w with completeness := completeness })
    (hwrite : ∀ chunk, Keeps P (writeTerminalChunk options chunk)) :
    Keeps P (writeCollectedLosses options) := by
  unfold writeCollectedLosses appendCollectedLossRecords
  refine Keeps.bind (keeps_get_bind fun w hw =>
    (appendCollected_keeps _ _ _ hcompleteness).bind fun _ =>
    (appendCollected_keeps _ _ _ hcompleteness).bind fun _ =>
    appendCollected_keeps _ _ _ hcompleteness) fun losses => ?_
  refine keeps_ite (fun _ => keeps_get_bind fun w hw => ?_) fun _ => keeps_pure _
  exact (hwrite _).bind fun _ => keeps_pure _

theorem writeStatistics_keeps {P : LinuxTraceWriter → Prop} {statistics : CaptureStatistics}
    (hflag : ∀ w written, P w → P { w with statisticsWritten := written })
    (hwrite : ∀ chunk, Keeps P (writeTerminalChunk options chunk)) :
    Keeps P (writeStatistics options statistics) := by
  unfold writeStatistics
  rw [WriterM.lift_eq_check]
  exact (keeps_check _).bind fun _ => (hwrite _).bind fun written =>
    keeps_modify fun w hw => hflag w written hw

/-- No end is written, and the stream works. -/
def Unfinished (options : WriterOptions) (w : LinuxTraceWriter) : Prop :=
  w.endOfTraceWritten = false ∧ Reliable options w

theorem writeTerminalChunk_unfinished (chunk : Chunk) :
    Keeps (Unfinished options) (writeTerminalChunk options chunk) :=
  writeChunk_keeps (fun _ h => ⟨h.1, fun n hn => h.2 n (by change _ + 1 ≤ n at hn; omega)⟩)
    (fun _ h => h) fun _ h _ => h

/-- A finalization that throws has not written the end, unless the stream failed. -/
theorem writeTerminalRecords_error {statistics : CaptureStatistics} {e : Error}
    (hw : Unfinished options w)
    (h : writeTerminalRecords options statistics w = .error e w') :
    w'.endOfTraceWritten = false := by
  have hstatistics : Keeps (Unfinished options) (writeStatistics options statistics) :=
    writeStatistics_keeps (fun _ _ h => h) writeTerminalChunk_unfinished
  unfold writeTerminalRecords at h
  rcases run_bind_eq_error.mp h with h | ⟨_, m, hrun, h⟩
  · exact (hstatistics.error hw h).1
  have hm := hstatistics.ok hw hrun
  rcases run_bind_eq_error.mp h with h | ⟨_, _, hget, h⟩
  · cases h
  obtain ⟨rfl, rfl⟩ := run_get_eq_ok.mp hget
  rcases run_bind_eq_error.mp h with h | ⟨_, k, hrun, h⟩
  · unfold writeEndOfTrace at h
    rw [WriterM.lift_eq_check] at h
    rcases run_bind_eq_error.mp h with h | ⟨_, k, hcheck, h⟩
    · exact ((keeps_check _).error hm h).1
    obtain ⟨-, rfl⟩ := run_check_eq_ok.mp hcheck
    rcases run_bind_eq_error.mp h with h | ⟨_, n, -, h⟩
    · exact ((writeTerminalChunk_unfinished _).error hm h).1
    · cases h
  · -- only the stream could fail now
    obtain ⟨written, n, hwrite, rfl⟩ := writeEndOfTrace_ok hrun
    have hn := ((writeTerminalChunk_unfinished _).ok hm hwrite).2
    have hrun : flushStream options { n with endOfTraceWritten := written } = .ok () _ :=
      streamOperation_run (hn _ (le_refl _))
    rw [h] at hrun
    cases hrun

theorem finalizeTrace_error {e : Error} (hw : Unfinished options w)
    (h : finalizeTrace options w = .error e w') :
    w'.endOfTraceWritten = false := by
  have hlosses : Keeps (Unfinished options) (writeCollectedLosses options) :=
    writeCollectedLosses_keeps (fun _ _ h => h) writeTerminalChunk_unfinished
  unfold finalizeTrace releaseReserve at h
  rcases run_bind_eq_error.mp h with h | ⟨_, m, hrelease, h⟩
  · cases h
  obtain rfl := run_modify_eq_ok.mp hrelease
  have hw : Unfinished options { w with file := w.file.releaseFileReserve } := hw
  rcases run_bind_eq_error.mp h with h | ⟨_, m, hrun, h⟩
  · exact (hlosses.error hw h).1
  have hm := hlosses.ok hw hrun
  rcases run_bind_eq_error.mp h with h | ⟨_, _, hget, h⟩
  · cases h
  obtain ⟨rfl, rfl⟩ := run_get_eq_ok.mp hget
  rw [WriterM.lift_eq_check] at h
  rcases run_bind_eq_error.mp h with h | ⟨statistics, k, hcheck, h⟩
  · exact ((keeps_check _).error hm h).1
  · obtain ⟨-, rfl⟩ := run_check_eq_ok.mp hcheck
    exact writeTerminalRecords_error hm h

/-- Statistics and an end that are in the file met the size limits. -/
theorem writeTerminalRecords_ok {statistics : CaptureStatistics} {u : Unit}
    (h : writeTerminalRecords options statistics w = .ok u w')
    (hstatistics : w'.statisticsWritten = true) (hend : w'.endOfTraceWritten = true) :
    validateStatistics statistics = .ok () ∧
      statisticsRecordSize statistics.perApi.length ≤ options.trace.maxStoredChunkSize ∧
      w.file.uncompressedPayloadBytesWritten +
        (statisticsRecordSize statistics.perApi.length + endOfTraceRecordSize) ≤ maxU64 ∧
      ∃ trace, w'.file.chunks = w.file.chunks ++
        [{ payload := .statistics statistics }, { payload := .endOfTrace trace }] := by
  unfold writeTerminalRecords at h
  obtain ⟨_, m, hfirst, h⟩ := run_bind_eq_ok.mp h
  obtain ⟨_, _, hget, h⟩ := run_bind_eq_ok.mp h
  obtain ⟨rfl, rfl⟩ := run_get_eq_ok.mp hget
  obtain ⟨_, k, hlast, hflush⟩ := run_bind_eq_ok.mp h
  rw [flushStream_ok hflush] at hstatistics hend ⊢
  change k.statisticsWritten = true at hstatistics
  change k.endOfTraceWritten = true at hend
  change _ ∧ _ ∧ _ ∧ ∃ trace, k.file.chunks = _
  generalize m.normalEnd options = trace at hlast
  obtain ⟨hvalid, written₁, n₁, hwrite₁, rfl⟩ := writeStatistics_ok hfirst
  obtain ⟨written₂, n₂, hwrite₂, rfl⟩ := writeEndOfTrace_ok hlast
  change written₂ = true at hend
  rcases writeTerminalChunk_ok hwrite₂ with ⟨-, hadmits₂, rfl⟩ | ⟨rfl, -⟩
  · change written₁ = true at hstatistics
    rcases writeTerminalChunk_ok hwrite₁ with ⟨-, hadmits₁, rfl⟩ | ⟨rfl, -⟩
    · have hstored := hadmits₁.stored
      have htotal₁ := hadmits₁.total
      have htotal₂ := hadmits₂.total
      change statisticsRecordSize statistics.perApi.length ≤ _ at hstored
      change statisticsRecordSize statistics.perApi.length ≤ _ at htotal₁
      change endOfTraceRecordSize ≤ maxU64 - (w.file.uncompressedPayloadBytesWritten +
        statisticsRecordSize statistics.perApi.length) at htotal₂
      refine ⟨hvalid, hstored, ?_, trace, ?_⟩
      · have : 0 < endOfTraceRecordSize := by decide
        omega
      · change w.file.chunks ++ [_] ++ [_] = _
        rw [List.append_assoc]
        rfl
    · cases hstatistics
  · cases hend

theorem observeLoss_valid {records losses : List EventChunkRecord} {count : ℕ} {loss : LossRecord}
    (hcount : count ≠ 0) (h : appendCollected records count loss w = .ok losses w') :
    validateLossRecord loss = .ok () := by
  unfold appendCollected at h
  rw [if_pos hcount] at h
  exact (appendLoss_ok h).2.1

/-- Collected losses were valid, so a drop range among them is in order. -/
theorem appendCollectedLossRecords_ordered {losses : List EventChunkRecord}
    (h : appendCollectedLossRecords w = .ok losses w') : Ordered w := by
  intro hdropped
  unfold appendCollectedLossRecords at h
  obtain ⟨_, _, hget, h⟩ := run_bind_eq_ok.mp h
  obtain ⟨rfl, rfl⟩ := run_get_eq_ok.mp hget
  obtain ⟨first, m, -, h⟩ := run_bind_eq_ok.mp h
  obtain ⟨second, k, -, h⟩ := run_bind_eq_ok.mp h
  have hvalid := observeLoss_valid hdropped h
  rw [validateLossRecord_eq_ok] at hvalid
  exact (hvalid.2.1 _ rfl).2.2

theorem finalizeTrace_finishable {u : Unit} (h : finalizeTrace options w = .ok u w')
    (hterminated : Terminated options (w.file.chunks ++ lossChunks w) w') :
    Finishable options w := by
  unfold finalizeTrace releaseReserve at h
  obtain ⟨_, k, hrelease, h⟩ := run_bind_eq_ok.mp h
  obtain rfl := run_modify_eq_ok.mp hrelease
  obtain ⟨_, m, hlosses, h⟩ := run_bind_eq_ok.mp h
  obtain ⟨_, _, hget, h⟩ := run_bind_eq_ok.mp h
  obtain ⟨rfl, rfl⟩ := run_get_eq_ok.mp hget
  rw [WriterM.lift_eq_check] at h
  obtain ⟨statistics, _, hcheck, h⟩ := run_bind_eq_ok.mp h
  obtain ⟨hmake, rfl⟩ := run_check_eq_ok.mp hcheck
  obtain ⟨-, hstored, htotal, trace, hchunks⟩ :=
    writeTerminalRecords_ok h hterminated.statistics hterminated.endOfTrace
  obtain ⟨rfl, hreconciled⟩ := makeStatistics_reconciled hmake
  have hsize : statisticsRecordSize
      (m.withFileTotals (entryAggregate options m)).perApi.length = statisticsBytes options := by
    change statisticsRecordSize
      (aggregate {} (options.apiIds.map (entryOf options m))).perApi.length = _
    rw [aggregate_perApi, List.length_map]
    rfl
  rw [hsize] at hstored htotal
  obtain ⟨statistics', trace', hchunks'⟩ := hterminated.chunks
  rw [hchunks] at hchunks'
  have hlength := congrArg List.length hchunks'
  simp only [List.length_append, List.length_cons, List.length_nil] at hlength
  obtain ⟨completeness, hcases⟩ := writeCollectedLosses_ok hlosses
  have hordered : Ordered w := by
    unfold writeCollectedLosses at hlosses
    obtain ⟨losses, n, hcollect, -⟩ := run_bind_eq_ok.mp hlosses
    have hreleased := appendCollectedLossRecords_ordered hcollect
    exact hreleased
  change (collectedLosses w = [] ∧ _) ∨ (collectedLosses w ≠ [] ∧ ∃ written,
    writeTerminalChunk options (w.lossChunk (collectedLosses w)) _ = _) at hcases
  rcases hcases with ⟨hempty, rfl⟩ | ⟨hsome, written, hwrite⟩
  · refine ⟨hordered, hreconciled.congr rfl, hstored, ?_⟩
    rw [lossBytes_nil hempty, Nat.add_zero]
    exact htotal
  · have hcounters : w.counters = m.counters := by
      rcases writeTerminalChunk_ok hwrite with ⟨-, -, rfl⟩ | ⟨rfl, -⟩
      · rfl
      · rcases writeChunk_ok hwrite with ⟨heq, -⟩ | ⟨-, -, rfl⟩
        · cases heq
        · rfl
    refine ⟨hordered, hreconciled.congr hcounters, hstored, ?_⟩
    rcases writeTerminalChunk_ok hwrite with ⟨-, hadmits, rfl⟩ | ⟨-, hfile⟩
    · exact htotal
    · -- the Loss chunk is in the file, so it was written
      rw [hfile] at hlength
      unfold lossChunks at hlength
      rw [if_neg hsome] at hlength
      change w.file.chunks.length + _ = _ at hlength
      simp only [List.length_cons, List.length_nil] at hlength
      omega

/-- At the door of `finalize_trace`, with no stream failure ahead: it returns with the
trace terminated exactly when it finds what it needs. -/
theorem finalizeTrace_ends {baselines : List MemoryBaseline} {actions : List WriterAction}
    {lastSample : Option (ℕ × List (ℕ → MemoryRecord))} (haccepted : options.Accepted)
    (hw : AtFinalize options baselines actions lastSample w) (hreliable : Reliable options w) :
    (∃ m, finalizeTrace options w = .ok () m ∧
      Terminated options (w.file.chunks ++ lossChunks w) m) ↔ Finishable options w := by
  constructor
  · intro ⟨m, hrun, hterminated⟩
    exact finalizeTrace_finishable hrun hterminated
  · intro hfinishable
    exact finalizeTrace_run haccepted (atFinalize_intact haccepted hw) (atFinalize_drained hw)
      (atFinalize_sequenced hw) hreliable hfinishable

/-- The states `finalize_empty_trace` may find: no capture has begun. -/
def Unbegun (options : WriterOptions) (w : LinuxTraceWriter) : Prop :=
  w = .start options ∨
    ∃ baselines e, beginCapture options baselines (.start options) = .error e w

theorem writeChunk_intact (chunk : Chunk) (compress : Bool) :
    Keeps (Intact options) (writeChunk options chunk compress) :=
  writeChunk_keeps (fun _ h => h.same rfl rfl rfl) (fun _ h => h.same rfl rfl rfl)
    fun _ h hadmits => ⟨h.reserve, h.fits.withChunk hadmits, h.unended, h.unstopped, h.unfinished⟩

theorem streamOperation_intact (what : String) :
    Keeps (Intact options) (streamOperation options what) := by
  unfold streamOperation
  refine keeps_get_bind fun w h => ?_
  have hset : Intact options { w with streamOperations := w.streamOperations + 1 } :=
    h.same rfl rfl rfl
  exact (keeps_set hset).bind fun _ => keeps_ite (fun _ => keeps_throw _) fun _ => keeps_pure _

theorem writeMetadata_keeps : Keeps (Intact options) (writeMetadata options) := by
  unfold writeMetadata
  refine keeps_get_bind fun w h => keeps_ite (fun _ => keeps_pure _) fun _ =>
    (keeps_modify fun w h => h.same rfl rfl rfl).bind fun _ =>
    (streamOperation_intact _).bind fun _ => ?_
  intro w h
  unfold exitState
  rw [run_bind, run_get]
  dsimp only
  rw [run_bind, WriterM.lift_eq_check]
  cases hwrite : w.file.writeChunk options.trace options.encoding
      { payload := .metadata (metadataRecords options) } true with
  | error e => exact h
  | ok result =>
      rw [run_check_ok]
      cases result with
      | none => exact h
      | some file =>
          obtain ⟨hadmits, rfl⟩ := TraceWriter.writeChunk_eq_some.mp hwrite
          exact ⟨h.reserve, h.fits.withChunk hadmits, h.unended, h.unstopped, h.unfinished⟩

theorem beginCapture_keeps (baselines : List MemoryBaseline) :
    Keeps (Intact options) (beginCapture options baselines) := by
  unfold beginCapture writeMemoryBaselines
  refine writeMetadata_keeps.bind fun _ => (streamOperation_intact _).bind fun _ =>
    keeps_ite (fun _ => keeps_pure _) fun _ =>
    (keeps_modify fun w h => h.same rfl rfl rfl).bind fun _ =>
    (writeChunk_intact _ _).bind fun _ => keeps_pure _

theorem Unbegun.intact (h : Unbegun options w) (haccepted : options.Accepted) :
    Intact options w := by
  rcases h with rfl | ⟨baselines, e, hrun⟩
  · exact start_intact haccepted
  · exact (beginCapture_keeps baselines).error (start_intact haccepted) hrun

/-- The statistics of a capture that never began. -/
def emptyStatistics (options : WriterOptions) : CaptureStatistics where
  perApi := options.apiIds.map fun apiId => { apiId := apiId }

theorem emptyStatistics_valid : validateStatistics (emptyStatistics options) = .ok () := by
  have hzero : ∀ f : ApiStatistics → ℕ, (∀ id, f { apiId := id } = 0) →
      0 = ((emptyStatistics options).perApi.map f).sum := by
    intro f hf
    unfold emptyStatistics
    rw [List.map_map]
    exact (List.sum_eq_zero fun n hn => by
      obtain ⟨id, -, rfl⟩ := List.mem_map.mp hn
      exact hf id).symm
  apply validateStatistics_of
  · intro api hapi
    obtain ⟨id, hid, rfl⟩ := List.mem_map.mp hapi
    exact ⟨apiIds_ne_zero hid, rfl, le_refl 0⟩
  · unfold emptyStatistics
    rw [List.map_map]
    exact (List.map_id _).symm ▸ apiIds_nodup options
  · exact ⟨hzero _ fun _ => rfl, hzero _ fun _ => rfl, hzero _ fun _ => rfl, hzero _ fun _ => rfl,
      hzero _ fun _ => rfl, Nat.zero_le _⟩
  · exact le_refl 0

theorem finalizeEmptyTrace_run {m : LinuxTraceWriter} (haccepted : options.Accepted)
    (hintact : Intact options m) (hreliable : Reliable options m)
    (hmetadata : writeMetadata options w = .ok () m)
    (hstored : statisticsBytes options ≤ options.trace.maxStoredChunkSize)
    (htotal : m.file.uncompressedPayloadBytesWritten +
      (statisticsBytes options + endOfTraceRecordSize) ≤ maxU64) :
    ∃ last, finalizeEmptyTrace options w = .ok () last ∧
      Terminated options m.file.chunks last := by
  have hready := hintact.ready haccepted.limits hreliable htotal
  rw [terminalReserve_eq] at hready
  have hready := hready.mono (Nat.le_add_left _ _) (le_refl _)
  have hunended : Unended m.completeness := ⟨hintact.unended, hintact.unstopped⟩
  have hapis : (emptyStatistics options).perApi.length = options.apiIds.length := by
    unfold emptyStatistics
    rw [List.length_map]
  obtain ⟨last, hlast, hterminated⟩ := writeTerminalRecords_run hready haccepted.limits hstored
    hapis emptyStatistics_valid hunended
  refine ⟨last, ?_, hterminated⟩
  unfold finalizeEmptyTrace releaseReserve
  rw [run_bind, hmetadata]
  exact hlast

theorem finalizeEmptyTrace_ok {m : LinuxTraceWriter} {u : Unit}
    (hmetadata : writeMetadata options w = .ok () m)
    (hrun : finalizeEmptyTrace options w = .ok u w')
    (hterminated : Terminated options m.file.chunks w') :
    statisticsBytes options ≤ options.trace.maxStoredChunkSize ∧
      m.file.uncompressedPayloadBytesWritten +
        (statisticsBytes options + endOfTraceRecordSize) ≤ maxU64 := by
  unfold finalizeEmptyTrace releaseReserve at hrun
  rw [run_bind, hmetadata] at hrun
  obtain ⟨_, n, hrelease, hrun⟩ := run_bind_eq_ok.mp hrun
  obtain rfl := run_modify_eq_ok.mp hrelease
  obtain ⟨-, hstored, htotal, -⟩ :=
    writeTerminalRecords_ok hrun hterminated.statistics hterminated.endOfTrace
  rw [List.length_map] at hstored htotal
  exact ⟨hstored, htotal⟩

theorem finalizeEmptyTrace_error {m : LinuxTraceWriter} {e : Error}
    (hmetadata : writeMetadata options w = .ok () m) (hm : Unfinished options m)
    (hrun : finalizeEmptyTrace options w = .error e w') : w'.endOfTraceWritten = false := by
  unfold finalizeEmptyTrace releaseReserve at hrun
  rw [run_bind, hmetadata] at hrun
  rcases run_bind_eq_error.mp hrun with hrun | ⟨_, n, hrelease, hrun⟩
  · cases hrun
  obtain rfl := run_modify_eq_ok.mp hrelease
  have hm : Unfinished options { m with file := m.file.releaseFileReserve } := hm
  exact writeTerminalRecords_error hm hrun

/-! ## The result -/

/-- With no stream failure, the finalization of a capture writes the Loss chunk, the
statistics and the end, within the file limit, exactly when it finds the drop range in
order, the counters reconciled and the sizes within the chunk and the payload limits; a
capture that never began needs the size limits only. -/
theorem terminal_records_written (haccepted : options.Accepted) :
    (∀ baselines actions lastSample w, AtFinalize options baselines actions lastSample w →
      Reliable options w →
      (Terminated options (w.file.chunks ++ lossChunks w)
          (exitState (finalizeTrace options) w) ↔ Finishable options w)) ∧
    ∀ w m, Unbegun options w → writeMetadata options w = .ok () m → Reliable options m →
      (Terminated options m.file.chunks (exitState (finalizeEmptyTrace options) w) ↔
        statisticsBytes options ≤ options.trace.maxStoredChunkSize ∧
        m.file.uncompressedPayloadBytesWritten +
          (statisticsBytes options + endOfTraceRecordSize) ≤ maxU64) := by
  constructor
  · intro baselines actions lastSample w hw hreliable
    rw [← finalizeTrace_ends haccepted hw hreliable]
    constructor
    · intro hterminated
      cases hrun : finalizeTrace options w with
      | ok u m =>
          rw [exitState_of_ok hrun] at hterminated
          exact ⟨m, rfl, hterminated⟩
      | error e m =>
          have hintact := atFinalize_intact haccepted hw
          rw [exitState_of_error hrun] at hterminated
          have hunfinished := finalizeTrace_error ⟨hintact.unfinished, hreliable⟩ hrun
          rw [hterminated.endOfTrace] at hunfinished
          cases hunfinished
    · intro ⟨m, hrun, hterminated⟩
      rwa [exitState_of_ok hrun]
  · intro w m hw hmetadata hreliable
    have hintact := writeMetadata_keeps.ok (hw.intact haccepted) hmetadata
    constructor
    · intro hterminated
      cases hrun : finalizeEmptyTrace options w with
      | ok u last =>
          rw [exitState_of_ok hrun] at hterminated
          exact finalizeEmptyTrace_ok hmetadata hrun hterminated
      | error e last =>
          rw [exitState_of_error hrun] at hterminated
          have hunfinished :=
            finalizeEmptyTrace_error hmetadata ⟨hintact.unfinished, hreliable⟩ hrun
          rw [hterminated.endOfTrace] at hunfinished
          cases hunfinished
    · rintro ⟨hstored, htotal⟩
      obtain ⟨last, hrun, hterminated⟩ :=
        finalizeEmptyTrace_run haccepted hintact hreliable hmetadata hstored htotal
      rwa [exitState_of_ok hrun]

/-- One allocation is written and the trace is terminated. -/
theorem terminal_records_written_allocation :
    ∃ w, AtFinalize sampleOptions [] [.event (sampleAllocation 1)] none w ∧
      Terminated sampleOptions (w.file.chunks ++ lossChunks w)
        (exitState (finalizeTrace sampleOptions) w) := by
  have hrun : wp (do
      beginCapture sampleOptions []
      captureLoop sampleOptions [.event (sampleAllocation 1)]
      flushPending sampleOptions : WriterM Unit)
      (fun _ w => w.traceDroppedEvents = 0 ∧
        (sampleOptions.apiIds.map fun id => (entryOf sampleOptions w id).observedCalls).sum ≤
          maxU64 ∧
        w.file.uncompressedPayloadBytesWritten + lossBytes sampleOptions w +
          (statisticsBytes sampleOptions + endOfTraceRecordSize) ≤ maxU64)
      (fun _ _ => False) (.start sampleOptions) := by
    decide +kernel
  obtain ⟨_, k, hrun, hdropped, hsum, htotal⟩ := wp_run hrun
  obtain ⟨_, m, hbegin, hrun⟩ := run_bind_eq_ok.mp hrun
  obtain ⟨_, w, hloop, hflush⟩ := run_bind_eq_ok.mp hrun
  have hk : AtFinalize sampleOptions [] [.event (sampleAllocation 1)] none k :=
    ⟨w, k, run_bind_eq_ok.mpr ⟨_, m, hbegin, hloop⟩, hflush, rfl⟩
  have hagrees : ∀ id ∈ sampleOptions.apiIds, ∀ snapshot ∈ snapshotOf sampleOptions false id,
      Agrees (k.counters id) snapshot := by
    intro id _ snapshot hsnapshot
    cases hsnapshot
  refine ⟨k, hk, ((terminal_records_written sampleOptions_accepted).1 _ _ _ k hk
    fun _ _ => rfl).mpr ⟨fun h => absurd hdropped h, ⟨hagrees, hsum⟩, by decide, htotal⟩⟩

/-- A file with room for its metadata and hardly anything else. -/
def fullOptions : WriterOptions :=
  { sampleOptions with trace := { sampleOptions.trace with maxFileSize := 2336 } }

/-- A memory sample meets the limit while an event is pending; the next event is dropped
first, the drop range ends before it begins, and the trace has no end. -/
theorem terminal_records_reversed :
    fullOptions.Accepted ∧ ∃ w, AtFinalize fullOptions []
        [.event (sampleAllocation 1), .memory 12 [.counters], .event (sampleAllocation 2)] none w ∧
      Reliable fullOptions w ∧ w.traceDropSequenceBegin = 2 ∧ w.traceDropSequenceEnd = 1 ∧
      ¬ Terminated fullOptions (w.file.chunks ++ lossChunks w)
        (exitState (finalizeTrace fullOptions) w) := by
  refine ⟨⟨⟨fullOptions, rfl⟩, rfl⟩, ?_⟩
  have hrun : wp (do
      beginCapture fullOptions []
      captureLoop fullOptions
        [.event (sampleAllocation 1), .memory 12 [.counters], .event (sampleAllocation 2)]
      flushPending fullOptions : WriterM Unit)
      (fun _ w => w.traceDropSequenceBegin = 2 ∧ w.traceDropSequenceEnd = 1 ∧
        (exitState (finalizeTrace fullOptions) w).endOfTraceWritten = false)
      (fun _ _ => False) (.start fullOptions) := by
    decide +kernel
  obtain ⟨_, k, hrun, hbegin, hend, hunfinished⟩ := wp_run hrun
  obtain ⟨_, m, hstart, hrun⟩ := run_bind_eq_ok.mp hrun
  obtain ⟨_, w, hloop, hflush⟩ := run_bind_eq_ok.mp hrun
  refine ⟨k, ⟨w, k, run_bind_eq_ok.mpr ⟨_, m, hstart, hloop⟩, hflush, rfl⟩, fun _ _ => rfl, hbegin,
    hend, fun hterminated => ?_⟩
  rw [hterminated.endOfTrace] at hunfinished
  cases hunfinished

end Noleax.Capture
