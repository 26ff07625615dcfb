import Noleax.Capture.Exits

/-!
# What the error tail writes

`write_error_tail` when none of its stages fails: a chunk with the collected losses
and the writer's own, the statistics if there are none yet, and an abnormal end.
-/

namespace Noleax.Agent.LinuxTraceWriter

open Lib Trace Noleax.Capture

variable {options : WriterOptions} {w w' : LinuxTraceWriter}

/-- A stage that was attempted either ran or threw. -/
theorem attempt_ok {stage : WriterM Unit} {failure : Option Error}
    (h : attempt stage w = .ok failure w') :
    (failure = none ∧ stage w = .ok () w') ∨ ∃ e, failure = some e ∧ stage w = .error e w' := by
  unfold attempt at h
  cases hrun : stage w with
  | ok u m =>
      rw [hrun] at h
      cases h
      exact .inl ⟨rfl, rfl⟩
  | error e m =>
      rw [hrun] at h
      cases h
      exact .inr ⟨e, rfl, rfl⟩

theorem attempt_none {stage : WriterM Unit} (h : attempt stage w = .ok none w') :
    stage w = .ok () w' := by
  rcases attempt_ok h with ⟨-, hrun⟩ | ⟨e, heq, -⟩
  · exact hrun
  · cases heq

/-- The members when the tail starts. -/
def tailBegun (w : LinuxTraceWriter) : LinuxTraceWriter :=
  { w with errorTailAttempted := true, file := w.file.releaseFileReserve }

/-- A tail that returns was skipped, or all its stages ran. -/
theorem writeErrorTail_ok {u : Unit} (h : writeErrorTail options w = .ok u w') :
    ((w.errorTailAttempted = true ∨ w.endOfTraceWritten = true) ∧ w' = w) ∨
    (w.errorTailAttempted = false ∧ w.endOfTraceWritten = false ∧ ∃ m₁ m₂,
      writeErrorLoss options w.tailBegun = .ok () m₁ ∧
      ((m₁.statisticsWritten = true ∧ m₂ = m₁) ∨
        (m₁.statisticsWritten = false ∧ writeErrorStatistics options m₁ = .ok () m₂)) ∧
      writeErrorEnd options m₂ = .ok () w') := by
  unfold writeErrorTail releaseReserve at h
  obtain ⟨_, _, hget, h⟩ := run_bind_eq_ok.mp h
  obtain ⟨rfl, rfl⟩ := run_get_eq_ok.mp hget
  by_cases hskip : w.errorTailAttempted = true ∨ w.endOfTraceWritten = true
  · rw [if_pos hskip, run_pure_eq_ok] at h
    exact .inl ⟨hskip, h.2.symm⟩
  rw [if_neg hskip] at h
  obtain ⟨_, k₀, hbegin, h⟩ := run_bind_eq_ok.mp h
  obtain rfl := run_modify_eq_ok.mp hbegin
  obtain ⟨_, k, hrelease, h⟩ := run_bind_eq_ok.mp h
  obtain rfl := run_modify_eq_ok.mp hrelease
  obtain ⟨lossFailure, m₁, hloss, h⟩ := run_bind_eq_ok.mp h
  obtain ⟨_, _, hget, h⟩ := run_bind_eq_ok.mp h
  obtain ⟨rfl, rfl⟩ := run_get_eq_ok.mp hget
  push Not at hskip
  have hflags : w.errorTailAttempted = false ∧ w.endOfTraceWritten = false := by
    simpa using hskip
  refine .inr ⟨hflags.1, hflags.2, m₁, ?_⟩
  by_cases hwritten : m₁.statisticsWritten = false
  · rw [if_pos hwritten] at h
    obtain ⟨statisticsFailure, m₂, hstatistics, h⟩ := run_bind_eq_ok.mp h
    obtain ⟨endFailure, n, hend, h⟩ := run_bind_eq_ok.mp h
    cases hfirst : lossFailure.or (statisticsFailure.or endFailure) with
    | some failure =>
        rw [hfirst] at h
        cases h
    | none =>
        rw [hfirst] at h
        obtain rfl := (run_pure_eq_ok.mp h).2
        -- the rethrown failure is the first one, so there was none
        rw [Option.or_eq_none_iff, Option.or_eq_none_iff] at hfirst
        obtain ⟨rfl, rfl, rfl⟩ := hfirst
        exact ⟨m₂, attempt_none hloss, .inr ⟨hwritten, attempt_none hstatistics⟩, attempt_none hend⟩
  · rw [if_neg hwritten] at h
    obtain ⟨statisticsFailure, m₂, hpure, h⟩ := run_bind_eq_ok.mp h
    obtain ⟨rfl, rfl⟩ := run_pure_eq_ok.mp hpure
    obtain ⟨endFailure, n, hend, h⟩ := run_bind_eq_ok.mp h
    cases hfirst : lossFailure.or (Option.none.or endFailure) with
    | some failure =>
        rw [hfirst] at h
        cases h
    | none =>
        rw [hfirst] at h
        obtain rfl := (run_pure_eq_ok.mp h).2
        rw [Option.or_eq_none_iff, Option.none_or] at hfirst
        obtain ⟨rfl, rfl⟩ := hfirst
        exact ⟨m₁, attempt_none hloss, .inl ⟨by simpa using hwritten, rfl⟩, attempt_none hend⟩

/-- The drop counters stay as they were. -/
structure SameDrops (w w' : LinuxTraceWriter) : Prop where
  queue : w'.queueDroppedEvents = w.queueDroppedEvents
  modules : w'.moduleNotificationDrops = w.moduleNotificationDrops
  trace : w'.traceDroppedEvents = w.traceDroppedEvents

theorem SameDrops.trans {a b c : LinuxTraceWriter} (hab : SameDrops a b) (hbc : SameDrops b c) :
    SameDrops a c :=
  ⟨hbc.queue.trans hab.queue, hbc.modules.trans hab.modules, hbc.trace.trans hab.trace⟩

/-- A terminal chunk write adds the chunk if it was written, and drops nothing. -/
theorem writeTerminalChunk_chunks {chunk : Chunk} {written : Bool}
    (h : writeTerminalChunk options chunk w = .ok written w') :
    w'.file.chunks = w.file.chunks ++ (if written then [chunk] else []) ∧ SameDrops w w' ∧
      w'.statisticsWritten = w.statisticsWritten := by
  rcases writeChunk_ok h with ⟨rfl, file, hwrite, rfl⟩ | ⟨rfl, -, rfl⟩
  · obtain ⟨-, rfl⟩ := TraceWriter.writeChunk_eq_some.mp hwrite
    exact ⟨rfl, ⟨rfl, rfl, rfl⟩, rfl⟩
  · exact ⟨(List.append_nil _).symm, ⟨rfl, rfl, rfl⟩, rfl⟩

/-- The chunk of losses an error tail writes. -/
def errorLossChunk (w : LinuxTraceWriter) (unwritten : ℕ) : Chunk where
  payload := .events (collectedLosses w ++ [.loss (writerErrorLoss unwritten)])

theorem writeErrorLoss_ok {u : Unit} (h : writeErrorLoss options w = .ok u w') :
    ∃ unwritten completeness, w.consumedButUnwrittenEvents options = .ok unwritten ∧ ∃ written,
      writeTerminalChunk options (w.errorLossChunk unwritten)
        { w with completeness := completeness } = .ok written w' := by
  unfold writeErrorLoss at h
  obtain ⟨losses, m, hlosses, h⟩ := run_bind_eq_ok.mp h
  obtain ⟨rfl, completeness, rfl⟩ := appendCollectedLossRecords_ok hlosses
  obtain ⟨_, _, hget, h⟩ := run_bind_eq_ok.mp h
  obtain ⟨rfl, rfl⟩ := run_get_eq_ok.mp hget
  rw [WriterM.lift_eq_check] at h
  obtain ⟨unwritten, _, hcheck, h⟩ := run_bind_eq_ok.mp h
  obtain ⟨hunwritten, rfl⟩ := run_check_eq_ok.mp hcheck
  obtain ⟨losses, m, happend, h⟩ := run_bind_eq_ok.mp h
  obtain ⟨rfl, -, after, -, rfl⟩ := appendLoss_ok happend
  obtain ⟨written, m, hwrite, h⟩ := run_bind_eq_ok.mp h
  obtain ⟨-, rfl⟩ := run_pure_eq_ok.mp h
  exact ⟨unwritten, after, hunwritten, written, hwrite⟩

theorem writeErrorStatistics_ok {u : Unit} (h : writeErrorStatistics options w = .ok u w') :
    ∃ statistics, w.makeErrorStatistics options = .ok statistics ∧
      writeStatistics options statistics w = .ok () w' := by
  unfold writeErrorStatistics at h
  obtain ⟨_, _, hget, h⟩ := run_bind_eq_ok.mp h
  obtain ⟨rfl, rfl⟩ := run_get_eq_ok.mp hget
  rw [WriterM.lift_eq_check] at h
  obtain ⟨statistics, _, hcheck, h⟩ := run_bind_eq_ok.mp h
  obtain ⟨hmake, rfl⟩ := run_check_eq_ok.mp hcheck
  exact ⟨statistics, hmake, h⟩

theorem writeErrorEnd_ok {u : Unit} (h : writeErrorEnd options w = .ok u w') :
    writeEndOfTrace options (w.abnormalEnd options) w = .ok () w' := by
  unfold writeErrorEnd at h
  obtain ⟨_, _, hget, h⟩ := run_bind_eq_ok.mp h
  obtain ⟨rfl, rfl⟩ := run_get_eq_ok.mp hget
  exact h

/-- The tail that ran, with every chunk it had to write in the file. -/
def TailWritten (options : WriterOptions) (w w' : LinuxTraceWriter) : Prop :=
  writeErrorTail options w = .ok () w' ∧
    (w.errorTailAttempted = false → w.endOfTraceWritten = false →
      w'.file.chunks.length = w.file.chunks.length + if w.statisticsWritten then 2 else 3)

theorem writeErrorLoss_chunks {u : Unit} (h : writeErrorLoss options w = .ok u w') :
    ∃ unwritten, ∃ written : Bool, w'.file.chunks = w.file.chunks ++
        (if written then [w.errorLossChunk unwritten] else []) ∧ SameDrops w w' ∧
      w'.statisticsWritten = w.statisticsWritten := by
  obtain ⟨unwritten, completeness, -, written, hwrite⟩ := writeErrorLoss_ok h
  obtain ⟨hchunks, hdrops, hstatistics⟩ := writeTerminalChunk_chunks hwrite
  exact ⟨unwritten, written, hchunks, ⟨hdrops.queue, hdrops.modules, hdrops.trace⟩, hstatistics⟩

theorem writeStatistics_chunks {statistics : CaptureStatistics} {u : Unit}
    (h : writeStatistics options statistics w = .ok u w') :
    ∃ written : Bool, w'.file.chunks = w.file.chunks ++
        (if written then [{ payload := .statistics statistics }] else []) ∧ SameDrops w w' := by
  obtain ⟨-, written, m, hwrite, rfl⟩ := writeStatistics_ok h
  obtain ⟨hchunks, hdrops, -⟩ := writeTerminalChunk_chunks hwrite
  exact ⟨written, hchunks, ⟨hdrops.queue, hdrops.modules, hdrops.trace⟩⟩

theorem writeEndOfTrace_chunks {trace : EndOfTrace} {u : Unit}
    (h : writeEndOfTrace options trace w = .ok u w') :
    ∃ written : Bool, w'.file.chunks = w.file.chunks ++
        (if written then [{ payload := .endOfTrace trace }] else []) ∧ SameDrops w w' := by
  obtain ⟨written, m, hwrite, rfl⟩ := writeEndOfTrace_ok h
  obtain ⟨hchunks, hdrops, -⟩ := writeTerminalChunk_chunks hwrite
  exact ⟨written, hchunks, ⟨hdrops.queue, hdrops.modules, hdrops.trace⟩⟩

/-- The chunks of a tail. -/
theorem TailWritten.chunks (h : TailWritten options w w') (huntried : w.errorTailAttempted = false)
    (hunfinished : w.endOfTraceWritten = false) :
    SameDrops w w' ∧ ∃ unwritten terminal trace,
      w'.file.chunks = w.file.chunks ++ w.errorLossChunk unwritten ::
        (terminal ++ [{ payload := .endOfTrace trace }]) ∧
      (terminal = [] ∨ ∃ statistics, terminal = [{ payload := .statistics statistics }]) := by
  obtain ⟨hrun, hcount⟩ := h
  have hcount := hcount huntried hunfinished
  rcases writeErrorTail_ok hrun with ⟨hskip, -⟩ | ⟨-, -, m₁, m₂, hloss, hstatistics, hend⟩
  · rw [huntried, hunfinished] at hskip
    rcases hskip with h | h <;> cases h
  obtain ⟨unwritten, written₁, hfile₁, hdrops₁, hflag⟩ := writeErrorLoss_chunks hloss
  have hdrops₁ : SameDrops w m₁ := ⟨hdrops₁.queue, hdrops₁.modules, hdrops₁.trace⟩
  obtain ⟨written₃, hfile₃, hdrops₃⟩ := writeEndOfTrace_chunks (writeErrorEnd_ok hend)
  change m₁.file.chunks = w.file.chunks ++
    if written₁ then [w.errorLossChunk unwritten] else [] at hfile₁
  change m₁.statisticsWritten = w.statisticsWritten at hflag
  rw [hflag] at hstatistics
  generalize m₂.abnormalEnd options = trace at hfile₃
  rcases hstatistics with ⟨hwritten, rfl⟩ | ⟨hwritten, hstatistics⟩
  · rw [hfile₁] at hfile₃
    rw [hwritten, hfile₃] at hcount
    refine ⟨hdrops₁.trans hdrops₃, unwritten, [], trace, ?_, .inl rfl⟩
    cases written₁ with
    | false => cases written₃ <;> simp at hcount
    | true =>
        cases written₃ with
        | false => simp at hcount
        | true =>
            rw [hfile₃]
            simp
  · obtain ⟨statistics, -, hwriteStatistics⟩ := writeErrorStatistics_ok hstatistics
    obtain ⟨written₂, hfile₂, hdrops₂⟩ := writeStatistics_chunks hwriteStatistics
    rw [hfile₁] at hfile₂
    rw [hfile₂] at hfile₃
    rw [hwritten, hfile₃] at hcount
    refine ⟨(hdrops₁.trans hdrops₂).trans hdrops₃, unwritten,
      [{ payload := .statistics statistics }], trace, ?_, .inr ⟨statistics, rfl⟩⟩
    cases written₁ with
    | false => cases written₂ <;> cases written₃ <;> simp at hcount
    | true =>
        cases written₂ with
        | false => cases written₃ <;> simp at hcount
        | true =>
            cases written₃ with
            | false => simp at hcount
            | true =>
                rw [hfile₃]
                simp

end Noleax.Agent.LinuxTraceWriter
