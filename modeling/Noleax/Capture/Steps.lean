import Noleax.Agent.Finalize
import Noleax.Lib.Stateful

/-!
# What each function of the writer does when it returns

One inversion lemma per member function: the state a successful call leaves
behind, as an update of the one it found. Every later proof about runs uses these
and unfolds nothing.
-/

namespace Noleax.Agent

open Lib Trace

theorem WriterM.lift_eq_check {α : Type} (x : Except Error α) : WriterM.lift x = check x := by
  cases x <;> rfl

theorem checkedAdd_eq_ok {value addition total : ℕ} {subject : String}
    (hvalue : value ≤ maxU64) :
    checkedAdd value addition subject = .ok total ↔
      value + addition ≤ maxU64 ∧ total = value + addition := by
  unfold checkedAdd
  split
  · constructor
    · intro h
      cases h
    · rintro ⟨h, -⟩
      omega
  · constructor
    · intro h
      cases h
      exact ⟨by omega, rfl⟩
    · rintro ⟨-, rfl⟩
      rfl

theorem checkedAdd_of {value addition : ℕ} {subject : String} (h : value + addition ≤ maxU64) :
    checkedAdd value addition subject = .ok (value + addition) := by
  unfold checkedAdd
  rw [if_neg (by omega)]

/-- What is added is what comes out. -/
theorem checkedAdd_ok {value addition total : ℕ} {subject : String}
    (h : checkedAdd value addition subject = .ok total) : total = value + addition := by
  unfold checkedAdd at h
  split at h
  · cases h
  · cases h
    rfl

namespace LinuxTraceWriter

variable {options : WriterOptions} {w w' : LinuxTraceWriter}

/-! ## Chunks -/

theorem streamOperation_ok {what : String} {u : Unit}
    (h : streamOperation options what w = .ok u w') :
    options.fault w.streamOperations = false ∧
      w' = { w with streamOperations := w.streamOperations + 1 } := by
  unfold streamOperation at h
  simp only [run_bind_eq_ok, run_get_eq_ok, run_set_eq_ok] at h
  obtain ⟨_, _, ⟨rfl, rfl⟩, _, _, rfl, h⟩ := h
  cases hfault : options.fault w.streamOperations with
  | true =>
      rw [hfault, if_pos rfl, run_throw] at h
      cases h
  | false =>
      rw [hfault, if_neg Bool.false_ne_true, run_pure_eq_ok] at h
      exact ⟨rfl, h.2.symm⟩

theorem writeChunk_ok {chunk : Chunk} {compress written : Bool}
    (h : writeChunk options chunk compress w = .ok written w') :
    (written = true ∧ ∃ file,
      w.file.writeChunk options.trace options.encoding chunk compress = .ok (some file) ∧
      w' = { w with streamOperations := w.streamOperations + 1, file := file }) ∨
    (written = false ∧
      w.file.writeChunk options.trace options.encoding chunk compress = .ok none ∧
      w' = { w with streamOperations := w.streamOperations + 1, fileLimitReached := true }) := by
  unfold writeChunk at h
  rw [run_bind_eq_ok] at h
  obtain ⟨_, m, hstream, h⟩ := h
  obtain ⟨-, rfl⟩ := streamOperation_ok hstream
  simp only [run_bind_eq_ok, run_get_eq_ok, WriterM.lift_eq_check, run_check_eq_ok] at h
  obtain ⟨_, _, ⟨rfl, rfl⟩, result, _, ⟨hwrite, rfl⟩, h⟩ := h
  cases result with
  | none =>
      simp only [run_bind_eq_ok, run_set_eq_ok, run_pure_eq_ok] at h
      obtain ⟨_, _, rfl, rfl, rfl⟩ := h
      exact .inr ⟨rfl, hwrite, rfl⟩
  | some file =>
      simp only [run_bind_eq_ok, run_set_eq_ok, run_pure_eq_ok] at h
      obtain ⟨_, _, rfl, rfl, rfl⟩ := h
      exact .inl ⟨rfl, file, hwrite, rfl⟩

/-- A file that grew by chunks that were written to it. -/
inductive Grown (options : WriterOptions) (file : TraceWriter) : TraceWriter → Prop
  | refl : Grown options file file
  | step {before : TraceWriter} (h : Grown options file before) (chunk : Chunk) (compress : Bool)
      (hadmits : before.Admits options.trace options.encoding chunk compress) :
      Grown options file (before.withChunk options.encoding chunk compress)

theorem Grown.trans {a b c : TraceWriter} (hab : Grown options a b) (hbc : Grown options b c) :
    Grown options a c := by
  induction hbc with
  | refl => exact hab
  | step h chunk compress hadmits ih => exact ih.step chunk compress hadmits

/-- Members a chunk write may change: the file, the operation count and the limit,
which never goes away again. -/
def Filed (options : WriterOptions) (w w' : LinuxTraceWriter) : Prop :=
  ∃ operations file limit, Grown options w.file file ∧
    (w.fileLimitReached = true → limit = true) ∧
    w' = { w with
      streamOperations := operations
      file := file
      fileLimitReached := limit }

theorem Filed.refl (w : LinuxTraceWriter) : Filed options w w :=
  ⟨w.streamOperations, w.file, w.fileLimitReached, .refl, id, rfl⟩

theorem Filed.trans {a b c : LinuxTraceWriter} (hab : Filed options a b)
    (hbc : Filed options b c) : Filed options a c := by
  obtain ⟨o₁, f₁, l₁, hgrown₁, hlimit₁, rfl⟩ := hab
  obtain ⟨o₂, f₂, l₂, hgrown₂, hlimit₂, rfl⟩ := hbc
  exact ⟨o₂, f₂, l₂, hgrown₁.trans hgrown₂, fun h => hlimit₂ (hlimit₁ h), rfl⟩

theorem writeChunk_filed {chunk : Chunk} {compress written : Bool}
    (h : writeChunk options chunk compress w = .ok written w') : Filed options w w' := by
  rcases writeChunk_ok h with ⟨-, file, hwrite, rfl⟩ | ⟨-, -, rfl⟩
  · obtain ⟨hadmits, rfl⟩ := TraceWriter.writeChunk_eq_some.mp hwrite
    exact ⟨_, _, w.fileLimitReached, .step .refl chunk compress hadmits, id, rfl⟩
  · exact ⟨_, w.file, true, .refl, fun _ => rfl, rfl⟩

/-- A chunk that was not written met the limit. -/
theorem writeChunk_limit {chunk : Chunk} {compress : Bool}
    (h : writeChunk options chunk compress w = .ok false w') : w'.fileLimitReached = true := by
  rcases writeChunk_ok h with ⟨hwritten, -⟩ | ⟨-, -, rfl⟩
  · cases hwritten
  · rfl

theorem flushStream_ok {u : Unit} (h : flushStream options w = .ok u w') :
    w' = { w with streamOperations := w.streamOperations + 1 } := (streamOperation_ok h).2

/-! ## Flushing -/

/-- The module buffer after its flush: discarded, and in the file if a chunk was written. -/
theorem flushModulePayload_ok {u : Unit} (h : flushModulePayload options w = .ok u w') :
    (w.modulePayload = [] ∧ w' = w) ∨
    (w.modulePayload ≠ [] ∧ w.fileLimitReached = true ∧ w' = { w with modulePayload := [] }) ∨
    (w.modulePayload ≠ [] ∧ w.fileLimitReached = false ∧ ∃ written m,
      writeChunk options { payload := .modules w.modulePayload } true w = .ok written m ∧
      w' = { m with modulePayload := [] }) := by
  unfold flushModulePayload at h
  rw [run_bind_eq_ok] at h
  obtain ⟨_, _, hget, h⟩ := h
  obtain ⟨rfl, rfl⟩ := run_get_eq_ok.mp hget
  by_cases hempty : w.modulePayload = []
  · rw [if_pos hempty, run_pure_eq_ok] at h
    exact .inl ⟨hempty, h.2.symm⟩
  rw [if_neg hempty] at h
  by_cases hlimit : w.fileLimitReached = false
  · rw [if_pos hlimit] at h
    simp only [run_bind_eq_ok, run_modify_eq_ok] at h
    obtain ⟨written, m, hwrite, rfl⟩ := h
    exact .inr (.inr ⟨hempty, hlimit, written, m, hwrite, rfl⟩)
  · rw [if_neg hlimit, run_modify_eq_ok] at h
    exact .inr (.inl ⟨hempty, by simpa using hlimit, h.symm⟩)

theorem flushModulePayload_filed {u : Unit} (h : flushModulePayload options w = .ok u w') :
    ∃ m, Filed options w m ∧ w' = { m with modulePayload := [] } := by
  rcases flushModulePayload_ok h with ⟨hempty, rfl⟩ | ⟨-, -, rfl⟩ | ⟨-, -, written, m, hwrite, rfl⟩
  · refine ⟨w', .refl w', ?_⟩
    rw [← hempty]
  · exact ⟨w, .refl w, rfl⟩
  · exact ⟨m, writeChunk_filed hwrite, rfl⟩

/-- The drop accounting of the buffered events. -/
def notedDropped (w : LinuxTraceWriter) : LinuxTraceWriter :=
  { w with
    traceDropSequenceBegin :=
      if w.traceDroppedEvents = 0 then w.pendingSequenceBegin else w.traceDropSequenceBegin
    traceDropTickBegin :=
      if w.traceDroppedEvents = 0 then w.pendingTickBegin else w.traceDropTickBegin
    traceDropSequenceEnd := w.pendingSequenceEnd
    traceDropTickEnd := w.pendingTickEnd
    traceDroppedEvents := w.traceDroppedEvents + w.pendingEventCount
    counters := fun api =>
      { w.counters api with
        traceDropped := (w.counters api).traceDropped + (w.counters api).pending } }

theorem dropPendingEvents_ok {u : Unit} (h : dropPendingEvents options w = .ok u w') :
    (w.pendingEventCount = 0 ∧ w' = w.clearPending) ∨
    (w.pendingEventCount ≠ 0 ∧ w' = w.notedDropped.clearPending) := by
  unfold dropPendingEvents at h
  rw [run_bind_eq_ok] at h
  obtain ⟨_, _, hget, h⟩ := h
  obtain ⟨rfl, rfl⟩ := run_get_eq_ok.mp hget
  by_cases hnone : w.pendingEventCount = 0
  · rw [if_neg (not_not.mpr hnone), run_modify_eq_ok] at h
    exact .inl ⟨hnone, h.symm⟩
  · rw [if_pos hnone] at h
    simp only [run_bind_eq_ok, run_modify_eq_ok, run_set_eq_ok, WriterM.lift_eq_check,
      run_check_eq_ok] at h
    obtain ⟨_, _, rfl, total, _, ⟨htotal, rfl⟩, _, _, rfl, _, _, ⟨-, rfl⟩, _, _, rfl, rfl⟩ := h
    rw [checkedAdd_ok htotal]
    exact .inr ⟨hnone, rfl⟩

/-- The accounting of an event chunk in the file. -/
def notedWritten (w : LinuxTraceWriter) : LinuxTraceWriter :=
  { w with
    writtenEvents := w.writtenEvents + w.pendingEventCount
    counters := fun api =>
      { w.counters api with written := (w.counters api).written + (w.counters api).pending }
    uniqueStacks := w.uniqueStacks + w.pendingUniqueStacks
    reusedStacks := w.reusedStacks + w.pendingReusedStacks }

theorem notePendingWritten_ok {u : Unit} (h : notePendingWritten options w = .ok u w') :
    w' = w.notedWritten.clearPending := by
  unfold notePendingWritten at h
  simp only [run_bind_eq_ok, run_get_eq_ok, run_modify_eq_ok, run_set_eq_ok,
    WriterM.lift_eq_check, run_check_eq_ok] at h
  obtain ⟨_, _, ⟨rfl, rfl⟩, total, _, ⟨htotal, rfl⟩, _, _, rfl, _, _, ⟨-, rfl⟩, _, _, rfl,
    unique, _, ⟨hunique, rfl⟩, reused, _, ⟨hreused, rfl⟩, _, _, rfl, rfl⟩ := h
  rw [checkedAdd_ok htotal, checkedAdd_ok hunique, checkedAdd_ok hreused]
  rfl

/-- A flush of the stack buffer: nothing to write, a chunk, or the limit. -/
theorem flushStackPayload_ok {written : Bool} (h : flushStackPayload options w = .ok written w') :
    (w.stackPayload = [] ∧ written = true ∧ w' = w) ∨
    (w.stackPayload ≠ [] ∧
      writeChunk options { payload := .stacks w.stackPayload } true w = .ok written w') := by
  unfold flushStackPayload at h
  rw [run_bind_eq_ok] at h
  obtain ⟨_, _, hget, h⟩ := h
  obtain ⟨rfl, rfl⟩ := run_get_eq_ok.mp hget
  by_cases hempty : w.stackPayload = []
  · rw [if_pos hempty, run_pure_eq_ok] at h
    exact .inl ⟨hempty, h.1.symm, h.2.symm⟩
  · rw [if_neg hempty] at h
    exact .inr ⟨hempty, h⟩

theorem flushStackPayload_filed {written : Bool}
    (h : flushStackPayload options w = .ok written w') : Filed options w w' := by
  rcases flushStackPayload_ok h with ⟨-, -, rfl⟩ | ⟨-, hwrite⟩
  · exact .refl w'
  · exact writeChunk_filed hwrite

theorem flushStackPayload_limit (h : flushStackPayload options w = .ok false w') :
    w'.fileLimitReached = true := by
  rcases flushStackPayload_ok h with ⟨-, hwritten, -⟩ | ⟨-, hwrite⟩
  · cases hwritten
  · exact writeChunk_limit hwrite

/-- The chunk of the buffered events. -/
def eventChunk (w : LinuxTraceWriter) : Chunk where
  payload := .events w.eventPayload
  sequenceBegin := w.pendingSequenceBegin
  sequenceEnd := w.pendingSequenceEnd

theorem flushEventPayload_eq :
    flushEventPayload options w = writeChunk options w.eventChunk true w := rfl

/-- How a flush of buffered events ends: they are dropped at one of four points, or
their chunk is in the file. -/
inductive FlushedEvents (options : WriterOptions) (w w' : LinuxTraceWriter) : Prop
  | limit (hlimit : w.fileLimitReached = true) (hdrop : dropPendingEvents options w = .ok () w')
  | stackLimit (m : LinuxTraceWriter) (hlimit : w.fileLimitReached = false)
      (hwrite : flushStackPayload options w = .ok false m)
      (hdrop : dropPendingEvents options m = .ok () w')
  | eventLimit (m n : LinuxTraceWriter) (hlimit : w.fileLimitReached = false)
      (hstacks : flushStackPayload options w = .ok true m)
      (hwrite : writeChunk options m.eventChunk true m = .ok false n)
      (hdrop : dropPendingEvents options n = .ok () w')
  | written (m n : LinuxTraceWriter) (hlimit : w.fileLimitReached = false)
      (hstacks : flushStackPayload options w = .ok true m)
      (hwrite : writeChunk options m.eventChunk true m = .ok true n)
      (hnote : notePendingWritten options n = .ok () w')

/-- The end of a flush, with its cases reduced to two: the buffers go where the limit
lets them. -/
theorem FlushedEvents.cases_limit {m : LinuxTraceWriter} (h : FlushedEvents options m w') :
    (∃ k, Filed options m k ∧ k.fileLimitReached = true ∧ dropPendingEvents options k = .ok () w') ∨
    (∃ k, Filed options m k ∧ notePendingWritten options k = .ok () w') := by
  cases h with
  | limit hlimit hdrop => exact .inl ⟨m, .refl m, hlimit, hdrop⟩
  | stackLimit k hlimit hwrite hdrop =>
      exact .inl ⟨k, flushStackPayload_filed hwrite, flushStackPayload_limit hwrite, hdrop⟩
  | eventLimit k n hlimit hstacks hwrite hdrop =>
      exact .inl ⟨n, (flushStackPayload_filed hstacks).trans (writeChunk_filed hwrite),
        writeChunk_limit hwrite, hdrop⟩
  | written k n hlimit hstacks hwrite hnote =>
      exact .inr ⟨n, (flushStackPayload_filed hstacks).trans (writeChunk_filed hwrite), hnote⟩

theorem flushPending_ok {u : Unit} (h : flushPending options w = .ok u w') :
    (w.pendingEventCount = 0 ∧ flushModulePayload options w = .ok () w') ∨
    (w.pendingEventCount ≠ 0 ∧ ∃ m, flushModulePayload options w = .ok () m ∧
      FlushedEvents options m w') := by
  unfold flushPending at h
  rw [run_bind_eq_ok] at h
  obtain ⟨_, _, hget, h⟩ := h
  obtain ⟨rfl, rfl⟩ := run_get_eq_ok.mp hget
  by_cases hnone : w.pendingEventCount = 0
  · rw [if_pos hnone] at h
    exact .inl ⟨hnone, h⟩
  rw [if_neg hnone, run_bind_eq_ok] at h
  obtain ⟨_, m, hmodules, h⟩ := h
  refine .inr ⟨hnone, m, hmodules, ?_⟩
  rw [run_bind_eq_ok] at h
  obtain ⟨_, _, hget, h⟩ := h
  obtain ⟨rfl, rfl⟩ := run_get_eq_ok.mp hget
  by_cases hlimit : m.fileLimitReached = true
  · rw [if_pos hlimit] at h
    exact .limit hlimit h
  rw [if_neg hlimit, run_bind_eq_ok] at h
  have hlimit : m.fileLimitReached = false := by simpa using hlimit
  obtain ⟨wrote, m₂, hstacks, h⟩ := h
  cases wrote with
  | false => exact .stackLimit m₂ hlimit hstacks h
  | true =>
      rw [if_pos rfl, run_bind_eq_ok] at h
      obtain ⟨wrote, m₃, hevents, h⟩ := h
      cases wrote with
      | false => exact .eventLimit m₂ m₃ hlimit hstacks hevents h
      | true => exact .written m₂ m₃ hlimit hstacks hevents h

/-! ## Events -/

theorem ensurePendingCapacity_ok {n : ℕ} {u : Unit}
    (h : ensurePendingCapacity options n w = .ok u w') :
    w' = w ∨ (w.pendingEventCount ≠ 0 ∧ flushPending options w = .ok () w') := by
  unfold ensurePendingCapacity at h
  rw [run_bind_eq_ok] at h
  obtain ⟨_, _, hget, h⟩ := h
  obtain ⟨rfl, rfl⟩ := run_get_eq_ok.mp hget
  split at h
  · rename_i hfull
    exact .inr ⟨hfull.1, h⟩
  · rw [run_pure_eq_ok] at h
    exact .inl h.2.symm

theorem admitEvent_ok {raw : LinuxHeapEvent} {ticks : ℕ}
    (h : admitEvent options raw w = .ok ticks w') :
    validateRawEvent ⟨options.monotonicOrigin, options.customHooks, w.lastSequence⟩ raw = .ok () ∧
      validateRawStack raw.stack = .ok () ∧ ticks = max raw.monotonicTicks w.lastTicks ∧
      w' = { w with lastSequence := raw.queueSequence, lastTicks := ticks } := by
  unfold admitEvent at h
  simp only [run_bind_eq_ok, run_get_eq_ok, run_set_eq_ok, WriterM.lift_eq_check,
    run_check_eq_ok, run_pure_eq_ok] at h
  obtain ⟨_, _, ⟨rfl, rfl⟩, _, _, ⟨hevent, rfl⟩, _, _, ⟨hstack, rfl⟩, _, _, rfl, rfl, rfl⟩ := h
  exact ⟨hevent, hstack, rfl, rfl⟩

theorem planEvent_ok {raw : LinuxHeapEvent} {plan : List VmPlanRecord}
    (h : planEvent options raw w = .ok plan w') :
    ∃ vm, ((raw.IsVm ∧ w.vm.planVmEvent options.vmContext raw = .ok (vm, plan)) ∨
      (¬ raw.IsVm ∧ plan = [] ∧ vm = w.vm)) ∧ w' = { w with vm := vm } := by
  unfold planEvent at h
  by_cases hvm : raw.IsVm
  · rw [if_pos hvm] at h
    simp only [run_bind_eq_ok, run_get_eq_ok, run_set_eq_ok, WriterM.lift_eq_check,
      run_check_eq_ok, run_pure_eq_ok] at h
    obtain ⟨_, _, ⟨rfl, rfl⟩, ⟨vm, _⟩, _, ⟨hplan, rfl⟩, _, _, rfl, rfl, rfl⟩ := h
    exact ⟨vm, .inl ⟨hvm, hplan⟩, rfl⟩
  · rw [if_neg hvm, run_pure_eq_ok] at h
    exact ⟨w.vm, .inr ⟨hvm, h.1.symm, rfl⟩, h.2.symm⟩

theorem updateCounters_self (api : ℕ) (counters : ApiCounters) :
    (w.updateCounters api counters).counters api = counters := Function.update_self ..

theorem updateCounters_twice (api : ℕ) (first second : ApiCounters) :
    (w.updateCounters api first).updateCounters api second = w.updateCounters api second := by
  unfold updateCounters
  rw [Function.update_idem]

/-- The counters of an API after an event of `n` records. -/
def countedOperations (counters : ApiCounters) (raw : LinuxHeapEvent) (n : ℕ) : ApiCounters :=
  let predicted := if raw.operation = .vmRemap ∧ raw.Succeeded ∧
    raw.resultAddress ≠ raw.address then 2 else 1
  { counters with
    successful := if raw.Succeeded then counters.successful + n else counters.successful
    failed := if raw.Succeeded then counters.failed else counters.failed + 1
    extraRecords := counters.extraRecords + (n - predicted) }

/-- The extra records of the counting, given the others. -/
theorem countExtra_ok {apiId n predicted before : ℕ} {u : Unit}
    (hbefore : (w.counters apiId).extraRecords = before)
    (h : (if predicted < n then do
        let total ← check (checkedAdd before (n - predicted) "extra wire record count overflow")
        modify fun w => w.updateCounters apiId { w.counters apiId with extraRecords := total }
      else pure () : WriterM Unit) w = .ok u w') :
    w' = w.updateCounters apiId
      { w.counters apiId with extraRecords := before + (n - predicted) } := by
  split at h
  · simp only [run_bind_eq_ok, run_modify_eq_ok, run_check_eq_ok] at h
    obtain ⟨total, _, ⟨htotal, rfl⟩, rfl⟩ := h
    rw [checkedAdd_ok htotal]
  · rw [run_pure_eq_ok] at h
    rw [← h.2, show n - predicted = 0 by omega, ← hbefore]
    unfold updateCounters
    rw [Nat.add_zero, Function.update_eq_self]

theorem countOperations_ok {raw : LinuxHeapEvent} {n : ℕ} {u : Unit}
    (h : countOperations options raw n w = .ok u w') :
    raw.apiId ∈ options.apiIds ∧
      w' = w.updateCounters raw.apiId (countedOperations (w.counters raw.apiId) raw n) := by
  unfold countOperations at h
  simp only [run_bind_eq_ok, run_get_eq_ok, WriterM.lift_eq_check, run_check_eq_ok] at h
  obtain ⟨_, _, ⟨rfl, rfl⟩, _, _, ⟨hknown, rfl⟩, h⟩ := h
  refine ⟨not_not.mp (failIf_eq_ok.mp hknown), ?_⟩
  by_cases hsucceeded : raw.Succeeded
  · rw [if_pos hsucceeded] at h
    simp only [run_bind_eq_ok, run_modify_eq_ok, run_check_eq_ok] at h
    obtain ⟨total, _, ⟨htotal, rfl⟩, _, _, rfl, h⟩ := h
    rw [countExtra_ok (by rw [updateCounters_self]) h, checkedAdd_ok htotal, updateCounters_twice,
      updateCounters_self]
    unfold countedOperations
    rw [if_pos hsucceeded, if_pos hsucceeded]
  · rw [if_neg hsucceeded] at h
    simp only [run_bind_eq_ok, run_modify_eq_ok, run_check_eq_ok] at h
    obtain ⟨total, _, ⟨htotal, rfl⟩, _, _, rfl, h⟩ := h
    rw [countExtra_ok (by rw [updateCounters_self]) h, checkedAdd_ok htotal, updateCounters_twice,
      updateCounters_self]
    unfold countedOperations
    rw [if_neg hsucceeded, if_neg hsucceeded]

/-- The members after an event took its wire sequences. -/
def tookSequences (w : LinuxTraceWriter) (n : ℕ) : LinuxTraceWriter :=
  { w with
    nextWireSequence := (w.nextWireSequence + n) % 2 ^ 64
    lastWireSequence := ((w.nextWireSequence + n) % 2 ^ 64 + (2 ^ 64 - 1)) % 2 ^ 64 }

theorem takeWireSequences_ok {n wireBegin : ℕ}
    (h : takeWireSequences n w = .ok wireBegin w') :
    ¬ maxU64 - w.nextWireSequence < (n + (2 ^ 64 - 1)) % 2 ^ 64 ∧
      wireBegin = w.nextWireSequence ∧ w' = w.tookSequences n := by
  unfold takeWireSequences at h
  simp only [run_bind_eq_ok, run_get_eq_ok, run_set_eq_ok, WriterM.lift_eq_check,
    run_check_eq_ok, run_pure_eq_ok] at h
  obtain ⟨_, _, ⟨rfl, rfl⟩, _, _, ⟨hspace, rfl⟩, _, _, rfl, rfl, rfl⟩ := h
  exact ⟨failIf_eq_ok.mp hspace, rfl, rfl⟩

theorem noteStackCaptureLoss_ok {raw : LinuxHeapEvent} {wireBegin n ticks : ℕ}
    {loss : Option LossRecord}
    (h : noteStackCaptureLoss raw wireBegin n ticks w = .ok loss w') :
    ∃ completeness,
      ((raw.stack.status ≠ .failed ∧ loss = none ∧ completeness = w.completeness) ∨
        (raw.stack.status = .failed ∧ loss = some (makeStackCaptureLoss wireBegin n ticks) ∧
          w.completeness.observeLoss (makeStackCaptureLoss wireBegin n ticks)
            = .ok completeness)) ∧
      w' = { w with completeness := completeness } := by
  unfold noteStackCaptureLoss at h
  by_cases hfailed : raw.stack.status = .failed
  · rw [if_pos hfailed] at h
    simp only [run_bind_eq_ok, run_get_eq_ok, run_set_eq_ok, WriterM.lift_eq_check,
      run_check_eq_ok, run_pure_eq_ok] at h
    obtain ⟨_, _, ⟨rfl, rfl⟩, completeness, _, ⟨hobserve, rfl⟩, _, _, rfl, rfl, rfl⟩ := h
    exact ⟨completeness, .inr ⟨hfailed, rfl, hobserve⟩, rfl⟩
  · rw [if_neg hfailed, run_pure_eq_ok] at h
    exact ⟨w.completeness, .inl ⟨hfailed, h.1.symm, rfl⟩, h.2.symm⟩

/-- The drop accounting of an event past the limit. -/
def notedEventDrop (w : LinuxTraceWriter) (apiId ticks wireBegin n : ℕ) : LinuxTraceWriter :=
  { w with
    traceDropSequenceBegin :=
      if w.traceDroppedEvents = 0 then wireBegin else w.traceDropSequenceBegin
    traceDropTickBegin := if w.traceDroppedEvents = 0 then ticks else w.traceDropTickBegin
    traceDropSequenceEnd := (wireBegin + n + (2 ^ 64 - 1)) % 2 ^ 64
    traceDropTickEnd := ticks
    traceDroppedEvents := w.traceDroppedEvents + n
    counters := Function.update w.counters apiId
      { w.counters apiId with traceDropped := (w.counters apiId).traceDropped + n } }

theorem noteEventTraceDrop_ok {raw : LinuxHeapEvent} {ticks wireBegin n : ℕ} {u : Unit}
    (h : noteEventTraceDrop raw ticks wireBegin n w = .ok u w') :
    w' = w.notedEventDrop raw.apiId ticks wireBegin n := by
  unfold noteEventTraceDrop at h
  simp only [run_bind_eq_ok, run_get_eq_ok, run_set_eq_ok, run_modify_eq_ok,
    WriterM.lift_eq_check, run_check_eq_ok] at h
  obtain ⟨_, _, ⟨rfl, rfl⟩, _, _, rfl, total, _, ⟨htotal, rfl⟩, _, _, rfl, dropped, _,
    ⟨hdropped, rfl⟩, rfl⟩ := h
  rw [checkedAdd_ok htotal, checkedAdd_ok hdropped]
  rfl

/-- What a successful `append_event` has put into the buffers. -/
structure Appended (options : WriterOptions) (raw : LinuxHeapEvent) (plan : List VmPlanRecord)
    (loss : Option LossRecord) (ticks wireBegin n : ℕ) (w w' : LinuxTraceWriter) where
  addition : EventAddition
  heap : HeapState
  records : List Event
  stack_eq : w.addStack raw loss = .ok addition
  records_eq : w.eventRecordsOf options raw plan (eventHeader raw ticks wireBegin addition.stackId)
    = .ok (heap, records)
  valid : records.forM validateEvent = .ok ()
  state_eq : w' = { w with
    heap := heap
    dictionary := addition.dictionary
    stackPayload := w.stackPayload ++ addition.stack
    eventPayload := w.eventPayload ++ addition.loss ++ records.map .event
    pendingSequenceBegin := if w.pendingEventCount = 0 then wireBegin else w.pendingSequenceBegin
    pendingTickBegin := if w.pendingEventCount = 0 then ticks else w.pendingTickBegin
    pendingSequenceEnd := w.lastWireSequence
    pendingTickEnd := ticks
    pendingEventCount := w.pendingEventCount + n
    counters := Function.update w.counters raw.apiId
      { w.counters raw.apiId with pending := (w.counters raw.apiId).pending + n }
    pendingUniqueStacks := w.pendingUniqueStacks + addition.unique
    pendingReusedStacks := w.pendingReusedStacks + addition.reused
    planned := w.planned ++ records }

theorem appendEvent_ok {raw : LinuxHeapEvent} {plan : List VmPlanRecord}
    {loss : Option LossRecord} {ticks wireBegin n : ℕ}
    (h : w.appendEvent options raw plan loss ticks wireBegin n = .ok w') :
    Nonempty (Appended options raw plan loss ticks wireBegin n w w') := by
  unfold appendEvent at h
  obtain ⟨addition, hstack, h⟩ := bind_eq_ok.mp h
  obtain ⟨⟨heap, records⟩, hrecords, h⟩ := bind_eq_ok.mp h
  obtain ⟨_, hvalid, h⟩ := bind_eq_ok.mp h
  obtain ⟨count, hcount, h⟩ := bind_eq_ok.mp h
  obtain ⟨pending, hpending, h⟩ := bind_eq_ok.mp h
  obtain ⟨unique, hunique, h⟩ := bind_eq_ok.mp h
  obtain ⟨reused, hreused, h⟩ := bind_eq_ok.mp h
  cases h
  refine ⟨⟨addition, heap, records, hstack, hrecords, hvalid, ?_⟩⟩
  rw [checkedAdd_ok hcount, checkedAdd_ok hpending, checkedAdd_ok hunique, checkedAdd_ok hreused]

theorem bufferEvent_ok {raw : LinuxHeapEvent} {plan : List VmPlanRecord}
    {loss : Option LossRecord} {ticks wireBegin n : ℕ} {u : Unit}
    (h : bufferEvent options raw plan loss ticks wireBegin n w = .ok u w') :
    ∃ m, w.appendEvent options raw plan loss ticks wireBegin n = .ok m ∧
      (w' = m ∨ flushPending options m = .ok () w') := by
  unfold bufferEvent at h
  simp only [run_bind_eq_ok, run_get_eq_ok, run_set_eq_ok, WriterM.lift_eq_check,
    run_check_eq_ok] at h
  obtain ⟨_, _, ⟨rfl, rfl⟩, m, _, ⟨happend, rfl⟩, _, _, rfl, _, _, ⟨rfl, rfl⟩, h⟩ := h
  refine ⟨m, happend, ?_⟩
  split at h
  · exact .inr h
  · rw [run_pure_eq_ok] at h
    exact .inl h.2.symm

/-- The number of wire records of an event. -/
def eventRecordCount (raw : LinuxHeapEvent) (plan : List VmPlanRecord) : ℕ :=
  if raw.IsVm then plan.length else 1

/-- What `process_event` has done before the event meets the file limit: the checks,
the plan, the counters, the wire sequences and the stack capture loss. -/
structure Entered (options : WriterOptions) (raw : LinuxHeapEvent) (w m : LinuxTraceWriter) where
  plan : List VmPlanRecord
  vm : VmState
  loss : Option LossRecord
  completeness : CompletenessTracker
  valid : validateRawEvent ⟨options.monotonicOrigin, options.customHooks, w.lastSequence⟩ raw
    = .ok ()
  stack : validateRawStack raw.stack = .ok ()
  planned : (raw.IsVm ∧ w.vm.planVmEvent options.vmContext raw = .ok (vm, plan)) ∨
    (¬ raw.IsVm ∧ plan = [] ∧ vm = w.vm)
  known : raw.apiId ∈ options.apiIds
  space : ¬ maxU64 - w.nextWireSequence < (eventRecordCount raw plan + (2 ^ 64 - 1)) % 2 ^ 64
  observed : (raw.stack.status ≠ .failed ∧ loss = none ∧ completeness = w.completeness) ∨
    (raw.stack.status = .failed ∧
      loss = some (makeStackCaptureLoss w.nextWireSequence (eventRecordCount raw plan)
        (max raw.monotonicTicks w.lastTicks)) ∧
      w.completeness.observeLoss (makeStackCaptureLoss w.nextWireSequence
        (eventRecordCount raw plan) (max raw.monotonicTicks w.lastTicks)) = .ok completeness)
  state_eq : m = { (w.tookSequences (eventRecordCount raw plan)) with
    lastSequence := raw.queueSequence
    lastTicks := max raw.monotonicTicks w.lastTicks
    vm := vm
    counters := Function.update w.counters raw.apiId
      (countedOperations (w.counters raw.apiId) raw (eventRecordCount raw plan))
    completeness := completeness }

theorem Entered.nextWireSequence {raw : LinuxHeapEvent} {m : LinuxTraceWriter}
    (entry : Entered options raw w m) :
    m.nextWireSequence = (w.nextWireSequence + eventRecordCount raw entry.plan) % 2 ^ 64 := by
  obtain ⟨plan, vm, loss, completeness, -, -, -, -, -, -, rfl⟩ := entry
  rfl

theorem Entered.lastWireSequence {raw : LinuxHeapEvent} {m : LinuxTraceWriter}
    (entry : Entered options raw w m) :
    m.lastWireSequence =
      ((w.nextWireSequence + eventRecordCount raw entry.plan) % 2 ^ 64 + (2 ^ 64 - 1)) % 2 ^ 64 := by
  obtain ⟨plan, vm, loss, completeness, -, -, -, -, -, -, rfl⟩ := entry
  rfl

theorem Entered.lastTicks {raw : LinuxHeapEvent} {m : LinuxTraceWriter}
    (entry : Entered options raw w m) : m.lastTicks = max raw.monotonicTicks w.lastTicks := by
  obtain ⟨plan, vm, loss, completeness, -, -, -, -, -, -, rfl⟩ := entry
  rfl

/-- How `process_event` ends for an event that has entered. -/
inductive Settled (options : WriterOptions) (raw : LinuxHeapEvent) (w m w' : LinuxTraceWriter)
    (entry : Entered options raw w m) : Prop
  | past (hlimit : m.fileLimitReached = true)
      (hdrop : w' = m.notedEventDrop raw.apiId (max raw.monotonicTicks w.lastTicks)
        w.nextWireSequence (eventRecordCount raw entry.plan))
  | reached (k : LinuxTraceWriter) (hlimit : m.fileLimitReached = false)
      (hensure : ensurePendingCapacity options (eventRecordCount raw entry.plan) m = .ok () k)
      (hreached : k.fileLimitReached = true)
      (hdrop : w' = k.notedEventDrop raw.apiId (max raw.monotonicTicks w.lastTicks)
        w.nextWireSequence (eventRecordCount raw entry.plan))
  | buffered (k : LinuxTraceWriter) (hlimit : m.fileLimitReached = false)
      (hensure : ensurePendingCapacity options (eventRecordCount raw entry.plan) m = .ok () k)
      (hbelow : k.fileLimitReached = false)
      (hbuffer : bufferEvent options raw entry.plan entry.loss (max raw.monotonicTicks w.lastTicks)
        w.nextWireSequence (eventRecordCount raw entry.plan) k = .ok () w')

theorem processEvent_ok {raw : LinuxHeapEvent} {u : Unit}
    (h : processEvent options raw w = .ok u w') :
    ∃ m, ∃ entry : Entered options raw w m, Settled options raw w m w' entry := by
  unfold processEvent at h
  obtain ⟨ticks, m₁, hadmit, h⟩ := run_bind_eq_ok.mp h
  obtain ⟨hvalid, hstack, hticks, h₁⟩ := admitEvent_ok hadmit
  obtain ⟨plan, m₂, hplan, h⟩ := run_bind_eq_ok.mp h
  obtain ⟨vm, hplanned, h₂⟩ := planEvent_ok hplan
  obtain ⟨_, m₃, hcount, h⟩ := run_bind_eq_ok.mp h
  obtain ⟨hknown, h₃⟩ := countOperations_ok hcount
  obtain ⟨wireBegin, m₄, htake, h⟩ := run_bind_eq_ok.mp h
  obtain ⟨hspace, hbegin, h₄⟩ := takeWireSequences_ok htake
  obtain ⟨loss, m₅, hloss, h⟩ := run_bind_eq_ok.mp h
  obtain ⟨completeness, hobserved, h₅⟩ := noteStackCaptureLoss_ok hloss
  obtain ⟨_, _, hget, h⟩ := run_bind_eq_ok.mp h
  obtain ⟨rfl, rfl⟩ := run_get_eq_ok.mp hget
  have hsequence : m₃.nextWireSequence = w.nextWireSequence := by
    rw [h₃, h₂, h₁]
    rfl
  have hcompleteness : m₄.completeness = w.completeness := by
    rw [h₄, h₃, h₂, h₁]
    rfl
  rw [hbegin, hsequence, hticks] at h
  rw [hbegin, hsequence, hticks, hcompleteness] at hobserved
  rw [hsequence] at hspace
  refine ⟨m₅, {
    plan := plan
    vm := vm
    loss := loss
    completeness := completeness
    valid := hvalid
    stack := hstack
    planned := by
      rw [h₁] at hplanned
      exact hplanned
    known := hknown
    space := hspace
    observed := hobserved
    state_eq := by
      rw [h₅, h₄, h₃, h₂, h₁, hticks]
      rfl }, ?_⟩
  by_cases hlimit : m₅.fileLimitReached = true
  · rw [if_pos hlimit] at h
    exact .past hlimit (noteEventTraceDrop_ok h)
  rw [if_neg hlimit] at h
  have hlimit : m₅.fileLimitReached = false := by simpa using hlimit
  obtain ⟨_, k, hensure, h⟩ := run_bind_eq_ok.mp h
  obtain ⟨_, _, hget, h⟩ := run_bind_eq_ok.mp h
  obtain ⟨rfl, rfl⟩ := run_get_eq_ok.mp hget
  by_cases hreached : k.fileLimitReached = true
  · rw [if_pos hreached] at h
    exact .reached k hlimit hensure hreached (noteEventTraceDrop_ok h)
  · rw [if_neg hreached] at h
    exact .buffered k hlimit hensure (by simpa using hreached) h

/-! ## Modules -/

theorem flushBeforeModule_ok {u : Unit} (h : flushBeforeModule options w = .ok u w') :
    (w.pendingEventCount = 0 ∧ w' = w) ∨
    (w.pendingEventCount ≠ 0 ∧ flushPending options w = .ok () w') := by
  unfold flushBeforeModule at h
  rw [run_bind_eq_ok] at h
  obtain ⟨_, _, hget, h⟩ := h
  obtain ⟨rfl, rfl⟩ := run_get_eq_ok.mp hget
  split at h
  · rename_i hpending
    exact .inr ⟨hpending, h⟩
  · rename_i hpending
    rw [run_pure_eq_ok] at h
    exact .inl ⟨not_not.mp hpending, h.2.symm⟩

/-- The members after a load was buffered. -/
def loadedModule (w : LinuxTraceWriter) (raw : RawModuleEvent) (ticks : ℕ) : LinuxTraceWriter :=
  { w with
    nextModuleId := w.nextModuleId + 1
    modulePayload := w.modulePayload ++ [.load (moduleLoad raw w.nextModuleId ticks)]
    liveModules := w.liveModules.insert raw.baseAddress ⟨w.nextModuleId, raw.imageSize⟩ }

theorem loadModule_ok {raw : RawModuleEvent} {ticks : ℕ} {u : Unit}
    (h : loadModule options raw ticks w = .ok u w') :
    raw.imageSize ≠ 0 ∧ ¬ w.liveModules.Contains raw.baseAddress ∧ w.nextModuleId ≠ maxU64 ∧
      ∃ m, flushBeforeModule options w = .ok () m ∧
        validateModuleLoad (moduleLoad raw m.nextModuleId ticks) = .ok () ∧
        w' = m.loadedModule raw ticks := by
  unfold loadModule at h
  rw [run_bind_eq_ok] at h
  obtain ⟨_, _, hget, h⟩ := h
  obtain ⟨rfl, rfl⟩ := run_get_eq_ok.mp hget
  simp only [run_bind_eq_ok, run_get_eq_ok, run_set_eq_ok, run_modify_eq_ok,
    WriterM.lift_eq_check, run_check_eq_ok] at h
  obtain ⟨_, _, ⟨hsize, rfl⟩, _, _, ⟨hlive, rfl⟩, _, _, ⟨hid, rfl⟩, _, m, hflush, _, _,
    ⟨rfl, rfl⟩, _, _, rfl, _, _, ⟨hvalid, rfl⟩, rfl⟩ := h
  exact ⟨failIf_eq_ok.mp hsize, failIf_eq_ok.mp hlive, failIf_eq_ok.mp hid, m, hflush, hvalid, rfl⟩

/-- The members after an unload was buffered. -/
def unloadedModule (w : LinuxTraceWriter) (baseAddress moduleId ticks : ℕ) : LinuxTraceWriter :=
  { w with
    modulePayload := w.modulePayload ++ [.unload ⟨moduleId, ticks⟩]
    liveModules := w.liveModules.erase baseAddress }

theorem unloadModule_ok {raw : RawModuleEvent} {existing : LiveModule} {ticks : ℕ} {u : Unit}
    (h : unloadModule options raw existing ticks w = .ok u w') :
    ∃ m, flushBeforeModule options w = .ok () m ∧
      validateModuleUnload ⟨existing.moduleId, ticks⟩ = .ok () ∧
      w' = m.unloadedModule raw.baseAddress existing.moduleId ticks := by
  unfold unloadModule at h
  simp only [run_bind_eq_ok, run_modify_eq_ok, WriterM.lift_eq_check, run_check_eq_ok] at h
  obtain ⟨_, m, hflush, _, _, ⟨hvalid, rfl⟩, rfl⟩ := h
  exact ⟨m, hflush, hvalid, rfl⟩

theorem settleModule_ok {ticks : ℕ} {u : Unit} (h : settleModule options ticks w = .ok u w') :
    w' = { w with lastModuleTicks := ticks } ∨
    flushModulePayload options { w with lastModuleTicks := ticks } = .ok () w' := by
  unfold settleModule at h
  simp only [run_bind_eq_ok, run_get_eq_ok, run_modify_eq_ok] at h
  obtain ⟨_, _, rfl, _, _, ⟨rfl, rfl⟩, h⟩ := h
  split at h
  · exact .inr h
  · rw [run_pure_eq_ok] at h
    exact .inl h.2.symm

/-- How `process_module_event` ends: a load, an unload of a live module, or an unload
nobody knows. -/
inductive ModuleProcessed (options : WriterOptions) (raw : RawModuleEvent)
    (w w' : LinuxTraceWriter) (ticks : ℕ) : Prop
  | load (m : LinuxTraceWriter) (htype : raw.type = .load)
      (hload : loadModule options raw ticks w = .ok () m)
      (hsettle : settleModule options ticks m = .ok () w')
  | unload (existing : LiveModule) (m : LinuxTraceWriter) (htype : raw.type = .unload)
      (hlive : w.liveModules.lookup raw.baseAddress = some existing)
      (hunload : unloadModule options raw existing ticks w = .ok () m)
      (hsettle : settleModule options ticks m = .ok () w')
  | unknown (htype : raw.type = .unload) (hlive : w.liveModules.lookup raw.baseAddress = none)
      (hstate : w' = { w with lastModuleTicks := ticks })

theorem processModuleEvent_ok {raw : RawModuleEvent} {u : Unit}
    (h : processModuleEvent options raw w = .ok u w') :
    raw.baseAddress ≠ 0 ∧ ∃ ticks, w.moduleTicks options raw = .ok ticks ∧
      ModuleProcessed options raw w w' ticks := by
  unfold processModuleEvent at h
  simp only [run_bind_eq_ok, run_get_eq_ok, WriterM.lift_eq_check, run_check_eq_ok] at h
  obtain ⟨_, _, ⟨hbase, rfl⟩, _, _, ⟨rfl, rfl⟩, ticks, _, ⟨hticks, rfl⟩, h⟩ := h
  refine ⟨failIf_eq_ok.mp hbase, ticks, hticks, ?_⟩
  cases htype : raw.type with
  | load =>
      rw [htype] at h
      obtain ⟨_, m, hload, hsettle⟩ := run_bind_eq_ok.mp h
      exact .load m htype hload hsettle
  | unload =>
      rw [htype] at h
      cases hlive : w.liveModules.lookup raw.baseAddress with
      | none =>
          simp only [hlive, run_set_eq_ok] at h
          exact .unknown htype hlive h.symm
      | some existing =>
          simp only [hlive] at h
          obtain ⟨_, m, hunload, hsettle⟩ := run_bind_eq_ok.mp h
          exact .unload existing m htype hlive hunload hsettle

/-! ## Samples, metadata and drops -/

/-- A memory sample changes the file and the time of the last one only. -/
theorem captureMemorySnapshot_ok {now : ℕ} {samples : List (ℕ → MemoryRecord)} {u : Unit}
    (h : captureMemorySnapshot options now samples w = .ok u w') :
    (w.fileLimitReached = true ∧ w' = w) ∨
    (w.fileLimitReached = false ∧ ∃ ticks,
      ticks = max now (max w.lastMemoryTicks options.monotonicOrigin) ∧
      ((samples = [] ∧ w' = { w with lastMemoryTicks := ticks }) ∨
        (samples ≠ [] ∧ ∃ written,
          writeChunk options { payload := .memory (samples.map (· ticks)) } true
            { w with lastMemoryTicks := ticks } = .ok written w'))) := by
  unfold captureMemorySnapshot at h
  rw [run_bind_eq_ok] at h
  obtain ⟨_, _, hget, h⟩ := h
  obtain ⟨rfl, rfl⟩ := run_get_eq_ok.mp hget
  by_cases hlimit : w.fileLimitReached = true
  · rw [if_pos hlimit, run_pure_eq_ok] at h
    exact .inl ⟨hlimit, h.2.symm⟩
  rw [if_neg hlimit] at h
  refine .inr ⟨by simpa using hlimit, _, rfl, ?_⟩
  rw [run_bind_eq_ok] at h
  obtain ⟨_, _, hset, h⟩ := h
  obtain rfl := run_set_eq_ok.mp hset
  by_cases hempty : samples = []
  · rw [if_neg (not_not.mpr hempty), run_pure_eq_ok] at h
    exact .inl ⟨hempty, h.2.symm⟩
  · rw [if_pos hempty] at h
    simp only [run_bind_eq_ok, run_pure_eq_ok] at h
    obtain ⟨written, _, hwrite, -, rfl⟩ := h
    exact .inr ⟨hempty, written, hwrite⟩

/-- The time the baselines leave behind. -/
def baselineTicks (w : LinuxTraceWriter) (baselines : List MemoryBaseline) : ℕ :=
  baselines.foldl (fun ticks b => max ticks b.monotonicTicks) w.lastMemoryTicks

theorem writeMemoryBaselines_ok {baselines : List MemoryBaseline} {u : Unit}
    (h : writeMemoryBaselines options baselines w = .ok u w') :
    (baselines = [] ∧ w' = w) ∨
    (baselines ≠ [] ∧ ∃ written,
      writeChunk options { payload := .memory (baselines.flatMap MemoryBaseline.records) } true
        { w with lastMemoryTicks := w.baselineTicks baselines } = .ok written w') := by
  unfold writeMemoryBaselines at h
  by_cases hempty : baselines = []
  · rw [if_pos hempty, run_pure_eq_ok] at h
    exact .inl ⟨hempty, h.2.symm⟩
  · rw [if_neg hempty] at h
    simp only [run_bind_eq_ok, run_modify_eq_ok, run_pure_eq_ok] at h
    obtain ⟨_, _, rfl, written, _, hwrite, -, rfl⟩ := h
    exact .inr ⟨hempty, written, hwrite⟩

theorem writeMetadata_ok {u : Unit} (h : writeMetadata options w = .ok u w') :
    (w.metadataWritten = true ∧ w' = w) ∨
    (w.metadataWritten = false ∧ ∃ file,
      w.file.writeChunk options.trace options.encoding
        { payload := .metadata (metadataRecords options) } true = .ok (some file) ∧
      w' = { w with
        metadataWritten := true
        streamOperations := w.streamOperations + 1
        file := file }) := by
  unfold writeMetadata at h
  rw [run_bind_eq_ok] at h
  obtain ⟨_, _, hget, h⟩ := h
  obtain ⟨rfl, rfl⟩ := run_get_eq_ok.mp hget
  by_cases hwritten : w.metadataWritten = true
  · rw [if_pos hwritten, run_pure_eq_ok] at h
    exact .inl ⟨hwritten, h.2.symm⟩
  rw [if_neg hwritten, run_bind_eq_ok] at h
  obtain ⟨_, m, hmodify, h⟩ := h
  obtain rfl := run_modify_eq_ok.mp hmodify
  obtain ⟨_, m, hstream, h⟩ := run_bind_eq_ok.mp h
  obtain ⟨-, rfl⟩ := streamOperation_ok hstream
  simp only [run_bind_eq_ok, run_get_eq_ok, WriterM.lift_eq_check, run_check_eq_ok] at h
  obtain ⟨_, _, ⟨rfl, rfl⟩, result, _, ⟨hwrite, rfl⟩, h⟩ := h
  cases result with
  | none => cases h
  | some file =>
      obtain rfl := run_set_eq_ok.mp h
      exact .inr ⟨by simpa using hwritten, file, hwrite, rfl⟩

theorem collectModuleDrops_ok {count : ℕ} {u : Unit}
    (h : collectModuleDrops count w = .ok u w') :
    w' = { w with moduleNotificationDrops := w.moduleNotificationDrops + count } := by
  unfold collectModuleDrops at h
  simp only [run_bind_eq_ok, run_get_eq_ok, run_set_eq_ok, WriterM.lift_eq_check,
    run_check_eq_ok] at h
  obtain ⟨_, _, ⟨rfl, rfl⟩, total, _, ⟨htotal, rfl⟩, rfl⟩ := h
  rw [checkedAdd_ok htotal]

theorem collectQueueDrops_ok {count : ℕ} {u : Unit} (h : collectQueueDrops count w = .ok u w') :
    w' = { w with queueDroppedEvents := w.queueDroppedEvents + count } := by
  unfold collectQueueDrops at h
  simp only [run_bind_eq_ok, run_get_eq_ok, run_set_eq_ok, WriterM.lift_eq_check,
    run_check_eq_ok] at h
  obtain ⟨_, _, ⟨rfl, rfl⟩, total, _, ⟨htotal, rfl⟩, rfl⟩ := h
  rw [checkedAdd_ok htotal]

/-! ## Runs -/

theorem captureLoop_nil : captureLoop options [] = pure () := rfl

theorem captureLoop_cons (action : WriterAction) (actions : List WriterAction) :
    captureLoop options (action :: actions) =
      (perform options action >>= fun _ => captureLoop options actions) := rfl

/-- What every action of the loop preserves, the loop preserves. -/
theorem captureLoop_preserves {Inv : LinuxTraceWriter → Prop}
    (hstep : ∀ action w w', Inv w → perform options action w = .ok () w' → Inv w')
    {actions : List WriterAction} {u : Unit} (hw : Inv w)
    (h : captureLoop options actions w = .ok u w') : Inv w' := by
  induction actions generalizing w with
  | nil =>
      rw [captureLoop_nil, run_pure_eq_ok] at h
      rwa [← h.2]
  | cons action actions ih =>
      rw [captureLoop_cons, run_bind_eq_ok] at h
      obtain ⟨_, m, haction, hrest⟩ := h
      exact ih (hstep action w m hw haction) hrest

/-- The states of a capture between two actions of its loop. -/
def Between (options : WriterOptions) (baselines : List MemoryBaseline)
    (actions : List WriterAction) (w : LinuxTraceWriter) : Prop :=
  (do
    beginCapture options baselines
    captureLoop options actions : WriterM Unit) (.start options) = .ok () w

end LinuxTraceWriter

end Noleax.Agent
