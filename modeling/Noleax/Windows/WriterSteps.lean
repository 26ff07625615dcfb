import Noleax.Capture.Steps
import Noleax.Windows.TraceWriter

/-!
# What each function of the Windows writer does when it returns

One inversion lemma per member function: the state a successful call leaves behind, as
an update of the one it found. The proofs about runs use these and unfold nothing.
-/

namespace Noleax.Windows

open Lib Trace Agent

namespace RtlAllocateHeapTraceWriter

variable {options : WriterOptions} {w w' : RtlAllocateHeapTraceWriter} {raw : RtlHeapEvent}

/-! ## Counters -/

/-- One turn of the loop over the operations. -/
def addCount (additions : OperationCounts) (before after : String) (sums : OperationCounts)
    (operation : RtlHeapEventOperation) : Except Error OperationCounts := do
  let sum ← checkedAdd (sums operation) (additions operation)
    (before ++ counterName operation ++ after)
  return Function.update sums operation sum

theorem addCount_fold {additions : OperationCounts} {before after : String}
    {order : List RtlHeapEventOperation} {values sums : OperationCounts}
    (h : order.foldlM (addCount additions before after) values = .ok sums)
    (hnodup : order.Nodup) :
    sums = fun operation =>
      if operation ∈ order then values operation + additions operation else values operation := by
  induction order generalizing values with
  | nil =>
      cases h
      simp
  | cons head order ih =>
      obtain ⟨hhead, hnodup⟩ := List.nodup_cons.mp hnodup
      rw [List.foldlM_cons, bind_eq_ok] at h
      obtain ⟨next, hstep, hrest⟩ := h
      obtain ⟨sum, hsum, heq⟩ := bind_eq_ok.mp hstep
      cases heq
      rw [ih hrest hnodup]
      funext operation
      rw [checkedAdd_ok hsum]
      by_cases hop : operation = head
      · subst hop
        simp [hhead]
      · simp [hop]

theorem all_nodup : RtlHeapEventOperation.all.Nodup := by decide

theorem addCounts_ok {values additions sums : OperationCounts} {before after : String}
    (h : addCounts values additions before after = .ok sums) :
    sums = fun operation => values operation + additions operation := by
  rw [addCount_fold h all_nodup]
  funext operation
  rw [if_pos (RtlHeapEventOperation.mem_all operation)]

/-! ## Chunks -/

/-- Members a chunk write may change: the file and the limit, which never goes away
again. -/
inductive Filed (options : WriterOptions) (w : RtlAllocateHeapTraceWriter) (chunk : Chunk) :
    Bool → RtlAllocateHeapTraceWriter → Prop
  | written (hadmits : w.file.Admits options.trace options.encoding chunk true) :
      Filed options w chunk true
        { w with file := w.file.withChunk options.encoding chunk true }
  | limit (hroom : ExceedsFileLimit w.file.bytesWritten (options.encoding.storedSize chunk true)
        (options.trace.maxFileSize - w.file.reservedTailSize)) :
      Filed options w chunk false { w with fileLimitReached := true }

theorem writeDataChunk_ok {chunk : Chunk} {written : Bool}
    (h : writeDataChunk options chunk w = .ok written w') :
    Filed options w chunk written w' := by
  unfold writeDataChunk at h
  simp only [run_bind_eq_ok, run_get_eq_ok, run_check_eq_ok] at h
  obtain ⟨_, _, ⟨rfl, rfl⟩, result, _, ⟨hwrite, rfl⟩, h⟩ := h
  cases result with
  | none =>
      simp only [run_bind_eq_ok, run_set_eq_ok, run_pure_eq_ok] at h
      obtain ⟨_, _, rfl, rfl, rfl⟩ := h
      exact .limit (TraceWriter.writeChunk_eq_none hwrite)
  | some file =>
      simp only [run_bind_eq_ok, run_set_eq_ok, run_pure_eq_ok] at h
      obtain ⟨_, _, rfl, rfl, rfl⟩ := h
      obtain ⟨hadmits, rfl⟩ := TraceWriter.writeChunk_eq_some.mp hwrite
      exact .written hadmits

/-- What `flush_module_payload` leaves behind. -/
inductive ModulesFlushed (options : WriterOptions) (w : RtlAllocateHeapTraceWriter) :
    RtlAllocateHeapTraceWriter → Prop
  | empty (hempty : w.modulePayload = []) : ModulesFlushed options w w
  | past (hlimit : w.fileLimitReached = true) :
      ModulesFlushed options w { w with modulePayload := [] }
  | filed {written : Bool} {m : RtlAllocateHeapTraceWriter} (hlimit : w.fileLimitReached = false)
      (hfiled : Filed options w { payload := .modules w.modulePayload } written m) :
      ModulesFlushed options w { m with modulePayload := [] }

theorem flushModulePayload_ok {u : Unit} (h : flushModulePayload options w = .ok u w') :
    ModulesFlushed options w w' := by
  unfold flushModulePayload at h
  rw [run_bind_eq_ok] at h
  obtain ⟨_, _, hget, h⟩ := h
  obtain ⟨rfl, rfl⟩ := run_get_eq_ok.mp hget
  by_cases hempty : w.modulePayload = []
  · rw [if_pos hempty, run_pure_eq_ok] at h
    obtain ⟨-, rfl⟩ := h
    exact .empty hempty
  rw [if_neg hempty] at h
  by_cases hlimit : w.fileLimitReached = false
  · rw [if_pos hlimit] at h
    simp only [run_bind_eq_ok, run_modify_eq_ok] at h
    obtain ⟨written, m, hwrite, rfl⟩ := h
    exact .filed hlimit (writeDataChunk_ok hwrite)
  · rw [if_neg hlimit, run_modify_eq_ok] at h
    rw [← h]
    exact .past (by simpa using hlimit)

/-! ## Trace drops -/

/-- The members after a range of trace drops was noted. -/
def notedDropRange (w : RtlAllocateHeapTraceWriter) (count : ℕ) (counts : OperationCounts)
    (sequenceBegin sequenceEnd tickBegin tickEnd : ℕ) : RtlAllocateHeapTraceWriter :=
  { w with
    traceDropSequenceBegin :=
      if w.traceDroppedEvents = 0 then sequenceBegin else w.traceDropSequenceBegin
    traceDropTickBegin := if w.traceDroppedEvents = 0 then tickBegin else w.traceDropTickBegin
    traceDropSequenceEnd := sequenceEnd
    traceDropTickEnd := tickEnd
    traceDroppedEvents := w.traceDroppedEvents + count
    traceDropped := fun operation => w.traceDropped operation + counts operation }

theorem noteTraceDropRange_ok {count sequenceBegin sequenceEnd tickBegin tickEnd : ℕ}
    {counts : OperationCounts} {u : Unit}
    (h : noteTraceDropRange count counts sequenceBegin sequenceEnd tickBegin tickEnd w = .ok u w') :
    remaining counts count dropOrder = some (counts .sectionUnmap) ∧
      w' = w.notedDropRange count counts sequenceBegin sequenceEnd tickBegin tickEnd := by
  unfold noteTraceDropRange at h
  simp only [run_bind_eq_ok, run_get_eq_ok, run_set_eq_ok, run_modify_eq_ok,
    run_check_eq_ok] at h
  obtain ⟨_, _, ⟨hcounts, rfl⟩, _, _, ⟨rfl, rfl⟩, _, _, rfl, total, _, ⟨htotal, rfl⟩, _, _, rfl,
    sums, _, ⟨hsums, rfl⟩, rfl⟩ := h
  refine ⟨not_not.mp (failIf_eq_ok.mp hcounts), ?_⟩
  rw [checkedAdd_ok htotal, addCounts_ok hsums]
  rfl

/-- The members after a custom event was dropped at the limit. -/
def notedCustomDrop (w : RtlAllocateHeapTraceWriter) (apiId sequence ticks : ℕ) :
    RtlAllocateHeapTraceWriter :=
  { w with
    traceDropSequenceBegin :=
      if w.traceDroppedEvents = 0 then sequence else w.traceDropSequenceBegin
    traceDropTickBegin := if w.traceDroppedEvents = 0 then ticks else w.traceDropTickBegin
    traceDropSequenceEnd := sequence
    traceDropTickEnd := ticks
    traceDroppedEvents := w.traceDroppedEvents + 1
    traceCustomDroppedPerApi := Function.update w.traceCustomDroppedPerApi apiId
      (w.traceCustomDroppedPerApi apiId + 1) }

theorem noteCustomTraceDrop_ok {apiId sequence ticks : ℕ} {u : Unit}
    (h : noteCustomTraceDrop apiId sequence ticks w = .ok u w') :
    w' = w.notedCustomDrop apiId sequence ticks := by
  unfold noteCustomTraceDrop at h
  simp only [run_bind_eq_ok, run_get_eq_ok, run_set_eq_ok, run_modify_eq_ok,
    run_check_eq_ok] at h
  obtain ⟨_, _, ⟨rfl, rfl⟩, _, _, rfl, total, _, ⟨htotal, rfl⟩, _, _, rfl, dropped, _,
    ⟨hdropped, rfl⟩, rfl⟩ := h
  rw [checkedAdd_ok htotal, checkedAdd_ok hdropped]
  rfl

/-- The members after an event was dropped at the limit. -/
def notedEventDrop (w : RtlAllocateHeapTraceWriter) (raw : RtlHeapEvent) (ticks : ℕ) :
    RtlAllocateHeapTraceWriter :=
  if raw.Custom then w.notedCustomDrop raw.apiId raw.queueSequence ticks
  else w.notedDropRange 1 (oneOf raw.operation) raw.queueSequence raw.queueSequence ticks ticks

theorem noteEventTraceDrop_ok {ticks : ℕ} {u : Unit}
    (h : noteEventTraceDrop raw ticks w = .ok u w') : w' = w.notedEventDrop raw ticks := by
  unfold noteEventTraceDrop at h
  unfold notedEventDrop
  by_cases hcustom : raw.Custom
  · rw [if_pos hcustom] at h ⊢
    exact noteCustomTraceDrop_ok h
  · rw [if_neg hcustom] at h ⊢
    exact (noteTraceDropRange_ok h).2

/-- The members after the pending events were dropped. -/
def droppedPending (w : RtlAllocateHeapTraceWriter) : RtlAllocateHeapTraceWriter :=
  clearPending (w.notedDropRange w.pendingEventCount w.pending w.pendingSequenceBegin
    w.pendingSequenceEnd w.pendingTickBegin w.pendingTickEnd)

theorem dropPendingEvents_ok {u : Unit} (hpending : w.pendingEventCount ≠ 0)
    (h : dropPendingEvents w = .ok u w') :
    remaining w.pending w.pendingEventCount dropOrder = some (w.pending .sectionUnmap) ∧
      w' = w.droppedPending := by
  unfold dropPendingEvents onlyIf at h
  rw [run_bind_eq_ok] at h
  obtain ⟨_, _, hget, h⟩ := h
  obtain ⟨rfl, rfl⟩ := run_get_eq_ok.mp hget
  rw [if_pos hpending, run_bind_eq_ok] at h
  obtain ⟨_, m, hdrop, h⟩ := h
  obtain ⟨hcounts, rfl⟩ := noteTraceDropRange_ok hdrop
  exact ⟨hcounts, (run_modify_eq_ok.mp h).symm⟩

/-! ## Flushing -/

/-- The members after the pending events were written. -/
def notedWritten (w : RtlAllocateHeapTraceWriter) : RtlAllocateHeapTraceWriter :=
  clearPending { w with
    writtenEvents := w.writtenEvents + w.pendingEventCount
    writtenCustomEvents := w.writtenCustomEvents + w.pendingCustomEvents
    written := fun operation => w.written operation + w.pending operation
    uniqueStacks := w.uniqueStacks + w.pendingUniqueStacks
    reusedStacks := w.reusedStacks + w.pendingReusedStacks }

theorem notePendingWritten_ok {u : Unit} (h : notePendingWritten w = .ok u w') :
    w' = w.notedWritten := by
  unfold notePendingWritten at h
  simp only [run_bind_eq_ok, run_get_eq_ok, run_set_eq_ok, run_check_eq_ok] at h
  obtain ⟨_, _, ⟨rfl, rfl⟩, events, _, ⟨hevents, rfl⟩, custom, _, ⟨hcustom, rfl⟩, written, _,
    ⟨hwritten, rfl⟩, unique, _, ⟨hunique, rfl⟩, reused, _, ⟨hreused, rfl⟩, rfl⟩ := h
  rw [checkedAdd_ok hevents, checkedAdd_ok hcustom, addCounts_ok hwritten, checkedAdd_ok hunique,
    checkedAdd_ok hreused]
  rfl

/-- The records of a chunk, when it is an event chunk. -/
def eventRecords (chunk : Chunk) : List EventChunkRecord :=
  match chunk.payload with
  | .events records => records
  | _ => []

/-- The records of the event chunks of a file. -/
def filedRecords (file : TraceWriter) : List EventChunkRecord := file.chunks.flatMap eventRecords

theorem filedRecords_withChunk (file : TraceWriter) (encoding : Encoding) (chunk : Chunk) :
    filedRecords (file.withChunk encoding chunk true) = filedRecords file ++ eventRecords chunk := by
  unfold filedRecords TraceWriter.withChunk
  rw [List.flatMap_append, List.flatMap_singleton]

/-- Only the file, the limit and the module payload differ, and the file has no other
event records. -/
def Beside (w w' : RtlAllocateHeapTraceWriter) : Prop :=
  ∃ file limit modules, (w.fileLimitReached = true → limit = true) ∧
    filedRecords file = filedRecords w.file ∧
    w' = { w with file := file, fileLimitReached := limit, modulePayload := modules }

theorem Beside.refl (w : RtlAllocateHeapTraceWriter) : Beside w w :=
  ⟨w.file, w.fileLimitReached, w.modulePayload, id, rfl, rfl⟩

theorem Beside.trans {a b c : RtlAllocateHeapTraceWriter} (hab : Beside a b) (hbc : Beside b c) :
    Beside a c := by
  obtain ⟨f₁, l₁, m₁, h₁, hr₁, rfl⟩ := hab
  obtain ⟨f₂, l₂, m₂, h₂, hr₂, rfl⟩ := hbc
  exact ⟨f₂, l₂, m₂, fun h => h₂ (h₁ h), hr₂.trans hr₁, rfl⟩

theorem Beside.pending (h : Beside w w') :
    w'.pendingEventCount = w.pendingEventCount ∧ w'.pending = w.pending := by
  obtain ⟨file, limit, modules, -, -, rfl⟩ := h
  exact ⟨rfl, rfl⟩

theorem Filed.beside {chunk : Chunk} {written : Bool} (h : Filed options w chunk written w')
    (hquiet : eventRecords chunk = []) : Beside w w' := by
  cases h with
  | written hadmits =>
      refine ⟨_, w.fileLimitReached, w.modulePayload, id, ?_, rfl⟩
      rw [filedRecords_withChunk, hquiet, List.append_nil]
  | limit hroom => exact ⟨w.file, true, w.modulePayload, fun _ => rfl, rfl, rfl⟩

/-- A chunk that met the limit left the file as it was. -/
theorem Filed.beside_limit {chunk : Chunk} (h : Filed options w chunk false w') :
    Beside w w' ∧ w'.fileLimitReached = true := by
  cases h
  exact ⟨⟨w.file, true, w.modulePayload, fun _ => rfl, rfl, rfl⟩, rfl⟩

theorem ModulesFlushed.beside (h : ModulesFlushed options w w') : Beside w w' := by
  cases h with
  | empty => exact .refl w
  | past => exact ⟨w.file, w.fileLimitReached, [], id, rfl, rfl⟩
  | filed hlimit hfiled =>
      have hclear : ∀ m : RtlAllocateHeapTraceWriter, Beside m { m with modulePayload := [] } :=
        fun m => ⟨m.file, m.fileLimitReached, [], id, rfl, rfl⟩
      exact (hfiled.beside rfl).trans (hclear _)

/-- The ways `flush_pending` returns. `m` is the state at the last chunk. -/
inductive Flushed (options : WriterOptions) (w w' : RtlAllocateHeapTraceWriter) : Prop
  | modules (hpending : w.pendingEventCount = 0) (h : ModulesFlushed options w w')
  | written (m k : RtlAllocateHeapTraceWriter) (hpending : w.pendingEventCount ≠ 0)
      (hm : Beside w m)
      (hfiled : Filed options m
        { payload := .events w.eventPayload
          sequenceBegin := w.pendingSequenceBegin
          sequenceEnd := w.pendingSequenceEnd } true k)
      (h : w' = k.notedWritten)
  | dropped (m : RtlAllocateHeapTraceWriter) (hpending : w.pendingEventCount ≠ 0)
      (hm : Beside w m) (hlimit : m.fileLimitReached = true)
      (hcounts : remaining w.pending w.pendingEventCount dropOrder = some (w.pending .sectionUnmap))
      (h : w' = m.droppedPending)

theorem flushStackPayload_ok {written : Bool} (h : flushStackPayload options w = .ok written w') :
    Beside w w' ∧ (written = false → w'.fileLimitReached = true) := by
  unfold flushStackPayload at h
  rw [run_bind_eq_ok] at h
  obtain ⟨_, _, hget, h⟩ := h
  obtain ⟨rfl, rfl⟩ := run_get_eq_ok.mp hget
  by_cases hempty : w.stackPayload = []
  · rw [if_pos hempty, run_pure_eq_ok] at h
    obtain ⟨rfl, rfl⟩ := h
    exact ⟨.refl w, fun hfalse => nomatch hfalse⟩
  · rw [if_neg hempty] at h
    have hfiled := writeDataChunk_ok h
    refine ⟨hfiled.beside rfl, ?_⟩
    rintro rfl
    cases hfiled
    rfl

theorem flushPending_ok {u : Unit} (h : flushPending options w = .ok u w') :
    Flushed options w w' := by
  unfold flushPending at h
  rw [run_bind_eq_ok] at h
  obtain ⟨_, _, hget, h⟩ := h
  obtain ⟨rfl, rfl⟩ := run_get_eq_ok.mp hget
  by_cases hpending : w.pendingEventCount = 0
  · rw [if_pos hpending] at h
    exact .modules hpending (flushModulePayload_ok h)
  rw [if_neg hpending, run_bind_eq_ok] at h
  obtain ⟨_, a, hmodules, h⟩ := h
  have ha := (flushModulePayload_ok hmodules).beside
  -- the events are dropped in a state that differs from the first beside them
  have hdrop : ∀ m, Beside w m → m.fileLimitReached = true →
      dropPendingEvents m = .ok () w' → Flushed options w w' := by
    intro m hm hlimit hrun
    obtain ⟨hcount, hcounts⟩ := hm.pending
    obtain ⟨hremaining, hstate⟩ := dropPendingEvents_ok (by rwa [hcount]) hrun
    rw [hcount, hcounts] at hremaining
    exact .dropped m hpending hm hlimit hremaining hstate
  rw [run_bind_eq_ok] at h
  obtain ⟨_, _, hget, h⟩ := h
  obtain ⟨rfl, rfl⟩ := run_get_eq_ok.mp hget
  by_cases hlimit : a.fileLimitReached = true
  · rw [if_pos hlimit] at h
    exact hdrop a ha hlimit h
  rw [if_neg hlimit, run_bind_eq_ok] at h
  obtain ⟨stacked, b, hstacks, h⟩ := h
  obtain ⟨hb, hblimit⟩ := flushStackPayload_ok hstacks
  have hb := ha.trans hb
  cases stacked with
  | false => exact hdrop b hb (hblimit rfl) h
  | true =>
      rw [if_pos rfl, run_bind_eq_ok] at h
      obtain ⟨events, c, hevents, h⟩ := h
      unfold flushEventPayload at hevents
      rw [run_bind_eq_ok] at hevents
      obtain ⟨_, _, hget, hevents⟩ := hevents
      obtain ⟨rfl, rfl⟩ := run_get_eq_ok.mp hget
      have hfiled := writeDataChunk_ok hevents
      cases events with
      | false =>
          obtain ⟨hc, hclimit⟩ := hfiled.beside_limit
          exact hdrop c (hb.trans hc) hclimit h
      | true =>
          rw [if_pos rfl] at h
          obtain ⟨file, limit, modules, -, -, rfl⟩ := id hb
          exact .written _ c hpending hb hfiled (notePendingWritten_ok h)

/-! ## `process_event` -/

theorem ensurePendingCapacity_ok {u : Unit} (h : ensurePendingCapacity options w = .ok u w') :
    w' = w ∨ (w.NeedsCapacity options ∧ flushPending options w = .ok () w') := by
  unfold ensurePendingCapacity onlyIf at h
  rw [run_bind_eq_ok] at h
  obtain ⟨_, _, hget, h⟩ := h
  obtain ⟨rfl, rfl⟩ := run_get_eq_ok.mp hget
  split at h
  · rename_i hneeds
    exact .inr ⟨hneeds, h⟩
  · rw [run_pure_eq_ok] at h
    exact .inl h.2.symm

/-- The members after an event was admitted. -/
def admitted (w : RtlAllocateHeapTraceWriter) (raw : RtlHeapEvent)
    (completeness : CompletenessTracker) : RtlAllocateHeapTraceWriter :=
  { w with
    lastSequence := raw.queueSequence
    lastTicks := max raw.monotonicTicks w.lastTicks
    completeness := completeness }

/-- The time of an event, after normalization. -/
def normalizedTicks (w : RtlAllocateHeapTraceWriter) (raw : RtlHeapEvent) : ℕ :=
  max raw.monotonicTicks w.lastTicks

/-- The loss record an event brings with it. -/
def stackLoss (raw : RtlHeapEvent) (ticks : ℕ) : Option LossRecord :=
  if raw.stack.status = .failed then some (makeStackCaptureLoss raw.queueSequence ticks) else none

theorem admitEvent_ok {ticks : ℕ} (h : admitEvent options raw w = .ok ticks w') :
    validateRawEvent ⟨options.monotonicOrigin, options.hooks, w.lastSequence⟩ raw = .ok () ∧
      validateRawStack raw.stack = .ok () ∧ ticks = w.normalizedTicks raw ∧
      w' = w.admitted raw w.completeness := by
  unfold admitEvent at h
  simp only [run_bind_eq_ok, run_get_eq_ok, run_set_eq_ok, run_check_eq_ok, run_pure_eq_ok] at h
  obtain ⟨_, _, ⟨rfl, rfl⟩, _, _, ⟨hvalid, rfl⟩, _, _, ⟨hstack, rfl⟩, _, _, rfl, rfl, rfl⟩ := h
  exact ⟨hvalid, hstack, rfl, rfl⟩

theorem noteStackCaptureLoss_ok {ticks : ℕ} {loss : Option LossRecord}
    (h : noteStackCaptureLoss raw ticks w = .ok loss w') :
    loss = stackLoss raw ticks ∧ ∃ completeness : CompletenessTracker,
      completeness.sawEndOfTrace = w.completeness.sawEndOfTrace ∧
        w' = { w with completeness := completeness } := by
  unfold noteStackCaptureLoss at h
  unfold stackLoss
  by_cases hfailed : raw.stack.status = .failed
  · rw [if_pos hfailed] at h ⊢
    simp only [run_bind_eq_ok, run_get_eq_ok, run_set_eq_ok, run_check_eq_ok,
      run_pure_eq_ok] at h
    obtain ⟨_, _, ⟨rfl, rfl⟩, completeness, _, ⟨hobserve, rfl⟩, _, _, rfl, rfl, rfl⟩ := h
    unfold CompletenessTracker.observeLoss at hobserve
    obtain ⟨⟨⟩, -, hobserve⟩ := bind_eq_ok.mp (failIf_bind_eq_ok.mp hobserve).2
    have hsaw : completeness.sawEndOfTrace = w.completeness.sawEndOfTrace := by
      cases hobserve
      rfl
    exact ⟨rfl, completeness, hsaw, rfl⟩
  · rw [if_neg hfailed] at h ⊢
    rw [run_pure_eq_ok] at h
    obtain ⟨rfl, rfl⟩ := h
    exact ⟨rfl, w.completeness, rfl, rfl⟩

theorem bufferEvent_ok {loss : Option LossRecord} {ticks : ℕ} {u : Unit}
    (h : bufferEvent options raw loss ticks w = .ok u w') :
    ∃ m, appendEvent options raw loss ticks w = .ok m ∧
      (w' = m ∨ (m.IsFull options ∧ flushPending options m = .ok () w')) := by
  unfold bufferEvent onlyIf at h
  simp only [run_bind_eq_ok, run_get_eq_ok, run_set_eq_ok, run_check_eq_ok] at h
  obtain ⟨_, _, ⟨rfl, rfl⟩, m, _, ⟨happend, rfl⟩, _, _, rfl, _, _, ⟨rfl, rfl⟩, h⟩ := h
  refine ⟨_, happend, ?_⟩
  split at h
  · rename_i hfull
    exact .inr ⟨hfull, h⟩
  · rw [run_pure_eq_ok] at h
    exact .inl h.2.symm

/-- How `process_event` ends for an event that was admitted. -/
inductive Settled (options : WriterOptions) (raw : RtlHeapEvent) (ticks : ℕ)
    (m w' : RtlAllocateHeapTraceWriter) : Prop
  | past (hlimit : m.fileLimitReached = true) (hdrop : w' = m.notedEventDrop raw ticks)
  | reached (k : RtlAllocateHeapTraceWriter) (hlimit : m.fileLimitReached = false)
      (hensure : ensurePendingCapacity options m = .ok () k) (hreached : k.fileLimitReached = true)
      (hdrop : w' = k.notedEventDrop raw ticks)
  | buffered (k : RtlAllocateHeapTraceWriter) (hlimit : m.fileLimitReached = false)
      (hensure : ensurePendingCapacity options m = .ok () k) (hbelow : k.fileLimitReached = false)
      (hbuffer : bufferEvent options raw (stackLoss raw ticks) ticks k = .ok () w')

theorem processEvent_ok {u : Unit} (h : processEvent options raw w = .ok u w') :
    validateRawEvent ⟨options.monotonicOrigin, options.hooks, w.lastSequence⟩ raw = .ok () ∧
      validateRawStack raw.stack = .ok () ∧
      ∃ completeness : CompletenessTracker,
        completeness.sawEndOfTrace = w.completeness.sawEndOfTrace ∧
          Settled options raw (w.normalizedTicks raw) (w.admitted raw completeness) w' := by
  unfold processEvent at h
  obtain ⟨ticks, m₁, hadmit, h⟩ := run_bind_eq_ok.mp h
  obtain ⟨hvalid, hstack, rfl, rfl⟩ := admitEvent_ok hadmit
  obtain ⟨loss, m₂, hloss, h⟩ := run_bind_eq_ok.mp h
  obtain ⟨rfl, completeness, hsaw, hm⟩ := noteStackCaptureLoss_ok hloss
  have hm : m₂ = w.admitted raw completeness := hm
  subst hm
  refine ⟨hvalid, hstack, completeness, hsaw, ?_⟩
  obtain ⟨_, _, hget, h⟩ := run_bind_eq_ok.mp h
  obtain ⟨rfl, rfl⟩ := run_get_eq_ok.mp hget
  by_cases hlimit : (w.admitted raw completeness).fileLimitReached = true
  · rw [if_pos hlimit] at h
    exact .past hlimit (noteEventTraceDrop_ok h)
  rw [if_neg hlimit] at h
  have hlimit : (w.admitted raw completeness).fileLimitReached = false := by simpa using hlimit
  obtain ⟨_, k, hensure, h⟩ := run_bind_eq_ok.mp h
  obtain ⟨_, _, hget, h⟩ := run_bind_eq_ok.mp h
  obtain ⟨rfl, rfl⟩ := run_get_eq_ok.mp hget
  by_cases hreached : k.fileLimitReached = true
  · rw [if_pos hreached] at h
    exact .reached k hlimit hensure hreached (noteEventTraceDrop_ok h)
  · rw [if_neg hreached] at h
    exact .buffered k hlimit hensure (by simpa using hreached) h

/-! ## What an event does to the generations -/

/-- The members that only the building of records changes. -/
structure SameLive (w w' : RtlAllocateHeapTraceWriter) : Prop where
  live : w'.live = w.live
  planned : w'.planned = w.planned
  lastSequence : w'.lastSequence = w.lastSequence

theorem SameLive.refl (w : RtlAllocateHeapTraceWriter) : SameLive w w := ⟨rfl, rfl, rfl⟩

theorem SameLive.trans {a b c : RtlAllocateHeapTraceWriter} (hab : SameLive a b)
    (hbc : SameLive b c) : SameLive a c :=
  ⟨hbc.live.trans hab.live, hbc.planned.trans hab.planned,
    hbc.lastSequence.trans hab.lastSequence⟩

theorem Beside.sameLive (h : Beside w w') : SameLive w w' := by
  obtain ⟨file, limit, modules, -, -, rfl⟩ := h
  exact ⟨rfl, rfl, rfl⟩

theorem Filed.sameLive {chunk : Chunk} {written : Bool} (h : Filed options w chunk written w') :
    SameLive w w' := by
  cases h
  · exact ⟨rfl, rfl, rfl⟩
  · exact ⟨rfl, rfl, rfl⟩

theorem Flushed.sameLive (h : Flushed options w w') : SameLive w w' := by
  cases h with
  | modules hpending h => exact h.beside.sameLive
  | written m k hpending hm hfiled h =>
      rw [h]
      exact (hm.sameLive.trans hfiled.sameLive).trans ⟨rfl, rfl, rfl⟩
  | dropped m hpending hm hlimit hcounts h =>
      rw [h]
      exact hm.sameLive.trans ⟨rfl, rfl, rfl⟩

theorem sameLive_ensurePendingCapacity {u : Unit}
    (h : ensurePendingCapacity options w = .ok u w') : SameLive w w' := by
  rcases ensurePendingCapacity_ok h with rfl | ⟨-, hflush⟩
  · exact .refl w'
  · exact (flushPending_ok hflush).sameLive

theorem sameLive_notedEventDrop (w : RtlAllocateHeapTraceWriter) (raw : RtlHeapEvent)
    (ticks : ℕ) : SameLive w (w.notedEventDrop raw ticks) := by
  unfold notedEventDrop
  split
  · exact ⟨rfl, rfl, rfl⟩
  · exact ⟨rfl, rfl, rfl⟩

/-- The record of an event that was built, and what building it did. -/
structure Built (options : WriterOptions) (raw : RtlHeapEvent)
    (w w' : RtlAllocateHeapTraceWriter) (event : Event) : Prop where
  planned : w'.planned = w.planned ++ [event]
  plan : planEvent options.vmContext w.live raw =
    .ok (w'.live, event.header.status, event.payload)
  header : ∃ stackId,
    event.header = eventHeader raw (w.normalizedTicks raw) stackId event.header.status
  valid : validateEvent event = .ok ()

theorem countPending_ok (h : countPending raw w = .ok w') :
    w' = { w with
      pendingEventCount := w.pendingEventCount + 1
      pendingCustomEvents := if raw.Custom then w.pendingCustomEvents + 1 else w.pendingCustomEvents
      pending := if raw.Custom then w.pending
        else Function.update w.pending raw.operation (w.pending raw.operation + 1) } := by
  unfold countPending at h
  obtain ⟨events, hevents, h⟩ := bind_eq_ok.mp h
  rw [checkedAdd_ok hevents] at h
  split at h
  · rename_i hcustom
    obtain ⟨custom, hcount, h⟩ := bind_eq_ok.mp h
    cases h
    rw [checkedAdd_ok hcount, if_pos hcustom, if_pos hcustom]
  · rename_i hcustom
    obtain ⟨count, hcount, h⟩ := bind_eq_ok.mp h
    cases h
    rw [checkedAdd_ok hcount, if_neg hcustom, if_neg hcustom]

/-- What an event puts into the buffers. -/
structure Appended (options : WriterOptions) (raw : RtlHeapEvent) (loss : Option LossRecord)
    (ticks : ℕ) (w w' : RtlAllocateHeapTraceWriter) where
  addition : LinuxTraceWriter.EventAddition
  live : LiveState
  status : EventStatus
  payload : EventPayload
  added : w.addStack raw loss = .ok addition
  plan : planEvent options.vmContext w.live raw = .ok (live, status, payload)
  valid : validateEvent ⟨eventHeader raw ticks addition.stackId status, payload⟩ = .ok ()
  state_eq : w' = { w with
    live := live
    dictionary := addition.dictionary
    stackPayload := w.stackPayload ++ addition.stack
    eventPayload := w.eventPayload ++ addition.loss ++
      [.event ⟨eventHeader raw ticks addition.stackId status, payload⟩]
    pendingSequenceBegin :=
      if w.pendingEventCount = 0 then raw.queueSequence else w.pendingSequenceBegin
    pendingTickBegin := if w.pendingEventCount = 0 then ticks else w.pendingTickBegin
    pendingSequenceEnd := raw.queueSequence
    pendingTickEnd := ticks
    pendingEventCount := w.pendingEventCount + 1
    pendingCustomEvents := if raw.Custom then w.pendingCustomEvents + 1 else w.pendingCustomEvents
    pending := if raw.Custom then w.pending
      else Function.update w.pending raw.operation (w.pending raw.operation + 1)
    pendingUniqueStacks := w.pendingUniqueStacks + addition.unique
    pendingReusedStacks := w.pendingReusedStacks + addition.reused
    planned := w.planned ++ [⟨eventHeader raw ticks addition.stackId status, payload⟩] }

theorem appendEvent_ok {loss : Option LossRecord} {ticks : ℕ}
    (h : appendEvent options raw loss ticks w = .ok w') :
    Nonempty (Appended options raw loss ticks w w') := by
  unfold appendEvent at h
  obtain ⟨addition, hadded, h⟩ := bind_eq_ok.mp h
  obtain ⟨⟨live, status, payload⟩, hplan, h⟩ := bind_eq_ok.mp h
  obtain ⟨⟨⟩, hvalid, h⟩ := bind_eq_ok.mp h
  obtain ⟨m, hcount, h⟩ := bind_eq_ok.mp h
  have hm := countPending_ok hcount
  subst hm
  obtain ⟨unique, hunique, h⟩ := bind_eq_ok.mp h
  obtain ⟨reused, hreused, h⟩ := bind_eq_ok.mp h
  cases h
  rw [checkedAdd_ok hunique, checkedAdd_ok hreused]
  exact ⟨⟨addition, live, status, payload, hadded, hplan, hvalid, rfl⟩⟩

/-- An event is counted at the limit, or its record is built. -/
theorem processEvent_built {u : Unit} (h : processEvent options raw w = .ok u w') :
    w'.lastSequence = raw.queueSequence ∧
      ((w'.live = w.live ∧ w'.planned = w.planned ∧ w'.fileLimitReached = true) ∨
        ∃ event, Built options raw w w' event) := by
  obtain ⟨-, -, completeness, -, hsettled⟩ := processEvent_ok h
  have hlimited : ∀ m : RtlAllocateHeapTraceWriter, ∀ ticks,
      (m.notedEventDrop raw ticks).fileLimitReached = m.fileLimitReached := by
    intro m ticks
    unfold notedEventDrop
    split
    · rfl
    · rfl
  cases hsettled with
  | past hlimit hdrop =>
      have hsame := sameLive_notedEventDrop (w.admitted raw completeness) raw
        (w.normalizedTicks raw)
      rw [hdrop]
      exact ⟨hsame.lastSequence, .inl ⟨hsame.live, hsame.planned, (hlimited _ _).trans hlimit⟩⟩
  | reached k hlimit hensure hreached hdrop =>
      have hsame := (sameLive_ensurePendingCapacity hensure).trans
        (sameLive_notedEventDrop k raw (w.normalizedTicks raw))
      rw [hdrop]
      exact ⟨hsame.lastSequence, .inl ⟨hsame.live, hsame.planned, (hlimited _ _).trans hreached⟩⟩
  | buffered k hlimit hensure hbelow hbuffer =>
      have hk := sameLive_ensurePendingCapacity hensure
      obtain ⟨m, happend, hm⟩ := bufferEvent_ok hbuffer
      have hsame : SameLive m w' := by
        rcases hm with rfl | ⟨-, hflush⟩
        · exact .refl w'
        · exact (flushPending_ok hflush).sameLive
      obtain ⟨⟨addition, live, status, payload, hadded, hplan, hvalid, rfl⟩⟩ := appendEvent_ok happend
      refine ⟨hsame.lastSequence.trans hk.lastSequence, .inr ⟨_, ?_, ?_, ⟨addition.stackId, rfl⟩,
        hvalid⟩⟩
      · rw [hsame.planned, ← show k.planned = w.planned from hk.planned]
      · rw [hsame.live, ← show k.live = w.live from hk.live]
        exact hplan

/-! ## Runs -/

/-- Process a sequence of events. -/
def processEvents (options : WriterOptions) (raws : List RtlHeapEvent) : WriterM Unit :=
  raws.forM (processEvent options)

theorem processEvents_append {more : List RtlHeapEvent} {u : Unit} {raws : List RtlHeapEvent} :
    processEvents options (raws ++ more) w = .ok u w' ↔
      ∃ m, processEvents options raws w = .ok () m ∧ processEvents options more m = .ok u w' := by
  induction raws generalizing w with
  | nil =>
      constructor
      · intro h
        exact ⟨w, rfl, h⟩
      · rintro ⟨m, hm, h⟩
        cases hm
        exact h
  | cons raw raws ih =>
      unfold processEvents at ih ⊢
      rw [List.cons_append, run_forM_cons, run_forM_cons]
      constructor
      · intro h
        obtain ⟨⟨⟩, a, hfirst, hrest⟩ := run_bind_eq_ok.mp h
        obtain ⟨m, hm, hmore⟩ := ih.mp hrest
        exact ⟨m, run_bind_eq_ok.mpr ⟨⟨⟩, a, hfirst, hm⟩, hmore⟩
      · rintro ⟨m, hm, hmore⟩
        obtain ⟨⟨⟩, a, hfirst, hrest⟩ := run_bind_eq_ok.mp hm
        exact run_bind_eq_ok.mpr ⟨⟨⟩, a, hfirst, ih.mpr ⟨m, hrest, hmore⟩⟩

theorem processEvents_singleton {u : Unit} :
    processEvents options [raw] w = .ok u w' ↔ processEvent options raw w = .ok () w' := by
  unfold processEvents
  rw [run_forM_cons, run_bind_eq_ok]
  constructor
  · rintro ⟨⟨⟩, m, hstep, hrest⟩
    cases hrest
    exact hstep
  · intro h
    exact ⟨(), w', h, rfl⟩

/-- What every event preserves, a sequence of events preserves. -/
theorem processEvents_preserves {Inv : RtlAllocateHeapTraceWriter → Prop}
    {raws : List RtlHeapEvent} {u : Unit}
    (hstep : ∀ raw ∈ raws, ∀ w w', Inv w → processEvent options raw w = .ok () w' → Inv w')
    (hw : Inv w) (h : processEvents options raws w = .ok u w') : Inv w' := by
  induction raws generalizing w with
  | nil =>
      cases h
      exact hw
  | cons raw raws ih =>
      unfold processEvents at h
      rw [run_forM_cons] at h
      obtain ⟨⟨⟩, m, hfirst, hrest⟩ := run_bind_eq_ok.mp h
      exact ih (fun other hmem => hstep other (List.mem_cons_of_mem _ hmem))
        (hstep raw List.mem_cons_self w m hw hfirst) hrest

end RtlAllocateHeapTraceWriter

/-! ### A small capture -/

/-- Round sizes, and a compressor that halves. -/
def smallEncoding : Encoding where
  metadata := fun _ => 32
  module := fun _ => 96
  stack := fun _ => 56
  event := fun _ => 96
  memory := fun _ => 40
  compressed := fun
    | .events records => 48 * records.length
    | _ => 64

/-- A capture of process 42 into a file of `maxFileSize` bytes. -/
def smallOptions (hooks : MemoryHooks) (maxFileSize : ℕ) : WriterOptions where
  monotonicOrigin := 10
  captureScope := { startedAtProcessStart := false, preexistingAllocationsUnknown := true }
  processId := 42
  hooks := hooks
  chunkTargetSize := 65536
  stackDictionaryCapacity := 16
  trace := {
    maxFileSize := maxFileSize
    maxUncompressedChunkSize := 65536
    maxStoredChunkSize := 131072
    reservedTailSize := 1024 }
  encoding := smallEncoding

/-- The file after its header and nothing else. -/
def smallFile : TraceWriter := { reservedTailSize := 1024 }

end Noleax.Windows
