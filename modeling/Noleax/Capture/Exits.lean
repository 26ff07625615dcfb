import Noleax.Capture.TerminalRecords

/-!
# The Loss records of a capture that ends or throws

A drop is reported by the finalization or by the error tail only: whatever the loop
does, and wherever it throws, no Loss record in the file or in the buffers stands for
a drop.
-/

namespace Noleax.Capture

open Lib Trace Agent Agent.LinuxTraceWriter

variable {options : WriterOptions} {w w' : LinuxTraceWriter}

/-! ## Reported losses -/

/-- The events a record reports as lost for `reason`. -/
def lossCount (reason : LossReason) : EventChunkRecord → ℕ
  | .loss loss => if loss.reason = reason then loss.estimatedEventCount.getD 0 else 0
  | .event _ => 0

def lossTotal (reason : LossReason) (records : List EventChunkRecord) : ℕ :=
  (records.map (lossCount reason)).sum

def chunkLosses (reason : LossReason) (chunk : Chunk) : ℕ :=
  match chunk.payload with
  | .events records => lossTotal reason records
  | _ => 0

/-- The events the Loss records of a file report as lost for `reason`. -/
def reportedLosses (reason : LossReason) (chunks : List Chunk) : ℕ :=
  (chunks.map (chunkLosses reason)).sum

theorem lossTotal_append (reason : LossReason) (xs ys : List EventChunkRecord) :
    lossTotal reason (xs ++ ys) = lossTotal reason xs + lossTotal reason ys := by
  unfold lossTotal
  rw [List.map_append, List.sum_append]

theorem lossTotal_events (reason : LossReason) (events : List Event) :
    lossTotal reason (events.map .event) = 0 := by
  induction events with
  | nil => rfl
  | cons event events ih =>
      change 0 + lossTotal reason (events.map .event) = 0
      rw [ih]

theorem reportedLosses_append (reason : LossReason) (xs ys : List Chunk) :
    reportedLosses reason (xs ++ ys) = reportedLosses reason xs + reportedLosses reason ys := by
  unfold reportedLosses
  rw [List.map_append, List.sum_append]

theorem reportedLosses_singleton (reason : LossReason) (chunk : Chunk) :
    reportedLosses reason [chunk] = chunkLosses reason chunk := by
  change chunkLosses reason chunk + 0 = _
  rw [Nat.add_zero]

/-- The reasons a drop is reported for. -/
abbrev DropReason (reason : LossReason) : Prop := reason = .queueFull ∨ reason = .traceFull

/-- No Loss record stands for a drop, and nothing has ended the trace. -/
structure DropFree (w : LinuxTraceWriter) : Prop where
  file : ∀ reason, DropReason reason → reportedLosses reason w.file.chunks = 0
  buffer : ∀ reason, DropReason reason → lossTotal reason w.eventPayload = 0
  unfinished : w.endOfTraceWritten = false
  untried : w.errorTailAttempted = false

/-- Members the reported losses do not depend on. -/
theorem DropFree.same (h : DropFree w) (hfile : w'.file.chunks = w.file.chunks)
    (hbuffer : w'.eventPayload = w.eventPayload)
    (hend : w'.endOfTraceWritten = w.endOfTraceWritten)
    (htail : w'.errorTailAttempted = w.errorTailAttempted) : DropFree w' where
  file := hfile ▸ h.file
  buffer := hbuffer ▸ h.buffer
  unfinished := hend.trans h.unfinished
  untried := htail.trans h.untried

/-- A chunk that reports no drop leaves the file without one. -/
theorem DropFree.withChunk (h : DropFree w) {chunk : Chunk} {compress : Bool}
    (hchunk : ∀ reason, DropReason reason → chunkLosses reason chunk = 0) :
    DropFree { w with file := w.file.withChunk options.encoding chunk compress } where
  file := by
    intro reason hreason
    change reportedLosses reason (w.file.chunks ++ [chunk]) = 0
    rw [reportedLosses_append, reportedLosses_singleton, h.file reason hreason,
      hchunk reason hreason]
  buffer := h.buffer
  unfinished := h.unfinished
  untried := h.untried

theorem writeChunk_dropFree {chunk : Chunk} {compress : Bool}
    (hchunk : ∀ reason, DropReason reason → chunkLosses reason chunk = 0) :
    Keeps DropFree (writeChunk options chunk compress) :=
  writeChunk_keeps (fun _ h => h.same rfl rfl rfl rfl) (fun _ h => h.same rfl rfl rfl rfl)
    fun _ h _ => h.withChunk hchunk

theorem streamOperation_dropFree (what : String) :
    Keeps DropFree (streamOperation options what) := by
  unfold streamOperation
  refine keeps_get_bind fun w h => ?_
  have hset : DropFree { w with streamOperations := w.streamOperations + 1 } :=
    h.same rfl rfl rfl rfl
  exact (keeps_set hset).bind fun _ => keeps_ite (fun _ => keeps_throw _) fun _ => keeps_pure _

/-! ## Flushing -/

theorem flushModulePayload_dropFree : Keeps DropFree (flushModulePayload options) := by
  unfold flushModulePayload writeDataChunk
  have hclear : Keeps DropFree (modify fun w => { w with modulePayload := [] } : WriterM Unit) :=
    keeps_modify fun w h => h.same rfl rfl rfl rfl
  exact keeps_get_bind fun w h => keeps_ite (fun _ => keeps_pure _) fun _ =>
    keeps_ite (fun _ => (writeChunk_dropFree fun _ _ => rfl).bind fun _ => hclear) fun _ => hclear

theorem clearPending_dropFree : Keeps DropFree (modify clearPending : WriterM Unit) := by
  refine keeps_modify fun w h => ⟨h.file, fun reason _ => ?_, h.unfinished, h.untried⟩
  unfold clearPending lossTotal
  rfl

theorem dropPendingEvents_dropFree : Keeps DropFree (dropPendingEvents options) := by
  unfold dropPendingEvents
  simp only [WriterM.lift_eq_check]
  refine keeps_get_bind fun w h => keeps_ite (fun _ => ?_) fun _ => clearPending_dropFree
  refine Keeps.bind (keeps_set (h.same rfl rfl rfl rfl)) fun _ => (keeps_check _).bind fun _ => ?_
  refine Keeps.bind (keeps_modify fun w h => h.same rfl rfl rfl rfl) fun _ =>
    (keeps_check _).bind fun _ => ?_
  exact Keeps.bind (keeps_modify fun w h => h.same rfl rfl rfl rfl) fun _ => clearPending_dropFree

theorem notePendingWritten_dropFree : Keeps DropFree (notePendingWritten options) := by
  unfold notePendingWritten
  simp only [WriterM.lift_eq_check]
  refine keeps_get_bind fun w h => (keeps_check _).bind fun _ => ?_
  refine Keeps.bind (keeps_set (h.same rfl rfl rfl rfl)) fun _ => (keeps_check _).bind fun _ => ?_
  refine Keeps.bind (keeps_modify fun w h => h.same rfl rfl rfl rfl) fun _ =>
    (keeps_check _).bind fun _ => (keeps_check _).bind fun _ => ?_
  exact Keeps.bind (keeps_modify fun w h => h.same rfl rfl rfl rfl) fun _ => clearPending_dropFree

theorem flushStackPayload_dropFree : Keeps DropFree (flushStackPayload options) := by
  unfold flushStackPayload
  exact keeps_get_bind fun w h => keeps_ite (fun _ => keeps_pure _) fun _ =>
    writeChunk_dropFree fun _ _ => rfl

theorem flushEventPayload_dropFree : Keeps DropFree (flushEventPayload options) := by
  unfold flushEventPayload
  exact keeps_get_bind fun w h => writeChunk_dropFree h.buffer

theorem flushPending_dropFree : Keeps DropFree (flushPending options) := by
  unfold flushPending
  refine keeps_get_bind fun w h => keeps_ite (fun _ => flushModulePayload_dropFree) fun _ =>
    flushModulePayload_dropFree.bind fun _ => keeps_get_bind fun w h =>
    keeps_ite (fun _ => dropPendingEvents_dropFree) fun _ =>
    flushStackPayload_dropFree.bind fun written => keeps_ite (fun _ => ?_) fun _ =>
    dropPendingEvents_dropFree
  exact flushEventPayload_dropFree.bind fun written => keeps_ite
    (fun _ => notePendingWritten_dropFree) fun _ => dropPendingEvents_dropFree

theorem ensurePendingCapacity_dropFree (n : ℕ) :
    Keeps DropFree (ensurePendingCapacity options n) := by
  unfold ensurePendingCapacity
  exact keeps_get_bind fun w h => keeps_ite (fun _ => flushPending_dropFree) fun _ => keeps_pure _

/-! ## Events -/

theorem noteEventTraceDrop_dropFree (raw : LinuxHeapEvent) (ticks wireBegin n : ℕ) :
    Keeps DropFree (noteEventTraceDrop raw ticks wireBegin n) := by
  unfold noteEventTraceDrop
  simp only [WriterM.lift_eq_check]
  refine keeps_get_bind fun w h => ?_
  refine Keeps.bind (keeps_set (h.same rfl rfl rfl rfl)) fun _ => (keeps_check _).bind fun _ => ?_
  refine Keeps.bind (keeps_modify fun w h => h.same rfl rfl rfl rfl) fun _ =>
    (keeps_check _).bind fun _ => ?_
  exact keeps_modify fun w h => h.same rfl rfl rfl rfl

theorem planEvent_dropFree (raw : LinuxHeapEvent) : Keeps DropFree (planEvent options raw) := by
  unfold planEvent
  simp only [WriterM.lift_eq_check]
  refine keeps_ite (fun _ => keeps_get_bind fun w h => (keeps_check _).bind fun planned => ?_)
    fun _ => keeps_pure _
  exact Keeps.bind (keeps_set (h.same rfl rfl rfl rfl)) fun _ => keeps_pure _

theorem countOperations_dropFree (raw : LinuxHeapEvent) (n : ℕ) :
    Keeps DropFree (countOperations options raw n) := by
  unfold countOperations
  simp only [WriterM.lift_eq_check]
  refine keeps_get_bind fun w h => (keeps_check _).bind fun _ => ?_
  have hupdate : ∀ counters : LinuxTraceWriter → ApiCounters, Keeps DropFree
      (modify fun w => w.updateCounters raw.apiId (counters w) : WriterM Unit) := fun counters =>
    keeps_modify fun w h => h.same rfl rfl rfl rfl
  have hextra : Keeps DropFree (if (if raw.operation = .vmRemap ∧ raw.Succeeded ∧
        raw.resultAddress ≠ raw.address then 2 else 1) < n then do
      let total ← check (checkedAdd (w.counters raw.apiId).extraRecords
        (n - if raw.operation = .vmRemap ∧ raw.Succeeded ∧
          raw.resultAddress ≠ raw.address then 2 else 1) "extra wire record count overflow")
      modify fun w => w.updateCounters raw.apiId
        { w.counters raw.apiId with extraRecords := total }
    else pure () : WriterM Unit) :=
    keeps_ite (fun _ => (keeps_check _).bind fun _ => hupdate _) fun _ => keeps_pure _
  exact keeps_ite (fun _ => (keeps_check _).bind fun _ => (hupdate _).bind fun _ => hextra)
    fun _ => (keeps_check _).bind fun _ => (hupdate _).bind fun _ => hextra

theorem takeWireSequences_dropFree (n : ℕ) : Keeps DropFree (takeWireSequences n) := by
  unfold takeWireSequences
  simp only [WriterM.lift_eq_check]
  refine keeps_get_bind fun w h => (keeps_check _).bind fun _ => ?_
  exact Keeps.bind (keeps_set (h.same rfl rfl rfl rfl)) fun _ => keeps_pure _

/-- A loss that stands for no drop. -/
def NoDrop (loss : Option LossRecord) : Prop := ∀ l ∈ loss, ¬ DropReason l.reason

theorem noteStackCaptureLoss_dropFree (raw : LinuxHeapEvent) (wireBegin n ticks : ℕ) :
    Keeps DropFree (noteStackCaptureLoss raw wireBegin n ticks) := by
  unfold noteStackCaptureLoss
  simp only [WriterM.lift_eq_check]
  refine keeps_ite (fun _ => keeps_get_bind fun w h => (keeps_check _).bind fun _ => ?_) fun _ =>
    keeps_pure _
  exact Keeps.bind (keeps_set (h.same rfl rfl rfl rfl)) fun _ => keeps_pure _

theorem noteStackCaptureLoss_noDrop {raw : LinuxHeapEvent} {wireBegin n ticks : ℕ}
    {loss : Option LossRecord} (h : noteStackCaptureLoss raw wireBegin n ticks w = .ok loss w') :
    NoDrop loss := by
  obtain ⟨completeness, ⟨-, rfl, -⟩ | ⟨-, rfl, -⟩, -⟩ := noteStackCaptureLoss_ok h
  · intro l hl
    cases hl
  · intro l hl
    cases hl
    rintro (h | h) <;> cases h

theorem admitEvent_dropFree (raw : LinuxHeapEvent) : Keeps DropFree (admitEvent options raw) := by
  unfold admitEvent
  simp only [WriterM.lift_eq_check]
  refine keeps_get_bind fun w h => (keeps_check _).bind fun _ => (keeps_check _).bind fun _ => ?_
  exact Keeps.bind (keeps_set (h.same rfl rfl rfl rfl)) fun _ => keeps_pure _

/-- What `add_stack` puts before the event's records stands for no drop. -/
theorem addStack_noDrop {raw : LinuxHeapEvent} {loss : Option LossRecord}
    {addition : EventAddition} (hloss : NoDrop loss) (h : w.addStack raw loss = .ok addition)
    {reason : LossReason} (hreason : DropReason reason) : lossTotal reason addition.loss = 0 := by
  unfold addStack at h
  split at h
  · obtain ⟨⟨dictionary, id, inserted⟩, -, h⟩ := bind_eq_ok.mp h
    dsimp only at h
    split at h
    · obtain ⟨_, -, h⟩ := bind_eq_ok.mp h
      cases h
      rfl
    · cases h
      rfl
  · cases loss with
    | none =>
        cases h
        rfl
    | some l =>
        obtain ⟨_, -, h⟩ := bind_eq_ok.mp h
        cases h
        have hne : l.reason ≠ reason := fun heq => hloss l rfl (heq ▸ hreason)
        unfold lossTotal lossCount
        simp [hne]

theorem bufferEvent_dropFree (raw : LinuxHeapEvent) (plan : List VmPlanRecord)
    {loss : Option LossRecord} (hloss : NoDrop loss) (ticks wireBegin n : ℕ) :
    Keeps DropFree (bufferEvent options raw plan loss ticks wireBegin n) := by
  unfold bufferEvent
  simp only [WriterM.lift_eq_check]
  refine keeps_get_bind fun w h => Keeps.bind_of (keeps_check _)
    (fun s m t hrun => (run_check_eq_ok.mp hrun).1) fun m happend => ?_
  obtain ⟨addition, heap, records, hstack, -, -, rfl⟩ := appendEvent_ok happend
  have hm : DropFree { w with
      eventPayload := w.eventPayload ++ addition.loss ++ records.map .event } := by
    refine ⟨h.file, fun reason hreason => ?_, h.unfinished, h.untried⟩
    change lossTotal reason (w.eventPayload ++ addition.loss ++ records.map .event) = 0
    rw [lossTotal_append, lossTotal_append, h.buffer reason hreason,
      addStack_noDrop hloss hstack hreason, lossTotal_events]
  refine Keeps.bind (keeps_set (hm.same rfl rfl rfl rfl)) fun _ => ?_
  exact keeps_get_bind fun w h => keeps_ite (fun _ => flushPending_dropFree) fun _ => keeps_pure _

theorem processEvent_dropFree (raw : LinuxHeapEvent) :
    Keeps DropFree (processEvent options raw) := by
  unfold processEvent
  refine (admitEvent_dropFree raw).bind fun ticks => (planEvent_dropFree raw).bind fun plan =>
    (countOperations_dropFree raw _).bind fun _ => (takeWireSequences_dropFree _).bind
    fun wireBegin => (noteStackCaptureLoss_dropFree raw _ _ _).bind_of
    (fun s loss t hrun => noteStackCaptureLoss_noDrop hrun) fun loss hloss =>
    keeps_get_bind fun w h => ?_
  refine keeps_ite (fun _ => noteEventTraceDrop_dropFree raw _ _ _) fun _ =>
    (ensurePendingCapacity_dropFree _).bind fun _ => keeps_get_bind fun w h => ?_
  exact keeps_ite (fun _ => noteEventTraceDrop_dropFree raw _ _ _) fun _ =>
    bufferEvent_dropFree raw plan hloss _ _ _

/-! ## Modules, samples and the beginning -/

theorem flushBeforeModule_dropFree : Keeps DropFree (flushBeforeModule options) := by
  unfold flushBeforeModule
  exact keeps_get_bind fun w h => keeps_ite (fun _ => flushPending_dropFree) fun _ => keeps_pure _

theorem loadModule_dropFree (raw : RawModuleEvent) (ticks : ℕ) :
    Keeps DropFree (loadModule options raw ticks) := by
  unfold loadModule
  simp only [WriterM.lift_eq_check]
  refine keeps_get_bind fun w h => (keeps_check _).bind fun _ => (keeps_check _).bind fun _ =>
    (keeps_check _).bind fun _ => flushBeforeModule_dropFree.bind fun _ =>
    keeps_get_bind fun w h => ?_
  refine Keeps.bind (keeps_set (h.same rfl rfl rfl rfl)) fun _ => (keeps_check _).bind fun _ => ?_
  exact keeps_modify fun w h => h.same rfl rfl rfl rfl

theorem unloadModule_dropFree (raw : RawModuleEvent) (existing : LiveModule) (ticks : ℕ) :
    Keeps DropFree (unloadModule options raw existing ticks) := by
  unfold unloadModule
  simp only [WriterM.lift_eq_check]
  refine flushBeforeModule_dropFree.bind fun _ => (keeps_check _).bind fun _ => ?_
  exact keeps_modify fun w h => h.same rfl rfl rfl rfl

theorem settleModule_dropFree (ticks : ℕ) : Keeps DropFree (settleModule options ticks) := by
  unfold settleModule
  refine Keeps.bind (keeps_modify fun w h => h.same rfl rfl rfl rfl) fun _ => ?_
  exact keeps_get_bind fun w h => keeps_ite (fun _ => flushModulePayload_dropFree) fun _ =>
    keeps_pure _

theorem processModuleEvent_dropFree (raw : RawModuleEvent) :
    Keeps DropFree (processModuleEvent options raw) := by
  unfold processModuleEvent
  simp only [WriterM.lift_eq_check]
  refine (keeps_check _).bind fun _ => keeps_get_bind fun w h => (keeps_check _).bind fun ticks => ?_
  cases raw.type with
  | load => exact (loadModule_dropFree raw ticks).bind fun _ => settleModule_dropFree ticks
  | unload =>
      cases hlive : w.liveModules.lookup raw.baseAddress with
      | none =>
          exact keeps_set (h.same rfl rfl rfl rfl)
      | some existing =>
          exact (unloadModule_dropFree raw existing ticks).bind fun _ => settleModule_dropFree ticks

theorem captureMemorySnapshot_dropFree (now : ℕ) (samples : List (ℕ → MemoryRecord)) :
    Keeps DropFree (captureMemorySnapshot options now samples) := by
  unfold captureMemorySnapshot writeDataChunk
  refine keeps_get_bind fun w h => keeps_ite (fun _ => keeps_pure _) fun _ => ?_
  refine Keeps.bind (keeps_set (h.same rfl rfl rfl rfl)) fun _ => keeps_ite (fun _ => ?_) fun _ =>
    keeps_pure _
  exact (writeChunk_dropFree fun _ _ => rfl).bind fun _ => keeps_pure _

theorem collectDrops_dropFree (count : ℕ) :
    Keeps DropFree (collectQueueDrops count) ∧ Keeps DropFree (collectModuleDrops count) := by
  unfold collectQueueDrops collectModuleDrops
  simp only [WriterM.lift_eq_check]
  constructor <;> exact keeps_get_bind fun w h => (keeps_check _).bind fun _ =>
    keeps_set (h.same rfl rfl rfl rfl)

theorem perform_dropFree (action : WriterAction) : Keeps DropFree (perform options action) := by
  cases action with
  | event raw => exact processEvent_dropFree raw
  | module raw => exact processModuleEvent_dropFree raw
  | flushTick => exact flushPending_dropFree.bind fun _ => streamOperation_dropFree _
  | queueDrops count => exact (collectDrops_dropFree count).1
  | moduleDrops count => exact (collectDrops_dropFree count).2
  | memory now samples => exact captureMemorySnapshot_dropFree now samples

theorem captureLoop_dropFree (actions : List WriterAction) :
    Keeps DropFree (captureLoop options actions) := by
  induction actions with
  | nil => exact keeps_pure ()
  | cons action actions ih =>
      rw [captureLoop_cons]
      exact (perform_dropFree action).bind fun _ => ih

theorem writeMetadata_dropFree : Keeps DropFree (writeMetadata options) := by
  unfold writeMetadata
  refine keeps_get_bind fun w h => keeps_ite (fun _ => keeps_pure _) fun _ => ?_
  refine Keeps.bind (keeps_modify fun w h => h.same rfl rfl rfl rfl) fun _ =>
    (streamOperation_dropFree _).bind fun _ => keeps_get_bind fun w h => ?_
  rw [WriterM.lift_eq_check]
  refine Keeps.bind_of (keeps_check _) (fun s result t hrun => (run_check_eq_ok.mp hrun).1)
    fun result hwrite => ?_
  cases result with
  | none => exact keeps_throw _
  | some file =>
      obtain ⟨-, rfl⟩ := TraceWriter.writeChunk_eq_some.mp hwrite
      exact keeps_set (h.withChunk fun _ _ => rfl)

theorem beginCapture_dropFree (baselines : List MemoryBaseline) :
    Keeps DropFree (beginCapture options baselines) := by
  unfold beginCapture writeMemoryBaselines writeDataChunk
  refine writeMetadata_dropFree.bind fun _ => (streamOperation_dropFree _).bind fun _ =>
    keeps_ite (fun _ => keeps_pure _) fun _ => ?_
  refine Keeps.bind (keeps_modify fun w h => h.same rfl rfl rfl rfl) fun _ => ?_
  exact (writeChunk_dropFree fun _ _ => rfl).bind fun _ => keeps_pure _

theorem start_dropFree (options : WriterOptions) : DropFree (.start options) where
  file := fun _ _ => rfl
  buffer := fun _ _ => rfl
  unfinished := rfl
  untried := rfl

end Noleax.Capture
