import Mathlib.Algebra.BigOperators.Group.Finset.Basic
import Noleax.Windows.WriterSteps

/-!
# Every processed event is accounted for

An event is pending, in the file, or counted as a trace drop of its operation or of its
custom hook point. `Counts` says so about the members the accounting reads (`Ledger`);
each way `process_event` and `flush_pending` can end keeps it.
-/

namespace Noleax.Windows

open Lib Trace Agent

/-! ## What is counted -/

/-- The processed events of a built-in operation. -/
def processedOf (raws : List RtlHeapEvent) (operation : RtlHeapEventOperation) : ℕ :=
  raws.countP fun raw => ¬ raw.Custom ∧ raw.operation = operation

/-- The processed events of a custom hook point. -/
def processedBy (raws : List RtlHeapEvent) (apiId : ℕ) : ℕ :=
  raws.countP fun raw => raw.apiId = apiId

/-- Whether a record is an event of the API. -/
def isRecordOf (apiId : ℕ) : EventChunkRecord → Bool
  | .event event => event.header.apiId = apiId
  | .loss _ => false

/-- Whether a record is an event of a custom hook point. -/
def isCustomRecord : EventChunkRecord → Bool
  | .event event => customHookApiIdBase ≤ event.header.apiId
  | .loss _ => false

theorem not_isRecordOf {apiId : ℕ} {record : EventChunkRecord} (hcustom : customHookApiIdBase ≤ apiId)
    (h : isCustomRecord record = false) : isRecordOf apiId record = false := by
  cases record with
  | loss loss => rfl
  | event event =>
      have hlt : event.header.apiId < customHookApiIdBase := by
        simpa [isCustomRecord] using h
      have hne : event.header.apiId ≠ apiId := by omega
      simpa [isRecordOf] using hne

/-- Without a custom record there is none of any custom hook point. -/
theorem countP_isRecordOf {apiId : ℕ} {records : List EventChunkRecord}
    (hcustom : customHookApiIdBase ≤ apiId) (h : records.countP isCustomRecord = 0) :
    records.countP (isRecordOf apiId) = 0 := by
  rw [List.countP_eq_zero] at h ⊢
  intro record hmem
  have hnot := h record hmem
  rw [not_isRecordOf hcustom (by simpa using hnot)]
  exact Bool.false_ne_true

/-- The sum of the counters of all operations. -/
def sumCounts (counts : OperationCounts) : ℕ := (RtlHeapEventOperation.all.map counts).sum

theorem sumCounts_add (a b : OperationCounts) :
    sumCounts (fun operation => a operation + b operation) = sumCounts a + sumCounts b :=
  List.sum_map_add

theorem le_sumCounts (counts : OperationCounts) (operation : RtlHeapEventOperation) :
    counts operation ≤ sumCounts counts :=
  List.single_le_sum (fun _ _ => Nat.zero_le _) _
    (List.mem_map_of_mem (RtlHeapEventOperation.mem_all operation))

open RtlAllocateHeapTraceWriter (oneOf)

theorem sumCounts_oneOf (operation : RtlHeapEventOperation) : sumCounts (oneOf operation) = 1 := by
  cases operation <;> rfl

theorem update_count (counts : OperationCounts) (operation : RtlHeapEventOperation) :
    Function.update counts operation (counts operation + 1) =
      fun other => counts other + oneOf operation other := by
  funext other
  by_cases hother : other = operation
  · subst hother
    rw [Function.update_self]
    simp [oneOf]
  · rw [Function.update_of_ne hother]
    simp [oneOf, hother]

/-! ## The ledger -/

/-- The members the accounting is about. -/
structure Ledger where
  pendingEvents : ℕ
  pendingCustom : ℕ
  pending : OperationCounts
  pendingStacks : ℕ
  buffered : List EventChunkRecord
  writtenEvents : ℕ
  writtenCustom : ℕ
  written : OperationCounts
  writtenStacks : ℕ
  filed : List EventChunkRecord
  droppedEvents : ℕ
  dropped : OperationCounts
  droppedCustom : ℕ → ℕ

open RtlAllocateHeapTraceWriter (filedRecords)

def RtlAllocateHeapTraceWriter.ledger (w : RtlAllocateHeapTraceWriter) : Ledger where
  pendingEvents := w.pendingEventCount
  pendingCustom := w.pendingCustomEvents
  pending := w.pending
  pendingStacks := w.pendingUniqueStacks + w.pendingReusedStacks
  buffered := w.eventPayload
  writtenEvents := w.writtenEvents
  writtenCustom := w.writtenCustomEvents
  written := w.written
  writtenStacks := w.uniqueStacks + w.reusedStacks
  filed := filedRecords w.file
  droppedEvents := w.traceDroppedEvents
  dropped := w.traceDropped
  droppedCustom := w.traceCustomDroppedPerApi

/-- The trace drops of all custom hook points. -/
def sumCustom (hooks : MemoryHooks) (counts : ℕ → ℕ) : ℕ :=
  ∑ apiId ∈ hooks.customApiIds.toFinset, counts apiId

/-- The accounting of the processed events. -/
structure Counts (hooks : MemoryHooks) (raws : List RtlHeapEvent) (ledger : Ledger) : Prop where
  total : raws.length = ledger.pendingEvents + ledger.writtenEvents + ledger.droppedEvents
  builtin : ∀ operation, processedOf raws operation =
    ledger.pending operation + ledger.written operation + ledger.dropped operation
  custom : ∀ apiId, customHookApiIdBase ≤ apiId → processedBy raws apiId =
    ledger.buffered.countP (isRecordOf apiId) + ledger.filed.countP (isRecordOf apiId) +
      ledger.droppedCustom apiId
  pendingTotal : ledger.pendingEvents = sumCounts ledger.pending + ledger.pendingCustom
  writtenTotal : ledger.writtenEvents = sumCounts ledger.written + ledger.writtenCustom
  droppedTotal : ledger.droppedEvents =
    sumCounts ledger.dropped + sumCustom hooks ledger.droppedCustom
  pendingCustom : ledger.pendingCustom = ledger.buffered.countP isCustomRecord
  pendingStacks : ledger.pendingStacks ≤ ledger.pendingEvents
  writtenStacks : ledger.writtenStacks ≤ ledger.writtenEvents

namespace Counts

variable {hooks : MemoryHooks} {raws : List RtlHeapEvent} {ledger : Ledger} {raw : RtlHeapEvent}

theorem processedOf_append (operation : RtlHeapEventOperation) :
    processedOf (raws ++ [raw]) operation =
      processedOf raws operation + (if ¬ raw.Custom ∧ raw.operation = operation then 1 else 0) := by
  unfold processedOf
  rw [List.countP_append, List.countP_singleton]
  simp only [decide_eq_true_eq]

theorem processedBy_append (apiId : ℕ) :
    processedBy (raws ++ [raw]) apiId =
      processedBy raws apiId + (if raw.apiId = apiId then 1 else 0) := by
  unfold processedBy
  rw [List.countP_append, List.countP_singleton]
  simp only [decide_eq_true_eq]

/-- A built-in event is one of its operation. -/
theorem oneOf_builtin (hbuiltin : ¬ raw.Custom) (operation : RtlHeapEventOperation) :
    (if ¬ raw.Custom ∧ raw.operation = operation then 1 else 0) =
      oneOf raw.operation operation := by
  unfold oneOf
  by_cases hop : operation = raw.operation
  · rw [if_pos ⟨hbuiltin, hop.symm⟩, if_pos hop]
  · rw [if_neg fun hboth => hop hboth.2.symm, if_neg hop]

/-- A built-in event is dropped. -/
theorem dropBuiltin (h : Counts hooks raws ledger) (hbuiltin : ¬ raw.Custom) :
    Counts hooks (raws ++ [raw]) { ledger with
      droppedEvents := ledger.droppedEvents + 1
      dropped := fun operation => ledger.dropped operation + oneOf raw.operation operation } where
  total := by
    rw [List.length_append, h.total]
    rfl
  builtin := by
    intro operation
    rw [processedOf_append, oneOf_builtin hbuiltin, h.builtin]
    dsimp only
    omega
  custom := by
    intro apiId hcustom
    rw [processedBy_append, h.custom apiId hcustom, if_neg]
    · rfl
    · intro heq
      apply hbuiltin
      unfold customHookApiIdBase at hcustom
      show raw.apiId ≠ 0
      omega
  pendingTotal := h.pendingTotal
  writtenTotal := h.writtenTotal
  droppedTotal := by
    show ledger.droppedEvents + 1 =
      sumCounts (fun operation => ledger.dropped operation + oneOf raw.operation operation) +
        sumCustom hooks ledger.droppedCustom
    rw [sumCounts_add, sumCounts_oneOf, h.droppedTotal]
    omega
  pendingCustom := h.pendingCustom
  pendingStacks := h.pendingStacks
  writtenStacks := h.writtenStacks

/-- A custom event is dropped. -/
theorem dropCustom (h : Counts hooks raws ledger) (hcustom : raw.Custom)
    (hknown : hooks.IsKnownCustomApi raw.apiId) :
    Counts hooks (raws ++ [raw]) { ledger with
      droppedEvents := ledger.droppedEvents + 1
      droppedCustom := Function.update ledger.droppedCustom raw.apiId
        (ledger.droppedCustom raw.apiId + 1) } where
  total := by
    rw [List.length_append, h.total]
    rfl
  builtin := by
    intro operation
    rw [processedOf_append, if_neg fun hboth => hboth.1 hcustom, h.builtin]
    rfl
  custom := by
    intro apiId hbase
    rw [processedBy_append, h.custom apiId hbase]
    dsimp only
    by_cases hid : apiId = raw.apiId
    · subst hid
      rw [Function.update_self, if_pos rfl]
      omega
    · rw [Function.update_of_ne hid, if_neg (Ne.symm hid)]
      rfl
  pendingTotal := h.pendingTotal
  writtenTotal := h.writtenTotal
  droppedTotal := by
    have hmem : raw.apiId ∈ hooks.customApiIds.toFinset := List.mem_toFinset.mpr hknown.2
    have hsum : sumCustom hooks (Function.update ledger.droppedCustom raw.apiId
        (ledger.droppedCustom raw.apiId + 1)) = sumCustom hooks ledger.droppedCustom + 1 := by
      unfold sumCustom
      rw [Finset.sum_update_of_mem hmem, ← Finset.add_sum_erase _ _ hmem,
        Finset.erase_eq]
      omega
    show ledger.droppedEvents + 1 = sumCounts ledger.dropped + sumCustom hooks
      (Function.update ledger.droppedCustom raw.apiId (ledger.droppedCustom raw.apiId + 1))
    rw [hsum, h.droppedTotal]
    omega
  pendingCustom := h.pendingCustom
  pendingStacks := h.pendingStacks
  writtenStacks := h.writtenStacks

/-- The pending events were written. -/
theorem write (h : Counts hooks raws ledger) :
    Counts hooks raws { ledger with
      pendingEvents := 0
      pendingCustom := 0
      pending := fun _ => 0
      pendingStacks := 0
      buffered := []
      writtenEvents := ledger.writtenEvents + ledger.pendingEvents
      writtenCustom := ledger.writtenCustom + ledger.pendingCustom
      written := fun operation => ledger.written operation + ledger.pending operation
      writtenStacks := ledger.writtenStacks + ledger.pendingStacks
      filed := ledger.filed ++ ledger.buffered } where
  total := by
    rw [h.total]
    dsimp only
    omega
  builtin := by
    intro operation
    rw [h.builtin]
    dsimp only
    omega
  custom := by
    intro apiId hcustom
    rw [h.custom apiId hcustom]
    dsimp only
    rw [List.countP_append, List.countP_nil]
    omega
  pendingTotal := rfl
  writtenTotal := by
    show ledger.writtenEvents + ledger.pendingEvents =
      sumCounts (fun operation => ledger.written operation + ledger.pending operation) +
        (ledger.writtenCustom + ledger.pendingCustom)
    rw [sumCounts_add, h.writtenTotal, h.pendingTotal]
    omega
  droppedTotal := h.droppedTotal
  pendingCustom := rfl
  pendingStacks := Nat.le_refl _
  writtenStacks := by
    have hstacks := h.pendingStacks
    have hwritten := h.writtenStacks
    dsimp only
    omega

/-- The pending events were dropped, none of them custom. -/
theorem dropPending (h : Counts hooks raws ledger) (hnone : ledger.pendingCustom = 0) :
    Counts hooks raws { ledger with
      pendingEvents := 0
      pendingCustom := 0
      pending := fun _ => 0
      pendingStacks := 0
      buffered := []
      droppedEvents := ledger.droppedEvents + ledger.pendingEvents
      dropped := fun operation => ledger.dropped operation + ledger.pending operation } where
  total := by
    rw [h.total]
    dsimp only
    omega
  builtin := by
    intro operation
    rw [h.builtin]
    dsimp only
    omega
  custom := by
    intro apiId hcustom
    have hbuffered := countP_isRecordOf hcustom (h.pendingCustom.symm.trans hnone)
    rw [h.custom apiId hcustom, hbuffered]
    rfl
  pendingTotal := rfl
  writtenTotal := h.writtenTotal
  droppedTotal := by
    show ledger.droppedEvents + ledger.pendingEvents =
      sumCounts (fun operation => ledger.dropped operation + ledger.pending operation) +
        sumCustom hooks ledger.droppedCustom
    rw [sumCounts_add, h.droppedTotal, h.pendingTotal, hnone]
    omega
  pendingCustom := rfl
  pendingStacks := Nat.le_refl _
  writtenStacks := h.writtenStacks

/-- A record of the event's API, and losses, enter the buffer. -/
theorem buffer (h : Counts hooks raws ledger) {event : Event} {losses : List EventChunkRecord}
    {interned : ℕ} (hapi : event.header.apiId = RtlAllocateHeapTraceWriter.recordApiId raw)
    (hknown : raw.Custom → hooks.IsKnownCustomApi raw.apiId)
    (hlosses : ∀ record ∈ losses, ∃ loss, record = .loss loss) (hinterned : interned ≤ 1) :
    Counts hooks (raws ++ [raw]) { ledger with
      pendingEvents := ledger.pendingEvents + 1
      pendingCustom := if raw.Custom then ledger.pendingCustom + 1 else ledger.pendingCustom
      pending := if raw.Custom then ledger.pending
        else Function.update ledger.pending raw.operation (ledger.pending raw.operation + 1)
      pendingStacks := ledger.pendingStacks + interned
      buffered := ledger.buffered ++ losses ++ [.event event] } where
  total := by
    rw [List.length_append, h.total]
    show _ + 1 = ledger.pendingEvents + 1 + ledger.writtenEvents + ledger.droppedEvents
    omega
  builtin := by
    intro operation
    rw [processedOf_append, h.builtin]
    dsimp only
    by_cases hcustom : raw.Custom
    · rw [if_neg fun hboth => hboth.1 hcustom, if_pos hcustom]
      rfl
    · rw [oneOf_builtin hcustom, if_neg hcustom, update_count]
      dsimp only
      omega
  custom := by
    intro apiId hbase
    have hquiet : losses.countP (isRecordOf apiId) = 0 := by
      rw [List.countP_eq_zero]
      intro record hmem
      obtain ⟨loss, rfl⟩ := hlosses record hmem
      exact Bool.false_ne_true
    have hevent : isRecordOf apiId (.event event) = decide (raw.apiId = apiId) := by
      show decide (event.header.apiId = apiId) = _
      rw [hapi]
      unfold RtlAllocateHeapTraceWriter.recordApiId
      by_cases hcustom : raw.Custom
      · rw [if_pos hcustom]
      · have hlt := raw.operation.apiId_lt
        have hzero : raw.apiId = 0 := not_not.mp hcustom
        unfold customHookApiIdBase at hbase hlt
        rw [if_neg hcustom, decide_eq_false (by omega), decide_eq_false (by omega)]
    rw [processedBy_append, h.custom apiId hbase]
    dsimp only
    rw [List.countP_append, List.countP_append, hquiet, List.countP_singleton, hevent]
    simp only [decide_eq_true_eq]
    omega
  pendingTotal := by
    dsimp only
    by_cases hcustom : raw.Custom
    · rw [if_pos hcustom, if_pos hcustom, h.pendingTotal]
      omega
    · rw [if_neg hcustom, if_neg hcustom, update_count, sumCounts_add, sumCounts_oneOf,
        h.pendingTotal]
      omega
  writtenTotal := h.writtenTotal
  droppedTotal := h.droppedTotal
  pendingCustom := by
    have hquiet : losses.countP isCustomRecord = 0 := by
      rw [List.countP_eq_zero]
      intro record hmem
      obtain ⟨loss, rfl⟩ := hlosses record hmem
      exact Bool.false_ne_true
    have hevent : isCustomRecord (.event event) = decide raw.Custom := by
      show decide (customHookApiIdBase ≤ event.header.apiId) = _
      rw [hapi]
      unfold RtlAllocateHeapTraceWriter.recordApiId
      by_cases hcustom : raw.Custom
      · rw [if_pos hcustom, decide_eq_true (hknown hcustom).1, decide_eq_true hcustom]
      · have hlt := raw.operation.apiId_lt
        rw [if_neg hcustom, decide_eq_false (by omega), decide_eq_false hcustom]
    dsimp only
    rw [List.countP_append, List.countP_append, hquiet, List.countP_singleton, hevent,
      ← h.pendingCustom]
    simp only [decide_eq_true_eq]
    split
    · rfl
    · rfl
  pendingStacks := by
    have hstacks := h.pendingStacks
    dsimp only
    omega
  writtenStacks := h.writtenStacks

end Counts

/-! ## The writer -/

namespace RtlAllocateHeapTraceWriter

variable {options : WriterOptions} {w w' : RtlAllocateHeapTraceWriter} {raw : RtlHeapEvent}
  {raws : List RtlHeapEvent}

/-- What `add_stack` puts beside the event. -/
theorem addStack_ok {loss : Option LossRecord} {addition : LinuxTraceWriter.EventAddition}
    (h : w.addStack raw loss = .ok addition) :
    (∀ record ∈ addition.loss, ∃ l, record = .loss l) ∧ addition.unique + addition.reused ≤ 1 := by
  unfold addStack at h
  by_cases hcaptured : stackCaptureSucceeded raw.stack
  · rw [if_pos hcaptured] at h
    obtain ⟨⟨dictionary, id, inserted⟩, -, h⟩ := bind_eq_ok.mp h
    cases inserted with
    | true =>
        obtain ⟨⟨⟩, -, h⟩ := bind_eq_ok.mp h
        cases h
        exact ⟨fun _ hmem => absurd hmem List.not_mem_nil, Nat.le_refl _⟩
    | false =>
        cases h
        exact ⟨fun _ hmem => absurd hmem List.not_mem_nil, Nat.le_refl _⟩
  · rw [if_neg hcaptured] at h
    cases loss with
    | some loss =>
        obtain ⟨⟨⟩, -, h⟩ := bind_eq_ok.mp h
        cases h
        exact ⟨fun record hmem => ⟨loss, List.mem_singleton.mp hmem⟩, Nat.zero_le _⟩
    | none =>
        cases h
        exact ⟨fun _ hmem => absurd hmem List.not_mem_nil, Nat.zero_le _⟩

/-- All events processed so far are accounted for. -/
structure Accounted (options : WriterOptions) (raws : List RtlHeapEvent)
    (w : RtlAllocateHeapTraceWriter) : Prop where
  counts : Counts options.hooks raws w.ledger
  last : w.lastSequence = raws.length
  bound : raws.length ≤ maxU64

theorem counts_beside (h : Counts options.hooks raws w.ledger) (hbeside : Beside w w') :
    Counts options.hooks raws w'.ledger := by
  obtain ⟨file, limit, modules, -, hrecords, rfl⟩ := hbeside
  have hledger : ({ w with file := file, fileLimitReached := limit, modulePayload := modules } :
      RtlAllocateHeapTraceWriter).ledger = w.ledger := by
    unfold ledger
    rw [hrecords]
  rw [hledger]
  exact h

/-- The custom events leave nothing for the section unmaps when the counts add up. -/
theorem remaining_eq {counts : OperationCounts} {count left : ℕ}
    {order : List RtlHeapEventOperation} :
    remaining counts count order = some left ↔ (order.map counts).sum + left = count := by
  induction order generalizing count with
  | nil =>
      show some count = some left ↔ 0 + left = count
      rw [Option.some_inj]
      omega
  | cons operation order ih =>
      rw [List.map_cons, List.sum_cons]
      unfold remaining
      by_cases hlt : count < counts operation
      · rw [if_pos hlt]
        constructor
        · intro h
          cases h
        · intro h
          omega
      · rw [if_neg hlt, ih]
        omega

/-- The check of `note_trace_drop_range`: the counts of the operations are all there is. -/
theorem remaining_all {counts : OperationCounts} {count : ℕ} :
    remaining counts count dropOrder = some (counts .sectionUnmap) ↔ count = sumCounts counts := by
  rw [remaining_eq]
  simp only [dropOrder, sumCounts, RtlHeapEventOperation.all, List.map_cons, List.map_nil,
    List.sum_cons, List.sum_nil]
  omega

theorem counts_flushed (h : Counts options.hooks raws w.ledger) (hflushed : Flushed options w w') :
    Counts options.hooks raws w'.ledger := by
  cases hflushed with
  | modules hpending hmodules => exact counts_beside h hmodules.beside
  | written m k hpending hm hfiled hw =>
      obtain ⟨file, limit, modules, -, hrecords, rfl⟩ := hm
      cases hfiled with
      | written hadmits =>
          subst hw
          have hwritten := h.write
          let chunk : Chunk :=
            { payload := .events w.eventPayload
              sequenceBegin := w.pendingSequenceBegin
              sequenceEnd := w.pendingSequenceEnd }
          have hfile : filedRecords (file.withChunk options.encoding chunk true) =
              filedRecords w.file ++ w.eventPayload := by
            rw [filedRecords_withChunk, hrecords]
            rfl
          show Counts options.hooks raws { w.ledger with
            pendingEvents := 0
            pendingCustom := 0
            pending := fun _ => 0
            pendingStacks := 0
            buffered := []
            writtenEvents := w.writtenEvents + w.pendingEventCount
            writtenCustom := w.writtenCustomEvents + w.pendingCustomEvents
            written := fun operation => w.written operation + w.pending operation
            writtenStacks := w.uniqueStacks + w.pendingUniqueStacks +
              (w.reusedStacks + w.pendingReusedStacks)
            filed := filedRecords (file.withChunk options.encoding chunk true) }
          rw [hfile, Nat.add_add_add_comm]
          exact hwritten
  | dropped m hpending hm hlimit hcounts hw =>
      subst hw
      have hnone : w.ledger.pendingCustom = 0 := by
        have hcount := remaining_all.mp hcounts
        have htotal := h.pendingTotal
        change w.pendingEventCount = sumCounts w.pending + w.pendingCustomEvents at htotal
        show w.pendingCustomEvents = 0
        omega
      have hdropped := h.dropPending hnone
      obtain ⟨file, limit, modules, -, hrecords, rfl⟩ := hm
      show Counts options.hooks raws { w.ledger with
        pendingEvents := 0
        pendingCustom := 0
        pending := fun _ => 0
        pendingStacks := 0
        buffered := []
        filed := filedRecords file
        droppedEvents := w.traceDroppedEvents + w.pendingEventCount
        dropped := fun operation => w.traceDropped operation + w.pending operation }
      rw [hrecords]
      exact hdropped

theorem counts_ensurePendingCapacity {u : Unit} (hcounts : Counts options.hooks raws w.ledger)
    (h : ensurePendingCapacity options w = .ok u w') : Counts options.hooks raws w'.ledger := by
  rcases ensurePendingCapacity_ok h with rfl | ⟨-, hflush⟩
  · exact hcounts
  · exact counts_flushed hcounts (flushPending_ok hflush)

theorem accounted_flushed (h : Accounted options raws w) (hflushed : Flushed options w w') :
    Accounted options raws w' :=
  ⟨counts_flushed h.counts hflushed, hflushed.sameLive.lastSequence.trans h.last, h.bound⟩

/-- An event that arrives at the limit is counted. -/
theorem counts_notedEventDrop (h : Counts options.hooks raws w.ledger)
    (hknown : raw.Custom → options.hooks.IsKnownCustomApi raw.apiId) (ticks : ℕ) :
    Counts options.hooks (raws ++ [raw]) (w.notedEventDrop raw ticks).ledger := by
  unfold notedEventDrop
  by_cases hcustom : raw.Custom
  · rw [if_pos hcustom]
    exact h.dropCustom hcustom (hknown hcustom)
  · rw [if_neg hcustom]
    exact h.dropBuiltin hcustom

/-- An event that enters the buffers is pending. -/
theorem counts_appended {loss : Option LossRecord} {ticks : ℕ}
    (h : Counts options.hooks raws w.ledger)
    (hknown : raw.Custom → options.hooks.IsKnownCustomApi raw.apiId)
    (happended : Appended options raw loss ticks w w') :
    Counts options.hooks (raws ++ [raw]) w'.ledger := by
  obtain ⟨addition, live, status, payload, hadded, -, -, rfl⟩ := happended
  obtain ⟨hlosses, hinterned⟩ := addStack_ok hadded
  have hapi : (⟨eventHeader raw ticks addition.stackId status, payload⟩ : Event).header.apiId =
      recordApiId raw := rfl
  have hbuffer := h.buffer hapi hknown hlosses hinterned
  have hsum : w.pendingUniqueStacks + addition.unique + (w.pendingReusedStacks + addition.reused) =
      w.ledger.pendingStacks + (addition.unique + addition.reused) := Nat.add_add_add_comm _ _ _ _
  unfold ledger
  dsimp only
  rw [hsum]
  exact hbuffer

/-- Every event that is processed is accounted for. -/
theorem accounted_event {u : Unit} (h : Accounted options raws w)
    (hrun : processEvent options raw w = .ok u w') : Accounted options (raws ++ [raw]) w' := by
  obtain ⟨hvalid, -, completeness, -, hsettled⟩ := processEvent_ok hrun
  have haccepted := Accepted.of_ok (by rw [h.last]; exact h.bound) hvalid
  have hknown := fun hcustom => (haccepted.custom hcustom).1
  have hlast := (processEvent_built hrun).1
  have hadmitted : Counts options.hooks raws (w.admitted raw completeness).ledger := h.counts
  have hsequence := haccepted.sequence
  have hbelow := haccepted.last
  refine ⟨?_, ?_, ?_⟩
  · cases hsettled with
    | past hlimit hdrop =>
        rw [hdrop]
        exact counts_notedEventDrop hadmitted hknown _
    | reached k hlimit hensure hreached hdrop =>
        have hk := counts_ensurePendingCapacity hadmitted hensure
        rw [hdrop]
        exact counts_notedEventDrop hk hknown _
    | buffered k hlimit hensure hbelow hbuffer =>
        have hk := counts_ensurePendingCapacity hadmitted hensure
        obtain ⟨m, happend, hm⟩ := bufferEvent_ok hbuffer
        obtain ⟨happended⟩ := appendEvent_ok happend
        have hm' := counts_appended hk hknown happended
        rcases hm with rfl | ⟨-, hflush⟩
        · exact hm'
        · exact counts_flushed hm' (flushPending_ok hflush)
  · rw [hlast, hsequence, List.length_append]
    show w.lastSequence + 1 = raws.length + 1
    rw [h.last]
  · rw [List.length_append]
    show raws.length + 1 ≤ maxU64
    rw [← h.last]
    exact hbelow

end RtlAllocateHeapTraceWriter

end Noleax.Windows
