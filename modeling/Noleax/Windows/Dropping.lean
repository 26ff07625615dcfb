import Noleax.Windows.Conservation

/-!
# The flush never fails on its counters

`flush_pending` either writes the chunks of what is pending or drops it. The counters
cannot overflow, since all events they count have been processed. What is left is the
check of `note_trace_drop_range`, which the pending custom events break.
-/

namespace Noleax.Windows

open Lib Trace Agent

namespace RtlAllocateHeapTraceWriter

variable {options : WriterOptions} {w w' : RtlAllocateHeapTraceWriter} {raw : RtlHeapEvent}
  {raws : List RtlHeapEvent}

/-! ## Counters -/

theorem addCount_run {additions : OperationCounts} {before after : String}
    {order : List RtlHeapEventOperation} {values : OperationCounts} (hnodup : order.Nodup)
    (hroom : ∀ operation ∈ order, values operation + additions operation ≤ maxU64) :
    ∃ sums, order.foldlM (addCount additions before after) values = .ok sums := by
  induction order generalizing values with
  | nil => exact ⟨values, rfl⟩
  | cons head order ih =>
      obtain ⟨hhead, hnodup⟩ := List.nodup_cons.mp hnodup
      have hsum : checkedAdd (values head) (additions head) (before ++ counterName head ++ after) =
          .ok (values head + additions head) := checkedAdd_of (hroom head List.mem_cons_self)
      have hrest : ∀ operation ∈ order, Function.update values head
          (values head + additions head) operation + additions operation ≤ maxU64 := by
        intro operation hmem
        have hne : operation ≠ head := fun heq => hhead (heq ▸ hmem)
        rw [Function.update_of_ne hne]
        exact hroom operation (List.mem_cons_of_mem _ hmem)
      obtain ⟨sums, hfold⟩ := ih hnodup hrest
      refine ⟨sums, ?_⟩
      rw [List.foldlM_cons]
      unfold addCount
      rw [hsum]
      exact hfold

theorem addCounts_run {values additions : OperationCounts}
    (hroom : ∀ operation, values operation + additions operation ≤ maxU64)
    (before after : String) :
    ∃ sums, addCounts values additions before after = .ok sums :=
  addCount_run all_nodup fun operation _ => hroom operation

/-- The bounds the counters of an accounted writer have. -/
structure Bounded (w : RtlAllocateHeapTraceWriter) : Prop where
  events : w.pendingEventCount + w.writtenEvents + w.traceDroppedEvents ≤ maxU64
  pending : ∀ operation, w.pending operation ≤ w.pendingEventCount
  pendingCustom : w.pendingCustomEvents ≤ w.pendingEventCount
  written : ∀ operation, w.written operation ≤ w.writtenEvents
  writtenCustom : w.writtenCustomEvents ≤ w.writtenEvents
  dropped : ∀ operation, w.traceDropped operation ≤ w.traceDroppedEvents
  pendingStacks : w.pendingUniqueStacks + w.pendingReusedStacks ≤ w.pendingEventCount
  writtenStacks : w.uniqueStacks + w.reusedStacks ≤ w.writtenEvents

theorem bounded_of (h : Counts options.hooks raws w.ledger) (hbound : raws.length ≤ maxU64) :
    Bounded w := by
  have htotal : raws.length = w.pendingEventCount + w.writtenEvents + w.traceDroppedEvents :=
    h.total
  have hpending : w.pendingEventCount = sumCounts w.pending + w.pendingCustomEvents :=
    h.pendingTotal
  have hwritten : w.writtenEvents = sumCounts w.written + w.writtenCustomEvents :=
    h.writtenTotal
  have hdropped : w.traceDroppedEvents =
      sumCounts w.traceDropped + sumCustom options.hooks w.traceCustomDroppedPerApi :=
    h.droppedTotal
  refine ⟨by omega, ?_, by omega, ?_, by omega, ?_, h.pendingStacks, h.writtenStacks⟩
  · intro operation
    have hle := le_sumCounts w.pending operation
    omega
  · intro operation
    have hle := le_sumCounts w.written operation
    omega
  · intro operation
    have hle := le_sumCounts w.traceDropped operation
    omega

/-! ## Trace drops -/

theorem noteTraceDropRange_run {count : ℕ} {counts : OperationCounts}
    (hcounts : count = sumCounts counts) (htotal : w.traceDroppedEvents + count ≤ maxU64)
    (hroom : ∀ operation, w.traceDropped operation + counts operation ≤ maxU64)
    (sequenceBegin sequenceEnd tickBegin tickEnd : ℕ) :
    ∃ m, noteTraceDropRange count counts sequenceBegin sequenceEnd tickBegin tickEnd w =
      .ok () m := by
  obtain ⟨sums, hsums⟩ := addCounts_run hroom "" " trace drop count overflow"
  have hcheck : failIf (remaining counts count dropOrder ≠ some (counts .sectionUnmap))
      (.logic "trace drop API accounting is inconsistent" : Error) = .ok () :=
    failIf_of_not (not_not.mpr (remaining_all.mpr hcounts))
  unfold noteTraceDropRange
  rw [hcheck, run_bind, run_check_ok]
  dsimp only
  rw [run_bind, run_get]
  dsimp only
  rw [run_bind, run_set]
  dsimp only
  rw [checkedAdd_of htotal, hsums]
  simp only [run_bind, run_check_ok, run_modify]
  exact ⟨_, rfl⟩

/-- `drop_pending_events` needs that no custom event is pending, and no more. -/
theorem dropPendingEvents_run (h : Bounded w)
    (htotal : w.pendingEventCount = sumCounts w.pending) :
    ∃ m, dropPendingEvents w = .ok () m := by
  have hevents := h.events
  unfold dropPendingEvents onlyIf
  rw [run_bind, run_get]
  dsimp only
  by_cases hpending : w.pendingEventCount ≠ 0
  · have hroom : ∀ operation, w.traceDropped operation + w.pending operation ≤ maxU64 := by
      intro operation
      have hdropped := h.dropped operation
      have hcount := h.pending operation
      omega
    obtain ⟨m, hdrop⟩ := noteTraceDropRange_run htotal (by omega) hroom w.pendingSequenceBegin
      w.pendingSequenceEnd w.pendingTickBegin w.pendingTickEnd
    rw [if_pos hpending, run_bind, hdrop]
    exact ⟨_, rfl⟩
  · rw [if_neg hpending]
    exact ⟨_, rfl⟩

/-- The events of an accounted writer can be dropped exactly when none is custom. -/
theorem dropPendingEvents_iff (h : Counts options.hooks raws w.ledger)
    (hbound : raws.length ≤ maxU64) :
    (∃ m, dropPendingEvents w = .ok () m) ↔ w.pendingCustomEvents = 0 := by
  have hpending : w.pendingEventCount = sumCounts w.pending + w.pendingCustomEvents :=
    h.pendingTotal
  constructor
  · intro ⟨m, hrun⟩
    by_cases hzero : w.pendingEventCount = 0
    · omega
    · have hcounts := remaining_all.mp (dropPendingEvents_ok hzero hrun).1
      omega
  · intro hnone
    exact dropPendingEvents_run (bounded_of h hbound) (by omega)

theorem noteEventTraceDrop_run (h : Bounded w) (hroom : w.traceDroppedEvents < maxU64)
    (hcustom : raw.Custom → w.traceCustomDroppedPerApi raw.apiId ≤ w.traceDroppedEvents)
    (ticks : ℕ) :
    ∃ m, noteEventTraceDrop raw ticks w = .ok () m := by
  unfold noteEventTraceDrop
  by_cases hkind : raw.Custom
  · have hcount := hcustom hkind
    rw [if_pos hkind]
    unfold noteCustomTraceDrop
    rw [run_bind, run_get]
    dsimp only
    rw [run_bind, run_set]
    dsimp only
    rw [checkedAdd_of (show w.traceDroppedEvents + 1 ≤ maxU64 by omega),
      checkedAdd_of (show w.traceCustomDroppedPerApi raw.apiId + 1 ≤ maxU64 by omega)]
    simp only [run_bind, run_check_ok, run_modify]
    exact ⟨_, rfl⟩
  · rw [if_neg hkind]
    refine noteTraceDropRange_run (sumCounts_oneOf _).symm (by omega) ?_ _ _ _ _
    intro operation
    have hdropped := h.dropped operation
    unfold oneOf
    split <;> omega

/-! ## Flushing -/

def moduleChunks (w : RtlAllocateHeapTraceWriter) : List Chunk :=
  if w.modulePayload = [] then [] else [{ payload := .modules w.modulePayload }]

def stackChunks (w : RtlAllocateHeapTraceWriter) : List Chunk :=
  if w.stackPayload = [] then [] else [{ payload := .stacks w.stackPayload }]

def eventChunk (w : RtlAllocateHeapTraceWriter) : Chunk where
  payload := .events w.eventPayload
  sequenceBegin := w.pendingSequenceBegin
  sequenceEnd := w.pendingSequenceEnd

/-- The chunks `flush_pending` tries to write, in their order. -/
def pendingChunks (w : RtlAllocateHeapTraceWriter) : List Chunk :=
  w.moduleChunks ++
    if w.pendingEventCount = 0 then [] else w.stackChunks ++ [w.eventChunk]

/-- Write chunks until one meets the file limit; whether one did. -/
def writeChunks (options : WriterOptions) (file : TraceWriter) :
    List Chunk → Except Error (TraceWriter × Bool)
  | [] => .ok (file, false)
  | chunk :: rest => do
      match ← file.writeChunk options.trace options.encoding chunk true with
      | none => return (file, true)
      | some file => writeChunks options file rest

/-- A flush of this state drops what is pending. -/
def MeetsLimit (options : WriterOptions) (w : RtlAllocateHeapTraceWriter) : Prop :=
  w.fileLimitReached = true ∨ ∃ file, writeChunks options w.file w.pendingChunks = .ok (file, true)

/-- `write_chunk` takes or refuses the pending chunks, and at the limit no custom event is
pending. -/
structure FlushSafe (options : WriterOptions) (w : RtlAllocateHeapTraceWriter) : Prop where
  writes : w.fileLimitReached = true ∨ ∃ result, writeChunks options w.file w.pendingChunks = .ok result
  builtin : MeetsLimit options w → w.pendingCustomEvents = 0

instance (options : WriterOptions) (w : RtlAllocateHeapTraceWriter) :
    Decidable (MeetsLimit options w) :=
  decidable_of_iff (w.fileLimitReached = true ∨
      ∃ result, writeChunks options w.file w.pendingChunks = .ok result ∧ result.2 = true) (by
    unfold MeetsLimit
    apply or_congr_right
    constructor
    · intro ⟨⟨file, reached⟩, hwrites, hreached⟩
      cases hreached
      exact ⟨file, hwrites⟩
    · intro ⟨file, hwrites⟩
      exact ⟨(file, true), hwrites, rfl⟩)

instance (options : WriterOptions) (w : RtlAllocateHeapTraceWriter) :
    Decidable (FlushSafe options w) :=
  decidable_of_iff ((w.fileLimitReached = true ∨
      ∃ result, writeChunks options w.file w.pendingChunks = .ok result ∧ True) ∧
      (MeetsLimit options w → w.pendingCustomEvents = 0)) (by
    simp only [and_true]
    exact ⟨fun h => ⟨h.1, h.2⟩, fun h => ⟨h.writes, h.builtin⟩⟩)

theorem notePendingWritten_run (h : Bounded w) : ∃ m, notePendingWritten w = .ok () m := by
  have hevents := h.events
  have hcustom := h.pendingCustom
  have hwrittenCustom := h.writtenCustom
  have hpending := h.pendingStacks
  have hwritten := h.writtenStacks
  have hroom : ∀ operation, w.written operation + w.pending operation ≤ maxU64 := by
    intro operation
    have hcount := h.pending operation
    have hdone := h.written operation
    omega
  obtain ⟨sums, hsums⟩ := addCounts_run hroom "written " " event count overflow"
  unfold notePendingWritten
  rw [run_bind, run_get]
  dsimp only
  rw [checkedAdd_of (show w.writtenEvents + w.pendingEventCount ≤ maxU64 by omega),
    checkedAdd_of (show w.writtenCustomEvents + w.pendingCustomEvents ≤ maxU64 by omega), hsums,
    checkedAdd_of (show w.uniqueStacks + w.pendingUniqueStacks ≤ maxU64 by omega),
    checkedAdd_of (show w.reusedStacks + w.pendingReusedStacks ≤ maxU64 by omega)]
  simp only [run_bind, run_check_ok, run_set]
  exact ⟨_, rfl⟩

theorem writeDataChunk_run {chunk : Chunk} {rest : List Chunk} {result : TraceWriter × Bool}
    (hwrites : writeChunks options w.file (chunk :: rest) = .ok result) :
    (∃ m, writeDataChunk options chunk w = .ok false m ∧ result.2 = true) ∨
      ∃ m, writeDataChunk options chunk w = .ok true m ∧ m.fileLimitReached = w.fileLimitReached ∧
        writeChunks options m.file rest = .ok result := by
  unfold writeChunks at hwrites
  obtain ⟨written, hchunk, hwrites⟩ := bind_eq_ok.mp hwrites
  unfold writeDataChunk
  rw [run_bind, run_get]
  dsimp only
  rw [hchunk]
  cases written with
  | none =>
      cases hwrites
      exact .inl ⟨_, rfl, rfl⟩
  | some file => exact .inr ⟨_, rfl, rfl, hwrites⟩

/-- A flush of modules that goes through its chunk. -/
theorem flushModulePayload_run {rest : List Chunk} {result : TraceWriter × Bool}
    (hlimit : w.fileLimitReached = false)
    (hwrites : writeChunks options w.file (w.moduleChunks ++ rest) = .ok result) :
    ∃ m, flushModulePayload options w = .ok () m ∧
      ((m.fileLimitReached = true ∧ result.2 = true) ∨
        (m.fileLimitReached = false ∧ writeChunks options m.file rest = .ok result)) := by
  unfold flushModulePayload
  rw [run_bind, run_get]
  dsimp only
  unfold moduleChunks at hwrites
  by_cases hempty : w.modulePayload = []
  · rw [if_pos hempty] at hwrites ⊢
    exact ⟨w, rfl, .inr ⟨hlimit, hwrites⟩⟩
  · rw [if_neg hempty] at hwrites ⊢
    rw [if_pos hlimit]
    rcases writeDataChunk_run hwrites with ⟨m, hrun, hresult⟩ | ⟨m, hrun, hkept, hrest⟩
    · have hreached := (Filed.beside_limit (writeDataChunk_ok hrun)).2
      refine ⟨{ m with modulePayload := [] }, ?_, .inl ⟨hreached, hresult⟩⟩
      rw [run_bind, hrun]
      rfl
    · refine ⟨{ m with modulePayload := [] }, ?_, .inr ⟨hkept.trans hlimit, hrest⟩⟩
      rw [run_bind, hrun]
      rfl

theorem flushStackPayload_run {rest : List Chunk} {result : TraceWriter × Bool}
    (hwrites : writeChunks options w.file (w.stackChunks ++ rest) = .ok result) :
    (∃ m, flushStackPayload options w = .ok false m ∧ result.2 = true) ∨
      ∃ m, flushStackPayload options w = .ok true m ∧ m.fileLimitReached = w.fileLimitReached ∧
        writeChunks options m.file rest = .ok result := by
  unfold flushStackPayload
  rw [run_bind, run_get]
  dsimp only
  unfold stackChunks at hwrites
  by_cases hempty : w.stackPayload = []
  · rw [if_pos hempty] at hwrites ⊢
    exact .inr ⟨w, rfl, rfl, hwrites⟩
  · rw [if_neg hempty] at hwrites ⊢
    rcases writeDataChunk_run hwrites with ⟨m, hrun, hresult⟩ | ⟨m, hrun, hkept, hrest⟩
    · exact .inl ⟨m, hrun, hresult⟩
    · exact .inr ⟨m, hrun, hkept, hrest⟩

theorem Bounded.filed {chunk : Chunk} {written : Bool} (h : Bounded w)
    (hfiled : Filed options w chunk written w') : Bounded w' := by
  cases hfiled with
  | written hadmits =>
      exact ⟨h.events, h.pending, h.pendingCustom, h.written, h.writtenCustom, h.dropped,
        h.pendingStacks, h.writtenStacks⟩
  | limit hroom =>
      exact ⟨h.events, h.pending, h.pendingCustom, h.written, h.writtenCustom, h.dropped,
        h.pendingStacks, h.writtenStacks⟩

/-- A flush past the limit clears the modules. -/
theorem flushModulePayload_past (hlimit : w.fileLimitReached = true) :
    ∃ m, flushModulePayload options w = .ok () m ∧ m.fileLimitReached = true := by
  unfold flushModulePayload
  rw [run_bind, run_get]
  dsimp only
  by_cases hempty : w.modulePayload = []
  · rw [if_pos hempty]
    exact ⟨w, rfl, hlimit⟩
  · rw [if_neg hempty, if_neg (by rw [hlimit]; decide)]
    exact ⟨_, rfl, hlimit⟩

theorem dropPendingEvents_limit (h : dropPendingEvents w = .ok () w') :
    w'.fileLimitReached = w.fileLimitReached := by
  by_cases hpending : w.pendingEventCount = 0
  · unfold dropPendingEvents onlyIf at h
    rw [run_bind, run_get] at h
    dsimp only at h
    rw [if_neg (not_not.mpr hpending)] at h
    cases h
    rfl
  · rw [(dropPendingEvents_ok hpending h).2]
    rfl

/-- Dropping what is pending returns in a state at the limit. -/
def DropsAt (m : RtlAllocateHeapTraceWriter) : Prop :=
  ∃ k, dropPendingEvents m = .ok () k ∧ k.fileLimitReached = true

/-- A flush of events, from the stacks on. -/
theorem flushEvents_run {a : RtlAllocateHeapTraceWriter} {result : TraceWriter × Bool}
    (h : Counts options.hooks raws a.ledger) (hbound : raws.length ≤ maxU64)
    (hbelow : a.fileLimitReached = false)
    (hdrop : ∀ m, Beside a m → m.fileLimitReached = true → result.2 = true → DropsAt m)
    (hwrites : writeChunks options a.file (a.stackChunks ++ [a.eventChunk]) = .ok result) :
    ∃ m, (do
      if ← flushStackPayload options then
        if ← flushEventPayload options then notePendingWritten
        else dropPendingEvents
      else dropPendingEvents) a = .ok () m ∧ (result.2 = true ↔ m.fileLimitReached = true) := by
  rw [run_bind]
  rcases flushStackPayload_run hwrites with ⟨b, hstacks, hresult⟩ | ⟨b, hstacks, hblimit, hrest⟩
  · obtain ⟨hb, hlimit⟩ := flushStackPayload_ok hstacks
    obtain ⟨k, hk, hklimit⟩ := hdrop b hb (hlimit rfl) hresult
    rw [hstacks]
    exact ⟨k, hk, iff_of_true hresult hklimit⟩
  have hb := (flushStackPayload_ok hstacks).1
  have hchunk : b.eventChunk = a.eventChunk := by
    obtain ⟨file, limit, modules, -, -, rfl⟩ := hb
    rfl
  rw [hstacks]
  show ∃ m, (flushEventPayload options >>= fun written =>
    if written = true then notePendingWritten else dropPendingEvents) b = .ok () m ∧ _
  have hevents : flushEventPayload options b = writeDataChunk options b.eventChunk b := rfl
  rw [run_bind, hevents]
  rw [← hchunk] at hrest
  rcases writeDataChunk_run hrest with ⟨c, hrun, hresult⟩ | ⟨c, hrun, hclimit, hdone⟩
  · obtain ⟨hc, hlimit⟩ := Filed.beside_limit (writeDataChunk_ok hrun)
    obtain ⟨k, hk, hklimit⟩ := hdrop c (hb.trans hc) hlimit hresult
    rw [hrun]
    exact ⟨k, hk, iff_of_true hresult hklimit⟩
  · have hbounded := bounded_of (counts_beside h hb) hbound
    obtain ⟨k, hk⟩ := notePendingWritten_run (hbounded.filed (writeDataChunk_ok hrun))
    have hklimit : k.fileLimitReached = false := by
      rw [notePendingWritten_ok hk]
      exact hclimit.trans (hblimit.trans hbelow)
    rw [hrun]
    refine ⟨k, hk, ?_⟩
    cases hdone
    rw [hklimit]

/-- A flush that is safe returns, and at the limit the writer knows it. -/
theorem flushPending_run (h : Counts options.hooks raws w.ledger) (hbound : raws.length ≤ maxU64)
    (hsafe : FlushSafe options w) :
    ∃ m, flushPending options w = .ok () m ∧
      (MeetsLimit options w ↔ m.fileLimitReached = true) := by
  -- dropping what is pending returns in every state beside the first
  have hdrop : ∀ m, Beside w m → m.fileLimitReached = true → MeetsLimit options w → DropsAt m := by
    intro m hbeside hlimit hmeets
    have hnone : m.pendingCustomEvents = 0 := by
      obtain ⟨file, limit, modules, -, -, rfl⟩ := hbeside
      exact hsafe.builtin hmeets
    obtain ⟨k, hk⟩ := (dropPendingEvents_iff (counts_beside h hbeside) hbound).mpr hnone
    exact ⟨k, hk, (dropPendingEvents_limit hk).trans hlimit⟩
  unfold flushPending
  rw [run_bind, run_get]
  dsimp only
  by_cases hlimit : w.fileLimitReached = true
  · obtain ⟨a, hmodules, halimit⟩ := @flushModulePayload_past options _ hlimit
    by_cases hpending : w.pendingEventCount = 0
    · rw [if_pos hpending]
      exact ⟨a, hmodules, iff_of_true (.inl hlimit) halimit⟩
    · obtain ⟨k, hk, hklimit⟩ := hdrop a (flushModulePayload_ok hmodules).beside halimit
        (.inl hlimit)
      rw [if_neg hpending, run_bind, hmodules]
      dsimp only
      rw [run_bind, run_get]
      dsimp only
      rw [if_pos halimit]
      exact ⟨k, hk, iff_of_true (.inl hlimit) hklimit⟩
  · obtain ⟨result, hwrites⟩ := hsafe.writes.resolve_left hlimit
    have hmeets : MeetsLimit options w ↔ result.2 = true := by
      constructor
      · intro hmeets
        obtain ⟨file, hfile⟩ := hmeets.resolve_left hlimit
        rw [hwrites] at hfile
        cases hfile
        rfl
      · intro hresult
        exact .inr ⟨result.1, by rw [hwrites, ← hresult]⟩
    have hbelow : w.fileLimitReached = false := by simpa using hlimit
    obtain ⟨a, hmodules, hrest⟩ := flushModulePayload_run hbelow hwrites
    have ha := (flushModulePayload_ok hmodules).beside
    rw [hmeets]
    by_cases hpending : w.pendingEventCount = 0
    · rw [if_pos hpending]
      refine ⟨a, hmodules, ?_⟩
      rcases hrest with ⟨halimit, hresult⟩ | ⟨habelow, hrest⟩
      · exact iff_of_true hresult halimit
      · rw [if_pos hpending] at hrest
        cases hrest
        rw [habelow]
    · rw [if_neg hpending, run_bind, hmodules]
      dsimp only
      rw [run_bind, run_get]
      dsimp only
      rcases hrest with ⟨halimit, hresult⟩ | ⟨habelow, hrest⟩
      · obtain ⟨k, hk, hklimit⟩ := hdrop a ha halimit (hmeets.mpr hresult)
        rw [if_pos halimit]
        exact ⟨k, hk, iff_of_true hresult hklimit⟩
      · have hchunks : w.stackChunks ++ [w.eventChunk] = a.stackChunks ++ [a.eventChunk] := by
          obtain ⟨file, limit, modules, -, -, rfl⟩ := ha
          rfl
        rw [if_neg hpending, hchunks] at hrest
        rw [if_neg (by rw [habelow]; decide)]
        exact flushEvents_run (counts_beside h ha) hbound habelow
          (fun m hm hmlimit hresult => hdrop m (ha.trans hm) hmlimit (hmeets.mpr hresult)) hrest

end RtlAllocateHeapTraceWriter

end Noleax.Windows
