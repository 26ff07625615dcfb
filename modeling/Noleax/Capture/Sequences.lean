import Noleax.Capture.Conservation

/-!
# Wire sequences and the range of the dropped events

The wire sequences of a capture count its records, and the drop range lies among
them. Its end may lie before its begin: a memory sample can meet the file limit while
events are pending, the next event is then dropped first, and the pending ones after.
-/

namespace Noleax.Capture

open Lib Trace Agent Agent.LinuxTraceWriter

variable {options : WriterOptions} {w w' : LinuxTraceWriter}

/-- The records the writer has counted. -/
def consumed (options : WriterOptions) (w : LinuxTraceWriter) : ℕ :=
  w.totalOf options fun counters => counters.successful + counters.failed

/-- What holds of the sequences while the records fit 64 bits. -/
structure Sequenced (options : WriterOptions) (w : LinuxTraceWriter) : Prop where
  next : w.nextWireSequence = (consumed options w + 1) % 2 ^ 64
  last : w.lastWireSequence = consumed options w
  pending : w.pendingEventCount ≠ 0 →
    1 ≤ w.pendingSequenceBegin ∧ w.pendingSequenceBegin ≤ w.pendingSequenceEnd ∧
      w.pendingSequenceEnd ≤ w.lastWireSequence ∧ w.pendingTickBegin ≤ w.pendingTickEnd ∧
      w.pendingTickEnd ≤ w.lastTicks
  below : w.fileLimitReached = false → w.traceDroppedEvents = 0
  dropped : w.traceDroppedEvents ≠ 0 →
    (1 ≤ w.traceDropSequenceBegin ∧ w.traceDropSequenceBegin ≤ w.lastWireSequence) ∧
      (1 ≤ w.traceDropSequenceEnd ∧ w.traceDropSequenceEnd ≤ w.lastWireSequence) ∧
      w.traceDropTickBegin ≤ w.lastTicks ∧
      (w.traceDropSequenceBegin ≤ w.traceDropSequenceEnd →
        w.traceDropTickBegin ≤ w.traceDropTickEnd)
  crossed : w.traceDroppedEvents ≠ 0 → w.pendingEventCount ≠ 0 →
    w.pendingSequenceEnd < w.traceDropSequenceBegin

/-! ## Flushing -/

theorem Sequenced.filed (h : Sequenced options w) (hfiled : Filed options w w') :
    Sequenced options w' := by
  obtain ⟨operations, file, limit, -, hlimit, rfl⟩ := hfiled
  refine ⟨h.next, h.last, h.pending, fun hbelow => h.below ?_, h.dropped, h.crossed⟩
  change limit = false at hbelow
  cases hw : w.fileLimitReached with
  | false => rfl
  | true =>
      rw [hlimit hw] at hbelow
      cases hbelow

theorem Sequenced.modules (h : Sequenced options w) (modules : List ModuleRecord) :
    Sequenced options { w with modulePayload := modules } :=
  ⟨h.next, h.last, h.pending, h.below, h.dropped, h.crossed⟩

theorem Sequenced.written (h : Sequenced options w) :
    Sequenced options w.notedWritten.clearPending where
  next := h.next
  last := h.last
  pending := fun hpending => absurd rfl hpending
  below := h.below
  dropped := h.dropped
  crossed := fun _ hpending => absurd rfl hpending

theorem Sequenced.drop (h : Sequenced options w) (hlimit : w.fileLimitReached = true)
    (hpending : w.pendingEventCount ≠ 0) : Sequenced options w.notedDropped.clearPending where
  next := h.next
  last := h.last
  pending := fun hpending => absurd rfl hpending
  below := by
    intro hbelow
    change w.fileLimitReached = false at hbelow
    rw [hlimit] at hbelow
    cases hbelow
  dropped := by
    intro _
    obtain ⟨hbegin, hrange, hend, htick, hlast⟩ := h.pending hpending
    change (1 ≤ (if w.traceDroppedEvents = 0 then w.pendingSequenceBegin
          else w.traceDropSequenceBegin) ∧
        (if w.traceDroppedEvents = 0 then w.pendingSequenceBegin
          else w.traceDropSequenceBegin) ≤ w.lastWireSequence) ∧
      (1 ≤ w.pendingSequenceEnd ∧ w.pendingSequenceEnd ≤ w.lastWireSequence) ∧
      (if w.traceDroppedEvents = 0 then w.pendingTickBegin else w.traceDropTickBegin)
        ≤ w.lastTicks ∧
      ((if w.traceDroppedEvents = 0 then w.pendingSequenceBegin
          else w.traceDropSequenceBegin) ≤ w.pendingSequenceEnd →
        (if w.traceDroppedEvents = 0 then w.pendingTickBegin else w.traceDropTickBegin)
          ≤ w.pendingTickEnd)
    by_cases hfirst : w.traceDroppedEvents = 0
    · simp only [if_pos hfirst]
      omega
    · -- earlier drops came after these events: the range is reversed from here on
      simp only [if_neg hfirst]
      have hdropped := h.dropped hfirst
      have hcrossed := h.crossed hfirst hpending
      omega
  crossed := fun _ hpending => absurd rfl hpending

theorem Sequenced.dropPending (h : Sequenced options w) (hlimit : w.fileLimitReached = true)
    (hpending : w.pendingEventCount ≠ 0) {u : Unit}
    (hrun : dropPendingEvents options w = .ok u w') : Sequenced options w' := by
  rcases dropPendingEvents_ok hrun with ⟨hnone, -⟩ | ⟨-, rfl⟩
  · exact absurd hnone hpending
  · exact h.drop hlimit hpending

theorem Sequenced.flush (h : Sequenced options w) {u : Unit}
    (hrun : flushPending options w = .ok u w') : Sequenced options w' := by
  rcases flushPending_ok hrun with ⟨-, hmodules⟩ | ⟨hpending, m, hmodules, hevents⟩
  · obtain ⟨k, hfiled, rfl⟩ := flushModulePayload_filed hmodules
    exact (h.filed hfiled).modules []
  obtain ⟨k, hfiled, rfl⟩ := flushModulePayload_filed hmodules
  have hk := (h.filed hfiled).modules []
  have hcount : k.pendingEventCount = w.pendingEventCount := by
    obtain ⟨_, _, _, -, -, rfl⟩ := hfiled
    rfl
  rcases hevents.cases_limit with ⟨n, hn, hlimit, hdrop⟩ | ⟨n, hn, hnote⟩
  · refine (hk.filed hn).dropPending hlimit ?_ hdrop
    obtain ⟨_, _, _, -, -, rfl⟩ := hn
    change k.pendingEventCount ≠ 0
    rwa [hcount]
  · obtain rfl := notePendingWritten_ok hnote
    exact (hk.filed hn).written

/-- A flush moves no sequence and no time. -/
theorem flushPending_times {u : Unit} (hrun : flushPending options w = .ok u w') :
    w'.lastWireSequence = w.lastWireSequence ∧ w'.lastTicks = w.lastTicks := by
  rcases flushPending_ok hrun with ⟨-, hmodules⟩ | ⟨hpending, m, hmodules, hevents⟩
  · obtain ⟨k, ⟨_, _, _, -, -, rfl⟩, rfl⟩ := flushModulePayload_filed hmodules
    exact ⟨rfl, rfl⟩
  obtain ⟨k, ⟨_, _, _, -, -, rfl⟩, rfl⟩ := flushModulePayload_filed hmodules
  rcases hevents.cases_limit with ⟨n, ⟨_, _, _, -, -, rfl⟩, -, hdrop⟩ | ⟨n, ⟨_, _, _, -, -, rfl⟩, hnote⟩
  · rcases dropPendingEvents_ok hdrop with ⟨-, rfl⟩ | ⟨-, rfl⟩
    · exact ⟨rfl, rfl⟩
    · exact ⟨rfl, rfl⟩
  · obtain rfl := notePendingWritten_ok hnote
    exact ⟨rfl, rfl⟩

theorem Sequenced.ensure (h : Sequenced options w) {n : ℕ} {u : Unit}
    (hrun : ensurePendingCapacity options n w = .ok u w') : Sequenced options w' := by
  rcases ensurePendingCapacity_ok hrun with rfl | ⟨-, hflush⟩
  · exact h
  · exact h.flush hflush

/-! ## Events -/

theorem consumed_eq_ledger : consumed options w =
    (ledger w).total options.apiIds fun counters => counters.successful + counters.failed := rfl

theorem consumed_flush {u : Unit} (hrun : flushPending options w = .ok u w') :
    consumed options w' = consumed options w := by
  rw [consumed_eq_ledger, consumed_eq_ledger]
  rcases flushPending_ledger hrun with ⟨-, heq⟩ | ⟨toFile, heq⟩
  · rw [heq]
  · rw [heq]
    rfl

theorem consumed_ensure {n : ℕ} {u : Unit}
    (hrun : ensurePendingCapacity options n w = .ok u w') :
    consumed options w' = consumed options w := by
  rcases ensurePendingCapacity_ok hrun with rfl | ⟨-, hflush⟩
  · rfl
  · exact consumed_flush hflush

/-- An event adds its records to the count. -/
theorem consumed_entered {raw : LinuxHeapEvent} {m : LinuxTraceWriter}
    (entry : Entered options raw w m) :
    consumed options m = consumed options w + eventRecordCount raw entry.plan := by
  have hledger : ledger m = (ledger w).post raw.apiId
      (countedOperations (w.counters raw.apiId) raw (eventRecordCount raw entry.plan)) := by
    exact congrArg ledger entry.state_eq
  rw [consumed_eq_ledger, hledger]
  refine Ledger.total_post (apiIds_nodup options) entry.known ?_
  unfold countedOperations
  dsimp only
  by_cases hsucceeded : raw.Succeeded
  · rw [if_pos hsucceeded, if_pos hsucceeded]
    change _ = (w.counters raw.apiId).successful + (w.counters raw.apiId).failed + _
    omega
  · rw [if_neg hsucceeded, if_neg hsucceeded, eventRecordCount_failed entry hsucceeded]
    rfl

/-- The first wire sequence of an event follows the last one. -/
theorem Sequenced.wireBegin (h : Sequenced options w) {n : ℕ} (hn : 1 ≤ n)
    (hspace : consumed options w + n ≤ maxU64) : w.nextWireSequence = consumed options w + 1 := by
  rw [h.next]
  unfold maxU64 at hspace
  omega

theorem Sequenced.entered (h : Sequenced options w) {raw : LinuxHeapEvent} {m : LinuxTraceWriter}
    (entry : Entered options raw w m) (hspace : consumed options m ≤ maxU64) :
    Sequenced options m := by
  have hcount := consumed_entered entry
  have hpos := eventRecordCount_pos entry
  have hbegin := h.wireBegin hpos (hcount ▸ hspace)
  have hticks := entry.lastTicks
  have hnext := entry.nextWireSequence
  have hlast := entry.lastWireSequence
  rw [hbegin] at hnext hlast
  have hlast : m.lastWireSequence = consumed options m := by
    rw [hlast, hcount]
    rw [hcount] at hspace
    unfold maxU64 at hspace
    omega
  have hgrow : w.lastWireSequence ≤ m.lastWireSequence := by
    rw [hlast, h.last]
    omega
  -- the entry leaves everything else alone
  obtain ⟨hpending, hbelow, hdropped, hcrossed⟩ :
      (m.pendingEventCount ≠ 0 → 1 ≤ m.pendingSequenceBegin ∧
        m.pendingSequenceBegin ≤ m.pendingSequenceEnd ∧
        m.pendingSequenceEnd ≤ w.lastWireSequence ∧ m.pendingTickBegin ≤ m.pendingTickEnd ∧
        m.pendingTickEnd ≤ w.lastTicks) ∧
      (m.fileLimitReached = false → m.traceDroppedEvents = 0) ∧
      (m.traceDroppedEvents ≠ 0 →
        (1 ≤ m.traceDropSequenceBegin ∧ m.traceDropSequenceBegin ≤ w.lastWireSequence) ∧
        (1 ≤ m.traceDropSequenceEnd ∧ m.traceDropSequenceEnd ≤ w.lastWireSequence) ∧
        m.traceDropTickBegin ≤ w.lastTicks ∧
        (m.traceDropSequenceBegin ≤ m.traceDropSequenceEnd →
          m.traceDropTickBegin ≤ m.traceDropTickEnd)) ∧
      (m.traceDroppedEvents ≠ 0 → m.pendingEventCount ≠ 0 →
        m.pendingSequenceEnd < m.traceDropSequenceBegin) := by
    obtain ⟨plan, vm, loss, completeness, -, -, -, -, -, -, rfl⟩ := entry
    exact ⟨h.pending, h.below, h.dropped, h.crossed⟩
  refine ⟨?_, hlast, fun hm => ?_, hbelow, fun hm => ?_, hcrossed⟩
  · rw [hnext, hcount]
    congr 1
    omega
  · have := hpending hm
    omega
  · have := hdropped hm
    omega

/-- Counters that change no call count change no record count. -/
theorem consumed_update {api : ℕ} (hapi : api ∈ options.apiIds) (counters : ApiCounters)
    (hcounters : w'.counters = Function.update w.counters api counters)
    (hcalls : counters.successful + counters.failed =
      (w.counters api).successful + (w.counters api).failed) :
    consumed options w' = consumed options w := by
  have hsum := Ledger.sum_map_update (apiIds_nodup options) hapi (n := 0)
    (f := fun id => (w.counters id).successful + (w.counters id).failed)
    (g := fun id => (w'.counters id).successful + (w'.counters id).failed)
    (by rw [hcounters, Function.update_self]; exact hcalls)
    (fun id hid => by rw [hcounters, Function.update_of_ne hid])
  rw [Nat.add_zero] at hsum
  exact hsum

theorem consumed_noteDrop {apiId ticks wireBegin n : ℕ} (hapi : apiId ∈ options.apiIds) :
    consumed options (w.notedEventDrop apiId ticks wireBegin n) = consumed options w := by
  have hcounters : (w.notedEventDrop apiId ticks wireBegin n).counters =
      Function.update w.counters apiId { w.counters apiId with
        traceDropped := (w.counters apiId).traceDropped + n } := by
    unfold notedEventDrop
    rfl
  exact consumed_update hapi _ hcounters rfl

theorem consumed_append {raw : LinuxHeapEvent} {plan : List VmPlanRecord}
    {loss : Option LossRecord} {ticks wireBegin n : ℕ} (hapi : raw.apiId ∈ options.apiIds)
    (happend : Appended options raw plan loss ticks wireBegin n w w') :
    consumed options w' = consumed options w := by
  obtain ⟨addition, heap, records, -, -, -, rfl⟩ := happend
  exact consumed_update hapi { w.counters raw.apiId with
    pending := (w.counters raw.apiId).pending + n } rfl rfl

/-- An event past the limit extends the range to the last wire sequence. -/
theorem Sequenced.noteDrop (h : Sequenced options w) (hlimit : w.fileLimitReached = true)
    {apiId ticks wireBegin n : ℕ} (hn : 1 ≤ n) (hbegin : 1 ≤ wireBegin)
    (hend : wireBegin + n = w.lastWireSequence + 1) (hlast : w.lastWireSequence ≤ maxU64)
    (hticks : ticks = w.lastTicks) (hapi : apiId ∈ options.apiIds)
    (hbefore : w.pendingEventCount ≠ 0 → w.pendingSequenceEnd < wireBegin) :
    Sequenced options (w.notedEventDrop apiId ticks wireBegin n) := by
  have hconsumed : consumed options (w.notedEventDrop apiId ticks wireBegin n)
      = consumed options w := consumed_noteDrop hapi
  have hword : (wireBegin + n + (2 ^ 64 - 1)) % 2 ^ 64 = w.lastWireSequence := by
    unfold maxU64 at hlast
    omega
  refine ⟨?_, ?_, h.pending, fun hbelow => ?_, fun _ => ?_, fun _ hpending => ?_⟩
  · rw [hconsumed]
    exact h.next
  · rw [hconsumed]
    exact h.last
  · change w.fileLimitReached = false at hbelow
    rw [hlimit] at hbelow
    cases hbelow
  · unfold notedEventDrop
    dsimp only
    rw [hword, hticks]
    by_cases hfirst : w.traceDroppedEvents = 0
    · simp only [if_pos hfirst]
      omega
    · simp only [if_neg hfirst]
      have := h.dropped hfirst
      omega
  · change w.pendingSequenceEnd <
      if w.traceDroppedEvents = 0 then wireBegin else w.traceDropSequenceBegin
    by_cases hfirst : w.traceDroppedEvents = 0
    · rw [if_pos hfirst]
      exact hbefore hpending
    · rw [if_neg hfirst]
      exact h.crossed hfirst hpending

/-- An event that fits is buffered with the last wire sequences. -/
theorem Sequenced.append (h : Sequenced options w) (hbelow : w.fileLimitReached = false)
    {raw : LinuxHeapEvent} {plan : List VmPlanRecord} {loss : Option LossRecord}
    {ticks wireBegin n : ℕ} (hn : 1 ≤ n) (hbegin : 1 ≤ wireBegin)
    (hend : wireBegin + n = w.lastWireSequence + 1) (hticks : ticks = w.lastTicks)
    (hapi : raw.apiId ∈ options.apiIds)
    (happend : Appended options raw plan loss ticks wireBegin n w w') :
    Sequenced options w' := by
  have hconsumed := consumed_append hapi happend
  obtain ⟨addition, heap, records, -, -, -, rfl⟩ := happend
  have hnone := h.below hbelow
  refine ⟨?_, ?_, fun _ => ?_, h.below, fun hdropped => absurd hnone hdropped,
    fun hdropped => absurd hnone hdropped⟩
  · rw [hconsumed]
    exact h.next
  · rw [hconsumed]
    exact h.last
  · dsimp only
    rw [hticks]
    by_cases hfirst : w.pendingEventCount = 0
    · simp only [if_pos hfirst]
      omega
    · simp only [if_neg hfirst]
      have := h.pending hfirst
      omega

/-- However an event ends, its records have been counted when it entered. -/
theorem consumed_processEvent {raw : LinuxHeapEvent} {m : LinuxTraceWriter}
    {entry : Entered options raw w m} (hsettled : Settled options raw w m w' entry) :
    consumed options w' = consumed options m := by
  cases hsettled with
  | past hlimit hdrop =>
      rw [hdrop]
      exact consumed_noteDrop entry.known
  | reached k hlimit hensure hreached hdrop =>
      rw [hdrop, consumed_noteDrop entry.known]
      exact consumed_ensure hensure
  | buffered k hlimit hensure hbelow hbuffer =>
      obtain ⟨n, happend, hend⟩ := bufferEvent_ok hbuffer
      obtain ⟨happend⟩ := appendEvent_ok happend
      have hn := consumed_append entry.known happend
      rw [← consumed_ensure hensure, ← hn]
      rcases hend with rfl | hflush
      · rfl
      · exact consumed_flush hflush

/-- One raw event, however it ends. -/
theorem processEvent_sequenced (h : Sequenced options w) {raw : LinuxHeapEvent} {u : Unit}
    (hrun : processEvent options raw w = .ok u w') (hspace : consumed options w' ≤ maxU64) :
    Sequenced options w' := by
  obtain ⟨m, entry, hsettled⟩ := processEvent_ok hrun
  have hpos := eventRecordCount_pos entry
  have hcount := consumed_entered entry
  rw [consumed_processEvent hsettled] at hspace
  have hbegin := h.wireBegin hpos (hcount ▸ hspace)
  have hm := h.entered entry hspace
  have hend : w.nextWireSequence + eventRecordCount raw entry.plan = m.lastWireSequence + 1 := by
    rw [hm.last]
    omega
  have hbefore : m.pendingEventCount ≠ 0 → m.pendingSequenceEnd < w.nextWireSequence := by
    intro hpending
    obtain ⟨plan, vm, loss, completeness, -, -, -, -, -, -, rfl⟩ := entry
    have hold := (h.pending hpending).2.2.1
    rw [hbegin, ← h.last]
    exact Nat.lt_succ_of_le hold
  have hticks := entry.lastTicks
  -- a flush on the way leaves nothing pending, and moves no sequence
  have hensured : ∀ k, ensurePendingCapacity options (eventRecordCount raw entry.plan) m
      = .ok () k → k.lastWireSequence = m.lastWireSequence ∧ k.lastTicks = m.lastTicks ∧
        (k.pendingEventCount ≠ 0 → k.pendingSequenceEnd < w.nextWireSequence) := by
    intro k hensure
    rcases ensurePendingCapacity_ok hensure with rfl | ⟨-, hflush⟩
    · exact ⟨rfl, rfl, hbefore⟩
    · obtain ⟨hlast, hticks⟩ := flushPending_times hflush
      exact ⟨hlast, hticks, fun hpending => absurd (flushPending_none hflush) hpending⟩
  cases hsettled with
  | past hlimit hdrop =>
      rw [hdrop]
      exact hm.noteDrop hlimit hpos (by omega) hend (hm.last ▸ hspace) hticks.symm entry.known
        hbefore
  | reached k hlimit hensure hreached hdrop =>
      obtain ⟨hlast, hkticks, hkbefore⟩ := hensured k hensure
      rw [hdrop]
      refine (hm.ensure hensure).noteDrop hreached hpos (by omega) ?_ ?_ ?_ entry.known hkbefore
      · rw [hlast]
        exact hend
      · rw [hlast, hm.last]
        exact hspace
      · rw [hkticks, hticks]
  | buffered k hlimit hensure hbelow hbuffer =>
      obtain ⟨hlast, hkticks, -⟩ := hensured k hensure
      obtain ⟨n, happend, hbuffered⟩ := bufferEvent_ok hbuffer
      obtain ⟨happend⟩ := appendEvent_ok happend
      have hn : Sequenced options n := by
        refine (hm.ensure hensure).append hbelow hpos (by omega) ?_ ?_ entry.known happend
        · rw [hlast]
          exact hend
        · rw [hkticks, hticks]
      rcases hbuffered with rfl | hflush
      · exact hn
      · exact hn.flush hflush

/-! ## Runs -/

theorem Sequenced.settleModule (h : Sequenced options w) {ticks : ℕ} {u : Unit}
    (hrun : settleModule options ticks w = .ok u w') : Sequenced options w' := by
  have hw : Sequenced options { w with lastModuleTicks := ticks } :=
    ⟨h.next, h.last, h.pending, h.below, h.dropped, h.crossed⟩
  rcases settleModule_ok hrun with rfl | hflush
  · exact hw
  · obtain ⟨k, hfiled, rfl⟩ := flushModulePayload_filed hflush
    exact (hw.filed hfiled).modules []

theorem Sequenced.beforeModule (h : Sequenced options w) {u : Unit}
    (hrun : flushBeforeModule options w = .ok u w') : Sequenced options w' := by
  rcases flushBeforeModule_ok hrun with ⟨-, rfl⟩ | ⟨-, hflush⟩
  · exact h
  · exact h.flush hflush

theorem processModuleEvent_sequenced (h : Sequenced options w) {raw : RawModuleEvent} {u : Unit}
    (hrun : processModuleEvent options raw w = .ok u w') : Sequenced options w' := by
  obtain ⟨-, ticks, -, hprocessed⟩ := processModuleEvent_ok hrun
  cases hprocessed with
  | load m htype hload hsettle =>
      obtain ⟨-, -, -, k, hflush, -, rfl⟩ := loadModule_ok hload
      have hk := h.beforeModule hflush
      have hm : Sequenced options (k.loadedModule raw ticks) :=
        ⟨hk.next, hk.last, hk.pending, hk.below, hk.dropped, hk.crossed⟩
      exact hm.settleModule hsettle
  | unload existing m htype hlive hunload hsettle =>
      obtain ⟨k, hflush, -, rfl⟩ := unloadModule_ok hunload
      have hk := h.beforeModule hflush
      have hm : Sequenced options (k.unloadedModule raw.baseAddress existing.moduleId ticks) :=
        ⟨hk.next, hk.last, hk.pending, hk.below, hk.dropped, hk.crossed⟩
      exact hm.settleModule hsettle
  | unknown htype hlive hstate =>
      rw [hstate]
      exact ⟨h.next, h.last, h.pending, h.below, h.dropped, h.crossed⟩

theorem Sequenced.sample (h : Sequenced options w) {now : ℕ} {samples : List (ℕ → MemoryRecord)}
    {u : Unit} (hrun : captureMemorySnapshot options now samples w = .ok u w') :
    Sequenced options w' := by
  rcases captureMemorySnapshot_ok hrun with ⟨-, rfl⟩ | ⟨-, ticks, -, ⟨-, rfl⟩ | ⟨-, written, hwrite⟩⟩
  · exact h
  · exact ⟨h.next, h.last, h.pending, h.below, h.dropped, h.crossed⟩
  · have hw : Sequenced options { w with lastMemoryTicks := ticks } :=
      ⟨h.next, h.last, h.pending, h.below, h.dropped, h.crossed⟩
    exact hw.filed (writeChunk_filed hwrite)

/-- The count of an action never goes down. -/
theorem consumed_perform {action : WriterAction}
    (hrun : perform options action w = .ok () w') :
    consumed options w ≤ consumed options w' := by
  cases action with
  | event raw =>
      obtain ⟨m, entry, hsettled⟩ := processEvent_ok hrun
      rw [consumed_processEvent hsettled, consumed_entered entry]
      exact Nat.le_add_right _ _
  | module raw =>
      obtain ⟨-, ticks, -, hprocessed⟩ := processModuleEvent_ok hrun
      have hbefore : ∀ {k : LinuxTraceWriter}, flushBeforeModule options w = .ok () k →
          consumed options k = consumed options w := by
        intro k hflush
        rcases flushBeforeModule_ok hflush with ⟨-, rfl⟩ | ⟨-, hflush⟩
        · rfl
        · exact consumed_flush hflush
      have hsettled : ∀ {k : LinuxTraceWriter}, settleModule options ticks k = .ok () w' →
          consumed options w' = consumed options k := by
        intro k hsettle
        rw [consumed_eq_ledger, settleModule_ledger hsettle, consumed_eq_ledger]
      cases hprocessed with
      | load m htype hload hsettle =>
          obtain ⟨-, -, -, k, hflush, -, rfl⟩ := loadModule_ok hload
          exact (hbefore hflush ▸ hsettled hsettle ▸ le_refl _)
      | unload existing m htype hlive hunload hsettle =>
          obtain ⟨k, hflush, -, rfl⟩ := unloadModule_ok hunload
          exact (hbefore hflush ▸ hsettled hsettle ▸ le_refl _)
      | unknown htype hlive hstate =>
          rw [hstate]
          exact le_refl _
  | flushTick =>
      obtain ⟨_, m, hflush, hstream⟩ := run_bind_eq_ok.mp hrun
      rw [flushStream_ok hstream]
      exact (consumed_flush hflush).ge
  | queueDrops count =>
      rw [collectQueueDrops_ok hrun]
      exact le_refl _
  | moduleDrops count =>
      rw [collectModuleDrops_ok hrun]
      exact le_refl _
  | memory now samples =>
      rw [consumed_eq_ledger, consumed_eq_ledger, captureMemorySnapshot_ledger hrun]

/-- The sequences of one action, as long as the records fit 64 bits. -/
theorem perform_sequenced {action : WriterAction}
    (h : consumed options w ≤ maxU64 → Sequenced options w)
    (hrun : perform options action w = .ok () w') (hspace : consumed options w' ≤ maxU64) :
    Sequenced options w' := by
  have h := h (le_trans (consumed_perform hrun) hspace)
  cases action with
  | event raw => exact processEvent_sequenced h hrun hspace
  | module raw => exact processModuleEvent_sequenced h hrun
  | flushTick =>
      obtain ⟨_, m, hflush, hstream⟩ := run_bind_eq_ok.mp hrun
      rw [flushStream_ok hstream]
      have hm := h.flush hflush
      exact ⟨hm.next, hm.last, hm.pending, hm.below, hm.dropped, hm.crossed⟩
  | queueDrops count =>
      rw [collectQueueDrops_ok hrun]
      exact ⟨h.next, h.last, h.pending, h.below, h.dropped, h.crossed⟩
  | moduleDrops count =>
      rw [collectModuleDrops_ok hrun]
      exact ⟨h.next, h.last, h.pending, h.below, h.dropped, h.crossed⟩
  | memory now samples => exact h.sample hrun

theorem start_sequenced (options : WriterOptions) : Sequenced options (.start options) := by
  have hnone : consumed options (.start options) = 0 := by
    change (options.apiIds.map fun _ => 0).sum = 0
    simp
  refine ⟨?_, hnone.symm, fun h => absurd rfl h, fun _ => rfl, fun h => absurd rfl h,
    fun h => absurd rfl h⟩
  rw [hnone]
  rfl

theorem beginCapture_sequenced (h : Sequenced options w) {baselines : List MemoryBaseline}
    {u : Unit} (hrun : beginCapture options baselines w = .ok u w') : Sequenced options w' := by
  obtain ⟨_, m, hmetadata, hrun⟩ := run_bind_eq_ok.mp hrun
  obtain ⟨_, k, hflush, hbaselines⟩ := run_bind_eq_ok.mp hrun
  have hm : Sequenced options m := by
    rcases writeMetadata_ok hmetadata with ⟨-, rfl⟩ | ⟨-, file, -, rfl⟩
    · exact h
    · exact ⟨h.next, h.last, h.pending, h.below, h.dropped, h.crossed⟩
  have hk : Sequenced options k := by
    rw [flushStream_ok hflush]
    exact ⟨hm.next, hm.last, hm.pending, hm.below, hm.dropped, hm.crossed⟩
  rcases writeMemoryBaselines_ok hbaselines with ⟨-, rfl⟩ | ⟨-, written, hwrite⟩
  · exact hk
  · have hk : Sequenced options { k with lastMemoryTicks := k.baselineTicks baselines } :=
      ⟨hk.next, hk.last, hk.pending, hk.below, hk.dropped, hk.crossed⟩
    exact hk.filed (writeChunk_filed hwrite)

theorem between_sequenced {baselines : List MemoryBaseline} {actions : List WriterAction}
    (h : Between options baselines actions w) (hspace : consumed options w ≤ maxU64) :
    Sequenced options w := by
  obtain ⟨_, m, hbegin, hloop⟩ := run_bind_eq_ok.mp h
  have hm := beginCapture_sequenced (start_sequenced options) hbegin
  have hstep : ∀ action w w', (consumed options w ≤ maxU64 → Sequenced options w) →
      perform options action w = .ok () w' →
      consumed options w' ≤ maxU64 → Sequenced options w' :=
    fun action w w' hw hrun hspace => perform_sequenced hw hrun hspace
  exact captureLoop_preserves hstep (fun _ => hm) hloop hspace

theorem atFinalize_sequenced {baselines : List MemoryBaseline} {actions : List WriterAction}
    {lastSample : Option (ℕ × List (ℕ → MemoryRecord))}
    (h : AtFinalize options baselines actions lastSample w)
    (hspace : consumed options w ≤ maxU64) : Sequenced options w := by
  obtain ⟨before, flushed, hbetween, hflush, hsample⟩ := h
  have hcount : consumed options w = consumed options before := by
    rw [← consumed_flush hflush, consumed_eq_ledger, lastSample_ledger hsample, consumed_eq_ledger]
  have hflushed := (between_sequenced hbetween (hcount ▸ hspace)).flush hflush
  cases lastSample with
  | none =>
      cases hsample
      exact hflushed
  | some sample => exact hflushed.sample hsample

end Noleax.Capture
