import Noleax.Capture.Conservation
import Noleax.Hooks.Counts

/-!
# Records and predictions

The hooks predict one record for an event, and two for a moved `mremap`; the writer
counts what its plan has beyond that as extra records. So the records of an API are
its events, its moves and its extra records.
-/

namespace Noleax.Capture

open Lib Trace Agent Agent.LinuxTraceWriter Hooks

variable {options : WriterOptions} {w w' : LinuxTraceWriter}

/-! ## Plans -/

theorem two_le_length {α : Type} {xs ys : List α} (hxs : xs ≠ []) (hys : ys ≠ []) :
    2 ≤ (xs ++ ys).length := by
  have hx := List.length_pos_iff.mpr hxs
  have hy := List.length_pos_iff.mpr hys
  rw [List.length_append]
  omega

/-- The pair shape has a free half and a create half. -/
theorem planMremapPair_two {st st' : VmState} {ctx : VmContext} {raw : LinuxHeapEvent}
    {sectionSource : Bool} {plan : List VmPlanRecord}
    (h : st.planMremapPair ctx raw sectionSource = .ok (st', plan)) : 2 ≤ plan.length := by
  unfold VmState.planMremapPair at h
  obtain ⟨⟨mid, freed⟩, -, h⟩ := bind_eq_ok.mp h
  obtain ⟨⟨final, created⟩, hcreate, h⟩ := bind_eq_ok.mp h
  cases h
  apply two_le_length
  · split
    · rename_i hfreed
      exact of_decide_eq_true hfreed
    · exact List.cons_ne_nil _ _
  · exact VmState.planCreate_ne_nil hcreate

/-- Every branch for a move emits the pair the hook predicted. -/
theorem planMremap_two {st st' : VmState} {ctx : VmContext} {raw : LinuxHeapEvent}
    {plan : List VmPlanRecord} (hmoved : raw.resultAddress ≠ raw.address)
    (h : st.planMremap ctx raw = .ok (st', plan)) : 2 ≤ plan.length := by
  unfold VmState.planMremap at h
  split at h
  · obtain ⟨source, -, h⟩ := bind_eq_ok.mp h
    split at h
    · exact planMremapPair_two h
    · exact planMremapPair_two h
  · rw [if_pos hmoved] at h
    exact planMremapPair_two h

/-- What the hook predicts for the event. -/
def predicted (raw : LinuxHeapEvent) : ℕ := if isMove raw = true then 2 else 1

theorem predicted_le {raw : LinuxHeapEvent} {m : LinuxTraceWriter}
    (entry : Entered options raw w m) : predicted raw ≤ eventRecordCount raw entry.plan := by
  unfold predicted
  split
  · rename_i hmove
    obtain ⟨hremap, hsucceeded, hmoved⟩ := of_decide_eq_true hmove
    have hvm : raw.IsVm := .inr (.inr hremap)
    have hplanned : w.vm.planVmEvent options.vmContext raw = .ok (entry.vm, entry.plan) := by
      rcases entry.planned with ⟨-, hplan⟩ | ⟨hnot, -, -⟩
      · exact hplan
      · exact absurd hvm hnot
    unfold VmState.planVmEvent at hplanned
    rw [if_pos hsucceeded, hremap] at hplanned
    unfold eventRecordCount
    rw [if_pos hvm]
    exact planMremap_two hmoved hplanned
  · exact eventRecordCount_pos entry

/-! ## The invariant -/

/-- The records of an API. -/
def operations (counters : ApiCounters) : ℕ := counters.successful + counters.failed

/-- The events processed, and what the writer counted for them. -/
def Predicted (events : List LinuxHeapEvent) (l : Ledger) : Prop :=
  ∀ apiId, operations (l.counters apiId) =
    eventsOf events apiId (fun _ => true) + eventsOf events apiId isMove +
      (l.counters apiId).extraRecords

/-- A change of the counters that keeps operations and extra records. -/
theorem Predicted.same {events : List LinuxHeapEvent} {l l' : Ledger} (h : Predicted events l)
    (hoperations : ∀ apiId, operations (l'.counters apiId) = operations (l.counters apiId))
    (hextra : ∀ apiId, (l'.counters apiId).extraRecords = (l.counters apiId).extraRecords) :
    Predicted events l' := by
  intro apiId
  rw [hoperations, hextra]
  exact h apiId

theorem Predicted.clear {events : List LinuxHeapEvent} {l : Ledger} (h : Predicted events l)
    (toFile : Bool) : Predicted events (l.clear toFile) := h

theorem Predicted.flush {events : List LinuxHeapEvent} (h : Predicted events (ledger w)) {u : Unit}
    (hrun : flushPending options w = .ok u w') : Predicted events (ledger w') := by
  rcases flushPending_ledger hrun with ⟨-, hledger⟩ | ⟨toFile, hledger⟩
  · rwa [hledger]
  · rw [hledger]
    exact h.clear toFile

/-- A posting that keeps operations and extra records of its API. -/
theorem Predicted.post {events : List LinuxHeapEvent} {l : Ledger} (h : Predicted events l)
    {apiId : ℕ} {counters : ApiCounters}
    (hoperations : operations counters = operations (l.counters apiId))
    (hextra : counters.extraRecords = (l.counters apiId).extraRecords) :
    Predicted events (l.post apiId counters) := by
  apply h.same
  · intro id
    show operations (Function.update l.counters apiId counters id) = _
    by_cases heq : id = apiId
    · subst heq
      rw [Function.update_self, hoperations]
    · rw [Function.update_of_ne heq]
  · intro id
    show (Function.update l.counters apiId counters id).extraRecords = _
    by_cases heq : id = apiId
    · subst heq
      rw [Function.update_self, hextra]
    · rw [Function.update_of_ne heq]

theorem operations_counted (counters : ApiCounters) {raw : LinuxHeapEvent} {n : ℕ}
    (hn : ¬ raw.Succeeded → n = 1) :
    operations (countedOperations counters raw n) = operations counters + n := by
  unfold operations countedOperations
  dsimp only
  by_cases hsucceeded : raw.Succeeded
  · rw [if_pos hsucceeded, if_pos hsucceeded]
    omega
  · rw [if_neg hsucceeded, if_neg hsucceeded, hn hsucceeded]
    omega

/-- Counting an event: its prediction, and the rest as extra records. -/
theorem Predicted.entered {events : List LinuxHeapEvent} (h : Predicted events (ledger w))
    {raw : LinuxHeapEvent} {m : LinuxTraceWriter} (entry : Entered options raw w m) :
    Predicted (events ++ [raw]) (ledger m) := by
  have hcounters : (ledger m).counters = Function.update w.counters raw.apiId
      (countedOperations (w.counters raw.apiId) raw (eventRecordCount raw entry.plan)) :=
    congrArg (fun m => (ledger m).counters) entry.state_eq
  intro apiId
  have hbefore := h apiId
  rw [hcounters, eventsOf_append, eventsOf_append, eventsOf_singleton, eventsOf_singleton]
  by_cases heq : apiId = raw.apiId
  · subst heq
    rw [Function.update_self, if_pos rfl, if_pos rfl, if_pos rfl,
      operations_counted _ (eventRecordCount_failed entry)]
    have hle := predicted_le entry
    have hextra : (countedOperations (w.counters raw.apiId) raw
        (eventRecordCount raw entry.plan)).extraRecords =
        (w.counters raw.apiId).extraRecords +
          (eventRecordCount raw entry.plan - predicted raw) := by
      unfold countedOperations predicted isMove
      simp only [decide_eq_true_eq]
    have hpredicted : predicted raw = 1 + if isMove raw = true then 1 else 0 := by
      unfold predicted
      split <;> rfl
    rw [hextra]
    change operations (w.counters raw.apiId) = _ + _ + (w.counters raw.apiId).extraRecords at hbefore
    omega
  · rw [Function.update_of_ne heq, if_neg (Ne.symm heq), if_neg (Ne.symm heq)]
    exact hbefore

/-- Records that go into the buffers or are dropped stay counted. -/
theorem Predicted.settled {events : List LinuxHeapEvent} {l l' : Ledger} (h : Predicted events l)
    {apiId : ℕ} {counters : ApiCounters}
    (hcounters : l'.counters = Function.update l.counters apiId counters)
    (hoperations : operations counters = operations (l.counters apiId))
    (hextra : counters.extraRecords = (l.counters apiId).extraRecords) : Predicted events l' := by
  intro id
  rw [hcounters]
  exact h.post hoperations hextra id

/-! ## Runs -/

/-- What the steps of a capture keep about the events processed so far and the books. -/
structure RunInvariant (options : WriterOptions)
    (Inv : List LinuxHeapEvent → LinuxTraceWriter → Prop) : Prop where
  same : ∀ {events w w'}, Inv events w → ledger w' = ledger w → Inv events w'
  flush : ∀ {events w w' u}, Inv events w → flushPending options w = .ok u w' → Inv events w'
  entered : ∀ {events raw w m}, Inv events w → Entered options raw w m → Inv (events ++ [raw]) m
  dropped : ∀ {events w apiId ticks wireBegin n}, Inv events w →
    Inv events (w.notedEventDrop apiId ticks wireBegin n)
  appended : ∀ {events raw plan loss ticks wireBegin n w w'}, Inv events w →
    Appended options raw plan loss ticks wireBegin n w w' → Inv events w'

/-- The events among the actions of a capture. -/
def eventsAmong (actions : List WriterAction) : List LinuxHeapEvent :=
  actions.filterMap fun
    | .event raw => some raw
    | _ => none

section Runs

variable {Inv : List LinuxHeapEvent → LinuxTraceWriter → Prop} {events : List LinuxHeapEvent}

theorem RunInvariant.ensurePendingCapacity (inv : RunInvariant options Inv) (h : Inv events w)
    {n : ℕ} {u : Unit} (hrun : ensurePendingCapacity options n w = .ok u w') : Inv events w' := by
  rcases ensurePendingCapacity_ok hrun with rfl | ⟨-, hflush⟩
  · exact h
  · exact inv.flush h hflush

/-- One more event, however it ended. -/
theorem RunInvariant.processEvent (inv : RunInvariant options Inv) (h : Inv events w)
    {raw : LinuxHeapEvent} {u : Unit} (hrun : processEvent options raw w = .ok u w') :
    Inv (events ++ [raw]) w' := by
  obtain ⟨m, entry, hsettled⟩ := processEvent_ok hrun
  have hentered := inv.entered h entry
  cases hsettled with
  | past hlimit hdrop =>
      rw [hdrop]
      exact inv.dropped hentered
  | reached k hlimit hensure hreached hdrop =>
      rw [hdrop]
      exact inv.dropped (inv.ensurePendingCapacity hentered hensure)
  | buffered k hlimit hensure hbelow hbuffer =>
      obtain ⟨n, happend, hend⟩ := bufferEvent_ok hbuffer
      obtain ⟨happend⟩ := appendEvent_ok happend
      have hn := inv.appended (inv.ensurePendingCapacity hentered hensure) happend
      rcases hend with rfl | hflush
      · exact hn
      · exact inv.flush hn hflush

theorem RunInvariant.processModuleEvent (inv : RunInvariant options Inv) (h : Inv events w)
    {raw : RawModuleEvent} {u : Unit} (hrun : processModuleEvent options raw w = .ok u w') :
    Inv events w' := by
  have hflushed : ∀ k, flushBeforeModule options w = .ok () k → Inv events k := by
    intro k hflush
    rcases flushBeforeModule_ok hflush with ⟨-, rfl⟩ | ⟨-, hflush⟩
    · exact h
    · exact inv.flush h hflush
  obtain ⟨-, ticks, -, hprocessed⟩ := processModuleEvent_ok hrun
  cases hprocessed with
  | load m htype hload hsettle =>
      obtain ⟨-, -, -, k, hflush, -, rfl⟩ := loadModule_ok hload
      have hledger := settleModule_ledger hsettle
      exact inv.same (hflushed k hflush) hledger
  | unload existing m htype hlive hunload hsettle =>
      obtain ⟨k, hflush, -, rfl⟩ := unloadModule_ok hunload
      have hledger := settleModule_ledger hsettle
      exact inv.same (hflushed k hflush) hledger
  | unknown htype hlive hstate =>
      rw [hstate]
      exact inv.same h rfl

theorem RunInvariant.perform (inv : RunInvariant options Inv) {action : WriterAction}
    (h : Inv events w) (hrun : perform options action w = .ok () w') :
    Inv (events ++ eventsAmong [action]) w' := by
  cases action with
  | event raw => exact inv.processEvent h hrun
  | module raw =>
      show Inv (events ++ []) _
      rw [List.append_nil]
      exact inv.processModuleEvent h hrun
  | flushTick =>
      obtain ⟨_, m, hflush, hstream⟩ := run_bind_eq_ok.mp hrun
      have hm := inv.flush h hflush
      show Inv (events ++ []) _
      rw [List.append_nil, flushStream_ok hstream]
      exact inv.same hm rfl
  | queueDrops count =>
      show Inv (events ++ []) _
      rw [List.append_nil, collectQueueDrops_ok hrun]
      exact inv.same h rfl
  | moduleDrops count =>
      show Inv (events ++ []) _
      rw [List.append_nil, collectModuleDrops_ok hrun]
      exact inv.same h rfl
  | memory now samples =>
      show Inv (events ++ []) _
      rw [List.append_nil]
      exact inv.same h (captureMemorySnapshot_ledger hrun)

theorem RunInvariant.captureLoop (inv : RunInvariant options Inv) {actions : List WriterAction}
    (h : Inv events w) (hrun : captureLoop options actions w = .ok () w') :
    Inv (events ++ eventsAmong actions) w' := by
  induction actions generalizing events w with
  | nil =>
      cases hrun
      rwa [show eventsAmong [] = [] from rfl, List.append_nil]
  | cons action rest ih =>
      obtain ⟨_, m, hperform, hrest⟩ := run_bind_eq_ok.mp hrun
      have hm := ih (inv.perform h hperform) hrest
      have hsplit : eventsAmong (action :: rest) = eventsAmong [action] ++ eventsAmong rest :=
        List.filterMap_append (l := [action]) ..
      rwa [List.append_assoc, ← hsplit] at hm

/-- What holds at the start and is kept holds when the statistics are computed. -/
theorem RunInvariant.atFinalize (inv : RunInvariant options Inv) (hstart : Inv [] (.start options))
    {baselines : List MemoryBaseline} {actions : List WriterAction}
    {lastSample : Option (ℕ × List (ℕ → MemoryRecord))}
    (h : AtFinalize options baselines actions lastSample w) : Inv (eventsAmong actions) w := by
  obtain ⟨before, flushed, hbetween, hflush, hsample⟩ := h
  obtain ⟨_, m, hbegin, hloop⟩ := run_bind_eq_ok.mp hbetween
  have hm := inv.same hstart (beginCapture_ledger hbegin)
  exact inv.same (inv.flush (inv.captureLoop hm hloop) hflush) (lastSample_ledger hsample)

end Runs

/-! ## Two invariants -/

theorem predicted_invariant (options : WriterOptions) :
    RunInvariant options fun events w => Predicted events (ledger w) where
  same h heq := by
    rw [heq]
    exact h
  flush h hrun := h.flush hrun
  entered h entry := h.entered entry
  dropped {events w apiId ticks wireBegin n} h :=
    @Predicted.settled _ _ (ledger (w.notedEventDrop apiId ticks wireBegin n)) h apiId _ rfl rfl rfl
  appended {events raw plan loss ticks wireBegin n w w'} h happend := by
    rw [happend.state_eq]
    exact @Predicted.settled _ _ _ h raw.apiId _ rfl rfl rfl

/-- When the statistics are computed, what is in the file or dropped are the events,
the moves and the extra records. -/
theorem atFinalize_records {baselines : List MemoryBaseline} {actions : List WriterAction}
    {lastSample : Option (ℕ × List (ℕ → MemoryRecord))}
    (h : AtFinalize options baselines actions lastSample w) {apiId : ℕ}
    (hapi : apiId ∈ options.apiIds) :
    (w.counters apiId).written + (w.counters apiId).traceDropped =
      eventsOf (eventsAmong actions) apiId (fun _ => true) +
        eventsOf (eventsAmong actions) apiId isMove + (w.counters apiId).extraRecords := by
  have haccount := (atFinalize_drained h).account hapi
  have hpredicted : operations (w.counters apiId) = _ :=
    (predicted_invariant options).atFinalize (fun _ => rfl) h apiId
  rw [haccount]
  exact hpredicted

/-- The sum of a chunk's events and the written ones was checked. -/
theorem notePendingWritten_fits (hw : w.writtenEvents ≤ maxU64) {u : Unit}
    (h : notePendingWritten options w = .ok u w') : w'.writtenEvents ≤ maxU64 := by
  have hstate := notePendingWritten_ok h
  unfold notePendingWritten at h
  simp only [run_bind_eq_ok, run_get_eq_ok, WriterM.lift_eq_check, run_check_eq_ok] at h
  obtain ⟨_, _, ⟨rfl, rfl⟩, total, _, ⟨htotal, rfl⟩, -⟩ := h
  rw [hstate]
  exact ((checkedAdd_eq_ok hw).mp htotal).1

theorem filed_writtenEvents (h : Filed options w w') : w'.writtenEvents = w.writtenEvents := by
  obtain ⟨_, _, _, _, _, rfl⟩ := h
  rfl

theorem written_invariant (options : WriterOptions) :
    RunInvariant options fun _ w => w.writtenEvents ≤ maxU64 where
  same h heq := le_trans (le_of_eq (congrArg Ledger.writtenEvents heq)) h
  flush {_ w w' _} h hrun := by
    have hmodule : ∀ m, flushModulePayload options w = .ok () m → m.writtenEvents ≤ maxU64 := by
      intro m hrun
      exact le_trans (le_of_eq (congrArg Ledger.writtenEvents (flushModulePayload_ledger hrun))) h
    rcases flushPending_ok hrun with ⟨-, hmodules⟩ | ⟨-, m, hmodules, hevents⟩
    · exact hmodule w' hmodules
    rcases hevents.cases_limit with ⟨n, hfiled, -, hdrop⟩ | ⟨n, hfiled, hnote⟩
    · have hn := hmodule m hmodules
      rw [← filed_writtenEvents hfiled] at hn
      rcases dropPendingEvents_ok hdrop with ⟨-, rfl⟩ | ⟨-, rfl⟩
      · exact hn
      · exact hn
    · have hn := hmodule m hmodules
      rw [← filed_writtenEvents hfiled] at hn
      exact notePendingWritten_fits hn hnote
  entered h entry := by
    rw [entry.state_eq]
    exact h
  dropped h := h
  appended h happend := by
    rw [happend.state_eq]
    exact h

/-- No API has more records written than fit 64 bits. -/
theorem atFinalize_written {baselines : List MemoryBaseline} {actions : List WriterAction}
    {lastSample : Option (ℕ × List (ℕ → MemoryRecord))}
    (h : AtFinalize options baselines actions lastSample w) {apiId : ℕ}
    (hapi : apiId ∈ options.apiIds) : (w.counters apiId).written ≤ maxU64 := by
  have hevents : w.writtenEvents ≤ maxU64 :=
    (written_invariant options).atFinalize (Nat.zero_le _) h
  have htotal : (options.apiIds.map fun id => (w.counters id).written).sum = w.writtenEvents :=
    (atFinalize_drained h).books.written
  have hone := List.le_sum_of_mem (List.mem_map_of_mem (f := fun id => (w.counters id).written) hapi)
  omega

end Noleax.Capture
