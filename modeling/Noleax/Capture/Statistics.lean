import Noleax.Capture.Accounting

/-!
# The statistics of a drained writer

The aggregate of the per-API entries, and what balanced books say about it: without
a counter source nothing is left to reconcile, and the statistics validate.
-/

namespace Noleax.Capture

open Lib Trace Agent Agent.LinuxTraceWriter

variable {options : WriterOptions} {w w' : LinuxTraceWriter}

/-! ## The aggregate -/

/-- One more entry in the aggregate. -/
def withApi (statistics : CaptureStatistics) (api : ApiStatistics) : CaptureStatistics :=
  { statistics with
    observedCalls := statistics.observedCalls + api.observedCalls
    successfulOperations := statistics.successfulOperations + api.successfulOperations
    failedOperations := statistics.failedOperations + api.failedOperations
    filteredBeforeQueue := statistics.filteredBeforeQueue + api.filteredBeforeQueue
    droppedEvents := statistics.droppedEvents + api.droppedEvents
    perApi := statistics.perApi ++ [api] }

theorem checkedAdd_le {value addition total : ℕ} {subject : String} (hvalue : value ≤ maxU64)
    (h : checkedAdd value addition subject = .ok total) : total ≤ maxU64 := by
  obtain ⟨hle, rfl⟩ := (checkedAdd_eq_ok hvalue).mp h
  exact hle

/-- A 64-bit count ran over. -/
def Overflow : Error → Prop
  | .overflow _ => True
  | _ => False

theorem checkedAdd_throws (value addition : ℕ) (subject : String) :
    ThrowsOnly Overflow (checkedAdd value addition subject) := by
  unfold checkedAdd
  split
  · exact throwsOnly_error trivial
  · exact throwsOnly_ok _

theorem addApiStatistics_ok {statistics statistics' : CaptureStatistics} {api : ApiStatistics}
    (h : addApiStatistics statistics api = .ok statistics') :
    statistics' = withApi statistics api ∧
      (statistics.observedCalls ≤ maxU64 → statistics'.observedCalls ≤ maxU64) := by
  unfold addApiStatistics at h
  obtain ⟨observed, hobserved, h⟩ := bind_eq_ok.mp h
  obtain ⟨successful, hsuccessful, h⟩ := bind_eq_ok.mp h
  obtain ⟨failed, hfailed, h⟩ := bind_eq_ok.mp h
  obtain ⟨filtered, hfiltered, h⟩ := bind_eq_ok.mp h
  obtain ⟨dropped, hdropped, h⟩ := bind_eq_ok.mp h
  cases h
  refine ⟨?_, fun hle => checkedAdd_le hle hobserved⟩
  rw [checkedAdd_ok hobserved, checkedAdd_ok hsuccessful, checkedAdd_ok hfailed,
    checkedAdd_ok hfiltered, checkedAdd_ok hdropped]
  rfl

theorem addApiStatistics_of {statistics : CaptureStatistics} {api : ApiStatistics}
    (h : (withApi statistics api).observedCalls ≤ maxU64)
    (hcalls : (withApi statistics api).successfulOperations +
      (withApi statistics api).failedOperations ≤ maxU64)
    (hrecorded : (withApi statistics api).filteredBeforeQueue +
      (withApi statistics api).droppedEvents ≤ maxU64) :
    addApiStatistics statistics api = .ok (withApi statistics api) := by
  unfold addApiStatistics
  unfold withApi at h hcalls hrecorded
  dsimp only at h hcalls hrecorded
  rw [checkedAdd_of h, ok_bind, checkedAdd_of (by omega), ok_bind, checkedAdd_of (by omega),
    ok_bind, checkedAdd_of (by omega), ok_bind, checkedAdd_of (by omega), ok_bind]
  rfl

theorem addApiStatistics_throws (statistics : CaptureStatistics) (api : ApiStatistics) :
    ThrowsOnly Overflow (addApiStatistics statistics api) := by
  unfold addApiStatistics
  refine (checkedAdd_throws _ _ _).bind fun _ _ => (checkedAdd_throws _ _ _).bind fun _ _ =>
    (checkedAdd_throws _ _ _).bind fun _ _ => (checkedAdd_throws _ _ _).bind fun _ _ =>
    (checkedAdd_throws _ _ _).bind fun _ _ => throwsOnly_pure _

/-- The aggregate over a list of entries. -/
def aggregate (statistics : CaptureStatistics) (apis : List ApiStatistics) : CaptureStatistics :=
  apis.foldl withApi statistics

theorem aggregate_cons (statistics : CaptureStatistics) (api : ApiStatistics)
    (apis : List ApiStatistics) :
    aggregate statistics (api :: apis) = aggregate (withApi statistics api) apis := rfl

/-- The aggregate as sums. -/
theorem aggregate_eq (statistics : CaptureStatistics) (apis : List ApiStatistics) :
    aggregate statistics apis = { statistics with
      observedCalls := statistics.observedCalls + (apis.map (·.observedCalls)).sum
      successfulOperations := statistics.successfulOperations +
        (apis.map (·.successfulOperations)).sum
      failedOperations := statistics.failedOperations + (apis.map (·.failedOperations)).sum
      filteredBeforeQueue := statistics.filteredBeforeQueue +
        (apis.map (·.filteredBeforeQueue)).sum
      droppedEvents := statistics.droppedEvents + (apis.map (·.droppedEvents)).sum
      perApi := statistics.perApi ++ apis } := by
  induction apis generalizing statistics with
  | nil => simp [aggregate]
  | cons api apis ih =>
      rw [aggregate_cons, ih]
      simp [withApi, Nat.add_assoc]

/-- The statistics of a list of APIs are the aggregate of their entries. -/
theorem foldApiStatistics_ok {entry : ℕ → Except Error ApiStatistics} {ids : List ℕ}
    {statistics statistics' : CaptureStatistics} (hle : statistics.observedCalls ≤ maxU64)
    (h : ids.foldlM (fun statistics id => do addApiStatistics statistics (← entry id)) statistics
      = .ok statistics') :
    ∃ apis, List.Forall₂ (fun id api => entry id = .ok api) ids apis ∧
      statistics' = aggregate statistics apis ∧ statistics'.observedCalls ≤ maxU64 := by
  induction ids generalizing statistics with
  | nil =>
      cases h
      exact ⟨[], .nil, rfl, hle⟩
  | cons id ids ih =>
      rw [List.foldlM_cons, bind_eq_ok] at h
      obtain ⟨next, hnext, hrest⟩ := h
      obtain ⟨api, hentry, hadd⟩ := bind_eq_ok.mp hnext
      obtain ⟨rfl, hbound⟩ := addApiStatistics_ok hadd
      obtain ⟨apis, hall, rfl, hlast⟩ := ih (hbound hle) hrest
      exact ⟨api :: apis, .cons hentry hall, rfl, hlast⟩

theorem sumStatistics_ok {entry : ℕ → Except Error ApiStatistics} {statistics : CaptureStatistics}
    (h : sumStatistics options entry = .ok statistics) :
    ∃ apis, List.Forall₂ (fun id api => entry id = .ok api) options.apiIds apis ∧
      statistics = aggregate {} apis ∧ statistics.observedCalls ≤ maxU64 :=
  foldApiStatistics_ok (Nat.zero_le _) h

theorem sumStatistics_throws {entry : ℕ → Except Error ApiStatistics}
    (h : ∀ id ∈ options.apiIds, ThrowsOnly Overflow (entry id)) :
    ThrowsOnly Overflow (sumStatistics options entry) :=
  ThrowsOnly.foldlM (fun statistics id hid => (h id hid).bind fun api _ =>
    addApiStatistics_throws statistics api) _

/-! ## A drained writer -/

/-- Without a counter source every entry comes from the drained events. -/
theorem apiStatistics_drained (hsource : options.counterSource = none) (id : ℕ) :
    w.apiStatistics options id = drainedStatistics id (w.counters id) := by
  unfold apiStatistics snapshotOf
  rw [hsource]

/-- The entry of an API. -/
def drainedEntry (id : ℕ) (counters : ApiCounters) : ApiStatistics where
  apiId := id
  observedCalls := counters.successful + counters.failed
  successfulOperations := counters.successful
  failedOperations := counters.failed
  droppedEvents := counters.traceDropped

theorem drainedStatistics_ok {id : ℕ} {counters : ApiCounters} {api : ApiStatistics}
    (h : drainedStatistics id counters = .ok api) :
    api = drainedEntry id counters ∧
      counters.written + counters.traceDropped = counters.successful + counters.failed := by
  unfold drainedStatistics at h
  obtain ⟨observed, hobserved, h⟩ := bind_eq_ok.mp h
  obtain ⟨accounted, haccounted, h⟩ := bind_eq_ok.mp h
  rw [failIf_bind_eq_ok] at h
  obtain ⟨heq, h⟩ := h
  cases h
  rw [checkedAdd_ok hobserved, checkedAdd_ok haccounted, not_not] at heq
  rw [checkedAdd_ok hobserved]
  exact ⟨rfl, heq⟩

/-- Nothing is pending and nothing is owed. -/
structure Drained (options : WriterOptions) (w : LinuxTraceWriter) : Prop where
  books : Books options (fun _ => 0) w
  none : w.pendingEventCount = 0

theorem Drained.pending_zero (h : Drained options w) {id : ℕ} (hid : id ∈ options.apiIds) :
    (w.counters id).pending = 0 := by
  have hsum : (options.apiIds.map fun api => (w.counters api).pending).sum = 0 :=
    h.books.pending.trans h.none
  exact List.sum_eq_zero_iff.mp hsum _ (List.mem_map_of_mem hid)

theorem Drained.account (h : Drained options w) {id : ℕ} (hid : id ∈ options.apiIds) :
    (w.counters id).written + (w.counters id).traceDropped =
      (w.counters id).successful + (w.counters id).failed := by
  have haccount := h.books.account id hid
  have hpending := h.pending_zero hid
  change (w.counters id).successful + (w.counters id).failed = (w.counters id).pending +
    (w.counters id).written + (w.counters id).traceDropped + 0 at haccount
  omega

theorem drainedStatistics_throws (h : Drained options w) {id : ℕ} (hid : id ∈ options.apiIds) :
    ThrowsOnly Overflow (drainedStatistics id (w.counters id)) := by
  unfold drainedStatistics
  refine (checkedAdd_throws _ _ _).bind fun observed hobserved =>
    (checkedAdd_throws _ _ _).bind fun accounted haccounted => ?_
  refine (throwsOnly_failIf fun hne => ?_).bind fun _ _ => throwsOnly_pure _
  rw [checkedAdd_ok hobserved, checkedAdd_ok haccounted] at hne
  exact absurd (h.account hid) hne

/-- The entries of a successful aggregate over drained events. -/
theorem drained_entries (hsource : options.counterSource = none) {apis : List ApiStatistics}
    {ids : List ℕ}
    (h : List.Forall₂ (fun id api => w.apiStatistics options id = .ok api) ids apis) :
    apis = ids.map fun id => drainedEntry id (w.counters id) := by
  induction h with
  | nil => rfl
  | cons hentry hrest ih =>
      rw [apiStatistics_drained hsource] at hentry
      rw [List.map_cons, ← ih, (drainedStatistics_ok hentry).1]

/-- The drained totals: every record of the trace is written or dropped. -/
theorem drained_totals (h : Drained options w) :
    (options.apiIds.map fun id => (w.counters id).successful + (w.counters id).failed).sum =
      w.writtenEvents + w.traceDroppedEvents := by
  have hwritten : (options.apiIds.map fun id => (w.counters id).written).sum = w.writtenEvents :=
    h.books.written
  have hdropped : (options.apiIds.map fun id => (w.counters id).traceDropped).sum =
      w.traceDroppedEvents := h.books.dropped
  rw [← hwritten, ← hdropped, ← List.sum_map_add]
  exact congrArg List.sum (List.map_congr_left fun id hid => (h.account hid).symm)

/-- The aggregate of the drained entries. -/
def drainedAggregate (options : WriterOptions) (w : LinuxTraceWriter) : CaptureStatistics :=
  aggregate {} (options.apiIds.map fun id => drainedEntry id (w.counters id))

theorem drainedAggregate_perApi (options : WriterOptions) (w : LinuxTraceWriter) :
    (drainedAggregate options w).perApi =
      options.apiIds.map fun id => drainedEntry id (w.counters id) := by
  rw [drainedAggregate, aggregate_eq]
  rfl

theorem drainedAggregate_filtered (options : WriterOptions) (w : LinuxTraceWriter) :
    (drainedAggregate options w).filteredBeforeQueue = 0 := by
  rw [drainedAggregate, aggregate_eq]
  simp [drainedEntry, Function.comp_def]

theorem drainedAggregate_observed (h : Drained options w) :
    (drainedAggregate options w).observedCalls = w.writtenEvents + w.traceDroppedEvents := by
  rw [← drained_totals h, drainedAggregate, aggregate_eq, List.map_map]
  exact Nat.zero_add _

theorem drainedAggregate_calls (options : WriterOptions) (w : LinuxTraceWriter) :
    (drainedAggregate options w).successfulOperations +
        (drainedAggregate options w).failedOperations =
      (drainedAggregate options w).observedCalls := by
  rw [drainedAggregate, aggregate_eq, List.map_map, List.map_map, List.map_map]
  simp [drainedEntry, Function.comp_def]

theorem drainedAggregate_dropped (h : Drained options w) :
    (drainedAggregate options w).droppedEvents = w.traceDroppedEvents := by
  have hdropped : (options.apiIds.map fun id => (w.counters id).traceDropped).sum =
      w.traceDroppedEvents := h.books.dropped
  rw [← hdropped, drainedAggregate, aggregate_eq]
  dsimp only
  rw [List.map_map]
  exact Nat.zero_add _

/-- The aggregate is the sum of its entries. -/
theorem aggregate_aggregated {apis : List ApiStatistics}
    (h : (aggregate {} apis).observedCalls ≤ maxU64) : (aggregate {} apis).Aggregated := by
  rw [aggregate_eq] at h ⊢
  exact {
    observed := Nat.zero_add _
    succeeded := Nat.zero_add _
    failed := Nat.zero_add _
    filtered := Nat.zero_add _
    dropped := Nat.zero_add _
    bound := h }

/-- The reconciliation of a drained writer does not fail: the only exception the
statistics can throw is a 64-bit overflow. -/
theorem makeStatistics_throws (h : Drained options w) (hsource : options.counterSource = none) :
    ThrowsOnly Overflow (w.makeStatistics options) := by
  unfold makeStatistics
  refine (sumStatistics_throws fun id hid => ?_).bind fun statistics hsum => ?_
  · rw [apiStatistics_drained hsource]
    exact drainedStatistics_throws h hid
  obtain ⟨apis, hall, rfl, -⟩ := sumStatistics_ok hsum
  obtain rfl := drained_entries hsource hall
  have hfiltered := drainedAggregate_filtered options w
  have hobserved := drainedAggregate_observed h
  have hcalls := drainedAggregate_calls options w
  have hdropped := drainedAggregate_dropped h
  rw [drainedAggregate] at hfiltered hobserved hcalls hdropped
  -- only these four facts about the aggregate matter from here on
  generalize aggregate {} (options.apiIds.map fun id => drainedEntry id (w.counters id)) =
    aggregated at hfiltered hobserved hcalls hdropped
  refine (checkedAdd_throws _ _ _).bind fun completed hcompleted =>
    (checkedAdd_throws _ _ _).bind fun accounted haccounted =>
    (checkedAdd_throws _ _ _).bind fun total htotal => ?_
  refine (throwsOnly_failIf fun hne => absurd hne ?_).bind fun _ _ => throwsOnly_pure _
  rw [checkedAdd_ok hcompleted, checkedAdd_ok htotal, checkedAdd_ok haccounted]
  unfold withFileTotals
  dsimp only
  omega

/-- The statistics of a drained writer. -/
theorem makeStatistics_ok (hsource : options.counterSource = none) {statistics : CaptureStatistics}
    (h : w.makeStatistics options = .ok statistics) :
    statistics = w.withFileTotals (drainedAggregate options w) ∧
      (drainedAggregate options w).observedCalls ≤ maxU64 := by
  unfold makeStatistics at h
  obtain ⟨sum, hsum, h⟩ := bind_eq_ok.mp h
  obtain ⟨apis, hall, rfl, hbound⟩ := sumStatistics_ok hsum
  obtain rfl := drained_entries hsource hall
  obtain ⟨completed, -, h⟩ := bind_eq_ok.mp h
  obtain ⟨accounted, -, h⟩ := bind_eq_ok.mp h
  obtain ⟨total, -, h⟩ := bind_eq_ok.mp h
  rw [failIf_bind_eq_ok] at h
  cases h.2
  exact ⟨rfl, hbound⟩

theorem drainedEntry_consistent (h : Drained options w) {id : ℕ} (hid : id ∈ options.apiIds) :
    (drainedEntry id (w.counters id)).Consistent where
  id := apiIds_ne_zero hid
  calls := rfl
  recorded := by
    have haccount := h.account hid
    change 0 + (w.counters id).traceDropped ≤
      (w.counters id).successful + (w.counters id).failed
    omega

/-- What a drained writer emits passes the validation. -/
theorem drained_statistics_valid (h : Drained options w) (hsource : options.counterSource = none)
    {statistics : CaptureStatistics} (hmake : w.makeStatistics options = .ok statistics) :
    validateStatistics statistics = .ok () := by
  obtain ⟨rfl, hbound⟩ := makeStatistics_ok hsource hmake
  have haggregated : (drainedAggregate options w).Aggregated := aggregate_aggregated hbound
  have hperApi := drainedAggregate_perApi options w
  have hfiltered := drainedAggregate_filtered options w
  have hobserved := drainedAggregate_observed h
  have hdropped := drainedAggregate_dropped h
  generalize drainedAggregate options w = sum at haggregated hperApi hfiltered hobserved hdropped
  have hids : sum.perApi.map (·.apiId) = options.apiIds := by
    rw [hperApi, List.map_map]
    exact List.map_id _
  apply validateStatistics_of
  · intro api hapi
    change api ∈ sum.perApi at hapi
    rw [hperApi] at hapi
    obtain ⟨id, hid, rfl⟩ := List.mem_map.mp hapi
    exact drainedEntry_consistent h hid
  · change (sum.perApi.map (·.apiId)).Nodup
    rw [hids]
    exact apiIds_nodup options
  · exact ⟨haggregated.observed, haggregated.succeeded, haggregated.failed, haggregated.filtered,
      haggregated.dropped, haggregated.bound⟩
  · have hstacks : w.uniqueStacks + w.reusedStacks ≤ w.writtenEvents := h.books.writtenStacks
    change w.uniqueStacks + w.reusedStacks ≤
      sum.observedCalls - sum.filteredBeforeQueue - sum.droppedEvents
    omega

end Noleax.Capture
