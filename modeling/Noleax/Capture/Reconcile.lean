import Noleax.Capture.Statistics

/-!
# When the statistics reconcile

`make_statistics` compares the producer's counters, where there are any, with the
drained events. Over balanced books the comparison comes down to the producer's own
sums, one equation for each API and one bound for the total.
-/

namespace Noleax.Capture

open Lib Trace Agent Agent.LinuxTraceWriter

variable {options : WriterOptions} {w w' : LinuxTraceWriter}

/-- The entry of an API the producer counts. -/
def producerEntry (id : ℕ) (counters : ApiCounters) (snapshot : ApiCounterSnapshot) :
    ApiStatistics where
  apiId := id
  observedCalls := snapshot.recordableCalls + counters.extraRecords
  successfulOperations := snapshot.successfulCalls + counters.extraRecords
  failedOperations := snapshot.failedCalls
  filteredBeforeQueue := snapshot.filteredCalls
  droppedEvents := snapshot.droppedEvents + counters.traceDropped

/-- The entry of an API in the statistics. -/
def entryOf (options : WriterOptions) (w : LinuxTraceWriter) (id : ℕ) : ApiStatistics :=
  match snapshotOf options false id with
  | some snapshot => producerEntry id (w.counters id) snapshot
  | none => drainedEntry id (w.counters id)

/-- A snapshot the drained events agree with. -/
structure Agrees (counters : ApiCounters) (snapshot : ApiCounterSnapshot) : Prop where
  calls : snapshot.successfulCalls + snapshot.failedCalls = snapshot.recordableCalls
  records : counters.written + snapshot.filteredCalls +
      (snapshot.droppedEvents + counters.traceDropped) =
    snapshot.recordableCalls + counters.extraRecords

/-- Every snapshot agrees, and the records of all APIs fit 64 bits. -/
structure Reconciled (options : WriterOptions) (w : LinuxTraceWriter) : Prop where
  agrees : ∀ id ∈ options.apiIds, ∀ snapshot ∈ snapshotOf options false id,
    Agrees (w.counters id) snapshot
  total : (options.apiIds.map fun id => (entryOf options w id).observedCalls).sum ≤ maxU64

theorem entryOf_id (id : ℕ) : (entryOf options w id).apiId = id := by
  unfold entryOf
  split <;> rfl

/-- An entry of reconciled counters adds up, and accounts for the written records. -/
theorem Reconciled.entry (h : Reconciled options w) (hdrained : Drained options w) {id : ℕ}
    (hid : id ∈ options.apiIds) :
    (entryOf options w id).Consistent ∧
      (w.counters id).written + (entryOf options w id).filteredBeforeQueue +
        (entryOf options w id).droppedEvents = (entryOf options w id).observedCalls := by
  cases hsnapshot : snapshotOf options false id with
  | none =>
      have heq : entryOf options w id = drainedEntry id (w.counters id) := by
        unfold entryOf
        rw [hsnapshot]
      have haccount := hdrained.account hid
      rw [heq]
      exact ⟨drainedEntry_consistent hdrained hid, haccount⟩
  | some snapshot =>
      have heq : entryOf options w id = producerEntry id (w.counters id) snapshot := by
        unfold entryOf
        rw [hsnapshot]
      obtain ⟨hcalls, hrecords⟩ := h.agrees id hid snapshot hsnapshot
      rw [heq]
      unfold producerEntry
      refine ⟨⟨apiIds_ne_zero hid, ?_, ?_⟩, ?_⟩ <;> dsimp only <;> omega

/-! ## From the statistics to the equations -/

theorem producerStatistics_ok {id : ℕ} {counters : ApiCounters} {snapshot : ApiCounterSnapshot}
    {api : ApiStatistics} (h : producerStatistics id counters snapshot = .ok api) :
    api = producerEntry id counters snapshot ∧
      snapshot.recordableCalls = (snapshot.successfulCalls + snapshot.failedCalls) % 2 ^ 64 ∧
      counters.written + snapshot.filteredCalls +
          (snapshot.droppedEvents + counters.traceDropped) =
        snapshot.recordableCalls + counters.extraRecords := by
  unfold producerStatistics at h
  obtain ⟨observed, hobserved, h⟩ := bind_eq_ok.mp h
  obtain ⟨successful, hsuccessful, h⟩ := bind_eq_ok.mp h
  obtain ⟨dropped, hdropped, h⟩ := bind_eq_ok.mp h
  rw [failIf_bind_eq_ok] at h
  obtain ⟨hcalls, h⟩ := h
  obtain ⟨filtered, hfiltered, h⟩ := bind_eq_ok.mp h
  obtain ⟨accounted, haccounted, h⟩ := bind_eq_ok.mp h
  rw [failIf_bind_eq_ok] at h
  obtain ⟨hrecords, h⟩ := h
  cases h
  obtain rfl := checkedAdd_ok hobserved
  obtain rfl := checkedAdd_ok hsuccessful
  obtain rfl := checkedAdd_ok hdropped
  obtain rfl := checkedAdd_ok hfiltered
  obtain rfl := checkedAdd_ok haccounted
  exact ⟨rfl, not_not.mp hcalls, not_not.mp hrecords⟩

/-- What the computed entry of an API says about its counters. -/
theorem apiStatistics_ok {id : ℕ} {api : ApiStatistics}
    (h : w.apiStatistics options id = .ok api) :
    api = entryOf options w id ∧ ∀ snapshot ∈ snapshotOf options false id,
      snapshot.recordableCalls = (snapshot.successfulCalls + snapshot.failedCalls) % 2 ^ 64 ∧
      (w.counters id).written + snapshot.filteredCalls +
          (snapshot.droppedEvents + (w.counters id).traceDropped) =
        snapshot.recordableCalls + (w.counters id).extraRecords := by
  unfold apiStatistics at h
  unfold entryOf
  cases hsnapshot : snapshotOf options false id with
  | none =>
      simp only [hsnapshot] at h
      refine ⟨(drainedStatistics_ok h).1, fun snapshot hmem => ?_⟩
      cases hmem
  | some snapshot =>
      simp only [hsnapshot] at h
      obtain ⟨heq, hequations⟩ := producerStatistics_ok h
      refine ⟨heq, fun other hmem => ?_⟩
      cases hmem
      exact hequations

theorem aggregate_perApi (apis : List ApiStatistics) : (aggregate {} apis).perApi = apis := by
  rw [aggregate_eq]
  rfl

theorem apiEntries {apis : List ApiStatistics} {ids : List ℕ}
    (h : List.Forall₂ (fun id api => w.apiStatistics options id = .ok api) ids apis) :
    apis = ids.map (entryOf options w) ∧ ∀ id ∈ ids, w.apiStatistics options id =
      .ok (entryOf options w id) := by
  induction h with
  | nil => exact ⟨rfl, fun id hid => nomatch hid⟩
  | cons hentry hrest ih =>
      obtain ⟨rfl, -⟩ := apiStatistics_ok hentry
      obtain ⟨rfl, hall⟩ := ih
      refine ⟨rfl, fun id hid => ?_⟩
      rcases List.mem_cons.mp hid with rfl | hid
      · exact hentry
      · exact hall id hid

/-- The aggregate of all entries. -/
def entryAggregate (options : WriterOptions) (w : LinuxTraceWriter) : CaptureStatistics :=
  aggregate {} (options.apiIds.map (entryOf options w))

/-- Statistics that were computed are the aggregate of the entries, and the counters
reconcile. -/
theorem makeStatistics_reconciled {statistics : CaptureStatistics}
    (h : w.makeStatistics options = .ok statistics) :
    statistics = w.withFileTotals (entryAggregate options w) ∧ Reconciled options w := by
  unfold makeStatistics at h
  obtain ⟨sum, hsum, h⟩ := bind_eq_ok.mp h
  obtain ⟨apis, hall, rfl, hbound⟩ := sumStatistics_ok hsum
  obtain ⟨rfl, hentries⟩ := apiEntries hall
  obtain ⟨completed, hcompleted, h⟩ := bind_eq_ok.mp h
  obtain ⟨accounted, -, h⟩ := bind_eq_ok.mp h
  obtain ⟨total, -, h⟩ := bind_eq_ok.mp h
  rw [failIf_bind_eq_ok] at h
  obtain ⟨hequal, h⟩ := h
  cases h
  have hcompleted := checkedAdd_ok hcompleted
  have hobserved := not_not.mp fun hne => hequal (.inl hne)
  have haggregated := aggregate_aggregated hbound
  have hperApi := aggregate_perApi (options.apiIds.map (entryOf options w))
  refine ⟨rfl, ?_⟩
  unfold withFileTotals at hcompleted hobserved
  dsimp only at hcompleted hobserved
  generalize aggregate {} (options.apiIds.map (entryOf options w)) = sum
    at hcompleted hobserved haggregated hperApi
  obtain ⟨hobserved_sum, hsucceeded_sum, hfailed_sum, -, -, hbound⟩ := haggregated
  rw [hperApi, List.map_map] at hobserved_sum hsucceeded_sum hfailed_sum
  constructor
  · intro id hid snapshot hsnapshot
    obtain ⟨-, hequations⟩ := apiStatistics_ok (hentries id hid)
    obtain ⟨hcalls, hrecords⟩ := hequations snapshot hsnapshot
    refine ⟨?_, hrecords⟩
    -- no entry exceeds the totals, so the sum of the calls did not wrap
    have hentry : entryOf options w id = producerEntry id (w.counters id) snapshot := by
      unfold entryOf
      rw [Option.mem_def.mp hsnapshot]
    have hle : ∀ f : ApiStatistics → ℕ,
        f (producerEntry id (w.counters id) snapshot) ≤
          (options.apiIds.map (f ∘ entryOf options w)).sum := by
      intro f
      rw [← hentry]
      exact List.le_sum_of_mem (List.mem_map_of_mem hid)
    have hsuccessful := hle (·.successfulOperations)
    have hfailed := hle (·.failedOperations)
    unfold producerEntry at hsuccessful hfailed
    dsimp only at hsuccessful hfailed
    unfold maxU64 at hbound
    omega
  · exact hobserved_sum ▸ hbound

/-! ## From the equations to the statistics -/

/-- The aggregate of consistent entries is computed without an overflow. -/
theorem foldApiStatistics_of {entry : ℕ → Except Error ApiStatistics} {api : ℕ → ApiStatistics}
    {ids : List ℕ} (hentry : ∀ id ∈ ids, entry id = .ok (api id))
    (hconsistent : ∀ id ∈ ids, (api id).Consistent) {statistics : CaptureStatistics}
    (hcalls : statistics.successfulOperations + statistics.failedOperations =
      statistics.observedCalls)
    (hrecorded : statistics.filteredBeforeQueue + statistics.droppedEvents ≤
      statistics.observedCalls)
    (hbound : statistics.observedCalls + (ids.map fun id => (api id).observedCalls).sum ≤ maxU64) :
    ids.foldlM (fun statistics id => do addApiStatistics statistics (← entry id)) statistics
      = .ok (aggregate statistics (ids.map api)) := by
  induction ids generalizing statistics with
  | nil => rfl
  | cons id ids ih =>
      have hid := List.mem_cons_self (a := id) (l := ids)
      have hc := (hconsistent id hid).calls
      have hr := (hconsistent id hid).recorded
      rw [List.map_cons, List.sum_cons] at hbound
      have hadd : addApiStatistics statistics (api id) = .ok (withApi statistics (api id)) := by
        apply addApiStatistics_of <;> (unfold withApi; dsimp only; omega)
      rw [List.foldlM_cons, hentry id hid, ok_bind, hadd, ok_bind, List.map_cons, aggregate_cons]
      apply ih
      · exact fun other hmem => hentry other (List.mem_cons_of_mem _ hmem)
      · exact fun other hmem => hconsistent other (List.mem_cons_of_mem _ hmem)
      · unfold withApi
        dsimp only
        omega
      · unfold withApi
        dsimp only
        omega
      · unfold withApi
        dsimp only
        omega

theorem producerStatistics_of {id : ℕ} {counters : ApiCounters} {snapshot : ApiCounterSnapshot}
    (h : Agrees counters snapshot)
    (hbound : snapshot.recordableCalls + counters.extraRecords ≤ maxU64) :
    producerStatistics id counters snapshot = .ok (producerEntry id counters snapshot) := by
  obtain ⟨hcalls, hrecords⟩ := h
  unfold producerStatistics
  have hwrap : snapshot.recordableCalls =
      (snapshot.successfulCalls + snapshot.failedCalls) % 2 ^ 64 := by
    unfold maxU64 at hbound
    omega
  rw [checkedAdd_of hbound, ok_bind, checkedAdd_of (by omega), ok_bind, checkedAdd_of (by omega),
    ok_bind, failIf_of_not (not_not.mpr hwrap), ok_bind, checkedAdd_of (by omega), ok_bind,
    checkedAdd_of (by omega), ok_bind, failIf_of_not (not_not.mpr hrecords), ok_bind]
  rfl

theorem drainedStatistics_of {id : ℕ} {counters : ApiCounters}
    (haccount : counters.written + counters.traceDropped = counters.successful + counters.failed)
    (hbound : counters.successful + counters.failed ≤ maxU64) :
    drainedStatistics id counters = .ok (drainedEntry id counters) := by
  unfold drainedStatistics
  rw [checkedAdd_of hbound, ok_bind, checkedAdd_of (by omega), ok_bind,
    failIf_of_not (not_not.mpr haccount), ok_bind]
  rfl

theorem Reconciled.apiStatistics (h : Reconciled options w) (hdrained : Drained options w) {id : ℕ}
    (hid : id ∈ options.apiIds) : w.apiStatistics options id = .ok (entryOf options w id) := by
  have hobserved : (entryOf options w id).observedCalls ≤ maxU64 :=
    le_trans (List.le_sum_of_mem (List.mem_map_of_mem
      (f := fun id => (entryOf options w id).observedCalls) hid)) h.total
  unfold LinuxTraceWriter.apiStatistics
  unfold entryOf at hobserved ⊢
  cases hsnapshot : snapshotOf options false id with
  | none =>
      rw [hsnapshot] at hobserved
      exact drainedStatistics_of (hdrained.account hid) hobserved
  | some snapshot =>
      rw [hsnapshot] at hobserved
      exact producerStatistics_of (h.agrees id hid snapshot hsnapshot) hobserved

/-- Reconciled counters have statistics, and these validate. -/
theorem Reconciled.statistics (h : Reconciled options w) (hdrained : Drained options w) :
    w.makeStatistics options = .ok (w.withFileTotals (entryAggregate options w)) ∧
      validateStatistics (w.withFileTotals (entryAggregate options w)) = .ok () := by
  have htotal := h.total
  have hsum : sumStatistics options (w.apiStatistics options) = .ok (entryAggregate options w) := by
    apply foldApiStatistics_of
    · exact fun id hid => h.apiStatistics hdrained hid
    · exact fun id hid => (h.entry hdrained hid).1
    · rfl
    · exact le_refl 0
    · rw [Nat.zero_add]
      exact htotal
  have hconsistent : ∀ api ∈ options.apiIds.map (entryOf options w), api.Consistent := by
    intro api hapi
    obtain ⟨id, hid, rfl⟩ := List.mem_map.mp hapi
    exact (h.entry hdrained hid).1
  have hwritten : (options.apiIds.map fun id => (w.counters id).written).sum = w.writtenEvents :=
    hdrained.books.written
  have hrecords : w.writtenEvents +
      (options.apiIds.map fun id => (entryOf options w id).filteredBeforeQueue).sum +
      (options.apiIds.map fun id => (entryOf options w id).droppedEvents).sum =
      (options.apiIds.map fun id => (entryOf options w id).observedCalls).sum := by
    rw [← hwritten, ← List.sum_map_add, ← List.sum_map_add]
    exact congrArg List.sum (List.map_congr_left fun id hid => (h.entry hdrained hid).2)
  obtain ⟨hcalls, hdropped⟩ := sum_calls hconsistent
  have hstacks : w.uniqueStacks + w.reusedStacks ≤ w.writtenEvents := hdrained.books.writtenStacks
  have haggregate := aggregate_eq {} (options.apiIds.map (entryOf options w))
  simp only [List.map_map, Function.comp_def, Nat.zero_add, List.nil_append] at haggregate hcalls
  have hids : (options.apiIds.map (entryOf options w)).map (·.apiId) = options.apiIds := by
    rw [List.map_map]
    exact (List.map_congr_left fun id _ => entryOf_id id).trans (List.map_id _)
  unfold makeStatistics
  rw [hsum, ok_bind]
  unfold entryAggregate
  rw [haggregate]
  unfold withFileTotals
  dsimp only
  generalize hobserved : (options.apiIds.map fun id => (entryOf options w id).observedCalls).sum =
    observed at htotal hrecords hcalls
  generalize hsuccessful : (options.apiIds.map fun id =>
    (entryOf options w id).successfulOperations).sum = successful at hcalls
  generalize hfailed : (options.apiIds.map fun id => (entryOf options w id).failedOperations).sum =
    failed at hcalls
  generalize hfiltered : (options.apiIds.map fun id =>
    (entryOf options w id).filteredBeforeQueue).sum = filtered at hrecords
  generalize hdrop : (options.apiIds.map fun id => (entryOf options w id).droppedEvents).sum =
    dropped at hrecords
  constructor
  · rw [checkedAdd_of (by omega), ok_bind, checkedAdd_of (by omega), ok_bind,
      checkedAdd_of (by omega), ok_bind, failIf_of_not (by omega), ok_bind]
    rfl
  · apply validateStatistics_of
    · exact hconsistent
    · change ((options.apiIds.map (entryOf options w)).map (·.apiId)).Nodup
      rw [hids]
      exact apiIds_nodup options
    · have hmap : ∀ f : ApiStatistics → ℕ, ((options.apiIds.map (entryOf options w)).map f).sum =
          (options.apiIds.map fun id => f (entryOf options w id)).sum := by
        intro f
        rw [List.map_map]
        rfl
      exact {
        observed := by rw [hmap]; exact hobserved.symm
        succeeded := by rw [hmap]; exact hsuccessful.symm
        failed := by rw [hmap]; exact hfailed.symm
        filtered := by rw [hmap]; exact hfiltered.symm
        dropped := by rw [hmap]; exact hdrop.symm
        bound := htotal }
    · change w.uniqueStacks + w.reusedStacks ≤ observed - filtered - dropped
      omega

/-! ## Counters that may wrap

The producer's counters are 64-bit words. If they agree with the drained events as
words, then they agree, or a sum overflows. -/

/-- Agreement modulo 2^64. -/
structure AgreesAsWords (counters : ApiCounters) (snapshot : ApiCounterSnapshot) : Prop where
  calls : snapshot.recordableCalls = (snapshot.successfulCalls + snapshot.failedCalls) % 2 ^ 64
  records : (counters.written + snapshot.filteredCalls +
      (snapshot.droppedEvents + counters.traceDropped)) % 2 ^ 64 =
    (snapshot.recordableCalls + counters.extraRecords) % 2 ^ 64
  written : counters.written ≤ maxU64
  dropped : snapshot.droppedEvents ≤ maxU64

theorem producerStatistics_throws {counters : ApiCounters} {snapshot : ApiCounterSnapshot}
    (h : AgreesAsWords counters snapshot) (id : ℕ) :
    ThrowsOnly Overflow (producerStatistics id counters snapshot) := by
  have hrecordable : snapshot.recordableCalls ≤ maxU64 := by
    have hcalls := h.calls
    unfold maxU64
    omega
  have hrecords := h.records
  unfold producerStatistics
  refine (checkedAdd_throws _ _ _).bind fun observed hobserved =>
    (checkedAdd_throws _ _ _).bind fun _ _ => (checkedAdd_throws _ _ _).bind fun dropped hdropped =>
    (throwsOnly_failIf fun hne => absurd h.calls hne).bind fun _ _ =>
    (checkedAdd_throws _ _ _).bind fun filtered hfiltered =>
    (checkedAdd_throws _ _ _).bind fun accounted haccounted => ?_
  obtain ⟨hobservedLe, rfl⟩ := (checkedAdd_eq_ok hrecordable).mp hobserved
  obtain ⟨-, rfl⟩ := (checkedAdd_eq_ok h.dropped).mp hdropped
  obtain ⟨hfilteredLe, rfl⟩ := (checkedAdd_eq_ok h.written).mp hfiltered
  obtain ⟨haccountedLe, rfl⟩ := (checkedAdd_eq_ok hfilteredLe).mp haccounted
  refine (throwsOnly_failIf fun hne => absurd ?_ hne).bind fun _ _ => throwsOnly_pure _
  unfold maxU64 at hobservedLe haccountedLe
  omega

theorem addApiStatistics_successful {statistics next : CaptureStatistics} {api : ApiStatistics}
    (hle : statistics.successfulOperations ≤ maxU64)
    (h : addApiStatistics statistics api = .ok next) : next.successfulOperations ≤ maxU64 := by
  unfold addApiStatistics at h
  obtain ⟨_, -, h⟩ := bind_eq_ok.mp h
  obtain ⟨successful, hsuccessful, h⟩ := bind_eq_ok.mp h
  obtain ⟨_, -, h⟩ := bind_eq_ok.mp h
  obtain ⟨_, -, h⟩ := bind_eq_ok.mp h
  obtain ⟨_, -, h⟩ := bind_eq_ok.mp h
  cases h
  exact checkedAdd_le hle hsuccessful

/-- The successes of an aggregate fit 64 bits. -/
theorem sumStatistics_successful {entry : ℕ → Except Error ApiStatistics}
    {statistics : CaptureStatistics} (h : sumStatistics options entry = .ok statistics) :
    statistics.successfulOperations ≤ maxU64 := by
  let Fits : CaptureStatistics → Prop := fun statistics => statistics.successfulOperations ≤ maxU64
  have hstart : Fits {} := Nat.zero_le _
  have hlast : Fits statistics := by
    refine foldlM_inv (fun before id next hle hadd => ?_) hstart h
    obtain ⟨api, -, hadd⟩ := bind_eq_ok.mp hadd
    exact addApiStatistics_successful hle hadd
  exact hlast

/-- Sums of congruent numbers are congruent. -/
theorem sum_map_mod {ids : List ℕ} {f g : ℕ → ℕ} {n : ℕ}
    (h : ∀ id ∈ ids, f id % n = g id % n) : (ids.map f).sum % n = (ids.map g).sum % n := by
  induction ids with
  | nil => rfl
  | cons id ids ih =>
      have hid := h id List.mem_cons_self
      have hrest := ih fun other hother => h other (List.mem_cons_of_mem _ hother)
      rw [List.map_cons, List.map_cons, List.sum_cons, List.sum_cons]
      exact Nat.ModEq.add hid hrest

/-- The two equations of an entry that was computed. -/
theorem entry_equations (hdrained : Drained options w) {id : ℕ} (hid : id ∈ options.apiIds)
    (h : w.apiStatistics options id = .ok (entryOf options w id)) :
    ((entryOf options w id).successfulOperations + (entryOf options w id).failedOperations) %
        2 ^ 64 = (entryOf options w id).observedCalls % 2 ^ 64 ∧
      (w.counters id).written + (entryOf options w id).filteredBeforeQueue +
        (entryOf options w id).droppedEvents = (entryOf options w id).observedCalls := by
  have hequations := (apiStatistics_ok h).2
  unfold entryOf
  cases hsnapshot : snapshotOf options false id with
  | none => exact ⟨rfl, hdrained.account hid⟩
  | some snapshot =>
      obtain ⟨hcalls, hrecords⟩ := hequations snapshot hsnapshot
      unfold producerEntry
      dsimp only
      omega

/-- Where all snapshots agree as words, the statistics throw at an overflow only. -/
theorem makeStatistics_throws_of (hdrained : Drained options w)
    (h : ∀ id ∈ options.apiIds, ∀ snapshot ∈ snapshotOf options false id,
      AgreesAsWords (w.counters id) snapshot) :
    ThrowsOnly Overflow (w.makeStatistics options) := by
  unfold makeStatistics
  refine (sumStatistics_throws fun id hid => ?_).bind fun statistics hsum => ?_
  · unfold LinuxTraceWriter.apiStatistics
    cases hsnapshot : snapshotOf options false id with
    | none => exact drainedStatistics_throws hdrained hid
    | some snapshot => exact producerStatistics_throws (h id hid snapshot hsnapshot) id
  have hsuccessful := sumStatistics_successful hsum
  obtain ⟨apis, hall, rfl, hobserved⟩ := sumStatistics_ok hsum
  obtain ⟨rfl, hentries⟩ := apiEntries hall
  have hequations := fun id hid => entry_equations hdrained hid (hentries id hid)
  have hcalls := sum_map_mod fun id hid => (hequations id hid).1
  have hwritten : (options.apiIds.map fun id => (w.counters id).written).sum = w.writtenEvents :=
    hdrained.books.written
  have hrecords := congrArg List.sum (List.map_congr_left fun id hid => (hequations id hid).2)
  rw [List.sum_map_add, List.sum_map_add, hwritten] at hrecords
  rw [List.sum_map_add] at hcalls
  have haggregate := aggregate_eq {} (options.apiIds.map (entryOf options w))
  simp only [List.map_map, Function.comp_def, Nat.zero_add, List.nil_append] at haggregate
  rw [haggregate] at hsuccessful hobserved ⊢
  dsimp only at hsuccessful hobserved
  refine (checkedAdd_throws _ _ _).bind fun completed hcompleted =>
    (checkedAdd_throws _ _ _).bind fun accounted haccounted =>
    (checkedAdd_throws _ _ _).bind fun total htotal => ?_
  refine (throwsOnly_failIf fun hne => absurd hne ?_).bind fun _ _ => throwsOnly_pure _
  obtain ⟨hcompletedLe, rfl⟩ := (checkedAdd_eq_ok hsuccessful).mp hcompleted
  rw [checkedAdd_ok htotal, checkedAdd_ok haccounted]
  unfold withFileTotals at hcompletedLe ⊢
  dsimp only at hcompletedLe ⊢
  unfold maxU64 at hcompletedLe hobserved
  omega

end Noleax.Capture
