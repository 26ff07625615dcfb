import Noleax.Vm.Resize

/-!
# The writer implements the VM machine

`planVmEvent_replayed`: on an accepted raw event the planner either runs out of
mapping ids or appends records that are a run of the machine from the state
before the event to the state after it.
-/

namespace Noleax.Vm

open Lib Trace Agent VmState

/-- `next_mapping_id()` throws. -/
abbrev exhausted : Error := .overflow "mapping ID space is exhausted"

/-- The outcome of planning one accepted event. -/
def Outcome (st : VmState) (planned : Planned) : Prop :=
  planned = .error exhausted ∨ ∃ st' records, planned = .ok (st', records) ∧ Replayed st st' records

section Creating

variable {st : VmState} {ctx : VmContext} {raw : LinuxHeapEvent}

theorem planCreate_exhausted {base size seq : ℕ} {isSection : Bool} {record : ℕ → VmPlanRecord}
    (hids : st.nextMappingId = maxU64) :
    st.planCreate ctx base size seq isSection record = .error exhausted := by
  unfold planCreate takeMappingId
  rw [if_pos hids, error_bind]

theorem planCreate_outcome (ctx : VmContext) {base size : ℕ} (seq : ℕ) {isSection : Bool}
    {record : ℕ → VmPlanRecord} (hinv : Inv st) (hbase : 0 < base) (hsize : 0 < size) (hrange : base + size ≤ maxU64)
    (hrecord : CreateRecord record isSection base size) :
    Outcome st (st.planCreate ctx base size seq isSection record) := by
  by_cases hids : st.nextMappingId = maxU64
  · exact .inl (planCreate_exhausted hids)
  · obtain ⟨st', records, hplan, hcreated⟩ :=
      planCreate_created ctx seq hinv hbase hsize hrange hids hrecord
    exact .inr ⟨st', records, hplan, hcreated.inv, hcreated.steps, hcreated.nonempty⟩

theorem createStatus_adopted (ctx : VmContext) : CreateStatus (adoptedStatus ctx) := by
  unfold adoptedStatus
  split
  · exact .inr rfl
  · exact .inl rfl

theorem createRecord_remap {status : EventStatus} (hstatus : CreateStatus status)
    (hbase : raw.resultAddress ≠ 0) (hsize : raw.count ≠ 0)
    (hrange : raw.resultAddress + raw.count ≤ maxU64) :
    CreateRecord (remapRecord ctx raw status) false raw.resultAddress raw.count := by
  intro m id hnext hlt _ hnone
  exact .createAnonymous hstatus rfl hnext hlt hnone hbase hsize hrange

/-- The view record of the pair branch carries no section handle. -/
theorem createRecord_view {status : EventStatus} (hstatus : CreateStatus status)
    (hsize : raw.count ≠ 0) (hrange : raw.resultAddress + raw.count ≤ maxU64) :
    CreateRecord (fun id =>
      { payload := .map
          { target := currentProcessTarget ctx
            resultBase := raw.resultAddress
            viewSize := raw.count
            mappingId := id }
        status := status }) true raw.resultAddress raw.count := by
  intro m id hnext hlt _ hnone
  exact .createView hstatus rfl hnext hlt hnone hsize hrange

/-- The planner's `mmap`, anonymous or file-backed, is one create. -/
theorem planMmap_eq (ctx : VmContext) (st : VmState) (raw : LinuxHeapEvent)
    (hbase : raw.resultAddress ≠ 0) (hsize : raw.requestedSize ≠ 0)
    (hrange : raw.resultAddress + raw.requestedSize ≤ maxU64) :
    ∃ isSection record,
      (if raw.sectionHandle = maxU64 then st.planMmapAnonymous ctx raw
        else st.planMmapSection ctx raw) =
      st.planCreate ctx raw.resultAddress raw.requestedSize raw.completionSequence isSection
        record ∧
      CreateRecord record isSection raw.resultAddress raw.requestedSize := by
  by_cases hanon : raw.sectionHandle = maxU64
  · rw [if_pos hanon]
    refine ⟨false, _, rfl, ?_⟩
    intro m id hnext hlt _ hnone
    exact .createAnonymous (.inl rfl) rfl hnext hlt hnone hbase hsize hrange
  · rw [if_neg hanon]
    refine ⟨true, _, rfl, ?_⟩
    intro m id hnext hlt _ hnone
    exact .createView (.inl rfl) rfl hnext hlt hnone hsize hrange

end Creating

section Releasing

variable {st : VmState} {ctx : VmContext} {raw : LinuxHeapEvent}

theorem unmatchedStatus_ne (ctx : VmContext) (address : ℕ) :
    unmatchedStatus ctx address ≠ .success := by
  unfold unmatchedStatus
  split <;> decide

theorem step_unmatched (m : Model) (base size : ℕ) :
    Step m (makeUnmatchedFreeRecord ctx base size) m :=
  .silent (.free rfl (unmatchedStatus_ne ctx base))

/-- The release half of `munmap` and of a moving `mremap`: one record at least. -/
theorem freeHalf_replayed (ctx : VmContext) {st' : VmState} {records : List VmPlanRecord} {ps : List Piece}
    (hrel : Released st st' records ps) (b size n : ℕ) :
    Steps ⟨liveOf st, n⟩
      (if records = [] then [makeUnmatchedFreeRecord ctx b size] else records) ⟨liveOf st', n⟩ ∧
    (if records = [] then [makeUnmatchedFreeRecord ctx b size] else records) ≠ [] := by
  have hsteps := hrel.steps n
  split
  · rename_i hnil
    rw [hnil] at hsteps
    rw [hsteps.eq_of_nil]
    exact ⟨.single (step_unmatched ..), by simp⟩
  · rename_i hne
    exact ⟨hsteps, hne⟩

theorem planMunmap_outcome (hinv : Inv st) : Outcome st (st.planMunmap ctx raw) := by
  obtain ⟨st', records, hplan, hrel⟩ := planSubtract_released ctx hinv raw.address
    (raw.address + raw.requestedSize) raw.completionSequence
  obtain ⟨hsteps, hne⟩ := freeHalf_replayed ctx hrel raw.address raw.requestedSize
    st.nextMappingId
  rw [← hrel.next] at hsteps
  refine .inr ⟨st', _, ?_, hrel.inv, ?_, hne⟩
  · unfold planMunmap
    rw [hplan, ok_bind]
    simp only
    split <;> rfl
  · rw [← hrel.next]
    exact hsteps

end Releasing

section Remapping

variable {st : VmState} {ctx : VmContext} {raw : LinuxHeapEvent}

/-- What validation leaves of a successful `mremap`. -/
structure Remap (raw : LinuxHeapEvent) : Prop where
  count : raw.count ≠ 0
  result : raw.resultAddress ≠ 0
  range : raw.resultAddress + raw.count ≤ maxU64
  oldRange : raw.address ≤ maxU64 → raw.address + raw.requestedSize ≤ maxU64

theorem planMremapAdopt_outcome (hinv : Inv st) (h : Remap raw) :
    Outcome st (st.planMremapAdopt ctx raw) :=
  planCreate_outcome ctx raw.completionSequence hinv (Nat.pos_of_ne_zero h.result) (Nat.pos_of_ne_zero h.count) h.range
    (createRecord_remap (createStatus_adopted ctx) h.result h.count h.range)

/-- The create half of the pair branch. -/
theorem createRecord_pair (ctx : VmContext) {status : EventStatus} (hstatus : CreateStatus status)
    (h : Remap raw) (sectionSource : Bool) :
    CreateRecord (fun id =>
      if sectionSource then
        { payload := .map
            { target := currentProcessTarget ctx
              resultBase := raw.resultAddress
              viewSize := raw.count
              mappingId := id }
          status := status }
      else remapRecord ctx raw status id) sectionSource raw.resultAddress raw.count := by
  cases sectionSource with
  | true => exact createRecord_view hstatus h.count h.range
  | false => exact createRecord_remap hstatus h.result h.count h.range

theorem planMremapPair_outcome (hinv : Inv st) (h : Remap raw) (sectionSource : Bool) :
    Outcome st (st.planMremapPair ctx raw sectionSource) := by
  obtain ⟨st1, freed, hplan, hrel⟩ := planSubtract_released ctx hinv raw.address
    (raw.address + raw.requestedSize) raw.completionSequence
  obtain ⟨hfree, -⟩ := freeHalf_replayed ctx hrel raw.address raw.requestedSize
    st.nextMappingId
  set status := if decide (freed ≠ []) then EventStatus.success else adoptedStatus ctx
    with hstatus
  have hcreate : CreateStatus status := by
    rw [hstatus]
    split
    · exact .inl rfl
    · exact createStatus_adopted ctx
  have hrecord := createRecord_pair ctx hcreate h sectionSource
  unfold planMremapPair
  rw [hplan, ok_bind]
  simp only
  rcases planCreate_outcome ctx raw.completionSequence hrel.inv
    (Nat.pos_of_ne_zero h.result) (Nat.pos_of_ne_zero h.count) h.range hrecord
    with herr | ⟨st2, created, hok, hrep⟩
  · left
    rw [herr, error_bind]
  · right
    rw [hok, ok_bind]
    refine ⟨st2, _, rfl, hrep.inv, ?_, by simp [hrep.nonempty]⟩
    refine Steps.append (?_ : Steps _ _ ⟨liveOf st1, st.nextMappingId⟩) ?_
    · by_cases hnil : freed = []
      · simpa [hnil] using hfree
      · simpa [hnil] using hfree
    · rw [← hrel.next]
      exact hrep.steps

theorem planMremapResize_outcome {source : LiveMappingGeneration} {f : Piece}
    (h : Resizing st raw source f) :
    Outcome st (st.planMremapResize ctx raw source f.stop) := by
  have hrun : st.space.runEnd (fun owner => owner.mappingId == source.mappingId) f.stop =
      runEndOf st source.mappingId f := IntervalSet.runEnd_eq ..
  unfold planMremapResize
  simp only [hrun]
  by_cases hstale : raw.completionSequence ≤ source.lastSequence
  · rw [if_pos hstale]
    exact .inr ⟨st, _, rfl, h.inv, h.steps_noop _, by simp⟩
  rw [if_neg hstale]
  obtain ⟨htouch, hlive⟩ := h.touch hstale
  set touched := st.setSource source.mappingId
    { source with lastSequence := raw.completionSequence } with htouched
  have hback : ∀ {st' records}, Replayed touched st' records → Replayed st st' records := by
    intro st' records hrep
    refine ⟨hrep.inv, ?_, hrep.nonempty⟩
    have := hrep.steps
    rw [hlive] at this
    exact this
  right
  by_cases hgrow : runEndOf st source.mappingId f - raw.address < raw.count
  · rw [if_pos hgrow]
    have holder : ∀ g ∈ piecesOf source.mappingId touched.space.frags,
        g.value.sequence < raw.completionSequence := by
      intro g hg
      obtain ⟨hg, hid⟩ := mem_piecesOf.mp hg
      obtain ⟨s, hs, -, hseq⟩ := h.inv.owner g hg
      rw [hid, h.entry] at hs
      cases hs
      omega
    obtain ⟨st', records, hok, hrep⟩ := htouch.grow ctx rfl holder hgrow
    exact ⟨st', records, hok, hback hrep⟩
  · rw [if_neg hgrow]
    by_cases hshrink : raw.count < runEndOf st source.mappingId f - raw.address
    · rw [if_pos hshrink]
      obtain ⟨st', records, hok, hrep⟩ := htouch.shrink ctx hshrink
      exact ⟨st', records, hok, hback hrep⟩
    · rw [if_neg hshrink]
      refine ⟨touched, _, rfl, hback ⟨htouch.inv, ?_, by simp⟩⟩
      have hcount : raw.count = runEndOf st source.mappingId f - raw.address := by omega
      rw [hcount]
      exact htouch.steps_noop _

theorem planMremap_outcome (ctx : VmContext) (hinv : Inv st) (h : Remap raw) :
    Outcome st (st.planMremap ctx raw) := by
  unfold planMremap
  cases hfind : st.space.find raw.address with
  | none =>
      simp only
      split
      · exact planMremapPair_outcome hinv h false
      · exact planMremapAdopt_outcome hinv h
  | some f =>
      obtain ⟨hf, -⟩ := IntervalSet.find_eq_some.mp hfind
      obtain ⟨source, hsource, -⟩ := hinv.owner f hf
      have hid := (hinv.ids _ _ hsource).1
      have hlookup : st.generationFor f.value.mappingId = .ok source := by
        unfold generationFor
        rw [hsource]
      simp only [hlookup, ok_bind]
      split
      · exact planMremapPair_outcome hinv h true
      · rename_i hanon
        split
        · exact planMremapPair_outcome hinv h false
        · rename_i hinplace
          split
          · rename_i hstart
            have hsame : raw.resultAddress = raw.address := not_not.mp hinplace
            have hrange := h.range
            rw [hsame] at hrange
            exact planMremapResize_outcome
              ⟨hinv, by rw [hid]; exact hsource, by simpa using hanon, hf, hid.symm, hstart,
                h.count, h.oldRange (by omega), hrange⟩
          · exact planMremapAdopt_outcome hinv h

end Remapping

/-! ## Every event -/

theorem silent_failedRecord {ctx : VmContext} {raw : LinuxHeapEvent} :
    Silent (failedRecord ctx raw) := by
  unfold failedRecord
  split
  · exact .free rfl (by decide)
  · split
    · exact .map rfl
    · exact .allocate rfl

/-- What validation leaves of a successful `mmap`. -/
theorem accepted_mmap {raw : LinuxHeapEvent} (hop : raw.operation = .vmAllocate)
    (hok : raw.status = .success) (hvalid : validateOperation raw = .ok ()) :
    raw.resultAddress ≠ 0 ∧ raw.requestedSize ≠ 0 ∧
      raw.resultAddress + raw.requestedSize ≤ maxU64 := by
  unfold validateOperation at hvalid
  simp only [hop, failIf_eq_ok, LinuxHeapEvent.Succeeded, hok, true_and, true_iff] at hvalid
  omega

theorem accepted_mremap {raw : LinuxHeapEvent} (hop : raw.operation = .vmRemap)
    (hok : raw.status = .success) (hvalid : validateOperation raw = .ok ()) : Remap raw := by
  unfold validateOperation at hvalid
  simp only [hop, failIf_eq_ok, LinuxHeapEvent.Succeeded, hok, true_and, true_iff] at hvalid
  exact ⟨by omega, by omega, by omega, by omega⟩

theorem planVmEvent_replayed {st : VmState} (ctx : VmContext) {raw : LinuxHeapEvent}
    (hinv : Inv st) (hvm : raw.IsVm) (hvalid : validateOperation raw = .ok ()) :
    Outcome st (st.planVmEvent ctx raw) := by
  unfold planVmEvent
  by_cases hok : raw.status = .success
  · rw [if_pos hok]
    rcases hvm with hop | hop | hop
    · obtain ⟨hbase, hsize, hrange⟩ := accepted_mmap hop hok hvalid
      obtain ⟨isSection, record, heq, hrecord⟩ := planMmap_eq ctx st raw hbase hsize hrange
      simp only [hop]
      rw [heq]
      exact planCreate_outcome ctx raw.completionSequence hinv (Nat.pos_of_ne_zero hbase) (Nat.pos_of_ne_zero hsize) hrange
        hrecord
    · simp only [hop]
      exact planMunmap_outcome hinv
    · simp only [hop]
      exact planMremap_outcome ctx hinv (accepted_mremap hop hok hvalid)
  · rw [if_neg hok]
    exact .inr ⟨st, _, rfl, hinv, .single (.silent silent_failedRecord), by simp⟩

/-! ## Accepted events and reachable states -/

/-- The VM event passes `validate_raw_event` when it arrives; heap events may have
moved the queue sequence since the last VM event. -/
def AcceptedVm (monotonicOrigin customDefinitions : ℕ) (raw : LinuxHeapEvent) : Prop :=
  raw.IsVm ∧ ∃ last, validateRawEvent ⟨monotonicOrigin, customDefinitions, last⟩ raw = .ok ()

theorem AcceptedVm.operation {origin customs : ℕ} {raw : LinuxHeapEvent}
    (h : AcceptedVm origin customs raw) : raw.IsVm ∧ validateOperation raw = .ok () := by
  obtain ⟨hvm, last, hvalid⟩ := h
  exact ⟨hvm, (validateRawEvent_eq_ok.mp hvalid).2.2.2.1⟩

/-- The states of the model after accepted VM events. -/
def Reachable (ctx : VmContext) (monotonicOrigin customDefinitions : ℕ) (st : VmState) : Prop :=
  ∃ raws, (∀ raw ∈ raws, AcceptedVm monotonicOrigin customDefinitions raw) ∧
    planRun ctx {} raws = .ok st

theorem planStep_inv {ctx : VmContext} {st st' : VmState} {raw : LinuxHeapEvent} (hinv : Inv st)
    (hraw : raw.IsVm ∧ validateOperation raw = .ok ()) (hstep : planStep ctx st raw = .ok st') :
    Inv st' := by
  unfold planStep at hstep
  rcases planVmEvent_replayed ctx hinv hraw.1 hraw.2 with herr | ⟨st1, _, hok, hrep⟩
  · rw [herr, error_bind] at hstep
    cases hstep
  · rw [hok, ok_bind] at hstep
    cases hstep
    exact hrep.inv

theorem inv_empty : Inv {} := by
  refine ⟨?_, ?_, ?_, ?_, by decide⟩
  · intro f hf
    cases hf
  · intro id g hg
    simp at hg
  · intro id g hg
    simp at hg
  · intro f hf
    cases hf

theorem planRun_inv {ctx : VmContext} {raws : List LinuxHeapEvent} {st st' : VmState}
    (hinv : Inv st) (hraws : ∀ raw ∈ raws, raw.IsVm ∧ validateOperation raw = .ok ())
    (hrun : planRun ctx st raws = .ok st') : Inv st' := by
  induction raws generalizing st with
  | nil =>
      cases hrun
      exact hinv
  | cons raw raws ih =>
      unfold planRun at hrun
      rw [List.foldlM_cons] at hrun
      obtain ⟨mid, hstep, hrest⟩ := bind_eq_ok.mp hrun
      exact ih (planStep_inv hinv (hraws raw (by simp)) hstep)
        (fun r hr => hraws r (by simp [hr])) hrest

/-- The writer's book-keeping is right in every reachable state. -/
theorem Reachable.inv {ctx : VmContext} {origin customs : ℕ} {st : VmState}
    (h : Reachable ctx origin customs st) : Inv st := by
  obtain ⟨raws, hraws, hrun⟩ := h
  exact planRun_inv inv_empty (fun raw hraw => (hraws raw hraw).operation) hrun

end Noleax.Vm
