import Noleax.Vm.TrackerRefinement
import Noleax.Vm.WriterRefinement

/-!
# Writer and analyzer agree on virtual memory

The writer plans records for a stream of raw VM events, the analyzer observes
them. Both follow the VM machine, so after every event they hold the same
generations with the same fragments.
-/

namespace Noleax.Vm

open Lib Trace Agent Analyzer VmState

/-! ## Planning a stream of raw events -/

/-- The part of the wire header that `process_event` fills in once per raw event;
the ticks and the stack id come from the rest of the writer. -/
def vmHeader (ticks stackId : LinuxHeapEvent → ℕ) (raw : LinuxHeapEvent) : EventHeader :=
  { monotonicTicks := ticks raw
    threadId := raw.threadId
    apiId := raw.apiId
    status := if raw.Succeeded then .success else .failure
    stackId := stackId raw
    systemError := if raw.Succeeded then {} else ⟨.posix, raw.operationResult⟩ }

/-- Plan the events one after the other; the records get consecutive wire
sequences from `wire` on. -/
def planStream (ctx : VmContext) (header : LinuxHeapEvent → EventHeader) :
    VmState → ℕ → List LinuxHeapEvent → Except Error (VmState × List Event)
  | st, _, [] => .ok (st, [])
  | st, wire, raw :: raws => do
      let (st, plan) ← st.planVmEvent ctx raw
      let (st, events) ← planStream ctx header st (wire + plan.length) raws
      return (st, stampPlan (header raw) wire plan ++ events)

/-! ## Agreement -/

/-- The `[begin, end)` intervals of a mapping in the tracker. -/
def trackedIntervals (t : GenerationTracker) (id : ℕ) : List (ℕ × ℕ) :=
  match t.liveMappings[id]? with
  | some state => state.live.frags.map fun f => (f.start, f.stop)
  | none => []

/-- The `[begin, end)` intervals of a mapping in `live_mapping_space_`. -/
def plannedIntervals (st : VmState) (id : ℕ) : List (ℕ × ℕ) :=
  (st.space.frags.filter fun f => f.value.mappingId == id).map fun f => (f.start, f.stop)

structure Agrees (st : VmState) (t : GenerationTracker) : Prop where
  ids : ∀ id, id ∈ t.liveMappings ↔ id ∈ st.generations
  intervals : ∀ id, trackedIntervals t id = plannedIntervals st id
  size : ∀ (id : ℕ) (state : MappingState) (generation : LiveMappingGeneration),
    t.liveMappings[id]? = some state → st.generations[id]? = some generation →
      state.generation.size = generation.liveBytes

/-- The tracker that represents a writer's state agrees with it. -/
theorem Represents.agrees {st : VmState} {t : GenerationTracker} {n : ℕ} (hinv : Inv st)
    (h : Represents ⟨liveOf st, n⟩ t) : Agrees st t := by
  have hentry : ∀ id, EntryAgrees (liveOf st id) t.liveMappings[id]? := h.entries
  refine ⟨fun id => ?_, fun id => ?_, fun id state generation hstate hgen => ?_⟩
  · rw [Std.ExtTreeMap.mem_iff_isSome_getElem?, Std.ExtTreeMap.mem_iff_isSome_getElem?]
    have := hentry id
    unfold liveOf at this
    cases hg : st.generations[id]? <;> cases ht : t.liveMappings[id]? <;>
      simp [hg, ht, EntryAgrees] at this ⊢
  · have := hentry id
    unfold liveOf at this
    unfold trackedIntervals plannedIntervals
    cases hg : st.generations[id]? with
    | none =>
        -- a fragment of `id` would have a generation
        have hnone : st.space.frags.filter (fun f => f.value.mappingId == id) = [] := by
          refine List.filter_eq_nil_iff.mpr fun f hf hid => ?_
          obtain ⟨g, hgen, -⟩ := hinv.owner f hf
          rw [eq_of_beq hid, hg] at hgen
          simp at hgen
        cases ht : t.liveMappings[id]? with
        | none => rw [hnone, List.map_nil]
        | some state => simp [hg, ht, EntryAgrees] at this
    | some g =>
        cases ht : t.liveMappings[id]? with
        | none => simp [hg, ht, EntryAgrees] at this
        | some state =>
            rw [hg, ht] at this
            have hfrags : state.live.frags = fragmentsOf id st.space.frags := this.frags
            simp only [hfrags, fragmentsOf, piecesOf, List.map_map]
            rfl
  · have := hentry id
    unfold liveOf at this
    rw [hgen, hstate] at this
    rw [this.size, (hinv.bytes id generation hgen).1]

theorem headerOk_vmHeader (ticks stackId : LinuxHeapEvent → ℕ) (raw : LinuxHeapEvent) :
    HeaderOk (vmHeader ticks stackId raw) := by
  unfold vmHeader
  rintro ⟨hdomain, hcode⟩
  simp only at hdomain hcode
  split at hdomain
  · rename_i hok
    rw [if_pos hok] at hcode
    exact hcode rfl
  · simp at hdomain

theorem represents_empty : Represents ⟨liveOf {}, 1⟩ {} := by
  refine ⟨fun id => ?_, fun id hid => ?_, ?_, ?_, by decide⟩
  · simp [liveOf, EntryAgrees]
  · simp at hid
  · simp
  · simp

/-- One pass over a stream from states that agree. -/
theorem planStream_observed {ctx : VmContext} {header : LinuxHeapEvent → EventHeader}
    (hheader : ∀ raw, HeaderOk (header raw)) {raws : List LinuxHeapEvent}
    (hraws : ∀ raw ∈ raws, raw.IsVm ∧ validateOperation raw = .ok ()) {st : VmState} {wire : ℕ}
    {t : GenerationTracker} (hwire : wire ≠ 0) (hinv : Inv st)
    (hrep : Represents ⟨liveOf st, st.nextMappingId⟩ t)
    (hids : planStream ctx header st wire raws ≠ .error exhausted) :
    ∃ st' events t', planStream ctx header st wire raws = .ok (st', events) ∧
      t.run events = .ok t' ∧ Inv st' ∧ Represents ⟨liveOf st', st'.nextMappingId⟩ t' := by
  induction raws generalizing st wire t with
  | nil => exact ⟨st, [], t, rfl, rfl, hinv, hrep⟩
  | cons raw raws ih =>
      obtain ⟨hvm, hvalid⟩ := hraws raw (by simp)
      unfold planStream at hids ⊢
      rcases planVmEvent_replayed ctx hinv hvm hvalid with
        herr | ⟨st1, plan, hplan, hreplay⟩
      · rw [herr, error_bind] at hids
        exact absurd rfl hids
      rw [hplan, ok_bind] at hids ⊢
      simp only at hids ⊢
      obtain ⟨t1, hrun1, hrep1⟩ := run_represents (hheader raw) hwire hrep hreplay.steps
      obtain ⟨st2, events, t2, hstream, hrun2, hinv2, hrep2⟩ :=
        ih (fun r hr => hraws r (by simp [hr])) (show wire + plan.length ≠ 0 by omega)
          hreplay.inv hrep1 (by
            intro herr
            rw [herr, error_bind] at hids
            exact hids rfl)
      refine ⟨st2, stampPlan (header raw) wire plan ++ events, t2, ?_, ?_, hinv2, hrep2⟩
      · rw [hstream, ok_bind]
        rfl
      · exact foldlM_append_ok hrun1 hrun2

/-- A prefix of a stream that does not run out of ids does not either. -/
theorem planStream_append_ne {ctx : VmContext} {header : LinuxHeapEvent → EventHeader}
    {raws rest : List LinuxHeapEvent} {st : VmState} {wire : ℕ} {e : Error}
    (h : planStream ctx header st wire (raws ++ rest) ≠ .error e) :
    planStream ctx header st wire raws ≠ .error e := by
  induction raws generalizing st wire with
  | nil => exact fun herr => by cases herr
  | cons raw raws ih =>
      rw [List.cons_append] at h
      unfold planStream at h ⊢
      cases hplan : st.planVmEvent ctx raw with
      | error e' =>
          rw [hplan, error_bind] at h
          rw [error_bind]
          exact h
      | ok planned =>
          rw [hplan, ok_bind] at h
          rw [ok_bind]
          have := ih fun herr => h (by
            simp only
            rw [herr, error_bind])
          intro herr
          obtain ⟨st1, plan⟩ := planned
          simp only at herr this
          cases hrest : planStream ctx header st1 (wire + plan.length) raws with
          | error e' =>
              rw [hrest, error_bind] at herr
              rw [hrest] at this
              exact this herr
          | ok r =>
              rw [hrest, ok_bind] at herr
              cases herr

/-- For every stream of accepted VM events that does not exhaust the mapping
ids, and after each of its events, the analyzer has observed the writer's records
without an error and holds the writer's generations, fragments and byte counts. -/
theorem writer_analyzer_agree (ctx : VmContext) (monotonicOrigin customDefinitions : ℕ)
    (ticks stackId : LinuxHeapEvent → ℕ) (raws : List LinuxHeapEvent)
    (haccepted : ∀ raw ∈ raws, AcceptedVm monotonicOrigin customDefinitions raw)
    (hids : planStream ctx (vmHeader ticks stackId) {} 1 raws ≠ .error exhausted) :
    ∀ k ≤ raws.length, ∃ st events t,
      planStream ctx (vmHeader ticks stackId) {} 1 (raws.take k) = .ok (st, events) ∧
      GenerationTracker.run {} events = .ok t ∧ Agrees st t := by
  intro k _
  have hsplit := List.take_append_drop k raws
  have hmem : ∀ raw ∈ raws.take k, raw.IsVm ∧ validateOperation raw = .ok () := fun raw hraw =>
    (haccepted raw (List.mem_of_mem_take hraw)).operation
  rw [← hsplit] at hids
  obtain ⟨st, events, t, hstream, hrun, hinv, hrep⟩ :=
    planStream_observed (headerOk_vmHeader ticks stackId) hmem (by decide) inv_empty
      represents_empty (planStream_append_ne hids)
  exact ⟨st, events, t, hstream, hrun, hrep.agrees hinv⟩

/-- An anonymous mapping, a hole in it, and an older file view that arrives last
and may only keep what neither of them touched. -/
def staleViewStream : List LinuxHeapEvent :=
  [{ queueSequence := 1
     threadId := 7
     apiId := LinuxLogicalHookApi.mmap.apiId
     operation := .vmAllocate
     status := .success
     requestedSize := 0x4000
     resultAddress := 0x1000
     sectionHandle := maxU64
     completionSequence := 2 },
   { queueSequence := 2
     threadId := 7
     apiId := LinuxLogicalHookApi.munmap.apiId
     operation := .vmUnmap
     status := .success
     address := 0x2000
     requestedSize := 0x1000
     completionSequence := 3 },
   { queueSequence := 3
     threadId := 7
     apiId := LinuxLogicalHookApi.mmap.apiId
     operation := .vmAllocate
     status := .success
     requestedSize := 0x4000
     resultAddress := 0x3000
     sectionHandle := 5
     completionSequence := 1 }]

theorem staleViewStream_accepted : ∀ raw ∈ staleViewStream, AcceptedVm 0 0 raw := by
  intro raw hraw
  fin_cases hraw
  · exact ⟨by decide, 0, by decide⟩
  · exact ⟨by decide, 1, by decide⟩
  · exact ⟨by decide, 2, by decide⟩

theorem writer_analyzer_agree_staleView :
    ∃ st events t,
      planStream ⟨false, 1⟩ (vmHeader (·.monotonicTicks) fun _ => 0) {} 1 staleViewStream =
        .ok (st, events) ∧
      GenerationTracker.run {} events = .ok t ∧ Agrees st t :=
  writer_analyzer_agree ⟨false, 1⟩ 0 0 (·.monotonicTicks) (fun _ => 0) staleViewStream
    staleViewStream_accepted (fun h => by
      have hok : (planStream ⟨false, 1⟩ (vmHeader (·.monotonicTicks) fun _ => 0) {} 1
        staleViewStream).isOk = true := by decide +kernel
      rw [h] at hok
      cases hok) 3 (by decide)

end Noleax.Vm
