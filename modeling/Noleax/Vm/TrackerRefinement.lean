import Noleax.Analyzer.GenerationTracker
import Noleax.Vm.Machine

/-!
# The tracker implements the VM machine

`Represents m t`: the tracker's live mappings are the machine's generations.
Every machine step is one accepted `observe` (`step_represents`), so a run of
the machine is a run of the tracker that never throws (`run_represents`).
-/

namespace Noleax.Vm

open Lib Trace Agent Analyzer

/-- A live mapping of the tracker stores the generation's ranges and bytes. -/
structure MappingAgrees (g : Generation) (s : MappingState) : Prop where
  frags : s.live.frags = g.frags
  size : s.generation.size = totalBytes g.frags
  kind : s.generation.kind = if g.isSection then .mappedView else .virtualAllocation
  address : s.generation.address = g.base

/-- The two sides of one id. -/
def EntryAgrees : Option Generation → Option MappingState → Prop
  | none, none => True
  | some g, some s => MappingAgrees g s
  | _, _ => False

structure Represents (m : Model) (t : GenerationTracker) : Prop where
  entries : ∀ id, EntryAgrees (m.live id) t.liveMappings[id]?
  seen : ∀ id ∈ t.seenMappingIds, id < m.next
  /-- Every end erases a live mapping, so the end counter cannot overflow. -/
  counts : t.endedCount + t.liveMappings.size ≤ t.createdCount
  created : t.createdCount < m.next
  bound : m.next ≤ maxU64

/-- The error fields of a stamped header. -/
abbrev HeaderOk (header : EventHeader) : Prop :=
  ¬ (header.systemError.domain = .none ∧ header.systemError.code ≠ 0)

namespace Represents

variable {m : Model} {t : GenerationTracker} {id : ℕ} {g : Generation}

theorem lookup (h : Represents m t) (hg : m.live id = some g) :
    ∃ s, t.liveMappings[id]? = some s ∧ MappingAgrees g s := by
  have he := h.entries id
  rw [hg] at he
  cases hs : t.liveMappings[id]? with
  | none => simp [hs, EntryAgrees] at he
  | some s =>
      rw [hs] at he
      exact ⟨s, rfl, he⟩

theorem lookup_none (h : Represents m t) (hg : m.live id = none) :
    t.liveMappings[id]? = none := by
  have he := h.entries id
  rw [hg] at he
  cases hs : t.liveMappings[id]? with
  | none => rfl
  | some s => simp [hs, EntryAgrees] at he

theorem mem_of_lookup {s : MappingState} (hs : t.liveMappings[id]? = some s) :
    id ∈ t.liveMappings := by
  rw [Std.ExtTreeMap.mem_iff_isSome_getElem?, hs]
  rfl

theorem ended_lt (h : Represents m t) {s : MappingState} (hs : t.liveMappings[id]? = some s) :
    t.endedCount < maxU64 ∧ 0 < t.liveMappings.size := by
  have hpos : 0 < t.liveMappings.size := by
    rcases Nat.eq_zero_or_pos t.liveMappings.size with hz | hz
    · have hempty : t.liveMappings = ∅ := Std.ExtTreeMap.eq_empty_iff_size_eq_zero.mpr hz
      rw [hempty] at hs
      simp at hs
    · exact hz
  have h1 := h.counts
  have h2 := h.created
  have h3 := h.bound
  omega

/-- Erasing a live mapping ends its generation. -/
theorem erase (h : Represents m t) {s : MappingState} (hs : t.liveMappings[id]? = some s) :
    Represents (m.set id none)
      { t with liveMappings := t.liveMappings.erase id, endedCount := t.endedCount + 1 } := by
  obtain ⟨-, hpos⟩ := h.ended_lt hs
  refine ⟨?_, h.seen, ?_, h.created, h.bound⟩
  · intro k
    simp only [Model.set_live, Std.ExtTreeMap.getElem?_erase, Nat.compare_eq_eq]
    by_cases hk : id = k
    · subst hk
      simp [EntryAgrees]
    · rw [Function.update_of_ne (Ne.symm hk), if_neg hk]
      exact h.entries k
  · have hcounts := h.counts
    have hsize : (t.liveMappings.erase id).size = t.liveMappings.size - 1 :=
      Std.ExtTreeMap.size_erase.trans (if_pos (mem_of_lookup hs))
    simp only
    omega

/-- Storing new ranges of a live mapping updates its generation. -/
theorem store (h : Represents m t) {s s' : MappingState} {g' : Generation}
    (hs : t.liveMappings[id]? = some s) (hs' : MappingAgrees g' s') :
    Represents (m.set id (some g'))
      { t with liveMappings := t.liveMappings.insert id s' } := by
  refine ⟨?_, h.seen, ?_, h.created, h.bound⟩
  · intro k
    simp only [Model.set_live, Std.ExtTreeMap.getElem?_insert, Nat.compare_eq_eq]
    by_cases hk : id = k
    · subst hk
      simpa [EntryAgrees] using hs'
    · rw [Function.update_of_ne (Ne.symm hk), if_neg hk]
      exact h.entries k
  · have hcounts := h.counts
    have hsize : (t.liveMappings.insert id s').size = t.liveMappings.size :=
      Std.ExtTreeMap.size_insert.trans (if_pos (mem_of_lookup hs))
    simp only
    omega

/-- A fresh id starts a generation; `add_mapping` accepts it. -/
theorem add (h : Represents m t) {s : MappingState} (hid : s.generation.mappingId = id)
    (hfresh : m.next ≤ id) (hlt : id < maxU64) (hnone : m.live id = none)
    (hs : MappingAgrees g s) :
    ∃ t' notes, t.addMapping s = .ok (t', notes) ∧
      Represents ⟨Function.update m.live id (some g), id + 1⟩ t' := by
  have hlook := h.lookup_none hnone
  have hnot : id ∉ t.liveMappings := by
    rw [Std.ExtTreeMap.mem_iff_isSome_getElem?, hlook]
    simp
  have hseen : id ∉ t.seenMappingIds := fun hmem => by
    have := h.seen id hmem
    omega
  have hcreated := h.created
  have hbound := h.bound
  have hzero : id ≠ 0 := by omega
  refine ⟨{ t with
      seenMappingIds := insert id t.seenMappingIds
      liveMappings := t.liveMappings.insert id s
      createdCount := t.createdCount + 1 }, [.created s.generation], ?_, ?_⟩
  · unfold GenerationTracker.addMapping GenerationTracker.requireNewMappingId
    rw [hid, failIf_of_not hzero, failIf_of_not hseen, failIf_of_not hnot,
      checkedIncrement_ok (by omega)]
    rfl
  · refine ⟨?_, ?_, ?_, ?_, ?_⟩
    · intro k
      simp only [Std.ExtTreeMap.getElem?_insert, Nat.compare_eq_eq]
      by_cases hk : id = k
      · subst hk
        simpa [EntryAgrees] using hs
      · rw [Function.update_of_ne (Ne.symm hk), if_neg hk]
        exact h.entries k
    · intro k hk
      rcases Finset.mem_insert.mp hk with rfl | hk
      · exact Nat.lt_succ_self k
      · have := h.seen k hk
        simp only
        omega
    · have hcounts := h.counts
      have hsize : (t.liveMappings.insert id s).size = t.liveMappings.size + 1 :=
        Std.ExtTreeMap.size_insert.trans (if_neg hnot)
      simp only
      omega
    · simp only
      omega
    · simp only
      omega

end Represents

/-! ## One record -/

section StepLemmas

variable {m : Model} {t : GenerationTracker} {e : Event}

/-- The fields a valid stamped event brings. -/
structure Stamped (r : VmPlanRecord) (e : Event) : Prop where
  payload : e.payload = r.payload
  status : e.header.status = r.status
  header : validateHeader e.header = .ok ()

/-- The header is fine, so validation is the payload's. -/
theorem validateEvent_free {event : VmFreeEvent} {status : EventStatus}
    (h : Stamped ⟨.vmFree event, status⟩ e) :
    validateEvent e = validateMappingEnd e.header event.target event.mappingId := by
  unfold validateEvent
  rw [h.header, ok_bind, h.payload]

theorem validateEvent_unmap {event : UnmapEvent} {status : EventStatus}
    (h : Stamped ⟨.unmap event, status⟩ e) :
    validateEvent e = validateMappingEnd e.header event.target event.mappingId := by
  unfold validateEvent
  rw [h.header, ok_bind, h.payload]

theorem validateEvent_allocate {event : VmAllocateEvent} {status : EventStatus}
    (h : Stamped ⟨.vmAllocate event, status⟩ e) :
    validateEvent e = validateMappingCreation e.header event.target event.mappingId := by
  unfold validateEvent
  rw [h.header, ok_bind, h.payload]

theorem validateEvent_map {event : MapEvent} {status : EventStatus}
    (h : Stamped ⟨.map event, status⟩ e) :
    validateEvent e = validateMappingCreation e.header event.target event.mappingId := by
  unfold validateEvent
  rw [h.header, ok_bind, h.payload]

theorem dispatch_silent {r : VmPlanRecord} (hr : Silent r) (h : Stamped r e) :
    t.step e = .ok t := by
  cases hr with
  | free hid hstatus =>
      refine GenerationTracker.step_of_dispatch [] ?_ ?_
      · rw [validateEvent_free h, hid]
        exact validateMappingEnd_unmatched (by rw [h.status]; exact hstatus)
      · simp [GenerationTracker.dispatch, h.payload, GenerationTracker.observeVmFree, hid]
  | allocate hid =>
      refine GenerationTracker.step_of_dispatch [] ?_ ?_
      · rw [validateEvent_allocate h, hid]
        exact validateMappingCreation_failed h.status
      · simp [GenerationTracker.dispatch, h.payload, GenerationTracker.observeVmAllocate, hid]
  | map hid =>
      refine GenerationTracker.step_of_dispatch [] ?_ ?_
      · rw [validateEvent_map h, hid]
        exact validateMappingCreation_failed h.status
      · simp [GenerationTracker.dispatch, h.payload, GenerationTracker.observeMap, hid]

/-- A ranged free that hits: the mapping is stored with what is left, or ended. -/
theorem observeRangedFree_hit (free : VmFreeEvent) (state : MappingState)
    (hrange : free.base + free.regionSize ≤ maxU64) (hended : t.endedCount < maxU64)
    (hclip : clipAll free.base (free.base + free.regionSize) state.live.frags ≠ []) :
    ∃ notes, t.observeRangedFree e free state = .ok (
      (if cutAll free.base (free.base + free.regionSize) state.live.frags = [] then
        { t with
          liveMappings := t.liveMappings.erase free.mappingId
          endedCount := t.endedCount + 1 }
      else
        let live := (state.live.subtract free.base (free.base + free.regionSize)).1
        { t with
          liveMappings := t.liveMappings.insert free.mappingId
            ⟨{ state.generation with size := live.totalBytes }, live⟩ }), notes) := by
  have hremoved : ¬ (state.live.subtract free.base (free.base + free.regionSize)).2 = [] := by
    rw [IntervalSet.subtract_removed]
    exact hclip
  have hempty : (state.live.subtract free.base (free.base + free.regionSize)).1.isEmpty = true ↔
      cutAll free.base (free.base + free.regionSize) state.live.frags = [] := by
    simp [IntervalSet.isEmpty]
  unfold GenerationTracker.observeRangedFree GenerationTracker.eraseMapping
  rw [failIf_of_not (by omega), ok_bind]
  simp only
  rw [failIf_of_not hremoved, ok_bind, checkedIncrement_ok hended]
  by_cases hc : cutAll free.base (free.base + free.regionSize) state.live.frags = []
  · rw [if_pos hc, if_pos (hempty.mpr hc)]
    exact ⟨_, rfl⟩
  · rw [if_neg hc, if_neg (fun h => hc (hempty.mp h))]
    exact ⟨_, rfl⟩

/-- A ranged release that meets the generation takes its range from it. -/
theorem dispatch_free {free : VmFreeEvent} {g : Generation} (hrep : Represents m t)
    (hlocal : free.target.scope = .currentProcess) (hg : m.live free.mappingId = some g)
    (hid : free.mappingId ≠ 0) (hrelease : free.freeType &&& GenerationTracker.memRelease ≠ 0)
    (hsize : free.regionSize ≠ 0) (hrange : free.base + free.regionSize ≤ maxU64)
    (hclip : clipAll free.base (free.base + free.regionSize) g.frags ≠ [])
    (h : Stamped ⟨.vmFree free, .success⟩ e) :
    ∃ t', t.step e = .ok t' ∧ Represents (m.set free.mappingId
      (g.withFrags (cutAll free.base (free.base + free.regionSize) g.frags))) t' := by
  obtain ⟨state, hstate, hagree⟩ := hrep.lookup hg
  obtain ⟨hended, -⟩ := hrep.ended_lt hstate
  have hvalid : validateEvent e = .ok () := by
    rw [validateEvent_free h]
    exact validateMappingEnd_local hlocal hid h.status
  obtain ⟨notes, hfree⟩ := observeRangedFree_hit (t := t) (e := e) free state hrange hended
    (by rw [hagree.frags]; exact hclip)
  rw [hagree.frags] at hfree
  have hdispatch : t.dispatch e = t.observeRangedFree e free state := by
    unfold GenerationTracker.dispatch
    rw [h.payload]
    simp only [GenerationTracker.observeVmFree]
    rw [if_pos ⟨by rw [h.status]; simp, hid, hrelease⟩, hstate]
    simp only
    rw [if_neg hsize]
  refine ⟨_, GenerationTracker.step_of_dispatch notes hvalid (hdispatch.trans hfree), ?_⟩
  unfold Generation.withFrags
  split
  · exact hrep.erase hstate
  · refine hrep.store hstate ⟨?_, ?_, hagree.kind, hagree.address⟩
    · rw [IntervalSet.subtract_frags, hagree.frags]
    · simp only [IntervalSet.totalBytes, IntervalSet.subtract_frags, hagree.frags]

theorem dispatch_release {ctx : VmContext} {id b s : ℕ} {g : Generation}
    (hrep : Represents m t) (hg : m.live id = some g) (hid : id ≠ 0) (hbs : b < s)
    (hs : s ≤ maxU64) (hclip : clipAll b s g.frags ≠ [])
    (h : Stamped (makeVmFreeRecord ctx id b (s - b)) e) :
    ∃ t', t.step e = .ok t' ∧ Represents (m.set id (g.withFrags (cutAll b s g.frags))) t' := by
  have hsum : b + (s - b) = s := by omega
  have hlocal : (⟨currentProcessTarget ctx, b, s - b, vmFreeTypeRelease, id⟩ :
      VmFreeEvent).target.scope = .currentProcess := rfl
  have hfree := dispatch_free hrep hlocal hg hid (show vmFreeTypeRelease &&& GenerationTracker.memRelease ≠ 0 by decide)
    (show s - b ≠ 0 by omega) (show b + (s - b) ≤ maxU64 by omega)
    (by simp only [hsum]; exact hclip) h
  simp only [hsum] at hfree
  exact hfree

/-- A release that reports no size ends the whole reservation. -/
theorem dispatch_freeWhole {free : VmFreeEvent} {g : Generation} (hrep : Represents m t)
    (hlocal : free.target.scope = .currentProcess) (hg : m.live free.mappingId = some g)
    (hid : free.mappingId ≠ 0) (hrelease : free.freeType &&& GenerationTracker.memRelease ≠ 0)
    (hsize : free.regionSize = 0) (hanon : g.isSection = false) (hbase : free.base = g.base)
    (h : Stamped ⟨.vmFree free, .success⟩ e) :
    ∃ t', t.step e = .ok t' ∧ Represents (m.set free.mappingId none) t' := by
  obtain ⟨state, hstate, hagree⟩ := hrep.lookup hg
  obtain ⟨hended, -⟩ := hrep.ended_lt hstate
  have hkind : state.generation.kind = .virtualAllocation := by rw [hagree.kind, hanon]; rfl
  refine ⟨_, GenerationTracker.step_of_dispatch [.ended state.generation .virtualFreed e] ?_ ?_,
    hrep.erase hstate⟩
  · rw [validateEvent_free h]
    exact validateMappingEnd_local hlocal hid h.status
  · unfold GenerationTracker.dispatch
    rw [h.payload]
    simp only [GenerationTracker.observeVmFree]
    rw [if_pos ⟨by rw [h.status]; simp, hid, hrelease⟩, hstate]
    simp only
    rw [if_pos hsize, failIf_of_not (by rw [hkind, hbase, hagree.address]; simp), ok_bind]
    unfold GenerationTracker.eraseMapping
    rw [checkedIncrement_ok hended]
    rfl

/-- An unmap ends the view at its base. -/
theorem dispatch_unmapView {unmap : UnmapEvent} {g : Generation} (hrep : Represents m t)
    (hlocal : unmap.target.scope = .currentProcess) (hg : m.live unmap.mappingId = some g)
    (hid : unmap.mappingId ≠ 0) (hsection : g.isSection = true) (hbase : unmap.base = g.base)
    (h : Stamped ⟨.unmap unmap, .success⟩ e) :
    ∃ t', t.step e = .ok t' ∧ Represents (m.set unmap.mappingId none) t' := by
  obtain ⟨state, hstate, hagree⟩ := hrep.lookup hg
  obtain ⟨hended, -⟩ := hrep.ended_lt hstate
  have hkind : state.generation.kind = .mappedView := by rw [hagree.kind, hsection]; rfl
  refine ⟨_, GenerationTracker.step_of_dispatch [.ended state.generation .unmapped e] ?_ ?_,
    hrep.erase hstate⟩
  · rw [validateEvent_unmap h]
    exact validateMappingEnd_local hlocal hid h.status
  · unfold GenerationTracker.dispatch
    rw [h.payload]
    simp only [GenerationTracker.observeUnmap]
    rw [if_pos ⟨by rw [h.status]; simp, hid⟩]
    unfold GenerationTracker.endMapping
    rw [hstate]
    simp only
    rw [failIf_of_not (by simpa using hkind), ok_bind,
      failIf_of_not (by rw [hagree.address, hbase]; simp), ok_bind]
    unfold GenerationTracker.eraseMapping
    rw [checkedIncrement_ok hended]
    rfl

theorem dispatch_unmap {ctx : VmContext} {id : ℕ} {g : Generation}
    (hrep : Represents m t) (hg : m.live id = some g) (hid : id ≠ 0) (hsection : g.isSection = true)
    (h : Stamped ⟨.unmap ⟨currentProcessTarget ctx, g.base, id⟩, .success⟩ e) :
    ∃ t', t.step e = .ok t' ∧ Represents (m.set id none) t' :=
  dispatch_unmapView hrep rfl hg hid hsection rfl h

/-- A freshly created mapping has one fragment, its whole range. -/
theorem insert_empty_frags {b e : ℕ} (h : b < e) :
    ((IntervalSet.empty : IntervalSet Unit).insert b e ()).1.frags = [⟨b, e, ()⟩] := by
  rw [IntervalSet.insert_frags _ h]
  rfl

/-- A new generation starts with the whole range of its mapping. -/
theorem dispatch_reserve {event : VmAllocateEvent} {status : EventStatus} {base size : ℕ}
    (hrep : Represents m t) (hstatus : CreateStatus status)
    (hlocal : event.target.scope = .currentProcess)
    (hfresh : m.next ≤ event.mappingId) (hid : event.mappingId < maxU64)
    (hnone : m.live event.mappingId = none)
    (hbase : (if event.mappingBase = 0 then event.resultBase else event.mappingBase) = base)
    (hsize : (if event.mappingSize = 0 then event.resultSize else event.mappingSize) = size)
    (hpos : size ≠ 0) (hrange : base + size ≤ maxU64)
    (h : Stamped ⟨.vmAllocate event, status⟩ e) :
    ∃ t', t.step e = .ok t' ∧
      Represents ⟨Function.update m.live event.mappingId (some ⟨false, base,
        [⟨base, base + size, ()⟩]⟩), event.mappingId + 1⟩ t' := by
  have hlook := hrep.lookup_none hnone
  have hcreated := hrep.created
  have hid0 : event.mappingId ≠ 0 := by omega
  have hagree : MappingAgrees ⟨false, base, [⟨base, base + size, ()⟩]⟩
      { generation :=
          { kind := .virtualAllocation
            mappingId := event.mappingId
            address := base
            size := size
            createdBy := e }
        live := ((IntervalSet.empty : IntervalSet Unit).insert base (base + size) ()).1 } := by
    refine ⟨insert_empty_frags (by omega), ?_, rfl, rfl⟩
    simp [Fragment.size]
  obtain ⟨t', notes, hadd, hrep'⟩ := hrep.add rfl hfresh hid hnone hagree
  refine ⟨t', GenerationTracker.step_of_dispatch notes ?_ ?_, hrep'⟩
  · rw [validateEvent_allocate h]
    exact validateMappingCreation_local hlocal hid0 (by rw [h.status]; exact hstatus)
  · unfold GenerationTracker.dispatch
    rw [h.payload]
    simp only [GenerationTracker.observeVmAllocate]
    rw [if_pos ⟨by rw [h.status]; rcases hstatus with hs | hs <;> simp [hs], hid0⟩,
      hbase, hsize, failIf_of_not (by omega), ok_bind, hlook]
    exact hadd

theorem dispatch_createAnonymous {event : VmAllocateEvent} {status : EventStatus}
    (hrep : Represents m t) (hstatus : CreateStatus status)
    (hlocal : event.target.scope = .currentProcess)
    (hfresh : m.next ≤ event.mappingId) (hid : event.mappingId < maxU64)
    (hnone : m.live event.mappingId = none)
    (hbase : event.mappingBase ≠ 0) (hsize : event.mappingSize ≠ 0)
    (hrange : event.mappingBase + event.mappingSize ≤ maxU64)
    (h : Stamped ⟨.vmAllocate event, status⟩ e) :
    ∃ t', t.step e = .ok t' ∧
      Represents ⟨Function.update m.live event.mappingId (some ⟨false, event.mappingBase,
        [⟨event.mappingBase, event.mappingBase + event.mappingSize, ()⟩]⟩),
        event.mappingId + 1⟩ t' :=
  dispatch_reserve hrep hstatus hlocal hfresh hid hnone (if_neg hbase) (if_neg hsize) hsize hrange h

theorem dispatch_createView {event : MapEvent} {status : EventStatus}
    (hrep : Represents m t) (hstatus : CreateStatus status)
    (hlocal : event.target.scope = .currentProcess)
    (hfresh : m.next ≤ event.mappingId) (hid : event.mappingId < maxU64)
    (hnone : m.live event.mappingId = none)
    (hsize : event.viewSize ≠ 0) (hrange : event.resultBase + event.viewSize ≤ maxU64)
    (h : Stamped ⟨.map event, status⟩ e) :
    ∃ t', t.step e = .ok t' ∧
      Represents ⟨Function.update m.live event.mappingId (some ⟨true, event.resultBase,
        [⟨event.resultBase, event.resultBase + event.viewSize, ()⟩]⟩),
        event.mappingId + 1⟩ t' := by
  have hcreated := hrep.created
  have hid0 : event.mappingId ≠ 0 := by omega
  have hagree : MappingAgrees ⟨true, event.resultBase,
      [⟨event.resultBase, event.resultBase + event.viewSize, ()⟩]⟩
      { generation :=
          { kind := .mappedView
            mappingId := event.mappingId
            address := event.resultBase
            size := event.viewSize
            createdBy := e }
        live := ((IntervalSet.empty : IntervalSet Unit).insert event.resultBase
          (event.resultBase + event.viewSize) ()).1 } := by
    refine ⟨insert_empty_frags (by omega), ?_, rfl, rfl⟩
    simp [Fragment.size]
  obtain ⟨t', notes, hadd, hrep'⟩ := hrep.add rfl hfresh hid hnone hagree
  refine ⟨t', GenerationTracker.step_of_dispatch notes ?_ ?_, hrep'⟩
  · rw [validateEvent_map h]
    exact validateMappingCreation_local hlocal hid0 (by rw [h.status]; exact hstatus)
  · unfold GenerationTracker.dispatch
    rw [h.payload]
    simp only [GenerationTracker.observeMap]
    rw [if_pos ⟨by rw [h.status]; rcases hstatus with hs | hs <;> simp [hs], hid0⟩,
      failIf_of_not (by omega), ok_bind]
    exact hadd

/-- The tracker's resize of its own fragments is the machine's. -/
theorem resizeLive_frags {live : IntervalSet Unit} {f : Fragment Unit} {size : ℕ}
    (hf : f ∈ live.frags) :
    (GenerationTracker.resizeLive live f f.start size).frags =
      resizedFrags live.frags f size := by
  have hrun : live.runEnd (fun _ => true) f.stop = runFrom f.stop live.frags := by
    rw [IntervalSet.runEnd_eq, List.filter_eq_self.mpr (by simp)]
  have hle : f.stop ≤ runFrom f.stop live.frags := (live.layout.isRun hf).le
  have hne := live.layout.nonempty f hf
  unfold GenerationTracker.resizeLive resizedFrags
  simp only [hrun]
  split
  · rw [IntervalSet.insert_frags _ (by omega)]
  · split
    · rw [IntervalSet.subtract_frags]
    · rfl

theorem updateMapping_represents {id : ℕ} {g : Generation} {state : MappingState}
    (live : IntervalSet Unit) (hrep : Represents m t) (hstate : t.liveMappings[id]? = some state)
    (hagree : MappingAgrees g state) :
    ∃ t' notes, t.updateMapping id state live e = .ok (t', notes) ∧
      Represents (m.set id (some { g with frags := live.frags })) t' := by
  unfold GenerationTracker.updateMapping
  simp only
  split
  · exact ⟨_, _, rfl, hrep.store hstate ⟨rfl, rfl, hagree.kind, hagree.address⟩⟩
  · rename_i hsame
    refine ⟨_, _, rfl, hrep.store hstate ⟨rfl, ?_, hagree.kind, hagree.address⟩⟩
    exact (not_not.mp hsame).symm

theorem dispatch_resize {event : VmAllocateEvent} {status : EventStatus} {g : Generation}
    {f : Fragment Unit} (hrep : Represents m t) (hstatus : CreateStatus status)
    (hlocal : event.target.scope = .currentProcess) (hid : event.mappingId ≠ 0) (hg : m.live event.mappingId = some g)
    (hanon : g.isSection = false) (hf : f ∈ g.frags) (hbase : event.mappingBase = f.start)
    (hlow : g.base ≤ f.start) (hpos : f.start ≠ 0) (hsize : event.mappingSize ≠ 0)
    (hrange : f.start + event.mappingSize ≤ maxU64)
    (h : Stamped ⟨.vmAllocate event, status⟩ e) :
    ∃ t', t.step e = .ok t' ∧ Represents (m.set event.mappingId
      (some { g with frags := resizedFrags g.frags f event.mappingSize })) t' := by
  obtain ⟨state, hstate, hagree⟩ := hrep.lookup hg
  have hfl : f ∈ state.live.frags := by rw [hagree.frags]; exact hf
  have hfind : state.live.find f.start = some f :=
    IntervalSet.find_eq_some.mpr ⟨hfl, le_rfl, state.live.layout.nonempty f hfl⟩
  have hkind : state.generation.kind = .virtualAllocation := by rw [hagree.kind, hanon]; rfl
  obtain ⟨t', notes, hupdate, hrep'⟩ := updateMapping_represents (e := e)
    (GenerationTracker.resizeLive state.live f f.start event.mappingSize)
    hrep hstate hagree
  rw [resizeLive_frags hfl, hagree.frags] at hrep'
  refine ⟨t', GenerationTracker.step_of_dispatch notes ?_ ?_, hrep'⟩
  · rw [validateEvent_allocate h]
    exact validateMappingCreation_local hlocal hid (by rw [h.status]; exact hstatus)
  · unfold GenerationTracker.dispatch
    rw [h.payload]
    simp only [GenerationTracker.observeVmAllocate]
    rw [if_pos ⟨by rw [h.status]; rcases hstatus with hs | hs <;> simp [hs], hid⟩, hbase,
      if_neg hpos, if_neg hsize, failIf_of_not (by omega), ok_bind, hstate]
    simp only [GenerationTracker.observeVmUpdate]
    rw [failIf_of_not (by rw [hkind, hagree.address]; simpa using hlow), ok_bind, hfind]
    simpa using hupdate

/-- Every machine step is one accepted event. -/
theorem step_represents {m' : Model} {r : VmPlanRecord} (hrep : Represents m t)
    (hstep : Step m r m') (h : Stamped r e) :
    ∃ t', t.step e = .ok t' ∧ Represents m' t' := by
  cases hstep with
  | silent hsilent => exact ⟨t, dispatch_silent hsilent h, hrep⟩
  | release hg hid hbe he hclip => exact dispatch_release hrep hg hid hbe he hclip h
  | unmap hg hid hsection => exact dispatch_unmap hrep hg hid hsection h
  | createAnonymous hstatus hlocal hfresh hid hnone hbase hsize hrange =>
      exact dispatch_createAnonymous hrep hstatus hlocal hfresh hid hnone hbase hsize hrange h
  | createView hstatus hlocal hfresh hid hnone hsize hrange =>
      exact dispatch_createView hrep hstatus hlocal hfresh hid hnone hsize hrange h
  | resize hlocal hid hg hanon hf hbase hlow hpos hsize hrange =>
      exact dispatch_resize hrep (.inl rfl) hlocal hid hg hanon hf hbase hlow hpos hsize hrange h

end StepLemmas

/-- A run of the machine is a run of the tracker over the stamped records. -/
theorem run_represents {m m' : Model} {t : GenerationTracker} {plan : List VmPlanRecord}
    {header : EventHeader} {sequence : ℕ} (hheader : HeaderOk header) (hseq : sequence ≠ 0)
    (hrep : Represents m t) (hsteps : Steps m plan m') :
    ∃ t', t.run (stampPlan header sequence plan) = .ok t' ∧ Represents m' t' := by
  induction hsteps generalizing t sequence with
  | nil => exact ⟨t, rfl, hrep⟩
  | @cons m m' m'' r rs hstep _ ih =>
      have hstamped : Stamped r
          { header := { header with sequence := sequence, status := r.status }
            payload := r.payload } :=
        ⟨rfl, rfl, validateHeader_eq_ok.mpr ⟨hseq, hheader⟩⟩
      obtain ⟨t1, ht1, hrep1⟩ := step_represents hrep hstep hstamped
      obtain ⟨t2, ht2, hrep2⟩ := ih (show sequence + 1 ≠ 0 by omega) hrep1
      refine ⟨t2, ?_, hrep2⟩
      unfold GenerationTracker.run at ht2 ⊢
      rw [stampPlan, List.foldlM_cons, ht1, ok_bind]
      exact ht2

end Noleax.Vm
