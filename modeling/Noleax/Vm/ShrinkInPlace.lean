import Noleax.Vm.Ownership

/-!
# In-place `mremap` to a smaller size

The kernel releases `[base + new_size, base + old_size)`. The planner compares
the new size with the run it tracks, not with the event's old size, so it
releases that tail only in one of its branches; in the others what it tracked
there stays.
-/

namespace Noleax.Vm

open Lib Trace Agent VmState

/-- A successful in-place `mremap` to a smaller size, newer than all fragments,
whose base is not in a file-backed view. -/
structure ShrinkInPlace (monotonicOrigin customDefinitions : ℕ) (st : VmState)
    (raw : LinuxHeapEvent) : Prop where
  accepted : AcceptedVm monotonicOrigin customDefinitions raw
  succeeded : raw.status = .success
  operation : raw.operation = .vmRemap
  inPlace : raw.resultAddress = raw.address
  smaller : raw.count < raw.requestedSize
  newest : ∀ f ∈ st.space.frags, f.value.sequence < raw.completionSequence
  notView : ∀ (o : LiveFragmentOwner) (g : LiveMappingGeneration),
    ownerAt st.space.frags raw.address = some o → st.generations[o.mappingId]? = some g →
      g.section_ = false

/-- The fragment meets what the kernel releases. -/
abbrev MeetsTail (raw : LinuxHeapEvent) (f : Piece) : Prop :=
  f.Meets (raw.address + raw.count) (raw.address + raw.requestedSize)

/-- Some fragment from before the event, or a part of it, still meets the tail. -/
def TailSurvives (st st' : VmState) (raw : LinuxHeapEvent) : Prop :=
  ∃ f ∈ st'.space.frags, Inside f st.space.frags ∧ MeetsTail raw f

/-- Nothing is tracked in the tail. -/
def TailFree (st : VmState) (raw : LinuxHeapEvent) : Prop :=
  ∀ f ∈ st.space.frags, ¬ MeetsTail raw f

/-- The base starts a fragment of a generation last changed by an older call, and
the generation owns every byte from the base up to and including `base + new_size`. -/
def RunPastNewSize (st : VmState) (raw : LinuxHeapEvent) : Prop :=
  ∃ f ∈ st.space.frags, ∃ g : LiveMappingGeneration, f.start = raw.address ∧
    st.generations[f.value.mappingId]? = some g ∧ g.lastSequence < raw.completionSequence ∧
    ∀ a, raw.address ≤ a → a ≤ raw.address + raw.count →
      ∃ o, ownerAt st.space.frags a = some o ∧ o.mappingId = f.value.mappingId

/-! ## Branches that leave the tail alone -/

/-- What the event left outside its own range, and what it made itself. -/
structure Outside (st st' : VmState) (raw : LinuxHeapEvent) : Prop where
  old : ∀ f ∈ st'.space.frags, Inside f st.space.frags ∨
    f.value.sequence = raw.completionSequence
  same : ∀ a, raw.address + raw.count ≤ a →
    ownerAt st'.space.frags a = ownerAt st.space.frags a

theorem Outside.tailSurvives {st st' : VmState} {raw : LinuxHeapEvent} (h : Outside st st' raw)
    (hnewest : ∀ f ∈ st.space.frags, f.value.sequence < raw.completionSequence) :
    ¬ TailSurvives st st' raw ↔ TailFree st raw := by
  constructor
  · intro hgone f hf hm
    obtain ⟨h1, h2, h3⟩ := hm
    have hne := st.space.layout.nonempty f hf
    -- the first byte of the fragment in the tail kept its owner
    have howner : ownerAt st'.space.frags (max f.start (raw.address + raw.count)) =
        some f.value := by
      rw [h.same _ (by omega)]
      exact (ownerAt_eq_some st.space.layout).mpr ⟨f, hf, ⟨by omega, by omega⟩, rfl⟩
    obtain ⟨g, hg, ⟨hg1, hg2⟩, hgv⟩ := (ownerAt_eq_some st'.space.layout).mp howner
    refine hgone ⟨g, hg, ?_, by omega, by omega, h3⟩
    rcases h.old g hg with hin | hseq
    · exact hin
    · have := hnewest f hf
      rw [hgv] at hseq
      omega
  · rintro hfree ⟨f, hf, ⟨hlt, k, hk, hks, hkt, -⟩, h1, h2, h3⟩
    exact hfree k hk ⟨by omega, by omega, h3⟩

theorem Outside.of_space {st st' : VmState} {raw : LinuxHeapEvent} (h : st'.space = st.space) :
    Outside st st' raw := by
  refine ⟨fun f hf => .inl ?_, fun a _ => by rw [h]⟩
  rw [h] at hf
  exact ⟨st.space.layout.nonempty f hf, f, hf, le_rfl, le_rfl, rfl⟩

/-- A claim below the tail. -/
theorem Outside.of_claim {st st' : VmState} {raw : LinuxHeapEvent} {b e id : ℕ}
    (he : e ≤ raw.address + raw.count)
    (h : st'.space.frags = fillGaps ⟨id, raw.completionSequence⟩ e b
      (stalePieces raw.completionSequence b e st.space.frags)
      (eraseAll (older raw.completionSequence (clipAll b e st.space.frags)) st.space.frags)) :
    Outside st st' raw := by
  have hlay := st.space.layout
  refine ⟨fun f hf => ?_, fun a ha => ?_⟩
  · have hne := st'.space.layout.nonempty f hf
    rw [h] at hf
    rcases mem_fillGaps (hlay.eraseAll _) (tiles_stale hlay _ b e)
      (gapsFree_of_released hlay _ b e) hf with hf | ⟨hv, -⟩
    · obtain ⟨k, hk, hks, hkt, hkv⟩ := mem_eraseAll hlay hf
      exact .inl ⟨hne, k, hk, hks, hkt, hkv.symm⟩
    · exact .inr (by rw [hv])
  · rw [h, ownerAt_claim hlay, if_neg (by omega)]

/-! ## The branches of `plan_mremap_resize` -/

section Resize

variable {st : VmState} {ctx : VmContext} {raw : LinuxHeapEvent} {source : LiveMappingGeneration}
  {f : Piece}

/-- The grow branch claims `[run_end, base + new_size)`. -/
theorem planMremapGrow_frags (hinv : Inv st) {id r : ℕ} {st' : VmState}
    {records : List VmPlanRecord} (hplan : st.planMremapGrow ctx raw id r = .ok (st', records)) :
    st'.space.frags = fillGaps ⟨id, raw.completionSequence⟩ (raw.address + raw.count) r
      (stalePieces raw.completionSequence r (raw.address + raw.count) st.space.frags)
      (eraseAll (older raw.completionSequence (clipAll r (raw.address + raw.count) st.space.frags))
        st.space.frags) := by
  obtain ⟨space, released, hspace, hclaim⟩ := planCreateSpace_claimed ctx hinv r
    (raw.address + raw.count) raw.completionSequence id
  unfold planMremapGrow at hplan
  rw [hspace, ok_bind] at hplan
  obtain ⟨source, -, hplan⟩ := bind_eq_ok.mp hplan
  cases hplan
  rw [← hclaim.rel.space]
  exact hclaim.frags

/-- The shrink branch leaves nothing in the tail. -/
theorem planMremapShrink_gone (h : Resizing st raw source f)
    (hnewest : ∀ g ∈ st.space.frags, g.value.sequence < raw.completionSequence)
    {st' : VmState} {records : List VmPlanRecord}
    (hplan : st.planMremapShrink ctx raw source.mappingId (runEndOf st source.mappingId f) =
      .ok (st', records)) : ∀ g ∈ st'.space.frags, ¬ MeetsTail raw g := by
  have hcount := h.count
  have hinv := (h.cutTail_changed (a := raw.address + raw.count) (by omega)).inv h.inv
  obtain ⟨st2, rs, hplan2, hrel⟩ := planSubtract_released ctx hinv (runEndOf st source.mappingId f)
    (raw.address + raw.requestedSize) raw.completionSequence
  rw [h.planMremapShrink_eq, hplan2, ok_bind] at hplan
  cases hplan
  intro g hg ⟨h1, h2, h3⟩
  have hne := st'.space.layout.nonempty g hg
  -- some byte of the tail would still have an owner
  have hsome : ownerAt st'.space.frags (max g.start (raw.address + raw.count)) = some g.value :=
    (ownerAt_eq_some st'.space.layout).mpr ⟨g, hg, ⟨by omega, by omega⟩, rfl⟩
  rw [hrel.ownerAt, Resizing.frags_cutTail, ownerAt_cutAll st.space.layout] at hsome
  by_cases hrun : max g.start (raw.address + raw.count) < runEndOf st source.mappingId f
  · rw [if_neg (by omega), if_pos ⟨by omega, hrun⟩] at hsome
    cases hsome
  · rw [if_pos ⟨by omega, by omega⟩, if_neg (by omega)] at hsome
    obtain ⟨howner, hseq⟩ := Option.filter_eq_some_iff.mp hsome
    obtain ⟨k, hk, -, hkv⟩ := (ownerAt_eq_some st.space.layout).mp howner
    have := hnewest k hk
    rw [hkv] at this
    simp only [decide_eq_true_eq] at hseq
    omega

/-- In terms of the run, the condition is the shrink branch's guard. -/
theorem runPastNewSize_iff (h : Resizing st raw source f) :
    RunPastNewSize st raw ↔ source.lastSequence < raw.completionSequence ∧
      raw.address + raw.count < runEndOf st source.mappingId f := by
  have hlay := st.space.layout
  have hstart := h.start
  have hne := hlay.nonempty f h.mem
  constructor
  · rintro ⟨k, hk, g, hks, hg, hseq, hbytes⟩
    have hkne := hlay.nonempty k hk
    have hkf : k = f := hlay.eq_of_contains hk h.mem (a := raw.address)
      ⟨by omega, by omega⟩ ⟨by omega, by omega⟩
    subst hkf
    rw [h.own, h.entry] at hg
    cases hg
    refine ⟨hseq, ?_⟩
    by_contra hle
    -- the byte at the end of the run would belong to a fragment that starts before it
    obtain ⟨o, ho, hoid⟩ := hbytes (runEndOf st source.mappingId k)
      (by have := h.lt_runEnd; omega) (by omega)
    obtain ⟨j, hj, ⟨hj1, hj2⟩, hjv⟩ := (ownerAt_eq_some hlay).mp ho
    have hjown : j ∈ piecesOf source.mappingId st.space.frags :=
      mem_piecesOf.mpr ⟨hj, by rw [hjv, hoid, h.own]⟩
    have hjne := h.isRun.stops j hjown
    rcases h.isRun.whole j hjown (by omega) with hstop | ⟨-, hstop⟩
    · have := h.isRun.le
      omega
    · omega
  · rintro ⟨hseq, hlt⟩
    refine ⟨f, h.mem, source, hstart, by rw [h.own]; exact h.entry, hseq, fun a ha hale => ?_⟩
    obtain ⟨k, hk, hka⟩ := h.covered ha (by omega)
    obtain ⟨hk, hkid⟩ := mem_piecesOf.mp hk
    exact ⟨k.value, (ownerAt_eq_some hlay).mpr ⟨k, hk, hka, rfl⟩, by rw [hkid, h.own]⟩

theorem planMremapResize_tail (h : Resizing st raw source f)
    (hnewest : ∀ g ∈ st.space.frags, g.value.sequence < raw.completionSequence)
    {st' : VmState} {records : List VmPlanRecord}
    (hplan : st.planMremapResize ctx raw source f.stop = .ok (st', records)) :
    ¬ TailSurvives st st' raw ↔ TailFree st raw ∨ RunPastNewSize st raw := by
  have hrun : st.space.runEnd (fun owner => owner.mappingId == source.mappingId) f.stop =
      runEndOf st source.mappingId f := IntervalSet.runEnd_eq ..
  have hlt := h.lt_runEnd
  rw [runPastNewSize_iff h]
  unfold planMremapResize at hplan
  simp only [hrun] at hplan
  by_cases hstale : raw.completionSequence ≤ source.lastSequence
  · rw [if_pos hstale] at hplan
    cases hplan
    rw [(Outside.of_space rfl).tailSurvives hnewest, or_iff_left (by omega)]
  rw [if_neg hstale] at hplan
  obtain ⟨htouch, -⟩ := h.touch hstale
  by_cases hgrow : runEndOf st source.mappingId f - raw.address < raw.count
  · rw [if_pos hgrow] at hplan
    have hfrags := planMremapGrow_frags htouch.inv hplan
    have houtside : Outside st st' raw := .of_claim le_rfl hfrags
    rw [houtside.tailSurvives hnewest, or_iff_left (by omega)]
  rw [if_neg hgrow] at hplan
  by_cases hshrink : raw.count < runEndOf st source.mappingId f - raw.address
  · rw [if_pos hshrink] at hplan
    have hgone := planMremapShrink_gone htouch hnewest hplan
    refine iff_of_true ?_ (.inr ⟨by omega, by omega⟩)
    rintro ⟨g, hg, -, hm⟩
    exact hgone g hg hm
  · rw [if_neg hshrink] at hplan
    cases hplan
    have hspace : (st.setSource source.mappingId
        { source with lastSequence := raw.completionSequence }).space = st.space := rfl
    rw [(Outside.of_space hspace).tailSurvives hnewest, or_iff_left (by omega)]

end Resize

/-! ## Every in-place shrink -/

/-- The adopt branch: the base starts no tracked fragment. -/
theorem planMremapAdopt_tail {st : VmState} {ctx : VmContext} {raw : LinuxHeapEvent}
    (hinv : Inv st) (hremap : Remap raw) (hinPlace : raw.resultAddress = raw.address)
    (hnewest : ∀ g ∈ st.space.frags, g.value.sequence < raw.completionSequence)
    (hstart : ∀ g ∈ st.space.frags, g.start ≠ raw.address) {st' : VmState}
    {records : List VmPlanRecord}
    (hplan : st.planMremapAdopt ctx raw = .ok (st', records)) :
    ¬ TailSurvives st st' raw ↔ TailFree st raw ∨ RunPastNewSize st raw := by
  have hrun : ¬ RunPastNewSize st raw := by
    rintro ⟨f, hf, -, hfs, -⟩
    exact hstart f hf hfs
  have hids : st.nextMappingId ≠ maxU64 := by
    intro hids
    rw [planMremapAdopt, planCreate_exhausted hids] at hplan
    cases hplan
  obtain ⟨st1, rs, hok, hcreated⟩ := planCreate_created ctx
    raw.completionSequence hinv (Nat.pos_of_ne_zero hremap.result)
    (Nat.pos_of_ne_zero hremap.count) hremap.range hids
    (createRecord_remap (createStatus_adopted ctx) hremap.result hremap.count hremap.range)
  rw [planMremapAdopt, hok] at hplan
  cases hplan
  have hbelow : raw.resultAddress + raw.count ≤ raw.address + raw.count := by omega
  rw [(Outside.of_claim hbelow hcreated.frags).tailSurvives hnewest, or_iff_left hrun]

/-- From every reachable state, an in-place shrink releases the tail exactly when
nothing was tracked there or the tracked run reaches past the new size. -/
theorem shrink_releases_tail_iff (ctx : VmContext) (monotonicOrigin customDefinitions : ℕ)
    (st : VmState) (raw : LinuxHeapEvent)
    (hreach : Reachable ctx monotonicOrigin customDefinitions st)
    (hraw : ShrinkInPlace monotonicOrigin customDefinitions st raw) :
    planStep ctx st raw = .error exhausted ∨ ∃ st', planStep ctx st raw = .ok st' ∧
      (¬ TailSurvives st st' raw ↔ TailFree st raw ∨ RunPastNewSize st raw) := by
  have hinv := hreach.inv
  have hlay := st.space.layout
  have hremap := accepted_mremap hraw.operation hraw.succeeded hraw.accepted.operation.2
  have hplan : st.planVmEvent ctx raw = st.planMremap ctx raw := by
    unfold planVmEvent
    rw [if_pos hraw.succeeded, hraw.operation]
  unfold planStep
  rw [hplan]
  rcases planMremap_outcome ctx hinv hremap with herr | ⟨st', records, hok, -⟩
  · left
    rw [herr, error_bind]
  right
  refine ⟨st', by rw [hok, ok_bind]; rfl, ?_⟩
  unfold planMremap at hok
  cases hfind : st.space.find raw.address with
  | none =>
      rw [hfind] at hok
      simp only [hraw.inPlace, ne_eq, not_true_eq_false, if_false] at hok
      refine planMremapAdopt_tail hinv hremap hraw.inPlace hraw.newest (fun g hg hgs => ?_) hok
      -- a fragment that starts at the base would have been found
      have hne := hlay.nonempty g hg
      have := IntervalSet.find_eq_some.mpr ⟨hg, (⟨by omega, by omega⟩ : g.Contains raw.address)⟩
      rw [hfind] at this
      cases this
  | some f =>
      obtain ⟨hf, hfc⟩ := IntervalSet.find_eq_some.mp hfind
      obtain ⟨source, hsource, -⟩ := hinv.owner f hf
      have hid := (hinv.ids _ _ hsource).1
      have hanon : source.section_ = false :=
        hraw.notView f.value source ((ownerAt_eq_some hlay).mpr ⟨f, hf, hfc, rfl⟩) hsource
      have hlookup : st.generationFor f.value.mappingId = .ok source := by
        unfold generationFor
        rw [hsource]
      rw [hfind] at hok
      simp only [hlookup, ok_bind, hanon, hraw.inPlace, ne_eq, not_true_eq_false, if_false,
        Bool.false_eq_true] at hok
      by_cases hstart : f.start = raw.address
      · rw [if_pos hstart] at hok
        have hrange := hremap.range
        rw [hraw.inPlace] at hrange
        exact planMremapResize_tail
          ⟨hinv, by rw [hid]; exact hsource, hanon, hf, hid.symm, hstart, hremap.count,
            hremap.oldRange (by omega), hrange⟩ hraw.newest hok
      · rw [if_neg hstart] at hok
        refine planMremapAdopt_tail hinv hremap hraw.inPlace hraw.newest (fun g hg hgs => ?_) hok
        have hne := hlay.nonempty g hg
        have : g = f := hlay.eq_of_contains hg hf (a := raw.address) ⟨by omega, by omega⟩ hfc
        rw [this] at hgs
        exact hstart hgs

/-! ## Two neighbours

Two adjacent mappings, and a call that shrinks both to the first. The run of the
first is exactly the new size, so `plan_mremap_resize` takes the branch without a
release and the second stays. -/

def neighbours : List LinuxHeapEvent := [mmapAt 1 0x1000 0x1000, mmapAt 2 0x2000 0x1000]

def shrinkTo (newSize : ℕ) : LinuxHeapEvent :=
  { queueSequence := 3
    threadId := 7
    apiId := LinuxLogicalHookApi.mremap.apiId
    operation := .vmRemap
    status := .success
    address := 0x1000
    requestedSize := 0x2000
    count := newSize
    resultAddress := 0x1000
    completionSequence := 3 }

theorem neighbours_accepted : ∀ raw ∈ neighbours, AcceptedVm 0 0 raw := by
  intro raw hraw
  fin_cases hraw
  · exact ⟨by decide, 0, by decide⟩
  · exact ⟨by decide, 1, by decide⟩

theorem neighbours_reached : ∃ st, planRun ⟨false, 1⟩ {} neighbours = .ok st ∧
    st.space.frags = [⟨0x1000, 0x2000, ⟨1, 1⟩⟩, ⟨0x2000, 0x3000, ⟨2, 2⟩⟩] ∧
    (st.generations[1]?).map (·.section_) = some false := by
  obtain ⟨st, hrun, hst⟩ := exists_ok_of_map
    (f := fun st : VmState => (st.space.frags, (st.generations[1]?).map (·.section_)))
    (b := ([⟨0x1000, 0x2000, ⟨1, 1⟩⟩, ⟨0x2000, 0x3000, ⟨2, 2⟩⟩], some false))
    (show (planRun ⟨false, 1⟩ {} neighbours).map _ = _ by decide +kernel)
  exact ⟨st, hrun, congrArg Prod.fst hst, congrArg Prod.snd hst⟩

theorem shrinkTo_inPlace {st : VmState} {newSize : ℕ}
    (hvalid : validateRawEvent ⟨0, 0, 2⟩ (shrinkTo newSize) = .ok ()) (hlt : newSize < 0x2000)
    (hfrags : st.space.frags = [⟨0x1000, 0x2000, ⟨1, 1⟩⟩, ⟨0x2000, 0x3000, ⟨2, 2⟩⟩])
    (hgen : (st.generations[1]?).map (·.section_) = some false) :
    ShrinkInPlace 0 0 st (shrinkTo newSize) := by
  refine ⟨⟨.inr (.inr rfl), 2, hvalid⟩, rfl, rfl, rfl, hlt, ?_, ?_⟩
  · rw [hfrags]
    intro f hf
    fin_cases hf <;> simp [shrinkTo]
  · intro o g ho hg
    rw [hfrags] at ho
    have howner : o = ⟨1, 1⟩ := Option.some.inj (ho.symm.trans rfl)
    rw [howner] at hg
    simp only at hg
    rw [hg] at hgen
    exact Option.some.inj hgen

/-- The neighbour outlives the call that unmapped it. -/
theorem shrink_keeps_neighbour :
    ¬ ∀ (ctx : VmContext) (monotonicOrigin customDefinitions : ℕ) (st st' : VmState)
      (raw : LinuxHeapEvent), Reachable ctx monotonicOrigin customDefinitions st →
      ShrinkInPlace monotonicOrigin customDefinitions st raw →
      planStep ctx st raw = .ok st' → ¬ TailSurvives st st' raw := by
  intro hclaim
  obtain ⟨st, hrun, hfrags, hgen⟩ := neighbours_reached
  obtain ⟨st', hrun', hfrags'⟩ := exists_ok_of_map (f := fun st : VmState => st.space.frags)
    (b := [⟨0x1000, 0x2000, ⟨1, 1⟩⟩, ⟨0x2000, 0x3000, ⟨2, 2⟩⟩])
    (show (planRun ⟨false, 1⟩ {} (neighbours ++ [shrinkTo 0x1000])).map _ = _ by decide +kernel)
  have hstep : planStep ⟨false, 1⟩ st (shrinkTo 0x1000) = .ok st' := by
    obtain ⟨mid, hmid, hlast⟩ := foldlM_append_eq_ok.mp hrun'
    rw [show List.foldlM (planStep ⟨false, 1⟩) {} neighbours = .ok st from hrun] at hmid
    cases hmid
    rw [List.foldlM_cons] at hlast
    obtain ⟨last, hlast, hnil⟩ := bind_eq_ok.mp hlast
    cases hnil
    exact hlast
  refine hclaim ⟨false, 1⟩ 0 0 st st' (shrinkTo 0x1000) ⟨neighbours, neighbours_accepted, hrun⟩
    (shrinkTo_inPlace (by decide) (by decide) hfrags hgen) hstep ?_
  refine ⟨⟨0x2000, 0x3000, ⟨2, 2⟩⟩, ?_, ⟨by decide, ⟨0x2000, 0x3000, ⟨2, 2⟩⟩, ?_, le_rfl, le_rfl,
    rfl⟩, by decide⟩
  · rw [hfrags']
    decide
  · rw [hfrags]
    decide

/-- Shrinking into the first mapping does release the tail. -/
theorem shrink_releases_tail_iff_neighbours : ∃ st, planRun ⟨false, 1⟩ {} neighbours = .ok st ∧
    (planStep ⟨false, 1⟩ st (shrinkTo 0x800) = .error exhausted ∨
      ∃ st', planStep ⟨false, 1⟩ st (shrinkTo 0x800) = .ok st' ∧
      (¬ TailSurvives st st' (shrinkTo 0x800) ↔
        TailFree st (shrinkTo 0x800) ∨ RunPastNewSize st (shrinkTo 0x800))) := by
  obtain ⟨st, hrun, hfrags, hgen⟩ := neighbours_reached
  exact ⟨st, hrun, shrink_releases_tail_iff ⟨false, 1⟩ 0 0 st (shrinkTo 0x800)
    ⟨neighbours, neighbours_accepted, hrun⟩
    (shrinkTo_inPlace (by decide) (by decide) hfrags hgen)⟩

end Noleax.Vm
