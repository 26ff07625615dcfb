import Noleax.Vm.Ownership

/-!
# `mremap` with `MREMAP_DONTUNMAP`

The kernel moves the pages and leaves the old range mapped. The hook forwards the
flag and records it, but every move takes the one pair shape of `plan_mremap_pair`,
whose free half releases the old range whatever the flags say.
-/

namespace Noleax.Vm

open Lib Trace Agent VmState

/-- `MREMAP_DONTUNMAP`. -/
def mremapDontUnmap : ℕ := 0x4

abbrev InOldRange (raw : LinuxHeapEvent) (a : ℕ) : Prop :=
  raw.address ≤ a ∧ a < raw.address + raw.requestedSize

abbrev InDestination (raw : LinuxHeapEvent) (a : ℕ) : Prop :=
  raw.resultAddress ≤ a ∧ a < raw.resultAddress + raw.count

/-- A successful moving `mremap` with the flag, newer than all fragments. -/
structure DontUnmapMove (monotonicOrigin customDefinitions : ℕ) (st : VmState)
    (raw : LinuxHeapEvent) : Prop where
  accepted : AcceptedVm monotonicOrigin customDefinitions raw
  succeeded : raw.status = .success
  operation : raw.operation = .vmRemap
  moved : raw.resultAddress ≠ raw.address
  dontUnmap : raw.mapFlags &&& mremapDontUnmap ≠ 0
  newest : ∀ f ∈ st.space.frags, f.value.sequence < raw.completionSequence

/-- What the kernel does: the old range keeps its owners outside the destination,
and the destination is the new generation's. -/
structure KeepsOldRange (st st' : VmState) (raw : LinuxHeapEvent) : Prop where
  source : ∀ a, InOldRange raw a → ¬ InDestination raw a → ∀ o,
    ownerAt st.space.frags a = some o →
      ∃ o', ownerAt st'.space.frags a = some o' ∧ o'.mappingId = o.mappingId
  destination : ∀ a, InDestination raw a →
    ∃ o', ownerAt st'.space.frags a = some o' ∧ o'.mappingId = st.nextMappingId

/-- Nothing is tracked in the old range, the destination apart. -/
def OldRangeUntracked (st : VmState) (raw : LinuxHeapEvent) : Prop :=
  ∀ a, InOldRange raw a → ¬ InDestination raw a → ownerAt st.space.frags a = none

section Pair

variable {st : VmState} {ctx : VmContext} {raw : LinuxHeapEvent}

/-- Every move takes the pair shape. -/
theorem planMremap_moved (ctx : VmContext) (hinv : Inv st)
    (hmoved : raw.resultAddress ≠ raw.address) :
    ∃ sectionSource, st.planMremap ctx raw = st.planMremapPair ctx raw sectionSource := by
  unfold planMremap
  cases hfind : st.space.find raw.address with
  | none => exact ⟨false, if_pos hmoved⟩
  | some f =>
      obtain ⟨hf, -⟩ := IntervalSet.find_eq_some.mp hfind
      obtain ⟨source, hsource, -⟩ := hinv.owner f hf
      have hlookup : st.generationFor f.value.mappingId = .ok source := by
        unfold generationFor
        rw [hsource]
      simp only [hlookup, ok_bind]
      by_cases hview : source.section_ = true
      · exact ⟨true, by rw [if_pos hview]⟩
      · exact ⟨false, by rw [if_neg hview, if_pos hmoved]⟩

/-- The pair is a release of the old range and a create at the destination. -/
theorem planMremapPair_created (hinv : Inv st) (h : Remap raw) {sectionSource : Bool}
    {st' : VmState} {records : List VmPlanRecord}
    (hplan : st.planMremapPair ctx raw sectionSource = .ok (st', records)) :
    ∃ mid freed created,
      Released st mid freed (older raw.completionSequence
        (clipAll raw.address (raw.address + raw.requestedSize) st.space.frags)) ∧
      Created mid st' created raw.resultAddress (raw.resultAddress + raw.count)
        raw.completionSequence sectionSource := by
  obtain ⟨mid, freed, hfree, hrel⟩ := planSubtract_released ctx hinv raw.address
    (raw.address + raw.requestedSize) raw.completionSequence
  unfold planMremapPair at hplan
  rw [hfree, ok_bind] at hplan
  obtain ⟨⟨st2, created⟩, hcreate, hdone⟩ := bind_eq_ok.mp hplan
  cases hdone
  have hids : mid.nextMappingId ≠ maxU64 := by
    intro hids
    rw [planCreate_exhausted hids] at hcreate
    cases hcreate
  have hstatus : CreateStatus
      (if decide (freed ≠ []) then EventStatus.success else adoptedStatus ctx) := by
    split
    · exact .inl rfl
    · exact createStatus_adopted ctx
  obtain ⟨st3, made, hok, hcreated⟩ := planCreate_created ctx raw.completionSequence hrel.inv
    (Nat.pos_of_ne_zero h.result) (Nat.pos_of_ne_zero h.count) h.range hids
    (createRecord_pair ctx hstatus h sectionSource)
  simp only [hok] at hcreate
  cases hcreate
  exact ⟨mid, freed, created, hrel, hcreated⟩

/-- Byte by byte: older owners of the old range are gone, and the destination is the
new generation's where no newer fragment holds it. -/
theorem planMremapPair_ownerAt (hinv : Inv st) (h : Remap raw) {sectionSource : Bool}
    {st' : VmState} {records : List VmPlanRecord}
    (hplan : st.planMremapPair ctx raw sectionSource = .ok (st', records))
    (hnewest : ∀ f ∈ st.space.frags, f.value.sequence < raw.completionSequence) (a : ℕ) :
    ownerAt st'.space.frags a =
      if InDestination raw a then some ⟨st.nextMappingId, raw.completionSequence⟩
      else if InOldRange raw a then none
      else ownerAt st.space.frags a := by
  obtain ⟨mid, freed, created, hrel, hcreated⟩ := planMremapPair_created hinv h hplan
  -- no owner is as new as the event
  have hnone : ∀ o, ownerAt st.space.frags a = some o →
      ¬ raw.completionSequence ≤ o.sequence := by
    intro o ho
    obtain ⟨f, hf, -, rfl⟩ := (ownerAt_eq_some st.space.layout).mp ho
    have := hnewest f hf
    omega
  have hfilter : (ownerAt st.space.frags a).filter
      (fun o => decide (raw.completionSequence ≤ o.sequence)) = none :=
    Option.filter_eq_none_iff.mpr fun o ho => by simpa using hnone o ho
  have hmid : (ownerAt mid.space.frags a).filter
      (fun o => decide (raw.completionSequence ≤ o.sequence)) = none := by
    rw [hrel.ownerAt]
    split
    · rw [hfilter, Option.filter_none]
    · exact hfilter
  rw [hcreated.ownerAt, hrel.next, hmid, Option.getD_none, hrel.ownerAt, hfilter]

end Pair

/-- From every reachable state, a move with the flag keeps the old range exactly when
nothing was tracked there; the destination is always the new generation's. -/
theorem dontUnmap_keeps_iff (ctx : VmContext) (monotonicOrigin customDefinitions : ℕ)
    (st : VmState) (raw : LinuxHeapEvent)
    (hreach : Reachable ctx monotonicOrigin customDefinitions st)
    (hraw : DontUnmapMove monotonicOrigin customDefinitions st raw) :
    planStep ctx st raw = .error exhausted ∨ ∃ st', planStep ctx st raw = .ok st' ∧
      (KeepsOldRange st st' raw ↔ OldRangeUntracked st raw) := by
  have hinv := hreach.inv
  have hremap := accepted_mremap hraw.operation hraw.succeeded hraw.accepted.operation.2
  have hplan : st.planVmEvent ctx raw = st.planMremap ctx raw := by
    unfold planVmEvent
    rw [if_pos hraw.succeeded, hraw.operation]
  unfold planStep
  rw [hplan]
  rcases planMremap_outcome ctx hinv hremap with herr | ⟨st', records, hok, -⟩
  · left
    rw [herr, error_bind]
  right
  refine ⟨st', by rw [hok, ok_bind]; rfl, ?_⟩
  obtain ⟨sectionSource, hpair⟩ := planMremap_moved ctx hinv hraw.moved
  rw [hpair] at hok
  have howner := planMremapPair_ownerAt hinv hremap hok hraw.newest
  constructor
  · intro hkeeps a hold hdest
    cases ho : ownerAt st.space.frags a with
    | none => rfl
    | some o =>
        -- the free half released the byte
        obtain ⟨o', ho', -⟩ := hkeeps.source a hold hdest o ho
        rw [howner, if_neg hdest, if_pos hold] at ho'
        cases ho'
  · intro huntracked
    constructor
    · intro a hold hdest o ho
      rw [huntracked a hold hdest] at ho
      cases ho
    · intro a hdest
      exact ⟨_, by rw [howner, if_pos hdest], rfl⟩

/-! ## One page moved

A tracked page, moved by the only call that accepts the flag: same size, another
address. -/

def moveDontUnmap (size : ℕ) : LinuxHeapEvent :=
  { queueSequence := 3
    threadId := 7
    apiId := LinuxLogicalHookApi.mremap.apiId
    operation := .vmRemap
    status := .success
    address := 0x1000
    requestedSize := size
    count := size
    mapFlags := 0x5
    resultAddress := 0x8000
    completionSequence := 3 }

theorem mmapAt_reached (sequence address size : ℕ)
    (hraw : AcceptedVm 0 0 (mmapAt sequence address size)) {st : VmState}
    (hrun : planRun ⟨false, 1⟩ {} [mmapAt sequence address size] = .ok st) :
    Reachable ⟨false, 1⟩ 0 0 st :=
  ⟨_, fun raw hin => by rw [List.mem_singleton.mp hin]; exact hraw, hrun⟩

theorem moveDontUnmap_move {st : VmState} {size : ℕ}
    (hvalid : validateRawEvent ⟨0, 0, 2⟩ (moveDontUnmap size) = .ok ())
    (hnewest : ∀ f ∈ st.space.frags, f.value.sequence < 3) :
    DontUnmapMove 0 0 st (moveDontUnmap size) :=
  ⟨⟨.inr (.inr rfl), 2, hvalid⟩, rfl, rfl, (by decide : 0x8000 ≠ 0x1000),
    (by decide : 0x5 &&& mremapDontUnmap ≠ 0), hnewest⟩

/-- The move releases the page that is still mapped. -/
theorem dontUnmap_releases_page :
    ¬ ∀ (ctx : VmContext) (monotonicOrigin customDefinitions : ℕ) (st st' : VmState)
      (raw : LinuxHeapEvent), Reachable ctx monotonicOrigin customDefinitions st →
      DontUnmapMove monotonicOrigin customDefinitions st raw →
      planStep ctx st raw = .ok st' → KeepsOldRange st st' raw := by
  intro hclaim
  obtain ⟨st, hrun, hfrags⟩ := exists_ok_of_map (f := fun st : VmState => st.space.frags)
    (b := [⟨0x1000, 0x2000, ⟨1, 1⟩⟩])
    (show (planRun ⟨false, 1⟩ {} [mmapAt 1 0x1000 0x1000]).map _ = _ by decide +kernel)
  obtain ⟨st', hrun', hfrags'⟩ := exists_ok_of_map (f := fun st : VmState => st.space.frags)
    (b := [⟨0x8000, 0x9000, ⟨2, 3⟩⟩])
    (show (planRun ⟨false, 1⟩ {} ([mmapAt 1 0x1000 0x1000] ++ [moveDontUnmap 0x1000])).map _ = _
      by decide +kernel)
  have hstep : planStep ⟨false, 1⟩ st (moveDontUnmap 0x1000) = .ok st' := by
    obtain ⟨mid, hmid, hlast⟩ := foldlM_append_eq_ok.mp hrun'
    rw [show List.foldlM (planStep ⟨false, 1⟩) {} _ = .ok st from hrun] at hmid
    cases hmid
    rw [List.foldlM_cons] at hlast
    obtain ⟨last, hlast, hnil⟩ := bind_eq_ok.mp hlast
    cases hnil
    exact hlast
  have hkeeps := hclaim ⟨false, 1⟩ 0 0 st st' (moveDontUnmap 0x1000)
    (mmapAt_reached 1 0x1000 0x1000 ⟨by decide, 0, by decide⟩ hrun)
    (moveDontUnmap_move (by decide) (by rw [hfrags]; simp)) hstep
  obtain ⟨o', ho', -⟩ := hkeeps.source 0x1000 (by decide) (by decide) ⟨1, 1⟩ (by
    rw [hfrags]
    decide)
  rw [hfrags'] at ho'
  cases ho'

/-- A move of a range that was never tracked agrees with the kernel. -/
theorem dontUnmap_keeps_iff_untracked : ∃ st,
    planRun ⟨false, 1⟩ {} [mmapAt 1 0x4000 0x1000] = .ok st ∧
    (planStep ⟨false, 1⟩ st (moveDontUnmap 0x1000) = .error exhausted ∨
      ∃ st', planStep ⟨false, 1⟩ st (moveDontUnmap 0x1000) = .ok st' ∧
      (KeepsOldRange st st' (moveDontUnmap 0x1000) ↔
        OldRangeUntracked st (moveDontUnmap 0x1000))) := by
  obtain ⟨st, hrun, hfrags⟩ := exists_ok_of_map (f := fun st : VmState => st.space.frags)
    (b := [⟨0x4000, 0x5000, ⟨1, 1⟩⟩])
    (show (planRun ⟨false, 1⟩ {} [mmapAt 1 0x4000 0x1000]).map _ = _ by decide +kernel)
  exact ⟨st, hrun, dontUnmap_keeps_iff ⟨false, 1⟩ 0 0 st (moveDontUnmap 0x1000)
    (mmapAt_reached 1 0x4000 0x1000 ⟨by decide, 0, by decide⟩ hrun)
    (moveDontUnmap_move (by decide) (by rw [hfrags]; simp))⟩

end Noleax.Vm
