import Noleax.Vm.Release

/-!
# `plan_create_space` and the creating operations

A create evicts the older pieces of its range, claims what the newer ones leave
free, and then gives the newer pieces back record by record. On the machine the
order is different (claim all, trim), and `eraseAll_place` is why both ends meet.
-/

namespace Noleax.Vm

open Lib Trace Agent VmState

/-- The pieces of the range that a newer syscall already owns. -/
def stalePieces (seq b e : ℕ) (fs : List Piece) : List Piece :=
  (clipAll b e fs).filter fun piece => seq ≤ piece.value.sequence

theorem insertOwned_eq (owner : LiveFragmentOwner) (stop : ℕ) (stale : List Piece) (cursor : ℕ)
    (space : IntervalSet LiveFragmentOwner) (owned : ℕ)
    (hstale : Tiles cursor stop stale) :
    (insertOwned owner stop cursor stale (space, owned)).1.frags =
        fillGaps owner stop cursor stale space.frags ∧
      (insertOwned owner stop cursor stale (space, owned)).2 =
        owned + gapBytes stop cursor stale := by
  induction stale generalizing cursor space owned with
  | nil =>
      unfold insertOwned fillGaps gapBytes
      split
      · rename_i hlt
        exact ⟨IntervalSet.insert_frags _ hlt _, rfl⟩
      · exact ⟨rfl, by simp only; omega⟩
  | cons p stale ih =>
      have hlow := hstale.lower p (by simp)
      unfold insertOwned fillGaps gapBytes
      split
      · rename_i hlt
        obtain ⟨h1, h2⟩ := ih p.stop (space.insert cursor p.start owner).1
          (owned + (p.start - cursor)) hstale.tail
        rw [h1, h2, IntervalSet.insert_frags _ hlt]
        exact ⟨rfl, by omega⟩
      · obtain ⟨h1, h2⟩ := ih p.stop space owned hstale.tail
        rw [h1, h2]
        exact ⟨rfl, by omega⟩

theorem tiles_stale {fs : List Piece} (h : Layout fs) (seq b e : ℕ) :
    Tiles b e (stalePieces seq b e fs) := (Tiles.of_clipAll h b e).filter _

/-- Once the older pieces are gone, what the stale ones leave is free. -/
theorem gapsFree_of_released {fs : List Piece} (h : Layout fs) (seq b e : ℕ) :
    GapsFree (eraseAll (older seq (clipAll b e fs)) fs) e b (stalePieces seq b e fs) := by
  intro a ha hae hout f hf hfa
  obtain ⟨k, hk, hks, hkt, -⟩ := mem_eraseAll h hf
  -- the part of `k` in the range contains `a`, so it was released or is stale
  have hm : k.Meets b e := by
    have := hfa.1
    have := hfa.2
    exact ⟨by omega, by omega, by omega⟩
  let p : Piece := ⟨max k.start b, min k.stop e, k.value⟩
  have hp : p ∈ clipAll b e fs :=
    mem_clipAll.mpr ⟨k, hk, by rw [Fragment.clip, if_pos hm]; simp [p]⟩
  have hpa : p.Contains a := by
    have := hfa.1
    have := hfa.2
    simp only [Fragment.Contains, p]
    omega
  by_cases hseq : p.value.sequence < seq
  · have hnone : ownerAt (eraseAll (older seq (clipAll b e fs)) fs) a = none := by
      rw [ownerAt_eraseAll _ h, if_pos ⟨p, mem_older.mpr ⟨hp, hseq⟩, hpa⟩]
    exact ownerAt_eq_none.mp hnone f hf hfa
  · exact hout p (List.mem_filter.mpr ⟨hp, by simpa using hseq⟩) hpa

/-! ## `plan_create_space` -/

/-- The result of `plan_create_space`: `released` evicts, then the gaps are
claimed for `id`. -/
structure Claimed (st : VmState) (space : CreateSpace) (released : VmState)
    (b e seq id : ℕ) : Prop where
  rel : Released st released space.records (older seq (clipAll b e st.space.frags))
  stale : space.stale = stalePieces seq b e st.space.frags
  frags : space.state.space.frags =
    fillGaps ⟨id, seq⟩ e b (stalePieces seq b e st.space.frags) released.space.frags
  owned : space.ownedBytes = gapBytes e b (stalePieces seq b e st.space.frags)
  gens : space.state.generations = released.generations
  next : space.state.nextMappingId = released.nextMappingId

theorem planCreateSpace_claimed {st : VmState} (ctx : VmContext) (hinv : Inv st)
    (b e seq id : ℕ) :
    ∃ space released, st.planCreateSpace ctx b e seq id = .ok space ∧
      Claimed st space released b e seq id := by
  obtain ⟨released, records, hplan, hrel⟩ := planSubtract_released ctx hinv b e seq
  have hlay := st.space.layout
  have hstale : ((st.space.intersections b e).filter fun piece =>
      decide (seq ≤ piece.value.sequence)) = stalePieces seq b e st.space.frags := by
    rw [IntervalSet.intersections_eq]
    rfl
  obtain ⟨h1, h2⟩ := insertOwned_eq ⟨id, seq⟩ e (stalePieces seq b e st.space.frags) b
    released.space 0 (tiles_stale hlay seq b e)
  unfold planCreateSpace
  rw [hplan, ok_bind]
  simp only [hstale]
  exact ⟨_, released, rfl, hrel, rfl, h1, by rw [h2, Nat.zero_add], rfl, rfl⟩

section Claim

variable {st released : VmState} {space : CreateSpace} {b e seq id : ℕ}

theorem Claimed.gapsFree (h : Claimed st space released b e seq id) :
    GapsFree released.space.frags e b (stalePieces seq b e st.space.frags) := by
  rw [h.rel.space]
  exact gapsFree_of_released st.space.layout seq b e

theorem Claimed.piecesOf (h : Claimed st space released b e seq id) (k : ℕ) :
    Vm.piecesOf k space.state.space.frags =
      if k = id then
        fillGaps ⟨id, seq⟩ e b (stalePieces seq b e st.space.frags)
          (Vm.piecesOf k released.space.frags)
      else Vm.piecesOf k released.space.frags := by
  have hspec := (fillGaps_spec (v := (⟨id, seq⟩ : LiveFragmentOwner)) released.space.layout
    (tiles_stale st.space.layout seq b e) h.gapsFree).2.1 fun o => o.mappingId == k
  unfold Vm.piecesOf
  rw [h.frags, hspec]
  simp only [beq_iff_eq]
  simp only [eq_comm]

/-- The new bytes of the claiming generation. -/
theorem Claimed.bytes (h : Claimed st space released b e seq id) :
    totalBytes (Vm.piecesOf id space.state.space.frags) =
      totalBytes (Vm.piecesOf id released.space.frags) + space.ownedBytes := by
  have hfree : GapsFree (Vm.piecesOf id released.space.frags) e b
      (stalePieces seq b e st.space.frags) := fun a h1 h2 h3 f hf =>
    h.gapsFree a h1 h2 h3 f (mem_piecesOf.mp hf).1
  rw [h.piecesOf, if_pos rfl, h.owned]
  exact (fillGaps_spec (layout_piecesOf released.space.layout id)
    (tiles_stale st.space.layout seq b e) hfree).2.2

theorem Claimed.fragmentsOf (h : Claimed st space released b e seq id) :
    Vm.fragmentsOf id space.state.space.frags =
      fillGaps () e b (stalePieces seq b e st.space.frags)
        (Vm.fragmentsOf id released.space.frags) := by
  unfold Vm.fragmentsOf
  rw [h.piecesOf, if_pos rfl, map_fillGaps]

/-- A claimed piece is new or was there before. -/
theorem mem_fillGaps {v : LiveFragmentOwner} {stop cursor : ℕ} {ps fs : List Piece} {f : Piece}
    (hl : Layout fs) (hps : Tiles cursor stop ps) (hfree : GapsFree fs stop cursor ps)
    (hf : f ∈ fillGaps v stop cursor ps fs) :
    f ∈ fs ∨ (f.value = v ∧ cursor ≤ f.start ∧ f.stop ≤ stop) := by
  induction ps generalizing cursor fs with
  | nil =>
      unfold fillGaps at hf
      split at hf
      · rename_i hlt
        have hcut : cutAll cursor stop fs = fs :=
          cutAll_of_disjoint (hfree.not_meets hl le_rfl (by simp))
        rw [hcut] at hf
        rcases mem_place.mp hf with rfl | hf
        · exact .inr ⟨rfl, le_rfl, le_rfl⟩
        · exact .inl hf
      · exact .inl hf
  | cons p ps ih =>
      have hlow := hps.lower p (by simp)
      have hupp := hps.upper p (by simp)
      obtain ⟨hne, hnext, -⟩ := Layout.cons_iff.mp hps.layout
      have hmin : ∀ q ∈ p :: ps, p.start ≤ q.start := by
        intro q hq
        rcases List.mem_cons.mp hq with rfl | hq
        · exact le_rfl
        · have := hnext q hq
          omega
      have htail := hfree.tail (v := v) hps
      unfold fillGaps at hf
      by_cases hlt : cursor < p.start
      · have hno := hfree.not_meets hl (show p.start ≤ stop by omega) hmin
        rw [if_pos hlt, cutAll_of_disjoint hno] at hf
        rw [if_pos hlt] at htail
        rcases ih (hl.place_of_disjoint hlt hno) hps.tail htail hf with hf | ⟨h1, h2, h3⟩
        · rcases mem_place.mp hf with rfl | hf
          · exact .inr ⟨rfl, le_rfl, by simp only; omega⟩
          · exact .inl hf
        · exact .inr ⟨h1, by omega, h3⟩
      · rw [if_neg hlt] at hf htail
        rcases ih hl hps.tail htail hf with hf | ⟨h1, h2, h3⟩
        · exact .inl hf
        · exact .inr ⟨h1, by omega, h3⟩

theorem Claimed.mem (h : Claimed st space released b e seq id) {f : Piece}
    (hf : f ∈ space.state.space.frags) :
    f ∈ released.space.frags ∨ (f.value = ⟨id, seq⟩ ∧ b ≤ f.start ∧ f.stop ≤ e) := by
  rw [h.frags] at hf
  exact mem_fillGaps released.space.layout (tiles_stale st.space.layout seq b e) h.gapsFree hf

end Claim

/-! ## Creating a generation -/

/-- The id the next create takes is in no fragment and no entry. -/
theorem Inv.fresh {st : VmState} (hinv : Inv st) :
    st.generations[st.nextMappingId]? = none ∧ piecesOf st.nextMappingId st.space.frags = [] := by
  have hnone : st.generations[st.nextMappingId]? = none := by
    cases hg : st.generations[st.nextMappingId]? with
    | none => rfl
    | some g =>
        have := (hinv.ids _ g hg).2.2
        omega
  refine ⟨hnone, List.eq_nil_iff_forall_not_mem.mpr fun f hf => ?_⟩
  obtain ⟨hf, hid⟩ := mem_piecesOf.mp hf
  obtain ⟨g, hg, -⟩ := hinv.owner f hf
  rw [hid, hnone] at hg
  simp at hg

theorem Inv.setNext {st : VmState} (hinv : Inv st) {n : ℕ} (hle : st.nextMappingId ≤ n)
    (hmax : n ≤ maxU64) : Inv { st with nextMappingId := n } :=
  ⟨hinv.owner, hinv.bytes, fun id g hg => by
    obtain ⟨h1, h2, h3⟩ := hinv.ids id g hg
    exact ⟨h1, h2, h3.trans_le hle⟩, hinv.range, hinv.next.1.trans_le hle, hmax⟩

/-- What a successful create leaves behind. -/
structure Created (st st' : VmState) (records : List VmPlanRecord) (b e seq : ℕ)
    (isSection : Bool) : Prop where
  inv : Inv st'
  next : st'.nextMappingId = st.nextMappingId + 1
  steps : Steps ⟨liveOf st, st.nextMappingId⟩ records ⟨liveOf st', st'.nextMappingId⟩
  nonempty : records ≠ []
  frags : st'.space.frags =
    fillGaps ⟨st.nextMappingId, seq⟩ e b (stalePieces seq b e st.space.frags)
      (eraseAll (older seq (clipAll b e st.space.frags)) st.space.frags)
  entry : st'.generations[st.nextMappingId]? =
    leftEntry
      { mappingId := st.nextMappingId
        base := b
        lastSequence := seq
        section_ := isSection }
      (gapBytes e b (stalePieces seq b e st.space.frags))
  /-- Every other generation only changed its byte count. -/
  gens : ∀ (id : ℕ) (g' : LiveMappingGeneration), id ≠ st.nextMappingId →
    st'.generations[id]? = some g' → ∃ g : LiveMappingGeneration,
      st.generations[id]? = some g ∧ g' = { g with liveBytes := g'.liveBytes }

/-- The create record starts a generation with the whole range. -/
def CreateRecord (record : ℕ → VmPlanRecord) (isSection : Bool) (base size : ℕ) : Prop :=
  ∀ (m : Model) (id : ℕ), m.next ≤ id → id < maxU64 → 0 < id → m.live id = none →
    Step m (record id)
      ⟨Function.update m.live id (some ⟨isSection, base, [⟨base, base + size, ()⟩]⟩), id + 1⟩

theorem planCreate_created {st : VmState} (ctx : VmContext) {base size : ℕ} (seq : ℕ)
    {isSection : Bool} {record : ℕ → VmPlanRecord} (hinv : Inv st) (hbase : 0 < base)
    (hsize : 0 < size) (hrange : base + size ≤ maxU64) (hids : st.nextMappingId ≠ maxU64)
    (hrecord : CreateRecord record isSection base size) :
    ∃ st' records, st.planCreate ctx base size seq isSection record = .ok (st', records) ∧
      Created st st' records base (base + size) seq isSection := by
  have hnext := hinv.next
  set id := st.nextMappingId with hid
  set st0 : VmState := { st with nextMappingId := id + 1 } with hst0
  have hinv0 : Inv st0 := hinv.setNext (by omega) (by omega)
  obtain ⟨space, released, hspace, hclaim⟩ :=
    planCreateSpace_claimed ctx hinv0 base (base + size) seq id
  obtain ⟨hnone, hnopieces⟩ := hinv.fresh
  have hrelease := hclaim.rel
  have hinv1 := hrelease.inv
  have hlay := st.space.layout
  -- the fresh id is still unused after the evictions
  have hnone1 : released.generations[id]? = none := by
    cases hg : released.generations[id]? with
    | none => rfl
    | some g' =>
        obtain ⟨g, hg0, -⟩ := hrelease.gens id g' hg
        rw [show st0.generations = st.generations from rfl, hnone] at hg0
        simp at hg0
  have hpieces1 : piecesOf id released.space.frags = [] := by
    rw [hrelease.space, piecesOf_eraseAll hlay,
      show piecesOf id st0.space.frags = [] from hnopieces, eraseAll_nil_right]
  have hfrags1 : fragmentsOf id released.space.frags = [] := fragmentsOf_eq_nil.mpr hpieces1
  set generation : LiveMappingGeneration :=
    { mappingId := id
      base := base
      liveBytes := space.ownedBytes
      lastSequence := seq
      section_ := isSection } with hgen
  set st' : VmState := space.state.trackGeneration generation with hst'
  have hspace' : st'.space = space.state.space := by
    rw [hst', trackGeneration]
    split <;> rfl
  have hnext' : st'.nextMappingId = id + 1 := by
    have : st'.nextMappingId = space.state.nextMappingId := by
      rw [hst', trackGeneration]
      split <;> rfl
    rw [this, hclaim.next, hrelease.next]
  have hbytes : space.ownedBytes = totalBytes (fragmentsOf id st'.space.frags) := by
    rw [hspace', totalBytes_fragmentsOf, hclaim.bytes, hpieces1]
    simp
  have hchanged : Changed id released st' (leftEntry generation space.ownedBytes) := by
    refine ⟨?_, ?_, ?_, ?_, ?_, ?_⟩
    · intro k
      rw [hst', trackGeneration, leftEntry]
      by_cases hz : space.ownedBytes = 0
      · rw [if_pos hz, if_pos hz, hclaim.gens]
        split
        · rename_i hk
          rw [hk, hnone1]
        · rfl
      · rw [if_neg hz, if_neg hz]
        simp only [hclaim.gens, Std.ExtTreeMap.getElem?_insertIfNew, Nat.compare_eq_eq]
        by_cases hk : k = id
        · subst hk
          rw [if_pos rfl, if_pos ⟨rfl, by
            rw [Std.ExtTreeMap.mem_iff_isSome_getElem?, hnone1]
            simp⟩]
        · rw [if_neg hk, if_neg fun h => hk h.1.symm]
    · intro k hk
      rw [hspace', hclaim.piecesOf, if_neg hk]
    · intro f hf
      have hne : space.ownedBytes ≠ 0 := by
        rw [hbytes]
        intro hz
        have hnil := (totalBytes_eq_zero (layout_fragmentsOf st'.space.layout id)).mp hz
        rw [fragmentsOf_eq_nil.mp hnil] at hf
        simp at hf
      rw [leftEntry, if_neg hne]
      obtain ⟨hf, hfid⟩ := mem_piecesOf.mp hf
      rw [hspace'] at hf
      rcases hclaim.mem hf with hf | ⟨hv, hlo, hhi⟩
      · have : f ∈ piecesOf id released.space.frags := mem_piecesOf.mpr ⟨hf, hfid⟩
        rw [hpieces1] at this
        simp at this
      · exact ⟨_, rfl, hlo, by rw [hv], by omega, by omega⟩
    · intro g hg
      rw [leftEntry] at hg
      split at hg
      · simp at hg
      · rename_i hz
        cases hg
        exact ⟨hbytes, Nat.pos_of_ne_zero hz⟩
    · intro g hg
      rw [leftEntry] at hg
      split at hg
      · simp at hg
      · cases hg
        exact ⟨rfl, by omega, by omega⟩
    · rw [hnext', hrelease.next]
      exact ⟨le_rfl, hinv0.next.2⟩
  refine ⟨st', space.records ++ record id :: trimRecords ctx id space.stale, ?_, ?_⟩
  · unfold planCreate takeMappingId
    rw [if_neg hids, ok_bind]
    simp only [← hid, ← hst0]
    rw [hspace, ok_bind]
    rfl
  refine ⟨hchanged.inv hinv1, hnext', ?_, by simp, ?_, ?_, ?_⟩
  · -- evictions, then the create record, then the trims
    have hevict : Steps ⟨liveOf st, id⟩ space.records ⟨liveOf released, id⟩ := hrelease.steps id
    have hlive1 : liveOf released id = none := by
      unfold liveOf
      rw [hnone1]
      rfl
    have hcreate := hrecord ⟨liveOf released, id⟩ id le_rfl (by omega) (by omega) hlive1
    refine hevict.append (.cons hcreate ?_)
    rw [hclaim.stale, hnext']
    have htiles := tiles_stale hlay seq base (base + size)
    have htrim := Steps.releases ctx id
      (m := ⟨Function.update (liveOf released) id
        (some ⟨isSection, base, [⟨base, base + size, ()⟩]⟩), id + 1⟩)
      (stalePieces seq base (base + size) st.space.frags)
      (Function.update_self ..) (by omega)
      (Layout.cons_iff.mpr ⟨by simp only; omega, by simp, .nil⟩) (by simp) htiles.layout
      (fun p hp => ⟨htiles.layout.nonempty p hp, _, List.mem_singleton_self _,
        htiles.lower p hp, htiles.upper p hp, rfl⟩)
      (fun p hp => (htiles.upper p hp).trans hrange)
    have hgaps : eraseAll (stalePieces seq base (base + size) st.space.frags)
        [(⟨base, base + size, ()⟩ : Fragment Unit)] = fragmentsOf id st'.space.frags := by
      rw [hspace', hclaim.fragmentsOf, hfrags1]
      exact eraseAll_place .nil (by omega) (by simp) htiles
    have hmodel := hchanged.model
    rw [leftEntry_map (g := ⟨isSection, base, [⟨base, base + size, ()⟩]⟩) rfl hbytes
      (layout_fragmentsOf st'.space.layout id)] at hmodel
    simp only [hgaps, Model.set, Function.update_idem] at htrim
    rw [← hmodel] at htrim
    exact htrim
  · rw [hspace', hclaim.frags, hrelease.space]
  · rw [hchanged.gens, if_pos rfl, hclaim.owned]
    unfold leftEntry
    rw [hgen]
  · intro k g' hk hg'
    rw [hchanged.gens, if_neg hk] at hg'
    exact hrelease.gens k g' hg'

end Noleax.Vm
