import Noleax.Vm.Create

/-!
# In-place `mremap`

The writer measures the contiguous run of the generation's fragments from the
base and extends it, cuts its tail, or leaves it; one record with the same
mapping id tells the analyzer to do the same to its own run.
-/

namespace Noleax.Vm

open Lib Trace Agent VmState

/-- What `plan_mremap` knows when it calls `plan_mremap_resize`. -/
structure Resizing (st : VmState) (raw : LinuxHeapEvent) (source : LiveMappingGeneration)
    (f : Piece) : Prop where
  inv : Inv st
  entry : st.generations[source.mappingId]? = some source
  anonymous : source.section_ = false
  mem : f ∈ st.space.frags
  own : f.value.mappingId = source.mappingId
  start : f.start = raw.address
  count : raw.count ≠ 0
  oldRange : raw.address + raw.requestedSize ≤ maxU64
  newRange : raw.address + raw.count ≤ maxU64

/-- The end of the resized run. -/
def runEndOf (st : VmState) (id : ℕ) (f : Piece) : ℕ :=
  runFrom f.stop (piecesOf id st.space.frags)

section Record

variable {st : VmState} (ctx : VmContext) {raw : LinuxHeapEvent} {state : LiveMappingGeneration}

/-- The resize record, at any state in which the base still starts a fragment of
the generation. -/
theorem step_resizeRecord {f : Piece} (n size : ℕ) (hinv : Inv st)
    (hstate : st.generations[state.mappingId]? = some state) (hanon : state.section_ = false)
    (hf : f ∈ piecesOf state.mappingId st.space.frags) (hstart : f.start = raw.address)
    (hsize : size ≠ 0) (hrange : raw.address + size ≤ maxU64) :
    Step ⟨liveOf st, n⟩ (resizeRecord ctx raw state.mappingId size)
      ((⟨liveOf st, n⟩ : Model).set state.mappingId (some { viewOf st state with
        frags := resizedFrags (fragmentsOf state.mappingId st.space.frags)
          (f.map fun _ => ()) size })) := by
  obtain ⟨hmem, hid⟩ := mem_piecesOf.mp hf
  obtain ⟨g, hg, hbase, -⟩ := hinv.owner f hmem
  rw [hid, hstate] at hg
  cases hg
  refine Step.resize (g := viewOf st state) (f := f.map fun _ => ()) rfl
    (hinv.ids _ _ hstate).2.1.ne' (liveOf_eq hstate) hanon ?_ ?_ ?_ ?_ hsize ?_
  · exact List.mem_map_of_mem hf
  · exact hstart.symm
  · exact hbase
  · exact (hinv.range f hmem).1.ne'
  · rw [Fragment.map_start, hstart]
    exact hrange

end Record

namespace Resizing

variable {st : VmState} {ctx : VmContext} {raw : LinuxHeapEvent} {source : LiveMappingGeneration}
  {f : Piece}

theorem mem_own (h : Resizing st raw source f) : f ∈ piecesOf source.mappingId st.space.frags :=
  mem_piecesOf.mpr ⟨h.mem, h.own⟩

theorem isRun (h : Resizing st raw source f) :
    IsRun f.stop (runEndOf st source.mappingId f) (piecesOf source.mappingId st.space.frags) :=
  (layout_piecesOf st.space.layout _).isRun h.mem_own

theorem runEnd_le (h : Resizing st raw source f) :
    runEndOf st source.mappingId f ≤ maxU64 :=
  h.isRun.le_of_forall (h.inv.range f h.mem).2 fun g hg =>
    (h.inv.range g (mem_piecesOf.mp hg).1).2

theorem lt_runEnd (h : Resizing st raw source f) :
    raw.address < runEndOf st source.mappingId f := by
  have h1 := st.space.layout.nonempty f h.mem
  have h2 := h.isRun.le
  have h3 := h.start
  omega

/-- Every byte of the run is the generation's. -/
theorem covered (h : Resizing st raw source f) {a : ℕ} (ha : raw.address ≤ a)
    (har : a < runEndOf st source.mappingId f) :
    ∃ g ∈ piecesOf source.mappingId st.space.frags, g.Contains a := by
  have hstart := h.start
  by_cases hf : a < f.stop
  · exact ⟨f, h.mem_own, by omega, hf⟩
  · exact h.isRun.covered a (by omega) har

/-- A fragment that meets the run belongs to the generation. -/
theorem own_of_meets (h : Resizing st raw source f) {g : Piece} (hg : g ∈ st.space.frags)
    {b : ℕ} (hb : raw.address ≤ b) (hm : g.Meets b (runEndOf st source.mappingId f)) :
    g.value.mappingId = source.mappingId := by
  have hne := st.space.layout.nonempty g hg
  obtain ⟨h1, h2, h3⟩ := hm
  obtain ⟨k, hk, hc⟩ := h.covered (a := max g.start b) (by omega) (by omega)
  obtain ⟨hk, hid⟩ := mem_piecesOf.mp hk
  have : k = g := st.space.layout.eq_of_contains hk hg hc ⟨by omega, by omega⟩
  rw [← this]
  exact hid

/-- With the run as it is, the record changes nothing. -/
theorem resizedFrags_self (h : Resizing st raw source f) :
    resizedFrags (fragmentsOf source.mappingId st.space.frags) (f.map fun _ => ())
      (runEndOf st source.mappingId f - raw.address) =
      fragmentsOf source.mappingId st.space.frags := by
  have hrun : runFrom f.stop (fragmentsOf source.mappingId st.space.frags) =
      runEndOf st source.mappingId f := by
    unfold fragmentsOf runEndOf
    rw [runFrom_map]
  unfold resizedFrags
  simp only [Fragment.map_start, Fragment.map_stop, hrun, h.start]
  rw [if_neg (lt_irrefl _), if_neg (lt_irrefl _)]

theorem steps_noop (h : Resizing st raw source f) (n : ℕ) :
    Steps ⟨liveOf st, n⟩
      [resizeRecord ctx raw source.mappingId (runEndOf st source.mappingId f - raw.address)]
      ⟨liveOf st, n⟩ := by
  have hlt := h.lt_runEnd
  have hle := h.runEnd_le
  have hstep := step_resizeRecord ctx n (runEndOf st source.mappingId f - raw.address) h.inv h.entry
    h.anonymous h.mem_own h.start (by omega) (by omega)
  rw [h.resizedFrags_self] at hstep
  have hself : ((⟨liveOf st, n⟩ : Model).set source.mappingId (some { viewOf st source with
      frags := fragmentsOf source.mappingId st.space.frags })) = ⟨liveOf st, n⟩ :=
    Model.set_self (liveOf_eq h.entry)
  rw [hself] at hstep
  exact .single hstep

/-- A release past the run leaves the base, the entry and the run. -/
theorem kept (h : Resizing st raw source f) {st1 : VmState} {records : List VmPlanRecord}
    {ps : List Piece} (hrel : Released st st1 records ps)
    (hpast : ∀ p ∈ ps, runEndOf st source.mappingId f ≤ p.start) :
    f ∈ piecesOf source.mappingId st1.space.frags ∧
    runFrom f.stop (fragmentsOf source.mappingId st1.space.frags) =
      runEndOf st source.mappingId f ∧
    ∃ source1 : LiveMappingGeneration, st1.generations[source.mappingId]? = some source1 ∧
      source1 = { source with liveBytes := source1.liveBytes } := by
  have hlay := layout_piecesOf st.space.layout source.mappingId
  have hfstop := h.isRun.le
  have hpieces : piecesOf source.mappingId st1.space.frags =
      eraseAll ps (piecesOf source.mappingId st.space.frags) := by
    rw [hrel.space, piecesOf_eraseAll st.space.layout]
  have hf : f ∈ piecesOf source.mappingId st1.space.frags := by
    rw [hpieces]
    refine mem_eraseAll_of_disjoint h.mem_own fun p hp hm => ?_
    have := hpast p hp
    have := hm.2.1
    omega
  refine ⟨hf, ?_, ?_⟩
  · unfold fragmentsOf
    rw [runFrom_map]
    refine ((layout_piecesOf st1.space.layout _).isRun hf).unique ?_
    rw [hpieces]
    exact h.isRun.eraseAll hlay hpast
  · obtain ⟨source1, hsource1, -⟩ := hrel.inv.owner f (mem_piecesOf.mp hf).1
    rw [h.own] at hsource1
    obtain ⟨source0, hsource0, hkeep⟩ := hrel.gens _ source1 hsource1
    rw [h.entry] at hsource0
    cases hsource0
    exact ⟨source1, hsource1, hkeep⟩

/-- Recording the newer sequence keeps everything but the entry's sequence. -/
theorem touch (h : Resizing st raw source f)
    (hnew : ¬ raw.completionSequence ≤ source.lastSequence) :
    Resizing (st.setSource source.mappingId
        { source with lastSequence := raw.completionSequence }) raw
      { source with lastSequence := raw.completionSequence } f ∧
    liveOf (st.setSource source.mappingId
      { source with lastSequence := raw.completionSequence }) = liveOf st := by
  obtain ⟨hbytes, hpos⟩ := h.inv.bytes _ _ h.entry
  obtain ⟨hmid, hidpos, hidlt⟩ := h.inv.ids _ _ h.entry
  have hchanged : Changed source.mappingId st
      (st.setSource source.mappingId { source with lastSequence := raw.completionSequence })
      (some { source with lastSequence := raw.completionSequence }) := by
    refine ⟨fun k => ?_, fun _ _ => rfl, fun g hg => ?_, fun g hg => ?_, fun g hg => ?_,
      le_rfl, h.inv.next.2⟩
    · unfold setSource
      simp only [Std.ExtTreeMap.getElem?_insert, Nat.compare_eq_eq]
      simp only [eq_comm]
    · obtain ⟨hg, hid⟩ := mem_piecesOf.mp hg
      obtain ⟨k, hk, hbase, hseq⟩ := h.inv.owner g hg
      rw [hid, h.entry] at hk
      cases hk
      have := h.inv.range g hg
      exact ⟨_, rfl, hbase, by simp only; omega, this⟩
    · cases hg
      exact ⟨hbytes, hpos⟩
    · cases hg
      exact ⟨rfl, hidpos, hidlt⟩
  refine ⟨⟨hchanged.inv h.inv, ?_, h.anonymous, h.mem, h.own, h.start, h.count, h.oldRange,
    h.newRange⟩, ?_⟩
  · rw [hchanged.gens, if_pos rfl]
  · rw [hchanged.model]
    refine Function.update_eq_self_iff.mpr ?_
    exact (liveOf_eq h.entry).symm

end Resizing

/-! ## Growing -/

/-- A state reached from `st` by an in-place `mremap`. -/
structure Replayed (st st' : VmState) (records : List VmPlanRecord) : Prop where
  inv : Inv st'
  steps : Steps ⟨liveOf st, st.nextMappingId⟩ records ⟨liveOf st', st'.nextMappingId⟩
  nonempty : records ≠ []

namespace Resizing

variable {st : VmState} {ctx : VmContext} {raw : LinuxHeapEvent} {source : LiveMappingGeneration}
  {f : Piece}

theorem grow (ctx : VmContext) (h : Resizing st raw source f)
    (hlast : source.lastSequence = raw.completionSequence)
    (holder : ∀ g ∈ piecesOf source.mappingId st.space.frags,
      g.value.sequence < raw.completionSequence)
    (hgrow : runEndOf st source.mappingId f - raw.address < raw.count) :
    ∃ st' records, st.planMremapGrow ctx raw source.mappingId
        (runEndOf st source.mappingId f) = .ok (st', records) ∧ Replayed st st' records := by
  set id := source.mappingId with hid
  set r := runEndOf st id f with hr
  set e := raw.address + raw.count with he
  set seq := raw.completionSequence
  have hlt := h.lt_runEnd
  have hrun := h.isRun
  rw [← hid, ← hr] at hlt hrun
  have hre : r < e := by omega
  have hlay := st.space.layout
  obtain ⟨space, released, hspace, hclaim⟩ := planCreateSpace_claimed ctx h.inv r e seq id
  have hrel := hclaim.rel
  -- the evicted pieces start at or after the end of the run
  have hpast : ∀ p ∈ older seq (clipAll r e st.space.frags), r ≤ p.start := by
    intro p hp
    exact (Tiles.of_clipAll hlay r e).lower p (mem_older.mp hp).1
  obtain ⟨hf1own, hrun1, source1, hsource1, hkeep⟩ := h.kept hrel hpast
  rw [← hid] at hf1own hrun1 hsource1
  rw [← hr] at hrun1
  have hfstop := hrun.le
  have hfne := hlay.nonempty f h.mem
  have hf1 : f ∈ released.space.frags := (mem_piecesOf.mp hf1own).1
  have hid1 : source1.mappingId = id := by rw [hkeep]
  have hanon1 : source1.section_ = false := by rw [hkeep]; exact h.anonymous
  -- no own fragment is left in the extension
  have hown1 : piecesOf id released.space.frags =
      eraseAll (older seq (clipAll r e st.space.frags)) (piecesOf id st.space.frags) := by
    rw [hrel.space, piecesOf_eraseAll hlay]
  have hclear : ∀ g ∈ piecesOf id released.space.frags, ¬ g.Meets r e := by
    intro g hg hm
    have hgne := (layout_piecesOf released.space.layout id).nonempty g hg
    obtain ⟨h1, h2, h3⟩ := hm
    have hmem := hg
    rw [hown1] at hmem
    obtain ⟨k, hk, hks, hkt, -⟩ := mem_eraseAll (layout_piecesOf hlay id) hmem
    obtain ⟨hkf, hkid⟩ := mem_piecesOf.mp hk
    -- the byte `max g.start r` lies in a piece of `k`, which is older and was evicted
    have hkm : k.Meets r e := ⟨by omega, by omega, h3⟩
    have hpmem : (⟨max k.start r, min k.stop e, k.value⟩ : Piece) ∈
        older seq (clipAll r e st.space.frags) :=
      mem_older.mpr ⟨mem_clipAll.mpr ⟨k, hkf, by rw [Fragment.clip, if_pos hkm]; simp⟩,
        holder k hk⟩
    have hnone : ownerAt (eraseAll (older seq (clipAll r e st.space.frags))
        (piecesOf id st.space.frags)) (max g.start r) = none := by
      rw [ownerAt_eraseAll _ (layout_piecesOf hlay id), if_pos ⟨_, hpmem, by
        simp only [Fragment.Contains]
        omega⟩]
    refine ownerAt_eq_none.mp hnone g hmem ⟨by omega, by omega⟩
  have hclear' : ∀ g ∈ fragmentsOf id released.space.frags, ¬ g.Meets r e := by
    intro g hg hm
    obtain ⟨k, hk, rfl⟩ := List.mem_map.mp hg
    exact hclear k hk hm
  have hresized : resizedFrags (fragmentsOf id released.space.frags) (f.map fun _ => ())
      raw.count = place ⟨r, e, ()⟩ (fragmentsOf id released.space.frags) := by
    unfold resizedFrags
    simp only [Fragment.map_start, Fragment.map_stop, hrun1, h.start]
    rw [if_pos hgrow, cutAll_of_disjoint hclear']
  set grown : LiveMappingGeneration :=
    { source1 with liveBytes := source1.liveBytes + space.ownedBytes } with hgrown
  set st' : VmState := space.state.setSource id grown with hst'
  have hnext1 : st'.nextMappingId = released.nextMappingId := hclaim.next
  have hchanged : Changed id released st' (some grown) := by
    refine ⟨fun k => ?_, fun k hk => ?_, fun g hg => ?_, fun g hg => ?_, fun g hg => ?_, ?_⟩
    · rw [hst', setSource]
      simp only [hclaim.gens, Std.ExtTreeMap.getElem?_insert, Nat.compare_eq_eq]
      simp only [eq_comm]
    · exact (hclaim.piecesOf k).trans (if_neg hk)
    · obtain ⟨hg, hgid⟩ := mem_piecesOf.mp hg
      rcases hclaim.mem hg with hg | ⟨hv, hlo, hhi⟩
      · obtain ⟨k, hk, hbase, hseq⟩ := hrel.inv.owner g hg
        rw [hgid, hsource1] at hk
        cases hk
        exact ⟨_, rfl, hbase, hseq, hrel.inv.range g hg⟩
      · obtain ⟨k, hk, hbase, -⟩ := hrel.inv.owner f hf1
        rw [h.own, hsource1] at hk
        cases hk
        have hseq : source1.lastSequence = seq := by rw [hkeep]; exact hlast
        have hrange := h.newRange
        exact ⟨_, rfl, by simp only [hgrown]; omega, by rw [hv]; simp only [hgrown]; omega,
          by omega, by omega⟩
    · cases hg
      have hbytes := (hrel.inv.bytes id source1 hsource1).1
      have hpos := (hrel.inv.bytes id source1 hsource1).2
      have hnew := hclaim.bytes
      rw [totalBytes_fragmentsOf] at hbytes ⊢
      refine ⟨?_, by simp only [hgrown]; omega⟩
      rw [show st'.space = space.state.space from rfl, hnew]
      simp only [hgrown]
      omega
    · cases hg
      obtain ⟨h1, h2, h3⟩ := hrel.inv.ids id source1 hsource1
      exact ⟨h1, h2, hnext1 ▸ h3⟩
    · rw [hnext1]
      exact ⟨le_rfl, hrel.inv.next.2⟩
  refine ⟨st', space.records ++ resizeRecord ctx raw id raw.count ::
    trimRecords ctx id space.stale, ?_, hchanged.inv hrel.inv, ?_, by simp⟩
  · unfold planMremapGrow
    rw [hspace, ok_bind]
    have hlookup : space.state.generationFor id = .ok source1 := by
      unfold generationFor
      rw [hclaim.gens, hsource1]
    rw [hlookup, ok_bind]
    rfl
  · have hnext' : st'.nextMappingId = st.nextMappingId := hnext1.trans hrel.next
    rw [hnext']
    refine (hrel.steps _).append (.cons (?_ : Step _ _
      ((⟨liveOf released, st.nextMappingId⟩ : Model).set id (some {
        viewOf released source1 with
        frags := place ⟨r, e, ()⟩ (fragmentsOf id released.space.frags) }))) ?_)
    · have hentry1 : released.generations[source1.mappingId]? = some source1 := by
        rw [hid1]
        exact hsource1
      have hstep := step_resizeRecord ctx st.nextMappingId raw.count hrel.inv hentry1 hanon1
        (by rw [hid1]; exact hf1own) h.start h.count h.newRange
      rw [hid1, hresized] at hstep
      exact hstep
    · have htiles := tiles_stale hlay seq r e
      have hnewlay : Layout (place ⟨r, e, ()⟩ (fragmentsOf id released.space.frags)) :=
        (layout_fragmentsOf released.space.layout id).place_of_disjoint hre hclear'
      have hemax : e ≤ maxU64 := h.newRange
      have htrim := Steps.releases ctx id
        (m := (⟨liveOf released, st.nextMappingId⟩ : Model).set id
          (some { viewOf released source1 with
            frags := place ⟨r, e, ()⟩ (fragmentsOf id released.space.frags) }))
        (stalePieces seq r e st.space.frags)
        (by rw [Model.set_live, Function.update_self]) (h.inv.ids _ _ h.entry).2.1.ne' hnewlay
        (List.ne_nil_of_mem (mem_place.mpr (.inl rfl))) htiles.layout
        (fun p hp => ⟨htiles.layout.nonempty p hp, ⟨r, e, ()⟩, mem_place.mpr (.inl rfl),
          htiles.lower p hp, htiles.upper p hp, rfl⟩)
        (fun p hp => (htiles.upper p hp).trans hemax)
      have hgaps : eraseAll (stalePieces seq r e st.space.frags)
          (place (⟨r, e, ()⟩ : Fragment Unit) (fragmentsOf id released.space.frags)) =
          fragmentsOf id st'.space.frags := by
        rw [show st'.space = space.state.space from rfl, hclaim.fragmentsOf]
        exact eraseAll_place (layout_fragmentsOf released.space.layout id) hre hclear' htiles
      have hne' : fragmentsOf id st'.space.frags ≠ [] := by
        intro hnil
        have hb := hchanged.bytes grown rfl
        rw [hnil] at hb
        simp at hb
        omega
      have hmodel := hchanged.model
      simp only [hgaps, Model.set_set, Generation.withFrags, if_neg hne'] at htrim
      rw [hclaim.stale, hmodel]
      exact htrim

end Resizing

/-! ## Shrinking

The writer cuts its tail before `plan_subtract` runs, the analyzer only when the
resize record arrives. The records are the same either way. -/

/-- The states agree on every generation but the anonymous `id`. -/
structure SameBut (id : ℕ) (st st' : VmState) : Prop where
  others : ∀ k, k ≠ id → st.generations[k]? = st'.generations[k]?
  left : ∀ g, st.generations[id]? = some g → g.mappingId = id ∧ g.section_ = false
  right : ∀ g, st'.generations[id]? = some g → g.mappingId = id ∧ g.section_ = false

section SameRecords

variable {ctx : VmContext} {seq id : ℕ}

/-- The records of the piece loop do not depend on the space or the byte count. -/
theorem scan_plan_congr {whole : Bool} {k : ℕ} (group : List Piece) {s t : GroupScan}
    (hplan : s.plan = t.plan) (hbegin : s.runBegin = t.runBegin) (hend : s.runEnd = t.runEnd) :
    (GroupScan.flushRun ctx k whole (group.foldl (GroupScan.step ctx k whole seq) s)).plan =
      (GroupScan.flushRun ctx k whole (group.foldl (GroupScan.step ctx k whole seq) t)).plan := by
  induction group generalizing s t with
  | nil =>
      rw [List.foldl_nil, List.foldl_nil]
      simp only [GroupScan.flushRun, hplan, hbegin, hend]
  | cons p group ih =>
      rw [List.foldl_cons, List.foldl_cons]
      unfold GroupScan.step
      by_cases hnew : seq ≤ p.value.sequence
      · simp only [if_pos hnew]
        exact ih (by simp only [GroupScan.flushRun, hplan, hbegin, hend]) rfl rfl
      · simp only [if_neg hnew]
        by_cases hadj : p.start = t.runEnd
        · simp only [hend, if_pos hadj]
          exact ih hplan hbegin rfl
        · simp only [hend, if_neg hadj]
          exact ih (by simp only [GroupScan.flushRun, hplan, hbegin]) rfl rfl

theorem scanGroup_liveBytes {whole : Bool} (state : LiveMappingGeneration)
    (space : IntervalSet LiveFragmentOwner) (group : List Piece) :
    (scanGroup ctx seq whole state space group).liveBytes =
      state.liveBytes - totalBytes (older seq group) :=
  (scan_space ctx _ seq whole group _).2

theorem getElem?_afterGroup (st : VmState) (state : LiveMappingGeneration) (scan : GroupScan)
    (k j : ℕ) : (st.afterGroup k state scan).generations[j]? =
      if j = k then leftEntry state scan.liveBytes else st.generations[j]? := by
  unfold afterGroup leftEntry
  simp only
  split
  · simp only [Std.ExtTreeMap.getElem?_erase, Nat.compare_eq_eq]
    simp only [eq_comm]
  · simp only [Std.ExtTreeMap.getElem?_insert, Nat.compare_eq_eq]
    simp only [eq_comm]

theorem SameBut.subtractGroup {st st' s s' : VmState} {rs rs' : List VmPlanRecord}
    {group : List Piece} (h : SameBut id st st')
    (hs : VmState.subtractGroup ctx seq st group = .ok (s, rs))
    (hs' : VmState.subtractGroup ctx seq st' group = .ok (s', rs')) :
    rs = rs' ∧ SameBut id s s' := by
  cases group with
  | nil =>
      cases hs
      cases hs'
      exact ⟨rfl, h⟩
  | cons first rest =>
      unfold VmState.subtractGroup at hs hs'
      obtain ⟨state, hstate, hs⟩ := bind_eq_ok.mp hs
      obtain ⟨state', hstate', hs'⟩ := bind_eq_ok.mp hs'
      have hlookup : ∀ {t : VmState} {k : ℕ} {g : LiveMappingGeneration},
          t.generationFor k = .ok g → t.generations[k]? = some g := by
        intro t k g hg
        unfold generationFor at hg
        split at hg
        · cases hg
          assumption
        · cases hg
      have hentry := hlookup hstate
      have hentry' := hlookup hstate'
      by_cases hzero : matchedBytes seq (first :: rest) = 0
      · rw [if_pos hzero] at hs hs'
        cases hs
        cases hs'
        exact ⟨rfl, h⟩
      · rw [if_neg hzero] at hs hs'
        cases hs
        cases hs'
        by_cases hid : first.value.mappingId = id
        · -- the one generation that differs is anonymous in both states
          rw [hid] at hentry hentry'
          obtain ⟨hm, hsec⟩ := h.left _ hentry
          obtain ⟨hm', hsec'⟩ := h.right _ hentry'
          refine ⟨?_, ?_, ?_, ?_⟩
          · unfold scanGroup
            simp only [hsec, hsec', hm, hm', Bool.false_and]
            exact scan_plan_congr _ rfl rfl rfl
          · intro k hk
            rw [getElem?_afterGroup, getElem?_afterGroup, hid, if_neg hk, if_neg hk]
            exact h.others k hk
          · intro g hg
            rw [getElem?_afterGroup, hid, if_pos rfl, leftEntry] at hg
            split at hg
            · cases hg
            · cases hg
              exact ⟨hm, hsec⟩
          · intro g hg
            rw [getElem?_afterGroup, hid, if_pos rfl, leftEntry] at hg
            split at hg
            · cases hg
            · cases hg
              exact ⟨hm', hsec'⟩
        · have hsame : state = state' := by
            rw [h.others _ hid, hentry'] at hentry
            cases hentry
            rfl
          subst hsame
          refine ⟨?_, ?_, ?_, ?_⟩
          · exact scan_plan_congr _ rfl rfl rfl
          · intro k hk
            rw [getElem?_afterGroup, getElem?_afterGroup, scanGroup_liveBytes,
              scanGroup_liveBytes, h.others k hk]
          · intro g hg
            rw [getElem?_afterGroup, if_neg (Ne.symm hid)] at hg
            exact h.left g hg
          · intro g hg
            rw [getElem?_afterGroup, if_neg (Ne.symm hid)] at hg
            exact h.right g hg

theorem SameBut.planEach {groups : List (List Piece)} {st st' s s' : VmState}
    {rs rs' : List VmPlanRecord} (h : SameBut id st st')
    (hs : VmState.planEach (VmState.subtractGroup ctx seq) st groups = .ok (s, rs))
    (hs' : VmState.planEach (VmState.subtractGroup ctx seq) st' groups = .ok (s', rs')) :
    rs = rs' ∧ SameBut id s s' := by
  induction groups generalizing st st' rs rs' with
  | nil =>
      cases hs
      cases hs'
      exact ⟨rfl, h⟩
  | cons group groups ih =>
      unfold VmState.planEach at hs hs'
      obtain ⟨⟨t, r⟩, ht, hs⟩ := bind_eq_ok.mp hs
      obtain ⟨⟨t', r'⟩, ht', hs'⟩ := bind_eq_ok.mp hs'
      obtain ⟨⟨u, q⟩, hu, hs⟩ := bind_eq_ok.mp hs
      obtain ⟨⟨u', q'⟩, hu', hs'⟩ := bind_eq_ok.mp hs'
      cases hs
      cases hs'
      obtain ⟨hr, hmid⟩ := h.subtractGroup ht ht'
      obtain ⟨hq, hlast⟩ := ih hmid hu hu'
      exact ⟨by rw [hr, hq], hlast⟩

end SameRecords

/-- The writer's state after the silent cut of the run's tail from `a` on. -/
def cutTail (st : VmState) (source : LiveMappingGeneration) (a r : ℕ) : VmState :=
  { st with space := (st.space.subtract a r).1 }.setSource source.mappingId
    { source with liveBytes := source.liveBytes - totalBytes (clipAll a r st.space.frags) }

namespace Resizing

variable {st : VmState} {ctx : VmContext} {raw : LinuxHeapEvent} {source : LiveMappingGeneration}
  {f : Piece}

theorem frags_cutTail (st : VmState) (source : LiveMappingGeneration) (a r : ℕ) :
    (cutTail st source a r).space.frags = cutAll a r st.space.frags :=
  IntervalSet.subtract_frags ..

/-- The tail is the generation's own. -/
theorem clipAll_own (h : Resizing st raw source f) {a : ℕ} (ha : raw.address ≤ a) :
    ∀ p ∈ clipAll a (runEndOf st source.mappingId f) st.space.frags,
      p.value.mappingId = source.mappingId := by
  intro p hp
  obtain ⟨k, hk, hpk⟩ := mem_clipAll.mp hp
  obtain ⟨hm, -, -, hv, -⟩ := Fragment.mem_clip (st.space.layout.nonempty k hk) hpk
  rw [hv]
  exact h.own_of_meets hk ha hm

theorem piecesOf_cutTail (h : Resizing st raw source f) {a k : ℕ} (ha : raw.address ≤ a)
    (hk : k ≠ source.mappingId) :
    piecesOf k (cutTail st source a (runEndOf st source.mappingId f)).space.frags =
      piecesOf k st.space.frags := by
  rw [frags_cutTail, piecesOf_cutAll st.space.layout]
  refine cutAll_of_disjoint fun g hg hm => hk ?_
  obtain ⟨hg, hid⟩ := mem_piecesOf.mp hg
  rw [← hid]
  exact h.own_of_meets hg ha hm

theorem bytes_cutTail (h : Resizing st raw source f) {a : ℕ} (ha : raw.address < a) :
    source.liveBytes - totalBytes (clipAll a (runEndOf st source.mappingId f) st.space.frags) =
      totalBytes (fragmentsOf source.mappingId
        (cutTail st source a (runEndOf st source.mappingId f)).space.frags) ∧
    fragmentsOf source.mappingId
      (cutTail st source a (runEndOf st source.mappingId f)).space.frags ≠ [] := by
  have hlay := st.space.layout
  have hown := layout_piecesOf hlay source.mappingId
  have hclip : clipAll a (runEndOf st source.mappingId f) st.space.frags =
      clipAll a (runEndOf st source.mappingId f) (piecesOf source.mappingId st.space.frags) := by
    have hfilter := filter_clipAll (fun o : LiveFragmentOwner => o.mappingId == source.mappingId)
      a (runEndOf st source.mappingId f) hlay.nonempty
    rw [List.filter_eq_self.mpr fun p hp => by simpa using h.clipAll_own ha.le p hp] at hfilter
    exact hfilter
  have hbytes := (h.inv.bytes _ _ h.entry).1
  have hsplit := totalBytes_cutAll a (runEndOf st source.mappingId f) hown.nonempty
  rw [totalBytes_fragmentsOf] at hbytes
  rw [frags_cutTail, totalBytes_fragmentsOf, piecesOf_cutAll hlay, hclip, Ne,
    fragmentsOf_eq_nil, piecesOf_cutAll hlay]
  refine ⟨by omega, fun hnil => ?_⟩
  -- the base byte is still there
  have hsome : ownerAt (cutAll a (runEndOf st source.mappingId f)
      (piecesOf source.mappingId st.space.frags)) raw.address = some f.value := by
    rw [ownerAt_cutAll hown, if_neg (by omega)]
    have := hlay.nonempty f h.mem
    exact (ownerAt_eq_some hown).mpr ⟨f, h.mem_own, ⟨h.start.le, h.start ▸ this⟩, rfl⟩
  rw [hnil] at hsome
  cases hsome

theorem cutTail_changed (h : Resizing st raw source f) {a : ℕ} (ha : raw.address < a) :
    Changed source.mappingId st (cutTail st source a (runEndOf st source.mappingId f))
      (some { source with
        liveBytes := source.liveBytes -
          totalBytes (clipAll a (runEndOf st source.mappingId f) st.space.frags) }) := by
  obtain ⟨hbytes, hne⟩ := h.bytes_cutTail ha
  refine ⟨fun k => ?_, fun k hk => h.piecesOf_cutTail ha.le hk, fun g hg => ?_, fun g hg => ?_,
    fun g hg => ?_, le_rfl, h.inv.next.2⟩
  · unfold cutTail setSource
    simp only [Std.ExtTreeMap.getElem?_insert, Nat.compare_eq_eq]
    simp only [eq_comm]
  · obtain ⟨hg, hid⟩ := mem_piecesOf.mp hg
    rw [frags_cutTail] at hg
    obtain ⟨k, hk, hgk⟩ := mem_cutAll.mp hg
    obtain ⟨h1, h2, -, hv, -⟩ := Fragment.mem_cut (st.space.layout.nonempty k hk) hgk
    obtain ⟨g', hg', hbase, hseq⟩ := h.inv.owner k hk
    rw [← hv, hid, h.entry] at hg'
    cases hg'
    have := h.inv.range k hk
    exact ⟨_, rfl, hbase.trans h1, hv ▸ hseq, by omega, by omega⟩
  · cases hg
    refine ⟨hbytes, ?_⟩
    simp only
    rw [hbytes]
    refine Nat.pos_of_ne_zero fun hz => hne ?_
    exact (totalBytes_eq_zero (layout_fragmentsOf (IntervalSet.layout _) _)).mp hz
  · cases hg
    obtain ⟨-, hpos, hlt⟩ := h.inv.ids _ _ h.entry
    exact ⟨rfl, hpos, hlt⟩

/-- The shrink branch: cut the tail, release the rest of the old size, one record. -/
theorem planMremapShrink_eq (h : Resizing st raw source f) :
    st.planMremapShrink ctx raw source.mappingId (runEndOf st source.mappingId f) = (do
      let (st', plan) ← planSubtract ctx
        (cutTail st source (raw.address + raw.count) (runEndOf st source.mappingId f))
        (runEndOf st source.mappingId f) (raw.address + raw.requestedSize) raw.completionSequence
      return (st', plan ++ [resizeRecord ctx raw source.mappingId raw.count])) := by
  set r := runEndOf st source.mappingId f with hr
  set a := raw.address + raw.count with ha
  have hlookup : st.generationFor source.mappingId = .ok source := by
    unfold generationFor
    rw [h.entry]
  have hforeign : ¬ ∃ piece ∈ (st.space.subtract a r).2,
      piece.value.mappingId ≠ source.mappingId := by
    rintro ⟨p, hp, hne⟩
    rw [IntervalSet.subtract_removed] at hp
    exact hne (h.clipAll_own (by omega) p hp)
  unfold planMremapShrink
  simp only
  rw [failIf_of_not hforeign, ok_bind, hlookup, ok_bind]
  simp only [IntervalSet.subtract_removed]
  rw [show ({ st with space := (st.space.subtract a r).1 } : VmState).setSource source.mappingId
    { source with
      liveBytes := source.liveBytes - totalBytes (clipAll a r st.space.frags) } =
    cutTail st source a r from rfl]
  split
  · rfl
  · -- nothing of the old size lies beyond the run
    rw [planSubtract, IntervalSet.intersections_eq, clipAll_of_le (by omega)]
    rfl

theorem resizedFrags_shrink {fs : List (Fragment Unit)} {g : Fragment Unit} {size r : ℕ}
    (hrun : runFrom g.stop fs = r) (hsize : size < r - g.start) :
    resizedFrags fs g size = cutAll (g.start + size) r fs := by
  unfold resizedFrags
  simp only [hrun]
  rw [if_neg (by omega), if_pos hsize]

theorem shrink (ctx : VmContext) (h : Resizing st raw source f)
    (hshrink : raw.count < runEndOf st source.mappingId f - raw.address) :
    ∃ st' records, st.planMremapShrink ctx raw source.mappingId
        (runEndOf st source.mappingId f) = .ok (st', records) ∧ Replayed st st' records := by
  have hcount := h.count
  have hcut := h.cutTail_changed (a := raw.address + raw.count) (by omega)
  set r := runEndOf st source.mappingId f with hr
  set a := raw.address + raw.count with ha
  set tail := raw.address + raw.requestedSize with htail
  have hlay := st.space.layout
  have hinvcut := hcut.inv h.inv
  -- the release beyond the run, in the state with and without the tail
  obtain ⟨st1, rs, hplan1, hrel1⟩ :=
    planSubtract_released ctx h.inv r tail raw.completionSequence
  obtain ⟨st2, rs2, hplan2, hrel2⟩ :=
    planSubtract_released ctx hinvcut r tail raw.completionSequence
  have hpieces : (cutTail st source a r).space.intersections r tail =
      st.space.intersections r tail := by
    rw [IntervalSet.intersections_eq, IntervalSet.intersections_eq, frags_cutTail,
      clipAll_cutAll le_rfl hlay]
  have hsame : SameBut source.mappingId st (cutTail st source a r) := by
    refine ⟨fun k hk => ?_, fun g hg => ?_, fun g hg => ?_⟩
    · rw [hcut.gens, if_neg hk]
    · rw [h.entry] at hg
      cases hg
      exact ⟨rfl, h.anonymous⟩
    · rw [hcut.gens, if_pos rfl] at hg
      cases hg
      exact ⟨rfl, h.anonymous⟩
  have hrecords : rs = rs2 ∧ SameBut source.mappingId st1 st2 := by
    unfold planSubtract at hplan1 hplan2
    rw [hpieces] at hplan2
    exact hsame.planEach hplan1 hplan2
  obtain ⟨rfl, hsame'⟩ := hrecords
  rw [frags_cutTail, clipAll_cutAll le_rfl hlay] at hrel2
  have hpast : ∀ p ∈ older raw.completionSequence (clipAll r tail st.space.frags),
      r ≤ p.start := fun p hp => (Tiles.of_clipAll hlay r tail).lower p (mem_older.mp hp).1
  obtain ⟨hf1, hrun1, source1, hsource1, hkeep1⟩ := h.kept hrel1 hpast
  have hid1 : source1.mappingId = source.mappingId := by rw [hkeep1]
  -- the writer's final ranges are the analyzer's, cut last
  have hspace2 : st2.space.frags = cutAll a r st1.space.frags := by
    rw [hrel2.space, hrel1.space, frags_cutTail, cutAll_eraseAll hlay hpast]
  obtain ⟨source2, hsource2, hkeep2⟩ : ∃ source2 : LiveMappingGeneration,
      st2.generations[source.mappingId]? = some source2 ∧
        source2 = { source with liveBytes := source2.liveBytes } := by
    have hfne := hlay.nonempty f h.mem
    have hsome : ownerAt st2.space.frags raw.address = some f.value := by
      rw [hspace2, ownerAt_cutAll st1.space.layout, if_neg (by omega)]
      exact (ownerAt_eq_some st1.space.layout).mpr
        ⟨f, (mem_piecesOf.mp hf1).1, ⟨h.start.le, h.start ▸ hfne⟩, rfl⟩
    obtain ⟨g, hg, -, hgv⟩ := (ownerAt_eq_some st2.space.layout).mp hsome
    obtain ⟨source2, hsource2, -⟩ := hrel2.inv.owner g hg
    rw [hgv, h.own] at hsource2
    obtain ⟨source0, hsource0, hkeep⟩ := hrel2.gens _ source2 hsource2
    rw [hcut.gens, if_pos rfl] at hsource0
    cases hsource0
    exact ⟨source2, hsource2, hkeep⟩
  have hmodel : liveOf st2 = Function.update (liveOf st1) source.mappingId
      (some { viewOf st1 source1 with
        frags := cutAll a r (fragmentsOf source.mappingId st1.space.frags) }) := by
    funext k
    unfold liveOf
    by_cases hk : k = source.mappingId
    · subst hk
      rw [Function.update_self, hsource2, hspace2, fragmentsOf_cutAll st1.space.layout, hkeep2]
      simp only [Option.map_some, viewOf]
      rw [hkeep1]
    · rw [Function.update_of_ne hk, ← hsame'.others k hk, hspace2,
        fragmentsOf_cutAll st1.space.layout, cutAll_of_disjoint]
      -- a foreign fragment does not meet the tail
      intro g hg hm
      obtain ⟨p, hp, rfl⟩ := List.mem_map.mp hg
      obtain ⟨hp, hpid⟩ := mem_piecesOf.mp hp
      rw [hrel1.space] at hp
      obtain ⟨j, hj, h1, h2, hv⟩ := mem_eraseAll hlay hp
      obtain ⟨hm1, hm2, hm3⟩ := hm
      simp only [Fragment.map_start, Fragment.map_stop] at hm1 hm2
      refine hk ?_
      rw [← hpid, hv]
      exact h.own_of_meets hj (b := a) (by omega) ⟨by omega, by omega, hm3⟩
  refine ⟨st2, rs ++ [resizeRecord ctx raw source.mappingId raw.count], ?_, hrel2.inv, ?_, by simp⟩
  · rw [h.planMremapShrink_eq, hplan2, ok_bind]
    rfl
  · rw [hrel2.next.trans rfl]
    refine (hrel1.steps _).append (.single ?_)
    have hentry1 : st1.generations[source1.mappingId]? = some source1 := by
      rw [hid1]
      exact hsource1
    have hstep := step_resizeRecord ctx st.nextMappingId raw.count hrel1.inv hentry1
      (by rw [hkeep1]; exact h.anonymous) (by rw [hid1]; exact hf1) h.start h.count h.newRange
    rw [hid1, resizedFrags_shrink hrun1 (by simpa [h.start] using hshrink)] at hstep
    simp only [Fragment.map_start, h.start] at hstep
    unfold Model.set at hstep
    rw [← hmodel] at hstep
    exact hstep

end Resizing

end Noleax.Vm
