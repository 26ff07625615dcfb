import Mathlib.Data.List.SplitBy
import Noleax.Vm.Machine

/-!
# The writer's invariant and `plan_subtract`

`Inv` is the writer's book-keeping: every fragment has a generation, and a
generation's `live_bytes` are the bytes of its fragments. `liveOf` reads the
machine's generations off a writer state. `planSubtract_released` says what
`plan_subtract` does: it never throws, it removes exactly the pieces older than
the syscall, and its records are a run of the machine.
-/

namespace Noleax.Vm

open Lib Trace Agent VmState

/-- The fragments of one generation. -/
def piecesOf (id : ℕ) (fs : List Piece) : List Piece :=
  fs.filter fun f => f.value.mappingId == id

/-- Its ranges, without their sequences. -/
def fragmentsOf (id : ℕ) (fs : List Piece) : List (Fragment Unit) :=
  (piecesOf id fs).map (Fragment.map fun _ => ())

/-- The machine's generations of a writer state. -/
def liveOf (st : VmState) (id : ℕ) : Option Generation :=
  st.generations[id]?.map fun g => ⟨g.section_, g.base, fragmentsOf id st.space.frags⟩

structure Inv (st : VmState) : Prop where
  owner : ∀ f ∈ st.space.frags, ∃ g, st.generations[f.value.mappingId]? = some g ∧
    g.base ≤ f.start ∧ f.value.sequence ≤ g.lastSequence
  bytes : ∀ id g, st.generations[id]? = some g →
    g.liveBytes = totalBytes (fragmentsOf id st.space.frags) ∧ 0 < g.liveBytes
  ids : ∀ id g, st.generations[id]? = some g →
    g.mappingId = id ∧ 0 < id ∧ id < st.nextMappingId
  range : ∀ f ∈ st.space.frags, 0 < f.start ∧ f.stop ≤ maxU64
  next : 0 < st.nextMappingId ∧ st.nextMappingId ≤ maxU64

/-! ## The ranges of one generation -/

section FragmentsOf

variable {fs : List Piece} {id : ℕ}

theorem mem_piecesOf {f : Piece} : f ∈ piecesOf id fs ↔ f ∈ fs ∧ f.value.mappingId = id := by
  simp [piecesOf]

theorem layout_piecesOf (h : Layout fs) (id : ℕ) : Layout (piecesOf id fs) :=
  h.sublist List.filter_sublist

theorem layout_fragmentsOf (h : Layout fs) (id : ℕ) : Layout (fragmentsOf id fs) :=
  (layout_piecesOf h id).map _

theorem totalBytes_fragmentsOf : totalBytes (fragmentsOf id fs) = totalBytes (piecesOf id fs) :=
  totalBytes_map ..

theorem fragmentsOf_eq_nil : fragmentsOf id fs = [] ↔ piecesOf id fs = [] := List.map_eq_nil_iff

theorem piecesOf_cutAll (h : Layout fs) (id b e : ℕ) :
    piecesOf id (cutAll b e fs) = cutAll b e (piecesOf id fs) :=
  filter_cutAll (fun o : LiveFragmentOwner => o.mappingId == id) b e h.nonempty

theorem piecesOf_eraseAll {β : Type} (h : Layout fs) (id : ℕ) (ps : List (Fragment β)) :
    piecesOf id (eraseAll ps fs) = eraseAll ps (piecesOf id fs) :=
  filter_eraseAll (fun o : LiveFragmentOwner => o.mappingId == id) ps h

theorem fragmentsOf_cutAll (h : Layout fs) (id b e : ℕ) :
    fragmentsOf id (cutAll b e fs) = cutAll b e (fragmentsOf id fs) := by
  unfold fragmentsOf
  rw [piecesOf_cutAll h, map_cutAll]

theorem fragmentsOf_eraseAll {β : Type} (h : Layout fs) (id : ℕ) (ps : List (Fragment β)) :
    fragmentsOf id (eraseAll ps fs) = eraseAll ps (fragmentsOf id fs) := by
  unfold fragmentsOf
  rw [piecesOf_eraseAll h, map_eraseAll]

theorem inside_piecesOf {p : Piece} (hp : Inside p fs) (hid : p.value.mappingId = id) :
    Inside p (piecesOf id fs) :=
  hp.filter (q := fun o => o.mappingId == id) (by simpa using hid)

theorem inside_fragmentsOf {p : Piece} (hp : Inside p fs) (hid : p.value.mappingId = id) :
    Inside (p.map fun _ => ()) (fragmentsOf id fs) := (inside_piecesOf hp hid).map _

/-- Releasing pieces of one generation leaves the others alone. -/
theorem piecesOf_eraseAll_other {ps : List Piece} {id' : ℕ} (hfs : Layout fs) (hps : Layout ps)
    (hin : ∀ p ∈ ps, Inside p fs) (hsame : ∀ p ∈ ps, p.value.mappingId = id) (hne : id' ≠ id) :
    piecesOf id' (eraseAll ps fs) = piecesOf id' fs := by
  induction ps generalizing fs with
  | nil => rfl
  | cons p ps ih =>
      obtain ⟨-, hnext, hrest⟩ := Layout.cons_iff.mp hps
      rw [eraseAll_cons, ih (hfs.cutAll _ _)
        hrest
        (fun q hq => (hin q (by simp [hq])).cutAll (.inr (hnext q hq)))
        (fun q hq => hsame q (by simp [hq])), piecesOf_cutAll hfs]
      refine (hin p (by simp)).cutAll_filter_ne hfs (q := fun o => o.mappingId == id') ?_
      simp only [hsame p (by simp), beq_eq_false_iff_ne]
      exact hne.symm

/-- The bytes left after releasing pieces. -/
theorem totalBytes_eraseAll {ps : List Piece} (hfs : Layout fs) (hps : Layout ps)
    (hin : ∀ p ∈ ps, Inside p fs) :
    totalBytes (eraseAll ps fs) + totalBytes ps = totalBytes fs := by
  induction ps generalizing fs with
  | nil => simp
  | cons p ps ih =>
      obtain ⟨-, hnext, hrest⟩ := Layout.cons_iff.mp hps
      have hp := (hin p (by simp)).totalBytes_cutAll hfs
      have := ih (hfs.cutAll p.start p.stop) hrest fun q hq =>
        (hin q (by simp [hq])).cutAll (.inr (hnext q hq))
      rw [eraseAll_cons, totalBytes_cons]
      omega

end FragmentsOf

/-! ## Changing one generation -/

/-- `st'` differs from `st` in the fragments and the entry of `id` only. -/
structure Changed (id : ℕ) (st st' : VmState) (entry : Option LiveMappingGeneration) : Prop where
  gens : ∀ k, st'.generations[k]? = if k = id then entry else st.generations[k]?
  others : ∀ k, k ≠ id → piecesOf k st'.space.frags = piecesOf k st.space.frags
  own : ∀ f ∈ piecesOf id st'.space.frags, ∃ g, entry = some g ∧ g.base ≤ f.start ∧
    f.value.sequence ≤ g.lastSequence ∧ 0 < f.start ∧ f.stop ≤ maxU64
  bytes : ∀ g, entry = some g →
    g.liveBytes = totalBytes (fragmentsOf id st'.space.frags) ∧ 0 < g.liveBytes
  ids : ∀ g, entry = some g → g.mappingId = id ∧ 0 < id ∧ id < st'.nextMappingId
  next : st.nextMappingId ≤ st'.nextMappingId ∧ st'.nextMappingId ≤ maxU64

namespace Changed

variable {id : ℕ} {st st' : VmState} {entry : Option LiveMappingGeneration}

theorem inv (h : Changed id st st' entry) (hinv : Inv st) : Inv st' := by
  have hback : ∀ f ∈ st'.space.frags, f.value.mappingId ≠ id → f ∈ st.space.frags := by
    intro f hf hid
    have : f ∈ piecesOf f.value.mappingId st'.space.frags := mem_piecesOf.mpr ⟨hf, rfl⟩
    rw [h.others _ hid] at this
    exact (mem_piecesOf.mp this).1
  refine ⟨?_, ?_, ?_, ?_, ?_⟩
  · intro f hf
    rw [h.gens]
    by_cases hid : f.value.mappingId = id
    · obtain ⟨g, hg, hbase, hseq, -⟩ := h.own f (mem_piecesOf.mpr ⟨hf, hid⟩)
      rw [if_pos hid]
      exact ⟨g, hg, hbase, hseq⟩
    · rw [if_neg hid]
      exact hinv.owner f (hback f hf hid)
  · intro k g hg
    rw [h.gens] at hg
    by_cases hk : k = id
    · subst hk
      rw [if_pos rfl] at hg
      exact h.bytes g hg
    · rw [if_neg hk] at hg
      have := hinv.bytes k g hg
      unfold fragmentsOf at this ⊢
      rw [h.others k hk]
      exact this
  · intro k g hg
    rw [h.gens] at hg
    by_cases hk : k = id
    · subst hk
      rw [if_pos rfl] at hg
      exact h.ids g hg
    · rw [if_neg hk] at hg
      obtain ⟨h1, h2, h3⟩ := hinv.ids k g hg
      exact ⟨h1, h2, h3.trans_le h.next.1⟩
  · intro f hf
    by_cases hid : f.value.mappingId = id
    · obtain ⟨g, -, -, -, h1, h2⟩ := h.own f (mem_piecesOf.mpr ⟨hf, hid⟩)
      exact ⟨h1, h2⟩
    · exact hinv.range f (hback f hf hid)
  · exact ⟨hinv.next.1.trans_le h.next.1, h.next.2⟩

/-- In the machine, too, one generation changes. -/
theorem model (h : Changed id st st' entry) :
    liveOf st' = Function.update (liveOf st) id
      (entry.map fun g => ⟨g.section_, g.base, fragmentsOf id st'.space.frags⟩) := by
  funext k
  unfold liveOf
  rw [h.gens]
  by_cases hk : k = id
  · subst hk
    rw [if_pos rfl, Function.update_self]
  · rw [if_neg hk, Function.update_of_ne hk]
    unfold fragmentsOf
    rw [h.others k hk]

end Changed

/-! ## One group of pieces -/

/-- The pieces a syscall may release. -/
def older (completionSeq : ℕ) (ps : List Piece) : List Piece :=
  ps.filter fun piece => piece.value.sequence < completionSeq

theorem older_cons_of_lt {seq : ℕ} {p : Piece} (h : p.value.sequence < seq) (ps : List Piece) :
    older seq (p :: ps) = p :: older seq ps := List.filter_cons_of_pos (by simpa using h)

theorem older_cons_of_le {seq : ℕ} {p : Piece} (h : seq ≤ p.value.sequence) (ps : List Piece) :
    older seq (p :: ps) = older seq ps := List.filter_cons_of_neg (by simpa using h)

theorem mem_older {seq : ℕ} {p : Piece} {ps : List Piece} :
    p ∈ older seq ps ↔ p ∈ ps ∧ p.value.sequence < seq := by
  simp [older]

section Scan

variable (ctx : VmContext) (id seq : ℕ) (whole : Bool)

@[simp] theorem flushRun_space (scan : GroupScan) :
    (scan.flushRun ctx id whole).space = scan.space := rfl

@[simp] theorem flushRun_liveBytes (scan : GroupScan) :
    (scan.flushRun ctx id whole).liveBytes = scan.liveBytes := rfl

/-- The piece loop removes the older pieces and subtracts their bytes. -/
theorem scan_space (group : List Piece) (scan : GroupScan) :
    (group.foldl (GroupScan.step ctx id whole seq) scan).space.frags =
        eraseAll (older seq group) scan.space.frags ∧
      (group.foldl (GroupScan.step ctx id whole seq) scan).liveBytes =
        scan.liveBytes - totalBytes (older seq group) := by
  induction group generalizing scan with
  | nil => exact ⟨rfl, rfl⟩
  | cons p group ih =>
      rw [List.foldl_cons]
      obtain ⟨h1, h2⟩ := ih (GroupScan.step ctx id whole seq scan p)
      rw [h1, h2]
      by_cases hnew : seq ≤ p.value.sequence
      · rw [older_cons_of_le hnew]
        unfold GroupScan.step
        rw [if_pos hnew]
        exact ⟨rfl, rfl⟩
      · rw [older_cons_of_lt (by omega), eraseAll_cons, totalBytes_cons]
        unfold GroupScan.step
        rw [if_neg hnew]
        simp only
        split
        · exact ⟨by simp, by simp only [Fragment.size]; omega⟩
        · exact ⟨by simp, by simp only [flushRun_liveBytes, Fragment.size]; omega⟩

/-- For a whole view the loop emits nothing. -/
theorem scan_plan_whole (group : List Piece) (scan : GroupScan) :
    (group.foldl (GroupScan.step ctx id true seq) scan).plan = scan.plan := by
  have hflush : ∀ scan : GroupScan, (scan.flushRun ctx id true).plan = scan.plan := by
    intro scan
    simp [GroupScan.flushRun]
  induction group generalizing scan with
  | nil => rfl
  | cons p group ih =>
      rw [List.foldl_cons, ih]
      unfold GroupScan.step
      split
      · exact hflush _
      · simp only
        split
        · rfl
        · exact hflush _

variable {id}

/-- Between two records the writer is ahead of the machine by the pending run
`[runBegin, runEnd)`: `T` are the machine's ranges. -/
structure ScanInv (m : Model) (id : ℕ) (g : Generation) (scan : GroupScan)
    (T : List (Fragment Unit)) : Prop where
  layout : Layout T
  nonempty : T ≠ []
  steps : Steps m scan.plan (m.set id (some { g with frags := T }))
  ahead : fragmentsOf id scan.space.frags = cutAll scan.runBegin scan.runEnd T
  le : scan.runBegin ≤ scan.runEnd
  bound : scan.runEnd ≤ maxU64
  hits : scan.runBegin < scan.runEnd → clipAll scan.runBegin scan.runEnd T ≠ []

/-- Flushing the run catches up; the machine's generation survives while the
writer still has a fragment of it. -/
theorem ScanInv.flush {m : Model} {g : Generation} {scan : GroupScan} {T : List (Fragment Unit)}
    (h : ScanInv m id g scan T) (hid : id ≠ 0) :
    Steps m (scan.flushRun ctx id false).plan
      (m.set id (g.withFrags (fragmentsOf id scan.space.frags))) := by
  unfold GroupScan.flushRun
  simp only [true_and]
  by_cases hrun : scan.runBegin = scan.runEnd
  · have hsame : fragmentsOf id scan.space.frags = T := by
      rw [h.ahead, hrun, cutAll_of_le le_rfl]
    rw [if_neg (by simpa using hrun), hsame, Generation.withFrags, if_neg h.nonempty]
    exact h.steps
  · have hlt : scan.runBegin < scan.runEnd := lt_of_le_of_ne h.le hrun
    rw [if_pos hrun, h.ahead]
    refine h.steps.append (.single ?_)
    have hlive : (m.set id (some { g with frags := T })).live id =
        some { g with frags := T } := by
      rw [Model.set_live, Function.update_self]
    have hstep : Step _ (makeVmFreeRecord ctx id scan.runBegin (scan.runEnd - scan.runBegin)) _ :=
      .release hlive hid hlt h.bound (h.hits hlt)
    rw [Model.set_set] at hstep
    exact hstep

theorem ScanInv.flushed {m : Model} {g : Generation} {scan : GroupScan} {T : List (Fragment Unit)}
    (h : ScanInv m id g scan T) (hid : id ≠ 0) (hlay : Layout scan.space.frags)
    (hne : fragmentsOf id scan.space.frags ≠ []) :
    ScanInv m id g (scan.flushRun ctx id false) (fragmentsOf id scan.space.frags) := by
  refine ⟨layout_fragmentsOf hlay id, hne, ?_, ?_, le_rfl, Nat.zero_le _, ?_⟩
  · have := h.flush ctx hid
    rw [Generation.withFrags, if_neg hne] at this
    exact this
  · simp [GroupScan.flushRun, cutAll_of_le]
  · simp [GroupScan.flushRun]

/-- One turn of the piece loop. -/
theorem ScanInv.step {m : Model} {g : Generation} {scan : GroupScan} {T : List (Fragment Unit)}
    {p : Piece} (h : ScanInv m id g scan T) (hid : id ≠ 0) (hp : Inside p scan.space.frags)
    (hpid : p.value.mappingId = id) (hpmax : p.stop ≤ maxU64) :
    ∃ T', ScanInv m id g (GroupScan.step ctx id false seq scan p) T' := by
  have hlay := scan.space.layout
  have hin := inside_fragmentsOf hp hpid
  have hown := layout_fragmentsOf hlay id
  have hflushed := h.flushed ctx hid hlay hin.ne_nil
  have hcut : fragmentsOf id (scan.space.subtract p.start p.stop).1.frags =
      cutAll p.start p.stop (fragmentsOf id scan.space.frags) := by
    rw [IntervalSet.subtract_frags, fragmentsOf_cutAll hlay]
  have hclip := hin.clipAll_eq hown
  simp only [Fragment.map_start, Fragment.map_stop] at hclip
  have hplt := hin.1
  simp only [Fragment.map_start, Fragment.map_stop] at hplt
  unfold GroupScan.step
  split
  · -- a newer piece is skipped
    exact ⟨_, hflushed⟩
  · simp only
    split
    · -- the piece continues the run
      rename_i hadj
      have hle := h.le
      refine ⟨T, h.layout, h.nonempty, h.steps, ?_, by simp only; omega, hpmax, fun _ => ?_⟩
      · simp only
        rw [hcut, h.ahead, hadj, cutAll_cutAll_adjacent hle (by omega) h.layout.nonempty]
      · simp only
        -- either the old run already hits, or the piece itself does
        by_cases hrun : scan.runBegin < scan.runEnd
        · obtain ⟨f, hf, hm⟩ := clipAll_ne_nil.mp (h.hits hrun)
          exact clipAll_ne_nil.mpr ⟨f, hf, hm.1.trans_le (by omega), hm.2.1, by omega⟩
        · have heq : scan.runBegin = scan.runEnd := by omega
          have hsame : fragmentsOf id scan.space.frags = T := by
            rw [h.ahead, heq, cutAll_of_le le_rfl]
          rw [heq, ← hadj, ← hsame, hclip]
          simp
    · -- the piece starts a new run
      refine ⟨fragmentsOf id scan.space.frags, hown, hin.ne_nil, ?_, ?_, by simp only; omega, hpmax,
        fun _ => ?_⟩
      · exact hflushed.steps
      · simp only [flushRun_space]
        exact hcut
      · simp only
        rw [hclip]
        simp

/-- The whole piece loop. -/
theorem ScanInv.run {m : Model} {g : Generation} {scan : GroupScan} {T : List (Fragment Unit)}
    {group : List Piece} (h : ScanInv m id g scan T) (hid : id ≠ 0) (hlay : Layout group)
    (hin : ∀ p ∈ group, Inside p scan.space.frags ∧ p.value.mappingId = id ∧ p.stop ≤ maxU64) :
    ∃ T', ScanInv m id g (group.foldl (GroupScan.step ctx id false seq) scan) T' := by
  induction group generalizing scan T with
  | nil => exact ⟨T, h⟩
  | cons p group ih =>
      obtain ⟨hp, hpid, hpmax⟩ := hin p (by simp)
      obtain ⟨-, hnext, hrest⟩ := Layout.cons_iff.mp hlay
      obtain ⟨T', h'⟩ := h.step ctx seq hid hp hpid hpmax
      rw [List.foldl_cons]
      refine ih h' hrest fun q hq => ?_
      obtain ⟨hqin, hqid, hqmax⟩ := hin q (by simp [hq])
      refine ⟨?_, hqid, hqmax⟩
      -- the piece before it was removed or skipped, `q` lies past it
      have hspace := (scan_space ctx id seq false [p] scan).1
      rw [List.foldl_cons, List.foldl_nil] at hspace
      rw [hspace]
      refine hqin.eraseAll fun k hk => ?_
      obtain ⟨hk, -⟩ := mem_older.mp hk
      rw [List.mem_singleton.mp hk]
      exact .inr (hnext q hq)

end Scan

/-! ## What a release does -/

/-- `st'` is `st` without the pieces `ps`; `records` say so. -/
structure Released (st st' : VmState) (records : List VmPlanRecord) (ps : List Piece) : Prop where
  inv : Inv st'
  space : st'.space.frags = eraseAll ps st.space.frags
  next : st'.nextMappingId = st.nextMappingId
  steps : ∀ n, Steps ⟨liveOf st, n⟩ records ⟨liveOf st', n⟩
  silent : records = [] ↔ ps = []
  /-- A surviving generation only changed its byte count. -/
  gens : ∀ (id : ℕ) (g' : LiveMappingGeneration), st'.generations[id]? = some g' →
    ∃ g : LiveMappingGeneration, st.generations[id]? = some g ∧
      g' = { g with liveBytes := g'.liveBytes }

theorem Released.refl {st : VmState} (h : Inv st) : Released st st [] [] :=
  ⟨h, rfl, rfl, fun _ => .nil, by simp, fun id g hg => ⟨g, hg, rfl⟩⟩

theorem Released.trans {st st' st'' : VmState} {rs ss : List VmPlanRecord} {ps qs : List Piece}
    (h : Released st st' rs ps) (h' : Released st' st'' ss qs) :
    Released st st'' (rs ++ ss) (ps ++ qs) := by
  refine ⟨h'.inv, ?_, h'.next.trans h.next, fun n => (h.steps n).append (h'.steps n), ?_, ?_⟩
  · rw [h'.space, h.space, eraseAll_append]
  · rw [List.append_eq_nil_iff, List.append_eq_nil_iff, h.silent, h'.silent]
  · intro id g'' hg''
    obtain ⟨g', hg', he'⟩ := h'.gens id g'' hg''
    obtain ⟨g, hg, he⟩ := h.gens id g' hg'
    refine ⟨g, hg, ?_⟩
    rw [he', he]

/-- A group of pieces of one generation, all in the space. -/
structure Group (st : VmState) (id : ℕ) (group : List Piece) : Prop where
  layout : Layout group
  inside : ∀ p ∈ group, Inside p st.space.frags
  same : ∀ p ∈ group, p.value.mappingId = id

theorem Group.bound {st : VmState} {id : ℕ} {group : List Piece} (h : Group st id group)
    (hinv : Inv st) : ∀ p ∈ group, p.stop ≤ maxU64 := by
  intro p hp
  obtain ⟨-, f, hf, -, ht, -⟩ := h.inside p hp
  exact ht.trans (hinv.range f hf).2

/-- The entry of a generation with `bytes` left. -/
def leftEntry (state : LiveMappingGeneration) (bytes : ℕ) : Option LiveMappingGeneration :=
  if bytes = 0 then none else some { state with liveBytes := bytes }

/-- The writer state after a group: the older pieces are gone, the generation
has the bytes that are left, or none. -/
theorem Group.changed {st st' : VmState} {id seq : ℕ} {group : List Piece}
    {state : LiveMappingGeneration} {bytes : ℕ} (hinv : Inv st) (hgroup : Group st id group)
    (hstate : st.generations[id]? = some state)
    (hspace : st'.space.frags = eraseAll (older seq group) st.space.frags)
    (hbytes : bytes = state.liveBytes - totalBytes (older seq group))
    (hgens : st'.generations = if bytes = 0 then st.generations.erase id
      else st.generations.insert id { state with liveBytes := bytes })
    (hnext : st'.nextMappingId = st.nextMappingId) :
    Changed id st st' (leftEntry state bytes) ∧
      bytes = totalBytes (fragmentsOf id st'.space.frags) := by
  have hlay := st.space.layout
  have holay : Layout (older seq group) := hgroup.layout.sublist List.filter_sublist
  have hoin : ∀ p ∈ older seq group, Inside p st.space.frags := fun p hp =>
    hgroup.inside p (mem_older.mp hp).1
  have hosame : ∀ p ∈ older seq group, p.value.mappingId = id := fun p hp =>
    hgroup.same p (mem_older.mp hp).1
  have hleft : bytes = totalBytes (fragmentsOf id st'.space.frags) := by
    have hsum := totalBytes_eraseAll (layout_piecesOf hlay id) holay fun p hp =>
      inside_piecesOf (hoin p hp) (hosame p hp)
    rw [hbytes, hspace, totalBytes_fragmentsOf, piecesOf_eraseAll hlay,
      (hinv.bytes id state hstate).1, totalBytes_fragmentsOf]
    omega
  refine ⟨⟨?_, ?_, ?_, ?_, ?_, ?_⟩, hleft⟩
  · intro k
    rw [hgens, leftEntry]
    by_cases hz : bytes = 0
    · rw [if_pos hz, if_pos hz, Std.ExtTreeMap.getElem?_erase]
      simp only [Nat.compare_eq_eq]
      simp only [eq_comm]
    · rw [if_neg hz, if_neg hz, Std.ExtTreeMap.getElem?_insert]
      simp only [Nat.compare_eq_eq]
      simp only [eq_comm]
  · intro k hk
    rw [hspace, piecesOf_eraseAll_other hlay holay hoin hosame hk]
  · intro f hf
    -- a fragment of the generation is left, so it still has bytes
    have hne : bytes ≠ 0 := by
      rw [hleft]
      intro hz
      have hnil := (totalBytes_eq_zero (layout_fragmentsOf st'.space.layout id)).mp hz
      rw [fragmentsOf_eq_nil.mp hnil] at hf
      simp at hf
    have hmem := (mem_piecesOf.mp hf).1
    rw [hspace] at hmem
    obtain ⟨k, hk, hks, hkt, hkv⟩ := mem_eraseAll hlay hmem
    obtain ⟨g, hg, hbase, hseq⟩ := hinv.owner k hk
    rw [← hkv, (mem_piecesOf.mp hf).2, hstate] at hg
    cases hg
    have := hinv.range k hk
    rw [leftEntry, if_neg hne]
    exact ⟨_, rfl, hbase.trans hks, hkv ▸ hseq, by omega, by omega⟩
  · intro g hg
    rw [leftEntry] at hg
    split at hg
    · simp at hg
    · rename_i hz
      cases hg
      exact ⟨hleft, Nat.pos_of_ne_zero hz⟩
  · intro g hg
    rw [leftEntry] at hg
    split at hg
    · simp at hg
    · cases hg
      rw [hnext]
      exact hinv.ids id state hstate
  · rw [hnext]
    exact ⟨le_rfl, hinv.next.2⟩

theorem leftEntry_map {state : LiveMappingGeneration} {bytes : ℕ} {frags : List (Fragment Unit)}
    {g : Generation} (hg : g = ⟨state.section_, state.base, g.frags⟩)
    (hbytes : bytes = totalBytes frags) (hlay : Layout frags) :
    ((leftEntry state bytes).map fun s => (⟨s.section_, s.base, frags⟩ : Generation)) =
      g.withFrags frags := by
  rw [leftEntry, Generation.withFrags]
  by_cases hz : bytes = 0
  · rw [if_pos hz, if_pos ((totalBytes_eq_zero hlay).mp (hbytes ▸ hz))]
    rfl
  · rw [if_neg hz, if_neg fun h => hz (by rw [hbytes, h]; rfl), hg]
    rfl

theorem matchedBytes_eq_zero {seq : ℕ} {group : List Piece} (h : Layout group) :
    matchedBytes seq group = 0 ↔ older seq group = [] :=
  totalBytes_eq_zero (h.sublist List.filter_sublist)

theorem Steps.eq_of_nil {m m' : Model} (h : Steps m [] m') : m' = m := by
  cases h
  rfl

section SubtractGroup

variable {st : VmState} (ctx : VmContext) (seq : ℕ) {group : List Piece}
  {state : LiveMappingGeneration}

/-- The machine's view of a generation of the writer. -/
def viewOf (st : VmState) (state : LiveMappingGeneration) : Generation :=
  ⟨state.section_, state.base, fragmentsOf state.mappingId st.space.frags⟩

theorem liveOf_eq (hstate : st.generations[state.mappingId]? = some state) :
    liveOf st state.mappingId = some (viewOf st state) := by
  unfold liveOf
  rw [hstate]
  rfl

/-- The group's records replay its change on the machine. -/
theorem scanGroup_steps (whole : Bool) (hinv : Inv st) (hgroup : Group st state.mappingId group)
    (hstate : st.generations[state.mappingId]? = some state) (hne : group ≠ [])
    (hwhole : whole = true → state.section_ = true ∧ matchedBytes seq group = state.liveBytes)
    (n : ℕ) :
    Steps ⟨liveOf st, n⟩ (scanGroup ctx seq whole state st.space group).plan
      ((⟨liveOf st, n⟩ : Model).set state.mappingId ((viewOf st state).withFrags
        (fragmentsOf state.mappingId (eraseAll (older seq group) st.space.frags)))) := by
  have hpos := (hinv.ids _ _ hstate).2.1.ne'
  have hlive := liveOf_eq hstate
  obtain ⟨first, hfirst⟩ := List.exists_mem_of_ne_nil _ hne
  have hnonempty : fragmentsOf state.mappingId st.space.frags ≠ [] :=
    (inside_fragmentsOf (hgroup.inside first hfirst) (hgroup.same first hfirst)).ne_nil
  unfold scanGroup
  cases whole with
  | false =>
      have hstart : ScanInv ⟨liveOf st, n⟩ state.mappingId (viewOf st state)
          { space := st.space, liveBytes := state.liveBytes, plan := [] }
          (fragmentsOf state.mappingId st.space.frags) := by
        refine ⟨layout_fragmentsOf st.space.layout _, hnonempty, ?_, ?_, le_rfl, Nat.zero_le _,
          fun h => absurd h (lt_irrefl _)⟩
        · rw [Model.set_self hlive]
          exact .nil
        · rw [cutAll_of_le le_rfl]
      obtain ⟨T, hT⟩ := hstart.run ctx seq hpos hgroup.layout
        fun p hp => ⟨hgroup.inside p hp, hgroup.same p hp, hgroup.bound hinv p hp⟩
      have hflush := hT.flush ctx hpos
      rw [(scan_space _ _ _ _ group _).1] at hflush
      exact hflush
  | true =>
      obtain ⟨hsection, hall⟩ := hwhole rfl
      -- the matched bytes were all there was
      have hgone : fragmentsOf state.mappingId (eraseAll (older seq group) st.space.frags) = [] := by
        have hlay := st.space.layout
        refine (totalBytes_eq_zero (layout_fragmentsOf (hlay.eraseAll _) _)).mp ?_
        have holay : Layout (older seq group) := hgroup.layout.sublist List.filter_sublist
        have hsum := totalBytes_eraseAll (layout_piecesOf hlay state.mappingId) holay fun p hp =>
          inside_piecesOf (hgroup.inside p (mem_older.mp hp).1) (hgroup.same p (mem_older.mp hp).1)
        have hbytes := (hinv.bytes _ _ hstate).1
        have hmatched : totalBytes (older seq group) = state.liveBytes := hall
        rw [totalBytes_fragmentsOf] at hbytes ⊢
        rw [piecesOf_eraseAll hlay]
        omega
      have hplan : (GroupScan.flushRun ctx state.mappingId true
          (group.foldl (GroupScan.step ctx state.mappingId true seq)
            { space := st.space
              liveBytes := state.liveBytes
              plan := [unmapRecord ctx state] })).plan = [unmapRecord ctx state] := by
        have := scan_plan_whole ctx state.mappingId seq group
          { space := st.space, liveBytes := state.liveBytes, plan := [unmapRecord ctx state] }
        simpa [GroupScan.flushRun] using this
      rw [if_pos rfl, hplan, hgone, Generation.withFrags, if_pos rfl]
      exact .single (.unmap (m := ⟨liveOf st, n⟩) hlive hpos hsection)

theorem subtractGroup_released {id : ℕ} (hinv : Inv st) (hgroup : Group st id group)
    (hne : group ≠ []) :
    ∃ st' records, subtractGroup ctx seq st group = .ok (st', records) ∧
      Released st st' records (older seq group) := by
  obtain ⟨first, rest, rfl⟩ := List.exists_cons_of_ne_nil hne
  have hfirst : first.value.mappingId = id := hgroup.same first (by simp)
  obtain ⟨-, f, hf, -, -, hfv⟩ := hgroup.inside first (by simp)
  obtain ⟨state, hstate, -⟩ := hinv.owner f hf
  rw [hfv, hfirst] at hstate
  obtain ⟨hmid, -⟩ := hinv.ids id state hstate
  subst hmid
  have hlookup : st.generationFor state.mappingId = .ok state := by
    unfold generationFor
    rw [hstate]
  unfold subtractGroup
  simp only [hfirst, hlookup, ok_bind]
  by_cases hzero : matchedBytes seq (first :: rest) = 0
  · rw [if_pos hzero, (matchedBytes_eq_zero hgroup.layout).mp hzero]
    exact ⟨st, [], rfl, .refl hinv⟩
  rw [if_neg hzero]
  refine ⟨_, _, rfl, ?_⟩
  generalize hwhole : (state.section_ && decide (matchedBytes seq (first :: rest) =
    state.liveBytes)) = whole
  have hsteps := scanGroup_steps ctx seq whole hinv hgroup hstate hne
    fun h => by
      rw [h, Bool.and_eq_true_iff] at hwhole
      exact ⟨hwhole.1, by simpa using hwhole.2⟩
  obtain ⟨hspace, hbytes⟩ := scan_space ctx state.mappingId seq whole (first :: rest)
    { space := st.space
      liveBytes := state.liveBytes
      plan := if whole then [unmapRecord ctx state] else [] }
  obtain ⟨hchanged, hleft⟩ : Changed state.mappingId st
      (st.afterGroup state.mappingId state
        (scanGroup ctx seq whole state st.space (first :: rest)))
      (leftEntry state (scanGroup ctx seq whole state st.space (first :: rest)).liveBytes) ∧ _ :=
    Group.changed hinv hgroup hstate hspace hbytes rfl rfl
  have hmodel := hchanged.model
  rw [leftEntry_map (g := viewOf st state) rfl hleft (layout_fragmentsOf (IntervalSet.layout _) _)]
    at hmodel
  have hspace' : (st.afterGroup state.mappingId state (scanGroup ctx seq whole state st.space
      (first :: rest))).space.frags = eraseAll (older seq (first :: rest)) st.space.frags := hspace
  rw [hspace'] at hmodel hleft
  refine ⟨hchanged.inv hinv, hspace', rfl, fun n => ?_, ?_, ?_⟩
  · have := hsteps n
    unfold Model.set at this
    rw [← hmodel] at this
    exact this
  · refine ⟨fun hnil => ?_, fun h => absurd ((matchedBytes_eq_zero hgroup.layout).mpr h) hzero⟩
    -- without a record the machine would not have moved, but bytes are gone
    have hsame := hsteps 0
    rw [hnil] at hsame
    have hlive := congrArg (fun m => m.live state.mappingId) hsame.eq_of_nil
    simp only [Model.set_live, Function.update_self, liveOf_eq hstate] at hlive
    rw [Generation.withFrags] at hlive
    split at hlive
    · simp at hlive
    · have hfr : fragmentsOf state.mappingId (eraseAll (older seq (first :: rest))
          st.space.frags) = fragmentsOf state.mappingId st.space.frags := by
        simpa [viewOf] using congrArg (Option.map Generation.frags) hlive
      rw [hfr, ← (hinv.bytes _ _ hstate).1] at hleft
      have hmatched : totalBytes (older seq (first :: rest)) ≠ 0 := hzero
      have hpos := (hinv.bytes _ _ hstate).2
      have hbytes' : (scanGroup ctx seq whole state st.space (first :: rest)).liveBytes =
          state.liveBytes - totalBytes (older seq (first :: rest)) := hbytes
      omega
  · intro k g' hg'
    rw [hchanged.gens] at hg'
    by_cases hk : k = state.mappingId
    · subst hk
      rw [if_pos rfl, leftEntry] at hg'
      split at hg'
      · simp at hg'
      · cases hg'
        exact ⟨state, hstate, rfl⟩
    · rw [if_neg hk] at hg'
      exact ⟨g', hg', rfl⟩

end SubtractGroup

/-! ## `plan_subtract` -/

theorem mem_idGroups {pieces group : List Piece} (hgroup : group ∈ idGroups pieces) :
    group ≠ [] ∧ (∀ p ∈ group, p ∈ pieces) ∧
      ∃ id, ∀ p ∈ group, p.value.mappingId = id := by
  have hne := List.ne_nil_of_mem_splitBy hgroup
  refine ⟨hne, ?_, ?_⟩
  · intro p hp
    have := List.mem_flatten.mpr ⟨group, hgroup, hp⟩
    rwa [idGroups, List.flatten_splitBy] at this
  · have hchain := List.isChain_of_mem_splitBy hgroup
    obtain ⟨first, rest, rfl⟩ := List.exists_cons_of_ne_nil hne
    refine ⟨first.value.mappingId, fun p hp => ?_⟩
    have hpair : (first :: rest).Pairwise fun p q => p.value.mappingId = q.value.mappingId := by
      have htrans : IsTrans Piece fun p q => p.value.mappingId = q.value.mappingId :=
        ⟨fun _ _ _ => Eq.trans⟩
      exact List.isChain_iff_pairwise.mp (hchain.imp fun _ _ h => by simpa using h)
    rcases List.mem_cons.mp hp with rfl | hp
    · rfl
    · exact ((List.pairwise_cons.mp hpair).1 p hp).symm

/-- Group after group: the later pieces stay inside the space. -/
theorem planEach_released {ctx : VmContext} {seq : ℕ} {groups : List (List Piece)} {st : VmState}
    (hinv : Inv st) (hlay : Layout groups.flatten)
    (hin : ∀ p ∈ groups.flatten, Inside p st.space.frags)
    (hgroups : ∀ group ∈ groups, group ≠ [] ∧ ∃ id, ∀ p ∈ group, p.value.mappingId = id) :
    ∃ st' records, planEach (subtractGroup ctx seq) st groups = .ok (st', records) ∧
      Released st st' records (older seq groups.flatten) := by
  induction groups generalizing st with
  | nil => exact ⟨st, [], rfl, .refl hinv⟩
  | cons group groups ih =>
      obtain ⟨hne, id, hid⟩ := hgroups group (by simp)
      rw [List.flatten_cons] at hlay hin
      obtain ⟨hlg, hlrest, hbefore⟩ := Layout.append_iff.mp hlay
      have hg : Group st id group := ⟨hlg, fun p hp => hin p (by simp [hp]), hid⟩
      obtain ⟨st1, r1, h1, hrel1⟩ := subtractGroup_released ctx seq hinv hg hne
      have hin1 : ∀ p ∈ groups.flatten, Inside p st1.space.frags := by
        intro p hp
        rw [hrel1.space]
        refine (hin p (List.mem_append_right _ hp)).eraseAll fun k hk => .inr ?_
        exact hbefore k (mem_older.mp hk).1 p hp
      obtain ⟨st2, r2, h2, hrel2⟩ := ih hrel1.inv hlrest hin1 fun g hg => hgroups g (by simp [hg])
      refine ⟨st2, r1 ++ r2, ?_, ?_⟩
      · unfold planEach
        rw [h1, ok_bind]
        simp only
        rw [h2, ok_bind]
        rfl
      · have := hrel1.trans hrel2
        unfold older at this ⊢
        rw [List.flatten_cons, List.filter_append]
        exact this

/-- `plan_subtract` never throws and releases exactly the older pieces. -/
theorem planSubtract_released {st : VmState} (ctx : VmContext) (hinv : Inv st) (b e seq : ℕ) :
    ∃ st' records, st.planSubtract ctx b e seq = .ok (st', records) ∧
      Released st st' records (older seq (clipAll b e st.space.frags)) := by
  have hflat : (idGroups (st.space.intersections b e)).flatten = clipAll b e st.space.frags := by
    rw [idGroups, List.flatten_splitBy, IntervalSet.intersections_eq]
  have hlay := st.space.layout
  unfold planSubtract
  rw [← hflat]
  refine planEach_released hinv ?_ ?_ ?_
  · rw [hflat]
    exact hlay.clipAll b e
  · rw [hflat]
    exact fun p hp => inside_of_mem_clipAll hlay hp
  · intro group hgroup
    obtain ⟨h1, -, h2⟩ := mem_idGroups hgroup
    exact ⟨h1, h2⟩

end Noleax.Vm
