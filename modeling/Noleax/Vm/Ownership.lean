import Mathlib.Data.List.Nodup
import Noleax.Vm.WriterRefinement

/-!
# Who owns a byte

Raw events reach the writer out of completion order. For `mmap` and `munmap` the
model still ends where the kernel does: the last operation by completion sequence
that covers a byte decides its owner, whatever order the events arrived in.
-/

namespace Noleax.Vm

open Lib Trace Agent VmState

/-! ## One operation, byte by byte -/

section Bytes

variable {st st' : VmState} {records : List VmPlanRecord} {b e seq : ℕ}

/-- A clipped piece contains the byte exactly when its fragment owns it. -/
theorem exists_clipAll_contains {fs : List Piece} (h : Layout fs) (q : LiveFragmentOwner → Bool)
    (a : ℕ) : (∃ p ∈ (clipAll b e fs).filter (fun p => q p.value), p.Contains a) ↔
      (b ≤ a ∧ a < e) ∧ ∃ o, ownerAt fs a = some o ∧ q o = true := by
  constructor
  · rintro ⟨p, hp, hpa⟩
    obtain ⟨hp, hq⟩ := List.mem_filter.mp hp
    obtain ⟨f, hf, hpf⟩ := mem_clipAll.mp hp
    obtain ⟨-, hs, ht, hv, -⟩ := Fragment.mem_clip (h.nonempty f hf) hpf
    obtain ⟨h1, h2⟩ := hpa
    refine ⟨by omega, f.value, (ownerAt_eq_some h).mpr ⟨f, hf, ⟨by omega, by omega⟩, rfl⟩, ?_⟩
    rw [← hv]
    exact hq
  · rintro ⟨⟨hb, he⟩, o, ho, hq⟩
    obtain ⟨f, hf, hfa, rfl⟩ := (ownerAt_eq_some h).mp ho
    obtain ⟨h1, h2⟩ := hfa
    have hm : f.Meets b e := ⟨by omega, by omega, by omega⟩
    refine ⟨⟨max f.start b, min f.stop e, f.value⟩, List.mem_filter.mpr ⟨?_, hq⟩, ?_⟩
    · exact mem_clipAll.mpr ⟨f, hf, by rw [Fragment.clip, if_pos hm]; simp⟩
    · simp only [Fragment.Contains]
      omega

theorem exists_older_contains {fs : List Piece} (h : Layout fs) (seq a : ℕ) :
    (∃ p ∈ older seq (clipAll b e fs), p.Contains a) ↔
      (b ≤ a ∧ a < e) ∧ ∃ o, ownerAt fs a = some o ∧ o.sequence < seq := by
  have := exists_clipAll_contains (b := b) (e := e) h (fun o => o.sequence < seq) a
  simp only [decide_eq_true_eq] at this
  exact this

theorem exists_stale_contains {fs : List Piece} (h : Layout fs) (seq a : ℕ) :
    (∃ p ∈ stalePieces seq b e fs, p.Contains a) ↔
      (b ≤ a ∧ a < e) ∧ ∃ o, ownerAt fs a = some o ∧ seq ≤ o.sequence := by
  have := exists_clipAll_contains (b := b) (e := e) h (fun o => seq ≤ o.sequence) a
  simp only [decide_eq_true_eq] at this
  exact this

/-- A release takes the bytes of older fragments. -/
theorem Released.ownerAt (h : Released st st' records (older seq (clipAll b e st.space.frags)))
    (a : ℕ) : Lib.ownerAt st'.space.frags a =
      if b ≤ a ∧ a < e then (Lib.ownerAt st.space.frags a).filter fun o => seq ≤ o.sequence
      else Lib.ownerAt st.space.frags a := by
  have hlay := st.space.layout
  have hiff := exists_older_contains (b := b) (e := e) hlay seq a
  rw [h.space, ownerAt_eraseAll _ hlay]
  by_cases hin : b ≤ a ∧ a < e
  · rw [if_pos hin]
    cases ho : Lib.ownerAt st.space.frags a with
    | none => simp
    | some o =>
        rw [Option.filter_some]
        by_cases hlt : o.sequence < seq
        · rw [if_pos (hiff.mpr ⟨hin, o, ho, hlt⟩), if_neg (by simpa using hlt)]
        · rw [if_neg fun hex => ?_, if_pos (by simpa using hlt)]
          obtain ⟨-, o', ho', hlt'⟩ := hiff.mp hex
          rw [ho] at ho'
          cases ho'
          exact hlt hlt'
  · rw [if_neg hin, if_neg fun hex => hin (hiff.mp hex).1]

/-- A claim takes the bytes no newer fragment has. -/
theorem ownerAt_claim {fs : List Piece} (hlay : Layout fs) (id a : ℕ) :
    ownerAt (fillGaps ⟨id, seq⟩ e b (stalePieces seq b e fs)
        (eraseAll (older seq (clipAll b e fs)) fs)) a =
      if b ≤ a ∧ a < e then
        some (((ownerAt fs a).filter fun o => seq ≤ o.sequence).getD ⟨id, seq⟩)
      else ownerAt fs a := by
  have hstale := exists_stale_contains (b := b) (e := e) hlay seq a
  have holder := exists_older_contains (b := b) (e := e) hlay seq a
  rw [ownerAt_fillGaps (hlay.eraseAll _) (tiles_stale hlay seq b e)
    (gapsFree_of_released hlay seq b e), ownerAt_eraseAll _ hlay]
  by_cases hin : b ≤ a ∧ a < e
  · rw [if_pos hin]
    by_cases hkeep : ∃ o, ownerAt fs a = some o ∧ seq ≤ o.sequence
    · -- a newer fragment keeps the byte
      obtain ⟨o, ho, hle⟩ := hkeep
      obtain ⟨p, hp, hpa⟩ := hstale.mpr ⟨hin, o, ho, hle⟩
      rw [if_neg fun hall => hall.2.2 p hp hpa, if_neg fun hex => ?_, ho, Option.filter_some,
        if_pos (by simpa using hle), Option.getD_some]
      obtain ⟨-, o', ho', hlt⟩ := holder.mp hex
      rw [ho] at ho'
      cases ho'
      omega
    · have hnone : ((ownerAt fs a).filter fun o => seq ≤ o.sequence) = none := by
        refine Option.filter_eq_none_iff.mpr fun o ho hle => hkeep ⟨o, ho, by simpa using hle⟩
      have hfree : ∀ p ∈ stalePieces seq b e fs, ¬ p.Contains a := by
        intro p hp hpa
        obtain ⟨-, o, ho, hle⟩ := hstale.mp ⟨p, hp, hpa⟩
        exact hkeep ⟨o, ho, hle⟩
      rw [if_pos ⟨hin.1, hin.2, hfree⟩, hnone, Option.getD_none]
  · rw [if_neg hin, if_neg fun hall => hin ⟨hall.1, hall.2.1⟩,
      if_neg fun hex => hin (holder.mp hex).1]

theorem Created.ownerAt {isSection : Bool} (h : Created st st' records b e seq isSection) (a : ℕ) :
    Lib.ownerAt st'.space.frags a =
      if b ≤ a ∧ a < e then
        some (((Lib.ownerAt st.space.frags a).filter fun o => seq ≤ o.sequence).getD
          ⟨st.nextMappingId, seq⟩)
      else Lib.ownerAt st.space.frags a := by
  rw [h.frags]
  exact ownerAt_claim st.space.layout st.nextMappingId a

end Bytes

/-! ## Arrival orders -/

/-- A successful `mmap` or `munmap` that `validate_raw_event` accepts. -/
structure MapOperation (monotonicOrigin customDefinitions : ℕ) (raw : LinuxHeapEvent) : Prop where
  accepted : AcceptedVm monotonicOrigin customDefinitions raw
  succeeded : raw.status = .success
  operation : raw.operation = .vmAllocate ∨ raw.operation = .vmUnmap

abbrev IsMmap (raw : LinuxHeapEvent) : Prop := raw.operation = .vmAllocate

/-- The first byte of the operation's range. -/
def rangeStart (raw : LinuxHeapEvent) : ℕ :=
  if IsMmap raw then raw.resultAddress else raw.address

abbrev Covers (raw : LinuxHeapEvent) (a : ℕ) : Prop :=
  rangeStart raw ≤ a ∧ a < rangeStart raw + raw.requestedSize

/-- Every `mmap` arrives before the `munmap`s that overlap it and complete later. -/
def ArrivalOrder (raws : List LinuxHeapEvent) : Prop :=
  raws.Pairwise fun early late =>
    ¬ (IsMmap late ∧ ¬ IsMmap early ∧ (∃ a, Covers early a ∧ Covers late a) ∧
      late.completionSequence < early.completionSequence)

/-- `raw` is the last operation, by completion sequence, that covers the byte. -/
structure LastAt (raws : List LinuxHeapEvent) (a : ℕ) (raw : LinuxHeapEvent) : Prop where
  mem : raw ∈ raws
  covers : Covers raw a
  last : ∀ r ∈ raws, Covers r a → r.completionSequence ≤ raw.completionSequence

/-- The owner the kernel leaves: the last covering operation if it is an `mmap`. -/
def LastOwner (raws : List LinuxHeapEvent) (a : ℕ) (owner : Option ℕ) : Prop :=
  (∃ raw, LastAt raws a raw ∧
    owner = if IsMmap raw then some raw.completionSequence else none) ∨
  ((∀ raw ∈ raws, ¬ Covers raw a) ∧ owner = none)

/-- The completion sequence of the `mmap` whose fragment holds the byte. -/
def owningMmap (st : VmState) (a : ℕ) : Option ℕ := (ownerAt st.space.frags a).map (·.sequence)

/-- The bytes of a generation in `live_mapping_space_`. -/
def ownedBytes (st : VmState) (id : ℕ) : Set ℕ :=
  {a | ∃ o, ownerAt st.space.frags a = some o ∧ o.mappingId = id}

section LastOwner

variable {raws : List LinuxHeapEvent} {a : ℕ}

/-- With distinct completion sequences there is one answer, whatever the order. -/
theorem LastOwner.unique {raws' : List LinuxHeapEvent} {o o' : Option ℕ}
    (hdistinct : (raws.map (·.completionSequence)).Nodup) (hmem : ∀ r, r ∈ raws ↔ r ∈ raws')
    (h : LastOwner raws a o) (h' : LastOwner raws' a o') : o = o' := by
  rcases h with ⟨r, hr, rfl⟩ | ⟨hnone, rfl⟩
  · rcases h' with ⟨r', hr', rfl⟩ | ⟨hnone', -⟩
    · have hle := hr.last r' ((hmem r').mpr hr'.mem) hr'.covers
      have hge := hr'.last r ((hmem r).mp hr.mem) hr.covers
      have : r = r' := List.inj_on_of_nodup_map hdistinct hr.mem ((hmem r').mpr hr'.mem) (by omega)
      rw [this]
    · exact absurd hr.covers (hnone' r ((hmem r).mp hr.mem))
  · rcases h' with ⟨r', hr', -⟩ | ⟨-, rfl⟩
    · exact absurd hr'.covers (hnone r' ((hmem r').mpr hr'.mem))
    · rfl

/-- An operation that misses the byte changes nothing there. -/
theorem LastOwner.miss {raw : LinuxHeapEvent} {o : Option ℕ} (h : LastOwner raws a o)
    (hmiss : ¬ Covers raw a) : LastOwner (raws ++ [raw]) a o := by
  rcases h with ⟨r, hr, rfl⟩ | ⟨hnone, rfl⟩
  · refine .inl ⟨r, ⟨by simp [hr.mem], hr.covers, fun s hs hc => ?_⟩, rfl⟩
    rcases List.mem_append.mp hs with hs | hs
    · exact hr.last s hs hc
    · rw [List.mem_singleton.mp hs] at hc
      exact absurd hc hmiss
  · refine .inr ⟨fun s hs => ?_, rfl⟩
    rcases List.mem_append.mp hs with hs | hs
    · exact hnone s hs
    · rw [List.mem_singleton.mp hs]
      exact hmiss

/-- An operation behind the last one changes nothing either. -/
theorem LastAt.behind {raw r : LinuxHeapEvent} (h : LastAt raws a r)
    (hlt : raw.completionSequence ≤ r.completionSequence) : LastAt (raws ++ [raw]) a r := by
  refine ⟨by simp [h.mem], h.covers, fun s hs hc => ?_⟩
  rcases List.mem_append.mp hs with hs | hs
  · exact h.last s hs hc
  · rw [List.mem_singleton.mp hs]
    exact hlt

/-- A newer operation than all that cover the byte is the last one. -/
theorem lastAt_newest {raw : LinuxHeapEvent} (hcovers : Covers raw a)
    (hnew : ∀ r ∈ raws, Covers r a → r.completionSequence ≤ raw.completionSequence) :
    LastAt (raws ++ [raw]) a raw := by
  refine ⟨by simp, hcovers, fun s hs hc => ?_⟩
  rcases List.mem_append.mp hs with hs | hs
  · exact hnew s hs hc
  · rw [List.mem_singleton.mp hs]

/-- An `mmap` takes the byte unless a newer `mmap` has it. -/
theorem LastOwner.mmap {raw : LinuxHeapEvent} {o : Option ℕ} (h : LastOwner raws a o)
    (hmmap : IsMmap raw) (hcovers : Covers raw a)
    (harrival : ∀ r ∈ raws, ¬ IsMmap r → Covers r a →
      r.completionSequence ≤ raw.completionSequence) :
    LastOwner (raws ++ [raw]) a
      (some ((o.filter fun s => raw.completionSequence ≤ s).getD raw.completionSequence)) := by
  have hnewest : (∀ r ∈ raws, Covers r a → r.completionSequence ≤ raw.completionSequence) →
      LastOwner (raws ++ [raw]) a (some raw.completionSequence) := fun hnew =>
    .inl ⟨raw, lastAt_newest hcovers hnew, by rw [if_pos hmmap]⟩
  rcases h with ⟨r, hr, rfl⟩ | ⟨hnone, rfl⟩
  · by_cases hrmap : IsMmap r
    · rw [if_pos hrmap, Option.filter_some]
      by_cases hle : raw.completionSequence ≤ r.completionSequence
      · rw [if_pos (by simpa using hle), Option.getD_some]
        exact .inl ⟨r, hr.behind hle, by rw [if_pos hrmap]⟩
      · rw [if_neg (by simpa using hle), Option.getD_none]
        refine hnewest fun s hs hc => ?_
        have := hr.last s hs hc
        omega
    · rw [if_neg hrmap, Option.filter_none, Option.getD_none]
      refine hnewest fun s hs hc => ?_
      have := hr.last s hs hc
      have := harrival r hr.mem hrmap hr.covers
      omega
  · rw [Option.filter_none, Option.getD_none]
    exact hnewest fun s hs hc => absurd hc (hnone s hs)

/-- A `munmap` frees the byte unless a newer `mmap` has it. -/
theorem LastOwner.munmap {raw : LinuxHeapEvent} {o : Option ℕ} (h : LastOwner raws a o)
    (hmunmap : ¬ IsMmap raw) (hcovers : Covers raw a) :
    LastOwner (raws ++ [raw]) a (o.filter fun s => raw.completionSequence ≤ s) := by
  have hnewest : (∀ r ∈ raws, Covers r a → r.completionSequence ≤ raw.completionSequence) →
      LastOwner (raws ++ [raw]) a none := fun hnew =>
    .inl ⟨raw, lastAt_newest hcovers hnew, by rw [if_neg hmunmap]⟩
  rcases h with ⟨r, hr, rfl⟩ | ⟨hnone, rfl⟩
  · have hlast : ¬ raw.completionSequence ≤ r.completionSequence →
        LastOwner (raws ++ [raw]) a none := fun hlt => hnewest fun s hs hc => by
      have := hr.last s hs hc
      omega
    by_cases hle : raw.completionSequence ≤ r.completionSequence
    · refine .inl ⟨r, hr.behind hle, ?_⟩
      split
      · rw [Option.filter_some, if_pos (by simpa using hle)]
      · rw [Option.filter_none]
    · have hgone : ((if IsMmap r then some r.completionSequence else none).filter fun s =>
          raw.completionSequence ≤ s) = none := by
        split
        · rw [Option.filter_some, if_neg (by simpa using hle)]
        · rw [Option.filter_none]
      rw [hgone]
      exact hlast hle
  · rw [Option.filter_none]
    exact hnewest fun s hs hc => absurd hc (hnone s hs)

end LastOwner

/-! ## The run -/

/-- The model after the operations `done`. -/
structure Settled (done : List LinuxHeapEvent) (st : VmState) : Prop where
  inv : Inv st
  owner : ∀ a, LastOwner done a (owningMmap st a)
  /-- A byte's generation is the one its `mmap` created. -/
  created : ∀ a o, ownerAt st.space.frags a = some o → ∃ g : LiveMappingGeneration,
    st.generations[o.mappingId]? = some g ∧ g.lastSequence = o.sequence
  next : st.nextMappingId = done.countP (fun r => IsMmap r) + 1

theorem settled_empty : Settled [] {} := by
  refine ⟨inv_empty, fun _ => .inr ⟨by simp, rfl⟩, fun a o ho => ?_, rfl⟩
  cases ho

section Step

variable {ctx : VmContext} {st : VmState} {raw : LinuxHeapEvent} {origin customs : ℕ}

theorem planStep_mmap (ctx : VmContext) (hinv : Inv st) (hraw : MapOperation origin customs raw)
    (hmmap : IsMmap raw) (hids : st.nextMappingId ≠ maxU64) :
    ∃ st' records isSection, planStep ctx st raw = .ok st' ∧
      Created st st' records (rangeStart raw) (rangeStart raw + raw.requestedSize)
        raw.completionSequence isSection := by
  obtain ⟨hbase, hsize, hrange⟩ :=
    accepted_mmap hmmap hraw.succeeded hraw.accepted.operation.2
  obtain ⟨isSection, record, heq, hrecord⟩ := planMmap_eq ctx st raw hbase hsize hrange
  obtain ⟨st', records, hplan, hcreated⟩ := planCreate_created ctx
    raw.completionSequence hinv (Nat.pos_of_ne_zero hbase) (Nat.pos_of_ne_zero hsize)
    hrange hids hrecord
  refine ⟨st', records, isSection, ?_, ?_⟩
  · unfold planStep planVmEvent
    rw [if_pos hraw.succeeded, show raw.operation = .vmAllocate from hmmap]
    simp only
    rw [heq, hplan, ok_bind]
    rfl
  · unfold rangeStart
    rw [if_pos hmmap]
    exact hcreated

theorem planStep_munmap (ctx : VmContext) (hinv : Inv st) (hraw : MapOperation origin customs raw)
    (hmunmap : ¬ IsMmap raw) :
    ∃ st' records, planStep ctx st raw = .ok st' ∧
      Released st st' records (older raw.completionSequence
        (clipAll (rangeStart raw) (rangeStart raw + raw.requestedSize) st.space.frags)) := by
  have hop : raw.operation = .vmUnmap := hraw.operation.resolve_left hmunmap
  obtain ⟨st', records, hplan, hrel⟩ := planSubtract_released ctx hinv raw.address
    (raw.address + raw.requestedSize) raw.completionSequence
  refine ⟨st', records, ?_, ?_⟩
  · unfold planStep planVmEvent
    rw [if_pos hraw.succeeded, hop]
    simp only
    unfold planMunmap
    rw [hplan, ok_bind]
    simp only
    split <;> rfl
  · unfold rangeStart
    rw [if_neg hmunmap]
    exact hrel

end Step

/-- The surviving owner of a byte still has its generation. -/
theorem Settled.survives {done : List LinuxHeapEvent} {st st' : VmState} (h : Settled done st)
    (hinv' : Inv st') {a a' : ℕ} {o : LiveFragmentOwner} (ho : ownerAt st.space.frags a = some o)
    (ho' : ownerAt st'.space.frags a' = some o)
    (hgens : ∀ g' : LiveMappingGeneration, st'.generations[o.mappingId]? = some g' →
      ∃ g : LiveMappingGeneration, st.generations[o.mappingId]? = some g ∧
        g' = { g with liveBytes := g'.liveBytes }) :
    ∃ g : LiveMappingGeneration, st'.generations[o.mappingId]? = some g ∧
      g.lastSequence = o.sequence := by
  obtain ⟨f', hf', -, rfl⟩ := (ownerAt_eq_some st'.space.layout).mp ho'
  obtain ⟨g', hg', -⟩ := hinv'.owner f' hf'
  obtain ⟨g, hg, hsame⟩ := hgens g' hg'
  obtain ⟨g0, hg0, hseq⟩ := h.created a _ ho
  rw [hg] at hg0
  cases hg0
  refine ⟨g', hg', ?_⟩
  rw [hsame]
  exact hseq

theorem Settled.mmap {done : List LinuxHeapEvent} {st st' : VmState} {raw : LinuxHeapEvent}
    {records : List VmPlanRecord} {isSection : Bool} (h : Settled done st) (hmmap : IsMmap raw)
    (harrival : ∀ r ∈ done, ∀ a, ¬ IsMmap r → Covers r a → Covers raw a →
      r.completionSequence ≤ raw.completionSequence)
    (hcreated : Created st st' records (rangeStart raw) (rangeStart raw + raw.requestedSize)
      raw.completionSequence isSection) : Settled (done ++ [raw]) st' := by
  refine ⟨hcreated.inv, fun a => ?_, fun a o ho => ?_, ?_⟩
  · unfold owningMmap
    rw [hcreated.ownerAt]
    by_cases hcovers : Covers raw a
    · rw [if_pos hcovers]
      have := (h.owner a).mmap hmmap hcovers fun r hr h1 h2 => harrival r hr a h1 h2 hcovers
      unfold owningMmap at this
      cases howner : ownerAt st.space.frags a with
      | none => simpa [howner] using this
      | some o =>
          rw [howner, Option.map_some, Option.filter_some] at this
          rw [Option.filter_some]
          split
          · rename_i hle
            simpa [show raw.completionSequence ≤ o.sequence by simpa using hle] using this
          · rename_i hle
            simpa [show ¬ raw.completionSequence ≤ o.sequence by simpa using hle] using this
    · rw [if_neg hcovers]
      exact (h.owner a).miss hcovers
  · have hinv' := hcreated.inv
    have hfrag := ho
    rw [hcreated.ownerAt] at ho
    by_cases hnew : o.mappingId = st.nextMappingId
    · -- the new generation itself
      have howner : o = ⟨st.nextMappingId, raw.completionSequence⟩ := by
        have hold : ∀ o', ownerAt st.space.frags a = some o' →
            o'.mappingId ≠ st.nextMappingId := by
          intro o' ho'
          obtain ⟨f, hf, -, rfl⟩ := (ownerAt_eq_some st.space.layout).mp ho'
          obtain ⟨g, hg, -⟩ := h.inv.owner f hf
          exact (h.inv.ids _ g hg).2.2.ne
        split at ho
        · cases hkeep : (ownerAt st.space.frags a).filter
              (fun o => decide (raw.completionSequence ≤ o.sequence)) with
          | none => simpa [hkeep] using ho.symm
          | some o' =>
              rw [hkeep, Option.getD_some] at ho
              cases ho
              exact absurd hnew (hold o (Option.filter_eq_some_iff.mp hkeep).1)
        · exact absurd hnew (hold o ho)
      obtain ⟨f, hf, -, hfv⟩ := (ownerAt_eq_some st'.space.layout).mp hfrag
      obtain ⟨g, hg, -⟩ := hinv'.owner f hf
      rw [hfv] at hg
      refine ⟨g, hg, ?_⟩
      rw [hnew, hcreated.entry, leftEntry] at hg
      split at hg
      · cases hg
      · cases hg
        rw [howner]
    · refine h.survives hinv' (a := a) ?_ hfrag fun g' => hcreated.gens _ g' hnew
      split at ho
      · cases hkeep : (ownerAt st.space.frags a).filter
            (fun o => decide (raw.completionSequence ≤ o.sequence)) with
        | none =>
            rw [hkeep, Option.getD_none] at ho
            cases ho
            exact absurd rfl hnew
        | some o' =>
            rw [hkeep, Option.getD_some] at ho
            cases ho
            exact (Option.filter_eq_some_iff.mp hkeep).1
      · exact ho
  · rw [hcreated.next, h.next, List.countP_append]
    simp [hmmap]

theorem Settled.munmap {done : List LinuxHeapEvent} {st st' : VmState} {raw : LinuxHeapEvent}
    {records : List VmPlanRecord} (h : Settled done st) (hmunmap : ¬ IsMmap raw)
    (hrel : Released st st' records (older raw.completionSequence
      (clipAll (rangeStart raw) (rangeStart raw + raw.requestedSize) st.space.frags))) :
    Settled (done ++ [raw]) st' := by
  refine ⟨hrel.inv, fun a => ?_, fun a o ho => ?_, ?_⟩
  · unfold owningMmap
    rw [hrel.ownerAt]
    by_cases hcovers : Covers raw a
    · rw [if_pos hcovers]
      have := (h.owner a).munmap hmunmap hcovers
      unfold owningMmap at this
      rw [Option.filter_map] at this
      exact this
    · rw [if_neg hcovers]
      exact (h.owner a).miss hcovers
  · have hfrag := ho
    rw [hrel.ownerAt] at ho
    refine h.survives hrel.inv (a := a) ?_ hfrag fun g' => hrel.gens _ g'
    split at ho
    · exact (Option.filter_eq_some_iff.mp ho).1
    · exact ho
  · rw [hrel.next, h.next, List.countP_append]
    simp [hmunmap]

/-- The rest of the stream, from a settled state. -/
theorem Settled.run (ctx : VmContext) {origin customs : ℕ} {done rest : List LinuxHeapEvent}
    {st : VmState} (h : Settled done st) (hops : ∀ raw ∈ rest, MapOperation origin customs raw)
    (harrival : ArrivalOrder (done ++ rest))
    (hids : (done ++ rest).countP (fun r => IsMmap r) < maxU64) :
    ∃ st', planRun ctx st rest = .ok st' ∧ Settled (done ++ rest) st' := by
  induction rest generalizing done st with
  | nil => exact ⟨st, rfl, by rw [List.append_nil]; exact h⟩
  | cons raw rest ih =>
      have hraw := hops raw (by simp)
      have hsplit : done ++ raw :: rest = (done ++ [raw]) ++ rest := by simp
      have hstep : ∃ st1, planStep ctx st raw = .ok st1 ∧ Settled (done ++ [raw]) st1 := by
        by_cases hmmap : IsMmap raw
        · have hnext : st.nextMappingId ≠ maxU64 := by
            rw [h.next]
            rw [List.countP_append, List.countP_cons, if_pos (by simpa using hmmap)] at hids
            omega
          obtain ⟨st1, _, _, hplan, hcreated⟩ := planStep_mmap ctx h.inv hraw hmmap hnext
          refine ⟨st1, hplan, h.mmap hmmap ?_ hcreated⟩
          intro r hr a hr1 hr2 hr3
          by_contra hlt
          exact (List.pairwise_append.mp harrival).2.2 r hr raw (by simp)
            ⟨hmmap, hr1, ⟨a, hr2, hr3⟩, by omega⟩
        · obtain ⟨st1, _, hplan, hrel⟩ := planStep_munmap ctx h.inv hraw hmmap
          exact ⟨st1, hplan, h.munmap hmmap hrel⟩
      obtain ⟨st1, hplan, hsettled⟩ := hstep
      rw [hsplit] at harrival hids ⊢
      obtain ⟨st2, hrun, hlast⟩ := ih hsettled (fun r hr => hops r (by simp [hr])) harrival hids
      refine ⟨st2, ?_, hlast⟩
      unfold planRun
      rw [List.foldlM_cons, hplan, ok_bind]
      exact hrun

/-- A generation's `live_bytes` count its bytes. -/
theorem Inv.liveBytes_eq_ncard {st : VmState} (hinv : Inv st) {id : ℕ} {g : LiveMappingGeneration}
    (hg : st.generations[id]? = some g) : g.liveBytes = (ownedBytes st id).ncard := by
  have hlay := layout_piecesOf st.space.layout id
  have hset : ownedBytes st id = {a | ∃ f ∈ piecesOf id st.space.frags, f.Contains a} := by
    ext a
    constructor
    · rintro ⟨o, ho, hid⟩
      obtain ⟨f, hf, hfa, rfl⟩ := (ownerAt_eq_some st.space.layout).mp ho
      exact ⟨f, mem_piecesOf.mpr ⟨hf, hid⟩, hfa⟩
    · rintro ⟨f, hf, hfa⟩
      obtain ⟨hf, hid⟩ := mem_piecesOf.mp hf
      exact ⟨f.value, (ownerAt_eq_some st.space.layout).mpr ⟨f, hf, hfa, rfl⟩, hid⟩
  rw [(hinv.bytes id g hg).1, totalBytes_fragmentsOf, hlay.totalBytes_eq_ncard.1, hset]

/-- Any two arrival orders of the same operations end in the same ownership, the
one the completion sequences decide, with every generation's bytes counted. -/
theorem arrival_order_independent (ctx : VmContext) (monotonicOrigin customDefinitions : ℕ)
    (raws raws' : List LinuxHeapEvent)
    (hops : ∀ raw ∈ raws, MapOperation monotonicOrigin customDefinitions raw)
    (hdistinct : (raws.map (·.completionSequence)).Nodup)
    (hids : raws.countP (fun r => IsMmap r) < maxU64) (hperm : raws.Perm raws')
    (harrival : ArrivalOrder raws) (harrival' : ArrivalOrder raws') :
    ∃ st st', planRun ctx {} raws = .ok st ∧ planRun ctx {} raws' = .ok st' ∧
      (∀ a, owningMmap st a = owningMmap st' a) ∧
      (∀ a, LastOwner raws a (owningMmap st a)) ∧
      (∀ a o, ownerAt st.space.frags a = some o → ∃ g : LiveMappingGeneration,
        st.generations[o.mappingId]? = some g ∧ g.lastSequence = o.sequence) ∧
      ∀ (id : ℕ) (g : LiveMappingGeneration), st.generations[id]? = some g →
        g.liveBytes = (ownedBytes st id).ncard := by
  obtain ⟨st, hrun, hsettled⟩ := settled_empty.run ctx hops harrival hids
  obtain ⟨st', hrun', hsettled'⟩ := settled_empty.run ctx
    (fun raw hraw => hops raw (hperm.mem_iff.mpr hraw)) harrival' (hperm.countP_eq _ ▸ hids)
  refine ⟨st, st', hrun, hrun', fun a => ?_, hsettled.owner, hsettled.created,
    fun id g hg => hsettled.inv.liveBytes_eq_ncard hg⟩
  exact (hsettled.owner a).unique hdistinct (fun r => hperm.mem_iff) (hsettled'.owner a)

/-- A successful anonymous `mmap` of `[address, address + size)`, the only call in
flight: it is enqueued and completed under the same number. -/
def mmapAt (sequence address size : ℕ) : LinuxHeapEvent :=
  { queueSequence := sequence
    threadId := 7
    apiId := LinuxLogicalHookApi.mmap.apiId
    operation := .vmAllocate
    status := .success
    requestedSize := size
    resultAddress := address
    sectionHandle := maxU64
    completionSequence := sequence }

def munmapAt (sequence address size : ℕ) : LinuxHeapEvent :=
  { queueSequence := sequence
    threadId := 7
    apiId := LinuxLogicalHookApi.munmap.apiId
    operation := .vmUnmap
    status := .success
    address := address
    requestedSize := size
    completionSequence := sequence }

theorem arrival_order_independent_overlapping :
    ∃ st st',
      planRun ⟨false, 1⟩ {} [mmapAt 1 0x1000 0x2000, munmapAt 2 0x2000 0x1000,
        mmapAt 3 0x2000 0x2000] = .ok st ∧
      planRun ⟨false, 1⟩ {} [mmapAt 3 0x2000 0x2000, mmapAt 1 0x1000 0x2000,
        munmapAt 2 0x2000 0x1000] = .ok st' ∧
      ∀ a, owningMmap st a = owningMmap st' a := by
  obtain ⟨st, st', h1, h2, h3, -⟩ := arrival_order_independent ⟨false, 1⟩ 0 0
    [mmapAt 1 0x1000 0x2000, munmapAt 2 0x2000 0x1000, mmapAt 3 0x2000 0x2000]
    [mmapAt 3 0x2000 0x2000, mmapAt 1 0x1000 0x2000, munmapAt 2 0x2000 0x1000]
    (by
      intro raw hraw
      fin_cases hraw
      · exact ⟨⟨by decide, 0, by decide⟩, rfl, by decide⟩
      · exact ⟨⟨by decide, 1, by decide⟩, rfl, by decide⟩
      · exact ⟨⟨by decide, 2, by decide⟩, rfl, by decide⟩)
    (by decide) (by decide) (by decide)
    (by
      refine List.Pairwise.cons ?_ (List.pairwise_pair.mpr ?_)
      · intro late hlate
        fin_cases hlate <;> simp [mmapAt]
      · simp [mmapAt, munmapAt])
    (by
      refine List.Pairwise.cons ?_ (List.pairwise_pair.mpr ?_)
      · intro late hlate
        fin_cases hlate <;> simp [mmapAt]
      · simp [mmapAt])
  exact ⟨st, st', h1, h2, h3⟩

end Noleax.Vm
