import Noleax.Vm.Ownership

/-!
# The pages behind the bytes

The kernel rounds the length of an `mmap` or `munmap` up to whole pages; the model
keeps the caller's length. Both agree on a page as long as no call leaves live bytes
in the part of its last page that its length does not reach.
-/

namespace Noleax.Vm

open Lib Trace Agent VmState

/-! ## Rounding -/

section Rounding

variable {pageSize : ℕ}

/-- A length in whole pages. -/
def roundUp (pageSize length : ℕ) : ℕ := (length + pageSize - 1) / pageSize * pageSize

theorem le_roundUp (hpage : 0 < pageSize) (length : ℕ) : length ≤ roundUp pageSize length := by
  have hmod := Nat.div_add_mod' (length + pageSize - 1) pageSize
  have hlt := Nat.mod_lt (length + pageSize - 1) hpage
  unfold roundUp
  omega

/-- Every page of the rounded length starts below the length itself. -/
theorem mul_lt_of_mul_lt_roundUp (hpage : 0 < pageSize) {n length : ℕ}
    (h : n * pageSize < roundUp pageSize length) : n * pageSize < length := by
  have hn : n < (length + pageSize - 1) / pageSize := Nat.lt_of_mul_lt_mul_right h
  have hle : (n + 1) * pageSize ≤ length + pageSize - 1 :=
    (Nat.le_div_iff_mul_le hpage).mp hn
  rw [Nat.add_mul, Nat.one_mul] at hle
  omega

/-- A page lies inside or outside a range of whole pages. -/
theorem page_mem_iff (hpage : 0 < pageSize) {start a : ℕ} (haligned : pageSize ∣ start)
    (length : ℕ) :
    (start ≤ a / pageSize * pageSize ∧
      a / pageSize * pageSize < start + roundUp pageSize length) ↔
    (start ≤ a ∧ a < start + roundUp pageSize length) := by
  obtain ⟨first, rfl⟩ := haligned
  unfold roundUp
  rw [Nat.mul_comm pageSize first, ← Nat.add_mul]
  constructor
  · rintro ⟨hlow, hhigh⟩
    have hdiv : a / pageSize < first + (length + pageSize - 1) / pageSize :=
      Nat.lt_of_mul_lt_mul_right hhigh
    exact ⟨hlow.trans (Nat.div_mul_le_self ..), (Nat.div_lt_iff_lt_mul hpage).mp hdiv⟩
  · rintro ⟨hlow, hhigh⟩
    have hdiv : first ≤ a / pageSize := (Nat.le_div_iff_mul_le hpage).mpr hlow
    exact ⟨Nat.mul_le_mul_right _ hdiv, lt_of_le_of_lt (Nat.div_mul_le_self ..) hhigh⟩

end Rounding

/-! ## The reference kernel -/

/-- The `mmap` call that backs a page, if the page is mapped. -/
abbrev Kernel := ℕ → Option LinuxHeapEvent

/-- The call's range, rounded to pages, contains the page. -/
abbrev CoversPage (pageSize : ℕ) (raw : LinuxHeapEvent) (page : ℕ) : Prop :=
  rangeStart raw ≤ page * pageSize ∧
    page * pageSize < rangeStart raw + roundUp pageSize raw.requestedSize

/-- `mmap` replaces what its pages held, `munmap` unmaps them. -/
def Kernel.step (pageSize : ℕ) (kernel : Kernel) (raw : LinuxHeapEvent) : Kernel := fun page =>
  if CoversPage pageSize raw page then (if IsMmap raw then some raw else none) else kernel page

def Kernel.run (pageSize : ℕ) (raws : List LinuxHeapEvent) : Kernel :=
  raws.foldl (Kernel.step pageSize) fun _ => none

/-- A successful `mmap` or `munmap` at a page, of a positive length that stays in the
address space when rounded. -/
structure PageOperation (pageSize monotonicOrigin customDefinitions : ℕ)
    (raw : LinuxHeapEvent) : Prop
    extends MapOperation monotonicOrigin customDefinitions raw where
  aligned : pageSize ∣ rangeStart raw
  positive : 0 < raw.requestedSize
  fits : rangeStart raw + roundUp pageSize raw.requestedSize ≤ 2 ^ 64

/-- The owner is the generation that the `mmap` call created. -/
def OwnedBy (st : VmState) (o : LiveFragmentOwner) (raw : LinuxHeapEvent) : Prop :=
  o.sequence = raw.completionSequence ∧ ∃ g : LiveMappingGeneration,
    st.generations[o.mappingId]? = some g ∧ g.lastSequence = raw.completionSequence

/-- A page has live bytes if and only if the kernel maps it, and they are owned by
the generation of the last `mmap` of the page. -/
structure PagesAgree (pageSize : ℕ) (kernel : Kernel) (st : VmState) : Prop where
  mapped : ∀ page, (∃ a, a / pageSize = page ∧ ownerAt st.space.frags a ≠ none) ↔
    kernel page ≠ none
  owned : ∀ page a o, a / pageSize = page → ownerAt st.space.frags a = some o →
    ∃ raw, kernel page = some raw ∧ OwnedBy st o raw

/-- Nothing is live between the end of the call's range and the end of its last page. -/
def TailUntracked (pageSize : ℕ) (st : VmState) (raw : LinuxHeapEvent) : Prop :=
  ∀ a, rangeStart raw + raw.requestedSize ≤ a →
    a < rangeStart raw + roundUp pageSize raw.requestedSize → ownerAt st.space.frags a = none

/-! ## One call -/

section Step

variable {pageSize origin customs : ℕ} {ctx : VmContext} {done : List LinuxHeapEvent}
  {st st' : VmState} {raw : LinuxHeapEvent} {kernel : Kernel}

/-- Owners are as old as the calls done. -/
theorem Settled.sequence_lt (h : Settled done st)
    (hlater : ∀ r ∈ done, r.completionSequence < raw.completionSequence) {a : ℕ}
    {o : LiveFragmentOwner} (ho : ownerAt st.space.frags a = some o) :
    o.sequence < raw.completionSequence := by
  have howner := h.owner a
  unfold owningMmap at howner
  rw [ho, Option.map_some] at howner
  rcases howner with ⟨r, hlast, heq⟩ | ⟨-, hnone⟩
  · split at heq
    · have := hlater r hlast.mem
      have := Option.some.inj heq
      omega
    · cases heq
  · cases hnone

/-- The byte-exact effect of one call, later than all before. -/
structure Applied (st st' : VmState) (raw : LinuxHeapEvent) : Prop where
  ownerAt : ∀ a, Lib.ownerAt st'.space.frags a =
    if Covers raw a then
      (if IsMmap raw then some ⟨st.nextMappingId, raw.completionSequence⟩ else none)
    else Lib.ownerAt st.space.frags a

/-- A call in completion order is accepted and overrides what its range held. -/
theorem Settled.applied (h : Settled done st) (hraw : MapOperation origin customs raw)
    (hlater : ∀ r ∈ done, r.completionSequence < raw.completionSequence)
    (hstep : planStep ctx st raw = .ok st') : Settled (done ++ [raw]) st' ∧ Applied st st' raw := by
  have hfilter : ∀ a, (ownerAt st.space.frags a).filter
      (fun o => decide (raw.completionSequence ≤ o.sequence)) = none := by
    intro a
    apply Option.filter_eq_none_iff.mpr
    intro o ho
    have := h.sequence_lt hlater ho
    simpa using this
  by_cases hmmap : IsMmap raw
  · have hids : st.nextMappingId ≠ maxU64 := by
      intro hids
      obtain ⟨hbase, hsize, hrange⟩ :=
        accepted_mmap hmmap hraw.succeeded hraw.accepted.operation.2
      obtain ⟨isSection, record, heq, -⟩ := planMmap_eq ctx st raw hbase hsize hrange
      unfold planStep planVmEvent at hstep
      rw [if_pos hraw.succeeded, show raw.operation = .vmAllocate from hmmap] at hstep
      simp only at hstep
      rw [heq, planCreate_exhausted hids, error_bind] at hstep
      cases hstep
    obtain ⟨st1, records, isSection, hplan, hcreated⟩ := planStep_mmap ctx h.inv hraw hmmap hids
    rw [hplan] at hstep
    cases hstep
    refine ⟨h.mmap hmmap (fun r hr _ _ _ _ => (hlater r hr).le) hcreated, ⟨fun a => ?_⟩⟩
    rw [hcreated.ownerAt, hfilter, Option.getD_none, if_pos hmmap]
  · obtain ⟨st1, records, hplan, hrel⟩ := planStep_munmap ctx h.inv hraw hmmap
    rw [hplan] at hstep
    cases hstep
    refine ⟨h.munmap hmmap hrel, ⟨fun a => ?_⟩⟩
    rw [hrel.ownerAt, hfilter, if_neg hmmap]

/-- A byte of the call's own range is in a page the kernel touches. -/
theorem coversPage_of_covers (hpage : 0 < pageSize) (haligned : pageSize ∣ rangeStart raw) {a : ℕ}
    (h : Covers raw a) : CoversPage pageSize raw (a / pageSize) := by
  have hle := le_roundUp hpage raw.requestedSize
  exact (page_mem_iff hpage haligned _).mpr ⟨h.1, by omega⟩

/-- The first byte of a page the kernel touches is in the call's own range. -/
theorem covers_of_coversPage (hpage : 0 < pageSize) (haligned : pageSize ∣ rangeStart raw)
    {page : ℕ} (h : CoversPage pageSize raw page) : Covers raw (page * pageSize) := by
  obtain ⟨first, hfirst⟩ := haligned
  obtain ⟨hlow, hhigh⟩ := h
  rw [hfirst, Nat.mul_comm pageSize first] at hlow hhigh
  have hle : first ≤ page := Nat.le_of_mul_le_mul_right hlow hpage
  have hsub : (page - first) * pageSize < roundUp pageSize raw.requestedSize := by
    rw [Nat.sub_mul]
    omega
  have hlt := mul_lt_of_mul_lt_roundUp hpage hsub
  rw [Nat.sub_mul] at hlt
  unfold Covers
  rw [hfirst, Nat.mul_comm pageSize first]
  omega

/-- A byte of a touched page is in the range or in the tail. -/
theorem tail_of_coversPage (hpage : 0 < pageSize) (haligned : pageSize ∣ rangeStart raw) {a : ℕ}
    (h : CoversPage pageSize raw (a / pageSize)) (hout : ¬ Covers raw a) :
    rangeStart raw + raw.requestedSize ≤ a ∧
      a < rangeStart raw + roundUp pageSize raw.requestedSize := by
  obtain ⟨hlow, hhigh⟩ := (page_mem_iff hpage haligned _).mp h
  exact ⟨Nat.le_of_not_lt fun hlt => hout ⟨hlow, hlt⟩, hhigh⟩

/-- With the tail free, the touched pages hold the call's own bytes alone. -/
theorem PagesAgree.step (hpage : 0 < pageSize) (hraw : PageOperation pageSize origin customs raw)
    (hagree : PagesAgree pageSize kernel st) (happlied : Applied st st' raw)
    (hsettled : Settled (done ++ [raw]) st') (htail : TailUntracked pageSize st raw) :
    PagesAgree pageSize (kernel.step pageSize raw) st' := by
  have haligned := hraw.aligned
  constructor
  · intro page
    unfold Kernel.step
    by_cases hcovers : CoversPage pageSize raw page
    · rw [if_pos hcovers]
      by_cases hmmap : IsMmap raw
      · rw [if_pos hmmap]
        refine iff_of_true ⟨page * pageSize, Nat.mul_div_cancel _ hpage, ?_⟩ (by simp)
        rw [happlied.ownerAt, if_pos (covers_of_coversPage hpage haligned hcovers), if_pos hmmap]
        simp
      · rw [if_neg hmmap]
        refine iff_of_false ?_ (by simp)
        rintro ⟨a, rfl, hlive⟩
        rw [happlied.ownerAt] at hlive
        by_cases hin : Covers raw a
        · rw [if_pos hin, if_neg hmmap] at hlive
          exact hlive rfl
        · obtain ⟨hlow, hhigh⟩ := tail_of_coversPage hpage haligned hcovers hin
          rw [if_neg hin] at hlive
          exact hlive (htail a hlow hhigh)
    · rw [if_neg hcovers, ← hagree.mapped page]
      have hsame : ∀ a, a / pageSize = page →
          ownerAt st'.space.frags a = ownerAt st.space.frags a := by
        rintro a rfl
        rw [happlied.ownerAt, if_neg fun hin => hcovers (coversPage_of_covers hpage haligned hin)]
      constructor
      · rintro ⟨a, ha, hlive⟩
        exact ⟨a, ha, by rwa [hsame a ha] at hlive⟩
      · rintro ⟨a, ha, hlive⟩
        exact ⟨a, ha, by rwa [hsame a ha]⟩
  · rintro page a o rfl ho
    obtain ⟨g, hg, hlast⟩ := hsettled.created a o ho
    unfold Kernel.step
    rw [happlied.ownerAt] at ho
    by_cases hin : Covers raw a
    · rw [if_pos (coversPage_of_covers hpage haligned hin)]
      rw [if_pos hin] at ho
      by_cases hmmap : IsMmap raw
      · rw [if_pos hmmap] at ho ⊢
        obtain rfl := Option.some.inj ho
        exact ⟨raw, rfl, rfl, g, hg, hlast⟩
      · rw [if_neg hmmap] at ho
        cases ho
    · rw [if_neg hin] at ho
      by_cases hcovers : CoversPage pageSize raw (a / pageSize)
      · obtain ⟨hlow, hhigh⟩ := tail_of_coversPage hpage haligned hcovers hin
        rw [htail a hlow hhigh] at ho
        cases ho
      · rw [if_neg hcovers]
        obtain ⟨r, hr, hseq, -⟩ := hagree.owned _ a o rfl ho
        exact ⟨r, hr, hseq, g, hg, by rw [hlast, hseq]⟩

/-- A live byte of the tail outlives the call in a page that is no longer its own. -/
theorem PagesAgree.tailUntracked (hpage : 0 < pageSize)
    (hraw : PageOperation pageSize origin customs raw) (hsettled : Settled done st)
    (hlater : ∀ r ∈ done, r.completionSequence < raw.completionSequence)
    (happlied : Applied st st' raw)
    (hagree : PagesAgree pageSize (kernel.step pageSize raw) st') :
    TailUntracked pageSize st raw := by
  intro a hlow hhigh
  cases ho : ownerAt st.space.frags a with
  | none => rfl
  | some o =>
      exfalso
      have hout : ¬ Covers raw a := fun hin => by have := hin.2; omega
      have hcovers : CoversPage pageSize raw (a / pageSize) :=
        (page_mem_iff hpage hraw.aligned _).mpr ⟨by omega, hhigh⟩
      have ho' : ownerAt st'.space.frags a = some o := by
        rw [happlied.ownerAt, if_neg hout, ho]
      obtain ⟨r, hr, hseq, -⟩ := hagree.owned _ a o rfl ho'
      unfold Kernel.step at hr
      rw [if_pos hcovers] at hr
      split at hr
      · cases hr
        have := hsettled.sequence_lt hlater ho
        omega
      · cases hr

end Step

/-! ## Runs -/

section Runs

variable {pageSize origin customs : ℕ} {ctx : VmContext} {raws : List LinuxHeapEvent}

/-- The calls of the list, in completion order. -/
abbrev CompletionOrder (raws : List LinuxHeapEvent) : Prop :=
  raws.Pairwise fun early late => early.completionSequence < late.completionSequence

theorem Kernel.run_append_singleton (before : List LinuxHeapEvent) (raw : LinuxHeapEvent) :
    Kernel.run pageSize (before ++ [raw]) = (Kernel.run pageSize before).step pageSize raw := by
  simp [Kernel.run]

theorem planRun_append_singleton {before : List LinuxHeapEvent} {raw : LinuxHeapEvent}
    {st' : VmState} (h : planRun ctx {} (before ++ [raw]) = .ok st') :
    ∃ st, planRun ctx {} before = .ok st ∧ planStep ctx st raw = .ok st' := by
  obtain ⟨st, hbefore, hlast⟩ := foldlM_append_eq_ok.mp h
  rw [List.foldlM_cons] at hlast
  obtain ⟨next, hstep, hnil⟩ := bind_eq_ok.mp hlast
  cases hnil
  exact ⟨st, hbefore, hstep⟩

theorem later_of_order {before : List LinuxHeapEvent} {raw : LinuxHeapEvent}
    (horder : CompletionOrder (before ++ [raw])) :
    ∀ r ∈ before, r.completionSequence < raw.completionSequence := fun r hr =>
  (List.pairwise_append.mp horder).2.2 r hr raw (List.mem_singleton.mpr rfl)

theorem planRun_settled (hops : ∀ raw ∈ raws, MapOperation origin customs raw)
    (horder : CompletionOrder raws) {st : VmState} (hrun : planRun ctx {} raws = .ok st) :
    Settled raws st := by
  induction raws using List.reverseRecOn generalizing st with
  | nil =>
      cases hrun
      exact settled_empty
  | append_singleton before raw ih =>
      obtain ⟨mid, hbefore, hstep⟩ := planRun_append_singleton hrun
      have hsettled := ih (fun r hr => hops r (by simp [hr]))
        (List.pairwise_append.mp horder).1 hbefore
      exact (hsettled.applied (hops raw (by simp)) (later_of_order horder) hstep).1

/-- The states of a run agree with the kernel exactly when every call that was
processed found the rest of its last page free. -/
theorem pages_agree_iff (ctx : VmContext) (pageSize monotonicOrigin customDefinitions : ℕ)
    (hpage : 0 < pageSize) (raws : List LinuxHeapEvent)
    (hops : ∀ raw ∈ raws, PageOperation pageSize monotonicOrigin customDefinitions raw)
    (horder : CompletionOrder raws) :
    (∀ before after st, raws = before ++ after → planRun ctx {} before = .ok st →
      PagesAgree pageSize (Kernel.run pageSize before) st) ↔
    ∀ before raw after st st', raws = before ++ raw :: after → planRun ctx {} before = .ok st →
      planStep ctx st raw = .ok st' → TailUntracked pageSize st raw := by
  -- what a split of the list gives for the call in the middle
  have hsplit : ∀ before raw after, raws = before ++ raw :: after →
      (∀ r ∈ before, MapOperation monotonicOrigin customDefinitions r) ∧
      PageOperation pageSize monotonicOrigin customDefinitions raw ∧
      CompletionOrder before ∧ ∀ r ∈ before, r.completionSequence < raw.completionSequence := by
    rintro before raw after rfl
    obtain ⟨hbefore, -, hcross⟩ := List.pairwise_append.mp horder
    exact ⟨fun r hr => (hops r (by simp [hr])).toMapOperation, hops raw (by simp), hbefore,
      fun r hr => hcross r hr raw (by simp)⟩
  constructor
  · intro hagree before raw after st st' heq hrun hstep
    obtain ⟨hmaps, hraw, hbefore, hlater⟩ := hsplit before raw after heq
    have hsettled := planRun_settled hmaps hbefore hrun
    obtain ⟨-, happlied⟩ := hsettled.applied hraw.toMapOperation hlater hstep
    have hrun' : planRun ctx {} (before ++ [raw]) = .ok st' := by
      apply foldlM_append_eq_ok.mpr
      refine ⟨st, hrun, ?_⟩
      rw [List.foldlM_cons, hstep, ok_bind]
      rfl
    have hnext := hagree (before ++ [raw]) after st' (by rw [heq]; simp) hrun'
    rw [Kernel.run_append_singleton] at hnext
    exact hnext.tailUntracked hpage hraw hsettled hlater happlied
  · intro htails before
    induction before using List.reverseRecOn with
    | nil =>
        intro after st _ hrun
        cases hrun
        constructor
        · intro page
          exact iff_of_false (fun ⟨a, _, hlive⟩ => hlive rfl) (fun hmapped => hmapped rfl)
        · intro page a o _ ho
          cases ho
    | append_singleton before raw ih =>
        intro after st' heq hrun
        have heq : raws = before ++ raw :: after := by rw [heq]; simp
        obtain ⟨st, hbefore, hstep⟩ := planRun_append_singleton hrun
        obtain ⟨hmaps, hraw, horder', hlater⟩ := hsplit before raw after heq
        obtain ⟨hsettled, happlied⟩ := (planRun_settled hmaps horder' hbefore).applied
          hraw.toMapOperation hlater hstep
        rw [Kernel.run_append_singleton]
        exact (ih (raw :: after) st heq hbefore).step hpage hraw happlied hsettled
          (htails before raw after st st' heq hbefore hstep)

end Runs

/-! ## A page tail that stays

The mapping has a page and a half; the `munmap` names one byte of its second page,
so the kernel unmaps both pages. -/

def unmappedTail : List LinuxHeapEvent := [mmapAt 1 0x1000 0x1800, munmapAt 2 0x1000 0x1001]

theorem unmappedTail_operations : ∀ raw ∈ unmappedTail, PageOperation 0x1000 0 0 raw := by
  intro raw hraw
  fin_cases hraw
  · exact ⟨⟨⟨by decide, 0, by decide⟩, rfl, by decide⟩, by decide, by decide, by decide⟩
  · exact ⟨⟨⟨by decide, 1, by decide⟩, rfl, by decide⟩, by decide, by decide, by decide⟩

/-- The kernel maps nothing, and the second page has live bytes. -/
theorem unmappedTail_live :
    ¬ ∀ (ctx : VmContext) (pageSize monotonicOrigin customDefinitions : ℕ)
      (raws : List LinuxHeapEvent), 0 < pageSize →
      (∀ raw ∈ raws, PageOperation pageSize monotonicOrigin customDefinitions raw) →
      CompletionOrder raws → ∀ before after st, raws = before ++ after →
      planRun ctx {} before = .ok st → PagesAgree pageSize (Kernel.run pageSize before) st := by
  intro hclaim
  obtain ⟨st, hrun, hfrags⟩ := exists_ok_of_map (f := fun st : VmState => st.space.frags)
    (b := [⟨0x2001, 0x2800, ⟨1, 1⟩⟩])
    (show (planRun ⟨false, 1⟩ {} unmappedTail).map _ = _ by decide +kernel)
  have hagree := hclaim ⟨false, 1⟩ 0x1000 0 0 unmappedTail (by decide) unmappedTail_operations
    (by simp [CompletionOrder, unmappedTail, mmapAt, munmapAt]) unmappedTail [] st (by simp) hrun
  refine (hagree.mapped 2).mp ⟨0x2001, by decide, ?_⟩ (by decide)
  rw [hfrags]
  decide

/-- An `munmap` of the same length finds the rest of the last page free. -/
theorem pages_agree_iff_whole :
    ∃ st, planRun ⟨false, 1⟩ {} [mmapAt 1 0x1000 0x1800, munmapAt 2 0x1000 0x1800] = .ok st ∧
      PagesAgree 0x1000
        (Kernel.run 0x1000 [mmapAt 1 0x1000 0x1800, munmapAt 2 0x1000 0x1800]) st := by
  obtain ⟨st, hrun, -⟩ := exists_ok_of_map (f := fun st : VmState => st.space.frags) (b := [])
    (show (planRun ⟨false, 1⟩ {} [mmapAt 1 0x1000 0x1800, munmapAt 2 0x1000 0x1800]).map _ = _
      by decide +kernel)
  refine ⟨st, hrun, (pages_agree_iff ⟨false, 1⟩ 0x1000 0 0 (by decide)
    [mmapAt 1 0x1000 0x1800, munmapAt 2 0x1000 0x1800] ?_ (by
      simp [CompletionOrder, mmapAt, munmapAt])).mpr ?_ _ [] st (by simp) hrun⟩
  · intro raw hraw
    fin_cases hraw
    · exact ⟨⟨⟨by decide, 0, by decide⟩, rfl, by decide⟩, by decide, by decide, by decide⟩
    · exact ⟨⟨⟨by decide, 1, by decide⟩, rfl, by decide⟩, by decide, by decide, by decide⟩
  · intro before raw after st st' heq hbefore hstep a hlow hhigh
    rcases before with _ | ⟨first, _ | ⟨second, rest⟩⟩
    · cases hbefore
      rfl
    · -- the mapping ends where the `munmap` does
      simp only [List.cons_append, List.nil_append, List.cons.injEq] at heq
      obtain ⟨rfl, rfl, -⟩ := heq
      obtain ⟨st1, hfirst, hfrags⟩ := exists_ok_of_map (f := fun st : VmState => st.space.frags)
        (b := [⟨0x1000, 0x2800, ⟨1, 1⟩⟩])
        (show (planRun ⟨false, 1⟩ {} [mmapAt 1 0x1000 0x1800]).map _ = _ by decide +kernel)
      rw [hfirst] at hbefore
      cases hbefore
      rw [hfrags]
      apply ownerAt_eq_none.mpr
      intro f hf hin
      obtain rfl := List.mem_singleton.mp hf
      have hstop : a < 0x2800 := hin.2
      have hstart : 0x2800 ≤ a := hlow
      omega
    · simp at heq

end Noleax.Vm
