import Noleax.Lib.Checked
import Noleax.Trace.Snapshot

/-!
# The agent's memory registry (`agent/linux/agent_memory.cpp`)

Dedicated mappings are registered as regions, whose resident pages the kernel reports;
heap-backed components leave an estimate in the slot of their category. A snapshot has one
sample for each category, with the bytes of all its contributions added up.
-/

namespace Noleax.Agent

open Lib Trace

/-! ## The registry -/

def maximumRegions : ℕ := 8

/-- Categories number from one; slot zero stays empty. -/
def categorySlots : ℕ := 7

def categoryEventQueue : ℕ := 1

def agentMemoryCategoryFlagExact : ℕ := 1

structure MemoryRegion where
  base : ℕ
  bytes : ℕ
  category : ℕ
deriving DecidableEq, Repr

structure MemoryEstimate where
  reservedBytes : ℕ
  residentBytes : ℕ
deriving DecidableEq, Repr

structure AgentMemoryRegistry where
  regions : List MemoryRegion
  estimates : List (Option MemoryEstimate)
  regions_le : regions.length ≤ maximumRegions
  estimates_length : estimates.length = categorySlots

/-- `AgentMemoryError`, with its text. -/
structure AgentMemoryError where
  message : String
deriving DecidableEq, Repr

namespace AgentMemoryRegistry

def empty : AgentMemoryRegistry where
  regions := []
  estimates := List.replicate categorySlots none
  regions_le := Nat.zero_le _
  estimates_length := List.length_replicate

/-- `register_region` -/
def registerRegion (registry : AgentMemoryRegistry) (region : MemoryRegion) :
    Except AgentMemoryError AgentMemoryRegistry :=
  if h : registry.regions.length = maximumRegions then
    .error ⟨"agent memory region registry is full"⟩
  else .ok { registry with
    regions := registry.regions ++ [region]
    regions_le := by
      rw [List.length_append]
      exact Nat.lt_of_le_of_ne registry.regions_le h }

/-- `unregister_region`: the last region takes the place of the first one at `base`. -/
def unregisterRegion (registry : AgentMemoryRegistry) (base : ℕ) : AgentMemoryRegistry :=
  match registry.regions.findIdx? fun region => region.base = base, registry.regions.getLast? with
  | some index, some last => { registry with
      regions := (registry.regions.set index last).dropLast
      regions_le := by
        rw [List.length_dropLast, List.length_set]
        exact Nat.le_trans (Nat.sub_le _ _) registry.regions_le }
  | _, _ => registry

/-- `set_estimate`, and `clear_estimate` for `none`. -/
def putEstimate (registry : AgentMemoryRegistry) (category : ℕ)
    (estimate : Option MemoryEstimate) : AgentMemoryRegistry :=
  if categorySlots ≤ category then registry
  else { registry with
    estimates := registry.estimates.set category estimate
    estimates_length := List.length_set.trans registry.estimates_length }

end AgentMemoryRegistry

inductive RegistryUpdate where
  | register (region : MemoryRegion)
  | unregister (base : ℕ)
  | estimate (category : ℕ) (value : Option MemoryEstimate)

/-- One call of the registry; a refused registration leaves it as it is. -/
def AgentMemoryRegistry.update (registry : AgentMemoryRegistry) :
    RegistryUpdate → AgentMemoryRegistry
  | .register region =>
      match registry.registerRegion region with
      | .ok registered => registered
      | .error _ => registry
  | .unregister base => registry.unregisterRegion base
  | .estimate category value => registry.putEstimate category value

section Updates

variable {registry : AgentMemoryRegistry} {region : MemoryRegion}

theorem registerRegion_ok {registered : AgentMemoryRegistry}
    (h : registry.registerRegion region = .ok registered) :
    registered.regions = registry.regions ++ [region] := by
  unfold AgentMemoryRegistry.registerRegion at h
  split at h
  · cases h
  · cases h
    rfl

/-- What is replaced by the last element is the only one that goes. -/
theorem mem_dropLast_set {α : Type} {l : List α} {last kept : α} {index : ℕ}
    (hlast : l.getLast? = some last) (hkept : kept ∈ l) (hother : l[index]? ≠ some kept)
    (hindex : index < l.length) : kept ∈ (l.set index last).dropLast := by
  obtain ⟨front, rfl⟩ := List.getLast?_eq_some_iff.mp hlast
  by_cases hend : index = front.length
  · rw [hend, List.getElem?_append_right (Nat.le_refl _), Nat.sub_self] at hother
    rw [hend, List.set_append_right _ _ (Nat.le_refl _), Nat.sub_self]
    show kept ∈ (front ++ [last]).dropLast
    rw [List.dropLast_concat]
    exact (List.mem_append.mp hkept).resolve_right fun h =>
      hother (congrArg some (List.mem_singleton.mp h).symm)
  · rw [List.length_append, List.length_singleton] at hindex
    have hfront : index < front.length := by omega
    rw [List.getElem?_append_left hfront] at hother
    rw [List.set_append_left _ _ hfront, List.dropLast_concat]
    cases List.mem_append.mp hkept with
    | inl hin =>
        obtain ⟨place, hplace, rfl⟩ := List.mem_iff_getElem.mp hin
        have hne : index ≠ place := by
          intro heq
          subst heq
          exact hother (List.getElem?_eq_getElem hplace)
        rw [← List.getElem_set_ne hne (by simpa using hplace)]
        exact List.getElem_mem _
    | inr hin =>
        rw [List.mem_singleton.mp hin]
        exact List.mem_set hfront last

/-- A region stays registered until its base is unregistered. -/
theorem mem_regions_update (hregion : region ∈ registry.regions) {update : RegistryUpdate}
    (hupdate : ∀ base, update = .unregister base → region.base ≠ base) :
    region ∈ (registry.update update).regions := by
  cases update with
  | register other =>
      show region ∈ (match registry.registerRegion other with
        | .ok registered => registered
        | .error _ => registry).regions
      cases h : registry.registerRegion other with
      | ok registered =>
          rw [registerRegion_ok h]
          exact List.mem_append_left _ hregion
      | error => exact hregion
  | unregister base =>
      show region ∈ (registry.unregisterRegion base).regions
      unfold AgentMemoryRegistry.unregisterRegion
      split
      · rename_i index last hindex hlast
        obtain ⟨hbound, hbase, -⟩ := List.findIdx?_eq_some_iff_getElem.mp hindex
        refine mem_dropLast_set hlast hregion ?_ hbound
        intro heq
        rw [List.getElem?_eq_getElem hbound] at heq
        rw [Option.some.inj heq] at hbase
        exact hupdate base rfl (of_decide_eq_true hbase)
      · exact hregion
  | estimate category value =>
      show region ∈ (registry.putEstimate category value).regions
      unfold AgentMemoryRegistry.putEstimate
      split
      · exact hregion
      · exact hregion

/-- Nor do other updates in any order. -/
theorem mem_regions_updates (hregion : region ∈ registry.regions) (updates : List RegistryUpdate)
    (hupdates : .unregister region.base ∉ updates) :
    region ∈ (updates.foldl AgentMemoryRegistry.update registry).regions := by
  induction updates generalizing registry with
  | nil => exact hregion
  | cons update updates ih =>
      rw [List.mem_cons, not_or] at hupdates
      refine ih (mem_regions_update hregion ?_) hupdates.2
      intro base heq hbase
      exact hupdates.1 (hbase ▸ heq.symm)

end Updates

/-! ## Measuring -/

/-- `measured_resident_bytes`: `residency` is what `mincore` leaves in the scratch vector, one
byte for each page, or nothing when it fails. -/
def measuredResidentBytes (pageSize : ℕ) (residency : Option Bytes) (bytes : ℕ) : ℕ :=
  let pages := (bytes + pageSize - 1) % 2 ^ 64 / pageSize
  match residency with
  | none => 0
  | some scratch => (scratch.take pages).countP (fun byte => byte &&& 1 ≠ 0) * pageSize

/-- `checked_add_category_bytes` -/
def checkedAddCategoryBytes (total value : ℕ) : Except AgentMemoryError ℕ := do
  failIf (maxU64 - total < value) ⟨"agent memory category byte total overflow"⟩
  return total + value

/-! ## The snapshot -/

section Snapshot

variable (pageSize : ℕ) (mincore : MemoryRegion → Option Bytes)

/-- The sample of a region. -/
def regionSample (region : MemoryRegion) : AgentMemoryCategorySample where
  category := region.category
  flags := agentMemoryCategoryFlagExact
  reservedBytes := region.bytes
  residentBytes := measuredResidentBytes pageSize (mincore region) region.bytes

/-- The sample of an estimate slot. -/
def estimateSample (slot : ℕ) (estimate : MemoryEstimate) : AgentMemoryCategorySample where
  category := slot
  flags := 0
  reservedBytes := estimate.reservedBytes
  residentBytes := estimate.residentBytes

/-- The slots that hold an estimate, in order from `slot` on. -/
def estimateSamples (slot : ℕ) : List (Option MemoryEstimate) → List AgentMemoryCategorySample
  | [] => []
  | none :: rest => estimateSamples (slot + 1) rest
  | some estimate :: rest => estimateSample slot estimate :: estimateSamples (slot + 1) rest

/-- What the two loops of `snapshot` append. -/
def contributions (registry : AgentMemoryRegistry) : List AgentMemoryCategorySample :=
  registry.regions.map (regionSample pageSize mincore) ++ estimateSamples 0 registry.estimates

/-- The inner merge loop: the later samples of the first one's category are added to it and
erased. -/
def absorb (first : AgentMemoryCategorySample) : List AgentMemoryCategorySample →
    Except AgentMemoryError (AgentMemoryCategorySample × List AgentMemoryCategorySample)
  | [] => .ok (first, [])
  | second :: rest =>
      if second.category ≠ first.category then do
        let (merged, kept) ← absorb first rest
        return (merged, second :: kept)
      else do
        let reservedBytes ← checkedAddCategoryBytes first.reservedBytes second.reservedBytes
        let residentBytes ← checkedAddCategoryBytes first.residentBytes second.residentBytes
        absorb { first with
          reservedBytes := reservedBytes
          residentBytes := residentBytes
          flags := first.flags &&& second.flags } rest

/-- The outer merge loop, for at most so many rounds. -/
def mergeRounds : ℕ → List AgentMemoryCategorySample →
    Except AgentMemoryError (List AgentMemoryCategorySample)
  | 0, samples => .ok samples
  | _ + 1, [] => .ok []
  | rounds + 1, first :: rest => do
      let (merged, kept) ← absorb first rest
      return merged :: (← mergeRounds rounds kept)

/-- The comparison of the sort. -/
def categoryAtMost (left right : AgentMemoryCategorySample) : Bool :=
  left.category ≤ right.category

/-- `snapshot`; the categories are distinct when they are sorted. -/
def AgentMemoryRegistry.snapshot (registry : AgentMemoryRegistry) :
    Except AgentMemoryError (List AgentMemoryCategorySample) := do
  let categories := contributions pageSize mincore registry
  let merged ← mergeRounds categories.length categories
  return merged.mergeSort categoryAtMost

end Snapshot

/-! ## What merging adds up -/

/-- The bytes of all samples of a category. -/
def totalOf (value : AgentMemoryCategorySample → ℕ) (category : ℕ)
    (samples : List AgentMemoryCategorySample) : ℕ :=
  ((samples.filter fun sample => sample.category = category).map value).sum

section Totals

variable {value : AgentMemoryCategorySample → ℕ} {category : ℕ}
  {first second : AgentMemoryCategorySample} {samples other : List AgentMemoryCategorySample}

theorem totalOf_cons_same (h : first.category = category) :
    totalOf value category (first :: samples) = value first + totalOf value category samples := by
  unfold totalOf
  rw [List.filter_cons_of_pos (by simpa using h), List.map_cons, List.sum_cons]

theorem totalOf_cons_other (h : first.category ≠ category) :
    totalOf value category (first :: samples) = totalOf value category samples := by
  unfold totalOf
  rw [List.filter_cons_of_neg (by simpa using h)]

theorem totalOf_append : totalOf value category (samples ++ other) =
    totalOf value category samples + totalOf value category other := by
  unfold totalOf
  rw [List.filter_append, List.map_append, List.sum_append]

theorem totalOf_perm (h : samples.Perm other) :
    totalOf value category samples = totalOf value category other :=
  ((h.filter _).map value).sum_nat

/-- Erasing one category leaves the totals of the others. -/
theorem totalOf_erase {erased : ℕ} (h : category ≠ erased) :
    totalOf value category (samples.filter fun sample => sample.category ≠ erased) =
      totalOf value category samples := by
  unfold totalOf
  rw [List.filter_filter]
  congr 2
  apply List.filter_congr
  intro sample _
  by_cases hsame : sample.category = category
  · rw [decide_eq_true hsame, decide_eq_true (hsame ▸ h), Bool.and_self]
  · rw [decide_eq_false hsame, Bool.false_and]

theorem sum_eq_totalOf_add (erased : ℕ) : (samples.map value).sum = totalOf value erased samples +
    ((samples.filter fun sample => sample.category ≠ erased).map value).sum := by
  induction samples with
  | nil => rfl
  | cons first samples ih =>
      by_cases h : first.category = erased
      · rw [totalOf_cons_same h, List.filter_cons_of_neg (by simpa using h), List.map_cons,
          List.sum_cons, ih]
        omega
      · rw [totalOf_cons_other h, List.filter_cons_of_pos (by simpa using h), List.map_cons,
          List.sum_cons, List.map_cons, List.sum_cons, ih]
        omega

theorem totalOf_le_sum : totalOf value category samples ≤ (samples.map value).sum := by
  rw [sum_eq_totalOf_add category]
  exact Nat.le_add_right _ _

/-- A category without samples has no bytes. -/
theorem totalOf_eq_zero (h : category ∉ samples.map (·.category)) :
    totalOf value category samples = 0 := by
  induction samples with
  | nil => rfl
  | cons first samples ih =>
      rw [List.map_cons, List.mem_cons, not_or] at h
      rw [totalOf_cons_other (Ne.symm h.1), ih h.2]

end Totals

/-- The samples of the categories that are not erased. -/
def others (erased : ℕ) (samples : List AgentMemoryCategorySample) :
    List AgentMemoryCategorySample :=
  samples.filter fun sample => sample.category ≠ erased

section Absorb

variable {first merged : AgentMemoryCategorySample} {rest kept : List AgentMemoryCategorySample}

theorem checkedAddCategoryBytes_ok {total value sum : ℕ}
    (h : checkedAddCategoryBytes total value = .ok sum) : sum = total + value := by
  obtain ⟨_, hsum⟩ := failIf_bind_eq_ok.mp h
  exact (Except.ok.inj hsum).symm

theorem checkedAddCategoryBytes_of_le {total value : ℕ} (h : total + value ≤ maxU64) :
    checkedAddCategoryBytes total value = .ok (total + value) :=
  failIf_bind_eq_ok.mpr ⟨by omega, rfl⟩

/-- The inner loop adds up the first one's category and keeps the others. -/
theorem absorb_ok (h : absorb first rest = .ok (merged, kept)) :
    kept = others first.category rest ∧ merged.category = first.category ∧
      merged.reservedBytes =
        first.reservedBytes + totalOf (·.reservedBytes) first.category rest ∧
      merged.residentBytes =
        first.residentBytes + totalOf (·.residentBytes) first.category rest := by
  induction rest generalizing first kept with
  | nil =>
      cases h
      exact ⟨rfl, rfl, rfl, rfl⟩
  | cons second rest ih =>
      by_cases hcategory : second.category = first.category
      · have h := (if_neg (not_not.mpr hcategory)).symm.trans h
        obtain ⟨reserved, hreserved, h⟩ := bind_eq_ok.mp h
        obtain ⟨resident, hresident, h⟩ := bind_eq_ok.mp h
        obtain ⟨hkept, hmerged, htotal, htotal'⟩ := ih h
        rw [checkedAddCategoryBytes_ok hreserved] at htotal
        rw [checkedAddCategoryBytes_ok hresident] at htotal'
        rw [totalOf_cons_same hcategory, totalOf_cons_same hcategory, ← Nat.add_assoc,
          ← Nat.add_assoc, others, List.filter_cons_of_neg (by simpa using hcategory)]
        exact ⟨hkept, hmerged, htotal, htotal'⟩
      · have h := (if_pos hcategory).symm.trans h
        obtain ⟨⟨merged', kept'⟩, habsorb, h⟩ := bind_eq_ok.mp h
        cases h
        obtain ⟨hkept, hmerged, htotal, htotal'⟩ := ih habsorb
        rw [totalOf_cons_other hcategory, totalOf_cons_other hcategory, others,
          List.filter_cons_of_pos (by simpa using hcategory)]
        exact ⟨congrArg (List.cons second) hkept, hmerged, htotal, htotal'⟩

theorem exists_absorb
    (hreserved : first.reservedBytes + totalOf (·.reservedBytes) first.category rest ≤ maxU64)
    (hresident : first.residentBytes + totalOf (·.residentBytes) first.category rest ≤ maxU64) :
    ∃ result, absorb first rest = .ok result := by
  induction rest generalizing first with
  | nil => exact ⟨_, rfl⟩
  | cons second rest ih =>
      by_cases hcategory : second.category = first.category
      · rw [totalOf_cons_same hcategory] at hreserved hresident
        have hadd := checkedAddCategoryBytes_of_le
          (Nat.le_trans (Nat.add_le_add_left (Nat.le_add_right _ _) _) hreserved)
        have hadd' := checkedAddCategoryBytes_of_le
          (Nat.le_trans (Nat.add_le_add_left (Nat.le_add_right _ _) _) hresident)
        show ∃ result, (if second.category ≠ first.category then _ else _) = _
        rw [if_neg (not_not.mpr hcategory), hadd, hadd']
        exact ih (by rwa [Nat.add_assoc]) (by rwa [Nat.add_assoc])
      · rw [totalOf_cons_other hcategory] at hreserved hresident
        obtain ⟨⟨merged, kept⟩, hrest⟩ := ih hreserved hresident
        show ∃ result, (if second.category ≠ first.category then _ else _) = _
        rw [if_pos hcategory, hrest]
        exact ⟨_, rfl⟩

end Absorb

/-! ## The merged samples -/

/-- `merged` has one sample for each category of `samples`, with all bytes of it. -/
structure Merged (samples merged : List AgentMemoryCategorySample) : Prop where
  nodup : (merged.map (·.category)).Nodup
  categories : ∀ category, category ∈ merged.map (·.category) ↔ category ∈ samples.map (·.category)
  reserved : ∀ sample ∈ merged,
    sample.reservedBytes = totalOf (·.reservedBytes) sample.category samples
  resident : ∀ sample ∈ merged,
    sample.residentBytes = totalOf (·.residentBytes) sample.category samples
  reservedSum : (merged.map (·.reservedBytes)).sum = (samples.map (·.reservedBytes)).sum
  residentSum : (merged.map (·.residentBytes)).sum = (samples.map (·.residentBytes)).sum

section Merge

variable {samples merged : List AgentMemoryCategorySample}

theorem Merged.perm {sorted : List AgentMemoryCategorySample} (h : Merged samples merged)
    (hperm : sorted.Perm merged) : Merged samples sorted where
  nodup := (hperm.map _).nodup_iff.mpr h.nodup
  categories category := (hperm.map _).mem_iff.trans (h.categories category)
  reserved sample hsample := h.reserved sample (hperm.mem_iff.mp hsample)
  resident sample hsample := h.resident sample (hperm.mem_iff.mp hsample)
  reservedSum := ((hperm.map _).sum_nat).trans h.reservedSum
  residentSum := ((hperm.map _).sum_nat).trans h.residentSum

theorem mem_others {category erased : ℕ} :
    category ∈ (others erased samples).map (·.category) ↔
      category ∈ samples.map (·.category) ∧ category ≠ erased := by
  unfold others
  simp only [List.mem_map, List.mem_filter, decide_eq_true_eq]
  constructor
  · intro ⟨sample, ⟨hsample, hne⟩, heq⟩
    exact ⟨⟨sample, hsample, heq⟩, heq ▸ hne⟩
  · intro ⟨⟨sample, hsample, heq⟩, hne⟩
    exact ⟨sample, ⟨hsample, heq ▸ hne⟩, heq⟩

/-- One round puts the first category in front of what the later rounds merge. -/
theorem Merged.round {first second : AgentMemoryCategorySample}
    {rest later : List AgentMemoryCategorySample}
    (habsorb : absorb first rest = .ok (second, others first.category rest))
    (hlater : Merged (others first.category rest) later) :
    Merged (first :: rest) (second :: later) := by
  obtain ⟨-, hcategory, hreserved, hresident⟩ := absorb_ok habsorb
  have hother : ∀ sample ∈ later, sample.category ≠ first.category := by
    intro sample hsample
    have hmem := (hlater.categories _).mp (List.mem_map_of_mem hsample)
    exact (mem_others.mp hmem).2
  have hsame {value : AgentMemoryCategorySample → ℕ} :
      totalOf value second.category (first :: rest) =
        value first + totalOf value first.category rest := by
    rw [hcategory, totalOf_cons_same rfl]
  have hdiffers {value : AgentMemoryCategorySample → ℕ} {sample : AgentMemoryCategorySample}
      (hsample : sample ∈ later) : totalOf value sample.category (others first.category rest) =
        totalOf value sample.category (first :: rest) := by
    have hne := hother sample hsample
    rw [totalOf_cons_other (Ne.symm hne)]
    exact totalOf_erase hne
  constructor
  · rw [List.map_cons, List.nodup_cons, hcategory]
    refine ⟨?_, hlater.nodup⟩
    intro hmem
    exact (mem_others.mp ((hlater.categories _).mp hmem)).2 rfl
  · intro category
    rw [List.map_cons, List.mem_cons, hlater.categories, mem_others, List.map_cons, List.mem_cons,
      hcategory]
    by_cases h : category = first.category
    · exact iff_of_true (Or.inl h) (Or.inl h)
    · simp [h]
  · rw [List.forall_mem_cons]
    exact ⟨hreserved.trans hsame.symm,
      fun sample hsample => (hlater.reserved sample hsample).trans (hdiffers hsample)⟩
  · rw [List.forall_mem_cons]
    exact ⟨hresident.trans hsame.symm,
      fun sample hsample => (hlater.resident sample hsample).trans (hdiffers hsample)⟩
  · have hsum := @sum_eq_totalOf_add (·.reservedBytes) rest first.category
    rw [List.map_cons, List.sum_cons, hlater.reservedSum, List.map_cons, List.sum_cons, hsum,
      hreserved, Nat.add_assoc]
    rfl
  · have hsum := @sum_eq_totalOf_add (·.residentBytes) rest first.category
    rw [List.map_cons, List.sum_cons, hlater.residentSum, List.map_cons, List.sum_cons, hsum,
      hresident, Nat.add_assoc]
    rfl

theorem mergeRounds_ok {rounds : ℕ} (hrounds : samples.length ≤ rounds)
    (h : mergeRounds rounds samples = .ok merged) : Merged samples merged := by
  induction rounds generalizing samples merged with
  | zero =>
      obtain rfl := List.length_eq_zero_iff.mp (Nat.le_zero.mp hrounds)
      cases h
      exact ⟨List.nodup_nil, fun _ => Iff.rfl, nofun, nofun, rfl, rfl⟩
  | succ rounds ih =>
      cases samples with
      | nil =>
          cases h
          exact ⟨List.nodup_nil, fun _ => Iff.rfl, nofun, nofun, rfl, rfl⟩
      | cons first rest =>
          obtain ⟨⟨second, kept⟩, habsorb, h⟩ := bind_eq_ok.mp h
          obtain ⟨later, hlater, h⟩ := bind_eq_ok.mp h
          cases h
          obtain ⟨rfl, -⟩ := absorb_ok habsorb
          have hlength : (others first.category rest).length ≤ rounds :=
            Nat.le_trans (List.length_filter_le _ _) (Nat.le_of_succ_le_succ hrounds)
          exact Merged.round habsorb (ih hlength hlater)

/-- Merging succeeds when the bytes of every category fit. -/
theorem exists_mergeRounds (rounds : ℕ)
    (hreserved : ∀ category, totalOf (·.reservedBytes) category samples ≤ maxU64)
    (hresident : ∀ category, totalOf (·.residentBytes) category samples ≤ maxU64) :
    ∃ merged, mergeRounds rounds samples = .ok merged := by
  induction rounds generalizing samples with
  | zero => exact ⟨samples, rfl⟩
  | succ rounds ih =>
      cases samples with
      | nil => exact ⟨[], rfl⟩
      | cons first rest =>
          have hfirst := hreserved first.category
          have hfirst' := hresident first.category
          rw [totalOf_cons_same rfl] at hfirst hfirst'
          refine exists_bind_ok (exists_absorb hfirst hfirst') ?_
          intro ⟨second, kept⟩ habsorb
          obtain ⟨rfl, -⟩ := absorb_ok habsorb
          have hle {value : AgentMemoryCategorySample → ℕ} (category : ℕ) :
              totalOf value category (others first.category rest) ≤
                totalOf value category (first :: rest) := by
            by_cases hcategory : category = first.category
            · rw [totalOf_eq_zero fun hmem => (mem_others.mp hmem).2 hcategory]
              exact Nat.zero_le _
            · rw [totalOf_cons_other (Ne.symm hcategory)]
              exact Nat.le_of_eq (totalOf_erase hcategory)
          refine exists_bind_ok (ih
            (fun category => Nat.le_trans (hle category) (hreserved category))
            fun category => Nat.le_trans (hle category) (hresident category)) ?_
          intro later _
          exact ⟨_, rfl⟩

end Merge

section Snapshots

variable {pageSize : ℕ} {mincore : MemoryRegion → Option Bytes} {registry : AgentMemoryRegistry}

/-- A snapshot has one sample for each category that something contributed to. -/
theorem snapshot_ok {categories : List AgentMemoryCategorySample}
    (h : registry.snapshot pageSize mincore = .ok categories) :
    Merged (contributions pageSize mincore registry) categories := by
  obtain ⟨merged, hmerged, h⟩ := bind_eq_ok.mp h
  cases h
  exact (mergeRounds_ok (Nat.le_refl _) hmerged).perm (List.mergeSort_perm _ _)

theorem exists_snapshot
    (hreserved : ∀ category,
      totalOf (·.reservedBytes) category (contributions pageSize mincore registry) ≤ maxU64)
    (hresident : ∀ category,
      totalOf (·.residentBytes) category (contributions pageSize mincore registry) ≤ maxU64) :
    ∃ categories, registry.snapshot pageSize mincore = .ok categories :=
  exists_bind_ok (exists_mergeRounds _ hreserved hresident) fun _ _ => ⟨_, rfl⟩

end Snapshots

end Noleax.Agent
