import Mathlib.Algebra.Order.Ring.Nat
import Mathlib.Data.Nat.Basic
import Mathlib.Order.MinMax

/-!
# The address-space summary (`agent/linux/memory_snapshot.cpp`)

`summarize_maps_regions` adds up what is committed, reserved and free. One region moves
`previous_end` on by as much as it adds to the three totals, so over sorted regions below
the canonical end the totals partition what lies between the first and the last of them.
-/

namespace Noleax.Agent

/-! ## The loop -/

structure MapsSummaryRegion where
  regionBegin : ℕ
  regionEnd : ℕ
  committed : Bool
deriving DecidableEq, Repr

structure MapsSummary where
  committedBytes : ℕ := 0
  reservedBytes : ℕ := 0
  freeBytes : ℕ := 0
  largestFreeBytes : ℕ := 0
deriving DecidableEq, Repr

/-- The locals of the loop. `saturated` is not in the code: an addition has hit its bound. -/
structure MapsWalk where
  summary : MapsSummary := {}
  previousEnd : ℕ := 0
  saturated : Bool := false
deriving DecidableEq, Repr

def Saturates (total delta : ℕ) : Prop := 2 ^ 64 - 1 - total < delta

instance (total delta : ℕ) : Decidable (Saturates total delta) :=
  inferInstanceAs (Decidable (_ < _))

/-- `add` -/
def saturatingAdd (total delta : ℕ) : ℕ :=
  if Saturates total delta then 2 ^ 64 - 1 else total + delta

/-- A difference of two `std::uint64_t`. -/
def difference (a b : ℕ) : ℕ := (a + 2 ^ 64 - b) % 2 ^ 64

/-- The free bytes in front of a region. -/
def addGap (walk : MapsWalk) (region : MapsSummaryRegion) : MapsWalk :=
  if walk.previousEnd < region.regionBegin ∧ walk.previousEnd ≠ 0 then
    let gap := difference region.regionBegin walk.previousEnd
    { walk with
      summary := { walk.summary with
        freeBytes := saturatingAdd walk.summary.freeBytes gap
        largestFreeBytes :=
          if walk.summary.largestFreeBytes < gap then gap else walk.summary.largestFreeBytes }
      saturated := walk.saturated || decide (Saturates walk.summary.freeBytes gap) }
  else walk

/-- The bytes of a region that ends at `regionEnd`. -/
def addRegion (walk : MapsWalk) (region : MapsSummaryRegion) (regionEnd : ℕ) : MapsWalk :=
  let size := difference regionEnd region.regionBegin
  let committed := if region.committed then size else 0
  let reserved := if region.committed then 0 else size
  { summary := { walk.summary with
      committedBytes := saturatingAdd walk.summary.committedBytes committed
      reservedBytes := saturatingAdd walk.summary.reservedBytes reserved }
    previousEnd := max walk.previousEnd regionEnd
    saturated := walk.saturated || decide (Saturates walk.summary.committedBytes committed) ||
      decide (Saturates walk.summary.reservedBytes reserved) }

/-- One turn of the loop. -/
def summarizeRegion (canonicalUserEnd : ℕ) (walk : MapsWalk) (region : MapsSummaryRegion) :
    MapsWalk :=
  if region.regionEnd ≤ region.regionBegin ∨ canonicalUserEnd ≤ region.regionBegin then walk
  else
    addRegion (addGap walk region) region
      (min region.regionEnd ((canonicalUserEnd + 1) % 2 ^ 64))

/-- `summarize_maps_regions`, with the locals of its loop. -/
def summarizeMapsRegions (regions : List MapsSummaryRegion) (canonicalUserEnd : ℕ) : MapsWalk :=
  regions.foldl (summarizeRegion canonicalUserEnd) {}

/-! ## What the totals are compared with -/

/-- A region as `parse_maps_line` accepts it, below the canonical end (the last user address). -/
def MapsSummaryRegion.Below (canonicalUserEnd : ℕ) (region : MapsSummaryRegion) : Prop :=
  region.regionBegin < region.regionEnd ∧ region.regionBegin < canonicalUserEnd ∧
    region.regionEnd ≤ canonicalUserEnd + 1

/-- Sorted by address and disjoint. -/
def Ascending (regions : List MapsSummaryRegion) : Prop :=
  regions.Pairwise fun lower upper => lower.regionEnd ≤ upper.regionBegin

/-- What lies between a place and the regions behind it, and between these. -/
def gapsFrom : ℕ → List MapsSummaryRegion → List ℕ
  | _, [] => []
  | previousEnd, region :: regions =>
      (region.regionBegin - previousEnd) :: gapsFrom region.regionEnd regions

/-- What lies between neighbours. -/
def gaps : List MapsSummaryRegion → List ℕ
  | [] => []
  | first :: regions => gapsFrom first.regionEnd regions

/-- From the begin of the first region to the end of the last. -/
def extent (regions : List MapsSummaryRegion) : ℕ :=
  match regions.head?, regions.getLast? with
  | some first, some last => last.regionEnd - first.regionBegin
  | _, _ => 0

/-! ## One region -/

section Regions

variable {canonicalUserEnd origin : ℕ} {walk : MapsWalk} {region : MapsSummaryRegion}

theorem difference_of_le {a b : ℕ} (h : b ≤ a) (ha : a < 2 ^ 64) : difference a b = a - b := by
  unfold difference
  omega

theorem not_saturates {total delta : ℕ} (h : total + delta < 2 ^ 64) : ¬ Saturates total delta := by
  unfold Saturates
  omega

theorem saturatingAdd_of_lt {total delta : ℕ} (h : total + delta < 2 ^ 64) :
    saturatingAdd total delta = total + delta :=
  if_neg (not_saturates h)

theorem addGap_of_first (h : walk.previousEnd = 0) : addGap walk region = walk :=
  if_neg fun hgap => hgap.2 h

/-- The gap in front of a region that starts behind the last one, which may be empty. -/
theorem addGap_of_le (hpositive : 0 < walk.previousEnd)
    (horder : walk.previousEnd ≤ region.regionBegin) (hword : region.regionBegin < 2 ^ 64)
    (hfree : walk.summary.freeBytes + (region.regionBegin - walk.previousEnd) < 2 ^ 64) :
    addGap walk region =
      { walk with
        summary := { walk.summary with
          freeBytes := walk.summary.freeBytes + (region.regionBegin - walk.previousEnd)
          largestFreeBytes :=
            max walk.summary.largestFreeBytes (region.regionBegin - walk.previousEnd) } } := by
  unfold addGap
  split
  · have hlargest (a b : ℕ) : (if a < b then b else a) = max a b := by
      split <;> omega
    simp only [difference_of_le horder hword, saturatingAdd_of_lt hfree, hlargest,
      decide_eq_false (not_saturates hfree), Bool.or_false]
  · rename_i hno
    have hempty : region.regionBegin - walk.previousEnd = 0 := by omega
    rw [hempty, Nat.add_zero, Nat.max_zero]

/-- The totals behind a region of `size` bytes. -/
theorem addRegion_of_lt {regionEnd : ℕ} (horder : walk.previousEnd ≤ regionEnd)
    (hsize : region.regionBegin ≤ regionEnd) (hword : regionEnd < 2 ^ 64)
    (hcommitted : walk.summary.committedBytes + (regionEnd - region.regionBegin) < 2 ^ 64)
    (hreserved : walk.summary.reservedBytes + (regionEnd - region.regionBegin) < 2 ^ 64) :
    ∃ committed reserved, committed + reserved = regionEnd - region.regionBegin ∧
      addRegion walk region regionEnd =
        { summary := { walk.summary with
            committedBytes := walk.summary.committedBytes + committed
            reservedBytes := walk.summary.reservedBytes + reserved }
          previousEnd := regionEnd
          saturated := walk.saturated } := by
  have hcommittedZero : walk.summary.committedBytes + 0 < 2 ^ 64 := by omega
  have hreservedZero : walk.summary.reservedBytes + 0 < 2 ^ 64 := by omega
  unfold addRegion
  cases region.committed with
  | true =>
      refine ⟨regionEnd - region.regionBegin, 0, Nat.add_zero _, ?_⟩
      simp only [difference_of_le hsize hword, max_eq_right horder, if_true,
        saturatingAdd_of_lt hcommitted, saturatingAdd_of_lt hreservedZero,
        decide_eq_false (not_saturates hcommitted), decide_eq_false (not_saturates hreservedZero),
        Bool.or_false]
  | false =>
      refine ⟨0, regionEnd - region.regionBegin, Nat.zero_add _, ?_⟩
      simp only [difference_of_le hsize hword, max_eq_right horder, Bool.false_eq_true, if_false,
        saturatingAdd_of_lt hcommittedZero, saturatingAdd_of_lt hreserved,
        decide_eq_false (not_saturates hcommittedZero), decide_eq_false (not_saturates hreserved),
        Bool.or_false]

theorem summarizeRegion_of_below (hcanonical : canonicalUserEnd + 1 < 2 ^ 64)
    (hregion : region.Below canonicalUserEnd) :
    summarizeRegion canonicalUserEnd walk region =
      addRegion (addGap walk region) region region.regionEnd := by
  obtain ⟨hsize, hbegin, hend⟩ := hregion
  unfold summarizeRegion
  rw [if_neg (by omega), Nat.mod_eq_of_lt hcanonical, min_eq_left hend]

/-- Behind a region the totals cover what lies between `origin` and its end. -/
structure Balanced (canonicalUserEnd origin : ℕ) (walk : MapsWalk) : Prop where
  total : walk.summary.committedBytes + walk.summary.reservedBytes + walk.summary.freeBytes +
    origin = walk.previousEnd
  positive : 0 < walk.previousEnd
  below : walk.previousEnd ≤ canonicalUserEnd + 1
  exact : walk.saturated = false

/-- The first region. -/
theorem balanced_first (hcanonical : canonicalUserEnd + 1 < 2 ^ 64)
    (hregion : region.Below canonicalUserEnd) : ∃ walk,
    summarizeRegion canonicalUserEnd {} region = walk ∧
      Balanced canonicalUserEnd region.regionBegin walk ∧ walk.previousEnd = region.regionEnd ∧
      walk.summary.freeBytes = 0 ∧ walk.summary.largestFreeBytes = 0 := by
  obtain ⟨hsize, hbegin, hend⟩ := id hregion
  obtain ⟨committed, reserved, hsum, hadd⟩ :=
    @addRegion_of_lt {} region region.regionEnd (Nat.zero_le _) hsize.le (by omega)
      (by show 0 + _ < _; omega) (by show 0 + _ < _; omega)
  rw [summarizeRegion_of_below hcanonical hregion, addGap_of_first rfl, hadd]
  refine ⟨_, rfl, ⟨?_, ?_, hend, rfl⟩, rfl, rfl, rfl⟩
  · show 0 + committed + (0 + reserved) + 0 + region.regionBegin = region.regionEnd
    omega
  · show 0 < region.regionEnd
    omega

/-- A region behind the last one, and the gap between them. -/
theorem Balanced.step (h : Balanced canonicalUserEnd origin walk)
    (hcanonical : canonicalUserEnd + 1 < 2 ^ 64) (hregion : region.Below canonicalUserEnd)
    (horder : walk.previousEnd ≤ region.regionBegin) : ∃ after,
    summarizeRegion canonicalUserEnd walk region = after ∧
      Balanced canonicalUserEnd origin after ∧ after.previousEnd = region.regionEnd ∧
      after.summary.freeBytes =
        walk.summary.freeBytes + (region.regionBegin - walk.previousEnd) ∧
      after.summary.largestFreeBytes =
        max walk.summary.largestFreeBytes (region.regionBegin - walk.previousEnd) := by
  obtain ⟨hsize, hbegin, hend⟩ := id hregion
  have htotal := h.total
  rw [summarizeRegion_of_below hcanonical hregion,
    addGap_of_le h.positive horder (by omega) (by omega)]
  obtain ⟨committed, reserved, hsum, hadd⟩ := @addRegion_of_lt
    { walk with
      summary := { walk.summary with
        freeBytes := walk.summary.freeBytes + (region.regionBegin - walk.previousEnd)
        largestFreeBytes :=
          max walk.summary.largestFreeBytes (region.regionBegin - walk.previousEnd) } }
    region region.regionEnd (horder.trans hsize.le) hsize.le (by omega)
    (by show walk.summary.committedBytes + _ < _; omega)
    (by show walk.summary.reservedBytes + _ < _; omega)
  rw [hadd]
  refine ⟨_, rfl, ⟨?_, ?_, hend, h.exact⟩, rfl, rfl, rfl⟩
  · show walk.summary.committedBytes + committed + (walk.summary.reservedBytes + reserved) +
      (walk.summary.freeBytes + (region.regionBegin - walk.previousEnd)) + origin = region.regionEnd
    omega
  · show 0 < region.regionEnd
    omega

/-! ## The run -/

/-- A run over regions behind the last one. -/
theorem Balanced.run {regions : List MapsSummaryRegion} (h : Balanced canonicalUserEnd origin walk)
    (hcanonical : canonicalUserEnd + 1 < 2 ^ 64)
    (hregions : ∀ region ∈ regions, region.Below canonicalUserEnd)
    (hbehind : ∀ region ∈ regions, walk.previousEnd ≤ region.regionBegin)
    (hascending : Ascending regions) : ∃ after,
    regions.foldl (summarizeRegion canonicalUserEnd) walk = after ∧
      Balanced canonicalUserEnd origin after ∧
      after.previousEnd = (regions.getLast?.map (·.regionEnd)).getD walk.previousEnd ∧
      after.summary.freeBytes =
        walk.summary.freeBytes + (gapsFrom walk.previousEnd regions).sum ∧
      after.summary.largestFreeBytes =
        (gapsFrom walk.previousEnd regions).foldl max walk.summary.largestFreeBytes := by
  induction regions generalizing walk with
  | nil => exact ⟨walk, rfl, h, rfl, rfl, rfl⟩
  | cons region regions ih =>
      obtain ⟨hregion, hregions⟩ := List.forall_mem_cons.mp hregions
      obtain ⟨hfirst, -⟩ := List.forall_mem_cons.mp hbehind
      obtain ⟨hnext, hascending⟩ := List.pairwise_cons.mp hascending
      obtain ⟨middle, hstep, hmiddle, hprevious, hfree, hlargest⟩ :=
        h.step hcanonical hregion hfirst
      rw [← hprevious] at hnext
      obtain ⟨after, hrun, hafter, hend, hfrees, hlargests⟩ := ih hmiddle hregions hnext hascending
      rw [hprevious] at hend hfrees hlargests
      refine ⟨after, ?_, hafter, ?_, ?_, ?_⟩
      · rw [List.foldl_cons, hstep, hrun]
      · rw [hend, List.getLast?_cons]
        cases regions.getLast? with
        | none => rfl
        | some last => rfl
      · rw [hfrees, hfree, gapsFrom, List.sum_cons, Nat.add_assoc]
      · rw [hlargests, hlargest, gapsFrom, List.foldl_cons]

end Regions

/-- The widest of some gaps is no more than their sum. -/
theorem widest_le_sum (sizes : List ℕ) (widest : ℕ) :
    sizes.foldl max widest ≤ widest + sizes.sum := by
  induction sizes generalizing widest with
  | nil => exact le_refl widest
  | cons size sizes ih =>
      have hrest := ih (max widest size)
      rw [List.foldl_cons, List.sum_cons]
      omega

/-- Over sorted and disjoint regions below the canonical end no addition saturates, and the
committed, reserved and free bytes add up to what lies between the first and the last. -/
theorem maps_summary_conserves {canonicalUserEnd : ℕ} {regions : List MapsSummaryRegion}
    (hcanonical : canonicalUserEnd + 1 < 2 ^ 64) (hascending : Ascending regions)
    (hregions : ∀ region ∈ regions, region.Below canonicalUserEnd) :
    let walk := summarizeMapsRegions regions canonicalUserEnd
    walk.saturated = false ∧
      walk.summary.committedBytes + walk.summary.reservedBytes + walk.summary.freeBytes =
        extent regions ∧
      walk.summary.freeBytes = (gaps regions).sum ∧
      walk.summary.largestFreeBytes = (gaps regions).foldl max 0 ∧
      walk.summary.largestFreeBytes ≤ walk.summary.freeBytes := by
  cases regions with
  | nil => exact ⟨rfl, rfl, rfl, rfl, le_refl 0⟩
  | cons first regions =>
      intro walk
      obtain ⟨hfirst, hregions⟩ := List.forall_mem_cons.mp hregions
      obtain ⟨hbehind, hascending⟩ := List.pairwise_cons.mp hascending
      obtain ⟨middle, hstep, hmiddle, hprevious, hzero, hnone⟩ := balanced_first hcanonical hfirst
      rw [← hprevious] at hbehind
      obtain ⟨after, hrun, hafter, hend, hfree, hlargest⟩ :=
        hmiddle.run hcanonical hregions hbehind hascending
      have hwalk : walk = after := by
        show (first :: regions).foldl (summarizeRegion canonicalUserEnd) {} = after
        rw [List.foldl_cons, hstep, hrun]
      rw [hprevious, hzero, Nat.zero_add] at hfree
      rw [hprevious, hnone] at hlargest
      have htotal := hafter.total
      have hextent : extent (first :: regions) = after.previousEnd - first.regionBegin := by
        unfold extent
        rw [hend, hprevious, List.head?_cons, List.getLast?_cons]
        cases regions.getLast? with
        | none => rfl
        | some last => rfl
      rw [hwalk]
      refine ⟨hafter.exact, ?_, hfree, hlargest, ?_⟩
      · rw [hextent]
        omega
      · have hwidest := widest_le_sum (gapsFrom first.regionEnd regions) 0
        rw [hfree, hlargest]
        omega

/-- A committed and a reserved region with a page between them. -/
theorem maps_summary_conserves_two :
    let regions := [⟨0x1000, 0x3000, true⟩, ⟨0x4000, 0x5000, false⟩]
    let walk := summarizeMapsRegions regions 0x7fffffffffff
    walk.saturated = false ∧ walk.summary = ⟨0x2000, 0x1000, 0x1000, 0x1000⟩ ∧
      extent regions = 0x4000 := by
  intro regions walk
  have hconserves := @maps_summary_conserves 0x7fffffffffff regions (by omega)
    (by simp [Ascending, regions]) (by simp [MapsSummaryRegion.Below, regions])
  exact ⟨hconserves.1, by decide, rfl⟩

end Noleax.Agent
