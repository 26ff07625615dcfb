import Mathlib.Data.List.TakeWhile
import Noleax.Lib.FragmentOps

/-!
# `IntervalSet` (`include/noleax/trace/interval_set.hpp`)

The ordered set of disjoint half-open intervals that the Linux trace writer
and the analyzer share. `std::map<begin, (end, value)>` is the list of its
entries in key order; an iterator is a split of that list. The class contract
(sorted, disjoint, `begin < end`, never coalesced) is the `layout` field, so
every operation below carries the proof that it keeps it.

`subtract_frags` and its companions identify the iterator loops with
`Lib.cutAll` / `Lib.clipAll`; no later proof looks at the loops again.
-/

namespace Noleax.Trace

open Lib Lib.Fragment

variable {α : Type*}

/-! ## The loops over the map entries -/

/-- `intervals_.upper_bound(point)`: the entries before the iterator, whose
key is not after `point`, and the entries from it on. -/
def upperBound (point : ℕ) (fs : List (Fragment α)) : List (Fragment α) × List (Fragment α) :=
  fs.span fun f => decide (f.start ≤ point)

/-- `candidate(point)`: the entry before `upper_bound(point)` when it reaches
past `point`. -/
def candidate (point : ℕ) (fs : List (Fragment α)) : Option (Fragment α) :=
  match (upperBound point fs).1.getLast? with
  | some previous => if point < previous.stop then some previous else none
  | none => none

/-- `range_start(begin)`: `upper_bound(begin)`, backed up one entry when the
preceding one reaches into the range. -/
def rangeStart (b : ℕ) (fs : List (Fragment α)) : List (Fragment α) × List (Fragment α) :=
  let (before, after) := upperBound b fs
  match before.getLast? with
  | some previous => if b < previous.stop then (before.dropLast, previous :: after) else (before, after)
  | none => (before, after)

/-- The loop of `intersections` from `range_start(begin)` on. -/
def intersectionsLoop (b e : ℕ) : List (Fragment α) → List (Fragment α)
  | [] => []
  | f :: fs =>
      if f.start < e then
        let clipBegin := if f.start < b then b else f.start
        let clipEnd := if f.stop < e then f.stop else e
        (if clipBegin < clipEnd then [⟨clipBegin, clipEnd, f.value⟩] else []) ++
          intersectionsLoop b e fs
      else []

/-- The loop of `subtract` from `range_start(begin)` on: the entries that stay
and the removed pieces. -/
def subtractLoop (b e : ℕ) : List (Fragment α) → List (Fragment α) × List (Fragment α)
  | [] => ([], [])
  | f :: fs =>
      if f.start < e then
        let clipBegin := if f.start < b then b else f.start
        let clipEnd := if f.stop < e then f.stop else e
        let removed := if clipBegin < clipEnd then [⟨clipBegin, clipEnd, f.value⟩] else []
        if f.start < b ∧ e < f.stop then
          -- middle split: shrink to the prefix, spawn the suffix, break
          (⟨f.start, b, f.value⟩ :: ⟨e, f.stop, f.value⟩ :: fs, removed)
        else
          let rest := subtractLoop b e fs
          if f.start < b then
            (⟨f.start, b, f.value⟩ :: rest.1, removed ++ rest.2)
          else if e < f.stop then
            -- prefix removal: the entry is reinserted under the key `end`, before the next one
            (⟨e, f.stop, f.value⟩ :: rest.1, removed ++ rest.2)
          else
            (rest.1, removed ++ rest.2)
      else (f :: fs, [])

/-! ## What the loops compute -/

section Loops

variable {fs : List (Fragment α)}

/-- `upper_bound` splits the entries at the point. -/
theorem upperBound_spec (h : Layout fs) (point : ℕ) :
    fs = (upperBound point fs).1 ++ (upperBound point fs).2 ∧
      (∀ f ∈ (upperBound point fs).1, f.start ≤ point) ∧
      (∀ f ∈ (upperBound point fs).2, point < f.start) := by
  unfold upperBound
  rw [List.span_eq_takeWhile_dropWhile]
  refine ⟨(List.takeWhile_append_dropWhile ..).symm, ?_, ?_⟩
  · intro f hf
    simpa using List.mem_takeWhile_imp hf
  · intro f hf
    -- the first entry past the split starts after `point`, and the order does the rest
    induction fs with
    | nil => simp at hf
    | cons g gs ih =>
        obtain ⟨hg, hlt, hrest⟩ := Layout.cons_iff.mp h
        by_cases hgp : g.start ≤ point
        · rw [List.dropWhile_cons_of_pos (by simpa using hgp)] at hf
          exact ih hrest hf
        · rw [List.dropWhile_cons_of_neg (by simpa using hgp)] at hf
          rcases List.mem_cons.mp hf with rfl | hf
          · omega
          · have := hlt f hf
            omega

/-- `find` is the search for the entry that contains the point. -/
theorem candidate_eq_find? (h : Layout fs) (point : ℕ) :
    candidate point fs = fs.find? fun f => f.Contains point := by
  obtain ⟨hsplit, hpre, hpost⟩ := upperBound_spec h point
  generalize hp : (upperBound point fs).1 = pre at hsplit hpre
  generalize (upperBound point fs).2 = post at hsplit hpost
  have hnone : post.find? (fun f => f.Contains point) = none := by
    refine List.find?_eq_none.mpr fun f hf => ?_
    have := hpost f hf
    simp only [decide_eq_true_eq]
    omega
  subst hsplit
  obtain ⟨hlpre, -, -⟩ := Layout.append_iff.mp h
  unfold candidate
  rw [hp, List.find?_append, hnone, Option.or_none]
  rcases List.eq_nil_or_concat' pre with rfl | ⟨init, last, rfl⟩
  · rfl
  · obtain ⟨hl1, -, hl2⟩ := Layout.append_iff.mp hlpre
    have hlast := hpre last (by simp)
    -- every entry before the last one ends at or before its begin
    have hinit : init.find? (fun f => f.Contains point) = none := by
      refine List.find?_eq_none.mpr fun f hf => ?_
      have := hl2 f hf last (by simp)
      simp only [decide_eq_true_eq]
      omega
    rw [List.find?_append, hinit, Option.none_or]
    by_cases hc : point < last.stop
    · simp [hc, Contains, hlast]
    · simp [hc, Contains]

/-- `range_start` skips exactly the entries that end at or before the range. -/
theorem rangeStart_spec (h : Layout fs) (b : ℕ) :
    fs = (rangeStart b fs).1 ++ (rangeStart b fs).2 ∧
      (∀ f ∈ (rangeStart b fs).1, f.stop ≤ b) ∧ ∀ f ∈ (rangeStart b fs).2, b < f.stop := by
  obtain ⟨hsplit, hpre, hpost⟩ := upperBound_spec h b
  unfold rangeStart
  generalize upperBound b fs = split at hsplit hpre hpost
  obtain ⟨pre, post⟩ := split
  simp only at hsplit hpre hpost ⊢
  subst hsplit
  obtain ⟨hlpre, hlpost, -⟩ := Layout.append_iff.mp h
  have hpost' : ∀ f ∈ post, b < f.stop := fun f hf =>
    (hpost f hf).trans (hlpost.nonempty f hf)
  rcases List.eq_nil_or_concat' pre with rfl | ⟨init, last, rfl⟩
  · simpa using hpost'
  · obtain ⟨-, -, hl2⟩ := Layout.append_iff.mp hlpre
    have hinit : ∀ f ∈ init, f.stop ≤ b := by
      intro f hf
      have h1 := hl2 f hf last (by simp)
      have h2 := hpre last (by simp)
      omega
    by_cases hc : b < last.stop
    · simpa [hc] using ⟨hinit, hpost'⟩
    · simp only [List.getLast?_append, List.getLast?_singleton, Option.some_or, if_neg hc]
      refine ⟨trivial, fun f hf => ?_, hpost'⟩
      rcases List.mem_append.mp hf with hf | hf
      · exact hinit f hf
      · rw [List.mem_singleton.mp hf]
        omega

/-- Entries from the end of the range on are neither cut nor clipped. -/
private theorem not_meets_of_le {e : ℕ} {f : Fragment α} (h : Layout (f :: fs))
    (hfe : ¬ f.start < e) (b : ℕ) : ∀ g ∈ f :: fs, ¬ g.Meets b e := by
  obtain ⟨hne, hlt, -⟩ := Layout.cons_iff.mp h
  intro g hg hm
  rcases List.mem_cons.mp hg with rfl | hg
  · exact hfe hm.1
  · have := hlt g hg
    have := hm.1
    omega

theorem intersectionsLoop_eq (h : Layout fs) {b e : ℕ} (hbe : b < e) :
    intersectionsLoop b e fs = clipAll b e fs := by
  induction fs with
  | nil => rfl
  | cons f fs ih =>
      obtain ⟨hne, hlt, hrest⟩ := Layout.cons_iff.mp h
      unfold intersectionsLoop
      by_cases hfe : f.start < e
      · rw [if_pos hfe, ih hrest, clipAll_cons]
        simp only [clip]
        grind
      · rw [if_neg hfe, clipAll_of_disjoint (not_meets_of_le h hfe b)]

theorem subtractLoop_eq (h : Layout fs) {b e : ℕ} (hbe : b < e) (hb : ∀ f ∈ fs, b < f.stop) :
    subtractLoop b e fs = (cutAll b e fs, clipAll b e fs) := by
  induction fs with
  | nil => rfl
  | cons f fs ih =>
      obtain ⟨hne, hlt, hrest⟩ := Layout.cons_iff.mp h
      have hbf := hb f (by simp)
      unfold subtractLoop
      by_cases hfe : f.start < e
      · rw [if_pos hfe]
        by_cases hmid : f.start < b ∧ e < f.stop
        · -- the suffix starts at `e`, so nothing later meets the range
          have hno : ∀ g ∈ fs, ¬ g.Meets b e := by
            intro g hg hm
            have := hlt g hg
            have := hm.1
            omega
          rw [if_pos hmid, cutAll_cons, clipAll_cons, cutAll_of_disjoint hno,
            clipAll_of_disjoint hno]
          simp only [cut, clip]
          grind
        · rw [if_neg hmid, ih hrest fun g hg => hb g (by simp [hg]), cutAll_cons, clipAll_cons]
          simp only [cut, clip]
          grind
      · rw [if_neg hfe, cutAll_of_disjoint (not_meets_of_le h hfe b),
          clipAll_of_disjoint (not_meets_of_le h hfe b)]

end Loops

/-! ## The class -/

/-- `IntervalSet<T>`: the map entries with the class contract. -/
@[ext]
structure IntervalSet (α : Type*) where
  frags : List (Fragment α)
  layout : Layout frags

namespace IntervalSet

def empty : IntervalSet α := ⟨[], .nil⟩

instance : Inhabited (IntervalSet α) := ⟨empty⟩

instance [DecidableEq α] : DecidableEq (IntervalSet α) := fun s t =>
  decidable_of_iff (s.frags = t.frags) ⟨IntervalSet.ext, fun h => h ▸ rfl⟩

def isEmpty (s : IntervalSet α) : Bool := s.frags.isEmpty

/-- `total_bytes`. -/
def totalBytes (s : IntervalSet α) : ℕ := Lib.totalBytes s.frags

/-- The interval containing `point`, if any. -/
def find (s : IntervalSet α) (point : ℕ) : Option (Fragment α) := candidate point s.frags

/-- Every intersection with `[b, e)`, clipped to the range, in address order. -/
def intersections (s : IntervalSet α) (b e : ℕ) : List (Fragment α) :=
  if e ≤ b then [] else intersectionsLoop b e (rangeStart b s.frags).2

/-- The entries after `subtract(b, e)` and the pieces it returns. -/
def subtractFrags (s : IntervalSet α) (b e : ℕ) : List (Fragment α) × List (Fragment α) :=
  if e ≤ b then (s.frags, [])
  else
    let (skipped, rest) := rangeStart b s.frags
    let (kept, removed) := subtractLoop b e rest
    (skipped ++ kept, removed)

theorem subtractFrags_eq (s : IntervalSet α) (b e : ℕ) :
    s.subtractFrags b e = (cutAll b e s.frags, clipAll b e s.frags) := by
  unfold subtractFrags
  split
  · rename_i h
    rw [cutAll_of_le h, clipAll_of_le h]
  · rename_i h
    obtain ⟨hsplit, hskip, hrest⟩ := rangeStart_spec s.layout b
    have hlay := s.layout
    rw [hsplit] at hlay
    obtain ⟨-, hlrest, -⟩ := Layout.append_iff.mp hlay
    have hno : ∀ f ∈ (rangeStart b s.frags).1, ¬ f.Meets b e := fun f hf hm => by
      have := hskip f hf
      have := hm.2.1
      omega
    have hloop := subtractLoop_eq hlrest (show b < e by omega) hrest
    conv_rhs => rw [hsplit, cutAll_append, clipAll_append, cutAll_of_disjoint hno,
      clipAll_of_disjoint hno, List.nil_append]
    simp only [hloop]

/-- `subtract(b, e)`: the set without `[b, e)` and the removed pieces. -/
def subtract (s : IntervalSet α) (b e : ℕ) : IntervalSet α × List (Fragment α) :=
  (⟨(s.subtractFrags b e).1, by rw [subtractFrags_eq]; exact s.layout.cutAll b e⟩,
    (s.subtractFrags b e).2)

@[simp] theorem subtract_frags (s : IntervalSet α) (b e : ℕ) :
    (s.subtract b e).1.frags = cutAll b e s.frags := by
  simp [subtract, subtractFrags_eq]

@[simp] theorem subtract_removed (s : IntervalSet α) (b e : ℕ) :
    (s.subtract b e).2 = clipAll b e s.frags := by
  simp [subtract, subtractFrags_eq]

theorem intersections_eq (s : IntervalSet α) (b e : ℕ) :
    s.intersections b e = clipAll b e s.frags := by
  unfold intersections
  split
  · rename_i h
    rw [clipAll_of_le h]
  · rename_i h
    obtain ⟨hsplit, hskip, hrest⟩ := rangeStart_spec s.layout b
    have hlay := s.layout
    rw [hsplit] at hlay
    obtain ⟨-, hlrest, -⟩ := Layout.append_iff.mp hlay
    have hno : ∀ f ∈ (rangeStart b s.frags).1, ¬ f.Meets b e := fun f hf hm => by
      have := hskip f hf
      have := hm.2.1
      omega
    rw [intersectionsLoop_eq hlrest (by omega)]
    conv_rhs => rw [hsplit, clipAll_append, clipAll_of_disjoint hno, List.nil_append]

theorem find_eq (s : IntervalSet α) (point : ℕ) :
    s.find point = s.frags.find? fun f => f.Contains point := candidate_eq_find? s.layout point

theorem find_eq_some {s : IntervalSet α} {point : ℕ} {f : Fragment α} :
    s.find point = some f ↔ f ∈ s.frags ∧ f.Contains point := by
  rw [find_eq]
  constructor
  · intro h
    exact ⟨List.mem_of_find?_eq_some h, by simpa using List.find?_some h⟩
  · rintro ⟨hf, hc⟩
    cases hk : s.frags.find? fun f => f.Contains point with
    | none =>
        have := List.find?_eq_none.mp hk f hf
        simp only [decide_eq_true_eq] at this
        exact absurd hc this
    | some k =>
        have hkc : k.Contains point := by simpa using List.find?_some hk
        rw [s.layout.eq_of_contains (List.mem_of_find?_eq_some hk) hf hkc hc]

theorem find_eq_none {s : IntervalSet α} {point : ℕ} :
    s.find point = none ↔ ∀ f ∈ s.frags, ¬ f.Contains point := by
  rw [find_eq, List.find?_eq_none]
  simp only [decide_eq_true_eq]

/-- A cut list has room for the erased range. -/
private theorem place_layout (s : IntervalSet α) {b e : ℕ} (h : b < e) (v : α) :
    Layout (place ⟨b, e, v⟩ (cutAll b e s.frags)) := by
  refine (s.layout.cutAll b e).place h fun g hg => ?_
  obtain ⟨f, hf, hgf⟩ := mem_cutAll.mp hg
  have := (mem_cut (s.layout.nonempty f hf) hgf).2.2.2.2
  simp only [Meets] at this
  simp only
  omega

/-- `insert(b, e, value)`: the evicted pieces come back like `subtract` returns
them; `intervals_.emplace(begin, …)` puts the new entry at its key. -/
def insert (s : IntervalSet α) (b e : ℕ) (v : α) : IntervalSet α × List (Fragment α) :=
  let (rest, evicted) := s.subtract b e
  if h : b < e then
    (⟨place ⟨b, e, v⟩ (s.subtract b e).1.frags, by
      rw [subtract_frags]; exact s.place_layout h v⟩, evicted)
  else (rest, evicted)

theorem insert_frags (s : IntervalSet α) {b e : ℕ} (h : b < e) (v : α) :
    (s.insert b e v).1.frags = place ⟨b, e, v⟩ (cutAll b e s.frags) := by
  simp [insert, h]

/-! ## The contiguous run

Writer and analyzer both walk the fragments that continue a resized range: from
`stop`, while the next fragment begins there and belongs to the generation. -/

/-- The loop `for (;;) { next = find(run_end); … run_end = next->end; }`. Each
turn moves to a later fragment, so `fuel` turns suffice when there are at most
that many fragments. -/
def contiguousEnd (s : IntervalSet α) (mine : α → Bool) : ℕ → ℕ → ℕ
  | 0, runEnd => runEnd
  | fuel + 1, runEnd =>
      match s.find runEnd with
      | some next =>
          if next.start = runEnd ∧ mine next.value = true then
            s.contiguousEnd mine fuel next.stop
          else runEnd
      | none => runEnd

/-- The end of the run that starts with a fragment ending at `stop`. -/
def runEnd (s : IntervalSet α) (mine : α → Bool) (stop : ℕ) : ℕ :=
  s.contiguousEnd mine s.frags.length stop

/-- With the entries split at the current end, the loop follows the later ones. -/
private theorem contiguousEnd_eq (s : IntervalSet α) (mine : α → Bool) {pre post : List (Fragment α)}
    {fuel e : ℕ} (hsplit : s.frags = pre ++ post) (hpre : ∀ f ∈ pre, f.start < e)
    (hpost : ∀ f ∈ post, e ≤ f.start) (hfuel : post.length ≤ fuel) :
    s.contiguousEnd mine fuel e = runFrom e (post.filter fun f => mine f.value) := by
  induction post generalizing pre fuel e with
  | nil =>
      cases fuel with
      | zero => rfl
      | succ fuel =>
          unfold contiguousEnd
          cases hfind : s.find e with
          | none => rfl
          | some next =>
              have hmem := (find_eq_some.mp hfind).1
              rw [hsplit, List.append_nil] at hmem
              have := hpre next hmem
              simp only
              rw [if_neg (by omega)]
              rfl
  | cons g post ih =>
      obtain ⟨fuel, rfl⟩ : ∃ n, fuel = n + 1 := ⟨fuel - 1, by
        rw [List.length_cons] at hfuel
        omega⟩
      have hlay := s.layout
      rw [hsplit] at hlay
      obtain ⟨-, hlpost, -⟩ := Layout.append_iff.mp hlay
      obtain ⟨hgne, hglt, -⟩ := Layout.cons_iff.mp hlpost
      by_cases hcont : g.start = e ∧ mine g.value = true
      · -- the next fragment continues the run
        have hfind : s.find e = some g :=
          find_eq_some.mpr ⟨by rw [hsplit]; simp, by omega, by omega⟩
        unfold contiguousEnd
        rw [hfind]
        simp only
        rw [if_pos hcont, List.filter_cons_of_pos (by simpa using hcont.2), runFrom_cons,
          if_pos hcont.1]
        refine ih (show s.frags = (pre ++ [g]) ++ post by rw [hsplit]; simp) ?_ hglt ?_
        · intro f hf
          rcases List.mem_append.mp hf with hf | hf
          · have := hpre f hf
            omega
          · rw [List.mem_singleton.mp hf]
            exact hgne
        · rw [List.length_cons] at hfuel
          omega
      · have hstay : s.contiguousEnd mine (fuel + 1) e = e := by
          unfold contiguousEnd
          cases hfind : s.find e with
          | none => rfl
          | some next =>
              obtain ⟨hmem, hc⟩ := find_eq_some.mp hfind
              simp only
              refine if_neg fun ⟨hs, hv⟩ => ?_
              rw [hsplit] at hmem
              rcases List.mem_append.mp hmem with hmem | hmem
              · have := hpre next hmem
                omega
              · rcases List.mem_cons.mp hmem with rfl | hmem
                · exact hcont ⟨hs, hv⟩
                · have h1 := hglt next hmem
                  have h2 := hpost g (by simp)
                  omega
        rw [hstay, runFrom_of_lt]
        intro f hf
        obtain ⟨hf, hmine⟩ := List.mem_filter.mp hf
        rcases List.mem_cons.mp hf with rfl | hf
        · exact fun hs => hcont ⟨hs, hmine⟩
        · have h1 := hglt f hf
          have h2 := hpost g (by simp)
          omega

/-- The loop follows the generation's own fragments. -/
theorem runEnd_eq (s : IntervalSet α) (mine : α → Bool) (stop : ℕ) :
    s.runEnd mine stop = runFrom stop (s.frags.filter fun f => mine f.value) := by
  obtain ⟨pre, post, hsplit, hpre, hpost⟩ := s.layout.split_at stop
  have hlen : post.length ≤ s.frags.length := by
    rw [hsplit, List.length_append]
    omega
  rw [runEnd, s.contiguousEnd_eq mine hsplit hpre hpost hlen, hsplit, List.filter_append,
    runFrom_append]
  congr 1
  refine (runFrom_of_lt fun f hf => ?_).symm
  have := hpre f (List.mem_of_mem_filter hf)
  omega

end IntervalSet

end Noleax.Trace
