import Mathlib.Data.List.Pairwise
import Mathlib.Logic.Function.Basic
import Mathlib.Tactic.Common

/-!
# Tables of ranges

A table says which range starts at an address. Ranges are loaded and unloaded one at a
time, and a load has to be clear of what the table holds. `difference` is how a table
follows another: the ranges whose base is gone leave, then every new range comes in the
order of the bases, behind the one it replaces. Every load of it is clear at its time.
-/

namespace Noleax.Lib

variable {ι : Type*}

/-- What a range table is told. -/
inductive RangeChange (ι : Type*) where
  | load (range : ι)
  | unload (range : ι)

abbrev RangeTable (ι : Type*) := ℕ → Option ι

namespace RangeTable

section Changes

variable (base size : ι → ℕ)

/-- A range that meets no range of the table. -/
def Clear (table : RangeTable ι) (range : ι) : Prop :=
  ∀ start other, table start = some other →
    base other + size other ≤ base range ∨ base range + size range ≤ base other

def apply (table : RangeTable ι) : RangeChange ι → RangeTable ι
  | .load range => Function.update table (base range) (some range)
  | .unload range => Function.update table (base range) none

/-- A load is clear, and an unload is of a range the table holds. -/
def Fits (table : RangeTable ι) : RangeChange ι → Prop
  | .load range => table (base range) = none ∧ Clear base size table range
  | .unload range => table (base range) = some range

/-- The changes carry one table into another, each of them fitting at its time. -/
def Carries (table : RangeTable ι) : List (RangeChange ι) → RangeTable ι → Prop
  | [], target => table = target
  | change :: changes, target =>
      Fits base size table change ∧ Carries (apply base table change) changes target

theorem carries_append {base size : ι → ℕ} {table target : RangeTable ι}
    {first second : List (RangeChange ι)} :
    Carries base size table (first ++ second) target ↔
      ∃ middle, Carries base size table first middle ∧
        Carries base size middle second target := by
  induction first generalizing table with
  | nil =>
      constructor
      · intro h
        exact ⟨table, rfl, h⟩
      · intro h
        obtain ⟨_, rfl, h⟩ := h
        exact h
  | cons change first ih =>
      constructor
      · intro h
        obtain ⟨middle, hfirst, hsecond⟩ := ih.mp h.2
        exact ⟨middle, ⟨h.1, hfirst⟩, hsecond⟩
      · intro h
        obtain ⟨middle, hfirst, hsecond⟩ := h
        exact ⟨hfirst.1, ih.mpr ⟨middle, hfirst.2, hsecond⟩⟩

end Changes

/-! ## Lists of ranges -/

section Lists

variable {base size : ι → ℕ}

/-- The table of a list of ranges. -/
def ofList (base : ι → ℕ) (ranges : List ι) : RangeTable ι :=
  fun start => ranges.find? fun range => base range = start

/-- Ranges in the order of their bases, none of them reaching the next one. -/
structure Apart (base size : ι → ℕ) (ranges : List ι) : Prop where
  order : ranges.Pairwise fun first second => base first + size first ≤ base second
  filled : ∀ range ∈ ranges, 0 < size range

theorem ofList_cons (range : ι) (ranges : List ι) :
    ofList base (range :: ranges) =
      Function.update (ofList base ranges) (base range) (some range) := by
  funext start
  by_cases h : start = base range
  · subst h
    simp [ofList]
  · rw [Function.update_of_ne h]
    exact List.find?_cons_of_neg (by simpa using fun heq => h heq.symm)

theorem ofList_some {ranges : List ι} {start : ℕ} {range : ι}
    (h : ofList base ranges start = some range) : range ∈ ranges ∧ base range = start :=
  ⟨List.mem_of_find?_eq_some h, by simpa using List.find?_some h⟩

theorem ofList_none {ranges : List ι} {start : ℕ} :
    ofList base ranges start = none ↔ ∀ range ∈ ranges, base range ≠ start := by
  simp [ofList]

theorem Apart.tail {range : ι} {ranges : List ι} (h : Apart base size (range :: ranges)) :
    Apart base size ranges :=
  ⟨(List.pairwise_cons.mp h.order).2, fun other hother =>
    h.filled other (List.mem_cons_of_mem _ hother)⟩

/-- A range is below the ones behind it. -/
theorem Apart.head {range : ι} {ranges : List ι} (h : Apart base size (range :: ranges)) :
    ∀ other ∈ ranges, base range + size range ≤ base other ∧ base range < base other := by
  intro other hother
  have hle := (List.pairwise_cons.mp h.order).1 other hother
  have hfilled := h.filled range List.mem_cons_self
  exact ⟨hle, by omega⟩

/-- Of two ranges the one with the lower base ends before the other. -/
theorem Apart.below {ranges : List ι} (h : Apart base size ranges) {first second : ι}
    (hfirst : first ∈ ranges) (hsecond : second ∈ ranges) (hlt : base first < base second) :
    base first + size first ≤ base second := by
  induction ranges with
  | nil => cases hfirst
  | cons range ranges ih =>
      rcases List.mem_cons.mp hfirst with rfl | hfirstRest
      · rcases List.mem_cons.mp hsecond with rfl | hsecondRest
        · omega
        · exact (h.head second hsecondRest).1
      · rcases List.mem_cons.mp hsecond with rfl | hsecondRest
        · have := (h.head first hfirstRest).2
          omega
        · exact ih h.tail hfirstRest hsecondRest

theorem Apart.ofList_mem {ranges : List ι} (h : Apart base size ranges) {range : ι}
    (hmem : range ∈ ranges) : ofList base ranges (base range) = some range := by
  induction ranges with
  | nil => cases hmem
  | cons first ranges ih =>
      rw [ofList_cons]
      rcases List.mem_cons.mp hmem with rfl | hmem
      · exact Function.update_self ..
      · rw [Function.update_of_ne (Nat.ne_of_gt (h.head range hmem).2)]
        exact ih h.tail hmem

/-- A table without the ranges at some bases. -/
def without (base : ι → ℕ) (table : RangeTable ι) (gone : List ι) : RangeTable ι :=
  fun start => if (ofList base gone start).isSome then none else table start

/-- Ranges that leave a table. -/
theorem carries_unloads {gone : List ι} {table : RangeTable ι}
    (hheld : ∀ range ∈ gone, table (base range) = some range)
    (horder : gone.Pairwise fun first second => base first ≠ base second) :
    Carries base size table (gone.map .unload) (without base table gone) := by
  induction gone generalizing table with
  | nil => rfl
  | cons range gone ih =>
      obtain ⟨hhead, horder⟩ := List.pairwise_cons.mp horder
      refine ⟨hheld range List.mem_cons_self, ?_⟩
      have htarget : without base table (range :: gone) =
          without base (Function.update table (base range) none) gone := by
        funext start
        unfold without
        rw [ofList_cons]
        by_cases hstart : start = base range
        · subst hstart
          simp
        · rw [Function.update_of_ne hstart, Function.update_of_ne hstart]
      rw [htarget]
      refine ih (fun other hother => ?_) horder
      show Function.update table (base range) none (base other) = some other
      rw [Function.update_of_ne fun heq => hhead other hother heq.symm]
      exact hheld other (List.mem_cons_of_mem _ hother)

end Lists

/-! ## The difference of two tables -/

section Difference

variable {base size : ι → ℕ} [DecidableEq ι]

/-- What brings a range in where the table held `found`. -/
def renewal (range : ι) : Option ι → List (RangeChange ι)
  | none => [.load range]
  | some found => if found = range then [] else [.unload found, .load range]

/-- The ranges whose base is gone, and then the others in order. -/
def difference (base : ι → ℕ) (live current : List ι) : List (RangeChange ι) :=
  (live.filter fun range => (ofList base current (base range)).isNone).map .unload ++
    current.flatMap fun range => renewal range (ofList base live (base range))

/-- Ranges that come into a table: what it holds is below them, or at their bases and
about to be replaced. -/
theorem carries_renewals {live current : List ι} {table : RangeTable ι}
    (hcurrent : Apart base size current)
    (hsame : ∀ range ∈ current, table (base range) = ofList base live (base range))
    (hbelow : ∀ start other, table start = some other → base other = start ∧
      ((∃ range ∈ current, base range = start) ∨
        ∀ range ∈ current, start + size other ≤ base range)) :
    Carries base size table
      (current.flatMap fun range => renewal range (ofList base live (base range)))
      (fun start => (ofList base current start).or (table start)) := by
  induction current generalizing table with
  | nil => rfl
  | cons range current ih =>
      have hhead := hcurrent.head
      -- what is left of the table when the base of the range is free does not meet it
      have hclear : ∀ start other, start ≠ base range → table start = some other →
          base other + size other ≤ base range ∨ base range + size range ≤ base other := by
        intro start other hne hother
        obtain ⟨rfl, ⟨found, hfound, heq⟩ | hends⟩ := hbelow start other hother
        · rcases List.mem_cons.mp hfound with rfl | hfound
          · exact absurd heq.symm hne
          · rw [← heq]
            exact .inr (hhead found hfound).1
        · exact .inl (hends range List.mem_cons_self)
      have hrest : Carries base size (Function.update table (base range) (some range))
          (current.flatMap fun range => renewal range (ofList base live (base range)))
          (fun start => (ofList base (range :: current) start).or (table start)) := by
        have htarget : (fun start => (ofList base (range :: current) start).or (table start)) =
            fun start => (ofList base current start).or
              (Function.update table (base range) (some range) start) := by
          funext start
          rw [ofList_cons]
          by_cases hstart : start = base range
          · subst hstart
            have hfree : ofList base current (base range) = none :=
              ofList_none.mpr fun other hother => Nat.ne_of_gt (hhead other hother).2
            rw [Function.update_self, Function.update_self, hfree]
            rfl
          · rw [Function.update_of_ne hstart, Function.update_of_ne hstart]
        rw [htarget]
        refine ih hcurrent.tail (fun other hother => ?_) fun start other hother => ?_
        · rw [Function.update_of_ne (Nat.ne_of_gt (hhead other hother).2)]
          exact hsame other (List.mem_cons_of_mem _ hother)
        · by_cases hstart : start = base range
          · subst hstart
            rw [Function.update_self] at hother
            obtain rfl := Option.some.inj hother
            exact ⟨rfl, .inr fun found hfound => (hhead found hfound).1⟩
          · rw [Function.update_of_ne hstart] at hother
            obtain ⟨rfl, ⟨found, hfound, heq⟩ | hends⟩ := hbelow start other hother
            · rcases List.mem_cons.mp hfound with rfl | hfound
              · exact absurd heq.symm hstart
              · exact ⟨rfl, .inl ⟨found, hfound, heq⟩⟩
            · exact ⟨rfl, .inr fun found hfound => hends found (List.mem_cons_of_mem _ hfound)⟩
      rw [List.flatMap_cons, ← hsame range List.mem_cons_self]
      cases hheld : table (base range) with
      | none =>
          refine ⟨⟨hheld, fun start other hother => hclear start other ?_ hother⟩, hrest⟩
          rintro rfl
          rw [hheld] at hother
          cases hother
      | some found =>
          by_cases hfound : found = range
          · -- the range is there already
            subst hfound
            rw [renewal, if_pos rfl, List.nil_append]
            rwa [show Function.update table (base found) (some found) = table from
              Function.update_eq_self_iff.mpr hheld.symm] at hrest
          · rw [renewal, if_neg hfound]
            have hbase : base found = base range := (hbelow _ _ hheld).1
            refine ⟨?_, ⟨?_, ?_⟩, ?_⟩
            · show table (base found) = some found
              rw [hbase, hheld]
            · show Function.update table (base found) none (base range) = none
              rw [hbase, Function.update_self]
            · intro start other hother
              change Function.update table (base found) none start = some other at hother
              by_cases hstart : start = base found
              · rw [hstart, Function.update_self] at hother
                cases hother
              · rw [Function.update_of_ne hstart] at hother
                exact hclear start other (hbase ▸ hstart) hother
            · show Carries base size (Function.update (Function.update table (base found) none)
                (base range) (some range)) _ _
              rw [hbase, Function.update_idem]
              exact hrest

/-- The difference carries the table of one list into the table of another. -/
theorem difference_carries {live current : List ι} (hlive : Apart base size live)
    (hcurrent : Apart base size current) :
    Carries base size (ofList base live) (difference base live current)
      (ofList base current) := by
  rw [difference, carries_append]
  refine ⟨_, carries_unloads (fun range hrange => ?_) ?_, ?_⟩
  · exact hlive.ofList_mem (List.mem_filter.mp hrange).1
  · refine List.Pairwise.sublist List.filter_sublist ?_
    refine hlive.order.imp_of_mem fun {first second} hfirst _ hle => ?_
    have hfilled := hlive.filled first hfirst
    omega
  -- what is left of the first list has its base in the second one
  have hleft : ∀ start other, without base (ofList base live) (live.filter fun range =>
        (ofList base current (base range)).isNone) start = some other →
      ofList base live start = some other ∧ ∃ range ∈ current, base range = start := by
    intro start other hother
    unfold without at hother
    split at hother
    · cases hother
    rename_i hkept
    obtain ⟨hmem, rfl⟩ := ofList_some hother
    refine ⟨hother, by_contra fun hnone => hkept ?_⟩
    rw [Option.isSome_iff_ne_none]
    intro hgone
    refine ofList_none.mp hgone other (List.mem_filter.mpr ⟨hmem, ?_⟩) rfl
    rw [ofList_none.mpr fun range hrange heq => hnone ⟨range, hrange, heq⟩]
    rfl
  have htarget : ofList base current = fun start => (ofList base current start).or
      (without base (ofList base live) (live.filter fun range =>
        (ofList base current (base range)).isNone) start) := by
    funext start
    cases hstart : ofList base current start with
    | some range => rfl
    | none =>
        cases hother : without base (ofList base live) (live.filter fun range =>
            (ofList base current (base range)).isNone) start with
        | none => rfl
        | some other =>
            obtain ⟨-, range, hrange, heq⟩ := hleft start other hother
            exact absurd heq (ofList_none.mp hstart range hrange)
  conv => rhs; rw [htarget]
  refine carries_renewals hcurrent (fun range hrange => ?_) fun start other hother => ?_
  · refine if_neg fun hgone => ?_
    obtain ⟨other, hother⟩ := Option.isSome_iff_exists.mp hgone
    obtain ⟨hother, heq⟩ := ofList_some hother
    have hnone := (List.mem_filter.mp hother).2
    rw [heq, hcurrent.ofList_mem hrange] at hnone
    cases hnone
  · obtain ⟨hother, hbase⟩ := hleft start other hother
    exact ⟨(ofList_some hother).2, .inl hbase⟩

end Difference

end RangeTable

end Noleax.Lib
