import Mathlib.Data.Set.Card
import Mathlib.Tactic.Common

/-!
# Counting the processes in a region

A counter that every process increments on entering a region of its program and
decrements on leaving it holds the number of the processes inside. `Census` says
so; the rules move one process and the counter together.
-/

namespace Noleax.Lib

variable {ι α : Type*} {n : ℕ} {f : ι → α} {p : α → Prop}

/-- Exactly `n` processes are in the region. -/
def Census (n : ℕ) (f : ι → α) (p : α → Prop) : Prop := {i | p (f i)}.encard = n

namespace Census

theorem none_inside (h : Census 0 f p) (i : ι) : ¬ p (f i) := by
  intro hp
  have hempty : {i | p (f i)} = ∅ := Set.encard_eq_zero.mp h
  have : i ∈ {i | p (f i)} := hp
  rw [hempty] at this
  exact this

/-- A process inside the region is counted. -/
theorem pos (h : Census n f p) {i : ι} (hin : p (f i)) : 0 < n := by
  rcases Nat.eq_zero_or_pos n with rfl | hpos
  · exact absurd hin (h.none_inside i)
  · exact hpos

theorem empty (h : ∀ i, ¬ p (f i)) : Census 0 f p := by
  unfold Census
  have hempty : {i | p (f i)} = ∅ := Set.eq_empty_of_forall_notMem h
  rw [hempty, Set.encard_empty]
  rfl

variable [DecidableEq ι] {i : ι} {a : α}

/-- The process moves inside the region, or outside of it. -/
theorem stay (h : Census n f p) (hiff : p (f i) ↔ p a) : Census n (Function.update f i a) p := by
  have hset : {j | p (Function.update f i a j)} = {j | p (f j)} := by
    ext j
    rcases eq_or_ne j i with rfl | hne
    · simp [hiff]
    · simp [Function.update_of_ne hne]
  unfold Census
  rw [hset]
  exact h

theorem enter (h : Census n f p) (hout : ¬ p (f i)) (hin : p a) :
    Census (n + 1) (Function.update f i a) p := by
  have hset : {j | p (Function.update f i a j)} = insert i {j | p (f j)} := by
    ext j
    rcases eq_or_ne j i with rfl | hne
    · simp [hin]
    · simp [hne]
  have hnot : i ∉ {j | p (f j)} := hout
  unfold Census
  rw [hset, Set.encard_insert_of_notMem hnot, show {j | p (f j)}.encard = n from h]
  rfl

theorem exit (h : Census (n + 1) f p) (hin : p (f i)) (hout : ¬ p a) :
    Census n (Function.update f i a) p := by
  have hset : {j | p (Function.update f i a j)} = {j | p (f j)} \ {i} := by
    ext j
    rcases eq_or_ne j i with rfl | hne
    · simp [hout]
    · simp [hne]
  have hmem : i ∈ {j | p (f j)} := hin
  unfold Census
  rw [hset, Set.encard_sdiff_singleton_of_mem hmem, show {j | p (f j)}.encard = (n + 1 : ℕ) from h]
  rfl

end Census

end Noleax.Lib
