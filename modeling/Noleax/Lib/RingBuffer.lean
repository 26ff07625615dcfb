import Mathlib.Data.List.Basic
import Mathlib.Logic.Function.Basic
import Mathlib.Tactic.Common

/-!
# Ring buffers

A bounded queue in the slots of a fixed array: the oldest element stands at `head`, the
others behind it, around the end. `contents` is the queue a ring stands for.
-/

namespace Noleax.Lib

structure RingBuffer (α : Type*) where
  capacity : ℕ
  slots : ℕ → α
  head : ℕ := 0
  count : ℕ := 0
  head_lt : head < capacity
  count_le : count ≤ capacity

namespace RingBuffer

variable {α : Type*}

/-- The ring without elements; `initial` fills its slots. -/
def empty (capacity : ℕ) (h : 0 < capacity) (initial : α) : RingBuffer α where
  capacity := capacity
  slots := fun _ => initial
  head_lt := h
  count_le := Nat.zero_le capacity

/-- The slot of the element with `i` elements before it. -/
def slot (ring : RingBuffer α) (i : ℕ) : ℕ := (ring.head + i) % ring.capacity

def contents (ring : RingBuffer α) : List α :=
  (List.range ring.count).map fun i => ring.slots (ring.slot i)

abbrev Full (ring : RingBuffer α) : Prop := ring.count = ring.capacity

def push (ring : RingBuffer α) (x : α) (h : ¬ ring.Full) : RingBuffer α where
  capacity := ring.capacity
  slots := Function.update ring.slots (ring.slot ring.count) x
  head := ring.head
  count := ring.count + 1
  head_lt := ring.head_lt
  count_le := Nat.lt_of_le_of_ne ring.count_le h

/-- The oldest element and the ring without it. -/
def pop (ring : RingBuffer α) : Option (α × RingBuffer α) :=
  if ring.count = 0 then none
  else some (ring.slots ring.head,
    { capacity := ring.capacity
      slots := ring.slots
      head := (ring.head + 1) % ring.capacity
      count := ring.count - 1
      head_lt := Nat.mod_lt _ (Nat.zero_lt_of_lt ring.head_lt)
      count_le := Nat.le_trans (Nat.sub_le ..) ring.count_le })

@[simp] theorem length_contents (ring : RingBuffer α) : ring.contents.length = ring.count := by
  simp [contents]

/-- Elements of one queue stand in different slots. -/
theorem slot_ne (ring : RingBuffer α) {i j : ℕ} (hij : i < j) (hj : j < ring.capacity) :
    ring.slot i ≠ ring.slot j := by
  have hwrap : ∀ k < ring.capacity, ring.slot k =
      if ring.head + k < ring.capacity then ring.head + k
      else ring.head + k - ring.capacity := by
    intro k hk
    have hhead := ring.head_lt
    unfold slot
    split
    · rename_i hlt
      exact Nat.mod_eq_of_lt hlt
    · rename_i hge
      rw [Nat.mod_eq_sub_mod (by omega), Nat.mod_eq_of_lt (by omega)]
  rw [hwrap i (Nat.lt_trans hij hj), hwrap j hj]
  have hhead := ring.head_lt
  split <;> split <;> omega

theorem contents_push (ring : RingBuffer α) (x : α) (h : ¬ ring.Full) :
    (ring.push x h).contents = ring.contents ++ [x] := by
  have hroom : ring.count < ring.capacity := Nat.lt_of_le_of_ne ring.count_le h
  show (List.range (ring.count + 1)).map (fun i =>
      Function.update ring.slots (ring.slot ring.count) x (ring.slot i)) = _
  rw [List.range_succ, List.map_append]
  congr 1
  · apply List.map_congr_left
    intro i hi
    exact Function.update_of_ne (ring.slot_ne (List.mem_range.mp hi) hroom) ..
  · simp

theorem pop_eq_none {ring : RingBuffer α} : ring.pop = none ↔ ring.contents = [] := by
  rw [← List.length_eq_zero_iff, length_contents]
  unfold pop
  split
  · rename_i hnone
    simp [hnone]
  · rename_i hsome
    simp [hsome]

theorem pop_eq_some {ring rest : RingBuffer α} {x : α} (h : ring.pop = some (x, rest)) :
    ring.contents = x :: rest.contents := by
  unfold pop at h
  split at h
  · cases h
  rename_i hsome
  obtain ⟨rfl, rfl⟩ := Prod.mk.inj (Option.some.inj h)
  have hcount : ring.count = ring.count - 1 + 1 := by omega
  show (List.range ring.count).map (fun i => ring.slots ((ring.head + i) % ring.capacity)) =
    ring.slots ring.head :: (List.range (ring.count - 1)).map fun i =>
      ring.slots (((ring.head + 1) % ring.capacity + i) % ring.capacity)
  rw [hcount, List.range_succ_eq_map, List.map_cons, List.map_map, Nat.add_zero,
    Nat.mod_eq_of_lt ring.head_lt, Nat.add_sub_cancel]
  congr 1
  apply List.map_congr_left
  intro i _
  -- the head moved by one, as every index did
  show ring.slots ((ring.head + (i + 1)) % ring.capacity) = _
  rw [Nat.mod_add_mod, Nat.add_assoc, Nat.add_comm 1 i]

end RingBuffer

end Noleax.Lib
