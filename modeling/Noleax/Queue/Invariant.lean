import Noleax.Queue.Ring

/-!
# The invariant of the queue

`Inv` ties the threads to the ring: where each producer and the consumer stand,
what has been popped, which slots are below the watermark and what the drop
counter holds. Every step of every thread keeps it.
-/

namespace Noleax.Queue

open Trace

variable {P α : Type} {capacity : ℕ}

/-! ## The capacity -/

theorem ValidCapacity.exists_pow (h : ValidCapacity capacity) : ∃ n, capacity = 2 ^ n := by
  have hne : capacity ≠ 0 := by
    have := h.1
    omega
  exact (Nat.and_sub_one_eq_zero_iff_isPowerOfTwo hne).mp h.2.1

theorem slotIndex_eq_mod (h : ValidCapacity capacity) (position : ℕ) :
    slotIndex capacity position = position % capacity := by
  obtain ⟨n, rfl⟩ := h.exists_pow
  unfold slotIndex
  rw [Nat.and_two_pow_sub_one_eq_mod]

theorem ValidCapacity.lt (h : ValidCapacity capacity) : capacity < 2 ^ 63 := by
  have := h.2.2
  unfold maxU64 at this
  omega

/-! ## Threads -/

def Producer.claim : Producer α → Option (Claim α)
  | .touching payload position => some ⟨payload, position, false⟩
  | .raising payload position _ => some ⟨payload, position, false⟩
  | .filling payload position => some ⟨payload, position, false⟩
  | .storing payload position => some ⟨payload, position, false⟩
  | .publishing payload position => some ⟨payload, position, true⟩
  | _ => none

/-- The producer is about to raise the watermark over position `k`. -/
def Producer.Touches (k : ℕ) : Producer α → Prop
  | .touching _ position => position = k
  | .raising _ position _ => position = k
  | _ => False

theorem Producer.Touches.claim_ne_none {k : ℕ} {state : Producer α} (h : state.Touches k) :
    state.claim ≠ none := by
  cases state with
  | touching => exact Option.some_ne_none _
  | raising => exact Option.some_ne_none _
  | idle | start | reading | claiming | filling | storing | publishing | dropping | pinning
  | counting | adding => exact h.elim

/-- What a producer knows where it stands. -/
def Producer.Ok (capacity enqueue freed : ℕ) : Producer α → Prop
  | .reading _ position => position < maxU64 ∧ position ≤ enqueue
  | .claiming _ position =>
      position < maxU64 ∧ position ≤ enqueue ∧ (position = enqueue → enqueue < freed + capacity)
  | .raising _ position watermark => watermark < position + 1
  | .adding current => current ≠ maxU64
  | _ => True

/-- What the consumer knows where it stands. -/
def Consumer.Ok (dequeue : ℕ) (v : View P α) : Consumer α → Prop
  | .idle => True
  | .start => True
  | .looking position => position = dequeue ∧ position < maxU64
  | .sampling position => position = dequeue ∧ v.Published position
  | .comparing position _ => position = dequeue ∧ v.Published position
  | .raising position _ _ => position = dequeue ∧ v.Published position
  | .copying position => position = dequeue ∧ v.Published position
  | .freeing position value =>
      position = dequeue ∧ v.Published position ∧ value = v.event position
  | .finishing position value =>
      position = dequeue ∧ v.Published position ∧ value = v.event position

/-- The consumer has handed back every slot below. -/
def System.freed (s : System P α) : ℕ :=
  match s.consumer with
  | .finishing position _ => position + 1
  | _ => s.mem.dequeue

def System.view (s : System P α) : View P α where
  enqueue := s.mem.enqueue
  freed := s.freed
  slots := s.mem.slots
  claims p := (s.producers p).claim
  reserved := s.reserved
  returned := s.returned

/-- The slot of a lap-0 position is below the watermark, or will be. -/
def System.Touched (s : System P α) (k : ℕ) : Prop :=
  k < s.mem.touchedWatermark ∨ ∃ p, (s.producers p).Touches k

structure Inv (capacity : ℕ) (s : System P α) : Prop where
  ring : Ring capacity s.view
  producer : ∀ p, (s.producers p).Ok capacity s.mem.enqueue s.freed
  consumer : s.consumer.Ok s.mem.dequeue s.view
  popped : s.popped = ((s.reserved.take s.mem.dequeue).zipIdx 1).map some
  touched : ∀ k, k < s.mem.enqueue → k < capacity → s.Touched k
  dropped : s.mem.dropped = min s.drops maxU64

/-! ## How a view grows -/

/-- Positions are only added, and what is published stays so. -/
structure View.Extends (v w : View P α) : Prop where
  enqueue : v.enqueue ≤ w.enqueue
  freed : v.freed ≤ w.freed
  published : ∀ k, v.Published k → w.Published k
  event : ∀ k, k < v.enqueue → w.event k = v.event k

theorem View.Extends.refl (v : View P α) : v.Extends v :=
  ⟨Nat.le_refl _, Nat.le_refl _, fun _ h => h, fun _ _ => rfl⟩

theorem Producer.Ok.mono {enqueue freed enqueue' freed' : ℕ} {state : Producer α}
    (h : state.Ok capacity enqueue freed) (he : enqueue ≤ enqueue') (hf : freed ≤ freed') :
    state.Ok capacity enqueue' freed' := by
  cases state with
  | reading payload position => exact ⟨h.1, h.2.trans he⟩
  | claiming payload position =>
      obtain ⟨hmax, hle, hroom⟩ := h
      refine ⟨hmax, hle.trans he, fun heq => ?_⟩
      have := hroom (by omega)
      omega
  | idle | start | touching | filling | storing | publishing | dropping | pinning | counting =>
      trivial
  | raising => exact h
  | adding => exact h

theorem Consumer.Ok.mono {dequeue : ℕ} {v w : View P α} {state : Consumer α}
    (h : state.Ok dequeue v) (hext : v.Extends w) : state.Ok dequeue w := by
  cases state with
  | idle | start => trivial
  | looking => exact h
  | sampling | comparing | raising | copying => exact ⟨h.1, hext.published _ h.2⟩
  | freeing position value =>
      obtain ⟨hpos, hfull, hvalue⟩ := h
      exact ⟨hpos, hext.published _ hfull, hvalue.trans (hext.event _ hfull.1).symm⟩
  | finishing position value =>
      obtain ⟨hpos, hfull, hvalue⟩ := h
      exact ⟨hpos, hext.published _ hfull, hvalue.trans (hext.event _ hfull.1).symm⟩

theorem Inv.dequeue_le {s : System P α} (h : Inv capacity s) : s.mem.dequeue ≤ s.freed := by
  have hcons := h.consumer
  unfold System.freed
  cases hstate : s.consumer with
  | finishing position value =>
      rw [hstate] at hcons
      simp only [hcons.1]
      omega
  | idle | start | looking | sampling | comparing | raising | copying | freeing => rfl

theorem Inv.dequeue_le_enqueue {s : System P α} (h : Inv capacity s) :
    s.mem.dequeue ≤ s.mem.enqueue :=
  h.dequeue_le.trans h.ring.freed_le

/-! ## What a producer reads -/

theorem subU64_mod {a b : ℕ} (hb : b ≤ a) (hmax : b < 2 ^ 64) :
    subU64 (a % 2 ^ 64) b = (a - b) % 2 ^ 64 := by
  unfold subU64
  omega

/-- Every position has a slot mate in the current lap. -/
theorem exists_slot_mate {lo position : ℕ} (hpos : 0 < capacity) (hlt : position < lo) :
    ∃ k, lo ≤ k ∧ k < lo + capacity ∧ k % capacity = position % capacity := by
  let laps := (lo - position + capacity - 1) / capacity
  have hdiv := Nat.div_add_mod (lo - position + capacity - 1) capacity
  have hmod := Nat.mod_lt (lo - position + capacity - 1) hpos
  refine ⟨position + capacity * laps, ?_, ?_, Nat.add_mul_mod_self_left ..⟩ <;>
    simp only [laps] <;> omega

/-- The sequence of a slot of the current lap, seen from a position of the same slot. -/
theorem Ring.distance {v : View P α} (h : Ring capacity v) {k position : ℕ}
    (hlo : v.freed ≤ k) (hhi : k < v.freed + capacity) (hle : position ≤ k)
    (hmax : position < maxU64) (hmod : k % capacity = position % capacity) :
    subU64 (v.slots (position % capacity)).sequence (position - position % capacity) =
        (k - position) % 2 ^ 64 ∨
      (v.Published k ∧
        subU64 (v.slots (position % capacity)).sequence (position - position % capacity) =
          k + 1 - position) := by
  have hi := Nat.mod_le position capacity
  have hbound : position < 2 ^ 64 := by
    unfold maxU64 at hmax
    omega
  rw [← hmod] at hi ⊢
  by_cases hfull : v.Published k
  · right
    refine ⟨hfull, ?_⟩
    rw [(h.full_slot k hlo hfull).1]
    have hk := hfull.1
    have hbig := h.enqueue_le_max
    unfold maxU64 at hbig
    unfold subU64
    omega
  · left
    rw [h.open_slot k hlo hhi hfull, subU64_mod (by omega) (by omega)]
    congr 1
    omega

/-- A slot that reads as free for the newest position has room. -/
theorem Ring.room_of_distance {v : View P α} (hcap : ValidCapacity capacity) (h : Ring capacity v)
    (hmax : v.enqueue < maxU64)
    (hdist : subU64 (v.slots (v.enqueue % capacity)).sequence
      (v.enqueue - v.enqueue % capacity) = 0) :
    v.enqueue < v.freed + capacity := by
  have hle := h.enqueue_le
  by_contra hfull
  have heq : v.enqueue = v.freed + capacity := by omega
  -- the slot still belongs to the position one lap behind
  have hcap2 := hcap.1
  have hcaplt := hcap.lt
  have hi := Nat.mod_le v.freed capacity
  have hbound : v.freed + capacity < 2 ^ 64 := by
    unfold maxU64 at hmax
    omega
  rw [heq, Nat.add_mod_right] at hdist
  unfold subU64 at hdist
  by_cases hpub : v.Published v.freed
  · rw [(h.full_slot _ (Nat.le_refl _) hpub).1] at hdist
    omega
  · rw [h.open_slot _ (Nat.le_refl _) (by omega) hpub] at hdist
    omega

/-- When a producer takes the ring for full. -/
theorem Ring.full_of_distance {v : View P α} (hcap : ValidCapacity capacity) (h : Ring capacity v)
    {position : ℕ} (hle : position ≤ v.enqueue) (hmax : position < maxU64)
    (hdist : maxU64 / 2 <
      subU64 (v.slots (position % capacity)).sequence (position - position % capacity)) :
    v.enqueue = v.freed + capacity ∨ position + 2 ^ 63 ≤ v.freed + capacity := by
  have hhalf : maxU64 / 2 = 2 ^ 63 - 1 := by decide
  have hbound := h.enqueue_le
  have hcap2 := hcap.1
  rw [hhalf] at hdist
  by_cases hstale : position < v.freed
  · right
    obtain ⟨k, hlo, hhi, hmod⟩ := exists_slot_mate (by omega : 0 < capacity) hstale
    rcases h.distance hlo hhi (by omega) hmax hmod with heq | ⟨-, heq⟩
    · have := Nat.mod_le (k - position) (2 ^ 64)
      omega
    · omega
  · left
    by_contra hroom
    rcases h.distance (Nat.le_of_not_lt hstale) (by omega) (Nat.le_refl _) hmax rfl
      with heq | ⟨-, heq⟩
    · rw [Nat.sub_self] at heq
      omega
    · omega

end Noleax.Queue
