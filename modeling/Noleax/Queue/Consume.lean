import Noleax.Queue.Produce

/-!
# Steps of the consumer

The atomic accesses of `try_pop`, the reset, and the invariant in every state of
every interleaving.
-/

namespace Noleax.Queue

open Trace

variable {P α : Type} {capacity : ℕ}

theorem freed_eq_dequeue {s : System P α}
    (h : ∀ position value, s.consumer ≠ .finishing position value) : s.freed = s.mem.dequeue := by
  unfold System.freed
  cases hc : s.consumer with
  | finishing position value => exact absurd hc (h position value)
  | idle | start | looking | sampling | comparing | raising | copying | freeing => rfl

/-- The consumer moves on without freeing a slot. -/
theorem Inv.consume {s : System P α} {mem : Memory α} {state : Consumer α} (h : Inv capacity s)
    (hmem : mem = { s.mem with highWater := mem.highWater })
    (hnot : ∀ position value, s.consumer ≠ .finishing position value)
    (hnot' : ∀ position value, state ≠ .finishing position value)
    (hstate : state.Ok s.mem.dequeue s.view) :
    Inv capacity { s with mem := mem, consumer := state } := by
  have hview : System.view { s with mem := mem, consumer := state } = s.view := by
    unfold System.view
    rw [freed_eq_dequeue hnot, freed_eq_dequeue hnot', hmem]
  have hfreed' := congrArg View.freed hview
  exact
    { ring := hview ▸ h.ring
      producer := by
        intro p
        have hok := h.producer p
        change (s.producers p).Ok capacity mem.enqueue (System.freed _)
        change System.freed _ = s.freed at hfreed'
        rw [hfreed', hmem]
        exact hok
      consumer := by
        rw [hview, hmem]
        exact hstate
      popped := by
        rw [hmem]
        exact h.popped
      touched := by
        rw [hmem]
        exact h.touched
      dropped := by
        rw [hmem]
        exact h.dropped }

theorem runConsumer_eq {s : System P α} {spurious : Bool} {mem : Memory α} {state : Consumer α}
    (h : consumerStep capacity s.mem spurious s.consumer = (mem, state, none)) :
    s.runConsumer capacity spurious = { s with mem := mem, consumer := state } := by
  simp only [System.runConsumer, h, Option.toList_none, List.append_nil]

/-- A slot that reads as published is. -/
theorem Inv.look {s : System P α} {position : ℕ} (hcap : ValidCapacity capacity)
    (h : Inv capacity s) (hc : s.consumer = .looking position)
    (hseq : (s.mem.slots (slotIndex capacity position)).sequence =
      position + 1 - slotIndex capacity position) : s.view.Published position := by
  have hok := h.consumer
  rw [hc] at hok
  obtain ⟨hpos, hmax⟩ := hok
  have hfreed : s.view.freed = position := by
    rw [hpos]
    exact freed_eq_dequeue (by simp [hc])
  have hcap2 := hcap.1
  by_contra hopen
  have hzero := h.ring.open_slot position hfreed.le (by omega) hopen
  rw [slotIndex_eq_mod hcap] at hseq
  change (s.mem.slots (position % capacity)).sequence = _ at hzero
  rw [hseq] at hzero
  have := Nat.mod_le position capacity
  have := Nat.mod_le (position - position % capacity) (2 ^ 64)
  omega

theorem Inv.freeSlot {s : System P α} {spurious : Bool} {position : ℕ} {value : Option (α × ℕ)}
    (hcap : ValidCapacity capacity) (h : Inv capacity s)
    (hc : s.consumer = .freeing position value) :
    Inv capacity (s.runConsumer capacity spurious) := by
  have hok := h.consumer
  rw [hc] at hok
  obtain ⟨hpos, hfull, hvalue⟩ := hok
  have hfreed : s.freed = position := by
    rw [hpos]
    exact freed_eq_dequeue (by simp [hc])
  have hlt := Nat.mod_lt position (by have := hcap.1; omega : 0 < capacity)
  have hrun : consumerStep capacity s.mem spurious s.consumer =
      (s.mem.setSequence (position % capacity)
          ((position + capacity - position % capacity) % 2 ^ 64),
        .finishing position value, none) := by
    rw [hc]
    simp only [consumerStep, slotIndex_eq_mod hcap]
    rw [subU64_mod (by omega) (by have := hcap.lt; omega)]
  rw [runConsumer_eq hrun]
  have hview : System.view { s with
      mem := s.mem.setSequence (position % capacity)
        ((position + capacity - position % capacity) % 2 ^ 64)
      consumer := .finishing position value } = s.view.free capacity := by
    have hvfreed : s.view.freed = position := hfreed
    unfold View.free
    rw [hvfreed]
    rfl
  have hring : Ring capacity (s.view.free capacity) := by
    refine h.ring.free ?_
    change s.view.Published s.freed
    rw [hfreed]
    exact hfull
  exact
    { ring := hview ▸ hring
      producer := by
        intro p
        refine (h.producer p).mono (Nat.le_refl _) ?_
        change s.freed ≤ position + 1
        omega
      consumer := by
        rw [hview]
        exact ⟨hpos, hfull, hvalue⟩
      popped := h.popped
      touched := h.touched
      dropped := h.dropped }

theorem Inv.finish {s : System P α} {spurious : Bool} {position : ℕ} {value : Option (α × ℕ)}
    (h : Inv capacity s) (hc : s.consumer = .finishing position value) :
    Inv capacity (s.runConsumer capacity spurious) := by
  have hok := h.consumer
  rw [hc] at hok
  obtain ⟨hpos, hfull, hvalue⟩ := hok
  have hfreed : s.freed = position + 1 := by
    unfold System.freed
    rw [hc]
  have hrun : s.runConsumer capacity spurious =
      { s with
        mem := { s.mem with dequeue := position + 1 }
        consumer := .idle
        popped := s.popped ++ [value] } := by
    simp only [System.runConsumer, hc, consumerStep, Option.toList_some]
  have hview : (s.runConsumer capacity spurious).view = s.view := by
    rw [hrun]
    unfold System.view
    rw [hfreed]
    rfl
  have hfreed' := congrArg View.freed hview
  change (s.runConsumer capacity spurious).freed = s.freed at hfreed'
  have hlen := h.ring.length_reserved
  have hlt : position < s.reserved.length := by
    change s.reserved.length = s.mem.enqueue at hlen
    rw [hlen]
    exact hfull.1
  exact
    { ring := hview ▸ h.ring
      producer := by
        intro p
        rw [hfreed', hrun]
        exact h.producer p
      consumer := by
        rw [hrun]
        trivial
      popped := by
        have hpopped := h.popped
        rw [← hpos] at hpopped
        have hevent : value = some (s.reserved[position], position + 1) := by
          rw [hvalue]
          change s.reserved[position]?.map _ = _
          rw [List.getElem?_eq_getElem hlt]
          rfl
        rw [hrun]
        simp only
        rw [hpopped, hevent, List.take_succ_eq_append_getElem hlt, List.zipIdx_append,
          List.map_append, List.length_take, Nat.min_eq_left hlt.le]
        simp [Nat.add_comm]
      touched := by
        rw [hrun]
        exact h.touched
      dropped := by
        rw [hrun]
        exact h.dropped }

theorem atOccupancy_ok {s : System P α} {position depth : ℕ}
    (h : position = s.mem.dequeue ∧ s.view.Published position) (high : ℕ) :
    (atOccupancy position depth high).Ok s.mem.dequeue s.view := by
  unfold atOccupancy
  split
  · exact h
  · exact h

theorem atOccupancy_ne {position depth high : ℕ} (position' : ℕ) (value : Option (α × ℕ)) :
    atOccupancy position depth high ≠ .finishing position' value := by
  unfold atOccupancy
  split <;> simp

/-- `note_occupancy_high_water` leaves everything but the high water alone. -/
theorem Inv.sample {s : System P α} {spurious : Bool} {position depth high : ℕ}
    (h : Inv capacity s) (hc : s.consumer = .raising position depth high) :
    Inv capacity (s.runConsumer capacity spurious) := by
  have hok := h.consumer
  have hnot : ∀ position value, s.consumer ≠ .finishing position value := by simp [hc]
  rw [hc] at hok
  by_cases hwin : s.mem.highWater = high ∧ spurious = false
  · have hrun : consumerStep capacity s.mem spurious s.consumer =
        ({ s.mem with highWater := depth }, .copying position, none) := by
      rw [hc]
      simp only [consumerStep, if_pos hwin]
    rw [runConsumer_eq hrun]
    exact h.consume rfl hnot (fun _ _ => by simp) hok
  · have hrun : consumerStep capacity s.mem spurious s.consumer =
        (s.mem, atOccupancy position depth s.mem.highWater, none) := by
      rw [hc]
      simp only [consumerStep, if_neg hwin]
    rw [runConsumer_eq hrun]
    exact h.consume rfl hnot atOccupancy_ne (atOccupancy_ok hok _)

/-- What `try_pop` copies is the event of its position. -/
theorem Inv.copy {s : System P α} {position : ℕ} (hcap : ValidCapacity capacity)
    (h : Inv capacity s) (hc : s.consumer = .copying position) :
    (s.mem.slots (slotIndex capacity position)).value = s.view.event position := by
  have hok := h.consumer
  rw [hc] at hok
  have hfreed : s.view.freed = position := by
    rw [hok.1]
    exact freed_eq_dequeue (by simp [hc])
  rw [slotIndex_eq_mod hcap]
  exact (h.ring.full_slot position hfreed.le hok.2).2

theorem Inv.runConsumer {s : System P α} (hcap : ValidCapacity capacity) (h : Inv capacity s)
    (spurious : Bool) : Inv capacity (s.runConsumer capacity spurious) := by
  have hok := h.consumer
  cases hc : s.consumer with
  | idle =>
      have hrun : consumerStep capacity s.mem spurious s.consumer = (s.mem, .idle, none) := by
        rw [hc]
        rfl
      rw [runConsumer_eq hrun]
      exact h.consume rfl (by simp [hc]) (by simp) trivial
  | start =>
      have hrun : consumerStep capacity s.mem spurious s.consumer =
          (s.mem, if s.mem.dequeue = maxU64 then .idle else .looking s.mem.dequeue, none) := by
        rw [hc]
        rfl
      rw [runConsumer_eq hrun]
      split
      · exact h.consume rfl (by simp [hc]) (by simp) trivial
      · have hmax := h.dequeue_le_enqueue.trans h.ring.enqueue_le_max
        exact h.consume rfl (by simp [hc]) (by simp) ⟨rfl, by omega⟩
  | looking position =>
      rw [hc] at hok
      by_cases hseq : (s.mem.slots (slotIndex capacity position)).sequence =
          position + 1 - slotIndex capacity position
      · have hrun : consumerStep capacity s.mem spurious s.consumer =
            (s.mem, .sampling position, none) := by
          rw [hc]
          simp only [consumerStep, hseq, ne_eq, not_true_eq_false, if_false]
        rw [runConsumer_eq hrun]
        exact h.consume rfl (by simp [hc]) (by simp) ⟨hok.1, h.look hcap hc hseq⟩
      · have hrun : consumerStep capacity s.mem spurious s.consumer = (s.mem, .idle, none) := by
          rw [hc]
          simp only [consumerStep, ne_eq, hseq, not_false_eq_true, if_true]
        rw [runConsumer_eq hrun]
        exact h.consume rfl (by simp [hc]) (by simp) trivial
  | sampling position =>
      have hrun : consumerStep capacity s.mem spurious s.consumer =
          (s.mem, .comparing position (subU64 s.mem.enqueue position), none) := by
        rw [hc]
        rfl
      rw [hc] at hok
      rw [runConsumer_eq hrun]
      exact h.consume rfl (by simp [hc]) (by simp) hok
  | comparing position depth =>
      have hrun : consumerStep capacity s.mem spurious s.consumer =
          (s.mem, atOccupancy position depth s.mem.highWater, none) := by
        rw [hc]
        rfl
      rw [hc] at hok
      rw [runConsumer_eq hrun]
      exact h.consume rfl (by simp [hc]) atOccupancy_ne (atOccupancy_ok hok _)
  | raising => exact h.sample hc
  | copying position =>
      have hrun : consumerStep capacity s.mem spurious s.consumer =
          (s.mem, .freeing position (s.mem.slots (slotIndex capacity position)).value, none) := by
        rw [hc]
        rfl
      rw [hc] at hok
      rw [runConsumer_eq hrun]
      exact h.consume rfl (by simp [hc]) (by simp) ⟨hok.1, hok.2, h.copy hcap hc⟩
  | freeing => exact h.freeSlot hcap hc
  | finishing => exact h.finish hc

/-! ## The reset -/

/-- The watermark covers every slot that was ever used. -/
theorem Inv.resetQuiescent_sequence {s : System P α} (h : Inv capacity s) (hquiet : s.Quiescent)
    {i : ℕ} (hi : i < capacity) : (s.mem.resetQuiescent.slots i).sequence = 0 := by
  simp only [Memory.resetQuiescent]
  split
  · rfl
  · -- nobody reserved position `i`, so its slot is still the one of lap 0
    rename_i hmark
    have hunused : s.mem.enqueue ≤ i := by
      by_contra hlt
      rcases h.touched i (by omega) hi with hlt' | ⟨p, hp⟩
      · exact hmark hlt'
      · rw [hquiet.1 p] at hp
        exact hp
    have hfreed := h.ring.freed_le
    have hopen := h.ring.open_slot i (hfreed.trans hunused)
      (by omega) (fun hfull => absurd hfull.1 (Nat.not_lt.mpr hunused))
    rw [Nat.mod_eq_of_lt hi, Nat.sub_self, Nat.zero_mod] at hopen
    exact hopen

/-- A queue whose slots all read zero and whose threads are out of it is new. -/
theorem Inv.fresh {mem : Memory α} {producers : P → Producer α} (hcap : ValidCapacity capacity)
    (henqueue : mem.enqueue = 0) (hdequeue : mem.dequeue = 0) (hdropped : mem.dropped = 0)
    (hslots : ∀ i, i < capacity → (mem.slots i).sequence = 0)
    (hidle : ∀ p, producers p = .idle) :
    Inv capacity ({ mem := mem, producers := producers } : System P α) := by
  have hnone : ∀ p, (producers p).claim = none := by
    intro p
    rw [hidle p]
    rfl
  have hpublished : ∀ k,
      ¬ (System.view { mem := mem, producers := producers } : View P α).Published k := by
    intro k hk
    have hlt : k < mem.enqueue := hk.1
    omega
  have hpos := hcap.1
  refine
    { ring :=
        { freed_le := by simp [System.view, System.freed, henqueue, hdequeue]
          enqueue_le := by simp [System.view, System.freed, henqueue]
          enqueue_le_max := by simp [System.view, henqueue]
          length_reserved := henqueue.symm
          claim_freed := fun p c hc => by simp [System.view, hnone] at hc
          claim_payload := fun p c hc => by simp [System.view, hnone] at hc
          claim_inj := fun p q c d hc => by simp [System.view, hnone] at hc
          claim_written := fun p c hc => by simp [System.view, hnone] at hc
          open_slot := ?_
          full_slot := fun k _ hk => absurd hk (hpublished k)
          mem_returned := fun k => iff_of_false List.not_mem_nil (hpublished k)
          nodup_returned := List.nodup_nil }
      producer := ?_
      consumer := trivial
      popped := by simp
      touched := ?_
      dropped := ?_ }
  · intro k hk hk' _
    have hlt : k < capacity := by
      simp only [System.view, System.freed, hdequeue] at hk'
      omega
    rw [Nat.mod_eq_of_lt hlt, Nat.sub_self]
    exact hslots k hlt
  · intro p
    change (producers p).Ok _ _ _
    rw [hidle p]
    trivial
  · intro k hk
    change k < mem.enqueue at hk
    omega
  · change mem.dropped = min 0 maxU64
    rw [hdropped, Nat.zero_min]

/-! ## Every interleaving -/

variable [DecidableEq P]

theorem Inv.step {s s' : System P α} (hcap : ValidCapacity capacity) (h : Inv capacity s)
    (hstep : QueueStep capacity s s') : Inv capacity s' := by
  cases hstep with
  | call p payload hp =>
      have hmove : Moves capacity s p s.mem (.start payload) :=
        .unclaimed rfl rfl rfl rfl (by rw [hp]; rfl) rfl trivial
      exact h.move hmove h.dropped
  | producer p spurious => exact h.runProducer hcap p spurious
  | pop hc => exact h.consume rfl (by simp [hc]) (by simp) trivial
  | consumer spurious => exact h.runConsumer hcap spurious
  | takeDropped =>
      exact
        { ring := h.ring
          producer := h.producer
          consumer := h.consumer
          popped := h.popped
          touched := h.touched
          dropped := (Nat.zero_min _).symm }
  | reset hquiet =>
      have hc := hquiet.2
      have hslots : ∀ i, i < capacity → (s.mem.resetQuiescent.slots i).sequence = 0 :=
        fun i hi => h.resetQuiescent_sequence hquiet hi
      have hnew := Inv.fresh hcap rfl rfl rfl hslots hquiet.1
      rw [hc]
      exact hnew

theorem Reachable.inv {s : System P α} (hcap : ValidCapacity capacity)
    (h : Reachable capacity s) : Inv capacity s := by
  induction h with
  | init => exact Inv.fresh hcap rfl rfl rfl (fun _ _ => rfl) (fun _ => rfl)
  | step _ hstep ih => exact ih.step hcap hstep

end Noleax.Queue
