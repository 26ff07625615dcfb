import Noleax.Queue.Consume

/-!
# The queue is linearizable

A call that succeeds takes effect at the compare-exchange of `enqueue_`; the
consumer sees the calls in that order. A call that fails has seen a full ring, an
exhausted position space, or a slot that ran 2^63 positions ahead of a position
the producer had loaded long ago.
-/

namespace Noleax.Queue

open Trace

variable {P α : Type} {capacity : ℕ}

/-- The call will return false. -/
def Producer.Failing : Producer α → Prop
  | .dropping => True
  | .pinning _ => True
  | .counting => True
  | .adding _ => True
  | _ => False

theorem not_failing_atWatermark (payload : α) (position watermark : ℕ) :
    ¬ (atWatermark payload position watermark).Failing := by
  unfold atWatermark
  split <;> exact id

variable [DecidableEq P]

theorem producers_runProducer (s : System P α) (p : P) (spurious : Bool) :
    (s.runProducer capacity p spurious).producers p =
      (producerStep capacity s.mem spurious (s.producers p)).2.1 := by
  rcases hrun : producerStep capacity s.mem spurious (s.producers p) with ⟨mem, state, mark⟩
  rw [runProducer_eq hrun]
  rcases mark with _ | mark
  · exact Function.update_self ..
  · cases mark <;> exact Function.update_self ..

/-- What a step adds to the count of failed calls. -/
def Mark.failures : Option (Mark α) → ℕ
  | some .returnedFalse => 1
  | _ => 0

theorem drops_runProducer (s : System P α) (p : P) (spurious : Bool) :
    (s.runProducer capacity p spurious).drops =
      s.drops + Mark.failures (producerStep capacity s.mem spurious (s.producers p)).2.2 := by
  rcases hrun : producerStep capacity s.mem spurious (s.producers p) with ⟨mem, state, mark⟩
  rw [runProducer_eq hrun]
  rcases mark with _ | mark
  · rfl
  · cases mark <;> rfl

/-- The two observations that make a call fail. -/
theorem Inv.failing {s : System P α} (hcap : ValidCapacity capacity) (h : Inv capacity s) {p : P}
    {spurious : Bool} (hnot : ¬ (s.producers p).Failing)
    (hfail : ((s.runProducer capacity p spurious).producers p).Failing) :
    s.mem.enqueue = maxU64 ∨ s.mem.enqueue = s.freed + capacity ∨
      ∃ payload position, s.producers p = .reading payload position ∧
        position + 2 ^ 63 ≤ s.freed + capacity := by
  have hloop : ∀ payload : α, (atLoop payload s.mem.enqueue).Failing → s.mem.enqueue = maxU64 := by
    intro payload hf
    unfold atLoop at hf
    split at hf
    · assumption
    · exact hf.elim
  have hok := h.producer p
  rw [producers_runProducer] at hfail
  cases hp : s.producers p with
  | idle => rw [hp] at hfail; exact hfail.elim
  | start payload => rw [hp] at hfail; exact .inl (hloop payload hfail)
  | reading payload position =>
      rw [hp] at hfail hok
      simp only [producerStep] at hfail
      split at hfail
      · exact hfail.elim
      · split at hfail
        · rename_i hdist
          rw [slotIndex_eq_mod hcap] at hdist
          rcases h.ring.full_of_distance hcap hok.2 hok.1 hdist with hfull | hstale
          · exact .inr (.inl hfull)
          · exact .inr (.inr ⟨payload, position, rfl, hstale⟩)
        · exact hfail.elim
  | claiming payload position =>
      rw [hp] at hfail
      simp only [producerStep] at hfail
      split at hfail
      · simp only at hfail
        split at hfail <;> exact hfail.elim
      · exact .inl (hloop payload hfail)
  | touching payload position =>
      rw [hp] at hfail
      exact absurd hfail (not_failing_atWatermark payload position _)
  | raising payload position watermark =>
      rw [hp] at hfail
      simp only [producerStep] at hfail
      split at hfail
      · exact hfail.elim
      · exact absurd hfail (not_failing_atWatermark payload position _)
  | filling | storing | publishing => rw [hp] at hfail; exact hfail.elim
  | dropping | pinning | counting | adding => rw [hp] at hnot; exact absurd trivial hnot

/-- A call that fails is counted once, when it returns. -/
theorem drops_step (s : System P α) (p : P) (spurious : Bool) :
    (s.runProducer capacity p spurious).drops = s.drops ∨
      ((s.producers p).Failing ∧ (s.runProducer capacity p spurious).producers p = .idle ∧
        (s.runProducer capacity p spurious).drops = s.drops + 1) := by
  have hdropped : ∀ current : ℕ, Mark.failures (atDropped (α := α) current).2 = 0 ∨
      ((atDropped (α := α) current).1 = .idle ∧
        Mark.failures (atDropped (α := α) current).2 = 1) := by
    intro current
    unfold atDropped
    split
    · exact .inr ⟨rfl, rfl⟩
    · exact .inl rfl
  rw [drops_runProducer, producers_runProducer, Nat.add_eq_left, Nat.add_left_cancel_iff]
  cases s.producers p with
  | counting => exact (hdropped _).imp id (fun h => ⟨trivial, h⟩)
  | adding current =>
      simp only [producerStep]
      split
      · exact .inr ⟨trivial, rfl, rfl⟩
      · exact (hdropped _).imp id (fun h => ⟨trivial, h⟩)
  | reading payload position =>
      left
      simp only [producerStep]
      split
      · rfl
      · split <;> rfl
  | claiming | raising | pinning =>
      left
      simp only [producerStep]
      split <;> rfl
  | idle | start | touching | filling | storing | publishing | dropping => exact .inl rfl

omit [DecidableEq P] in
/-- `try_pop` finds nothing only when every position below the newest is popped
or still held by a producer. -/
theorem Inv.empty {s : System P α} (h : Inv capacity s) {spurious : Bool}
    (hcap : ValidCapacity capacity) (hin : s.consumer ≠ .idle)
    (hout : (s.runConsumer capacity spurious).consumer = .idle)
    (hnone : (s.runConsumer capacity spurious).popped = s.popped)
    (hidle : ∀ p, s.producers p = .idle) : s.mem.dequeue = s.mem.enqueue := by
  have hle := h.dequeue_le_enqueue
  have hmax := h.ring.enqueue_le_max
  change s.mem.enqueue ≤ maxU64 at hmax
  have hok := h.consumer
  cases hc : s.consumer with
  | idle => exact absurd hc hin
  | start =>
      simp only [System.runConsumer, hc, consumerStep] at hout
      split at hout
      · omega
      · cases hout
  | looking position =>
      rw [hc] at hok
      simp only [System.runConsumer, hc, consumerStep] at hout
      split at hout
      · rename_i hseq
        by_contra hne
        have hfull : s.view.Published position := by
          refine ⟨?_, ?_⟩
          · change position < s.mem.enqueue
            have := hok.1
            omega
          · rintro ⟨p, c, hclaim, -⟩
            change (s.producers p).claim = some c at hclaim
            rw [hidle p] at hclaim
            cases hclaim
        have hfreed : s.view.freed = position := by
          rw [hok.1]
          exact freed_eq_dequeue (by simp [hc])
        rw [slotIndex_eq_mod hcap] at hseq
        exact hseq (h.ring.full_slot position hfreed.le hfull).1
      · cases hout
  | sampling | copying | freeing =>
      simp only [System.runConsumer, hc, consumerStep] at hout
      cases hout
  | comparing =>
      simp only [System.runConsumer, hc, consumerStep, atOccupancy] at hout
      split at hout <;> cases hout
  | raising =>
      simp only [System.runConsumer, hc, consumerStep, atOccupancy] at hout
      repeat' split at hout
      all_goals cases hout
  | finishing =>
      simp only [System.runConsumer, hc, consumerStep, Option.toList_some] at hnone
      exact absurd hnone (by simp)

/-- In every state of every interleaving: the popped events are the numbered
beginning of the reservation order, of calls that returned true, and all of them
once the producers are out and `try_pop` finds nothing; a call turns to failing
only at an exhausted position space, a full ring or a position 2^63 behind its
slot; the drop counter holds the failed calls; a reset leaves every slot free at
lap 0. -/
theorem queue_linearizable (hcap : ValidCapacity capacity) {s : System P α}
    (h : Reachable capacity s) :
    (s.popped = ((s.reserved.take s.popped.length).zipIdx 1).map some ∧
      (∀ k, k < s.popped.length → k ∈ s.returned) ∧
      s.returned.Nodup ∧ (∀ k ∈ s.returned, k < s.reserved.length) ∧
      ∀ spurious, (∀ p, s.producers p = .idle) → s.consumer ≠ .idle →
        (s.runConsumer capacity spurious).consumer = .idle →
        (s.runConsumer capacity spurious).popped = s.popped →
        s.popped = (s.reserved.zipIdx 1).map some ∧
          ∀ k, k ∈ s.returned ↔ k < s.reserved.length) ∧
    (∀ p spurious, ¬ (s.producers p).Failing →
      ((s.runProducer capacity p spurious).producers p).Failing →
      s.mem.enqueue = maxU64 ∨ s.mem.enqueue = s.freed + capacity ∨
        ∃ payload position, s.producers p = .reading payload position ∧
          position + 2 ^ 63 ≤ s.freed + capacity) ∧
    (s.mem.dropped = min s.drops maxU64 ∧
      ∀ p spurious, (s.runProducer capacity p spurious).drops = s.drops ∨
        ((s.producers p).Failing ∧ (s.runProducer capacity p spurious).producers p = .idle ∧
          (s.runProducer capacity p spurious).drops = s.drops + 1)) ∧
    (s.Quiescent → (∀ i, i < capacity → (s.mem.resetQuiescent.slots i).sequence = 0) ∧
      s.mem.resetQuiescent =
        { ({} : Memory α) with slots := s.mem.resetQuiescent.slots }) := by
  have hinv := h.inv hcap
  have hlen : s.reserved.length = s.mem.enqueue := hinv.ring.length_reserved
  have hle := hinv.dequeue_le_enqueue
  have hcount : s.popped.length = s.mem.dequeue := by
    rw [hinv.popped, List.length_map, List.length_zipIdx, List.length_take]
    omega
  have hunclaimed : ∀ k, k < s.mem.dequeue → ¬ s.view.Claimed k := by
    rintro k hk ⟨p, c, hc, rfl⟩
    have hfreed : s.freed ≤ c.position := hinv.ring.claim_freed p c hc
    have := hinv.dequeue_le
    omega
  refine ⟨⟨?_, ?_, hinv.ring.nodup_returned, ?_, ?_⟩, ?_, ⟨hinv.dropped, drops_step s⟩, ?_⟩
  · rw [hcount]
    exact hinv.popped
  · intro k hk
    refine (hinv.ring.mem_returned k).mpr ⟨?_, hunclaimed k (by omega)⟩
    change k < s.mem.enqueue
    omega
  · intro k hk
    rw [hlen]
    exact ((hinv.ring.mem_returned k).mp hk).1
  · intro spurious hidle hin hout hnone
    have hall := hinv.empty hcap hin hout hnone hidle
    refine ⟨?_, fun k => ?_⟩
    · have hpopped := hinv.popped
      rwa [hall, ← hlen, List.take_length] at hpopped
    · rw [hlen, ← hall]
      constructor
      · intro hk
        rw [hall]
        exact ((hinv.ring.mem_returned k).mp hk).1
      · intro hk
        refine (hinv.ring.mem_returned k).mpr ⟨?_, hunclaimed k hk⟩
        change k < s.mem.enqueue
        omega
  · intro p spurious hnot hfail
    exact hinv.failing hcap hnot hfail
  · intro hquiet
    exact ⟨fun i hi => hinv.resetQuiescent_sequence hquiet hi, rfl⟩

/-! ## A stalled producer

One producer has loaded position 0 and stops; another producer and the consumer
keep the queue going. -/

/-- The other producer, the consumer and the two counters of a run with a stalled
producer. -/
structure Stalled (state : Producer ℕ) (consumer : Consumer ℕ) (enqueue dequeue : ℕ)
    (s : System Bool ℕ) : Prop where
  reachable : Reachable 2 s
  stalled : s.producers false = .reading 0 0
  other : s.producers true = state
  consumer : s.consumer = consumer
  enqueue : s.mem.enqueue = enqueue
  dequeue : s.mem.dequeue = dequeue

section Stalled

variable {state state' : Producer ℕ} {consumer consumer' : Consumer ℕ} {e d : ℕ}
  {s : System Bool ℕ}

theorem Stalled.inv (h : Stalled state consumer e d s) : Inv 2 s :=
  h.reachable.inv (by decide)

theorem Stalled.producerStep (h : Stalled state consumer e d s) {mem : Memory ℕ}
    {mark : Option (Mark ℕ)}
    (hrun : Queue.producerStep 2 s.mem false state = (mem, state', mark)) :
    Stalled state' consumer mem.enqueue mem.dequeue (s.runProducer 2 true false) := by
  have hreach : Reachable 2 (s.runProducer 2 true false) := h.reachable.step (.producer true false)
  rw [← h.other] at hrun
  have heq := runProducer_eq hrun
  have hfields : (s.runProducer 2 true false).producers = Function.update s.producers true state' ∧
      (s.runProducer 2 true false).consumer = s.consumer ∧
      (s.runProducer 2 true false).mem = mem := by
    rw [heq]
    rcases mark with _ | mark
    · exact ⟨rfl, rfl, rfl⟩
    · cases mark <;> exact ⟨rfl, rfl, rfl⟩
  exact
    { reachable := hreach
      stalled := by
        rw [hfields.1, Function.update_of_ne (by decide)]
        exact h.stalled
      other := by rw [hfields.1, Function.update_self]
      consumer := hfields.2.1.trans h.consumer
      enqueue := by rw [hfields.2.2]
      dequeue := by rw [hfields.2.2] }

theorem Stalled.consumerStep (h : Stalled state consumer e d s) {mem : Memory ℕ}
    {value : Option (Option (ℕ × ℕ))}
    (hrun : Queue.consumerStep 2 s.mem false consumer = (mem, consumer', value)) :
    Stalled state consumer' mem.enqueue mem.dequeue (s.runConsumer 2 false) := by
  have hreach : Reachable 2 (s.runConsumer 2 false) := h.reachable.step (.consumer false)
  rw [← h.consumer] at hrun
  have heq : s.runConsumer 2 false =
      { s with mem := mem, consumer := consumer', popped := s.popped ++ value.toList } := by
    simp only [System.runConsumer, hrun]
  rw [heq] at hreach ⊢
  exact ⟨hreach, h.stalled, h.other, rfl, rfl, rfl⟩

/-- With the consumer out and no position held, the slot of the newest position
is free or belongs to the position one lap behind. -/
theorem Stalled.not_published (h : Stalled state consumer e d s) : ¬ s.view.Published e := by
  intro hfull
  have hlt : e < s.mem.enqueue := hfull.1
  have := h.enqueue
  omega

theorem Stalled.freed_eq (h : Stalled state .idle e d s) : s.freed = d := by
  rw [freed_eq_dequeue (by simp [h.consumer])]
  exact h.dequeue

/-- From the reservation on the other producer reaches the event. -/
theorem Stalled.fills (h : Stalled (.touching 0 e) consumer (e + 1) d s) :
    ∃ s', Stalled (.filling 0 e) consumer (e + 1) d s' := by
  have hload : Queue.producerStep 2 s.mem false (.touching 0 e) =
      (s.mem, atWatermark 0 e s.mem.touchedWatermark, none) := rfl
  have h1 := h.producerStep hload
  rw [h.enqueue, h.dequeue] at h1
  unfold atWatermark at h1
  split at h1
  · have hcas : Queue.producerStep 2 (s.runProducer 2 true false).mem false
        (.raising 0 e s.mem.touchedWatermark) =
        ({ (s.runProducer 2 true false).mem with touchedWatermark := e + 1 },
          .filling 0 e, none) := by
      have hsame : (s.runProducer 2 true false).mem = s.mem := by
        rw [← h.other] at hload
        rw [runProducer_eq hload]
        rfl
      simp only [Queue.producerStep, hsame, and_self, if_true]
    have h2 := h1.producerStep hcas
    simp only [h1.enqueue, h1.dequeue] at h2
    exact ⟨_, h2⟩
  · exact ⟨_, h1⟩

/-- The other producer runs through `try_emplace`. -/
theorem Stalled.push (h : Stalled .idle .idle d d s) (hmax : d < maxU64) :
    ∃ s', Stalled .idle .idle (d + 1) d s' := by
  have hcall : ∃ s0, Stalled (.start 0) .idle d d s0 :=
    ⟨s.setProducer true (.start 0),
      { reachable := h.reachable.step (.call true 0 h.other)
        stalled := by
          simp only [System.setProducer, Function.update_of_ne (by decide : false ≠ true)]
          exact h.stalled
        other := by simp only [System.setProducer, Function.update_self]
        consumer := h.consumer
        enqueue := h.enqueue
        dequeue := h.dequeue }⟩
  have hload : ∃ s1, Stalled (.reading 0 d) .idle d d s1 := by
    obtain ⟨s0, h0⟩ := hcall
    have hrun : Queue.producerStep 2 s0.mem false (.start 0) = (s0.mem, .reading 0 d, none) := by
      simp only [Queue.producerStep, atLoop, h0.enqueue, if_neg (Nat.ne_of_lt hmax)]
    have h1 := h0.producerStep hrun
    rw [h0.enqueue, h0.dequeue] at h1
    exact ⟨_, h1⟩
  have hread : ∃ s2, Stalled (.claiming 0 d) .idle d d s2 := by
    obtain ⟨s1, h1⟩ := hload
    have hdist : subU64 (s1.mem.slots (slotIndex 2 d)).sequence (d - slotIndex 2 d) = 0 := by
      have hfreed : s1.view.freed = d := h1.freed_eq
      rw [slotIndex_eq_mod (by decide)]
      rcases h1.inv.ring.distance hfreed.le (by omega) (Nat.le_refl d) hmax rfl
        with hzero | ⟨hfull, -⟩
      · rw [Nat.sub_self] at hzero
        exact hzero
      · exact absurd hfull h1.not_published
    have hrun : Queue.producerStep 2 s1.mem false (.reading 0 d) =
        (s1.mem, .claiming 0 d, none) := by
      simp only [Queue.producerStep, if_pos hdist]
    have h2 := h1.producerStep hrun
    rw [h1.enqueue, h1.dequeue] at h2
    exact ⟨_, h2⟩
  have hclaim : ∃ s3, Stalled (.filling 0 d) .idle (d + 1) d s3 := by
    obtain ⟨s2, h2⟩ := hread
    have hrun : Queue.producerStep 2 s2.mem false (.claiming 0 d) =
        ({ s2.mem with enqueue := d + 1 },
          if d < 2 then .touching 0 d else .filling 0 d, some (.reserved 0)) := by
      simp only [Queue.producerStep, h2.enqueue, and_self, if_true]
    have h3 := h2.producerStep hrun
    simp only [h2.dequeue] at h3
    split at h3
    · exact h3.fills
    · exact ⟨_, h3⟩
  have hwrite : ∃ s5, Stalled (.publishing 0 d) .idle (d + 1) d s5 := by
    obtain ⟨s3, h3⟩ := hclaim
    have h4 : Stalled (.storing 0 d) .idle _ _ _ := h3.producerStep rfl
    have h5 : Stalled (.publishing 0 d) .idle _ _ _ := h4.producerStep rfl
    have he : (s3.runProducer 2 true false).mem.enqueue = d + 1 := h4.enqueue.trans h3.enqueue
    have hd : (s3.runProducer 2 true false).mem.dequeue = d := h4.dequeue.trans h3.dequeue
    simp only [Memory.setValue, he, hd] at h5
    exact ⟨_, h5⟩
  obtain ⟨s5, h5⟩ := hwrite
  have h6 : Stalled .idle .idle _ _ _ := h5.producerStep rfl
  simp only [Memory.setSequence, h5.enqueue, h5.dequeue] at h6
  exact ⟨_, h6⟩

/-- The consumer reaches the event from its occupancy sample. -/
theorem Stalled.samples {depth : ℕ} (h : Stalled state (.comparing d depth) e d s) :
    ∃ s', Stalled state (.copying d) e d s' := by
  have hload : Queue.consumerStep 2 s.mem false (.comparing d depth) =
      (s.mem, atOccupancy d depth s.mem.highWater, none) := rfl
  have h1 := h.consumerStep hload
  rw [h.enqueue, h.dequeue] at h1
  unfold atOccupancy at h1
  split at h1
  · have hcas : Queue.consumerStep 2 (s.runConsumer 2 false).mem false
        (.raising d depth s.mem.highWater) =
        ({ (s.runConsumer 2 false).mem with highWater := depth }, .copying d, none) := by
      have hsame : (s.runConsumer 2 false).mem = s.mem := by
        rw [← h.consumer] at hload
        rw [runConsumer_eq hload]
      simp only [Queue.consumerStep, hsame, and_self, if_true]
    have h2 := h1.consumerStep hcas
    simp only [h1.enqueue, h1.dequeue] at h2
    exact ⟨_, h2⟩
  · exact ⟨_, h1⟩

/-- The consumer runs through `try_pop`. -/
theorem Stalled.pop (h : Stalled .idle .idle (d + 1) d s) (hmax : d < maxU64) :
    ∃ s', Stalled .idle .idle (d + 1) (d + 1) s' := by
  have hlook : ∃ s1, Stalled .idle (.looking d) (d + 1) d s1 := by
    have h0 : Stalled .idle .start (d + 1) d { s with consumer := .start } :=
      ⟨h.reachable.step (.pop h.consumer), h.stalled, h.other, rfl, h.enqueue, h.dequeue⟩
    have hrun : Queue.consumerStep 2 s.mem false .start = (s.mem, .looking d, none) := by
      simp only [Queue.consumerStep, h.dequeue, if_neg (Nat.ne_of_lt hmax)]
    have h1 := h0.consumerStep hrun
    rw [h.enqueue, h.dequeue] at h1
    exact ⟨_, h1⟩
  have hsee : ∃ s2, Stalled .idle (.comparing d (subU64 (d + 1) d)) (d + 1) d s2 := by
    obtain ⟨s1, h1⟩ := hlook
    have hfull : s1.view.Published d := by
      refine ⟨?_, ?_⟩
      · change d < s1.mem.enqueue
        rw [h1.enqueue]
        exact Nat.lt_succ_self d
      · rintro ⟨p, c, hc, -⟩
        change (s1.producers p).claim = some c at hc
        cases p with
        | false => rw [h1.stalled] at hc; cases hc
        | true => rw [h1.other] at hc; cases hc
    have hfreed : s1.view.freed = d := by
      change s1.freed = d
      rw [freed_eq_dequeue (by simp [h1.consumer])]
      exact h1.dequeue
    have hseq : (s1.mem.slots (slotIndex 2 d)).sequence = d + 1 - slotIndex 2 d := by
      rw [slotIndex_eq_mod (by decide)]
      exact (h1.inv.ring.full_slot d hfreed.le hfull).1
    have hrun : Queue.consumerStep 2 s1.mem false (.looking d) =
        (s1.mem, .sampling d, none) := by
      simp only [Queue.consumerStep, hseq, ne_eq, not_true_eq_false, if_false]
    have h2 := h1.consumerStep hrun
    rw [h1.enqueue, h1.dequeue] at h2
    have h3 : Stalled .idle (.comparing d (subU64 _ d)) _ _ _ := h2.consumerStep rfl
    rw [h2.enqueue, h2.dequeue] at h3
    exact ⟨_, h3⟩
  obtain ⟨s2, h2⟩ := hsee
  obtain ⟨s3, h3⟩ := h2.samples
  have h4 : Stalled .idle (.freeing d _) _ _ _ := h3.consumerStep rfl
  have h5 : Stalled .idle (.finishing d _) _ _ _ := h4.consumerStep rfl
  have h6 : Stalled .idle .idle _ _ _ := h5.consumerStep rfl
  have he : ((s3.runConsumer 2 false).runConsumer 2 false).mem.enqueue = d + 1 :=
    h5.enqueue.trans (h4.enqueue.trans h3.enqueue)
  simp only [he] at h6
  exact ⟨_, h6⟩

theorem stalled_start : ∃ s, Stalled .idle .idle 0 0 s := by
  let s1 : System Bool ℕ := ({} : System Bool ℕ).setProducer false (.start 0)
  have h1 : Reachable 2 s1 := Reachable.init.step (.call false 0 rfl)
  have h2 : Reachable 2 (s1.runProducer 2 false false) := h1.step (.producer false false)
  exact ⟨_, h2, rfl, rfl, rfl, rfl, rfl⟩

theorem stalled_forever (n : ℕ) (hn : n ≤ maxU64) : ∃ s, Stalled .idle .idle n n s := by
  induction n with
  | zero => exact stalled_start
  | succ n ih =>
      obtain ⟨s, hs⟩ := ih (by omega)
      obtain ⟨s', hs'⟩ := hs.push (by omega)
      exact hs'.pop (by omega)

end Stalled

/-- After one call of each the popped event is the first one reserved. -/
theorem queue_linearizable_onePop :
    ∃ s : System Bool ℕ, (Reachable 2 s ∧ s.mem.dequeue = 1) ∧
      s.popped = ((s.reserved.take s.popped.length).zipIdx 1).map some ∧ s.returned.Nodup := by
  obtain ⟨s, hs⟩ := stalled_forever 1 (by decide)
  have hlin := queue_linearizable (by decide) hs.reachable
  exact ⟨s, ⟨hs.reachable, hs.dequeue⟩, hlin.1.1, hlin.1.2.2.1⟩

/-- 2^63 calls later the ring is empty and has positions left, and the stalled
producer fails. -/
theorem stalled_producer_fails :
    ∃ s : System Bool ℕ, Reachable 2 s ∧ ¬ (s.producers false).Failing ∧
      ((s.runProducer 2 false false).producers false).Failing ∧
      s.mem.enqueue = 2 ^ 63 ∧ s.freed = 2 ^ 63 ∧ s.mem.enqueue ≠ maxU64 := by
  obtain ⟨s, hs⟩ := stalled_forever (2 ^ 63) (by decide)
  have hfreed : s.view.freed = 2 ^ 63 := hs.freed_eq
  refine ⟨s, hs.reachable, ?_, ?_, hs.enqueue, hs.freed_eq, ?_⟩
  · rw [hs.stalled]
    exact id
  · have hdist : subU64 (s.mem.slots 0).sequence 0 = 2 ^ 63 := by
      rcases hs.inv.ring.distance hfreed.le (by omega) (Nat.zero_le _) (by decide) (by decide)
        with heq | ⟨hfull, -⟩
      · exact heq
      · exact absurd hfull hs.not_published
    rw [producers_runProducer, hs.stalled]
    have hslot : slotIndex 2 0 = 0 := by decide
    simp only [producerStep, hslot, Nat.sub_zero, hdist]
    trivial
  · rw [hs.enqueue]
    decide

end Noleax.Queue
