import Noleax.Queue.Invariant

/-!
# Steps of a producer

The atomic accesses of `try_emplace`, one lemma per place where a producer can
stand; `Inv.runProducer` puts them together.
-/

namespace Noleax.Queue

open Trace

variable {P α : Type} {capacity : ℕ}

variable [DecidableEq P]

theorem runProducer_eq {s : System P α} {p : P} {spurious : Bool} {mem : Memory α}
    {state : Producer α} {mark : Option (Mark α)}
    (h : producerStep capacity s.mem spurious (s.producers p) = (mem, state, mark)) :
    s.runProducer capacity p spurious = ({ s with mem := mem }.setProducer p state).mark mark := by
  simp only [System.runProducer, h]

theorem claims_update (producers : P → Producer α) (p : P) (state : Producer α) :
    (fun q => (Function.update producers p state q).claim) =
      Function.update (fun q => (producers q).claim) p state.claim := by
  funext q
  by_cases hq : q = p
  · rw [hq, Function.update_self, Function.update_self]
  · rw [Function.update_of_ne hq, Function.update_of_ne hq]

/-- The view after a producer has changed its slot and its claim. -/
theorem view_setProducer (s : System P α) (p : P) (mem : Memory α) (state : Producer α)
    (henqueue : mem.enqueue = s.mem.enqueue) (hdequeue : mem.dequeue = s.mem.dequeue) :
    ({ s with mem := mem }.setProducer p state).view =
      { s.view with
        slots := mem.slots
        claims := Function.update s.view.claims p state.claim } := by
  unfold System.view
  simp only [System.setProducer, System.freed, claims_update, henqueue, hdequeue]

/-- A step of one producer, as the invariant sees it. -/
structure Produces (capacity : ℕ) (s s' : System P α) (p : P) : Prop where
  ring : Ring capacity s'.view
  grows : s.view.Extends s'.view
  others : ∀ q, q ≠ p → s'.producers q = s.producers q
  own : (s'.producers p).Ok capacity s'.mem.enqueue s'.freed
  consumer : s'.consumer = s.consumer
  dequeue : s'.mem.dequeue = s.mem.dequeue
  popped : s'.popped = s.popped
  reserved : s.reserved <+: s'.reserved
  watermark : s.mem.touchedWatermark ≤ s'.mem.touchedWatermark
  touches : ∀ k, (s.producers p).Touches k →
    (s'.producers p).Touches k ∨ k < s'.mem.touchedWatermark
  fresh : ∀ k, s.mem.enqueue ≤ k → k < s'.mem.enqueue → k < capacity →
    (s'.producers p).Touches k
  dropped : s'.mem.dropped = min s'.drops maxU64

theorem Inv.produces {s s' : System P α} {p : P} (h : Inv capacity s)
    (hstep : Produces capacity s s' p) : Inv capacity s' where
  ring := hstep.ring
  producer := by
    intro q
    by_cases hq : q = p
    · rw [hq]
      exact hstep.own
    · rw [hstep.others q hq]
      exact (h.producer q).mono hstep.grows.enqueue hstep.grows.freed
  consumer := by
    rw [hstep.consumer, hstep.dequeue]
    exact h.consumer.mono hstep.grows
  popped := by
    obtain ⟨rest, hrest⟩ := hstep.reserved
    have hlen := h.ring.length_reserved
    have hle := h.dequeue_le_enqueue
    change s.reserved.length = s.mem.enqueue at hlen
    rw [hstep.popped, h.popped, hstep.dequeue, ← hrest, List.take_append_of_le_length (by omega)]
  touched := by
    intro k hk hcap
    by_cases hnew : s.mem.enqueue ≤ k
    · exact .inr ⟨p, hstep.fresh k hnew hk hcap⟩
    · rcases h.touched k (by omega) hcap with hlt | ⟨q, hq⟩
      · exact .inl (hlt.trans_le hstep.watermark)
      · by_cases hqp : q = p
        · subst hqp
          rcases hstep.touches k hq with ht | hlt
          · exact .inr ⟨q, ht⟩
          · exact .inl hlt
        · exact .inr ⟨q, by rw [hstep.others q hqp]; exact hq⟩
  dropped := hstep.dropped

/-- A producer moves on without touching the ring. -/
structure Moves (capacity : ℕ) (s : System P α) (p : P) (mem : Memory α) (state : Producer α) :
    Prop where
  enqueue : mem.enqueue = s.mem.enqueue
  dequeue : mem.dequeue = s.mem.dequeue
  slots : mem.slots = s.mem.slots
  claim : state.claim = (s.producers p).claim
  own : state.Ok capacity s.mem.enqueue s.freed
  watermark : s.mem.touchedWatermark ≤ mem.touchedWatermark
  touches : ∀ k, (s.producers p).Touches k → state.Touches k ∨ k < mem.touchedWatermark

theorem view_move {s : System P α} {p : P} {mem : Memory α} {state : Producer α}
    (h : Moves capacity s p mem state) (drops : ℕ) :
    ({ s with mem := mem, drops := drops }.setProducer p state).view = s.view := by
  have hview := view_setProducer s p mem state h.enqueue h.dequeue
  rw [h.claim, h.slots] at hview
  change ({ s with mem := mem }.setProducer p state).view = s.view
  rw [hview]
  change { s.view with claims := Function.update s.view.claims p (s.view.claims p) } = s.view
  rw [Function.update_eq_self]

theorem Inv.move {s : System P α} {p : P} {mem : Memory α} {state : Producer α} {drops : ℕ}
    (h : Inv capacity s) (hmove : Moves capacity s p mem state)
    (hdrops : mem.dropped = min drops maxU64) :
    Inv capacity ({ s with mem := mem, drops := drops }.setProducer p state) := by
  have hview := view_move hmove drops
  have hfreed := congrArg View.freed hview
  change ({ s with mem := mem, drops := drops }.setProducer p state).freed = s.freed at hfreed
  refine h.produces (p := p)
    { ring := hview ▸ h.ring
      grows := hview ▸ View.Extends.refl _
      others := fun q hq => Function.update_of_ne hq _ _
      own := ?_
      consumer := rfl
      dequeue := hmove.dequeue
      popped := rfl
      reserved := List.prefix_rfl
      watermark := hmove.watermark
      touches := ?_
      fresh := ?_
      dropped := hdrops }
  · rw [hfreed]
    simp only [System.setProducer, Function.update_self, hmove.enqueue]
    exact hmove.own
  · simp only [System.setProducer, Function.update_self]
    exact hmove.touches
  · intro k hk hk'
    change k < mem.enqueue at hk'
    rw [hmove.enqueue] at hk'
    omega

omit [DecidableEq P] in
/-- A move with no claim, before the reservation or after a drop. -/
theorem Moves.unclaimed {s : System P α} {p : P} {mem : Memory α} {state : Producer α}
    (henqueue : mem.enqueue = s.mem.enqueue) (hdequeue : mem.dequeue = s.mem.dequeue)
    (hslots : mem.slots = s.mem.slots) (hwatermark : mem.touchedWatermark = s.mem.touchedWatermark)
    (hclaim : (s.producers p).claim = none) (hclaim' : state.claim = none)
    (hown : state.Ok capacity s.mem.enqueue s.freed) : Moves capacity s p mem state where
  enqueue := henqueue
  dequeue := hdequeue
  slots := hslots
  claim := hclaim'.trans hclaim.symm
  own := hown
  watermark := hwatermark.ge
  touches := by
    intro k hk
    exact absurd hclaim hk.claim_ne_none

theorem atLoop_claim (payload : α) (position : ℕ) : (atLoop payload position).claim = none := by
  unfold atLoop
  split <;> rfl

omit [DecidableEq P] in
theorem atLoop_ok {s : System P α} (h : Inv capacity s) (payload : α) :
    (atLoop payload s.mem.enqueue).Ok capacity s.mem.enqueue s.freed := by
  have hmax := h.ring.enqueue_le_max
  change s.mem.enqueue ≤ maxU64 at hmax
  unfold atLoop
  split
  · trivial
  · exact ⟨by omega, Nat.le_refl _⟩

theorem Inv.runProducer_unclaimed {s : System P α} {p : P} {spurious : Bool} {mem : Memory α}
    {state : Producer α} (h : Inv capacity s)
    (hrun : producerStep capacity s.mem spurious (s.producers p) = (mem, state, none))
    (henqueue : mem.enqueue = s.mem.enqueue) (hdequeue : mem.dequeue = s.mem.dequeue)
    (hslots : mem.slots = s.mem.slots) (hwatermark : mem.touchedWatermark = s.mem.touchedWatermark)
    (hdropped : mem.dropped = s.mem.dropped) (hclaim : (s.producers p).claim = none)
    (hclaim' : state.claim = none) (hown : state.Ok capacity s.mem.enqueue s.freed) :
    Inv capacity (s.runProducer capacity p spurious) := by
  rw [runProducer_eq hrun]
  exact h.move (.unclaimed henqueue hdequeue hslots hwatermark hclaim hclaim' hown)
    (hdropped.trans h.dropped)

theorem Inv.read {s : System P α} {p : P} {spurious : Bool} {payload : α} {position : ℕ}
    (hcap : ValidCapacity capacity) (h : Inv capacity s)
    (hp : s.producers p = .reading payload position) :
    Inv capacity (s.runProducer capacity p spurious) := by
  have hok := h.producer p
  have hclaim : (s.producers p).claim = none := by rw [hp]; rfl
  rw [hp] at hok
  obtain ⟨hmax, hle⟩ := hok
  by_cases hzero : subU64 (s.mem.slots (slotIndex capacity position)).sequence
      (position - slotIndex capacity position) = 0
  · have hrun : producerStep capacity s.mem spurious (s.producers p) =
        (s.mem, .claiming payload position, none) := by
      rw [hp]
      simp only [producerStep, if_pos hzero]
    refine h.runProducer_unclaimed hrun rfl rfl rfl rfl rfl hclaim rfl ⟨hmax, hle, ?_⟩
    rintro rfl
    rw [slotIndex_eq_mod hcap] at hzero
    exact Ring.room_of_distance hcap h.ring hmax hzero
  · by_cases hfull : maxU64 / 2 < subU64 (s.mem.slots (slotIndex capacity position)).sequence
        (position - slotIndex capacity position)
    · have hrun : producerStep capacity s.mem spurious (s.producers p) =
          (s.mem, .dropping, none) := by
        rw [hp]
        simp only [producerStep, if_neg hzero, if_pos hfull]
      exact h.runProducer_unclaimed hrun rfl rfl rfl rfl rfl hclaim rfl trivial
    · have hrun : producerStep capacity s.mem spurious (s.producers p) =
          (s.mem, .start payload, none) := by
        rw [hp]
        simp only [producerStep, if_neg hzero, if_neg hfull]
      exact h.runProducer_unclaimed hrun rfl rfl rfl rfl rfl hclaim rfl trivial

/-- A successful compare-exchange of `enqueue_` reserves the position. -/
theorem Inv.reserve {s : System P α} {p : P} {payload : α} (h : Inv capacity s)
    (hclaim : (s.producers p).claim = none) (hmax : s.mem.enqueue < maxU64)
    (hroom : s.mem.enqueue < s.freed + capacity) {state : Producer α}
    (hstate : state = if s.mem.enqueue < capacity then .touching payload s.mem.enqueue
      else .filling payload s.mem.enqueue) :
    Inv capacity (({ s with
      mem := { s.mem with enqueue := s.mem.enqueue + 1 } }.setProducer p state).mark
        (some (.reserved payload))) := by
  have hnew : state.claim =
      some { payload := payload, position := s.mem.enqueue, written := false } := by
    rw [hstate]
    split <;> rfl
  have hview : (({ s with
      mem := { s.mem with enqueue := s.mem.enqueue + 1 } }.setProducer p state).mark
        (some (.reserved payload))).view = s.view.reserve p payload := by
    unfold System.view View.reserve System.mark System.setProducer
    simp only [claims_update, hnew]
    rfl
  have hring : Ring capacity (s.view.reserve p payload) :=
    h.ring.reserve hclaim payload (Nat.ne_of_lt hmax) hroom
  refine h.produces (p := p)
    { ring := hview ▸ hring
      grows := ?_
      others := fun q hq => Function.update_of_ne hq _ _
      own := ?_
      consumer := rfl
      dequeue := rfl
      popped := rfl
      reserved := List.prefix_append _ _
      watermark := Nat.le_refl _
      touches := fun k hk => absurd hclaim hk.claim_ne_none
      fresh := ?_
      dropped := h.dropped }
  · rw [hview]
    refine ⟨Nat.le_succ _, Nat.le_refl _,
      fun k hk => (published_reserve hclaim payload k).mpr hk, ?_⟩
    intro k hk
    have hlen := h.ring.length_reserved
    simp only [View.event, View.reserve]
    rw [List.getElem?_append_left (by omega)]
  · simp only [System.mark, System.setProducer, Function.update_self, hstate]
    split <;> trivial
  · intro k hk hk' hcap
    have heq : k = s.mem.enqueue := by
      simp only [System.mark, System.setProducer] at hk'
      omega
    subst heq
    simp only [System.mark, System.setProducer, Function.update_self, hstate, if_pos hcap]
    rfl

theorem Inv.compareExchange {s : System P α} {p : P} {spurious : Bool} {payload : α}
    {position : ℕ} (h : Inv capacity s) (hp : s.producers p = .claiming payload position) :
    Inv capacity (s.runProducer capacity p spurious) := by
  have hok := h.producer p
  have hclaim : (s.producers p).claim = none := by rw [hp]; rfl
  rw [hp] at hok
  obtain ⟨hmax, hle, hroom⟩ := hok
  by_cases hwin : s.mem.enqueue = position ∧ spurious = false
  · obtain ⟨rfl, hspur⟩ := hwin
    have hrun : producerStep capacity s.mem spurious (s.producers p) =
        ({ s.mem with enqueue := s.mem.enqueue + 1 },
          if s.mem.enqueue < capacity then .touching payload s.mem.enqueue
            else .filling payload s.mem.enqueue,
          some (.reserved payload)) := by
      rw [hp]
      simp only [producerStep, hspur, and_self, if_true]
    rw [runProducer_eq hrun]
    exact h.reserve hclaim hmax (hroom rfl) rfl
  · have hrun : producerStep capacity s.mem spurious (s.producers p) =
        (s.mem, atLoop payload s.mem.enqueue, none) := by
      rw [hp]
      simp only [producerStep, if_neg hwin]
    exact h.runProducer_unclaimed hrun rfl rfl rfl rfl rfl hclaim (atLoop_claim _ _)
      (atLoop_ok h payload)

/-- `note_touched` moves between its load and its compare-exchange, and on to the
event. -/
theorem Inv.runProducer_watermark {s : System P α} {p : P} {spurious : Bool} {mem : Memory α}
    {payload : α} {position : ℕ} {state : Producer α} (h : Inv capacity s)
    (hrun : producerStep capacity s.mem spurious (s.producers p) = (mem, state, none))
    (hmem : mem = { s.mem with touchedWatermark := mem.touchedWatermark })
    (hwatermark : s.mem.touchedWatermark ≤ mem.touchedWatermark)
    (hclaim : (s.producers p).claim = some ⟨payload, position, false⟩)
    (htouch : ∀ k, (s.producers p).Touches k → k = position)
    (hstate : (∃ watermark, watermark < position + 1 ∧
        state = .raising payload position watermark) ∨
      (position < mem.touchedWatermark ∧ state = .filling payload position)) :
    Inv capacity (s.runProducer capacity p spurious) := by
  rw [runProducer_eq hrun]
  refine h.move
    { enqueue := by rw [hmem]
      dequeue := by rw [hmem]
      slots := by rw [hmem]
      claim := ?_
      own := ?_
      watermark := hwatermark
      touches := ?_ } (by rw [hmem]; exact h.dropped)
  · rw [hclaim]
    rcases hstate with ⟨w, -, rfl⟩ | ⟨-, rfl⟩ <;> rfl
  · rcases hstate with ⟨w, hw, rfl⟩ | ⟨-, rfl⟩
    · exact hw
    · trivial
  · intro k hk
    obtain rfl := htouch k hk
    rcases hstate with ⟨w, -, rfl⟩ | ⟨hlt, rfl⟩
    · exact .inl rfl
    · exact .inr hlt

theorem atWatermark_cases (payload : α) (position watermark : ℕ) :
    (∃ w, w < position + 1 ∧
        atWatermark payload position watermark = .raising payload position w) ∨
      (position < watermark ∧
        atWatermark payload position watermark = .filling payload position) := by
  unfold atWatermark
  split
  · exact .inl ⟨watermark, ‹_›, rfl⟩
  · exact .inr ⟨by omega, rfl⟩

theorem Inv.touch {s : System P α} {p : P} {spurious : Bool} {payload : α} {position : ℕ}
    (h : Inv capacity s) (hp : s.producers p = .touching payload position) :
    Inv capacity (s.runProducer capacity p spurious) := by
  have hrun : producerStep capacity s.mem spurious (s.producers p) =
      (s.mem, atWatermark payload position s.mem.touchedWatermark, none) := by
    rw [hp]
    rfl
  refine h.runProducer_watermark hrun rfl (Nat.le_refl _) (by rw [hp]; rfl) ?_
    (atWatermark_cases ..)
  intro k hk
  rw [hp] at hk
  exact hk.symm

theorem Inv.raise {s : System P α} {p : P} {spurious : Bool} {payload : α}
    {position watermark : ℕ} (h : Inv capacity s)
    (hp : s.producers p = .raising payload position watermark) :
    Inv capacity (s.runProducer capacity p spurious) := by
  have hok := h.producer p
  rw [hp] at hok
  have hclaim : (s.producers p).claim = some ⟨payload, position, false⟩ := by rw [hp]; rfl
  have htouch : ∀ k, (s.producers p).Touches k → k = position := by
    intro k hk
    rw [hp] at hk
    exact hk.symm
  by_cases hwin : s.mem.touchedWatermark = watermark ∧ spurious = false
  · have hrun : producerStep capacity s.mem spurious (s.producers p) =
        ({ s.mem with touchedWatermark := position + 1 }, .filling payload position, none) := by
      rw [hp]
      simp only [producerStep, if_pos hwin]
    refine h.runProducer_watermark hrun rfl ?_ hclaim htouch (.inr ⟨Nat.lt_succ_self _, rfl⟩)
    have hlt : watermark < position + 1 := hok
    change s.mem.touchedWatermark ≤ position + 1
    omega
  · have hrun : producerStep capacity s.mem spurious (s.producers p) =
        (s.mem, atWatermark payload position s.mem.touchedWatermark, none) := by
      rw [hp]
      simp only [producerStep, if_neg hwin]
    exact h.runProducer_watermark hrun rfl (Nat.le_refl _) hclaim htouch (atWatermark_cases ..)

/-- A producer writes its event, or a part of it. -/
theorem Inv.write {s : System P α} {p : P} {c : Claim α} {value : Option (α × ℕ)}
    {written : Bool} {state : Producer α} (hcap : ValidCapacity capacity) (h : Inv capacity s)
    (hc : (s.producers p).claim = some c)
    (hvalue : written = true → value = some (c.payload, c.position + 1))
    (hstate : state.claim = some { c with written := written })
    (hquiet : ∀ k, ¬ (s.producers p).Touches k) (hown : ∀ e f, state.Ok capacity e f) :
    Inv capacity ({ s with
      mem := s.mem.setValue (slotIndex capacity c.position) value }.setProducer p state) := by
  have hview : ({ s with
      mem := s.mem.setValue (slotIndex capacity c.position) value }.setProducer p state).view =
      s.view.write capacity p c value written := by
    have hview := view_setProducer s p
      (s.mem.setValue (slotIndex capacity c.position) value) state rfl rfl
    rw [hview, hstate, slotIndex_eq_mod hcap]
    rfl
  have hring : Ring capacity (s.view.write capacity p c value written) := h.ring.write hc hvalue
  refine h.produces (p := p)
    { ring := hview ▸ hring
      grows := ?_
      others := fun q hq => Function.update_of_ne hq _ _
      own := ?_
      consumer := rfl
      dequeue := rfl
      popped := rfl
      reserved := List.prefix_rfl
      watermark := Nat.le_refl _
      touches := fun k hk => absurd hk (hquiet k)
      fresh := fun k hk hk' => absurd hk' (Nat.not_lt.mpr hk)
      dropped := h.dropped }
  · rw [hview]
    refine ⟨Nat.le_refl _, Nat.le_refl _, ?_, fun _ _ => rfl⟩
    rintro k ⟨hk, hclaimed⟩
    refine ⟨hk, fun hcl => hclaimed ?_⟩
    have hcv : s.view.claims p = some c := hc
    exact (claimed_update_of_position (d := { c with written := written }) hcv rfl rfl k).mp hcl
  · simp only [System.setProducer, Function.update_self]
    exact hown _ _

theorem Inv.fill {s : System P α} {p : P} {spurious : Bool} {payload : α} {position : ℕ}
    (hcap : ValidCapacity capacity) (h : Inv capacity s)
    (hp : s.producers p = .filling payload position) :
    Inv capacity (s.runProducer capacity p spurious) := by
  have hrun : producerStep capacity s.mem spurious (s.producers p) =
      (s.mem.setValue (slotIndex capacity position) none, .storing payload position, none) := by
    rw [hp]
    rfl
  have hc : (s.producers p).claim = some ⟨payload, position, false⟩ := by rw [hp]; rfl
  rw [runProducer_eq hrun]
  refine h.write hcap hc (fun hw : false = true => by cases hw) rfl ?_ (fun _ _ => trivial)
  intro k
  rw [hp]
  exact id

theorem Inv.store {s : System P α} {p : P} {spurious : Bool} {payload : α} {position : ℕ}
    (hcap : ValidCapacity capacity) (h : Inv capacity s)
    (hp : s.producers p = .storing payload position) :
    Inv capacity (s.runProducer capacity p spurious) := by
  have hrun : producerStep capacity s.mem spurious (s.producers p) =
      (s.mem.setValue (slotIndex capacity position) (some (payload, position + 1)),
        .publishing payload position, none) := by
    rw [hp]
    rfl
  have hc : (s.producers p).claim = some ⟨payload, position, false⟩ := by rw [hp]; rfl
  rw [runProducer_eq hrun]
  refine h.write hcap hc (fun _ : true = true => rfl) rfl ?_ (fun _ _ => trivial)
  intro k
  rw [hp]
  exact id

theorem Inv.publish {s : System P α} {p : P} {spurious : Bool} {payload : α} {position : ℕ}
    (hcap : ValidCapacity capacity) (h : Inv capacity s)
    (hp : s.producers p = .publishing payload position) :
    Inv capacity (s.runProducer capacity p spurious) := by
  have hrun : producerStep capacity s.mem spurious (s.producers p) =
      (s.mem.setSequence (slotIndex capacity position)
          (position + 1 - slotIndex capacity position),
        .idle, some (.returnedTrue position)) := by
    rw [hp]
    rfl
  have hc : s.view.claims p = some ⟨payload, position, true⟩ := by
    change (s.producers p).claim = _
    rw [hp]
    rfl
  rw [runProducer_eq hrun, slotIndex_eq_mod hcap]
  have hview : (({ s with
      mem := s.mem.setSequence (position % capacity) (position + 1 - position % capacity) }
        |>.setProducer p .idle).mark (some (.returnedTrue position))).view =
      s.view.publish capacity p ⟨payload, position, true⟩ := by
    have hview := view_setProducer s p
      (s.mem.setSequence (position % capacity) (position + 1 - position % capacity)) .idle rfl rfl
    exact congrArg (fun v : View P α => { v with returned := s.returned ++ [position] }) hview
  refine h.produces (p := p)
    { ring := hview ▸ h.ring.publish hc rfl
      grows := ?_
      others := fun q hq => Function.update_of_ne hq _ _
      own := ?_
      consumer := rfl
      dequeue := rfl
      popped := rfl
      reserved := List.prefix_rfl
      watermark := Nat.le_refl _
      touches := ?_
      fresh := fun k hk hk' => absurd hk' (Nat.not_lt.mpr hk)
      dropped := h.dropped }
  · rw [hview]
    exact ⟨Nat.le_refl _, Nat.le_refl _,
      fun k hk => (published_publish h.ring hc k).mpr (.inl hk), fun _ _ => rfl⟩
  · simp only [System.mark, System.setProducer, Function.update_self]
    trivial
  · intro k hk
    rw [hp] at hk
    exact hk.elim

/-! ### `note_drop` -/

/-- A failed call returns: the counter has counted it, or is saturated. -/
theorem Inv.returnFalse {s : System P α} {p : P} {spurious : Bool} {dropped : ℕ}
    (h : Inv capacity s) (hclaim : (s.producers p).claim = none)
    (hrun : producerStep capacity s.mem spurious (s.producers p) =
      ({ s.mem with dropped := dropped }, .idle, some .returnedFalse))
    (hdropped : dropped = min (s.drops + 1) maxU64) :
    Inv capacity (s.runProducer capacity p spurious) := by
  rw [runProducer_eq hrun]
  have hmove : Moves capacity s p { s.mem with dropped := dropped } .idle :=
    .unclaimed rfl rfl rfl rfl hclaim rfl trivial
  exact h.move hmove hdropped

theorem atDropped_run {s : System P α} {p : P} {spurious : Bool} (h : Inv capacity s)
    (hclaim : (s.producers p).claim = none)
    (hrun : producerStep capacity s.mem spurious (s.producers p) =
      (s.mem, atDropped s.mem.dropped)) :
    Inv capacity (s.runProducer capacity p spurious) := by
  have hdropped := h.dropped
  unfold atDropped at hrun
  by_cases hmax : s.mem.dropped = maxU64
  · rw [if_pos hmax] at hrun
    have hnext : s.mem.dropped = min (s.drops + 1) maxU64 := by omega
    exact h.returnFalse hclaim hrun hnext
  · rw [if_neg hmax] at hrun
    exact h.runProducer_unclaimed hrun rfl rfl rfl rfl rfl hclaim rfl hmax

theorem atHighWater_run {s : System P α} {p : P} {spurious : Bool} (h : Inv capacity s)
    (hclaim : (s.producers p).claim = none)
    (hrun : producerStep capacity s.mem spurious (s.producers p) =
      (s.mem, atHighWater capacity s.mem.highWater, none)) :
    Inv capacity (s.runProducer capacity p spurious) := by
  unfold atHighWater at hrun
  refine h.runProducer_unclaimed hrun rfl rfl rfl rfl rfl hclaim ?_ ?_ <;> split <;> trivial

theorem Inv.pin {s : System P α} {p : P} {spurious : Bool} {high : ℕ} (h : Inv capacity s)
    (hp : s.producers p = .pinning high) : Inv capacity (s.runProducer capacity p spurious) := by
  have hclaim : (s.producers p).claim = none := by rw [hp]; rfl
  by_cases hwin : s.mem.highWater = high ∧ spurious = false
  · have hrun : producerStep capacity s.mem spurious (s.producers p) =
        ({ s.mem with highWater := capacity }, .counting, none) := by
      rw [hp]
      simp only [producerStep, if_pos hwin]
    exact h.runProducer_unclaimed hrun rfl rfl rfl rfl rfl hclaim rfl trivial
  · refine atHighWater_run h hclaim ?_
    rw [hp]
    simp only [producerStep, if_neg hwin]

theorem Inv.add {s : System P α} {p : P} {spurious : Bool} {current : ℕ} (h : Inv capacity s)
    (hp : s.producers p = .adding current) : Inv capacity (s.runProducer capacity p spurious) := by
  have hclaim : (s.producers p).claim = none := by rw [hp]; rfl
  by_cases hwin : s.mem.dropped = current ∧ spurious = false
  · have hrun : producerStep capacity s.mem spurious (s.producers p) =
        ({ s.mem with dropped := current + 1 }, .idle, some .returnedFalse) := by
      rw [hp]
      simp only [producerStep, if_pos hwin]
    have hok := h.producer p
    rw [hp] at hok
    have hne : current ≠ maxU64 := hok
    have hdropped := h.dropped
    exact h.returnFalse hclaim hrun (by omega)
  · refine atDropped_run h hclaim ?_
    rw [hp]
    simp only [producerStep, if_neg hwin]

theorem Inv.runProducer {s : System P α} (hcap : ValidCapacity capacity) (h : Inv capacity s)
    (p : P) (spurious : Bool) : Inv capacity (s.runProducer capacity p spurious) := by
  cases hp : s.producers p with
  | idle =>
      have hrun : producerStep capacity s.mem spurious (s.producers p) = (s.mem, .idle, none) := by
        rw [hp]
        rfl
      exact h.runProducer_unclaimed hrun rfl rfl rfl rfl rfl (by rw [hp]; rfl) rfl trivial
  | start payload =>
      exact h.runProducer_unclaimed (by rw [hp]; rfl) rfl rfl rfl rfl rfl (by rw [hp]; rfl)
        (atLoop_claim _ _) (atLoop_ok h payload)
  | reading => exact h.read hcap hp
  | claiming => exact h.compareExchange hp
  | touching => exact h.touch hp
  | raising => exact h.raise hp
  | filling => exact h.fill hcap hp
  | storing => exact h.store hcap hp
  | publishing => exact h.publish hcap hp
  | dropping => exact atHighWater_run h (by rw [hp]; rfl) (by rw [hp]; rfl)
  | pinning => exact h.pin hp
  | counting => exact atDropped_run h (by rw [hp]; rfl) (by rw [hp]; rfl)
  | adding => exact h.add hp

end Noleax.Queue
