import Mathlib.Tactic.Common
import Mathlib.Tactic.Linarith
import Noleax.Queue.Mpsc

/-!
# What the slots of the ring mean

A `View` keeps of the queue only what its slots are about: the positions handed
out, the positions freed again, and the producers' claims in between. `Ring` is
the invariant of the slot sequences; each of the four ways the code changes a
view keeps it.
-/

namespace Noleax.Queue

open Trace

/-- A position that a producer has reserved and not yet published. -/
structure Claim (α : Type) where
  payload : α
  position : ℕ
  /-- the event is complete in its slot -/
  written : Bool

structure View (P α : Type) where
  enqueue : ℕ
  /-- the consumer is done with every position below -/
  freed : ℕ
  slots : ℕ → Slot α
  claims : P → Option (Claim α)
  reserved : List α
  returned : List ℕ

section Ring

variable {P α : Type} {capacity : ℕ} {v : View P α}

def View.Claimed (v : View P α) (k : ℕ) : Prop :=
  ∃ p c, v.claims p = some c ∧ c.position = k

/-- The event of position `k` is there for the consumer. -/
def View.Published (v : View P α) (k : ℕ) : Prop := k < v.enqueue ∧ ¬ v.Claimed k

/-- The event that position `k` carries, with its queue sequence. -/
def View.event (v : View P α) (k : ℕ) : Option (α × ℕ) := v.reserved[k]?.map (·, k + 1)

/-- The invariant of the slots. -/
structure Ring (capacity : ℕ) (v : View P α) : Prop where
  freed_le : v.freed ≤ v.enqueue
  enqueue_le : v.enqueue ≤ v.freed + capacity
  enqueue_le_max : v.enqueue ≤ maxU64
  length_reserved : v.reserved.length = v.enqueue
  claim_freed : ∀ p c, v.claims p = some c → v.freed ≤ c.position
  claim_payload : ∀ p c, v.claims p = some c → v.reserved[c.position]? = some c.payload
  claim_inj : ∀ p q c d, v.claims p = some c → v.claims q = some d →
    c.position = d.position → p = q
  claim_written : ∀ p c, v.claims p = some c → c.written = true →
    (v.slots (c.position % capacity)).value = some (c.payload, c.position + 1)
  open_slot : ∀ k, v.freed ≤ k → k < v.freed + capacity → ¬ v.Published k →
    (v.slots (k % capacity)).sequence = (k - k % capacity) % 2 ^ 64
  full_slot : ∀ k, v.freed ≤ k → v.Published k →
    (v.slots (k % capacity)).sequence = k + 1 - k % capacity ∧
      (v.slots (k % capacity)).value = v.event k
  mem_returned : ∀ k, k ∈ v.returned ↔ v.Published k
  nodup_returned : v.returned.Nodup

/-! ## Slots and positions -/

/-- `capacity` neighbouring positions have slots of their own. -/
theorem position_inj {lo j k : ℕ} (hj : lo ≤ j) (hj' : j < lo + capacity) (hk : lo ≤ k)
    (hk' : k < lo + capacity) (h : j % capacity = k % capacity) : j = k := by
  have hbound : ∀ a b, a ≤ b → b < a + capacity → a % capacity = b % capacity → a = b := by
    intro a b hab hlt hmod
    have hdvd : capacity ∣ b - a := (Nat.modEq_iff_dvd' hab).mp hmod
    have hzero : b - a = 0 := Nat.eq_zero_of_dvd_of_lt hdvd (by omega)
    omega
  rcases Nat.le_total j k with hjk | hkj
  · exact hbound j k hjk (by omega) h
  · exact (hbound k j hkj (by omega) h.symm).symm

theorem Ring.claim_lt (h : Ring capacity v) {p : P} {c : Claim α} (hc : v.claims p = some c) :
    c.position < v.enqueue := by
  have hget := h.claim_payload p c hc
  rw [← h.length_reserved]
  exact (List.getElem?_eq_some_iff.mp hget).1

theorem Ring.published_lt (h : Ring capacity v) {k : ℕ} (hk : v.Published k) :
    k < v.freed + capacity := by
  have hlt := hk.1
  have hle := h.enqueue_le
  omega

/-- A claimed position and another position of the ring have different slots. -/
theorem Ring.claim_slot_ne (h : Ring capacity v) {p : P} {c : Claim α} (hc : v.claims p = some c)
    {k : ℕ} (hk : v.freed ≤ k) (hk' : k < v.freed + capacity) (hne : k ≠ c.position) :
    k % capacity ≠ c.position % capacity := by
  intro hmod
  have hlt := h.claim_lt hc
  have hle := h.enqueue_le
  exact hne (position_inj hk hk' (h.claim_freed p c hc) (by omega) hmod)

variable [DecidableEq P]

/-- Who holds a position after a claim has changed in place. -/
theorem claimed_update_of_position {p : P} {c d : Claim α} (hc : v.claims p = some c)
    (hd : d.position = c.position) {w : View P α}
    (hw : w.claims = Function.update v.claims p (some d)) (k : ℕ) :
    w.Claimed k ↔ v.Claimed k := by
  unfold View.Claimed
  rw [hw]
  constructor
  · rintro ⟨q, e, he, rfl⟩
    by_cases hq : q = p
    · subst hq
      rw [Function.update_self, Option.some.injEq] at he
      exact ⟨q, c, hc, by rw [← he, hd]⟩
    · rw [Function.update_of_ne hq] at he
      exact ⟨q, e, he, rfl⟩
  · rintro ⟨q, e, he, rfl⟩
    by_cases hq : q = p
    · subst hq
      have hec : e = c := Option.some.inj (he.symm.trans hc)
      exact ⟨q, d, by rw [Function.update_self], by rw [hec, hd]⟩
    · exact ⟨q, e, by rw [Function.update_of_ne hq]; exact he, rfl⟩

/-! ## The four operations -/

/-- A producer reserves the next position. -/
def View.reserve (v : View P α) (p : P) (payload : α) : View P α :=
  { v with
    enqueue := v.enqueue + 1
    claims := Function.update v.claims p
      (some { payload := payload, position := v.enqueue, written := false })
    reserved := v.reserved ++ [payload] }

/-- A producer writes into the slot it has claimed. -/
def View.write (v : View P α) (capacity : ℕ) (p : P) (c : Claim α) (value : Option (α × ℕ))
    (written : Bool) : View P α :=
  { v with
    slots := Function.update v.slots (c.position % capacity)
      { v.slots (c.position % capacity) with value := value }
    claims := Function.update v.claims p (some { c with written := written }) }

/-- A producer hands its slot to the consumer. -/
def View.publish (v : View P α) (capacity : ℕ) (p : P) (c : Claim α) : View P α :=
  { v with
    slots := Function.update v.slots (c.position % capacity)
      { v.slots (c.position % capacity) with
        sequence := c.position + 1 - c.position % capacity }
    claims := Function.update v.claims p none
    returned := v.returned ++ [c.position] }

/-- The consumer hands the slot of the oldest position to the next lap. -/
def View.free (v : View P α) (capacity : ℕ) : View P α :=
  { v with
    freed := v.freed + 1
    slots := Function.update v.slots (v.freed % capacity)
      { v.slots (v.freed % capacity) with
        sequence := (v.freed + capacity - v.freed % capacity) % 2 ^ 64 } }

/-- Reserving hides nothing and publishes nothing. -/
theorem published_reserve {p : P} (hp : v.claims p = none) (payload : α) (k : ℕ) :
    (v.reserve p payload).Published k ↔ v.Published k := by
  have hclaimed : (v.reserve p payload).Claimed k ↔ v.Claimed k ∨ k = v.enqueue := by
    constructor
    · rintro ⟨q, c, hc, rfl⟩
      simp only [View.reserve] at hc
      by_cases hq : q = p
      · subst hq
        rw [Function.update_self, Option.some.injEq] at hc
        exact .inr (by rw [← hc])
      · rw [Function.update_of_ne hq] at hc
        exact .inl ⟨q, c, hc, rfl⟩
    · rintro (⟨q, c, hc, rfl⟩ | rfl)
      · have hq : q ≠ p := by
          rintro rfl
          rw [hp] at hc
          cases hc
        exact ⟨q, c, by simp only [View.reserve, Function.update_of_ne hq]; exact hc, rfl⟩
      · exact ⟨p, _, by simp only [View.reserve, Function.update_self]; rfl, rfl⟩
  unfold View.Published
  rw [hclaimed]
  change k < v.enqueue + 1 ∧ _ ↔ _
  constructor
  · rintro ⟨hlt, hne⟩
    refine ⟨?_, fun hc => hne (.inl hc)⟩
    have : k ≠ v.enqueue := fun h => hne (.inr h)
    omega
  · rintro ⟨hlt, hne⟩
    refine ⟨by omega, ?_⟩
    rintro (hc | rfl)
    · exact hne hc
    · omega

theorem Ring.reserve (h : Ring capacity v) {p : P} (hp : v.claims p = none) (payload : α)
    (hmax : v.enqueue ≠ maxU64) (hroom : v.enqueue < v.freed + capacity) :
    Ring capacity (v.reserve p payload) := by
  have hlen := h.length_reserved
  have hold : ∀ k, k < v.enqueue → (v.reserved ++ [payload])[k]? = v.reserved[k]? := by
    intro k hk
    exact List.getElem?_append_left (by omega)
  have hnew : ∀ q c, (v.reserve p payload).claims q = some c →
      (q = p ∧ c = { payload := payload, position := v.enqueue, written := false }) ∨
        (q ≠ p ∧ v.claims q = some c) := by
    intro q c hc
    simp only [View.reserve] at hc
    by_cases hq : q = p
    · subst hq
      rw [Function.update_self, Option.some.injEq] at hc
      exact .inl ⟨rfl, hc.symm⟩
    · rw [Function.update_of_ne hq] at hc
      exact .inr ⟨hq, hc⟩
  exact
    { freed_le := by
        have := h.freed_le
        simp only [View.reserve]
        omega
      enqueue_le := by
        simp only [View.reserve]
        omega
      enqueue_le_max := by
        have := h.enqueue_le_max
        simp only [View.reserve]
        omega
      length_reserved := by
        simp only [View.reserve, List.length_append, List.length_singleton, hlen]
      claim_freed := by
        intro q c hc
        rcases hnew q c hc with ⟨-, rfl⟩ | ⟨-, hc⟩
        · exact h.freed_le
        · exact h.claim_freed q c hc
      claim_payload := by
        intro q c hc
        rcases hnew q c hc with ⟨-, rfl⟩ | ⟨-, hc⟩
        · simp only [View.reserve, ← hlen, List.getElem?_concat_length]
        · simp only [View.reserve]
          rw [hold _ (h.claim_lt hc)]
          exact h.claim_payload q c hc
      claim_inj := by
        intro q r c d hc hd hpos
        rcases hnew q c hc with ⟨rfl, rfl⟩ | ⟨-, hcv⟩ <;>
          rcases hnew r d hd with ⟨rfl, rfl⟩ | ⟨-, hdv⟩
        · rfl
        · exact absurd (h.claim_lt hdv) (by rw [← hpos]; exact Nat.lt_irrefl _)
        · exact absurd (h.claim_lt hcv) (by rw [hpos]; exact Nat.lt_irrefl _)
        · exact h.claim_inj q r c d hcv hdv hpos
      claim_written := by
        intro q c hc hw
        rcases hnew q c hc with ⟨-, rfl⟩ | ⟨-, hc⟩
        · cases hw
        · exact h.claim_written q c hc hw
      open_slot := by
        intro k hk hk' hopen
        rw [published_reserve hp] at hopen
        exact h.open_slot k hk hk' hopen
      full_slot := by
        intro k hk hfull
        rw [published_reserve hp] at hfull
        obtain ⟨hseq, hvalue⟩ := h.full_slot k hk hfull
        refine ⟨hseq, hvalue.trans ?_⟩
        simp only [View.event, View.reserve]
        rw [hold k hfull.1]
      mem_returned := by
        intro k
        rw [published_reserve hp]
        exact h.mem_returned k
      nodup_returned := h.nodup_returned }

theorem Ring.write (h : Ring capacity v) {p : P} {c : Claim α} (hc : v.claims p = some c)
    {value : Option (α × ℕ)} {written : Bool}
    (hvalue : written = true → value = some (c.payload, c.position + 1)) :
    Ring capacity (v.write capacity p c value written) := by
  have hclaimed : ∀ k, (v.write capacity p c value written).Published k ↔ v.Published k := by
    intro k
    unfold View.Published
    rw [claimed_update_of_position (d := { c with written := written }) hc rfl rfl]
    rfl
  have hold : ∀ q d, (v.write capacity p c value written).claims q = some d →
      (q = p ∧ d = { c with written := written }) ∨ (q ≠ p ∧ v.claims q = some d) := by
    intro q d hd
    simp only [View.write] at hd
    by_cases hq : q = p
    · subst hq
      rw [Function.update_self, Option.some.injEq] at hd
      exact .inl ⟨rfl, hd.symm⟩
    · rw [Function.update_of_ne hq] at hd
      exact .inr ⟨hq, hd⟩
  have hsequence : ∀ i, ((v.write capacity p c value written).slots i).sequence =
      (v.slots i).sequence := by
    intro i
    simp only [View.write]
    by_cases hi : i = c.position % capacity
    · subst hi
      rw [Function.update_self]
    · rw [Function.update_of_ne hi]
  have hother : ∀ k, v.freed ≤ k → k < v.freed + capacity → k ≠ c.position →
      ((v.write capacity p c value written).slots (k % capacity)).value =
        (v.slots (k % capacity)).value := by
    intro k hk hk' hne
    simp only [View.write]
    rw [Function.update_of_ne (h.claim_slot_ne hc hk hk' hne)]
  exact
    { freed_le := h.freed_le
      enqueue_le := h.enqueue_le
      enqueue_le_max := h.enqueue_le_max
      length_reserved := h.length_reserved
      claim_freed := by
        intro q d hd
        rcases hold q d hd with ⟨-, rfl⟩ | ⟨-, hd⟩
        · exact h.claim_freed p c hc
        · exact h.claim_freed q d hd
      claim_payload := by
        intro q d hd
        rcases hold q d hd with ⟨-, rfl⟩ | ⟨-, hd⟩
        · exact h.claim_payload p c hc
        · exact h.claim_payload q d hd
      claim_inj := by
        intro q r d e hd he hpos
        rcases hold q d hd with ⟨rfl, rfl⟩ | ⟨-, hdv⟩ <;>
          rcases hold r e he with ⟨rfl, rfl⟩ | ⟨-, hev⟩
        · rfl
        · exact h.claim_inj q r c e hc hev hpos
        · exact h.claim_inj q r d c hdv hc hpos
        · exact h.claim_inj q r d e hdv hev hpos
      claim_written := by
        intro q d hd hw
        rcases hold q d hd with ⟨rfl, rfl⟩ | ⟨hq, hd⟩
        · simp only [View.write, Function.update_self]
          exact hvalue hw
        · have hlt := h.claim_lt hd
          have hle := h.enqueue_le
          have hne : d.position ≠ c.position := fun hpos => hq (h.claim_inj q p d c hd hc hpos)
          rw [hother _ (h.claim_freed q d hd) (by omega) hne]
          exact h.claim_written q d hd hw
      open_slot := by
        intro k hk hk' hopen
        rw [hclaimed] at hopen
        rw [hsequence]
        exact h.open_slot k hk hk' hopen
      full_slot := by
        intro k hk hfull
        rw [hclaimed] at hfull
        obtain ⟨hseq, hval⟩ := h.full_slot k hk hfull
        have hne : k ≠ c.position := fun hpos => hfull.2 ⟨p, c, hc, hpos.symm⟩
        rw [hsequence, hother k hk (h.published_lt hfull) hne]
        exact ⟨hseq, hval⟩
      mem_returned := by
        intro k
        rw [hclaimed]
        exact h.mem_returned k
      nodup_returned := h.nodup_returned }

/-- Publishing publishes the claimed position and no other. -/
theorem published_publish (h : Ring capacity v) {p : P} {c : Claim α} (hc : v.claims p = some c)
    (k : ℕ) : (v.publish capacity p c).Published k ↔ v.Published k ∨ k = c.position := by
  have hclaimed : (v.publish capacity p c).Claimed k ↔ v.Claimed k ∧ k ≠ c.position := by
    constructor
    · rintro ⟨q, d, hd, rfl⟩
      simp only [View.publish] at hd
      have hq : q ≠ p := by
        rintro rfl
        rw [Function.update_self] at hd
        cases hd
      rw [Function.update_of_ne hq] at hd
      exact ⟨⟨q, d, hd, rfl⟩, fun hpos => hq (h.claim_inj q p d c hd hc hpos)⟩
    · rintro ⟨⟨q, d, hd, rfl⟩, hne⟩
      have hq : q ≠ p := by
        rintro rfl
        exact hne (by rw [Option.some.inj (hd.symm.trans hc)])
      exact ⟨q, d, by simp only [View.publish, Function.update_of_ne hq]; exact hd, rfl⟩
  unfold View.Published
  rw [hclaimed]
  change k < v.enqueue ∧ _ ↔ _
  have hlt := h.claim_lt hc
  constructor
  · rintro ⟨hk, hne⟩
    by_cases hpos : k = c.position
    · exact .inr hpos
    · exact .inl ⟨hk, fun hcl => hne ⟨hcl, hpos⟩⟩
  · rintro (⟨hk, hne⟩ | rfl)
    · exact ⟨hk, fun hcl => hne hcl.1⟩
    · exact ⟨hlt, fun hcl => hcl.2 rfl⟩

theorem Ring.publish (h : Ring capacity v) {p : P} {c : Claim α} (hc : v.claims p = some c)
    (hw : c.written = true) : Ring capacity (v.publish capacity p c) := by
  have hnot : ¬ v.Published c.position := fun hp => hp.2 ⟨p, c, hc, rfl⟩
  have hclaims : ∀ q d, (v.publish capacity p c).claims q = some d →
      q ≠ p ∧ v.claims q = some d := by
    intro q d hd
    simp only [View.publish] at hd
    by_cases hq : q = p
    · subst hq
      rw [Function.update_self] at hd
      cases hd
    · rw [Function.update_of_ne hq] at hd
      exact ⟨hq, hd⟩
  have hother : ∀ k, v.freed ≤ k → k < v.freed + capacity → k ≠ c.position →
      (v.publish capacity p c).slots (k % capacity) = v.slots (k % capacity) := by
    intro k hk hk' hne
    simp only [View.publish]
    rw [Function.update_of_ne (h.claim_slot_ne hc hk hk' hne)]
  exact
    { freed_le := h.freed_le
      enqueue_le := h.enqueue_le
      enqueue_le_max := h.enqueue_le_max
      length_reserved := h.length_reserved
      claim_freed := fun q d hd => h.claim_freed q d (hclaims q d hd).2
      claim_payload := fun q d hd => h.claim_payload q d (hclaims q d hd).2
      claim_inj := fun q r d e hd he =>
        h.claim_inj q r d e (hclaims q d hd).2 (hclaims r e he).2
      claim_written := by
        intro q d hd hwd
        obtain ⟨hq, hd⟩ := hclaims q d hd
        have hlt := h.claim_lt hd
        have hle := h.enqueue_le
        have hne : d.position ≠ c.position := fun hpos => hq (h.claim_inj q p d c hd hc hpos)
        rw [hother _ (h.claim_freed q d hd) (by omega) hne]
        exact h.claim_written q d hd hwd
      open_slot := by
        intro k hk hk' hopen
        rw [published_publish h hc, not_or] at hopen
        rw [hother k hk hk' hopen.2]
        exact h.open_slot k hk hk' hopen.1
      full_slot := by
        intro k hk hfull
        have hlt := h.claim_lt hc
        rw [published_publish h hc] at hfull
        by_cases hpos : k = c.position
        · subst hpos
          simp only [View.publish, Function.update_self, View.event]
          refine ⟨trivial, ?_⟩
          rw [h.claim_written p c hc hw, h.claim_payload p c hc]
          rfl
        · have hfull := hfull.resolve_right hpos
          rw [hother k hk (h.published_lt hfull) hpos]
          exact h.full_slot k hk hfull
      mem_returned := by
        intro k
        rw [published_publish h hc, ← h.mem_returned]
        simp only [View.publish, List.mem_append, List.mem_singleton]
      nodup_returned := by
        simp only [View.publish]
        refine List.nodup_append.mpr ⟨h.nodup_returned, List.nodup_singleton _, ?_⟩
        intro a ha b hb hab
        rw [List.mem_singleton] at hb
        subst hb hab
        exact hnot ((h.mem_returned _).mp ha) }

omit [DecidableEq P] in
theorem Ring.free (h : Ring capacity v) (hfull : v.Published v.freed) :
    Ring capacity (v.free capacity) := by
  have hpos : 0 < capacity := by
    have := h.published_lt hfull
    omega
  have hother : ∀ k, v.freed + 1 ≤ k → k < v.freed + capacity →
      (v.free capacity).slots (k % capacity) = v.slots (k % capacity) := by
    intro k hk hk'
    have hne : k % capacity ≠ v.freed % capacity := by
      intro hmod
      have := position_inj (by omega) hk' (Nat.le_refl v.freed) (by omega) hmod
      omega
    simp only [View.free]
    rw [Function.update_of_ne hne]
  have hclaims : ∀ p c, v.claims p = some c → v.freed + 1 ≤ c.position := by
    intro p c hc
    have hle := h.claim_freed p c hc
    have hne : c.position ≠ v.freed := fun heq => hfull.2 ⟨p, c, hc, heq⟩
    omega
  exact
    { freed_le := hfull.1
      enqueue_le := by
        have := h.enqueue_le
        simp only [View.free]
        omega
      enqueue_le_max := h.enqueue_le_max
      length_reserved := h.length_reserved
      claim_freed := hclaims
      claim_payload := h.claim_payload
      claim_inj := h.claim_inj
      claim_written := by
        intro p c hc hw
        have hlt := h.claim_lt hc
        have hle := h.enqueue_le
        rw [hother _ (hclaims p c hc) (by omega)]
        exact h.claim_written p c hc hw
      open_slot := by
        intro k hk hk' hopen
        simp only [View.free] at hk hk'
        by_cases hlast : k = v.freed + capacity
        · -- the slot just freed carries the position of the next lap
          subst hlast
          simp only [View.free, Nat.add_mod_right, Function.update_self]
        · rw [hother k hk (by omega)]
          exact h.open_slot k (by omega) (by omega) hopen
      full_slot := by
        intro k hk hfull
        rw [hother k hk (h.published_lt hfull)]
        exact h.full_slot k (Nat.le_of_succ_le hk) hfull
      mem_returned := h.mem_returned
      nodup_returned := h.nodup_returned }

end Ring

end Noleax.Queue
