import Noleax.Agent.HeapPlan

/-!
# Allocation ids

Built-in hooks count in one space, every custom hook point in its own, and all of
them share the 64 bits of an id. The spaces meet in two places: the built-in counter
can grow into the custom ids, and the last id of a custom point carries into the
number of the point.
-/

namespace Noleax.Heap

open Lib Trace Agent

/-- The id of a custom hook point's `counter`-th generation. -/
def customId (apiId counter : ℕ) : ℕ := (apiId <<< 40) ||| counter

/-- `custom_allocation_counters_[apiId]` -/
def counterOf (st : HeapState) (apiId : ℕ) : ℕ := st.customCounters.getD apiId 0

/-- The ids `make_allocation_id` has returned. -/
def HandedOut (st : HeapState) (id : ℕ) : Prop :=
  (0 < id ∧ id < st.nextAllocationId) ∨
    ∃ apiId counter, customHookApiIdBase ≤ apiId ∧ 0 < counter ∧
      counter ≤ counterOf st apiId ∧ id = customId apiId counter

/-- The next id of `apiId` lies in none of the other spaces: a built-in id is no custom
id handed out before; a custom id is past the built-in ones, and if it is the last of
its point, its sibling (the number that differs in the lowest bit) has not reached
its own last. -/
def IdsApart (st : HeapState) (apiId : ℕ) : Prop :=
  if apiId < customHookApiIdBase then
    ∀ custom counter, customHookApiIdBase ≤ custom → 0 < counter →
      counter ≤ counterOf st custom → st.nextAllocationId ≠ customId custom counter
  else
    st.nextAllocationId ≤ customId apiId (counterOf st apiId + 1) ∧
      (counterOf st apiId + 1 = 2 ^ 40 → ∀ sibling, sibling ≠ apiId → sibling / 2 = apiId / 2 →
        counterOf st sibling < 2 ^ 40)

/-! ## The packing -/

theorem customId_of_lt {apiId counter : ℕ} (h : counter < 2 ^ 40) :
    customId apiId counter = apiId * 2 ^ 40 + counter := by
  unfold customId
  rw [← Nat.shiftLeft_add_eq_or_of_lt h, Nat.shiftLeft_eq]

/-- The last id of a point carries into the number of the point. -/
theorem customId_last (apiId : ℕ) : customId apiId (2 ^ 40) = (apiId ||| 1) * 2 ^ 40 := by
  have hone : (2 : ℕ) ^ 40 = 1 <<< 40 := by rw [Nat.shiftLeft_eq, one_mul]
  unfold customId
  rw [← Nat.shiftLeft_eq]
  nth_rewrite 1 [hone]
  rw [← Nat.shiftLeft_or_distrib]

theorem customId_ne_zero {apiId counter : ℕ} (h : customHookApiIdBase ≤ apiId) :
    customId apiId counter ≠ 0 := by
  unfold customId
  intro hzero
  have hhigh : apiId <<< 40 = 0 := (Nat.or_eq_zero_iff.mp hzero).1
  rw [Nat.shiftLeft_eq] at hhigh
  unfold customHookApiIdBase at h
  omega

/-- Two custom ids are equal only when they are the last ones of siblings. -/
theorem customId_inj {a b k l : ℕ} (hk : 0 < k ∧ k ≤ 2 ^ 40) (hl : 0 < l ∧ l ≤ 2 ^ 40)
    (h : customId a k = customId b l) :
    (a = b ∧ k = l) ∨ (k = 2 ^ 40 ∧ l = 2 ^ 40 ∧ a / 2 = b / 2) := by
  rcases Nat.lt_or_eq_of_le hk.2 with hklt | rfl <;>
    rcases Nat.lt_or_eq_of_le hl.2 with hllt | rfl
  · rw [customId_of_lt hklt, customId_of_lt hllt] at h
    exact .inl (by omega)
  · rw [customId_of_lt hklt, customId_last] at h
    omega
  · rw [customId_last, customId_of_lt hllt] at h
    omega
  · rw [customId_last, customId_last] at h
    have hnumber : a ||| 1 = b ||| 1 := Nat.eq_of_mul_eq_mul_right (by omega) h
    have ha : (a ||| 1) / 2 = a / 2 := by rw [Nat.or_div_two]; simp
    have hb : (b ||| 1) / 2 = b / 2 := by rw [Nat.or_div_two]; simp
    exact .inr ⟨rfl, rfl, by rw [← ha, ← hb, hnumber]⟩

/-! ## `make_allocation_id` -/

/-- What the counters satisfy: no custom one has passed its limit. -/
structure Counting (st : HeapState) : Prop where
  next : 0 < st.nextAllocationId
  custom : ∀ apiId, counterOf st apiId ≤ 2 ^ 40

theorem counting_empty : Counting {} where
  next := by decide
  custom := by
    intro apiId
    unfold counterOf
    simp

theorem not_handedOut_empty (id : ℕ) : ¬ HandedOut {} id := by
  rintro (⟨hpos, hlt⟩ | ⟨apiId, counter, -, hpos, hle, -⟩)
  · have hlt : id < 1 := hlt
    omega
  · have hzero : counterOf {} apiId = 0 := by
      unfold counterOf
      simp
    omega

theorem HandedOut.ne_zero {st : HeapState} {id : ℕ} (h : HandedOut st id) : id ≠ 0 := by
  rcases h with ⟨hpos, -⟩ | ⟨apiId, counter, hbase, -, -, rfl⟩
  · omega
  · exact customId_ne_zero hbase

/-- An id that was just handed out. -/
structure Minted (st st' : HeapState) (id : ℕ) : Prop where
  live : st'.live = st.live
  counting : Counting st'
  fresh : ¬ HandedOut st id
  handedOut : ∀ other, HandedOut st' other ↔ HandedOut st other ∨ other = id

theorem Minted.ne_zero {st st' : HeapState} {id : ℕ} (h : Minted st st' id) : id ≠ 0 :=
  ((h.handedOut id).mpr (.inr rfl)).ne_zero

section Make

variable {st st' : HeapState} {apiId id : ℕ}

theorem makeAllocationId_builtin (hapi : apiId < customHookApiIdBase)
    (h : st.makeAllocationId apiId = .ok (st', id)) :
    st' = { st with nextAllocationId := st.nextAllocationId + 1 } ∧ id = st.nextAllocationId := by
  unfold HeapState.makeAllocationId at h
  rw [if_pos hapi] at h
  split at h
  · cases h
  · cases h
    exact ⟨rfl, rfl⟩

theorem makeAllocationId_custom (hapi : ¬ apiId < customHookApiIdBase)
    (h : st.makeAllocationId apiId = .ok (st', id)) :
    counterOf st apiId < 2 ^ 40 ∧
      st' = { st with
        customCounters := st.customCounters.insert apiId (counterOf st apiId + 1) } ∧
      id = customId apiId (counterOf st apiId + 1) := by
  unfold HeapState.makeAllocationId at h
  rw [if_neg hapi] at h
  dsimp only at h
  split at h
  · cases h
  · rename_i hroom
    cases h
    exact ⟨Nat.lt_of_not_le hroom, rfl, rfl⟩

theorem makeAllocationId_builtin_ok (st : HeapState) (hapi : apiId < customHookApiIdBase)
    (hroom : st.nextAllocationId ≠ maxU64) :
    st.makeAllocationId apiId =
      .ok ({ st with nextAllocationId := st.nextAllocationId + 1 }, st.nextAllocationId) := by
  unfold HeapState.makeAllocationId
  rw [if_pos hapi, if_neg hroom]

theorem makeAllocationId_custom_ok (st : HeapState) (hapi : ¬ apiId < customHookApiIdBase)
    (hroom : counterOf st apiId < 2 ^ 40) :
    st.makeAllocationId apiId = .ok ({ st with
      customCounters := st.customCounters.insert apiId (counterOf st apiId + 1) },
      customId apiId (counterOf st apiId + 1)) := by
  unfold counterOf at hroom
  unfold HeapState.makeAllocationId
  rw [if_neg hapi]
  dsimp only
  rw [if_neg (Nat.not_le.mpr hroom)]
  rfl

theorem minted_builtin (hcounting : Counting st) (hapi : apiId < customHookApiIdBase)
    (hapart : IdsApart st apiId) (h : st.makeAllocationId apiId = .ok (st', id)) :
    Minted st st' id := by
  unfold IdsApart at hapart
  rw [if_pos hapi] at hapart
  obtain ⟨rfl, rfl⟩ := makeAllocationId_builtin hapi h
  have hnext := hcounting.next
  refine ⟨rfl, ⟨Nat.succ_pos _, hcounting.custom⟩, ?_, ?_⟩
  · rintro (⟨-, hlt⟩ | ⟨custom, counter, hbase, hpos, hle, heq⟩)
    · exact Nat.lt_irrefl _ hlt
    · exact hapart custom counter hbase hpos hle heq
  · intro other
    unfold HandedOut
    show (0 < other ∧ other < st.nextAllocationId + 1) ∨ _ ↔ _
    constructor
    · rintro (⟨hpos, hlt⟩ | hcustom)
      · rcases Nat.lt_or_eq_of_le (Nat.le_of_lt_succ hlt) with hlt | heq
        · exact .inl (.inl ⟨hpos, hlt⟩)
        · exact .inr heq
      · exact .inl (.inr hcustom)
    · rintro ((⟨hpos, hlt⟩ | hcustom) | rfl)
      · exact .inl ⟨hpos, by omega⟩
      · exact .inr hcustom
      · exact .inl ⟨hnext, by omega⟩

theorem counterOf_insert (st : HeapState) (apiId other value : ℕ) :
    counterOf { st with customCounters := st.customCounters.insert apiId value } other =
      if apiId = other then value else counterOf st other := by
  unfold counterOf
  simp only [Std.ExtTreeMap.getD_insert, Nat.compare_eq_eq]

theorem minted_custom (hcounting : Counting st) (hapi : ¬ apiId < customHookApiIdBase)
    (hapart : IdsApart st apiId) (h : st.makeAllocationId apiId = .ok (st', id)) :
    Minted st st' id := by
  unfold IdsApart at hapart
  rw [if_neg hapi] at hapart
  obtain ⟨hbuiltin, hsibling⟩ := hapart
  obtain ⟨hroom, rfl, rfl⟩ := makeAllocationId_custom hapi h
  have hbase : customHookApiIdBase ≤ apiId := Nat.le_of_not_lt hapi
  refine ⟨rfl, ⟨hcounting.next, ?_⟩, ?_, ?_⟩
  · intro other
    rw [counterOf_insert]
    split
    · omega
    · exact hcounting.custom other
  · rintro (⟨-, hlt⟩ | ⟨custom, counter, -, hpos, hle, heq⟩)
    · omega
    · have hlimit := hcounting.custom custom
      rcases customId_inj (by omega) (by omega) heq with ⟨rfl, rfl⟩ | ⟨hlast, hlast', hhalf⟩
      · omega
      · by_cases hsame : custom = apiId
        · rw [hsame] at hle
          omega
        · have := hsibling hlast custom hsame hhalf.symm
          omega
  · intro other
    unfold HandedOut
    constructor
    · rintro (hbuiltin | ⟨custom, counter, hcustom, hpos, hle, rfl⟩)
      · exact .inl (.inl hbuiltin)
      · rw [counterOf_insert] at hle
        split at hle
        · rename_i hsame
          subst hsame
          rcases Nat.lt_or_eq_of_le hle with hlt | rfl
          · exact .inl (.inr ⟨_, counter, hcustom, hpos, by omega, rfl⟩)
          · exact .inr rfl
        · exact .inl (.inr ⟨custom, counter, hcustom, hpos, hle, rfl⟩)
    · rintro ((hbuiltin | ⟨custom, counter, hcustom, hpos, hle, rfl⟩) | rfl)
      · exact .inl hbuiltin
      · refine .inr ⟨custom, counter, hcustom, hpos, ?_, rfl⟩
        rw [counterOf_insert]
        split
        · rename_i hsame
          subst hsame
          omega
        · exact hle
      · refine .inr ⟨apiId, counterOf st apiId + 1, hbase, by omega, ?_, rfl⟩
        rw [counterOf_insert, if_pos rfl]

/-- An id that `make_allocation_id` hands out while the spaces are apart is new. -/
theorem makeAllocationId_minted (hcounting : Counting st) (hapart : IdsApart st apiId)
    (h : st.makeAllocationId apiId = .ok (st', id)) : Minted st st' id := by
  by_cases hapi : apiId < customHookApiIdBase
  · exact minted_builtin hcounting hapi hapart h
  · exact minted_custom hcounting hapi hapart h

end Make

end Noleax.Heap
