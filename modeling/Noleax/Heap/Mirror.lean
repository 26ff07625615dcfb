import Noleax.Analyzer.TrackerInvariant
import Noleax.Heap.Ids

/-!
# The writer's heap and the analyzer's

The writer maps addresses to ids, the analyzer ids to generations. `Mirrors` relates
the two and the log of the generations created so far: it is kept by the two things a
heap event can do, creating a generation at an address and releasing the one that is
there.
-/

namespace Noleax.Heap

open Lib Trace Agent Analyzer

/-- The generations created so far, with their addresses, in order. -/
abbrev Log := List (ℕ × ℕ)

/-- A later generation was created at the address of `id`. -/
def Superseded (log : Log) (id address : ℕ) : Prop :=
  ∃ before after later, log = before ++ after ∧ (id, address) ∈ before ∧ (later, address) ∈ after

theorem Superseded.append {log : Log} {id address : ℕ} (h : Superseded log id address)
    (entries : Log) : Superseded (log ++ entries) id address := by
  obtain ⟨before, after, later, rfl, hid, hlater⟩ := h
  refine ⟨before, after ++ entries, later, by rw [List.append_assoc], hid, ?_⟩
  exact List.mem_append_left _ hlater

/-- An entry is superseded by a new one at its address. -/
theorem Superseded.of_mem {log : Log} {id address later : ℕ} (h : (id, address) ∈ log) :
    Superseded (log ++ [(later, address)]) id address :=
  ⟨log, [(later, address)], later, rfl, h, List.mem_singleton_self _⟩

structure Mirrors (st : HeapState) (t : GenerationTracker) (log : Log) : Prop where
  counting : Counting st
  seen : ∀ id, id ∈ t.seenAllocationIds ↔ HandedOut st id
  logged : ∀ entry ∈ log, HandedOut st entry.1
  distinct : (log.map Prod.fst).Nodup
  live : ∀ address id, st.live[address]? = some id →
    ∃ g : MemoryGeneration, t.liveAllocations[id]? = some g ∧ g.address = address
  heapless : ∀ (id : ℕ) (g : MemoryGeneration), t.liveAllocations[id]? = some g → g.heapId = 0
  created : ∀ (id : ℕ) (g : MemoryGeneration), t.liveAllocations[id]? = some g → (id, g.address) ∈ log
  current : ∀ (id : ℕ) (g : MemoryGeneration), t.liveAllocations[id]? = some g →
    st.live[g.address]? = some id ∨ Superseded log id g.address
  orphans : t.orphanedAllocationEndCount = 0
  counted : t.createdCount = log.length
  ended : t.endedCount + t.liveAllocations.size = t.createdCount

theorem mirrors_empty : Mirrors {} {} [] where
  counting := counting_empty
  seen := by
    intro id
    exact iff_of_false (by simp) (not_handedOut_empty id)
  logged := by simp
  distinct := List.nodup_nil
  live := by
    intro address id h
    simp at h
  heapless := by
    intro id g h
    simp at h
  created := by
    intro id g h
    simp at h
  current := by
    intro id g h
    simp at h
  orphans := rfl
  counted := rfl
  ended := by
    show 0 + (∅ : IdMap MemoryGeneration).size = 0
    simp

variable {st st' : HeapState} {t : GenerationTracker} {log : Log} {id address : ℕ}

namespace Mirrors

/-- The writer's state after it created a generation. -/
def createdState (st : HeapState) (id address : ℕ) : HeapState :=
  { st with live := st.live.insert address id }

/-- The tracker after it added a generation. -/
def added (t : GenerationTracker) (g : MemoryGeneration) : GenerationTracker :=
  { t with
    seenAllocationIds := insert g.allocationId t.seenAllocationIds
    liveAllocations := t.liveAllocations.insert g.allocationId g
    createdCount := t.createdCount + 1 }

theorem requireNew_fresh (h : Mirrors st t log) (hid : id ≠ 0) (hfresh : ¬ HandedOut st id) :
    t.requireNewAllocationId id = .ok () := by
  unfold GenerationTracker.requireNewAllocationId
  rw [failIf_bind_eq_ok, failIf_eq_ok]
  exact ⟨hid, fun hseen => hfresh ((h.seen id).mp hseen)⟩

/-- A live generation's id has been handed out. -/
theorem live_handedOut (h : Mirrors st t log) {g : MemoryGeneration}
    (hg : t.liveAllocations[id]? = some g) : HandedOut st id :=
  h.logged (id, g.address) (h.created id g hg)

theorem not_live_minted (h : Mirrors st t log) (hminted : Minted st st' id) :
    id ∉ t.liveAllocations := by
  intro hmem
  obtain ⟨g, hg⟩ := Option.isSome_iff_exists.mp (Std.ExtTreeMap.mem_iff_isSome_getElem?.mp hmem)
  exact hminted.fresh (h.live_handedOut hg)

theorem addAllocation_minted (h : Mirrors st t log) {g : MemoryGeneration}
    (hminted : Minted st st' g.allocationId) (hroom : log.length < maxU64) :
    t.addAllocation g = .ok (added t g, [.created g]) := by
  unfold GenerationTracker.addAllocation
  rw [h.requireNew_fresh hminted.ne_zero hminted.fresh, ok_bind,
    failIf_of_not (h.not_live_minted hminted), ok_bind,
    checkedIncrement_ok (by rw [h.counted]; exact hroom), ok_bind]
  rfl

/-- Creating a generation on both sides. -/
theorem create (h : Mirrors st t log) {g : MemoryGeneration}
    (hminted : Minted st st' g.allocationId) (haddress : g.address = address)
    (hheap : g.heapId = 0) :
    Mirrors (createdState st' g.allocationId address) (added t g)
      (log ++ [(g.allocationId, address)]) where
  counting := ⟨hminted.counting.next, hminted.counting.custom⟩
  seen := by
    intro other
    show other ∈ insert g.allocationId t.seenAllocationIds ↔ HandedOut st' other
    rw [Finset.mem_insert, h.seen, hminted.handedOut, or_comm]
  logged := by
    intro entry hentry
    apply (hminted.handedOut entry.1).mpr
    rcases List.mem_append.mp hentry with hentry | hentry
    · exact .inl (h.logged entry hentry)
    · rw [List.mem_singleton.mp hentry]
      exact .inr rfl
  distinct := by
    rw [List.map_append, List.nodup_append]
    refine ⟨h.distinct, List.nodup_singleton _, ?_⟩
    intro old hold new hnew heq
    obtain ⟨entry, hentry, rfl⟩ := List.mem_map.mp hold
    rw [List.map_singleton, List.mem_singleton] at hnew
    have hsame : entry.1 = g.allocationId := heq.trans hnew
    exact hminted.fresh (hsame ▸ h.logged entry hentry)
  live := by
    intro a other hother
    have hother : (st'.live.insert address g.allocationId)[a]? = some other := hother
    rcases getElem?_insert_cases hother with ⟨rfl, rfl⟩ | ⟨hne, hother⟩
    · exact ⟨g, Std.ExtTreeMap.getElem?_insert_self, haddress⟩
    · rw [hminted.live] at hother
      obtain ⟨g', hg', haddr⟩ := h.live a other hother
      have hids : g.allocationId ≠ other := by
        intro heq
        exact hminted.fresh (heq ▸ h.live_handedOut hg')
      refine ⟨g', ?_, haddr⟩
      show (t.liveAllocations.insert g.allocationId g)[other]? = some g'
      rw [Std.ExtTreeMap.getElem?_insert, if_neg (by rwa [Nat.compare_eq_eq])]
      exact hg'
  heapless := by
    intro other g' hg'
    have hg' : (t.liveAllocations.insert g.allocationId g)[other]? = some g' := hg'
    rcases getElem?_insert_cases hg' with ⟨-, rfl⟩ | ⟨-, hg'⟩
    · exact hheap
    · exact h.heapless other g' hg'
  created := by
    intro other g' hg'
    have hg' : (t.liveAllocations.insert g.allocationId g)[other]? = some g' := hg'
    rcases getElem?_insert_cases hg' with ⟨rfl, rfl⟩ | ⟨-, hg'⟩
    · rw [haddress]
      exact List.mem_append_right _ (List.mem_singleton_self _)
    · exact List.mem_append_left _ (h.created other g' hg')
  current := by
    intro other g' hg'
    have hg' : (t.liveAllocations.insert g.allocationId g)[other]? = some g' := hg'
    show (st'.live.insert address g.allocationId)[g'.address]? = some other ∨ _
    rcases getElem?_insert_cases hg' with ⟨rfl, rfl⟩ | ⟨-, hg'⟩
    · rw [haddress]
      exact .inl Std.ExtTreeMap.getElem?_insert_self
    · by_cases hsame : address = g'.address
      · -- the address was handed out again by this record
        rw [hsame]
        exact .inr (.of_mem (h.created other g' hg'))
      · rw [Std.ExtTreeMap.getElem?_insert, if_neg (by rwa [Nat.compare_eq_eq]), hminted.live]
        rcases h.current other g' hg' with hcur | hsup
        · exact .inl hcur
        · exact .inr (hsup.append _)
  orphans := h.orphans
  counted := by
    show t.createdCount + 1 = _
    rw [h.counted, List.length_append, List.length_singleton]
  ended := by
    show t.endedCount + (t.liveAllocations.insert g.allocationId g).size = t.createdCount + 1
    rw [size_insert_new (h.not_live_minted hminted), ← h.ended]
    rfl

/-- The writer's state after it released the generation at an address. -/
def releasedState (st : HeapState) (address : ℕ) : HeapState :=
  { st with live := st.live.erase address }

/-- The tracker after a generation ended. -/
def endedTracker (t : GenerationTracker) (id : ℕ) : GenerationTracker :=
  { t with liveAllocations := t.liveAllocations.erase id, endedCount := t.endedCount + 1 }

/-- Every ended generation was created. -/
theorem ended_lt (h : Mirrors st t log) (hroom : log.length < maxU64) : t.endedCount < maxU64 := by
  have hended := h.ended
  have hcounted := h.counted
  omega

theorem endAllocation_live (h : Mirrors st t log) (hlive : st.live[address]? = some id)
    (hroom : log.length < maxU64) (reason : GenerationEndReason) (event : Event) :
    ∃ notes, t.endAllocation id address 0 reason event = .ok (endedTracker t id, notes) := by
  obtain ⟨g, hg, haddress⟩ := h.live address id hlive
  refine ⟨[.ended g reason event], ?_⟩
  unfold GenerationTracker.endAllocation
  rw [hg]
  dsimp only
  rw [failIf_of_not (not_not.mpr haddress), ok_bind,
    failIf_of_not (fun hconflict => hconflict.2.1 rfl), ok_bind]
  unfold GenerationTracker.eraseAllocation
  rw [checkedIncrement_ok (h.ended_lt hroom), ok_bind]
  rfl

/-- The writer holds an id at one address only. -/
theorem live_unique (h : Mirrors st t log) {other : ℕ} (hlive : st.live[address]? = some id)
    (hother : st.live[other]? = some id) : other = address := by
  obtain ⟨g, hg, rfl⟩ := h.live address id hlive
  obtain ⟨g', hg', rfl⟩ := h.live other id hother
  rw [hg] at hg'
  cases hg'
  rfl

/-- Releasing a generation on both sides. -/
theorem release (h : Mirrors st t log) (hlive : st.live[address]? = some id) :
    Mirrors (releasedState st address) (endedTracker t id) log where
  counting := ⟨h.counting.next, h.counting.custom⟩
  seen := h.seen
  logged := h.logged
  distinct := h.distinct
  live := by
    intro a other hother
    have hother : (st.live.erase address)[a]? = some other := hother
    obtain ⟨hne, hother⟩ := getElem?_erase_cases hother
    obtain ⟨g, hg, haddress⟩ := h.live a other hother
    refine ⟨g, ?_, haddress⟩
    have hids : id ≠ other := by
      rintro rfl
      exact hne (h.live_unique hlive hother).symm
    show (t.liveAllocations.erase id)[other]? = some g
    rw [Std.ExtTreeMap.getElem?_erase, if_neg (by rwa [Nat.compare_eq_eq])]
    exact hg
  heapless := fun other g hg => h.heapless other g (getElem?_erase_cases hg).2
  created := fun other g hg => h.created other g (getElem?_erase_cases hg).2
  current := by
    intro other g hg
    obtain ⟨hids, hg⟩ := getElem?_erase_cases hg
    rcases h.current other g hg with hcur | hsup
    · left
      show (st.live.erase address)[g.address]? = some other
      rw [Std.ExtTreeMap.getElem?_erase, if_neg]
      · exact hcur
      · rw [Nat.compare_eq_eq]
        rintro rfl
        rw [hlive] at hcur
        exact hids (Option.some.inj hcur)
    · exact .inr hsup
  orphans := h.orphans
  counted := h.counted
  ended := by
    obtain ⟨g, hg, -⟩ := h.live address id hlive
    have hsize := size_erase_live hg
    have hended := h.ended
    show t.endedCount + 1 + (t.liveAllocations.erase id).size = t.createdCount
    omega

end Mirrors

end Noleax.Heap
