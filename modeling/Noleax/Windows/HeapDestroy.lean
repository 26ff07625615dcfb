import Noleax.Analyzer.TrackerInvariant
import Noleax.Windows.WriterSteps

/-!
# The end of a heap

What a successful `RtlDestroyHeap` ends. The writer clears its map by handle when it
knows the heap, the analyzer ends generations by heap id when the record has one.
`Mirrors` relates the two maps; every heap event keeps it.
-/

namespace Noleax.Windows

open Lib Trace Analyzer
open Agent (VmContext)

/-! ## The analyzer's side -/

section Tracker

open GenerationTracker

/-- Every created allocation has ended or is live. -/
abbrev Balanced (t : GenerationTracker) : Prop :=
  t.endedCount + t.liveAllocations.size = t.createdCount

theorem eraseAllocation_live {t : GenerationTracker} {id : ℕ} {generation : MemoryGeneration}
    (hbalanced : Balanced t) (hcreated : t.createdCount ≤ maxU64)
    (hlive : t.liveAllocations[id]? = some generation) (reason : GenerationEndReason)
    (event : Event) :
    t.eraseAllocation id generation reason event =
        .ok ({ t with
          liveAllocations := t.liveAllocations.erase id
          endedCount := t.endedCount + 1 }, [.ended generation reason event]) ∧
      t.endedCount + 1 + (t.liveAllocations.erase id).size = t.createdCount := by
  have hsize := size_erase_live hlive
  refine ⟨?_, by omega⟩
  unfold GenerationTracker.eraseAllocation
  rw [checkedIncrement_ok (by omega), ok_bind]
  rfl

/-- The tracker after it ended the allocations of `heapId` among `rest`. -/
structure HeapEnded (heapId : ℕ) (rest : List (ℕ × MemoryGeneration)) (t u : GenerationTracker) :
    Prop where
  seen : u.seenAllocationIds = t.seenAllocationIds
  created : u.createdCount = t.createdCount
  balanced : Balanced u
  live : ∀ (id : ℕ) (g : MemoryGeneration), u.liveAllocations[id]? = some g ↔
    t.liveAllocations[id]? = some g ∧ ¬ ((id, g) ∈ rest ∧ g.heapId = heapId)

/-- `observe_heap_destroy` visits every allocation once and cannot throw. -/
theorem destroyFold_ended (event : Event) (heapId : ℕ) {rest : List (ℕ × MemoryGeneration)}
    {t : GenerationTracker} (notes : List Notification) (hahead : Ahead t.liveAllocations rest)
    (hbalanced : Balanced t) (hcreated : t.createdCount ≤ maxU64) :
    ∃ u notes', rest.foldlM (destroyStep event heapId) (t, notes) = .ok (u, notes') ∧
      HeapEnded heapId rest t u := by
  induction rest generalizing t notes with
  | nil => exact ⟨t, notes, rfl, rfl, rfl, hbalanced, by simp⟩
  | cons entry rest ih =>
      rw [List.foldlM_cons]
      unfold destroyStep
      have hlive := hahead.live entry List.mem_cons_self
      by_cases hheap : entry.2.heapId = heapId
      · obtain ⟨herase, hbalanced'⟩ := eraseAllocation_live hbalanced hcreated hlive
          .heapDestroyed event
        obtain ⟨u, notes', hrun, hended⟩ := ih (t := { t with
            liveAllocations := t.liveAllocations.erase entry.1
            endedCount := t.endedCount + 1 })
          (notes ++ [.ended entry.2 .heapDestroyed event]) hahead.erase hbalanced' hcreated
        refine ⟨u, notes', ?_, hended.seen, hended.created, hended.balanced, ?_⟩
        · rw [if_neg (not_not.mpr hheap), herase]
          exact hrun
        · intro id g
          rw [hended.live]
          dsimp only
          rw [Std.ExtTreeMap.getElem?_erase, List.mem_cons]
          by_cases hid : entry.1 = id
          · -- the visited entry is gone
            subst hid
            rw [if_pos (Nat.compare_eq_eq.mpr rfl)]
            constructor
            · intro h
              cases h.1
            · intro ⟨hg, hout⟩
              rw [hlive] at hg
              cases hg
              exact absurd ⟨.inl rfl, hheap⟩ hout
          · rw [if_neg (by rwa [Nat.compare_eq_eq])]
            have hne : (id, g) ≠ entry := fun heq => hid (by rw [← heq])
            simp [hne]
      · obtain ⟨u, notes', hrun, hended⟩ := ih notes hahead.tail hbalanced hcreated
        refine ⟨u, notes', ?_, hended.seen, hended.created, hended.balanced, ?_⟩
        · rw [if_pos hheap, ok_bind]
          exact hrun
        · intro id g
          rw [hended.live, List.mem_cons]
          have hother : (id, g) = entry → g.heapId ≠ heapId := by
            rintro rfl
            exact hheap
          constructor
          · rintro ⟨hg, hout⟩
            refine ⟨hg, ?_⟩
            rintro ⟨heq | hmem, hid⟩
            · exact hother heq hid
            · exact hout ⟨hmem, hid⟩
          · rintro ⟨hg, hout⟩
            exact ⟨hg, fun hin => hout ⟨.inr hin.1, hin.2⟩⟩

end Tracker

/-! ## The two sides -/

/-- The writer's blocks and heaps, and the allocations live in the analyzer. -/
structure Mirrors (live : LiveState) (t : GenerationTracker) : Prop where
  next : 0 < live.nextAllocationId
  bound : live.nextAllocationId ≤ maxU64
  nextHeap : 0 < live.nextHeapId
  seen : ∀ id ∈ t.seenAllocationIds, 0 < id ∧ id < live.nextAllocationId
  created : t.createdCount < live.nextAllocationId
  balanced : Balanced t
  liveSeen : ∀ (id : ℕ) (g : MemoryGeneration), t.liveAllocations[id]? = some g →
    id ∈ t.seenAllocationIds
  blocks : ∀ key id, live.liveAllocations key = some id →
    ∃ g : MemoryGeneration, t.liveAllocations[id]? = some g ∧
      key = ⟨g.heapHandle, g.address⟩
  /-- A generation that names a heap names the one the writer knows by its handle. -/
  heaps : ∀ (id : ℕ) (g : MemoryGeneration), t.liveAllocations[id]? = some g → g.heapId ≠ 0 →
    live.liveHeaps g.heapHandle = some g.heapId
  heapIds : ∀ handle id, live.liveHeaps handle = some id → 0 < id ∧ id < live.nextHeapId
  handles : ∀ handle other id, live.liveHeaps handle = some id → live.liveHeaps other = some id →
    handle = other

theorem mirrors_empty : Mirrors {} {} where
  next := Nat.one_pos
  bound := by decide
  nextHeap := Nat.one_pos
  seen := by simp
  created := Nat.one_pos
  balanced := by
    show 0 + (∅ : IdMap MemoryGeneration).size = 0
    simp
  liveSeen := by
    intro id g h
    simp at h
  blocks := by
    intro key id h
    cases h
  heaps := by
    intro id g h
    simp at h
  heapIds := by
    intro handle id h
    cases h
  handles := by
    intro handle other id h
    cases h

namespace Mirrors

variable {live : LiveState} {t : GenerationTracker} {key : AllocationKey} {id : ℕ}

/-- The members after a built-in allocation id was made. -/
def counted (live : LiveState) : LiveState :=
  { live with nextAllocationId := live.nextAllocationId + 1 }

theorem makeAllocationId_builtin {m : LiveState} (h : live.makeAllocationId 0 = .ok (m, id)) :
    live.nextAllocationId ≠ maxU64 ∧ id = live.nextAllocationId ∧ m = counted live := by
  unfold LiveState.makeAllocationId at h
  rw [if_pos rfl, failIf_bind_eq_ok] at h
  obtain ⟨hnext, h⟩ := h
  cases h
  exact ⟨hnext, rfl, rfl⟩

/-- The tracker after it added a generation. -/
def added (t : GenerationTracker) (g : MemoryGeneration) : GenerationTracker :=
  { t with
    seenAllocationIds := insert g.allocationId t.seenAllocationIds
    liveAllocations := t.liveAllocations.insert g.allocationId g
    createdCount := t.createdCount + 1 }

theorem not_seen (h : Mirrors live t) : live.nextAllocationId ∉ t.seenAllocationIds :=
  fun hseen => Nat.lt_irrefl _ (h.seen _ hseen).2

theorem not_live (h : Mirrors live t) : live.nextAllocationId ∉ t.liveAllocations := by
  intro hmem
  obtain ⟨g, hg⟩ := Option.isSome_iff_exists.mp (Std.ExtTreeMap.mem_iff_isSome_getElem?.mp hmem)
  exact h.not_seen (h.liveSeen _ g hg)

theorem requireNew (h : Mirrors live t) :
    t.requireNewAllocationId live.nextAllocationId = .ok () := by
  unfold GenerationTracker.requireNewAllocationId
  rw [failIf_bind_eq_ok, failIf_eq_ok]
  exact ⟨Nat.ne_of_gt h.next, h.not_seen⟩

theorem addAllocation_next (h : Mirrors live t) {g : MemoryGeneration}
    (hid : g.allocationId = live.nextAllocationId) :
    t.addAllocation g = .ok (added t g, [.created g]) := by
  unfold GenerationTracker.addAllocation
  rw [hid, h.requireNew, ok_bind, failIf_of_not h.not_live, ok_bind,
    checkedIncrement_ok (Nat.lt_of_lt_of_le h.created h.bound), ok_bind, ← hid]
  rfl

/-- A block is created on both sides. -/
theorem create (h : Mirrors live t) (hnext : live.nextAllocationId ≠ maxU64)
    {g : MemoryGeneration} (hid : g.allocationId = live.nextAllocationId)
    (hheap : g.heapId = live.heapIdOf g.heapHandle) :
    Mirrors ((counted live).assignAllocation ⟨g.heapHandle, g.address⟩ live.nextAllocationId)
      (added t g) where
  next := Nat.succ_pos _
  bound := Nat.lt_of_le_of_ne h.bound hnext
  nextHeap := h.nextHeap
  seen := by
    intro other hother
    rcases Finset.mem_insert.mp hother with rfl | hother
    · rw [hid]
      exact ⟨h.next, Nat.lt_succ_self _⟩
    · exact ⟨(h.seen other hother).1, Nat.lt_succ_of_lt (h.seen other hother).2⟩
  created := Nat.succ_lt_succ h.created
  balanced := by
    show t.endedCount + (t.liveAllocations.insert g.allocationId g).size = t.createdCount + 1
    rw [size_insert_new (by rw [hid]; exact h.not_live), ← h.balanced]
    rfl
  liveSeen := by
    intro other g' hg'
    rcases getElem?_insert_cases hg' with ⟨rfl, -⟩ | ⟨-, hg'⟩
    · exact Finset.mem_insert_self _ _
    · exact Finset.mem_insert_of_mem (h.liveSeen other g' hg')
  blocks := by
    intro key other hother
    by_cases hkey : key = ⟨g.heapHandle, g.address⟩
    · subst hkey
      have hother : Function.update live.liveAllocations _ (some live.nextAllocationId) _ =
        some other := hother
      rw [Function.update_self] at hother
      cases hother
      refine ⟨g, ?_, rfl⟩
      rw [← hid]
      exact Std.ExtTreeMap.getElem?_insert_self
    · have hother : Function.update live.liveAllocations _ (some live.nextAllocationId) _ =
        some other := hother
      rw [Function.update_of_ne hkey] at hother
      obtain ⟨g', hg', heq⟩ := h.blocks key other hother
      refine ⟨g', ?_, heq⟩
      have hne : g.allocationId ≠ other := by
        intro hsame
        rw [hid] at hsame
        exact h.not_seen (hsame ▸ h.liveSeen other g' hg')
      show (t.liveAllocations.insert g.allocationId g)[other]? = some g'
      rw [Std.ExtTreeMap.getElem?_insert, if_neg (by rwa [Nat.compare_eq_eq])]
      exact hg'
  heaps := by
    intro other g' hg' hne
    rcases getElem?_insert_cases hg' with ⟨-, rfl⟩ | ⟨-, hg'⟩
    · show live.liveHeaps g'.heapHandle = some g'.heapId
      rw [hheap] at hne ⊢
      unfold LiveState.heapIdOf at hne ⊢
      cases hknown : live.liveHeaps g'.heapHandle with
      | none =>
          rw [hknown] at hne
          exact absurd rfl hne
      | some heap => rfl
    · exact h.heaps other g' hg' hne
  heapIds := h.heapIds
  handles := h.handles

/-- The tracker after a generation ended. -/
def ended (t : GenerationTracker) (id : ℕ) : GenerationTracker :=
  { t with liveAllocations := t.liveAllocations.erase id, endedCount := t.endedCount + 1 }

theorem endAllocation_live (h : Mirrors live t) (hlive : live.liveAllocations key = some id)
    (reason : GenerationEndReason) (event : Event) :
    ∃ notes, t.endAllocation id key.address (live.heapIdOf key.heapHandle) reason event =
      .ok (ended t id, notes) := by
  obtain ⟨g, hg, rfl⟩ := h.blocks key id hlive
  refine ⟨[.ended g reason event], ?_⟩
  -- the heap the block was allocated from is the one its handle names now
  have hconflict : ¬ heapIdsConflict g.heapId (live.heapIdOf g.heapHandle) := by
    rintro ⟨hne, -, hother⟩
    apply hother
    unfold LiveState.heapIdOf
    rw [h.heaps id g hg hne]
    rfl
  unfold GenerationTracker.endAllocation
  rw [hg]
  dsimp only
  rw [failIf_of_not (not_not.mpr rfl), ok_bind, failIf_of_not hconflict, ok_bind]
  exact (eraseAllocation_live h.balanced
    (Nat.le_of_lt (Nat.lt_of_lt_of_le h.created h.bound)) hg reason event).1

/-- A block is released on both sides. -/
theorem release (h : Mirrors live t) (hlive : live.liveAllocations key = some id) :
    Mirrors (live.eraseAllocation key) (ended t id) where
  next := h.next
  bound := h.bound
  nextHeap := h.nextHeap
  seen := h.seen
  created := h.created
  balanced := by
    obtain ⟨g, hg, -⟩ := h.blocks key id hlive
    exact (eraseAllocation_live h.balanced
      (Nat.le_of_lt (Nat.lt_of_lt_of_le h.created h.bound)) hg .freed g.createdBy).2
  liveSeen := fun other g hg => h.liveSeen other g (getElem?_erase_cases hg).2
  blocks := by
    intro other otherId hother
    have hother : Function.update live.liveAllocations key none other = some otherId := hother
    have hne : other ≠ key := by
      rintro rfl
      rw [Function.update_self] at hother
      cases hother
    rw [Function.update_of_ne hne] at hother
    obtain ⟨g, hg, heq⟩ := h.blocks other otherId hother
    refine ⟨g, ?_, heq⟩
    have hids : id ≠ otherId := by
      rintro rfl
      obtain ⟨g', hg', heq'⟩ := h.blocks key id hlive
      rw [hg] at hg'
      cases hg'
      exact hne (heq.trans heq'.symm)
    show (t.liveAllocations.erase id)[otherId]? = some g
    rw [Std.ExtTreeMap.getElem?_erase, if_neg (by rwa [Nat.compare_eq_eq])]
    exact hg
  heaps := fun other g hg => h.heaps other g (getElem?_erase_cases hg).2
  heapIds := h.heapIds
  handles := h.handles

/-- A heap is created: its handle was not known. -/
theorem createHeap (h : Mirrors live t) {handle : ℕ} (hnew : live.liveHeaps handle = none) :
    Mirrors { live with
      nextHeapId := live.nextHeapId + 1
      liveHeaps := Function.update live.liveHeaps handle (some live.nextHeapId) } t where
  next := h.next
  bound := h.bound
  nextHeap := Nat.succ_pos _
  seen := h.seen
  created := h.created
  balanced := h.balanced
  liveSeen := h.liveSeen
  blocks := h.blocks
  heaps := by
    intro id g hg hne
    have hknown := h.heaps id g hg hne
    have hother : g.heapHandle ≠ handle := by
      intro heq
      rw [heq, hnew] at hknown
      cases hknown
    show Function.update live.liveHeaps handle _ g.heapHandle = _
    rwa [Function.update_of_ne hother]
  heapIds := by
    intro other id hid
    show 0 < id ∧ id < live.nextHeapId + 1
    rcases SortedMap.update_some_cases hid with ⟨-, rfl⟩ | ⟨-, hid⟩
    · exact ⟨h.nextHeap, Nat.lt_succ_self _⟩
    · exact ⟨(h.heapIds other id hid).1, Nat.lt_succ_of_lt (h.heapIds other id hid).2⟩
  handles := by
    intro a b id ha hb
    rcases SortedMap.update_some_cases ha with ⟨rfl, rfl⟩ | ⟨-, ha⟩
    · rcases SortedMap.update_some_cases hb with ⟨rfl, -⟩ | ⟨-, hb⟩
      · rfl
      · exact absurd (h.heapIds b _ hb).2 (Nat.lt_irrefl _)
    · rcases SortedMap.update_some_cases hb with ⟨-, rfl⟩ | ⟨-, hb⟩
      · exact absurd (h.heapIds a _ ha).2 (Nat.lt_irrefl _)
      · exact h.handles a b id ha hb

/-- A known heap is destroyed: the writer forgets its blocks by handle, the analyzer
ends its allocations by id. -/
theorem destroyHeap (h : Mirrors live t) {handle heapId : ℕ} {u : GenerationTracker}
    (hknown : live.liveHeaps handle = some heapId)
    (hended : HeapEnded heapId t.liveAllocations.toList t u) :
    Mirrors (live.destroyHeap handle) u where
  next := h.next
  bound := h.bound
  nextHeap := h.nextHeap
  seen := by
    rw [hended.seen]
    exact h.seen
  created := by
    rw [hended.created]
    exact h.created
  balanced := hended.balanced
  liveSeen := by
    intro id g hg
    rw [hended.seen]
    exact h.liveSeen id g ((hended.live id g).mp hg).1
  blocks := by
    intro key id hid
    have hid : (if key.heapHandle = handle then none else live.liveAllocations key) = some id := hid
    split at hid
    · cases hid
    rename_i hother
    obtain ⟨g, hg, heq⟩ := h.blocks key id hid
    refine ⟨g, (hended.live id g).mpr ⟨hg, ?_⟩, heq⟩
    -- the heap id belongs to the other handle
    rintro ⟨-, hheap⟩
    have hpositive := (h.heapIds handle heapId hknown).1
    have hsame := h.heaps id g hg (by omega)
    rw [hheap] at hsame
    apply hother
    rw [heq]
    exact h.handles _ _ heapId hsame hknown
  heaps := by
    intro id g hg hne
    obtain ⟨hg, hout⟩ := (hended.live id g).mp hg
    have hsame := h.heaps id g hg hne
    have hother : g.heapHandle ≠ handle := by
      intro heq
      rw [heq, hknown] at hsame
      apply hout
      refine ⟨Std.ExtTreeMap.mem_toList_iff_getElem?_eq_some.mpr hg, ?_⟩
      exact (Option.some.inj hsame).symm
    show Function.update live.liveHeaps handle none g.heapHandle = _
    rwa [Function.update_of_ne hother]
  heapIds := by
    intro other id hid
    exact h.heapIds other id (SortedMap.update_none_cases hid).2
  handles := by
    intro a b id ha hb
    exact h.handles a b id (SortedMap.update_none_cases ha).2 (SortedMap.update_none_cases hb).2

end Mirrors

/-! ## Every heap event keeps the two sides together -/

/-- The analyzer takes a record and mirrors the writer again. -/
def Observed (live' : LiveState) (t : GenerationTracker) (event : Event) : Prop :=
  ∃ t' notes, t.dispatch event = .ok (t', notes) ∧ Mirrors live' t'

section Branches

variable {ctx : VmContext} {live live' : LiveState} {t : GenerationTracker} {raw : RtlHeapEvent}
  {header : EventHeader} {status : EventStatus} {payload : EventPayload}

theorem callSucceeded_unmatched (known : Prop) [Decidable known] :
    callSucceeded (unmatchedStatus ctx known) := by
  unfold unmatchedStatus
  split <;> decide

/-- A record that does nothing to any generation. -/
theorem observed_silent (h : Mirrors live t) {event : Event}
    (hdispatch : t.dispatch event = .ok (t, [])) : Observed live t event :=
  ⟨t, [], hdispatch, h⟩

theorem planCreate_observed (h : Mirrors live t)
    (hplan : planCreate live raw = .ok (live', status, payload)) :
    Observed live' t ⟨header, payload⟩ := by
  unfold planCreate at hplan
  by_cases hsucceeded : raw.Succeeded
  · rw [if_pos hsucceeded, failIf_bind_eq_ok, failIf_bind_eq_ok] at hplan
    obtain ⟨-, hnew, hplan⟩ := hplan
    cases hplan
    exact ⟨t, [], rfl, h.createHeap (by simpa using hnew)⟩
  · rw [if_neg hsucceeded] at hplan
    cases hplan
    exact observed_silent h rfl

/-- The generation of an allocation. -/
def allocated (header : EventHeader) (event : AllocationEvent) : MemoryGeneration where
  kind := .heapAllocation
  allocationId := event.allocationId
  heapId := event.heapId
  heapHandle := event.heapHandle
  address := event.resultAddress
  size := event.requestedSize
  createdBy := ⟨header, .allocation event⟩

theorem planAllocate_observed (h : Mirrors live t) (hbuiltin : raw.apiId = 0)
    (hplan : planAllocate live raw = .ok (live', status, payload))
    (hstatus : header.status = status) : Observed live' t ⟨header, payload⟩ := by
  unfold planAllocate at hplan
  by_cases hsucceeded : raw.Succeeded
  · rw [if_pos hsucceeded, hbuiltin] at hplan
    obtain ⟨⟨m, id⟩, hmake, hplan⟩ := bind_eq_ok.mp hplan
    obtain ⟨hnext, rfl, rfl⟩ := Mirrors.makeAllocationId_builtin hmake
    cases hplan
    rw [callStatus_succeeded hsucceeded] at hstatus
    let event : AllocationEvent := ⟨raw.heapHandle, live.heapIdOf raw.heapHandle,
      raw.requestedSize, raw.resultAddress, live.nextAllocationId, raw.flags⟩
    refine ⟨_, [.created (allocated header event)], ?_,
      h.create hnext (g := allocated header event) rfl rfl⟩
    have hcreates : callSucceeded header.status ∧ live.nextAllocationId ≠ 0 := by
      rw [hstatus]
      exact ⟨by decide, Nat.ne_of_gt h.next⟩
    show t.observeAllocation _ _ = _
    unfold GenerationTracker.observeAllocation
    rw [if_pos hcreates]
    exact h.addAllocation_next rfl
  · rw [if_neg hsucceeded] at hplan
    cases hplan
    apply observed_silent h
    show t.observeAllocation _ _ = _
    unfold GenerationTracker.observeAllocation
    exact if_neg fun hcreates => hcreates.2 rfl

/-- The generation of a reallocation. -/
def reallocated (header : EventHeader) (event : ReallocationEvent) : MemoryGeneration where
  kind := .heapAllocation
  allocationId := event.newAllocationId
  heapId := event.heapId
  heapHandle := event.heapHandle
  address := event.resultAddress
  size := event.requestedSize
  createdBy := ⟨header, .reallocation event⟩

/-- A block's id is never zero: the analyzer has seen it. -/
theorem Mirrors.block_ne_zero (h : Mirrors live t) {key : AllocationKey} {id : ℕ}
    (hlive : live.liveAllocations key = some id) : id ≠ 0 := by
  obtain ⟨g, hg, -⟩ := h.blocks key id hlive
  exact Nat.ne_of_gt (h.seen id (h.liveSeen id g hg)).1

theorem eraseAllocation_none {key : AllocationKey} (h : live.liveAllocations key = none) :
    live.eraseAllocation key = live := by
  unfold LiveState.eraseAllocation
  rw [← h, Function.update_eq_self]

/-- A reallocation whose old generation, if it names one, has ended on both sides. -/
theorem observed_reallocation {mid : LiveState} {u : GenerationTracker}
    {notes : List Notification} {event : ReallocationEvent} (h : Mirrors live t)
    (hmid : Mirrors mid u) (hsame : mid.nextAllocationId = live.nextAllocationId)
    (hsucceeded : callSucceeded header.status) (heffect : event.effect = .newGeneration)
    (hnew : event.newAllocationId = live.nextAllocationId)
    (hheap : event.heapId = mid.heapIdOf event.heapHandle)
    (hnext : live.nextAllocationId ≠ maxU64)
    (hend : t.endReallocated ⟨header, .reallocation event⟩ event = .ok (u, notes)) :
    Observed ((Mirrors.counted mid).assignAllocation ⟨event.heapHandle, event.resultAddress⟩
      mid.nextAllocationId) t ⟨header, .reallocation event⟩ := by
  have hid : (reallocated header event).allocationId = mid.nextAllocationId := hnew.trans hsame.symm
  refine ⟨_, notes ++ [.created (reallocated header event)], ?_,
    hmid.create (by rwa [hsame]) hid hheap⟩
  have hcreates : reallocationCreatesNewGeneration header event := by
    refine ⟨hsucceeded, heffect, ?_⟩
    rw [hnew]
    exact Nat.ne_of_gt h.next
  show t.observeReallocation _ event = _
  unfold GenerationTracker.observeReallocation
  have hadd := hmid.addAllocation_next hid
  unfold reallocated at hadd ⊢
  rw [if_pos hcreates, hnew, h.requireNew, ok_bind, hend, ok_bind]
  rw [hnew] at hadd
  dsimp only
  rw [hadd, ok_bind]
  rfl

theorem planReallocate_observed (h : Mirrors live t) (hbuiltin : raw.apiId = 0)
    (hplan : planReallocate ctx live raw = .ok (live', status, payload))
    (hstatus : header.status = status) : Observed live' t ⟨header, payload⟩ := by
  unfold planReallocate at hplan
  by_cases hsucceeded : raw.Succeeded
  · rw [if_pos hsucceeded, hbuiltin] at hplan
    obtain ⟨⟨m, id⟩, hmake, hplan⟩ := bind_eq_ok.mp hplan
    obtain ⟨hnext, rfl, rfl⟩ := Mirrors.makeAllocationId_builtin hmake
    cases hplan
    cases hold : live.liveAllocations ⟨raw.heapHandle, raw.address⟩ with
    | none =>
        rw [hold] at hstatus
        have hstatus : callSucceeded header.status := by
          rw [hstatus]
          exact callSucceeded_unmatched _
        have hsame := eraseAllocation_none hold
        rw [← hsame] at h
        refine observed_reallocation h h rfl hstatus rfl rfl rfl hnext
          (show _ = Except.ok (t, []) from ?_)
        unfold GenerationTracker.endReallocated
        exact if_neg fun hends => hends.2.1 rfl
    | some old =>
        rw [hold] at hstatus
        have hsuccess : header.status = .success := hstatus.trans (callStatus_succeeded hsucceeded)
        have hstatus : callSucceeded header.status := by
          rw [hsuccess]
          decide
        obtain ⟨notes, hend⟩ := h.endAllocation_live hold .reallocated ⟨header, _⟩
        refine observed_reallocation h (h.release hold) rfl hstatus rfl rfl rfl hnext
          (show _ = Except.ok (_, notes) from ?_)
        unfold GenerationTracker.endReallocated
        rw [if_pos ⟨hstatus, h.block_ne_zero hold, .inl rfl⟩]
        exact hend
  · rw [if_neg hsucceeded] at hplan
    cases hplan
    apply observed_silent h
    have hcreates : ¬ (callSucceeded header.status ∧ ReallocationEffect.noChange = .newGeneration ∧
        (0 : ℕ) ≠ 0) := fun hcreates => nomatch hcreates.2.1
    have hends : ∀ id : ℕ, ¬ (callSucceeded header.status ∧ id ≠ 0 ∧
        (ReallocationEffect.noChange = .newGeneration ∨
          ReallocationEffect.noChange = .freed)) := by
      rintro id ⟨-, -, heffect | heffect⟩
      · cases heffect
      · cases heffect
    show t.observeReallocation _ _ = _
    unfold GenerationTracker.observeReallocation GenerationTracker.endReallocated
    rw [if_neg hcreates, if_neg (hends _)]

theorem planFree_observed (h : Mirrors live t)
    (hplan : planFree ctx live raw = .ok (live', status, payload))
    (hstatus : header.status = status) : Observed live' t ⟨header, payload⟩ := by
  have hsilent : ∀ free : FreeEvent, free.allocationId = 0 →
      t.dispatch ⟨header, .free free⟩ = .ok (t, []) := by
    intro free hid
    show t.observeFree _ free = _
    unfold GenerationTracker.observeFree
    exact if_neg fun hends => hends.2 hid
  unfold planFree at hplan
  by_cases hsucceeded : raw.Succeeded
  · rw [if_pos hsucceeded] at hplan
    cases hlive : live.liveAllocations ⟨raw.heapHandle, raw.address⟩ with
    | none =>
        rw [hlive] at hplan
        cases hplan
        exact observed_silent h (hsilent _ rfl)
    | some id =>
        rw [hlive] at hplan
        cases hplan
        obtain ⟨notes, hend⟩ := h.endAllocation_live hlive .freed ⟨header, _⟩
        refine ⟨_, notes, ?_, h.release hlive⟩
        have hends : callSucceeded header.status ∧ id ≠ 0 := by
          rw [hstatus, callStatus_succeeded hsucceeded]
          exact ⟨by decide, h.block_ne_zero hlive⟩
        show t.observeFree _ _ = _
        unfold GenerationTracker.observeFree
        rw [if_pos hends]
        exact hend
  · rw [if_neg hsucceeded] at hplan
    cases hplan
    exact observed_silent h (hsilent _ rfl)

theorem planDestroy_observed (h : Mirrors live t)
    (hplan : planDestroy ctx live raw = .ok (live', status, payload))
    (hstatus : header.status = status) : Observed live' t ⟨header, payload⟩ := by
  unfold planDestroy at hplan
  cases hknown : live.liveHeaps raw.heapHandle with
  | none =>
      rw [hknown] at hplan
      cases hplan
      apply observed_silent h
      show t.observeHeapDestroy _ _ = _
      unfold GenerationTracker.observeHeapDestroy
      exact if_neg fun hends => hends.2 rfl
  | some heapId =>
      rw [hknown] at hplan
      cases hplan
      by_cases hsucceeded : raw.Succeeded
      · rw [if_pos hsucceeded]
        rw [callStatus_succeeded hsucceeded] at hstatus
        obtain ⟨u, notes, hrun, hended⟩ := destroyFold_ended ⟨header, _⟩ heapId []
          (GenerationTracker.ahead_toList t.liveAllocations) h.balanced
          (Nat.le_of_lt (Nat.lt_of_lt_of_le h.created h.bound))
        refine ⟨u, notes, ?_, h.destroyHeap hknown hended⟩
        have hends : callSucceeded header.status ∧ heapId ≠ 0 := by
          rw [hstatus]
          exact ⟨by decide, Nat.ne_of_gt (h.heapIds _ _ hknown).1⟩
        show t.observeHeapDestroy _ _ = _
        rw [GenerationTracker.observeHeapDestroy_eq_fold, if_pos hends]
        exact hrun
      · rw [if_neg hsucceeded]
        rw [callStatus_failed hsucceeded] at hstatus
        apply observed_silent h
        show t.observeHeapDestroy _ _ = _
        unfold GenerationTracker.observeHeapDestroy
        exact if_neg fun hends => hends.1 hstatus

/-- The events of the five heap functions. -/
abbrev RtlHeapEvent.IsRtlHeap (raw : RtlHeapEvent) : Prop :=
  ¬ raw.Custom ∧ ¬ raw.IsNtMemory

theorem planEvent_observed (h : Mirrors live t) (hheap : raw.IsRtlHeap)
    (hplan : planEvent ctx live raw = .ok (live', status, payload))
    (hstatus : header.status = status) : Observed live' t ⟨header, payload⟩ := by
  have hbuiltin : raw.apiId = 0 := not_not.mp hheap.1
  have hother := hheap.2
  unfold planEvent at hplan
  unfold RtlHeapEvent.IsNtMemory at hother
  cases hop : raw.operation <;> rw [hop] at hplan hother
  case create => exact planCreate_observed h hplan
  case allocate => exact planAllocate_observed h hbuiltin hplan hstatus
  case reallocate => exact planReallocate_observed h hbuiltin hplan hstatus
  case free => exact planFree_observed h hplan hstatus
  case destroy => exact planDestroy_observed h hplan hstatus
  all_goals exact absurd (by decide) hother

end Branches

/-! ## Runs -/

open RtlAllocateHeapTraceWriter

variable {options : WriterOptions} {w w' : RtlAllocateHeapTraceWriter} {raw : RtlHeapEvent}

/-- The analyzer takes all the records built so far and mirrors the writer. -/
def Fed (w : RtlAllocateHeapTraceWriter) (t : GenerationTracker) : Prop :=
  GenerationTracker.run {} w.planned = .ok t ∧ Mirrors w.live t

/-- A record that was built, on the analyzer's side. -/
theorem Fed.built {t : GenerationTracker} {event : Event} (h : Fed w t) (hheap : raw.IsRtlHeap)
    (hbuilt : Built options raw w w' event) : ∃ t', t.step event = .ok t' ∧ Fed w' t' := by
  obtain ⟨t', notes, hdispatch, hmirrors⟩ := planEvent_observed h.2 hheap hbuilt.plan
    (show event.header.status = _ from rfl)
  have hstep := GenerationTracker.step_of_dispatch notes hbuilt.valid hdispatch
  refine ⟨t', hstep, ?_, hmirrors⟩
  unfold GenerationTracker.run
  rw [hbuilt.planned]
  refine foldlM_append_ok h.1 ?_
  rw [List.foldlM_cons, hstep]
  rfl

theorem Fed.step (h : ∃ t, Fed w t) (hheap : raw.IsRtlHeap)
    (hrun : processEvent options raw w = .ok () w') : ∃ t, Fed w' t := by
  obtain ⟨t, ht⟩ := h
  obtain ⟨-, ⟨hlive, hplanned, -⟩ | ⟨event, hbuilt⟩⟩ := processEvent_built hrun
  · refine ⟨t, ?_, ?_⟩
    · rw [hplanned]
      exact ht.1
    · rw [hlive]
      exact ht.2
  · obtain ⟨t', -, hfed⟩ := ht.built hheap hbuilt
    exact ⟨t', hfed⟩

theorem fed_run {file : TraceWriter} {raws : List RtlHeapEvent}
    (hheap : ∀ raw ∈ raws, raw.IsRtlHeap)
    (hrun : processEvents options raws (.start options file) = .ok () w) : ∃ t, Fed w t :=
  @processEvents_preserves options _ _ (fun w => ∃ t, Fed w t) raws _
    (fun raw hmem _ _ h hstep => Fed.step h (hheap raw hmem) hstep)
    ⟨{}, rfl, mirrors_empty⟩ hrun

/-- A known heap that is destroyed before the file limit leaves no block in the writer,
and in the analyzer none that was allocated while the heap was known. -/
theorem destroy_ends_generations (options : WriterOptions) (file : TraceWriter)
    (raws : List RtlHeapEvent) (destroy : RtlHeapEvent) (w w' : RtlAllocateHeapTraceWriter)
    (hheap : ∀ raw ∈ raws, raw.IsRtlHeap)
    (hrun : processEvents options raws (.start options file) = .ok () w)
    (hdestroy : ¬ destroy.Custom ∧ destroy.operation = .destroy ∧ destroy.Succeeded)
    (hknown : (w.live.liveHeaps destroy.heapHandle).isSome = true)
    (hstep : processEvent options destroy w = .ok () w') (hbuilt : w'.planned ≠ w.planned) :
    (∀ address, w'.live.liveAllocations ⟨destroy.heapHandle, address⟩ = none) ∧
      ∃ t, GenerationTracker.run {} w'.planned = .ok t ∧
        ∀ (id : ℕ) (g : MemoryGeneration), t.liveAllocations[id]? = some g →
          g.heapHandle = destroy.heapHandle → g.heapId = 0 := by
  obtain ⟨hbuiltin, hop, hsucceeded⟩ := hdestroy
  have hdestroyHeap : destroy.IsRtlHeap := by
    refine ⟨hbuiltin, ?_⟩
    unfold RtlHeapEvent.IsNtMemory
    rw [hop]
    decide
  obtain ⟨t, ht⟩ := fed_run hheap hrun
  obtain ⟨-, ⟨-, hplanned, -⟩ | ⟨event, hrecord⟩⟩ := processEvent_built hstep
  · exact absurd hplanned hbuilt
  obtain ⟨t', -, hfed, hmirrors⟩ := ht.built hdestroyHeap hrecord
  have hlive : w'.live = w.live.destroyHeap destroy.heapHandle := by
    have hplan := hrecord.plan
    unfold planEvent planDestroy at hplan
    rw [hop] at hplan
    obtain ⟨heapId, hheapId⟩ := Option.isSome_iff_exists.mp hknown
    dsimp only at hplan
    rw [hheapId, if_pos hsucceeded] at hplan
    injection hplan with hplan
    injection hplan with hlive
    exact hlive.symm
  refine ⟨?_, t', hfed, ?_⟩
  · intro address
    rw [hlive]
    exact if_pos rfl
  · intro id g hg hhandle
    by_contra hne
    -- a heap id would be the one the writer knows by the handle it has just forgotten
    have hsame := hmirrors.heaps id g hg hne
    rw [hlive, hhandle] at hsame
    have hforgotten : Function.update w.live.liveHeaps destroy.heapHandle none destroy.heapHandle =
      some g.heapId := hsame
    rw [Function.update_self] at hforgotten
    cases hforgotten

/-- The hooks of the NT heap profile. -/
def heapHooks : MemoryHooks :=
  { create := true, allocate := true, reallocate := true, free := true, destroy := true }

/-- The heap `0x5000` is created. -/
def heapCreated (sequence : ℕ) : RtlHeapEvent where
  queueSequence := sequence
  monotonicTicks := 10 + sequence
  threadId := 1
  resultAddress := 0x5000
  operation := .create
  status := .success

/-- A block of the heap `0x5000` is allocated. -/
def blockAllocated (sequence : ℕ) : RtlHeapEvent where
  queueSequence := sequence
  monotonicTicks := 10 + sequence
  threadId := 1
  heapHandle := 0x5000
  requestedSize := 32
  resultAddress := 0x6000
  operation := .allocate
  status := .success

/-- The heap `0x5000` is destroyed. -/
def heapDestroyed (sequence : ℕ) : RtlHeapEvent where
  queueSequence := sequence
  monotonicTicks := 10 + sequence
  threadId := 1
  heapHandle := 0x5000
  operation := .destroy
  status := .success

/-- A heap created during the capture, with one block. -/
theorem destroy_ends_generations_created :
    ∃ w w', processEvents (smallOptions heapHooks 1048576) [heapCreated 1, blockAllocated 2]
        (.start (smallOptions heapHooks 1048576) smallFile) = .ok () w ∧
      processEvent (smallOptions heapHooks 1048576) (heapDestroyed 3) w = .ok () w' ∧
      w.live.liveAllocations ⟨0x5000, 0x6000⟩ = some 1 ∧
      (∀ address, w'.live.liveAllocations ⟨0x5000, address⟩ = none) ∧
      ∃ t, GenerationTracker.run {} w'.planned = .ok t ∧
        ∀ (id : ℕ) (g : MemoryGeneration), t.liveAllocations[id]? = some g →
          g.heapHandle = 0x5000 → g.heapId = 0 := by
  have hruns : wp (processEvents (smallOptions heapHooks 1048576)
      [heapCreated 1, blockAllocated 2])
      (fun _ w => w.live.liveAllocations ⟨0x5000, 0x6000⟩ = some 1 ∧
        (w.live.liveHeaps 0x5000).isSome = true ∧
        wp (processEvent (smallOptions heapHooks 1048576) (heapDestroyed 3))
          (fun _ w' => w'.planned ≠ w.planned) (fun _ _ => False) w)
      (fun _ _ => False) (.start (smallOptions heapHooks 1048576) smallFile) := by
    decide +kernel
  obtain ⟨_, w, hrun, hblock, hknown, hdestroy⟩ := wp_run hruns
  obtain ⟨_, w', hstep, hbuilt⟩ := wp_run hdestroy
  obtain ⟨hwriter, htracker⟩ := destroy_ends_generations (smallOptions heapHooks 1048576) smallFile
    [heapCreated 1, blockAllocated 2] (heapDestroyed 3) w w' (by decide) hrun (by decide) hknown hstep
    hbuilt
  exact ⟨w, w', hrun, hstep, hblock, hwriter, htracker⟩

/-- After a successful destroy nothing that was allocated from the heap is live. -/
def DestroyEndsAll (options : WriterOptions) (file : TraceWriter) : Prop :=
  ∀ (raws : List RtlHeapEvent) (destroy : RtlHeapEvent) (w w' : RtlAllocateHeapTraceWriter),
    (∀ raw ∈ raws, raw.IsRtlHeap) →
    processEvents options raws (.start options file) = .ok () w →
    ¬ destroy.Custom ∧ destroy.operation = .destroy ∧ destroy.Succeeded →
    processEvent options destroy w = .ok () w' →
    (∀ address, w'.live.liveAllocations ⟨destroy.heapHandle, address⟩ = none) ∧
      ∃ t, GenerationTracker.run {} w'.planned = .ok t ∧
        ∀ (id : ℕ) (g : MemoryGeneration), t.liveAllocations[id]? = some g →
          g.heapHandle ≠ destroy.heapHandle

/-- The heap handles of the allocations live after `events`. -/
def liveHandles (events : List Event) : Except Error (List ℕ) := do
  let t ← GenerationTracker.run {} events
  return t.liveAllocations.toList.map fun entry => entry.2.heapHandle

/-- A heap that was there before the capture has no id: its blocks outlive its destroy.
A block of such a heap also outlives a later heap of the same handle. -/
theorem destroy_keeps_preexisting :
    ¬ DestroyEndsAll (smallOptions heapHooks 1048576) smallFile ∧
      ∃ w w', processEvents (smallOptions heapHooks 1048576) [blockAllocated 1, heapCreated 2]
          (.start (smallOptions heapHooks 1048576) smallFile) = .ok () w ∧
        (w.live.liveHeaps 0x5000).isSome = true ∧
        processEvent (smallOptions heapHooks 1048576) (heapDestroyed 3) w = .ok () w' ∧
        liveHandles w'.planned = .ok [0x5000] := by
  constructor
  · intro h
    have hruns : wp (processEvents (smallOptions heapHooks 1048576) [blockAllocated 1])
        (fun _ w => wp (processEvent (smallOptions heapHooks 1048576) (heapDestroyed 2))
          (fun _ w' => w'.live.liveAllocations ⟨0x5000, 0x6000⟩ = some 1) (fun _ _ => False) w)
        (fun _ _ => False) (.start (smallOptions heapHooks 1048576) smallFile) := by
      decide +kernel
    obtain ⟨_, w, hrun, hdestroy⟩ := wp_run hruns
    obtain ⟨_, w', hstep, hlive⟩ := wp_run hdestroy
    have hgone := (h [blockAllocated 1] (heapDestroyed 2) w w' (by decide) hrun (by decide) hstep).1
      0x6000
    have hlive : w'.live.liveAllocations ⟨(heapDestroyed 2).heapHandle, 0x6000⟩ = some 1 := hlive
    rw [hgone] at hlive
    cases hlive
  · -- the destroy of the older heap was lost
    have hruns : wp (processEvents (smallOptions heapHooks 1048576)
        [blockAllocated 1, heapCreated 2])
        (fun _ w => (w.live.liveHeaps 0x5000).isSome = true ∧
          wp (processEvent (smallOptions heapHooks 1048576) (heapDestroyed 3))
            (fun _ w' => liveHandles w'.planned = .ok [0x5000]) (fun _ _ => False) w)
        (fun _ _ => False) (.start (smallOptions heapHooks 1048576) smallFile) := by
      decide +kernel
    obtain ⟨_, w, hrun, hknown, hdestroy⟩ := wp_run hruns
    obtain ⟨_, w', hstep, hlive⟩ := wp_run hdestroy
    exact ⟨w, w', hrun, hknown, hstep, hlive⟩

end Noleax.Windows
