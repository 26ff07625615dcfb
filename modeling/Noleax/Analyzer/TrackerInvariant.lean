import Noleax.Analyzer.TrackerEffects
import Noleax.Lib.Coverage

/-!
# What holds in every state of a `GenerationTracker`

`Change` says once what an event can do to the tracker: start a generation, end a
live one, change the bytes of a live mapping, or count an orphan. The invariant
(`Sound`) and the history of the callbacks (`Recorded`) follow by induction on it,
and then along every run of accepted and rejected events.
-/

namespace Noleax.Analyzer

open Lib Trace

/-! ## Generations and their callbacks -/

/-- Allocation ids and mapping ids are separate. -/
inductive GenerationKey where
  | allocation (id : ℕ)
  | mapping (id : ℕ)
deriving DecidableEq, Repr

def MemoryGeneration.key (generation : MemoryGeneration) : GenerationKey :=
  if generation.kind = .heapAllocation then .allocation generation.allocationId
  else .mapping generation.mappingId

def Notification.generation : Notification → MemoryGeneration
  | .created generation => generation
  | .ended generation _ _ => generation
  | .changed generation _ => generation

def Notification.IsChanged : Notification → Prop
  | .changed _ _ => True
  | _ => False

/-- The callbacks about one generation, in order. -/
def history (notes : List Notification) (key : GenerationKey) : List Notification :=
  notes.filter fun note => note.generation.key = key

/-- Created, then changed any number of times. -/
def Alive (callbacks : List Notification) : Prop :=
  ∃ generation changes, callbacks = .created generation :: changes ∧
    ∀ note ∈ changes, note.IsChanged

/-- Created, changed any number of times, and ended. -/
def Over (callbacks : List Notification) : Prop :=
  ∃ alive generation reason event, Alive alive ∧
    callbacks = alive ++ [.ended generation reason event]

namespace GenerationTracker

def Seen (t : GenerationTracker) : GenerationKey → Prop
  | .allocation id => id ∈ t.seenAllocationIds
  | .mapping id => id ∈ t.seenMappingIds

def Live (t : GenerationTracker) : GenerationKey → Prop
  | .allocation id => id ∈ t.liveAllocations
  | .mapping id => id ∈ t.liveMappings

/-- The invariant of the members. The fragments of a mapping are sorted, disjoint and
nonempty by their type (`IntervalSet.layout`). -/
structure Sound (t : GenerationTracker) : Prop extends t.Accounted where
  allocationKeys : ∀ (id : ℕ) (generation : MemoryGeneration), t.liveAllocations[id]? = some generation →
    generation.key = .allocation id
  mappingKeys : ∀ (id : ℕ) (state : MappingState), t.liveMappings[id]? = some state →
    state.generation.key = .mapping id
  bytes : ∀ (id : ℕ) (state : MappingState), t.liveMappings[id]? = some state →
    state.generation.size = state.live.totalBytes

/-- The callbacks so far tell which generations there are and were. -/
structure Recorded (t : GenerationTracker) (notes : List Notification) : Prop where
  unseen : ∀ key, ¬ t.Seen key → history notes key = []
  live : ∀ key, t.Live key → Alive (history notes key)
  dead : ∀ key, t.Seen key → ¬ t.Live key → Over (history notes key)

/-- Everything `event` can do, with its callbacks. `Kept` holds of every set of
fragments it stores. -/
inductive Change (Kept : IntervalSet Unit → Prop) (event : Event) :
    GenerationTracker → List Notification → GenerationTracker → Prop
  | refl (t : GenerationTracker) : Change Kept event t [] t
  | orphan (t : GenerationTracker) (allocations mappings : ℕ) :
      Change Kept event t [] { t with
        orphanedAllocationEndCount := allocations
        orphanedMappingEndCount := mappings }
  | createAllocation (t : GenerationTracker) (generation : MemoryGeneration)
      (hkey : generation.key = .allocation generation.allocationId)
      (hid : generation.allocationId ≠ 0)
      (hnew : generation.allocationId ∉ t.seenAllocationIds) :
      Change Kept event t [.created generation] { t with
        seenAllocationIds := insert generation.allocationId t.seenAllocationIds
        liveAllocations := t.liveAllocations.insert generation.allocationId generation
        createdCount := t.createdCount + 1 }
  | createMapping (t : GenerationTracker) (state : MappingState)
      (hkey : state.generation.key = .mapping state.generation.mappingId)
      (hnew : state.generation.mappingId ∉ t.seenMappingIds)
      (hbytes : state.generation.size = state.live.totalBytes) (hkept : Kept state.live) :
      Change Kept event t [.created state.generation] { t with
        seenMappingIds := insert state.generation.mappingId t.seenMappingIds
        liveMappings := t.liveMappings.insert state.generation.mappingId state
        createdCount := t.createdCount + 1 }
  | endAllocation (t : GenerationTracker) (id : ℕ) (generation : MemoryGeneration)
      (hlive : t.liveAllocations[id]? = some generation) (reason : GenerationEndReason) :
      Change Kept event t [.ended generation reason event] { t with
        liveAllocations := t.liveAllocations.erase id
        endedCount := t.endedCount + 1 }
  | endMapping (t : GenerationTracker) (id : ℕ) (state : MappingState)
      (hlive : t.liveMappings[id]? = some state) (reason : GenerationEndReason) :
      Change Kept event t [.ended state.generation reason event] { t with
        liveMappings := t.liveMappings.erase id
        endedCount := t.endedCount + 1 }
  | resize (t : GenerationTracker) (id : ℕ) (state : MappingState)
      (hlive : t.liveMappings[id]? = some state) (live : IntervalSet Unit) (hkept : Kept live)
      (notes : List Notification)
      (hnotes : notes = [] ∨
        notes = [.changed { state.generation with size := live.totalBytes } event]) :
      Change Kept event t notes { t with
        liveMappings := t.liveMappings.insert id
          ⟨{ state.generation with size := live.totalBytes }, live⟩ }
  | trans {t u v : GenerationTracker} {before after : List Notification}
      (h : Change Kept event t before u) (h' : Change Kept event u after v) :
      Change Kept event t (before ++ after) v

end GenerationTracker

/-! ## Maps -/

section IdMap

variable {α : Type} {m : IdMap α} {id : ℕ} {a b : α}

theorem mem_of_getElem? (h : m[id]? = some a) : id ∈ m := by
  rw [Std.ExtTreeMap.mem_iff_isSome_getElem?, h]
  rfl

theorem size_insert_new (h : id ∉ m) : (m.insert id a).size = m.size + 1 :=
  Std.ExtTreeMap.size_insert.trans (if_neg h)

theorem size_insert_live (h : m[id]? = some b) : (m.insert id a).size = m.size :=
  Std.ExtTreeMap.size_insert.trans (if_pos (mem_of_getElem? h))

theorem size_erase_live (h : m[id]? = some a) : (m.erase id).size + 1 = m.size := by
  have hpos : 0 < m.size := by
    rcases Nat.eq_zero_or_pos m.size with hzero | hpos
    · have hempty : m = ∅ := Std.ExtTreeMap.eq_empty_iff_size_eq_zero.mpr hzero
      rw [hempty] at h
      simp at h
    · exact hpos
  have hsize : (m.erase id).size = m.size - 1 :=
    Std.ExtTreeMap.size_erase.trans (if_pos (mem_of_getElem? h))
  omega

theorem mem_insert_iff {k : ℕ} : k ∈ m.insert id a ↔ id = k ∨ k ∈ m := by
  rw [Std.ExtTreeMap.mem_insert, Nat.compare_eq_eq]

theorem mem_erase_iff {k : ℕ} : k ∈ m.erase id ↔ id ≠ k ∧ k ∈ m := by
  rw [Std.ExtTreeMap.mem_erase, Ne, Nat.compare_eq_eq]

theorem getElem?_insert_cases {k : ℕ} {c : α} (h : (m.insert id a)[k]? = some c) :
    (id = k ∧ c = a) ∨ (id ≠ k ∧ m[k]? = some c) := by
  simp only [Std.ExtTreeMap.getElem?_insert, Nat.compare_eq_eq] at h
  split at h
  · rename_i heq
    cases h
    exact .inl ⟨heq, rfl⟩
  · rename_i hne
    exact .inr ⟨hne, h⟩

theorem getElem?_erase_cases {k : ℕ} {c : α} (h : (m.erase id)[k]? = some c) :
    id ≠ k ∧ m[k]? = some c := by
  simp only [Std.ExtTreeMap.getElem?_erase, Nat.compare_eq_eq] at h
  split at h
  · cases h
  · rename_i hne
    exact ⟨hne, h⟩

end IdMap

/-! ## The invariant -/

namespace GenerationTracker

variable {Kept : IntervalSet Unit → Prop} {event : Event} {t u : GenerationTracker}
  {notes : List Notification}

theorem sound_init : ({} : GenerationTracker).Sound where
  counts := by simp
  allocationsSeen := by simp
  mappingsSeen := by simp
  allocationKeys := by simp
  mappingKeys := by simp
  bytes := by simp

theorem Sound.createAllocation (h : t.Sound) (generation : MemoryGeneration)
    (hkey : generation.key = .allocation generation.allocationId)
    (hnew : generation.allocationId ∉ t.seenAllocationIds) :
    Sound { t with
      seenAllocationIds := insert generation.allocationId t.seenAllocationIds
      liveAllocations := t.liveAllocations.insert generation.allocationId generation
      createdCount := t.createdCount + 1 } where
  counts := by
    have hcounts := h.counts
    have hsize := size_insert_new (a := generation) fun hin => hnew (h.allocationsSeen _ hin)
    simp only
    omega
  allocationsSeen := by
    intro id hid
    rcases mem_insert_iff.mp hid with rfl | hid
    · exact Finset.mem_insert_self ..
    · exact Finset.mem_insert_of_mem (h.allocationsSeen id hid)
  mappingsSeen := h.mappingsSeen
  allocationKeys := by
    intro id g hg
    obtain ⟨rfl, rfl⟩ | ⟨-, hg⟩ := getElem?_insert_cases hg
    · exact hkey
    · exact h.allocationKeys id g hg
  mappingKeys := h.mappingKeys
  bytes := h.bytes

theorem Sound.createMapping (h : t.Sound) (state : MappingState)
    (hkey : state.generation.key = .mapping state.generation.mappingId)
    (hnew : state.generation.mappingId ∉ t.seenMappingIds)
    (hbytes : state.generation.size = state.live.totalBytes) :
    Sound { t with
      seenMappingIds := insert state.generation.mappingId t.seenMappingIds
      liveMappings := t.liveMappings.insert state.generation.mappingId state
      createdCount := t.createdCount + 1 } where
  counts := by
    have hcounts := h.counts
    have hsize := size_insert_new (a := state) fun hin => hnew (h.mappingsSeen _ hin)
    simp only
    omega
  allocationsSeen := h.allocationsSeen
  mappingsSeen := by
    intro id hid
    rcases mem_insert_iff.mp hid with rfl | hid
    · exact Finset.mem_insert_self ..
    · exact Finset.mem_insert_of_mem (h.mappingsSeen id hid)
  allocationKeys := h.allocationKeys
  mappingKeys := by
    intro id m hm
    obtain ⟨rfl, rfl⟩ | ⟨-, hm⟩ := getElem?_insert_cases hm
    · exact hkey
    · exact h.mappingKeys id m hm
  bytes := by
    intro id m hm
    obtain ⟨rfl, rfl⟩ | ⟨-, hm⟩ := getElem?_insert_cases hm
    · exact hbytes
    · exact h.bytes id m hm

theorem Sound.endAllocation (h : t.Sound) {id : ℕ} {generation : MemoryGeneration}
    (hlive : t.liveAllocations[id]? = some generation) :
    Sound { t with
      liveAllocations := t.liveAllocations.erase id
      endedCount := t.endedCount + 1 } where
  counts := by
    have hcounts := h.counts
    have hsize := size_erase_live hlive
    simp only
    omega
  allocationsSeen := fun k hk => h.allocationsSeen k (mem_erase_iff.mp hk).2
  mappingsSeen := h.mappingsSeen
  allocationKeys := fun k g hg => h.allocationKeys k g (getElem?_erase_cases hg).2
  mappingKeys := h.mappingKeys
  bytes := h.bytes

theorem Sound.endMapping (h : t.Sound) {id : ℕ} {state : MappingState}
    (hlive : t.liveMappings[id]? = some state) :
    Sound { t with
      liveMappings := t.liveMappings.erase id
      endedCount := t.endedCount + 1 } where
  counts := by
    have hcounts := h.counts
    have hsize := size_erase_live hlive
    simp only
    omega
  allocationsSeen := h.allocationsSeen
  mappingsSeen := fun k hk => h.mappingsSeen k (mem_erase_iff.mp hk).2
  allocationKeys := h.allocationKeys
  mappingKeys := fun k m hm => h.mappingKeys k m (getElem?_erase_cases hm).2
  bytes := fun k m hm => h.bytes k m (getElem?_erase_cases hm).2

theorem Sound.resize (h : t.Sound) {id : ℕ} {state : MappingState}
    (hlive : t.liveMappings[id]? = some state) (live : IntervalSet Unit) :
    Sound { t with
      liveMappings := t.liveMappings.insert id
        ⟨{ state.generation with size := live.totalBytes }, live⟩ } where
  counts := by
    simp only [size_insert_live hlive]
    exact h.counts
  allocationsSeen := h.allocationsSeen
  mappingsSeen := by
    intro k hk
    rcases mem_insert_iff.mp hk with rfl | hk
    · exact h.mappingsSeen id (mem_of_getElem? hlive)
    · exact h.mappingsSeen k hk
  allocationKeys := h.allocationKeys
  mappingKeys := by
    intro k m hm
    obtain ⟨rfl, rfl⟩ | ⟨-, hm⟩ := getElem?_insert_cases hm
    · exact h.mappingKeys id state hlive
    · exact h.mappingKeys k m hm
  bytes := by
    intro k m hm
    obtain ⟨rfl, rfl⟩ | ⟨-, hm⟩ := getElem?_insert_cases hm
    · rfl
    · exact h.bytes k m hm

theorem Change.sound (hchange : Change Kept event t notes u) (h : t.Sound) : u.Sound := by
  induction hchange with
  | refl t => exact h
  | orphan t allocations mappings => exact ⟨⟨h.counts, h.allocationsSeen, h.mappingsSeen⟩,
      h.allocationKeys, h.mappingKeys, h.bytes⟩
  | createAllocation t generation hkey hid hnew => exact h.createAllocation generation hkey hnew
  | createMapping t state hkey hnew hbytes _ => exact h.createMapping state hkey hnew hbytes
  | endAllocation t id generation hlive _ => exact h.endAllocation hlive
  | endMapping t id state hlive _ => exact h.endMapping hlive
  | resize t id state hlive live _ _ _ => exact h.resize hlive live
  | trans _ _ ih ih' => exact ih' (ih h)

/-! ## The callbacks -/

theorem history_append (before after : List Notification) (key : GenerationKey) :
    history (before ++ after) key = history before key ++ history after key :=
  List.filter_append ..

theorem history_same (note : Notification) {key : GenerationKey}
    (h : note.generation.key = key) : history [note] key = [note] := by
  simp [history, h]

theorem history_other (note : Notification) {key : GenerationKey}
    (h : note.generation.key ≠ key) : history [note] key = [] := by
  simp [history, h]

theorem recorded_init : ({} : GenerationTracker).Recorded [] where
  unseen _ _ := rfl
  live key h := by cases key <;> simp [Live] at h
  dead key h := by cases key <;> simp [Seen] at h

/-- A new generation begins its history. -/
theorem Recorded.create (h : t.Recorded notes) {generation : MemoryGeneration}
    (hnew : ¬ t.Seen generation.key)
    (hseen : ∀ key, u.Seen key ↔ key = generation.key ∨ t.Seen key)
    (hlive : ∀ key, u.Live key ↔ key = generation.key ∨ t.Live key) :
    u.Recorded (notes ++ [.created generation]) where
  unseen := by
    intro key hkey
    have hkey := not_or.mp (mt (hseen key).mpr hkey)
    rw [history_append, h.unseen key hkey.2, history_other (.created generation) (Ne.symm hkey.1)]
    rfl
  live := by
    intro key hkey
    rw [history_append]
    by_cases hkeep : key = generation.key
    · have hself : history [.created generation] key = [.created generation] :=
        history_same _ hkeep.symm
      rw [hkeep, h.unseen _ hnew, ← hkeep, hself]
      exact ⟨generation, [], rfl, by simp⟩
    · rw [history_other (.created generation) (Ne.symm hkeep), List.append_nil]
      exact h.live key (((hlive key).mp hkey).resolve_left hkeep)
  dead := by
    intro key hkey hdead
    have hdead := not_or.mp (mt (hlive key).mpr hdead)
    rw [history_append, history_other (.created generation) (Ne.symm hdead.1),
      List.append_nil]
    exact h.dead key (((hseen key).mp hkey).resolve_left hdead.1) hdead.2

/-- A live generation ends its history. -/
theorem Recorded.finish (h : t.Recorded notes) {generation : MemoryGeneration}
    (hold : t.Live generation.key) (hseenOld : t.Seen generation.key) (reason : GenerationEndReason)
    (event : Event) (hseen : ∀ key, u.Seen key ↔ t.Seen key)
    (hlive : ∀ key, u.Live key ↔ key ≠ generation.key ∧ t.Live key) :
    u.Recorded (notes ++ [.ended generation reason event]) where
  unseen := by
    intro key hkey
    have hkey := mt (hseen key).mpr hkey
    have hne : generation.key ≠ key := fun heq => hkey (heq ▸ hseenOld)
    rw [history_append, h.unseen key hkey, history_other (.ended generation reason event) hne]
    rfl
  live := by
    intro key hkey
    obtain ⟨hne, hkey⟩ := (hlive key).mp hkey
    rw [history_append, history_other (.ended generation reason event) (Ne.symm hne),
      List.append_nil]
    exact h.live key hkey
  dead := by
    intro key hkey hdead
    rw [history_append]
    by_cases hkeep : key = generation.key
    · have hself : history [.ended generation reason event] key =
          [.ended generation reason event] := history_same _ hkeep.symm
      rw [hself]
      exact ⟨_, generation, reason, event, h.live _ (hkeep ▸ hold), rfl⟩
    · rw [history_other (.ended generation reason event) (Ne.symm hkeep), List.append_nil]
      exact h.dead key ((hseen key).mp hkey) fun hl => hdead ((hlive key).mpr ⟨hkeep, hl⟩)

/-- A live generation changes. -/
theorem Recorded.change (h : t.Recorded notes) {generation : MemoryGeneration}
    (hold : t.Live generation.key) (hseenOld : t.Seen generation.key) (event : Event)
    (hseen : ∀ key, u.Seen key ↔ t.Seen key) (hlive : ∀ key, u.Live key ↔ t.Live key) :
    u.Recorded (notes ++ [.changed generation event]) where
  unseen := by
    intro key hkey
    have hkey := mt (hseen key).mpr hkey
    have hne : generation.key ≠ key := fun heq => hkey (heq ▸ hseenOld)
    rw [history_append, h.unseen key hkey, history_other (.changed generation event) hne]
    rfl
  live := by
    intro key hkey
    have hkey := (hlive key).mp hkey
    rw [history_append]
    by_cases hkeep : key = generation.key
    · have hself : history [.changed generation event] key = [.changed generation event] :=
        history_same _ hkeep.symm
      rw [hself]
      obtain ⟨first, changes, heq, hchanges⟩ := h.live _ hkey
      refine ⟨first, changes ++ [.changed generation event], by rw [heq]; rfl, ?_⟩
      intro note hnote
      rcases List.mem_append.mp hnote with hnote | hnote
      · exact hchanges note hnote
      · rw [List.mem_singleton.mp hnote]
        trivial
    · rw [history_other (.changed generation event) (Ne.symm hkeep), List.append_nil]
      exact h.live key hkey
  dead := by
    intro key hkey hdead
    have hdead := mt (hlive key).mpr hdead
    have hne : generation.key ≠ key := fun heq => hdead (heq ▸ hold)
    rw [history_append, history_other (.changed generation event) hne, List.append_nil]
    exact h.dead key ((hseen key).mp hkey) hdead

/-- Nothing is said, and the generations stay. -/
theorem Recorded.silent (h : t.Recorded notes) (hseen : ∀ key, u.Seen key ↔ t.Seen key)
    (hlive : ∀ key, u.Live key ↔ t.Live key) : u.Recorded (notes ++ []) := by
  rw [List.append_nil]
  exact ⟨fun key hkey => h.unseen key (mt (hseen key).mpr hkey),
    fun key hkey => h.live key ((hlive key).mp hkey),
    fun key hkey hdead => h.dead key ((hseen key).mp hkey) (mt (hlive key).mpr hdead)⟩

theorem Sound.seen_of_live (h : t.Sound) {key : GenerationKey} (hlive : t.Live key) :
    t.Seen key := by
  cases key with
  | allocation id => exact h.allocationsSeen id hlive
  | mapping id => exact h.mappingsSeen id hlive

theorem seen_store {id : ℕ} (m : MappingState) (key : GenerationKey) :
    Seen { t with liveMappings := t.liveMappings.insert id m } key ↔ t.Seen key := by
  cases key <;> exact Iff.rfl

theorem live_store {id : ℕ} {state : MappingState} (hlive : t.liveMappings[id]? = some state)
    (m : MappingState) (key : GenerationKey) :
    Live { t with liveMappings := t.liveMappings.insert id m } key ↔ t.Live key := by
  cases key with
  | allocation k => exact Iff.rfl
  | mapping k =>
      change k ∈ t.liveMappings.insert id m ↔ k ∈ t.liveMappings
      rw [mem_insert_iff]
      constructor
      · rintro (rfl | hk)
        · exact mem_of_getElem? hlive
        · exact hk
      · exact .inr

theorem Change.recorded {old : List Notification} (hchange : Change Kept event t notes u) (h : t.Sound)
    (hrec : t.Recorded old) : u.Recorded (old ++ notes) := by
  induction hchange generalizing old with
  | refl t => exact hrec.silent (fun _ => Iff.rfl) fun _ => Iff.rfl
  | orphan t allocations mappings =>
      refine hrec.silent (fun key => ?_) fun key => ?_
      · cases key <;> exact Iff.rfl
      · cases key <;> exact Iff.rfl
  | createAllocation t generation hkey hid hnew =>
      refine hrec.create (by rw [hkey]; exact hnew) (fun key => ?_) fun key => ?_
      · cases key <;> simp [Seen, hkey]
      · cases key <;> simp only [Live, mem_insert_iff, hkey, GenerationKey.allocation.injEq,
          reduceCtorEq, false_or, eq_comm]
  | createMapping t state hkey hnew _ _ =>
      refine hrec.create (by rw [hkey]; exact hnew) (fun key => ?_) fun key => ?_
      · cases key <;> simp [Seen, hkey]
      · cases key <;> simp only [Live, mem_insert_iff, hkey, GenerationKey.mapping.injEq,
          reduceCtorEq, false_or, eq_comm]
  | endAllocation t id generation hlive reason =>
      have hkey := h.allocationKeys id generation hlive
      have hold : t.Live generation.key := by rw [hkey]; exact mem_of_getElem? hlive
      refine hrec.finish hold (h.seen_of_live hold) reason event (fun key => ?_) fun key => ?_
      · cases key <;> exact Iff.rfl
      · cases key <;> simp only [Live, mem_erase_iff, hkey, GenerationKey.allocation.injEq, ne_eq,
          reduceCtorEq, not_false_eq_true, true_and, eq_comm]
  | endMapping t id state hlive reason =>
      have hkey := h.mappingKeys id state hlive
      have hold : t.Live state.generation.key := by rw [hkey]; exact mem_of_getElem? hlive
      refine hrec.finish hold (h.seen_of_live hold) reason event (fun key => ?_) fun key => ?_
      · cases key <;> exact Iff.rfl
      · cases key <;> simp only [Live, mem_erase_iff, hkey, GenerationKey.mapping.injEq, ne_eq,
          reduceCtorEq, not_false_eq_true, true_and, eq_comm]
  | resize t id state hlive live _ notes hnotes =>
      have hkey : ({ state.generation with size := live.totalBytes } : MemoryGeneration).key =
          .mapping id := h.mappingKeys id state hlive
      have hold : t.Live ({ state.generation with size := live.totalBytes } :
          MemoryGeneration).key := by rw [hkey]; exact mem_of_getElem? hlive
      rcases hnotes with rfl | rfl
      · exact hrec.silent (seen_store _) (live_store hlive _)
      · exact hrec.change hold (h.seen_of_live hold) event (seen_store _) (live_store hlive _)
  | trans hfirst hsecond ih ih' =>
      rw [← List.append_assoc]
      exact ih' (hfirst.sound h) (ih h hrec)

/-! ## Every event is a change -/

section Observe

theorem checkedIncrement_eq_ok {value total : ℕ} {subject : String}
    (h : checkedIncrement value subject = .ok total) : total = value + 1 := by
  unfold checkedIncrement at h
  split at h
  · cases h
  · cases h
    rfl

theorem addAllocation_change {generation : MemoryGeneration}
    (hkey : generation.key = .allocation generation.allocationId)
    (hrun : t.addAllocation generation = .ok (u, notes)) : Change Kept event t notes u := by
  unfold addAllocation requireNewAllocationId at hrun
  simp only [bind_eq_ok, failIf_eq_ok] at hrun
  obtain ⟨-, ⟨-, hid, hnew⟩, -, -, total, htotal, heq⟩ := hrun
  obtain rfl := checkedIncrement_eq_ok htotal
  cases heq
  exact .createAllocation t generation hkey hid hnew

theorem addMapping_change {state : MappingState}
    (hkey : state.generation.key = .mapping state.generation.mappingId)
    (hbytes : state.generation.size = state.live.totalBytes)
    (hkept : state.generation.mappingId ∉ t.seenMappingIds → Kept state.live)
    (hrun : t.addMapping state = .ok (u, notes)) : Change Kept event t notes u := by
  unfold addMapping requireNewMappingId at hrun
  simp only [bind_eq_ok, failIf_eq_ok] at hrun
  obtain ⟨-, ⟨-, -, hnew⟩, -, -, total, htotal, heq⟩ := hrun
  obtain rfl := checkedIncrement_eq_ok htotal
  cases heq
  exact .createMapping t state hkey hnew hbytes (hkept hnew)

theorem eraseAllocation_change {id : ℕ} {generation : MemoryGeneration}
    {reason : GenerationEndReason} (hlive : t.liveAllocations[id]? = some generation)
    (hrun : t.eraseAllocation id generation reason event = .ok (u, notes)) :
    Change Kept event t notes u := by
  obtain ⟨total, htotal, heq⟩ := bind_eq_ok.mp hrun
  obtain rfl := checkedIncrement_eq_ok htotal
  cases heq
  exact .endAllocation t id generation hlive reason

theorem eraseMapping_change {id : ℕ} {state : MappingState} {reason : GenerationEndReason}
    (hlive : t.liveMappings[id]? = some state)
    (hrun : t.eraseMapping id state.generation reason event = .ok (u, notes)) :
    Change Kept event t notes u := by
  obtain ⟨total, htotal, heq⟩ := bind_eq_ok.mp hrun
  obtain rfl := checkedIncrement_eq_ok htotal
  cases heq
  exact .endMapping t id state hlive reason

theorem endAllocation_change {id address heapId : ℕ} {reason : GenerationEndReason}
    (hrun : t.endAllocation id address heapId reason event = .ok (u, notes)) :
    Change Kept event t notes u := by
  unfold endAllocation at hrun
  split at hrun
  · obtain ⟨total, -, heq⟩ := bind_eq_ok.mp hrun
    cases heq
    exact .orphan t total t.orphanedMappingEndCount
  · rename_i generation hlive
    rw [failIf_bind_eq_ok, failIf_bind_eq_ok] at hrun
    exact eraseAllocation_change hlive hrun.2.2

theorem orphanedMappingEnd_change (hrun : t.orphanedMappingEnd = .ok (u, notes)) :
    Change Kept event t notes u := by
  obtain ⟨total, -, heq⟩ := bind_eq_ok.mp hrun
  cases heq
  exact .orphan t t.orphanedAllocationEndCount total

theorem endMapping_change {id address : ℕ} {kind : GenerationKind} {reason : GenerationEndReason}
    (hrun : t.endMapping id address kind reason event = .ok (u, notes)) :
    Change Kept event t notes u := by
  unfold endMapping at hrun
  split at hrun
  · exact orphanedMappingEnd_change hrun
  · rename_i state hlive
    rw [failIf_bind_eq_ok, failIf_bind_eq_ok] at hrun
    exact eraseMapping_change hlive hrun.2.2

theorem endReallocated_change {reallocation : ReallocationEvent}
    (hrun : t.endReallocated event reallocation = .ok (u, notes)) : Change Kept event t notes u := by
  unfold endReallocated at hrun
  split at hrun
  · exact endAllocation_change hrun
  · cases hrun
    exact .refl t

theorem observeReallocation_change {reallocation : ReallocationEvent}
    (hrun : t.observeReallocation event reallocation = .ok (u, notes)) :
    Change Kept event t notes u := by
  unfold observeReallocation at hrun
  split at hrun
  · obtain ⟨-, -, hrun⟩ := bind_eq_ok.mp hrun
    obtain ⟨⟨mid, ended⟩, hend, hrun⟩ := bind_eq_ok.mp hrun
    obtain ⟨⟨final, created⟩, hadd, heq⟩ := bind_eq_ok.mp hrun
    cases heq
    exact (endReallocated_change hend).trans (addAllocation_change rfl hadd)
  · exact endReallocated_change hrun

/-- The entries a loop still has to visit are live, each under its own key. -/
structure Ahead (m : IdMap MemoryGeneration) (rest : List (ℕ × MemoryGeneration)) : Prop where
  live : ∀ entry ∈ rest, m[entry.1]? = some entry.2
  distinct : rest.Pairwise fun a b => a.1 ≠ b.1

theorem ahead_toList (m : IdMap MemoryGeneration) : Ahead m m.toList where
  live := by
    intro entry hentry
    exact Std.ExtTreeMap.mem_toList_iff_getElem?_eq_some.mp hentry
  distinct := by
    refine Std.ExtTreeMap.distinct_keys_toList.imp ?_
    intro a b hne heq
    exact hne (Nat.compare_eq_eq.mpr heq)

variable {m : IdMap MemoryGeneration} {entry : ℕ × MemoryGeneration}
  {rest : List (ℕ × MemoryGeneration)}

theorem Ahead.tail (h : Ahead m (entry :: rest)) : Ahead m rest :=
  ⟨fun e he => h.live e (List.mem_cons_of_mem _ he), (List.pairwise_cons.mp h.distinct).2⟩

/-- Erasing the visited entry leaves the others. -/
theorem Ahead.erase (h : Ahead m (entry :: rest)) : Ahead (m.erase entry.1) rest where
  live := by
    intro e he
    have hne : entry.1 ≠ e.1 := (List.pairwise_cons.mp h.distinct).1 e he
    simp only [Std.ExtTreeMap.getElem?_erase, Nat.compare_eq_eq, if_neg hne]
    exact h.tail.live e he
  distinct := h.tail.distinct

/-- One turn of `observe_heap_destroy`. -/
def destroyStep (event : Event) (heapId : ℕ) (run : GenerationTracker × List Notification)
    (entry : ℕ × MemoryGeneration) : Observed :=
  if entry.2.heapId ≠ heapId then .ok run
  else do
    let (t, ended) ← run.1.eraseAllocation entry.1 entry.2 .heapDestroyed event
    return (t, run.2 ++ ended)

theorem observeHeapDestroy_eq_fold (destroy : HeapDestroyEvent) :
    t.observeHeapDestroy event destroy =
      if heapDestroyEndsGenerations event.header destroy then
        t.liveAllocations.toList.foldlM (destroyStep event destroy.heapId) (t, [])
      else .ok (t, []) := rfl

theorem destroyFold_change {heapId : ℕ} {run : GenerationTracker × List Notification}
    (hahead : Ahead run.1.liveAllocations rest)
    (hchange : Change Kept event t run.2 run.1)
    (hrun : rest.foldlM (destroyStep event heapId) run = .ok (u, notes)) :
    Change Kept event t notes u := by
  induction rest generalizing run with
  | nil =>
      cases hrun
      exact hchange
  | cons entry rest ih =>
      rw [List.foldlM_cons, bind_eq_ok] at hrun
      obtain ⟨next, hstep, hrest⟩ := hrun
      unfold destroyStep at hstep
      split at hstep
      · cases hstep
        exact ih hahead.tail hchange hrest
      · obtain ⟨⟨mid, ended⟩, herase, heq⟩ := bind_eq_ok.mp hstep
        cases heq
        have hlive := hahead.live entry List.mem_cons_self
        refine ih ?_ (hchange.trans (eraseAllocation_change hlive herase)) hrest
        obtain ⟨total, -, heq⟩ := bind_eq_ok.mp herase
        cases heq
        exact hahead.erase

/-! ### Mappings -/

/-- The range a VmAllocate names: the mapping, or the result where none is given. -/
def updateBase (allocation : VmAllocateEvent) : ℕ :=
  if allocation.mappingBase = 0 then allocation.resultBase else allocation.mappingBase

def updateSize (allocation : VmAllocateEvent) : ℕ :=
  if allocation.mappingSize = 0 then allocation.resultSize else allocation.mappingSize

/-- An update of size zero at the base of the run that is all the mapping has left. -/
def CutsEverything (state : MappingState) (base : ℕ) : Prop :=
  state.generation.kind = .virtualAllocation ∧ state.generation.address ≤ base ∧
    ∃ fragment, state.live.find base = some fragment ∧ fragment.start = base ∧
      ∀ f ∈ state.live.frags, base ≤ f.start ∧
        f.stop ≤ state.live.runEnd (fun _ => true) fragment.stop

/-- The valid event names a size of zero, for a new mapping or for everything a live
one has left. -/
def EmptiesMapping (t : GenerationTracker) (event : Event) : Prop :=
  validateEvent event = .ok () ∧ callSucceeded event.header.status ∧
    match event.payload with
    | .map mapping =>
        mapping.mappingId ≠ 0 ∧ mapping.viewSize = 0 ∧ mapping.mappingId ∉ t.seenMappingIds
    | .vmAllocate allocation =>
        allocation.mappingId ≠ 0 ∧ updateSize allocation = 0 ∧
          match t.liveMappings[allocation.mappingId]? with
          | none => allocation.mappingId ∉ t.seenMappingIds
          | some state => CutsEverything state (updateBase allocation)
    | _ => False

/-- A new range is all the fragments there are. -/
theorem totalBytes_insert_empty (base size : ℕ) :
    (IntervalSet.empty.insert base (base + size) () : IntervalSet Unit × _).1.totalBytes = size := by
  unfold IntervalSet.totalBytes
  rcases Nat.eq_zero_or_pos size with rfl | hpos
  · simp [IntervalSet.insert, IntervalSet.empty]
  · rw [IntervalSet.insert_frags _ (by omega)]
    simp [IntervalSet.empty, place, Fragment.size]

theorem insert_empty_frags_ne_nil {base size : ℕ} :
    (IntervalSet.empty.insert base (base + size) () : IntervalSet Unit × _).1.frags ≠ [] ↔
      size ≠ 0 := by
  rcases Nat.eq_zero_or_pos size with rfl | hpos
  · simp [IntervalSet.insert, IntervalSet.empty]
  · rw [IntervalSet.insert_frags _ (by omega)]
    simp [IntervalSet.empty, place, hpos.ne']

/-- A resize leaves fragments unless it cuts the whole run and there is no more. -/
theorem resizeLive_ne_nil {live : IntervalSet Unit} {fragment : Fragment Unit} {size : ℕ}
    (hfragment : fragment ∈ live.frags) :
    (resizeLive live fragment fragment.start size).frags ≠ [] ↔
      ¬ (size = 0 ∧ ∀ f ∈ live.frags, fragment.start ≤ f.start ∧
        f.stop ≤ live.runEnd (fun _ => true) fragment.stop) := by
  have hne := live.layout.nonempty fragment hfragment
  unfold resizeLive
  simp only
  generalize hrun : live.runEnd (fun _ => true) fragment.stop = runEnd
  have hle : fragment.stop ≤ runEnd := by
    rw [← hrun, IntervalSet.runEnd_eq, List.filter_eq_self.mpr (by simp)]
    exact (live.layout.isRun hfragment).le
  split
  · rename_i hgrow
    rw [IntervalSet.insert_frags _ (by omega)]
    have hplaced : (⟨runEnd, fragment.start + size, ()⟩ : Fragment Unit) ∈
        place ⟨runEnd, fragment.start + size, ()⟩
          (cutAll runEnd (fragment.start + size) live.frags) := mem_place.mpr (.inl rfl)
    exact ⟨fun _ hcut => by omega, fun _ hnil => by rw [hnil] at hplaced; cases hplaced⟩
  · split
    · rw [IntervalSet.subtract_frags, Ne, cutAll_eq_nil live.layout]
      refine not_congr ⟨fun hall => ?_, fun hall => ?_⟩
      · obtain rfl : size = 0 := by
          have := (hall fragment hfragment).1
          omega
        exact ⟨rfl, fun f hf => by simpa using hall f hf⟩
      · obtain ⟨rfl, hall⟩ := hall
        simpa using hall
    · rename_i hgrow hshrink
      refine ⟨fun _ hcut => ?_, fun _ => List.ne_nil_of_mem hfragment⟩
      have := hcut.1
      omega

theorem updateMapping_change {id : ℕ} {state : MappingState} {live : IntervalSet Unit}
    (hlive : t.liveMappings[id]? = some state) (hkept : Kept live)
    (hrun : t.updateMapping id state live event = .ok (u, notes)) : Change Kept event t notes u := by
  unfold updateMapping at hrun
  simp only at hrun
  split at hrun
  · cases hrun
    exact .resize t id state hlive live hkept _ (.inr rfl)
  · rename_i hsame
    have hsame : live.totalBytes = state.generation.size := not_not.mp hsame
    have hgeneration : state.generation = { state.generation with size := live.totalBytes } := by
      rw [hsame]
    cases hrun
    have hresize : Change Kept event t [] _ :=
      .resize t id state hlive live hkept [] (.inl rfl)
    rwa [← hgeneration] at hresize

theorem observeVmUpdate_change {id base size : ℕ} {state : MappingState}
    (hlive : t.liveMappings[id]? = some state)
    (hkept : ∀ live : IntervalSet Unit,
      (live.frags ≠ [] ∨ (size = 0 ∧ CutsEverything state base)) → Kept live)
    (hrun : t.observeVmUpdate event id state base size = .ok (u, notes)) :
    Change Kept event t notes u := by
  unfold observeVmUpdate at hrun
  obtain ⟨hmatch, hrun⟩ := failIf_bind_eq_ok.mp hrun
  obtain ⟨hkind, haddress⟩ := not_or.mp hmatch
  cases hfind : state.live.find base with
  | none => rw [hfind] at hrun; cases hrun
  | some fragment =>
      rw [hfind] at hrun
      simp only at hrun
      have hfragment := (IntervalSet.find_eq_some.mp hfind).1
      split at hrun
      · rename_i hstart
        refine updateMapping_change hlive (hkept _ ?_) hrun
        by_cases hcut : size = 0 ∧ ∀ f ∈ state.live.frags, fragment.start ≤ f.start ∧
            f.stop ≤ state.live.runEnd (fun _ => true) fragment.stop
        · refine .inr ⟨hcut.1, not_not.mp hkind, by omega, fragment, hfind, hstart, ?_⟩
          rw [← hstart]
          exact hcut.2
        · left
          rw [← hstart]
          exact (resizeLive_ne_nil hfragment).mpr hcut
      · rw [failIf_bind_eq_ok] at hrun
        exact updateMapping_change hlive (hkept _ (.inl (List.ne_nil_of_mem hfragment))) hrun.2

theorem observeVmAllocate_change {allocation : VmAllocateEvent}
    (hvalid : validateEvent event = .ok ()) (hpayload : event.payload = .vmAllocate allocation)
    (hrun : t.observeVmAllocate event allocation = .ok (u, notes)) :
    Change (fun live => live.frags ≠ [] ∨ t.EmptiesMapping event) event t notes u := by
  unfold observeVmAllocate at hrun
  split at hrun
  · rename_i hcall
    obtain ⟨-, hrun⟩ := failIf_bind_eq_ok.mp hrun
    cases hstate : t.liveMappings[allocation.mappingId]? with
    | none =>
        rw [hstate] at hrun
        refine addMapping_change rfl (totalBytes_insert_empty _ _).symm (fun hnew => ?_) hrun
        by_cases hsize : updateSize allocation = 0
        · right
          unfold EmptiesMapping
          rw [hpayload]
          simp only [hstate]
          exact ⟨hvalid, hcall.1, hcall.2, hsize, hnew⟩
        · exact .inl (insert_empty_frags_ne_nil.mpr hsize)
    | some state =>
        rw [hstate] at hrun
        refine observeVmUpdate_change hstate (fun live hlive => ?_) hrun
        rcases hlive with hlive | ⟨hsize, hcut⟩
        · exact .inl hlive
        · right
          unfold EmptiesMapping
          rw [hpayload]
          simp only [hstate]
          exact ⟨hvalid, hcall.1, hcall.2, hsize, hcut⟩
  · cases hrun
    exact .refl t

theorem observeMap_change {mapping : MapEvent} (hvalid : validateEvent event = .ok ())
    (hpayload : event.payload = .map mapping)
    (hrun : t.observeMap event mapping = .ok (u, notes)) :
    Change (fun live => live.frags ≠ [] ∨ t.EmptiesMapping event) event t notes u := by
  unfold observeMap at hrun
  split at hrun
  · rename_i hcall
    obtain ⟨-, hrun⟩ := failIf_bind_eq_ok.mp hrun
    refine addMapping_change rfl (totalBytes_insert_empty _ _).symm (fun hnew => ?_) hrun
    by_cases hsize : mapping.viewSize = 0
    · right
      unfold EmptiesMapping
      rw [hpayload]
      exact ⟨hvalid, hcall.1, hcall.2, hsize, hnew⟩
    · exact .inl (insert_empty_frags_ne_nil.mpr hsize)
  · cases hrun
    exact .refl t

theorem observeRangedFree_change {free : VmFreeEvent} {state : MappingState}
    (hlive : t.liveMappings[free.mappingId]? = some state)
    (hkept : ∀ live : IntervalSet Unit, live.frags ≠ [] → Kept live)
    (hrun : t.observeRangedFree event free state = .ok (u, notes)) : Change Kept event t notes u := by
  unfold observeRangedFree at hrun
  obtain ⟨-, hrun⟩ := failIf_bind_eq_ok.mp hrun
  simp only at hrun
  obtain ⟨-, hrun⟩ := failIf_bind_eq_ok.mp hrun
  split at hrun
  · exact eraseMapping_change hlive hrun
  · rename_i hempty
    cases hrun
    refine .resize t free.mappingId state hlive _ (hkept _ ?_) _ (.inr rfl)
    intro hnil
    exact hempty (List.isEmpty_iff.mpr hnil)

theorem observeVmFree_change {free : VmFreeEvent}
    (hkept : ∀ live : IntervalSet Unit, live.frags ≠ [] → Kept live)
    (hrun : t.observeVmFree event free = .ok (u, notes)) : Change Kept event t notes u := by
  unfold observeVmFree at hrun
  split at hrun
  · split at hrun
    · exact orphanedMappingEnd_change hrun
    · rename_i state hlive
      split at hrun
      · exact eraseMapping_change hlive (failIf_bind_eq_ok.mp hrun).2
      · exact observeRangedFree_change hlive hkept hrun
  · cases hrun
    exact .refl t

/-- An accepted event is a change, and stores no empty set of fragments unless it
says so itself. -/
theorem observe_change (hrun : t.observe event = .ok (u, notes)) :
    Change (fun live => live.frags ≠ [] ∨ t.EmptiesMapping event) event t notes u := by
  unfold observe at hrun
  obtain ⟨⟨⟩, hvalid, hrun⟩ := bind_eq_ok.mp hrun
  unfold dispatch at hrun
  cases hpayload : event.payload with
  | heapCreate payload =>
      rw [hpayload] at hrun
      cases hrun
      exact .refl t
  | heapDestroy payload =>
      rw [hpayload] at hrun
      change t.observeHeapDestroy event payload = _ at hrun
      rw [observeHeapDestroy_eq_fold] at hrun
      split at hrun
      · exact destroyFold_change (ahead_toList _) (.refl t) hrun
      · cases hrun
        exact .refl t
  | allocation payload =>
      rw [hpayload] at hrun
      change t.observeAllocation event payload = _ at hrun
      unfold observeAllocation at hrun
      split at hrun
      · exact addAllocation_change rfl hrun
      · cases hrun
        exact .refl t
  | reallocation payload =>
      rw [hpayload] at hrun
      exact observeReallocation_change hrun
  | free payload =>
      rw [hpayload] at hrun
      change t.observeFree event payload = _ at hrun
      unfold observeFree at hrun
      split at hrun
      · exact endAllocation_change hrun
      · cases hrun
        exact .refl t
  | vmAllocate payload =>
      rw [hpayload] at hrun
      exact observeVmAllocate_change hvalid hpayload hrun
  | vmFree payload =>
      rw [hpayload] at hrun
      exact observeVmFree_change (fun _ => .inl) hrun
  | map payload =>
      rw [hpayload] at hrun
      exact observeMap_change hvalid hpayload hrun
  | unmap payload =>
      rw [hpayload] at hrun
      change t.observeUnmap event payload = _ at hrun
      unfold observeUnmap at hrun
      split at hrun
      · exact endMapping_change hrun
      · cases hrun
        exact .refl t

end Observe

end GenerationTracker

end Noleax.Analyzer
