import Noleax.Analyzer.Outstanding
import Noleax.Analyzer.StackTotals
import Noleax.Analyzer.StreamOrder
import Noleax.Analyzer.TrackerNotes

/-!
# The candidates of an outstanding analysis (`src/analyzer/outstanding.cpp`)

While the events are at or before `c`, the candidates are the generations of the window that
the tracker holds; after `c` they stay as they are, and those created later are added.
-/

namespace Noleax.Analyzer

open Lib Trace

/-! ## What the windows select -/

/-- The event is not after the bound. -/
def WindowBound.Covers (bound : WindowBound) (header : FileHeader) (event : Event) : Prop :=
  (∀ time ∈ bound.time, elapsed event.header.monotonicTicks header ≤ (time : ℚ)) ∧
    ∀ sequence ∈ bound.sequence, event.header.sequence ≤ sequence

instance (bound : WindowBound) (header : FileHeader) (event : Event) :
    Decidable (bound.Covers header event) :=
  inferInstanceAs (Decidable (_ ∧ _))

/-- The window `[a, b)`. -/
def OutstandingWindow.Creates (window : OutstandingWindow) (header : FileHeader)
    (event : Event) : Prop :=
  window.a.Reached header event ∧ ∀ bound ∈ window.b, bound.Ahead header event

/-- At or before `c`. -/
def OutstandingWindow.Observes (window : OutstandingWindow) (header : FileHeader)
    (event : Event) : Prop :=
  ∀ bound ∈ window.c, bound.Covers header event

instance (window : OutstandingWindow) (header : FileHeader) (event : Event) :
    Decidable (window.Creates header event) :=
  inferInstanceAs (Decidable (_ ∧ _))

instance (window : OutstandingWindow) (header : FileHeader) (event : Event) :
    Decidable (window.Observes header event) :=
  inferInstanceAs (Decidable (∀ bound ∈ window.c, bound.Covers header event))

section Selection

variable {window : OutstandingWindow} {header : FileHeader} {event : Event} {bound : WindowBound}

theorem windowAtOrBefore_eq (hfrequency : 0 < header.monotonicFrequency)
    (horigin : header.monotonicOrigin ≤ event.header.monotonicTicks)
    (htime : ∀ time ∈ bound.time, 0 ≤ time) :
    windowAtOrBefore bound header event = .ok (decide (bound.Covers header event)) := by
  have hholds : (∀ time ∈ bound.time, decide (Ord.compare
      (elapsed event.header.monotonicTicks header) (time : ℚ) ≠ .gt) = true) ↔
      ∀ time ∈ bound.time, elapsed event.header.monotonicTicks header ≤ (time : ℚ) := by
    simp only [decide_eq_true_eq, Ne, compare_gt_iff_gt, not_lt]
  have hsequence : bound.sequenceHolds (event.header.sequence ≤ ·) =
      decide (∀ sequence ∈ bound.sequence, event.header.sequence ≤ sequence) := by
    unfold WindowBound.sequenceHolds
    cases bound.sequence <;> simp
  unfold windowAtOrBefore
  rw [timeHolds_eq hfrequency horigin htime, ok_bind, hsequence]
  exact both_eq.trans (congrArg _ (decide_eq_decide.mpr (and_congr_left' hholds)))

/-- No bound of the window has a negative time. -/
structure OutstandingWindow.Positive (window : OutstandingWindow) : Prop where
  a : ∀ time ∈ window.a.time, 0 ≤ time
  b : ∀ bound ∈ window.b, ∀ time ∈ bound.time, 0 ≤ time
  c : ∀ bound ∈ window.c, ∀ time ∈ bound.time, 0 ≤ time

theorem positive_of_validate (h : window.validate = .ok ()) : window.Positive := by
  obtain ⟨hnegative, -⟩ := failIf_bind_eq_ok.mp h
  constructor
  · intro time htime
    exact Int.not_lt.mp fun hlt => hnegative (.inl ⟨time, htime, hlt⟩)
  · intro bound hbound time htime
    exact Int.not_lt.mp fun hlt => hnegative (.inr (.inl ⟨bound, hbound, time, htime, hlt⟩))
  · intro bound hbound time htime
    exact Int.not_lt.mp fun hlt => hnegative (.inr (.inr ⟨bound, hbound, time, htime, hlt⟩))

theorem creates_eq (hfrequency : 0 < header.monotonicFrequency)
    (horigin : header.monotonicOrigin ≤ event.header.monotonicTicks)
    (hwindow : window.Positive) :
    window.creates header event = .ok (decide (window.Creates header event)) := by
  unfold OutstandingWindow.creates
  rw [windowAtOrAfter_eq hfrequency horigin hwindow.a, ok_bind]
  by_cases hreached : window.a.Reached header event
  · rw [if_neg (by simp [hreached])]
    cases hb : window.b with
    | none => simp [OutstandingWindow.Creates, hreached, hb]
    | some bound =>
        show windowBefore bound header event = _
        rw [windowBefore_eq hfrequency horigin (hwindow.b bound hb)]
        simp [OutstandingWindow.Creates, hreached, hb]
  · simp [OutstandingWindow.Creates, hreached]

theorem covers_of_empty (header : FileHeader) (event : Event)
    (h : windowBoundEmpty bound = true) : bound.Covers header event := by
  unfold windowBoundEmpty at h
  rw [Bool.and_eq_true, decide_eq_true_eq, decide_eq_true_eq] at h
  unfold WindowBound.Covers
  rw [h.1, h.2]
  simp

theorem observes_eq (hfrequency : 0 < header.monotonicFrequency)
    (horigin : header.monotonicOrigin ≤ event.header.monotonicTicks)
    (hwindow : window.Positive) :
    window.observes header event = .ok (decide (window.Observes header event)) := by
  unfold OutstandingWindow.observes
  cases hc : window.c with
  | none => simp [OutstandingWindow.Observes, hc]
  | some bound =>
      show (if windowBoundEmpty bound then _ else _) = _
      by_cases hempty : windowBoundEmpty bound
      · have hcovers := covers_of_empty header event hempty
        rw [if_pos hempty]
        simp [OutstandingWindow.Observes, hc, hcovers]
      · rw [if_neg hempty, windowAtOrBefore_eq hfrequency horigin (hwindow.c bound hc)]
        simp [OutstandingWindow.Observes, hc]

/-- An event that is followed by one at or before `c` is so too. -/
theorem Follows.observes {later : Event} (h : Follows event later)
    (hfrequency : 0 < header.monotonicFrequency) (hlater : window.Observes header later) :
    window.Observes header event := by
  intro bound hbound
  obtain ⟨htime, hsequence⟩ := hlater bound hbound
  constructor
  · intro time hmem
    refine le_trans ?_ (htime time hmem)
    unfold elapsed
    have hticks : (event.header.monotonicTicks : ℚ) ≤ later.header.monotonicTicks := by
      exact_mod_cast h.ticks
    gcongr
  · intro sequence hmem
    exact h.sequence.le.trans (hsequence sequence hmem)

end Selection

/-! ## The collector -/

/-- The generations that were created by chosen events, in their order. -/
def createdIn (chosen : Event → Prop) [DecidablePred chosen] (notes : List Notification) :
    List MemoryGeneration :=
  (born notes).filter fun generation => chosen generation.createdBy

namespace OutstandingCollector

/-- The number that a key is kept with. -/
def indexed (collector : OutstandingCollector) : GenerationKey → Option ℕ :=
  byKey id collector.allocationCandidates collector.mappingCandidates

variable {window : OutstandingWindow} {header : FileHeader} {event : Event}
  {collector : OutstandingCollector} {generation : MemoryGeneration} {number : ℕ}

theorem candidateOf_eq (collector : OutstandingCollector) (generation : MemoryGeneration) :
    collector.candidateOf generation = collector.indexed generation.key := by
  unfold candidateOf indexed MemoryGeneration.key
  by_cases hkind : generation.kind = .heapAllocation
  · rw [if_pos hkind, if_pos hkind]
    rfl
  · rw [if_neg hkind, if_neg hkind]
    show _ = Option.map id _
    rw [Option.map_id]
    rfl

/-- What no callback changes. -/
structure SameSource (collector next : OutstandingCollector) : Prop where
  fileHeader : next.fileHeader = collector.fileHeader
  tracker : next.tracker = collector.tracker

theorem sameSource_refl (collector : OutstandingCollector) : SameSource collector collector :=
  ⟨rfl, rfl⟩

theorem SameSource.trans {next last : OutstandingCollector} (h : SameSource collector next)
    (hlast : SameSource next last) : SameSource collector last :=
  ⟨hlast.fileHeader.trans h.fileHeader, hlast.tracker.trans h.tracker⟩

theorem increment_eq_ok {value : ℕ} {message : String} (h : value < maxU64) :
    OutstandingError.increment value message = .ok (value + 1) := if_neg (by omega)

/-- A candidate of a new key. -/
structure Added (collector : OutstandingCollector) (generation : MemoryGeneration)
    (next : OutstandingCollector) : Prop extends SameSource collector next where
  candidates : next.candidates =
    collector.candidates ++ [(collector.candidateCount + 1, generation)]
  indexed : next.indexed = Function.update collector.indexed generation.key
    (some (collector.candidateCount + 1))
  count : next.candidateCount = collector.candidateCount + 1
  ended : next.endedByCCount = collector.endedByCCount

theorem addCandidate_ok (hroom : collector.candidateCount < maxU64)
    (hnew : collector.indexed generation.key = none) :
    ∃ next, collector.addCandidate generation = .ok next ∧ Added collector generation next := by
  unfold addCandidate
  rw [increment_eq_ok hroom, ok_bind]
  by_cases hkind : generation.kind = .heapAllocation
  · have hkey : generation.key = .allocation generation.allocationId := if_pos hkind
    rw [hkey] at hnew
    have habsent : generation.allocationId ∉ collector.allocationCandidates := by
      rw [Std.ExtTreeMap.mem_iff_isSome_getElem?]
      show ¬(collector.indexed (.allocation generation.allocationId)).isSome = true
      rw [hnew]
      simp
    dsimp only
    rw [if_pos hkind, failIf_of_not habsent, ok_bind]
    refine ⟨_, rfl, ⟨rfl, rfl⟩, rfl, ?_, rfl, rfl⟩
    rw [hkey]
    exact byKey_insertAllocation _ _ _ _ _
  · have hkey : generation.key = .mapping generation.mappingId := if_neg hkind
    rw [hkey] at hnew
    have habsent : generation.mappingId ∉ collector.mappingCandidates := by
      rw [Std.ExtTreeMap.mem_iff_isSome_getElem?, ← Option.isSome_map (f := id)]
      show ¬(collector.indexed (.mapping generation.mappingId)).isSome = true
      rw [hnew]
      simp
    dsimp only
    rw [if_neg hkind, failIf_of_not habsent, ok_bind]
    refine ⟨_, rfl, ⟨rfl, rfl⟩, rfl, ?_, rfl, rfl⟩
    rw [hkey]
    exact byKey_insertMapping _ _ _ _ _

/-- The candidate of the number is gone. -/
structure Evicted (collector : OutstandingCollector) (generation : MemoryGeneration)
    (number : ℕ) (next : OutstandingCollector) : Prop extends SameSource collector next where
  candidates : next.candidates =
    collector.candidates.filter fun candidate => candidate.1 ≠ number
  indexed : next.indexed = Function.update collector.indexed generation.key none
  count : next.candidateCount = collector.candidateCount
  ended : next.endedByCCount = collector.endedByCCount + 1

theorem evict_ok (generation : MemoryGeneration) (number : ℕ)
    (hroom : collector.endedByCCount < maxU64) :
    ∃ next, collector.evict generation number = .ok next ∧
      Evicted collector generation number next := by
  unfold evict
  dsimp only
  by_cases hkind : generation.kind = .heapAllocation
  · have hkey : generation.key = .allocation generation.allocationId := if_pos hkind
    rw [if_pos hkind, increment_eq_ok hroom, ok_bind]
    refine ⟨_, rfl, ⟨rfl, rfl⟩, rfl, ?_, rfl, rfl⟩
    rw [hkey]
    exact byKey_eraseAllocation _ _ _ _
  · have hkey : generation.key = .mapping generation.mappingId := if_neg hkind
    rw [if_neg hkind, increment_eq_ok hroom, ok_bind]
    refine ⟨_, rfl, ⟨rfl, rfl⟩, rfl, ?_, rfl, rfl⟩
    rw [hkey]
    exact byKey_eraseMapping _ _ _ _

/-! ### One callback -/

theorem observeCreated_eq {creates : Bool} (hheader : collector.fileHeader = some header)
    (hcreates : window.creates header generation.createdBy = .ok creates) :
    observeCreated window collector generation =
      if creates then collector.addCandidate generation else .ok collector := by
  unfold observeCreated requireFileHeader
  rw [hheader]
  show ((window.creates header generation.createdBy).mapError OutstandingError.time >>=
    fun _ => _) = _
  rw [hcreates]
  cases creates <;> rfl

theorem observeEnded_none (hheader : collector.fileHeader = some header)
    (hindexed : collector.indexed generation.key = none) :
    observeEnded window collector generation event = .ok collector := by
  unfold observeEnded requireFileHeader
  rw [hheader, candidateOf_eq, hindexed]
  rfl

theorem observeEnded_some {observed : Bool} (hheader : collector.fileHeader = some header)
    (hindexed : collector.indexed generation.key = some number)
    (hobserves : window.observes header event = .ok observed) :
    observeEnded window collector generation event =
      if observed then collector.evict generation number else .ok collector := by
  unfold observeEnded requireFileHeader
  rw [hheader, candidateOf_eq, hindexed]
  show ((window.observes header event).mapError OutstandingError.time >>= fun _ => _) = _
  rw [hobserves]
  cases observed <;> rfl

theorem mappingCandidate_eq (hkind : generation.kind ≠ .heapAllocation) :
    collector.mappingCandidates[generation.mappingId]? = collector.indexed generation.key := by
  have hcandidate := candidateOf_eq collector generation
  unfold candidateOf at hcandidate
  rwa [if_neg hkind] at hcandidate

theorem observeChanged_none (generation : MemoryGeneration)
    (hheader : collector.fileHeader = some header)
    (hkind : generation.kind ≠ .heapAllocation)
    (hindexed : collector.indexed generation.key = none) :
    observeChanged window collector generation event = .ok collector := by
  unfold observeChanged requireFileHeader
  rw [hheader, mappingCandidate_eq hkind, hindexed]
  rfl

theorem observeChanged_some (generation : MemoryGeneration) {observed : Bool}
    (hheader : collector.fileHeader = some header) (hkind : generation.kind ≠ .heapAllocation)
    (hindexed : collector.indexed generation.key = some number)
    (hobserves : window.observes header event = .ok observed) :
    observeChanged window collector generation event =
      .ok (if observed then collector.resize number generation.size else collector) := by
  unfold observeChanged requireFileHeader
  rw [hheader, mappingCandidate_eq hkind, hindexed]
  show ((window.observes header event).mapError OutstandingError.time >>= fun _ => _) = _
  rw [hobserves]
  cases observed <;> rfl

/-! ### While the events are observed -/

section Collected

variable {chosen : Event → Prop} [DecidablePred chosen] {s : Told} {notes : List Notification}

theorem createdIn_append (notes more : List Notification) :
    createdIn chosen (notes ++ more) = createdIn chosen notes ++ createdIn chosen more := by
  unfold createdIn born
  rw [List.filterMap_append, List.filter_append]

theorem createdIn_created (generation : MemoryGeneration) :
    createdIn chosen [.created generation] =
      if chosen generation.createdBy then [generation] else [] := by
  show [generation].filter _ = _
  rw [List.filter_singleton, Bool.cond_decide]

/-- The keys of what has been told. -/
structure Keyed (s : Told) : Prop where
  key : ∀ key generation, s.held key = some generation → generation.key = key
  seen : ∀ key generation, s.held key = some generation → key ∈ s.seen

/-- The candidates are the chosen generations that are live, as they are. -/
structure Collected (chosen : Event → Prop) [DecidablePred chosen] (notes : List Notification)
    (s : Told) (collector : OutstandingCollector) : Prop where
  listed : collector.candidates.map Prod.snd =
    (createdIn chosen notes).filterMap fun generation => s.held generation.key
  count : collector.candidateCount = (createdIn chosen notes).length
  ended : collector.endedByCCount + collector.candidates.length = collector.candidateCount
  numbers : (collector.candidates.map Prod.fst).Nodup
  fresh : ∀ candidate ∈ collector.candidates, candidate.1 ≤ collector.candidateCount
  indexed : ∀ candidate ∈ collector.candidates,
    collector.indexed candidate.2.key = some candidate.1
  stored : ∀ key number, collector.indexed key = some number →
    ∃ generation, (number, generation) ∈ collector.candidates ∧ generation.key = key
  seen : ∀ generation ∈ createdIn chosen notes, generation.key ∈ s.seen

namespace Collected

/-- What is listed is held. -/
theorem held (h : Collected chosen notes s collector) (hkeyed : Keyed s)
    {candidate : ℕ × MemoryGeneration} (hmem : candidate ∈ collector.candidates) :
    s.held candidate.2.key = some candidate.2 := by
  have hlisted : candidate.2 ∈ collector.candidates.map Prod.snd := List.mem_map_of_mem hmem
  rw [h.listed, List.mem_filterMap] at hlisted
  obtain ⟨generation, -, hheld⟩ := hlisted
  rw [hkeyed.key _ _ hheld]
  exact hheld

/-- A key that is kept has been seen. -/
theorem unseen (h : Collected chosen notes s collector) (hkeyed : Keyed s) {key : GenerationKey}
    (hnew : key ∉ s.seen) : collector.indexed key = none := by
  cases hindexed : collector.indexed key with
  | none => rfl
  | some number =>
      obtain ⟨generation, hmem, rfl⟩ := h.stored key number hindexed
      exact absurd (hkeyed.seen _ _ (h.held hkeyed hmem)) hnew

/-- A number names the candidate of one key. -/
theorem number_iff (h : Collected chosen notes s collector) {key : GenerationKey}
    (hindexed : collector.indexed key = some number) {candidate : ℕ × MemoryGeneration}
    (hmem : candidate ∈ collector.candidates) : candidate.1 = number ↔ candidate.2.key = key := by
  constructor
  · intro heq
    obtain ⟨generation, hstored, hkey⟩ := h.stored key number hindexed
    have hsame : candidate = (number, generation) := List.inj_on_of_nodup_map h.numbers hmem
      hstored heq
    rw [hsame]
    exact hkey
  · rintro rfl
    have hnumber := h.indexed candidate hmem
    rw [hindexed] at hnumber
    exact (Option.some.inj hnumber).symm

/-- A generation of a new key leaves the others as they were. -/
theorem filterMap_created (h : Collected chosen notes s collector)
    (hnew : generation.key ∉ s.seen) :
    ((createdIn chosen notes).filterMap fun other =>
      (s.hear (.created generation)).held other.key) =
      (createdIn chosen notes).filterMap fun other => s.held other.key := by
  refine List.filterMap_congr ?_
  intro other hother
  refine Function.update_of_ne ?_ _ _
  intro heq
  have hkey : other.key = generation.key := heq
  exact hnew (hkey ▸ h.seen other hother)

theorem created (h : Collected chosen notes s collector) (hkeyed : Keyed s)
    (hroom : collector.candidateCount < maxU64) (hheader : collector.fileHeader = some header)
    (hnew : generation.key ∉ s.seen)
    (hchosen : window.creates header generation.createdBy =
      .ok (decide (chosen generation.createdBy))) :
    ∃ next, observeNotification window collector (.created generation) = .ok next ∧
      SameSource collector next ∧
      Collected chosen (notes ++ [.created generation]) (s.hear (.created generation)) next := by
  have hseen : ∀ other ∈ createdIn chosen notes,
      other.key ∈ (s.hear (.created generation)).seen :=
    fun other hother => .inr (h.seen other hother)
  show ∃ next, observeCreated window collector generation = .ok next ∧ _
  rw [observeCreated_eq hheader hchosen]
  by_cases hin : chosen generation.createdBy
  · have hcreated : createdIn chosen (notes ++ [.created generation]) =
        createdIn chosen notes ++ [generation] := by
      rw [createdIn_append, createdIn_created, if_pos hin]
    obtain ⟨next, hadd, hnext⟩ := addCandidate_ok hroom (h.unseen hkeyed hnew)
    have hkeys : ∀ candidate ∈ collector.candidates, candidate.2.key ≠ generation.key := by
      intro candidate hmem heq
      exact hnew (heq ▸ hkeyed.seen _ _ (h.held hkeyed hmem))
    refine ⟨next, ?_, hnext.toSameSource, ?_⟩
    · rw [decide_eq_true hin]
      exact hadd
    · constructor
      · rw [hnext.candidates, hcreated, List.map_append, List.filterMap_append,
          h.filterMap_created hnew, h.listed]
        simp [Told.hear, Notification.generation, Notification.left]
      · rw [hnext.count, hcreated, List.length_append, h.count]
        rfl
      · have hended := h.ended
        rw [hnext.ended, hnext.candidates, hnext.count, List.length_append, List.length_singleton]
        omega
      · rw [hnext.candidates, List.map_append]
        refine List.nodup_append.mpr ⟨h.numbers, List.nodup_singleton _, ?_⟩
        intro number hnumber other hother
        obtain ⟨candidate, hmem, rfl⟩ := List.mem_map.mp hnumber
        have hfresh := h.fresh candidate hmem
        rw [List.map_singleton, List.mem_singleton] at hother
        dsimp only at hother
        omega
      · intro candidate hmem
        rw [hnext.candidates, List.mem_append, List.mem_singleton] at hmem
        rw [hnext.count]
        rcases hmem with hold | rfl
        · have hfresh := h.fresh candidate hold
          omega
        · exact Nat.le_refl _
      · intro candidate hmem
        rw [hnext.candidates, List.mem_append, List.mem_singleton] at hmem
        rw [hnext.indexed]
        rcases hmem with hold | rfl
        · rw [Function.update_of_ne (hkeys candidate hold)]
          exact h.indexed candidate hold
        · exact Function.update_self _ _ _
      · intro key number hindexed
        rw [hnext.indexed] at hindexed
        rw [hnext.candidates]
        by_cases hkey : key = generation.key
        · rw [hkey, Function.update_self] at hindexed
          obtain rfl := Option.some.inj hindexed
          exact ⟨generation, by simp, hkey.symm⟩
        · rw [Function.update_of_ne hkey] at hindexed
          obtain ⟨other, hmem, hother⟩ := h.stored key number hindexed
          exact ⟨other, List.mem_append_left _ hmem, hother⟩
      · intro other hother
        rw [hcreated, List.mem_append, List.mem_singleton] at hother
        rcases hother with hold | rfl
        · exact hseen other hold
        · exact .inl rfl
  · have hcreated : createdIn chosen (notes ++ [.created generation]) =
        createdIn chosen notes := by
      rw [createdIn_append, createdIn_created, if_neg hin, List.append_nil]
    refine ⟨collector, ?_, sameSource_refl _, ?_⟩
    · rw [decide_eq_false hin]
      rfl
    · refine ⟨?_, ?_, h.ended, h.numbers, h.fresh, h.indexed, h.stored, ?_⟩
      · rw [hcreated, h.filterMap_created hnew]
        exact h.listed
      · rw [hcreated]
        exact h.count
      · rw [hcreated]
        exact hseen

theorem createdIn_other {note : Notification} (h : note.toCreated = none) :
    createdIn chosen (notes ++ [note]) = createdIn chosen notes := by
  rw [createdIn_append]
  show _ ++ (List.filterMap _ [note]).filter _ = _
  rw [List.filterMap_cons_none h]
  exact List.append_nil _

/-- A generation that is held, and was chosen, is a candidate. -/
theorem indexed_of_held (h : Collected chosen notes s collector) {key : GenerationKey}
    (hkeyed : Keyed s) (hheld : s.held key = some generation) {other : MemoryGeneration}
    (hother : other ∈ createdIn chosen notes) (hkey : other.key = key) :
    ∃ number, collector.indexed key = some number := by
  have hlisted : generation ∈ collector.candidates.map Prod.snd := by
    rw [h.listed, List.mem_filterMap]
    exact ⟨other, hother, by rw [hkey, hheld]⟩
  obtain ⟨candidate, hmem, rfl⟩ := List.mem_map.mp hlisted
  refine ⟨candidate.1, ?_⟩
  rw [← hkeyed.key _ _ hheld]
  exact h.indexed candidate hmem

/-- A callback about no candidate. -/
theorem untouched (h : Collected chosen notes s collector) (hkeyed : Keyed s)
    {note : Notification} (hcreated : note.toCreated = none)
    (hheld : s.held note.generation.key = some generation)
    (hindexed : collector.indexed note.generation.key = none) :
    Collected chosen (notes ++ [note]) (s.hear note) collector := by
  have hsame : createdIn chosen (notes ++ [note]) = createdIn chosen notes :=
    createdIn_other hcreated
  refine ⟨?_, ?_, h.ended, h.numbers, h.fresh, h.indexed, h.stored, ?_⟩
  · rw [hsame, h.listed]
    refine List.filterMap_congr ?_
    intro other hother
    refine (Function.update_of_ne ?_ _ _).symm
    intro heq
    obtain ⟨number, hnumber⟩ := h.indexed_of_held hkeyed hheld hother heq
    rw [hindexed] at hnumber
    cases hnumber
  · rw [hsame]
    exact h.count
  · rw [hsame]
    exact fun other hmem => .inr (h.seen other hmem)

/-- Without the candidate of a number there is one less. -/
theorem length_without_number {candidates : List (ℕ × MemoryGeneration)}
    (hnumbers : (candidates.map Prod.fst).Nodup) (hmem : (number, generation) ∈ candidates) :
    (candidates.filter fun candidate => candidate.1 ≠ number).length + 1 = candidates.length := by
  have hnumber : number ∈ candidates.map Prod.fst := List.mem_map_of_mem hmem
  have hlength := List.length_erase_of_mem hnumber
  have hpositive := List.length_pos_of_mem hnumber
  rw [hnumbers.erase_eq_filter, List.filter_map, List.length_map, List.length_map] at hlength
  rw [List.length_map] at hpositive
  have hsame : (candidates.filter fun candidate => candidate.1 ≠ number) =
      candidates.filter ((fun other => other != number) ∘ Prod.fst) := by
    refine List.filter_congr ?_
    intro candidate _
    exact Bool.eq_iff_iff.mpr (by simp)
  rw [hsame, hlength]
  omega

/-- The candidate of the generation that ended is evicted. -/
theorem evicted (h : Collected chosen notes s collector) (hkeyed : Keyed s)
    {reason : GenerationEndReason} {next : OutstandingCollector}
    (hindexed : collector.indexed generation.key = some number)
    (hnext : Evicted collector generation number next) :
    Collected chosen (notes ++ [.ended generation reason event])
      (s.hear (.ended generation reason event)) next := by
  have hsame : createdIn chosen (notes ++ [.ended generation reason event]) =
      createdIn chosen notes := createdIn_other rfl
  have hmem : ∀ candidate, candidate ∈ next.candidates ↔
      candidate ∈ collector.candidates ∧ candidate.2.key ≠ generation.key := by
    intro candidate
    rw [hnext.candidates, List.mem_filter, decide_eq_true_eq]
    exact and_congr_right fun hold => not_congr (h.number_iff hindexed hold)
  have hcandidates : next.candidates =
      collector.candidates.filter fun candidate => candidate.2.key ≠ generation.key := by
    rw [hnext.candidates]
    refine List.filter_congr ?_
    intro candidate hold
    exact decide_eq_decide.mpr (not_congr (h.number_iff hindexed hold))
  constructor
  · -- the generations of other keys are held as before
    rw [hsame, hcandidates]
    calc (collector.candidates.filter fun candidate =>
          candidate.2.key ≠ generation.key).map Prod.snd
        = (collector.candidates.map Prod.snd).filter (fun other => other.key ≠ generation.key) :=
          by rw [List.filter_map]; rfl
      _ = ((createdIn chosen notes).filterMap fun other => s.held other.key).filter
            (fun other => other.key ≠ generation.key) := by rw [h.listed]
      _ = (createdIn chosen notes).filterMap fun other =>
            (s.held other.key).filter (fun other => other.key ≠ generation.key) :=
          List.filter_filterMap
      _ = _ := by
          refine List.filterMap_congr ?_
          intro other hother
          show _ = Function.update s.held generation.key none other.key
          by_cases hkey : other.key = generation.key
          · rw [hkey, Function.update_self, Option.filter_eq_none_iff]
            intro held hheld
            simp [hkeyed.key _ _ hheld]
          · rw [Function.update_of_ne hkey]
            cases hheld : s.held other.key with
            | none => rfl
            | some held =>
                rw [Option.filter_some, hkeyed.key _ _ hheld, if_pos (decide_eq_true hkey)]
  · rw [hsame, hnext.count]
    exact h.count
  · obtain ⟨held, hheld, -⟩ := h.stored _ _ hindexed
    have hlength := length_without_number h.numbers hheld
    have hended := h.ended
    rw [hnext.ended, hnext.count, hnext.candidates]
    omega
  · rw [hcandidates]
    exact h.numbers.sublist (List.filter_sublist.map _)
  · intro candidate hold
    rw [hnext.count]
    exact h.fresh candidate ((hmem candidate).mp hold).1
  · intro candidate hold
    obtain ⟨hold, hkey⟩ := (hmem candidate).mp hold
    rw [hnext.indexed, Function.update_of_ne hkey]
    exact h.indexed candidate hold
  · intro key other hother
    rw [hnext.indexed] at hother
    have hkey : key ≠ generation.key := by
      rintro rfl
      rw [Function.update_self] at hother
      cases hother
    rw [Function.update_of_ne hkey] at hother
    obtain ⟨held, hheld, rfl⟩ := h.stored key other hother
    exact ⟨held, (hmem _).mpr ⟨hheld, hkey⟩, rfl⟩
  · rw [hsame]
    exact fun other hother => .inr (h.seen other hother)

/-- The candidate of the mapping that changed has its new size. -/
theorem resized (h : Collected chosen notes s collector) (hkeyed : Keyed s) {size : ℕ}
    (hheld : s.held generation.key = some generation)
    (hindexed : collector.indexed generation.key = some number) :
    Collected chosen (notes ++ [.changed { generation with size := size } event])
      (s.hear (.changed { generation with size := size } event))
      (collector.resize number size) := by
  have hsame : createdIn chosen (notes ++ [.changed { generation with size := size } event]) =
      createdIn chosen notes := createdIn_other rfl
  have hnumber : ∀ candidate ∈ collector.candidates,
      (candidate.1 = number ↔ candidate.2.key = generation.key) :=
    fun candidate hold => h.number_iff hindexed hold
  -- a new size leaves the key and the number
  have hmem : ∀ candidate ∈ (collector.resize number size).candidates,
      ∃ old ∈ collector.candidates, old.1 = candidate.1 ∧ old.2.key = candidate.2.key := by
    intro candidate hcandidate
    obtain ⟨old, hold, rfl⟩ := List.mem_map.mp hcandidate
    refine ⟨old, hold, ?_⟩
    split <;> exact ⟨rfl, rfl⟩
  constructor
  · rw [hsame]
    calc ((collector.resize number size).candidates).map Prod.snd
        = (collector.candidates.map Prod.snd).map (fun other =>
            if other.key = generation.key then { other with size := size } else other) := by
          show (collector.candidates.map _).map Prod.snd = _
          rw [List.map_map, List.map_map]
          refine List.map_congr_left ?_
          intro candidate hold
          show (if candidate.1 = number then _ else _ : ℕ × MemoryGeneration).2 =
            if candidate.2.key = generation.key then _ else _
          by_cases hkey : candidate.2.key = generation.key
          · rw [if_pos hkey, if_pos ((hnumber candidate hold).mpr hkey)]
          · rw [if_neg hkey, if_neg (mt (hnumber candidate hold).mp hkey)]
      _ = (createdIn chosen notes).filterMap fun other => (s.held other.key).map fun other =>
            if other.key = generation.key then { other with size := size } else other := by
          rw [h.listed, List.map_filterMap]
      _ = _ := by
          refine List.filterMap_congr ?_
          intro other hother
          show _ = Function.update s.held generation.key _ other.key
          by_cases hkey : other.key = generation.key
          · rw [hkey, hheld, Function.update_self, Option.map_some, if_pos rfl]
            rfl
          · rw [Function.update_of_ne hkey]
            cases hold : s.held other.key with
            | none => rfl
            | some held => rw [Option.map_some, hkeyed.key _ _ hold, if_neg hkey]
  · rw [hsame]
    exact h.count
  · show _ + (collector.candidates.map _).length = _
    rw [List.length_map]
    exact h.ended
  · have hfirst : ((collector.resize number size).candidates).map Prod.fst =
        collector.candidates.map Prod.fst := by
      show (collector.candidates.map _).map Prod.fst = _
      rw [List.map_map]
      refine List.map_congr_left ?_
      intro candidate _
      show (if candidate.1 = number then _ else _ : ℕ × MemoryGeneration).1 = _
      split <;> rfl
    rw [hfirst]
    exact h.numbers
  · intro candidate hcandidate
    obtain ⟨old, hold, hfirst, -⟩ := hmem candidate hcandidate
    rw [← hfirst]
    exact h.fresh old hold
  · intro candidate hcandidate
    obtain ⟨old, hold, hfirst, hkey⟩ := hmem candidate hcandidate
    rw [← hfirst, ← hkey]
    exact h.indexed old hold
  · intro key other hother
    obtain ⟨held, hstored, rfl⟩ := h.stored key other hother
    refine ⟨if other = number then { held with size := size } else held, ?_, ?_⟩
    · refine List.mem_map.mpr ⟨(other, held), hstored, ?_⟩
      split <;> rfl
    · split <;> rfl
  · rw [hsame]
    exact fun other hother => .inr (h.seen other hother)

/-- A callback of an event at or before `c`. -/
theorem hear (h : Collected chosen notes s collector) (hkeyed : Keyed s) {note : Notification}
    (hfits : Fits event s note) (hheader : collector.fileHeader = some header)
    (hroom : collector.candidateCount + (born [note]).length ≤ maxU64)
    (hcreates : window.creates header event = .ok (decide (chosen event)))
    (hobserves : window.observes header event = .ok true) :
    ∃ next, observeNotification window collector note = .ok next ∧
      SameSource collector next ∧ Collected chosen (notes ++ [note]) (s.hear note) next := by
  cases hfits with
  | created generation hnew hby =>
      refine h.created hkeyed ?_ hheader hnew ?_
      · exact hroom
      · rw [hby]
        exact hcreates
  | ended generation reason hheld =>
      show ∃ next, observeEnded window collector generation event = .ok next ∧ _
      cases hindexed : collector.indexed generation.key with
      | none =>
          rw [observeEnded_none hheader hindexed]
          exact ⟨collector, rfl, sameSource_refl _, h.untouched hkeyed rfl hheld hindexed⟩
      | some number =>
          obtain ⟨held, hstored, -⟩ := h.stored _ _ hindexed
          have hpositive := List.length_pos_of_mem hstored
          have hended := h.ended
          obtain ⟨next, hevict, hnext⟩ := evict_ok generation number
            (show collector.endedByCCount < maxU64 by omega)
          rw [observeEnded_some hheader hindexed hobserves]
          exact ⟨next, hevict, hnext.toSameSource, h.evicted hkeyed hindexed hnext⟩
  | changed generation size hkind hheld =>
      show ∃ next, observeChanged window collector { generation with size := size } event =
        .ok next ∧ _
      cases hindexed : collector.indexed generation.key with
      | none =>
          exact ⟨collector,
            observeChanged_none { generation with size := size } hheader hkind hindexed,
            sameSource_refl _, h.untouched hkeyed rfl hheld hindexed⟩
      | some number =>
          exact ⟨collector.resize number size,
            observeChanged_some { generation with size := size } hheader hkind hindexed hobserves,
            ⟨rfl, rfl⟩, h.resized hkeyed hheld hindexed⟩

end Collected

theorem Keyed.hear (h : Keyed s) {note : Notification} (hfits : Fits event s note) :
    Keyed (s.hear note) := by
  have hleft : ∀ held, note.left = some held → held.key = note.generation.key := by
    intro held hheld
    cases hfits <;> cases hheld <;> rfl
  constructor
  · intro key held hheld
    by_cases hkey : key = note.generation.key
    · rw [hkey] at hheld ⊢
      exact hleft held (by simpa [Told.hear] using hheld)
    · exact h.key key held (by simpa [Told.hear, Function.update_of_ne hkey] using hheld)
  · intro key held hheld
    by_cases hkey : key = note.generation.key
    · exact .inl hkey
    · exact .inr (h.seen key held (by simpa [Told.hear, Function.update_of_ne hkey] using hheld))

theorem keyed_told {t : GenerationTracker} (h : t.Sound) : Keyed t.told where
  key := by
    intro key generation hheld
    cases key with
    | allocation id => exact h.allocationKeys id generation hheld
    | mapping id =>
        obtain ⟨state, hstate, rfl⟩ := Option.map_eq_some_iff.mp hheld
        exact h.mappingKeys id state hstate
  seen := by
    intro key generation hheld
    refine h.seen_of_live ?_
    cases key with
    | allocation id => exact mem_of_getElem? hheld
    | mapping id =>
        obtain ⟨state, hstate, rfl⟩ := Option.map_eq_some_iff.mp hheld
        exact mem_of_getElem? hstate

theorem createdIn_length_le (chosen : Event → Prop) [DecidablePred chosen]
    (notes : List Notification) :
    (createdIn chosen notes).length ≤ (born notes).length := List.length_filter_le _ _

/-- The callbacks of an event at or before `c`, one after the other. -/
theorem Collected.hearAll {u : Told} {more : List Notification}
    (h : Collected chosen notes s collector) (hkeyed : Keyed s) (htells : Tells event s more u)
    (hheader : collector.fileHeader = some header)
    (hroom : collector.candidateCount + (born more).length ≤ maxU64)
    (hcreates : window.creates header event = .ok (decide (chosen event)))
    (hobserves : window.observes header event = .ok true) :
    Keyed u ∧ ∃ next, more.foldlM (observeNotification window) collector = .ok next ∧
      SameSource collector next ∧ Collected chosen (notes ++ more) u next := by
  induction htells with
  | refl =>
      refine ⟨hkeyed, collector, rfl, sameSource_refl _, ?_⟩
      rw [List.append_nil]
      exact h
  | @step u more note htells hfits ih =>
      rw [born_append, List.length_append] at hroom
      obtain ⟨hkeyed', mid, hmid, hsource, hcollected⟩ := ih (by omega)
      have hcount := hcollected.count
      have hbefore := h.count
      have hle := createdIn_length_le chosen more
      rw [createdIn_append, List.length_append] at hcount
      obtain ⟨next, hnext, hsource', hcollected'⟩ := hcollected.hear hkeyed' hfits
        (hsource.fileHeader.trans hheader) (by omega) hcreates hobserves
      refine ⟨hkeyed'.hear hfits, next, ?_, hsource.trans hsource', ?_⟩
      · rw [List.foldlM_append, hmid, ok_bind, List.foldlM_cons, hnext]
        rfl
      · rw [← List.append_assoc]
        exact hcollected'

/-! ### After `c` -/

/-- The candidates that were there stay, and those created later come after them. -/
structure Settled (chosen : Event → Prop) [DecidablePred chosen] (fixed : List MemoryGeneration)
    (gone : ℕ) (later : List Notification) (s : Told) (collector : OutstandingCollector) :
    Prop where
  listed : collector.candidates.map Prod.snd = fixed ++ createdIn chosen later
  count : collector.candidateCount = gone + fixed.length + (createdIn chosen later).length
  ended : collector.endedByCCount = gone
  indexed : ∀ key number, collector.indexed key = some number → key ∈ s.seen

theorem Collected.settled (h : Collected chosen notes s collector) (hkeyed : Keyed s) :
    Settled chosen (collector.candidates.map Prod.snd) collector.endedByCCount [] s collector := by
  refine ⟨(List.append_nil _).symm, ?_, rfl, ?_⟩
  · rw [List.length_map]
    exact h.ended.symm
  · intro key number hindexed
    obtain ⟨generation, hmem, rfl⟩ := h.stored key number hindexed
    exact hkeyed.seen _ _ (h.held hkeyed hmem)

section Settled

variable {fixed : List MemoryGeneration} {gone : ℕ} {later : List Notification}

theorem Settled.hear (h : Settled chosen fixed gone later s collector) {note : Notification}
    (hfits : Fits event s note) (hheader : collector.fileHeader = some header)
    (hroom : collector.candidateCount + (born [note]).length ≤ maxU64)
    (hcreates : window.creates header event = .ok (decide (chosen event)))
    (hobserves : window.observes header event = .ok false) :
    ∃ next, observeNotification window collector note = .ok next ∧
      SameSource collector next ∧
      Settled chosen fixed gone (later ++ [note]) (s.hear note) next := by
  -- a callback that creates nothing leaves the collector as it is
  have hsilent : note.toCreated = none →
      Settled chosen fixed gone (later ++ [note]) (s.hear note) collector := by
    intro hnone
    refine ⟨?_, ?_, h.ended, fun key number hindexed => .inr (h.indexed key number hindexed)⟩
    · rw [Collected.createdIn_other hnone]
      exact h.listed
    · rw [Collected.createdIn_other hnone]
      exact h.count
  cases hfits with
  | created generation hnew hby =>
      show ∃ next, observeCreated window collector generation = .ok next ∧ _
      rw [← hby] at hcreates
      rw [observeCreated_eq hheader hcreates]
      have hcreated : createdIn chosen (later ++ [.created generation]) = createdIn chosen later ++
          if chosen generation.createdBy then [generation] else [] := by
        rw [createdIn_append, createdIn_created]
      by_cases hin : chosen generation.createdBy
      · have hnone : collector.indexed generation.key = none := by
          cases hindexed : collector.indexed generation.key with
          | none => rfl
          | some number => exact absurd (h.indexed _ _ hindexed) hnew
        obtain ⟨next, hadd, hnext⟩ := addCandidate_ok hroom hnone
        rw [if_pos hin] at hcreated
        rw [decide_eq_true hin]
        refine ⟨next, hadd, hnext.toSameSource, ?_, ?_, hnext.ended.trans h.ended, ?_⟩
        · rw [hnext.candidates, List.map_append, h.listed, hcreated, List.append_assoc]
          rfl
        · have hcount := h.count
          rw [hnext.count, hcreated, List.length_append, List.length_singleton]
          omega
        · intro key number hindexed
          rw [hnext.indexed] at hindexed
          by_cases hkey : key = generation.key
          · exact .inl hkey
          · rw [Function.update_of_ne hkey] at hindexed
            exact .inr (h.indexed key number hindexed)
      · rw [if_neg hin, List.append_nil] at hcreated
        rw [decide_eq_false hin]
        refine ⟨collector, rfl, sameSource_refl _, ?_, ?_, h.ended, ?_⟩
        · rw [hcreated]
          exact h.listed
        · rw [hcreated]
          exact h.count
        · exact fun key number hindexed => .inr (h.indexed key number hindexed)
  | ended generation reason hheld =>
      refine ⟨collector, ?_, sameSource_refl _, hsilent rfl⟩
      show observeEnded window collector generation event = _
      cases hindexed : collector.indexed generation.key with
      | none => exact observeEnded_none hheader hindexed
      | some number => exact observeEnded_some hheader hindexed hobserves
  | changed generation size hkind hheld =>
      refine ⟨collector, ?_, sameSource_refl _, hsilent rfl⟩
      show observeChanged window collector { generation with size := size } event = _
      cases hindexed : collector.indexed generation.key with
      | none =>
          exact observeChanged_none { generation with size := size } hheader hkind hindexed
      | some number =>
          exact observeChanged_some { generation with size := size } hheader hkind hindexed
            hobserves

theorem Settled.hearAll {u : Told} {more : List Notification}
    (h : Settled chosen fixed gone later s collector) (htells : Tells event s more u)
    (hheader : collector.fileHeader = some header)
    (hroom : collector.candidateCount + (born more).length ≤ maxU64)
    (hcreates : window.creates header event = .ok (decide (chosen event)))
    (hobserves : window.observes header event = .ok false) :
    ∃ next, more.foldlM (observeNotification window) collector = .ok next ∧
      SameSource collector next ∧ Settled chosen fixed gone (later ++ more) u next := by
  induction htells with
  | refl =>
      refine ⟨collector, rfl, sameSource_refl _, ?_⟩
      rw [List.append_nil]
      exact h
  | @step u more note htells hfits ih =>
      rw [born_append, List.length_append] at hroom
      obtain ⟨mid, hmid, hsource, hsettled⟩ := ih (by omega)
      have hcount := hsettled.count
      have hbefore := h.count
      have hle := createdIn_length_le chosen more
      rw [createdIn_append, List.length_append] at hcount
      obtain ⟨next, hnext, hsource', hsettled'⟩ := hsettled.hear hfits
        (hsource.fileHeader.trans hheader) (by omega) hcreates hobserves
      refine ⟨next, ?_, hsource.trans hsource', ?_⟩
      · rw [List.foldlM_append, hmid, ok_bind, List.foldlM_cons, hnext]
        rfl
      · rw [← List.append_assoc]
        exact hsettled'

end Settled

end Collected

end OutstandingCollector

end Noleax.Analyzer
