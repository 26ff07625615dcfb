import Noleax.Analyzer.Delivered
import Noleax.Analyzer.MemoryLossless
import Noleax.Trace.FileRoundTrip

/-!
# The memory records of a trace (`src/analyzer/event_stream.cpp`, `src/analyzer/memory.cpp`)

The decoder delivers the memory records of a chunk by kinds, and refuses a record that
precedes the one before it; so the records of each kind arrive in the order of their ticks.
-/

namespace Noleax.Analyzer

open Lib Trace

/-! ## Records in order -/

namespace MemoryRecords

def append (first second : MemoryRecords) : MemoryRecords where
  counters := first.counters ++ second.counters
  maps := first.maps ++ second.maps
  agents := first.agents ++ second.agents

theorem collect_append (first second : List Callback) :
    collect (first ++ second) = (collect first).append (collect second) := by
  unfold collect append
  rw [List.filterMap_append, List.filterMap_append, List.filterMap_append]

end MemoryRecords

section Ordered

variable {α : Type} {ticks : α → ℕ} {records more : List α} {first last middle : ℕ}

/-- Records from `first` to `last`, in order. -/
structure OrderedWithin (ticks : α → ℕ) (first last : ℕ) (records : List α) : Prop where
  sorted : records.Pairwise fun left right => ticks left ≤ ticks right
  bounds : ∀ record ∈ records, first ≤ ticks record ∧ ticks record ≤ last

theorem OrderedWithin.nil : OrderedWithin ticks first last [] := by
  refine ⟨.nil, ?_⟩
  intro record hrecord
  cases hrecord

theorem OrderedWithin.append (h : OrderedWithin ticks first middle records)
    (hmore : OrderedWithin ticks middle last more) (hfirst : first ≤ middle)
    (hlast : middle ≤ last) : OrderedWithin ticks first last (records ++ more) := by
  constructor
  · rw [List.pairwise_append]
    refine ⟨h.sorted, hmore.sorted, ?_⟩
    intro left hleft right hright
    exact Nat.le_trans (h.bounds left hleft).2 (hmore.bounds right hright).1
  · intro record hrecord
    rcases List.mem_append.mp hrecord with hold | hnew
    · have hbounds := h.bounds record hold
      omega
    · have hbounds := hmore.bounds record hnew
      omega

theorem OrderedWithin.single {record : α} (hfirst : first ≤ ticks record) :
    OrderedWithin ticks first (ticks record) [record] := by
  refine ⟨List.pairwise_singleton _ _, ?_⟩
  intro other hother
  rw [List.mem_singleton.mp hother]
  exact ⟨hfirst, Nat.le_refl _⟩

theorem OrderedWithin.mono {last' : ℕ} (h : OrderedWithin ticks first last records)
    (hlast : last ≤ last') : OrderedWithin ticks first last' records :=
  ⟨h.sorted, fun record hrecord =>
    ⟨(h.bounds record hrecord).1, Nat.le_trans (h.bounds record hrecord).2 hlast⟩⟩

end Ordered

/-- The records of every kind, from `first` to `last`. -/
structure MemoryRecords.Within (first last : ℕ) (records : MemoryRecords) : Prop where
  counters : OrderedWithin MemoryCounters.monotonicTicks first last records.counters
  maps : OrderedWithin MemoryMap.monotonicTicks first last records.maps
  agents : OrderedWithin AgentMemory.monotonicTicks first last records.agents

namespace MemoryRecords

variable {records more : MemoryRecords} {first last middle : ℕ}

theorem Within.append (h : records.Within first middle) (hmore : more.Within middle last)
    (hfirst : first ≤ middle) (hlast : middle ≤ last) : (records.append more).Within first last :=
  ⟨h.counters.append hmore.counters hfirst hlast, h.maps.append hmore.maps hfirst hlast,
    h.agents.append hmore.agents hfirst hlast⟩

theorem Within.sorted (h : records.Within first last) (hlast : last ≤ maxU64) :
    records.Sorted :=
  ⟨⟨fun record hrecord => Nat.le_trans (h.counters.bounds record hrecord).2 hlast,
      h.counters.sorted⟩,
    ⟨fun record hrecord => Nat.le_trans (h.maps.bounds record hrecord).2 hlast, h.maps.sorted⟩,
    ⟨fun record hrecord => Nat.le_trans (h.agents.bounds record hrecord).2 hlast,
      h.agents.sorted⟩⟩

end MemoryRecords

/-! ## One chunk -/

/-- The records that were scanned. -/
def MemoryScan.records (scan : MemoryScan) : MemoryRecords where
  counters := scan.counters
  maps := scan.maps
  agents := scan.samples

/-- The scan of a chunk after records of ticks `first`. -/
structure MemoryScan.Ordered (first : ℕ) (scan : MemoryScan) : Prop where
  records : scan.records.Within first scan.previousTicks
  first_le : first ≤ scan.previousTicks
  word : scan.previousTicks ≤ maxU64

namespace MemoryScan

variable {first origin ticks : ℕ} {subject : String} {scan next : MemoryScan}

theorem stamp_eq_ok (h : scan.stamp origin ticks subject = .ok next) :
    scan.previousTicks ≤ ticks ∧ next = { scan with previousTicks := ticks } := by
  unfold stamp at h
  simp only [failIf_bind_eq_ok] at h
  obtain ⟨-, hle, h⟩ := h
  cases h
  exact ⟨Nat.not_lt.mp hle, rfl⟩

/-- A record that is not before the one before it goes to the end of its list. -/
theorem Ordered.snoc (h : scan.Ordered first) (more : MemoryRecords)
    (hmore : more.Within scan.previousTicks ticks) (hle : scan.previousTicks ≤ ticks)
    (hword : IsWord 8 ticks) (hrecords : next.records = scan.records.append more)
    (hticks : next.previousTicks = ticks) : next.Ordered first := by
  refine ⟨?_, ?_, ?_⟩
  · rw [hrecords, hticks]
    exact h.records.append hmore h.first_le hle
  · rw [hticks]
    exact Nat.le_trans h.first_le hle
  · rw [hticks]
    exact Nat.le_sub_one_of_lt hword

theorem Ordered.step {record : RecordView} (h : scan.Ordered first) (hrecord : record.InRange)
    (hstep : scan.step origin record = .ok next) : next.Ordered first := by
  unfold MemoryScan.step at hstep
  obtain ⟨counters, hcounters, hstep⟩ := bind_eq_ok.mp hstep
  rcases counters with _ | counters
  · obtain ⟨map, hmap, hstep⟩ := bind_eq_ok.mp hstep
    rcases map with _ | map
    · obtain ⟨memory, hmemory, hstep⟩ := bind_eq_ok.mp hstep
      rcases memory with _ | memory
      · cases hstep
        exact ⟨h.records, h.first_le, h.word⟩
      · obtain ⟨hrange, -⟩ := agentMemory_roundTrip.canonical record memory hrecord hmemory
        obtain ⟨stamped, hstamp, hstep⟩ := bind_eq_ok.mp hstep
        obtain ⟨hle, rfl⟩ := stamp_eq_ok hstamp
        cases hstep
        refine h.snoc ⟨[], [], [memory]⟩ ⟨.nil, .nil, .single hle⟩ hle hrange.1 ?_ rfl
        show MemoryRecords.mk _ _ _ = MemoryRecords.mk (_ ++ []) (_ ++ []) _
        rw [List.append_nil, List.append_nil]
        rfl
    · obtain ⟨hrange, -⟩ := memoryMap_roundTrip.canonical record map hrecord hmap
      obtain ⟨stamped, hstamp, hstep⟩ := bind_eq_ok.mp hstep
      obtain ⟨hle, rfl⟩ := stamp_eq_ok hstamp
      cases hstep
      refine h.snoc ⟨[], [map], []⟩ ⟨.nil, .single hle, .nil⟩ hle hrange.1 ?_ rfl
      show MemoryRecords.mk _ _ _ = MemoryRecords.mk (_ ++ []) _ (_ ++ [])
      rw [List.append_nil, List.append_nil]
      rfl
  · obtain ⟨hrange, -⟩ := memoryCounters_roundTrip.canonical record counters hrecord hcounters
    obtain ⟨stamped, hstamp, hstep⟩ := bind_eq_ok.mp hstep
    obtain ⟨hle, rfl⟩ := stamp_eq_ok hstamp
    cases hstep
    refine h.snoc ⟨[counters], [], []⟩ ⟨.single hle, .nil, .nil⟩ hle hrange.1 ?_ rfl
    show MemoryRecords.mk _ _ _ = MemoryRecords.mk _ (_ ++ []) (_ ++ [])
    rw [List.append_nil, List.append_nil]
    rfl

end MemoryScan

theorem scanMemory_ordered {dec : EventStreamDecoder} {payload : Bytes} {scan : MemoryScan}
    (hscan : scanMemory dec payload = .ok scan) (hword : dec.previousMemoryTicks ≤ maxU64) :
    scan.Ordered dec.previousMemoryTicks := by
  obtain ⟨-, records, hframes, hrun⟩ := forRecords_eq_ok.mp hscan
  have hstep : ∀ record ∈ records, ∀ scan next : MemoryScan, scan.Ordered dec.previousMemoryTicks →
      scan.step dec.fileHeader.monotonicOrigin record = .ok next →
      next.Ordered dec.previousMemoryTicks := by
    intro record hrecord scan next h hstep
    exact h.step (hframes.inRange record hrecord) hstep
  exact foldlM_inv_of hstep ⟨⟨.nil, .nil, .nil⟩, Nat.le_refl _, hword⟩ hrun

/-! ## The whole trace -/

/-- What the decoder delivered of memory, and the tick of the last record. -/
structure MemoryView where
  records : MemoryRecords
  previousTicks : ℕ

/-- The records come in order, and none is after the last. -/
structure MemoryView.Ordered (view : MemoryView) : Prop where
  records : view.records.Within 0 view.previousTicks
  word : view.previousTicks ≤ maxU64

namespace EventStreamDecoder

def memory (dec : EventStreamDecoder) : MemoryView :=
  ⟨.collect dec.log, dec.previousMemoryTicks⟩

variable {dec next : EventStreamDecoder}

theorem memory_delivery : dec.memory = ⟨.collect dec.delivery.log, dec.delivery.previousMemoryTicks⟩ :=
  rfl

@[simp] theorem memory_mark (issue : CompletenessIssue) : (dec.mark issue).memory = dec.memory := by
  rw [memory_delivery, delivery_mark, memory_delivery]

/-- Plain callbacks deliver nothing of memory. -/
theorem collect_plain {more : List Callback} (h : ∀ callback ∈ more, callback.Plain) :
    MemoryRecords.collect more = ⟨[], [], []⟩ := by
  induction more with
  | nil => rfl
  | cons callback more ih =>
      have hrest := ih fun c hc => h c (List.mem_cons_of_mem _ hc)
      have hplain := h callback List.mem_cons_self
      rw [← List.singleton_append, MemoryRecords.collect_append, hrest]
      cases callback <;> first | rfl | exact hplain.elim

/-- The records of an event chunk deliver nothing of memory. -/
theorem collect_recordCallback (records : List EventChunkRecord) :
    MemoryRecords.collect (records.map recordCallback) = ⟨[], [], []⟩ := by
  induction records with
  | nil => rfl
  | cons record records ih =>
      rw [List.map_cons, ← List.singleton_append, MemoryRecords.collect_append, ih]
      cases record <;> rfl

/-- The callbacks of a memory chunk are its records. -/
theorem collect_deliveries (scan : MemoryScan) :
    .collect (scan.deliveries.map Prod.snd) = scan.records := by
  unfold MemoryScan.deliveries MemoryScan.records MemoryRecords.collect
  simp [List.filterMap_append, List.filterMap_map, Function.comp_def]

theorem append_nothing (records : MemoryRecords) : records.append ⟨[], [], []⟩ = records := by
  show MemoryRecords.mk (_ ++ []) (_ ++ []) (_ ++ []) = _
  rw [List.append_nil, List.append_nil, List.append_nil]

/-- A chunk that was accepted keeps the records in order. -/
theorem Ordered.accepted {chunk : TraceChunk} (h : dec.memory.Ordered)
    (haccepted : Accepted dec chunk next) : next.memory.Ordered := by
  have hdelivered := delivered_of_accepted haccepted
  rw [memory_delivery]
  generalize next.delivery = delivery at hdelivered
  cases hdelivered with
  | plain hplain =>
      show MemoryView.Ordered ⟨.collect (dec.log ++ _), dec.previousMemoryTicks⟩
      rw [MemoryRecords.collect_append, collect_plain hplain, append_nothing]
      exact h
  | events hscan =>
      show MemoryView.Ordered ⟨.collect (dec.log ++ _), dec.previousMemoryTicks⟩
      rw [MemoryRecords.collect_append, collect_recordCallback, append_nothing]
      exact h
  | @memory scan hscan =>
      have hscanned := scanMemory_ordered hscan h.word
      show MemoryView.Ordered ⟨.collect (dec.log ++ _), scan.previousTicks⟩
      rw [MemoryRecords.collect_append, collect_deliveries]
      exact ⟨h.records.append hscanned.records (Nat.zero_le _) hscanned.first_le, hscanned.word⟩

theorem memory_invariant : StreamInvariant fun dec => dec.memory.Ordered where
  mark := by
    intro dec issue h
    rw [memory_mark]
    exact h
  understood := fun _ h => h
  truncated := fun _ h => h
  accepted := fun _ _ _ h haccepted => Ordered.accepted h haccepted

end EventStreamDecoder

section Analysis

variable {options : EventStreamOptions} {decompressors : Decompressors} {input : Bytes}
  {trace : EventStreamResult}

/-- The memory records of a trace that was accepted are in order. -/
theorem collect_sorted
    (haccepted : (analyzeEventStream options decompressors input).outcome = .ok trace) :
    (MemoryRecords.collect (analyzeEventStream options decompressors input).log).Sorted := by
  obtain ⟨dec, hordered, hlog, -⟩ := EventStreamDecoder.memory_invariant.analysis
    (fun _ _ => ⟨⟨.nil, .nil, .nil⟩, Nat.zero_le _⟩) haccepted
  rw [hlog]
  exact hordered.records.sorted hordered.word

theorem analyzeMemory_snapshots (window : MemoryWindow)
    (haccepted : (analyzeEventStream options decompressors input).outcome = .ok trace) :
    (analyzeMemory options decompressors input window).map (·.snapshots) =
      (mergeRecords window trace.fileHeader
        (.collect (analyzeEventStream options decompressors input).log)).mapError .merge := by
  unfold analyzeMemory
  dsimp only
  rw [haccepted]
  dsimp only
  cases mergeRecords window trace.fileHeader
    (.collect (analyzeEventStream options decompressors input).log) <;> rfl

/-- The merge of a trace reads no list past its end, and when the window throws at no record
it returns snapshots that lose nothing. -/
def MergeTotal (window : MemoryWindow) (header : FileHeader) (records : MemoryRecords)
    (outcome : Except MemoryAnalysisError MemoryAnalysisResult) : Prop :=
  outcome.map (·.snapshots) ≠ .error (.merge .pastEnd) ∧
    ((∀ ticks ∈ records.ticks, Answered window header ticks) →
      ∃ snapshots, outcome.map (·.snapshots) = .ok snapshots ∧
        Lossless window header records snapshots)

/-- The merge of an accepted trace is total and loses nothing exactly when the three kinds
have equally many records with the tick that stands for an exhausted list, or the window
throws before the merge gets there. -/
theorem merge_total_iff (window : MemoryWindow)
    (haccepted : (analyzeEventStream options decompressors input).outcome = .ok trace) :
    let records := MemoryRecords.collect (analyzeEventStream options decompressors input).log
    MergeTotal window trace.fileHeader records
        (analyzeMemory options decompressors input window) ↔
      records.Balanced ∨
        ∃ ticks ∈ records.ticks, ¬Answered window trace.fileHeader ticks := by
  intro records
  have hsorted : records.Sorted := collect_sorted haccepted
  unfold MergeTotal
  rw [analyzeMemory_snapshots window haccepted]
  rcases @mergeRecords_cases window trace.fileHeader records hsorted with
    ⟨snapshots, hmerge, hlossless, hbalanced⟩ | ⟨hmerge, hunbalanced, hanswered⟩ |
      ⟨e, hmerge, ticks, hticks, hthrows⟩
  · rw [hmerge]
    refine iff_of_true ⟨?_, fun _ => ⟨snapshots, rfl, hlossless⟩⟩ (.inl hbalanced)
    intro h
    cases h
  · rw [hmerge]
    refine iff_of_false ?_ ?_
    · intro h
      exact h.1 rfl
    · rintro (hbalanced | ⟨ticks, hticks, hthrows⟩)
      · exact hunbalanced hbalanced
      · exact hthrows (hanswered ticks hticks)
  · have hunanswered : ¬Answered window trace.fileHeader ticks := by
      rintro ⟨selected, hselected⟩
      rw [hthrows] at hselected
      cases hselected
    rw [hmerge]
    refine iff_of_true ⟨?_, ?_⟩ (.inr ⟨ticks, hticks, hunanswered⟩)
    · intro h
      cases h
    · intro hanswered
      exact absurd (hanswered ticks hticks) hunanswered

end Analysis

/-! ## A sample at the last tick -/

/-- A scope, and counters that were sampled at one tick. -/
def sampledTrace (ticks : ℕ) : Bytes :=
  appendFileHeader { header := sampleHeader } ++
    plainChunk { type := .metadata } ⟨captureScopeType, recordVersion, appendCaptureScope {}⟩ ++
    plainChunk { type := .memory }
      ⟨memoryCountersType, recordVersion, appendMemoryCounters { monotonicTicks := ticks }⟩

/-- What the decoder logs of it, when it accepts it. -/
def sampledLog (ticks : ℕ) : Option (FileHeader × List Callback) :=
  let analysis := analyzeEventStream {} literalDecompressors (sampledTrace ticks)
  match analysis.outcome with
  | .ok trace => some (trace.fileHeader, analysis.log)
  | .error _ => none

theorem sampledLog_eq_some {ticks : ℕ} {header : FileHeader} {log : List Callback}
    (h : sampledLog ticks = some (header, log)) :
    ∃ trace, (analyzeEventStream {} literalDecompressors (sampledTrace ticks)).outcome =
      .ok trace ∧ trace.fileHeader = header ∧
      (analyzeEventStream {} literalDecompressors (sampledTrace ticks)).log = log := by
  unfold sampledLog at h
  dsimp only at h
  split at h
  · rename_i trace haccepted
    cases h
    exact ⟨trace, haccepted, rfl, rfl⟩
  · cases h

theorem sampledLog_last : sampledLog maxU64 = some (sampleHeader,
    [.fileHeader sampleHeader, .captureScope {},
      .memoryCounters { monotonicTicks := maxU64 }]) := by
  decide +kernel

theorem sampledLog_seven : sampledLog 7 = some (sampleHeader,
    [.fileHeader sampleHeader, .captureScope {}, .memoryCounters { monotonicTicks := 7 }]) := by
  decide +kernel

theorem merge_total_seven : ∃ trace,
    (analyzeEventStream {} literalDecompressors (sampledTrace 7)).outcome = .ok trace ∧
      MergeTotal {} trace.fileHeader
        (.collect (analyzeEventStream {} literalDecompressors (sampledTrace 7)).log)
        (analyzeMemory {} literalDecompressors (sampledTrace 7) {}) := by
  obtain ⟨trace, haccepted, -, hlog⟩ := sampledLog_eq_some sampledLog_seven
  refine ⟨trace, haccepted, (merge_total_iff {} haccepted).mpr (.inl ?_)⟩
  rw [hlog]
  exact ⟨rfl, rfl⟩

/-- Counters at the last tick are merged with a map and a sample that are not there. -/
theorem merge_total_fails : ∃ trace,
    (analyzeEventStream {} literalDecompressors (sampledTrace maxU64)).outcome = .ok trace ∧
      ¬MergeTotal {} trace.fileHeader
        (.collect (analyzeEventStream {} literalDecompressors (sampledTrace maxU64)).log)
        (analyzeMemory {} literalDecompressors (sampledTrace maxU64) {}) := by
  obtain ⟨trace, haccepted, hheader, hlog⟩ := sampledLog_eq_some sampledLog_last
  refine ⟨trace, haccepted, ?_⟩
  have hfault : mergeRecords {} sampleHeader
      (.collect [.fileHeader sampleHeader, .captureScope {},
        .memoryCounters { monotonicTicks := maxU64 }]) = .error .pastEnd := by
    decide +kernel
  intro htotal
  apply htotal.1
  rw [analyzeMemory_snapshots {} haccepted, hheader, hlog, hfault]
  rfl

end Noleax.Analyzer
