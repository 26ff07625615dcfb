import Noleax.Analyzer.EventStream
import Noleax.Analyzer.Filter
import Noleax.Analyzer.GenerationTracker
import Noleax.Analyzer.Window

/-!
# Outstanding generations (`src/analyzer/outstanding.cpp`)

`analyze_filtered_outstanding`: the generations created in `[a, b)` that have not ended at `c`,
with the bytes that they still have then.
-/

namespace Noleax.Analyzer

open Lib Trace

/-! ## Windows -/

structure OutstandingWindow where
  a : WindowBound := {}
  b : Option WindowBound := none
  c : Option WindowBound := none
deriving DecidableEq, Repr

inductive OutstandingError where
  | outstanding (what : String)
  | filter (error : AnalysisFilterError)
  | time (error : TraceTimeError)
  | trace (error : Error)
deriving DecidableEq

/-- `validate_window` -/
def OutstandingWindow.validate (window : OutstandingWindow) : Except OutstandingError Unit := do
  failIf ((∃ time ∈ window.a.time, time < 0) ∨
      (∃ bound ∈ window.b, ∃ time ∈ bound.time, time < 0) ∨
      ∃ bound ∈ window.c, ∃ time ∈ bound.time, time < 0)
    (.outstanding "outstanding window times must not be negative")
  failIf (∃ b ∈ window.b, windowBoundsInOrder window.a b = false)
    (.outstanding "outstanding window requires a <= b")
  failIf (∃ b ∈ window.b, ∃ c ∈ window.c, windowBoundsInOrder b c = false)
    (.outstanding "outstanding window requires b <= c")
  failIf (window.b = none ∧ ∃ c ∈ window.c, windowBoundsInOrder window.a c = false)
    (.outstanding "outstanding window requires a <= c")

/-- The end of a trace: `trace_end` and `trace_end_sequence`. -/
structure TraceEnd where
  ticks : ℕ
  sequence : Option ℕ

section TraceEnd

variable (header : FileHeader) (traceEnd : TraceEnd)

/-- `window_bound_exceeds_trace_end` -/
def windowBoundExceedsTraceEnd (bound : WindowBound) : Except TraceTimeError Bool := do
  if !(← bound.timeHolds header traceEnd.ticks (· ≠ .lt)) then return true
  else match bound.sequence, traceEnd.sequence with
    | none, _ => return false
    | some sequence, some last => return last < sequence
    | some sequence, none => return 0 < sequence

/-- `inclusive_trace_end_bound`: a fraction of a nanosecond is rounded up. -/
def inclusiveTraceEndBound : Except TraceTimeError WindowBound := do
  let floor ← (traceTimeFloor traceEnd.ticks header).value
  let time :=
    if (← compareTraceTime traceEnd.ticks header floor) = .gt then
      if floor < maximumNanoseconds then some (floor + 1) else none
    else some floor
  return { time := time, sequence := traceEnd.sequence }

/-- `exclusive_trace_end_bound`: the first bound after every event. -/
def exclusiveTraceEndBound : Except TraceTimeError WindowBound := do
  let floor ← (traceTimeFloor traceEnd.ticks header).value
  return {
    time := if floor < maximumNanoseconds then some (floor + 1) else none
    sequence := traceEnd.sequence.bind fun last => if last < maxU64 then some (last + 1) else none }

/-- The times of `effective_upper_bound`, of a bound that has both components. -/
def clampTime (bound traceEndBound : WindowBound) : Except TraceTimeError (Option ℤ) := do
  if ← bound.timeHolds header traceEnd.ticks (· ≠ .lt) then return bound.time
  else return traceEndBound.time

def effectiveUpperBound (bound : Option WindowBound) (traceEndBound : WindowBound) :
    Except TraceTimeError WindowBound :=
  match bound with
  | none => return traceEndBound
  | some bound => do
      if windowBoundEmpty bound then return traceEndBound
      else if bound.time.isSome && bound.sequence.isSome then
        return {
          time := ← clampTime header traceEnd bound traceEndBound
          sequence :=
            if ∃ sequence ∈ bound.sequence, ∀ last ∈ traceEnd.sequence, last < sequence then
              traceEnd.sequence
            else bound.sequence }
      else if ← windowBoundExceedsTraceEnd header traceEnd bound then return traceEndBound
      else return bound

end TraceEnd

/-- What `analyze` takes the end of the trace to be. -/
def EventStreamResult.traceEnd (trace : EventStreamResult) : TraceEnd where
  ticks :=
    match trace.endOfTrace with
    | some last => last.finalMonotonicTicks
    | none => max trace.knownMonotonicEnd trace.fileHeader.monotonicOrigin
  sequence :=
    match trace.endOfTrace with
    | some last =>
        if last.finalSequence ≠ 0 then some last.finalSequence
        else if trace.knownSequenceEnd ≠ 0 then some trace.knownSequenceEnd else none
    | none => if trace.knownSequenceEnd ≠ 0 then some trace.knownSequenceEnd else none

/-! ## The filter (`src/analyzer/filter.cpp`) -/

namespace AnalysisFilter

variable (filter : AnalysisFilter) (generation : MemoryGeneration)

/-- The tests that look at the generation alone. -/
def matchesGenerationFields : Bool :=
  filter.criteria.commonEventFieldsMatch generation.createdBy &&
    filter.criteria.sizeMatches (some generation.size) &&
    (filter.criteria.allocationIds = [] || (generation.kind = .heapAllocation &&
      decide (Asked filter.criteria.allocationIds generation.allocationId)))

/-- `matches_generation` with the metadata of the event that created it. -/
def matchesGeneration (metadata : EventMetadata) : Bool :=
  filter.matchesGenerationFields generation && filter.criteria.metadataMatches metadata

/-- `matches_generation` with a resolver, which is asked only where it matters. -/
def matchesGenerationResolved (resolver : Option EventMetadataResolver) :
    Except AnalysisFilterError Bool :=
  if filter.matchesGenerationFields generation = false then return false
  else if ¬filter.RequiresMetadata then return true
  else match resolver with
    | none => throw resolverMissing
    | some resolver => return filter.criteria.metadataMatches (resolver generation.createdBy)

/-- The two overloads agree, where the resolver that is needed is there. -/
theorem matchesGenerationResolved_eq {resolver : Option EventMetadataResolver}
    (hresolver : filter.RequiresMetadata → resolver ≠ none) :
    filter.matchesGenerationResolved generation resolver =
      .ok (filter.matchesGeneration generation (metadataOf resolver generation.createdBy)) := by
  unfold matchesGenerationResolved matchesGeneration
  cases filter.matchesGenerationFields generation with
  | false => rfl
  | true =>
      rw [if_neg (by simp), Bool.true_and]
      by_cases hrequired : filter.RequiresMetadata
      · rw [if_neg (not_not.mpr hrequired)]
        cases resolver with
        | none => exact absurd rfl (hresolver hrequired)
        | some resolver => rfl
      · rw [if_pos hrequired, filter.metadataMatches_of_not_required hrequired]
        rfl

end AnalysisFilter

/-! ## The collector -/

/-- `checked_increment`, of an outstanding analysis. -/
def OutstandingError.increment (value : ℕ) (message : String) : Except OutstandingError ℕ :=
  if value = maxU64 then throw (.outstanding message) else return value + 1

/-- The candidates are a linked list: each is listed with a number, which stands for the
iterator that the maps keep. -/
structure OutstandingCollector where
  fileHeader : Option FileHeader := none
  tracker : GenerationTracker := {}
  candidates : List (ℕ × MemoryGeneration) := []
  allocationCandidates : IdMap ℕ := ∅
  mappingCandidates : IdMap ℕ := ∅
  candidateCount : ℕ := 0
  endedByCCount : ℕ := 0

section Collector

variable (window : OutstandingWindow)

/-- At or after `a`, and before `b`. -/
def OutstandingWindow.creates (window : OutstandingWindow) (header : FileHeader) (event : Event) :
    Except TraceTimeError Bool := do
  if !(← windowAtOrAfter window.a header event) then return false
  else match window.b with
    | none => return true
    | some bound => windowBefore bound header event

/-- The end of the trace is observed, or the event is at or before `c`. -/
def OutstandingWindow.observes (window : OutstandingWindow) (header : FileHeader)
    (event : Event) : Except TraceTimeError Bool :=
  match window.c with
  | none => return true
  | some bound =>
      if windowBoundEmpty bound then return true else windowAtOrBefore bound header event

namespace OutstandingCollector

def requireFileHeader (collector : OutstandingCollector) (message : String) :
    Except OutstandingError FileHeader :=
  match collector.fileHeader with
  | none => throw (.outstanding message)
  | some header => return header

/-- The new candidate goes to the end of the list, and into the map of its kind. -/
def addCandidate (collector : OutstandingCollector) (generation : MemoryGeneration) :
    Except OutstandingError OutstandingCollector := do
  let count ← OutstandingError.increment collector.candidateCount "candidate count overflow"
  let collector := { collector with
    candidateCount := count
    candidates := collector.candidates ++ [(count, generation)] }
  if generation.kind = .heapAllocation then
    failIf (generation.allocationId ∈ collector.allocationCandidates)
      (.outstanding "allocation candidate ID is already present")
    return { collector with
      allocationCandidates := collector.allocationCandidates.insert generation.allocationId count }
  else
    failIf (generation.mappingId ∈ collector.mappingCandidates)
      (.outstanding "mapping candidate ID is already present")
    return { collector with
      mappingCandidates := collector.mappingCandidates.insert generation.mappingId count }

def observeCreated (collector : OutstandingCollector) (generation : MemoryGeneration) :
    Except OutstandingError OutstandingCollector := do
  let header ← collector.requireFileHeader "generation appeared before FileHeader"
  if !(← (window.creates header generation.createdBy).mapError .time) then return collector
  else collector.addCandidate generation

/-- `candidates.find(id)`, in the map of the kind. -/
def candidateOf (collector : OutstandingCollector) (generation : MemoryGeneration) : Option ℕ :=
  if generation.kind = .heapAllocation then
    collector.allocationCandidates[generation.allocationId]?
  else collector.mappingCandidates[generation.mappingId]?

/-- The candidate leaves the list and the map of its kind. -/
def evict (collector : OutstandingCollector) (generation : MemoryGeneration) (number : ℕ) :
    Except OutstandingError OutstandingCollector := do
  let collector := { collector with
    candidates := collector.candidates.filter fun candidate => candidate.1 ≠ number }
  let collector :=
    if generation.kind = .heapAllocation then { collector with
      allocationCandidates := collector.allocationCandidates.erase generation.allocationId }
    else { collector with
      mappingCandidates := collector.mappingCandidates.erase generation.mappingId }
  let ended ← OutstandingError.increment collector.endedByCCount "ended candidate count overflow"
  return { collector with endedByCCount := ended }

def observeEnded (collector : OutstandingCollector) (generation : MemoryGeneration)
    (event : Event) : Except OutstandingError OutstandingCollector := do
  let header ← collector.requireFileHeader "generation ended before FileHeader"
  match collector.candidateOf generation with
  | none => return collector
  | some number =>
      if !(← (window.observes header event).mapError .time) then return collector
      else collector.evict generation number

/-- `candidate->second->size = size` -/
def resize (collector : OutstandingCollector) (number size : ℕ) : OutstandingCollector :=
  { collector with
    candidates := collector.candidates.map fun candidate =>
      if candidate.1 = number then (candidate.1, { candidate.2 with size := size }) else candidate }

/-- Only the mappings are looked up. -/
def observeChanged (collector : OutstandingCollector) (generation : MemoryGeneration)
    (event : Event) : Except OutstandingError OutstandingCollector := do
  let header ← collector.requireFileHeader "generation changed before FileHeader"
  match collector.mappingCandidates[generation.mappingId]? with
  | none => return collector
  | some number =>
      if !(← (window.observes header event).mapError .time) then return collector
      else return collector.resize number generation.size

/-- The callbacks that the constructor sets. -/
def observeNotification (collector : OutstandingCollector) :
    Notification → Except OutstandingError OutstandingCollector
  | .created generation => observeCreated window collector generation
  | .ended generation _ event => observeEnded window collector generation event
  | .changed generation event => observeChanged window collector generation event

def observe (collector : OutstandingCollector) (event : Event) :
    Except OutstandingError OutstandingCollector := do
  let (tracker, notes) ← (collector.tracker.observe event).mapError .trace
  notes.foldlM (observeNotification window) { collector with tracker := tracker }

/-- The callbacks that `analyze` sets. -/
def hear (collector : OutstandingCollector) : Callback →
    Except OutstandingError OutstandingCollector
  | .fileHeader header => return { collector with fileHeader := some header }
  | .event event => observe window collector event
  | _ => return collector

end OutstandingCollector

end Collector

/-! ## The analysis -/

structure OutstandingResult where
  trace : EventStreamResult
  requestedWindow : OutstandingWindow
  effectiveB : WindowBound
  effectiveC : WindowBound
  traceEndMonotonicTicks : ℕ
  candidateCount : ℕ
  endedByCCount : ℕ
  filteredOutCount : ℕ
  orphanedAllocationEndCount : ℕ
  orphanedMappingEndCount : ℕ
  observationUsesTraceEnd : Bool
  outstanding : List MemoryGeneration

/-- `c` is left out, or later than the trace. -/
def OutstandingWindow.observesTraceEnd (window : OutstandingWindow) (header : FileHeader)
    (traceEnd : TraceEnd) : Except TraceTimeError Bool :=
  match window.c with
  | none => return true
  | some bound =>
      if windowBoundEmpty bound then return true
      else windowBoundExceedsTraceEnd header traceEnd bound

section Analysis

variable (window : OutstandingWindow) (filter : AnalysisFilter)
  (resolver : Option EventMetadataResolver)

/-- The candidates that the filter matches, and the number of the others. -/
def matchCandidate (outcome : List MemoryGeneration × ℕ) (candidate : MemoryGeneration) :
    Except OutstandingError (List MemoryGeneration × ℕ) := do
  if !(← (filter.matchesGenerationResolved candidate resolver).mapError .filter) then
    return (outcome.1, ← OutstandingError.increment outcome.2 "filtered candidate count overflow")
  else return (outcome.1 ++ [candidate], outcome.2)

/-- What the counts of orphaned ends say of the trace. -/
def EventStreamResult.withOrphans (trace : EventStreamResult) (allocations mappings : ℕ) :
    EventStreamResult :=
  if allocations ≠ 0 ∨ mappings ≠ 0 then
    { trace with completeness := insert .eventLoss trace.completeness }
  else trace

/-- What `analyze` makes of the collector and the trace. -/
def OutstandingCollector.result (collector : OutstandingCollector) (trace : EventStreamResult) :
    Except OutstandingError OutstandingResult := do
  let header := trace.fileHeader
  let inclusive ← (inclusiveTraceEndBound header trace.traceEnd).mapError .time
  let exclusive ← (exclusiveTraceEndBound header trace.traceEnd).mapError .time
  let effectiveB ← (effectiveUpperBound header trace.traceEnd window.b exclusive).mapError .time
  let usesTraceEnd ← (window.observesTraceEnd header trace.traceEnd).mapError .time
  let effectiveC ← (effectiveUpperBound header trace.traceEnd window.c inclusive).mapError .time
  let (outstanding, filteredOut) ← (collector.candidates.map Prod.snd).foldlM
    (matchCandidate filter resolver) ([], 0)
  return {
    trace := trace.withOrphans collector.tracker.orphanedAllocationEndCount
      collector.tracker.orphanedMappingEndCount
    requestedWindow := window
    effectiveB := effectiveB
    effectiveC := effectiveC
    traceEndMonotonicTicks := trace.traceEnd.ticks
    candidateCount := collector.candidateCount
    endedByCCount := collector.endedByCCount
    filteredOutCount := filteredOut
    orphanedAllocationEndCount := collector.tracker.orphanedAllocationEndCount
    orphanedMappingEndCount := collector.tracker.orphanedMappingEndCount
    observationUsesTraceEnd := usesTraceEnd
    outstanding := outstanding }

/-- `analyze_filtered_outstanding`. What a callback throws ends the analysis, so that it comes
before what the decoder throws later. -/
def analyzeFilteredOutstanding (options : EventStreamOptions) (decompressors : Decompressors)
    (input : Bytes) : Except OutstandingError OutstandingResult := do
  window.validate
  failIf (filter.RequiresMetadata ∧ resolver.isNone = true)
    (.filter AnalysisFilter.resolverMissing)
  let analysis := analyzeEventStream options decompressors input
  let collector ← analysis.log.foldlM (OutstandingCollector.hear window) {}
  let trace ← analysis.outcome.mapError .trace
  collector.result window filter resolver trace

end Analysis

end Noleax.Analyzer
