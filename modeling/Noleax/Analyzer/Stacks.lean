import Noleax.Analyzer.EventStream
import Noleax.Analyzer.Filter
import Noleax.Analyzer.GenerationTracker
import Noleax.Analyzer.Window

/-!
# Stack groups (`src/analyzer/stacks.cpp`)

`analyze_event_stacks`: the allocations and the frees of a trace, by the stacks they were
called from. The bytes of a free are those of the generation that it ends, which the tracker
tells while it observes the event.
-/

namespace Noleax.Analyzer

open Lib Trace

/-! ## Windows and orders -/

inductive StacksSort where
  | calls | allocBytes | freeBytes | netBytes | bytes
deriving DecidableEq, Repr

/-- `from` and `to`. -/
structure StacksWindow where
  fromBound : WindowBound := {}
  toBound : Option WindowBound := none
deriving DecidableEq, Repr

inductive StacksError where
  | stacks (what : String)
  | filter (error : AnalysisFilterError)
  | time (error : TraceTimeError)
  | trace (error : Error)
deriving DecidableEq

def validateWindow (window : StacksWindow) : Except StacksError Unit := do
  failIf ((∃ time ∈ window.fromBound.time, time < 0) ∨
      ∃ bound ∈ window.toBound, ∃ time ∈ bound.time, time < 0)
    (.stacks "stacks window times must not be negative")
  failIf (∃ bound ∈ window.toBound, windowBoundsInOrder window.fromBound bound = false)
    (.stacks "stacks window requires from <= to")

/-- `saturating_net_bytes` -/
def saturatingNetBytes (allocBytes freeBytes : ℕ) : ℤ :=
  if freeBytes ≤ allocBytes then min (allocBytes - freeBytes : ℕ) (2 ^ 63 - 1 : ℕ)
  else if 2 ^ 63 - 1 < freeBytes - allocBytes then -2 ^ 63
  else -(freeBytes - allocBytes : ℕ)

structure EventsStacksGroup where
  stackId : ℕ
  sampleEvent : Event
  apiIds : List ℕ := []
  calls : ℕ := 0
  allocCalls : ℕ := 0
  allocBytes : ℕ := 0
  freeCalls : ℕ := 0
  freeBytes : ℕ := 0
deriving DecidableEq

def EventsStacksGroup.netBytes (group : EventsStacksGroup) : ℤ :=
  saturatingNetBytes group.allocBytes group.freeBytes

/-- What a sort compares first. -/
def StacksSort.metric : StacksSort → EventsStacksGroup → ℤ
  | .calls, group => group.calls
  | .freeBytes, group => group.freeBytes
  | .netBytes, group => group.netBytes
  | .allocBytes, group => group.allocBytes
  | .bytes, group => group.allocBytes

/-- The comparison of `sort_groups`. -/
def StacksSort.comesBefore (sort : StacksSort) (left right : EventsStacksGroup) : Bool :=
  if sort.metric left ≠ sort.metric right then sort.metric right < sort.metric left
  else left.stackId < right.stackId

def sortEventGroups (groups : List EventsStacksGroup) (sort : StacksSort) :
    List EventsStacksGroup :=
  groups.mergeSort fun left right => !sort.comesBefore right left

/-! ## The collector -/

/-- `++` of a 64-bit counter. -/
def increment (value : ℕ) : ℕ := (value + 1) % 2 ^ 64

def checkedAddBytes (total value : ℕ) (subject : String) : Except StacksError ℕ :=
  if maxU64 - total < value then throw (.stacks (subject ++ " byte total overflow"))
  else return total + value

structure EventsStacksCollector where
  fileHeader : Option FileHeader := none
  tracker : GenerationTracker := {}
  groups : IdMap EventsStacksGroup := ∅
  aggregatedEventCount : ℕ := 0
  unmatchedFreeCount : ℕ := 0

def EventsStacksGroup.noteApi (group : EventsStacksGroup) (apiId : ℕ) : EventsStacksGroup :=
  if apiId ∈ group.apiIds then group else { group with apiIds := group.apiIds ++ [apiId] }

/-- The size that an allocation or a reallocation asks for. -/
def eventRequestedSize : EventPayload → Option ℕ
  | .allocation payload => some payload.requestedSize
  | .reallocation payload => some payload.requestedSize
  | _ => none

namespace EventsStacksCollector

/-- `group_for`: the group of the stack, or a new one, whose sample is the event. -/
def groupFor (collector : EventsStacksCollector) (event : Event) : EventsStacksGroup :=
  match collector.groups[event.header.stackId]? with
  | none => { stackId := event.header.stackId, sampleEvent := event }
  | some group =>
      if group.calls = 0 then { group with stackId := event.header.stackId, sampleEvent := event }
      else group

/-- Store the group of the event, which was counted. -/
def store (collector : EventsStacksCollector) (event : Event) (group : EventsStacksGroup) :
    EventsStacksCollector :=
  { collector with
    groups := collector.groups.insert event.header.stackId group
    aggregatedEventCount := increment collector.aggregatedEventCount }

def countUntrackedFree (collector : EventsStacksCollector) (event : Event) :
    EventsStacksCollector :=
  let group := (collector.groupFor event).noteApi event.header.apiId
  { collector.store event { group with
      freeCalls := increment group.freeCalls
      calls := increment group.calls } with
    unmatchedFreeCount := increment collector.unmatchedFreeCount }

def countAllocation (collector : EventsStacksCollector) (event : Event) (size : ℕ) :
    Except StacksError EventsStacksCollector := do
  let group := (collector.groupFor event).noteApi event.header.apiId
  let allocBytes ← checkedAddBytes group.allocBytes size "allocation stack group"
  return collector.store event { group with
    allocCalls := increment group.allocCalls
    calls := increment group.calls
    allocBytes := allocBytes }

def countFree (collector : EventsStacksCollector) (event : Event) (size : ℕ) :
    Except StacksError EventsStacksCollector := do
  let group := (collector.groupFor event).noteApi event.header.apiId
  let freeBytes ← checkedAddBytes group.freeBytes size "free stack group"
  return collector.store event { group with
    freeCalls := increment group.freeCalls
    calls := increment group.calls
    freeBytes := freeBytes }

/-- A free that went well, of an allocation that is not live. -/
def untrackedFree (collector : EventsStacksCollector) (event : Event) : Bool :=
  match event.payload with
  | .free free => callSucceeded event.header.status ∧
      free.allocationId ∉ collector.tracker.liveAllocations
  | _ => false

end EventsStacksCollector

section Collector

variable (window : StacksWindow) (filter : AnalysisFilter)
  (resolver : Option EventMetadataResolver)

def StacksWindow.inWindow (window : StacksWindow) (header : FileHeader) (event : Event) :
    Except TraceTimeError Bool := do
  if !(← windowAtOrAfter window.fromBound header event) then return false
  else match window.toBound with
    | none => return true
    | some bound => windowBefore bound header event

/-- `selected`: a call that went well, in the window, that the filter matches. -/
def selected (header : FileHeader) (event : Event) : Except StacksError Bool :=
  if callSucceeded event.header.status then do
    if !(← (window.inWindow header event).mapError .time) then return false
    else (filter.matchesResolved event resolver).mapError .filter
  else return false

namespace EventsStacksCollector

def observeGenerationEnded (header : FileHeader) (collector : EventsStacksCollector)
    (generation : MemoryGeneration) (event : Event) :
    Except StacksError EventsStacksCollector := do
  if generation.kind ≠ .heapAllocation ∨ eventOperation event.payload ≠ .free then
    return collector
  else if !(← selected window filter resolver header event) then return collector
  else collector.countFree event generation.size

/-- The callback that is set; the others are not. -/
def observeNotification (header : FileHeader) (collector : EventsStacksCollector) :
    Notification → Except StacksError EventsStacksCollector
  | .ended generation _ event =>
      observeGenerationEnded window filter resolver header collector generation event
  | _ => return collector

/-- The end of `observe`, after the tracker has seen the event. -/
def observeTracked (header : FileHeader) (untracked : Bool) (collector : EventsStacksCollector)
    (event : Event) : Except StacksError EventsStacksCollector := do
  if ← (if untracked then selected window filter resolver header event else return false) then
    return collector.countUntrackedFree event
  else match eventRequestedSize event.payload with
    | none => return collector
    | some size =>
        if !(← selected window filter resolver header event) then return collector
        else collector.countAllocation event size

def observe (collector : EventsStacksCollector) (event : Event) :
    Except StacksError EventsStacksCollector :=
  match collector.fileHeader with
  | none => throw (.stacks "event appeared before FileHeader")
  | some header => do
      let untracked := collector.untrackedFree event
      let (tracker, notes) ← (collector.tracker.observe event).mapError .trace
      let collector ← notes.foldlM (observeNotification window filter resolver header)
        { collector with tracker := tracker }
      observeTracked window filter resolver header untracked collector event

/-- The callbacks that `analyze` sets. -/
def hear (collector : EventsStacksCollector) : Callback →
    Except StacksError EventsStacksCollector
  | .fileHeader header => return { collector with fileHeader := some header }
  | .event event => observe window filter resolver collector event
  | _ => return collector

end EventsStacksCollector

structure EventsStacksResult where
  trace : EventStreamResult
  window : StacksWindow
  groups : List EventsStacksGroup
  aggregatedEventCount : ℕ
  unmatchedFreeCount : ℕ

/-- `analyze_event_stacks`. What a callback throws ends the analysis, so that it comes before
what the decoder throws later. -/
def analyzeEventStacks (options : EventStreamOptions) (decompressors : Decompressors)
    (input : Bytes) (sort : StacksSort) : Except StacksError EventsStacksResult := do
  validateWindow window
  failIf (filter.RequiresMetadata ∧ resolver.isNone = true)
    (.filter AnalysisFilter.resolverMissing)
  let analysis := analyzeEventStream options decompressors input
  let collector ← analysis.log.foldlM (EventsStacksCollector.hear window filter resolver) {}
  let trace ← analysis.outcome.mapError .trace
  return {
    trace := trace
    window := window
    groups := sortEventGroups (collector.groups.toList.map Prod.snd) sort
    aggregatedEventCount := collector.aggregatedEventCount
    unmatchedFreeCount := collector.unmatchedFreeCount }

end Collector

end Noleax.Analyzer
