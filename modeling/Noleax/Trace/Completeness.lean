import Mathlib.Data.Finset.Basic
import Noleax.Trace.Event

/-!
# Losses, statistics and completeness (`trace/completeness.hpp`, `completeness.cpp`)

The issue mask is the set of its bits; the enumerations of reasons and locations are
closed, so the tests for unknown ones belong to the decoder.
-/

namespace Noleax.Trace

open Lib

inductive LossReason where
  | queueFull | traceFull | writerError | stackCaptureFailed | rotationLimit | decoderError
deriving DecidableEq, Repr

inductive LossLocation where
  | agentQueue | writer | rotation | decoder
deriving DecidableEq, Repr

structure SequenceRange where
  first : ℕ
  last : ℕ
deriving DecidableEq, Repr

structure TickRange where
  first : ℕ
  last : ℕ
deriving DecidableEq, Repr

structure LossRecord where
  reason : LossReason
  location : LossLocation
  estimatedEventCount : Option ℕ := none
  sequenceRange : Option SequenceRange := none
  tickRange : Option TickRange := none
deriving DecidableEq, Repr

abbrev SequenceRange.Valid (range : SequenceRange) : Prop :=
  range.first ≠ 0 ∧ range.last ≠ 0 ∧ range.first ≤ range.last

abbrev TickRange.Valid (range : TickRange) : Prop := range.first ≤ range.last

def validateLossRecord (loss : LossRecord) : Except Error Unit := do
  failIf (loss.estimatedEventCount = some 0)
    (.completeness "known loss event count must not be zero")
  failIf (∃ range ∈ loss.sequenceRange, ¬ range.Valid)
    (.completeness "loss sequence range is invalid")
  failIf (∃ range ∈ loss.tickRange, ¬ range.Valid)
    (.completeness "loss tick range is reversed")

theorem validateLossRecord_eq_ok {loss : LossRecord} :
    validateLossRecord loss = .ok () ↔ loss.estimatedEventCount ≠ some 0 ∧
      (∀ range ∈ loss.sequenceRange, range.Valid) ∧ ∀ range ∈ loss.tickRange, range.Valid := by
  unfold validateLossRecord
  rw [failIf_bind_eq_ok, failIf_bind_eq_ok, failIf_eq_ok]
  push Not
  rfl

/-! ## What an event chunk carries -/

inductive EventChunkRecord where
  | event (event : Event)
  | loss (loss : LossRecord)
deriving DecidableEq, Repr

def validateEventChunkRecord : EventChunkRecord → Except Error Unit
  | .event e => validateEvent e
  | .loss l => validateLossRecord l

/-! ## Statistics -/

structure ApiStatistics where
  apiId : ℕ
  observedCalls : ℕ := 0
  successfulOperations : ℕ := 0
  failedOperations : ℕ := 0
  filteredBeforeQueue : ℕ := 0
  droppedEvents : ℕ := 0
deriving DecidableEq, Repr

structure CaptureStatistics where
  observedCalls : ℕ := 0
  successfulOperations : ℕ := 0
  failedOperations : ℕ := 0
  filteredBeforeQueue : ℕ := 0
  droppedEvents : ℕ := 0
  uniqueStacks : ℕ := 0
  reusedStacks : ℕ := 0
  writtenUncompressedBytes : ℕ := 0
  writtenStoredBytes : ℕ := 0
  perApi : List ApiStatistics := []
deriving DecidableEq, Repr

def validateCallCounts (observed succeeded failed filtered dropped : ℕ) (subject : String) :
    Except Error Unit := do
  failIf (observed < succeeded ∨ observed < failed ∨ succeeded ≠ observed - failed)
    (.completeness (subject ++ " successful and failed counts must sum to observed calls"))
  failIf (observed < filtered ∨ observed - filtered < dropped)
    (.completeness (subject ++ " filtered and dropped counts exceed observed calls"))

theorem validateCallCounts_of {observed succeeded failed filtered dropped : ℕ} (subject : String)
    (h : succeeded + failed = observed) (h' : filtered + dropped ≤ observed) :
    validateCallCounts observed succeeded failed filtered dropped subject = .ok () := by
  unfold validateCallCounts
  rw [failIf_bind_eq_ok, failIf_eq_ok]
  omega

/-- The totals of the per-API loop, with the ids seen so far. -/
structure StatisticsScan where
  observed : ℕ := 0
  succeeded : ℕ := 0
  failed : ℕ := 0
  filtered : ℕ := 0
  dropped : ℕ := 0
  seen : List ℕ := []

/-- `checked_add` of 64-bit totals. -/
def checkedTotal (total value : ℕ) : Except Error ℕ :=
  if maxU64 - value < total then
    .error (.completeness "per-API statistics overflow their aggregate")
  else .ok (total + value)

def StatisticsScan.step (scan : StatisticsScan) (api : ApiStatistics) :
    Except Error StatisticsScan := do
  failIf (api.apiId = 0) (.completeness "per-API statistics require a nonzero api_id")
  failIf (api.apiId ∈ scan.seen) (.completeness "per-API statistics contain a duplicate api_id")
  validateCallCounts api.observedCalls api.successfulOperations api.failedOperations
    api.filteredBeforeQueue api.droppedEvents "per-API"
  let observed ← checkedTotal scan.observed api.observedCalls
  let succeeded ← checkedTotal scan.succeeded api.successfulOperations
  let failed ← checkedTotal scan.failed api.failedOperations
  let filtered ← checkedTotal scan.filtered api.filteredBeforeQueue
  let dropped ← checkedTotal scan.dropped api.droppedEvents
  return {
    observed := observed
    succeeded := succeeded
    failed := failed
    filtered := filtered
    dropped := dropped
    seen := api.apiId :: scan.seen }

/-- The events a statistics record says were recorded. -/
def CaptureStatistics.recordedEvents (statistics : CaptureStatistics) : ℕ :=
  statistics.observedCalls - statistics.filteredBeforeQueue - statistics.droppedEvents

def ApiStatistics.recordedEvents (api : ApiStatistics) : ℕ :=
  api.observedCalls - api.filteredBeforeQueue - api.droppedEvents

def validateStatistics (statistics : CaptureStatistics) : Except Error Unit := do
  validateCallCounts statistics.observedCalls statistics.successfulOperations
    statistics.failedOperations statistics.filteredBeforeQueue statistics.droppedEvents "aggregate"
  let scan ← statistics.perApi.foldlM StatisticsScan.step {}
  failIf (scan.observed ≠ statistics.observedCalls ∨
      scan.succeeded ≠ statistics.successfulOperations ∨
      scan.failed ≠ statistics.failedOperations ∨
      scan.filtered ≠ statistics.filteredBeforeQueue ∨ scan.dropped ≠ statistics.droppedEvents)
    (.completeness "per-API statistics do not match their aggregate")
  failIf (statistics.recordedEvents < statistics.uniqueStacks ∨
      statistics.recordedEvents - statistics.uniqueStacks < statistics.reusedStacks)
    (.completeness "stack statistics exceed recorded event count")

/-! ### Statistics that add up -/

/-- An entry whose own counts add up. -/
structure ApiStatistics.Consistent (api : ApiStatistics) : Prop where
  id : api.apiId ≠ 0
  calls : api.successfulOperations + api.failedOperations = api.observedCalls
  recorded : api.filteredBeforeQueue + api.droppedEvents ≤ api.observedCalls

/-- Totals that are the sums of the entries, within 64 bits. -/
structure CaptureStatistics.Aggregated (statistics : CaptureStatistics) : Prop where
  observed : statistics.observedCalls = (statistics.perApi.map (·.observedCalls)).sum
  succeeded : statistics.successfulOperations =
    (statistics.perApi.map (·.successfulOperations)).sum
  failed : statistics.failedOperations = (statistics.perApi.map (·.failedOperations)).sum
  filtered : statistics.filteredBeforeQueue =
    (statistics.perApi.map (·.filteredBeforeQueue)).sum
  dropped : statistics.droppedEvents = (statistics.perApi.map (·.droppedEvents)).sum
  bound : statistics.observedCalls ≤ maxU64

theorem checkedTotal_of {total value : ℕ} (h : total + value ≤ maxU64) :
    checkedTotal total value = .ok (total + value) := by
  unfold checkedTotal
  rw [if_neg (by omega)]

/-- The totals with one more entry. -/
def StatisticsScan.add (scan : StatisticsScan) (api : ApiStatistics) : StatisticsScan where
  observed := scan.observed + api.observedCalls
  succeeded := scan.succeeded + api.successfulOperations
  failed := scan.failed + api.failedOperations
  filtered := scan.filtered + api.filteredBeforeQueue
  dropped := scan.dropped + api.droppedEvents
  seen := api.apiId :: scan.seen

theorem StatisticsScan.step_of {scan : StatisticsScan} {api : ApiStatistics}
    (h : api.Consistent) (hseen : api.apiId ∉ scan.seen)
    (hobserved : scan.observed + api.observedCalls ≤ maxU64)
    (hcalls : scan.succeeded + scan.failed = scan.observed)
    (hrecorded : scan.filtered + scan.dropped ≤ scan.observed) :
    scan.step api = .ok (scan.add api) := by
  have hc := h.calls
  have hr := h.recorded
  unfold StatisticsScan.step
  rw [failIf_of_not h.id, ok_bind, failIf_of_not hseen, ok_bind,
    validateCallCounts_of "per-API" h.calls h.recorded, ok_bind, checkedTotal_of hobserved, ok_bind,
    checkedTotal_of (by omega), ok_bind, checkedTotal_of (by omega), ok_bind,
    checkedTotal_of (by omega), ok_bind, checkedTotal_of (by omega), ok_bind]
  rfl

theorem statisticsScan_of {apis : List ApiStatistics} (h : ∀ api ∈ apis, api.Consistent)
    (hnodup : (apis.map (·.apiId)).Nodup) (scan : StatisticsScan)
    (hseen : ∀ api ∈ apis, api.apiId ∉ scan.seen)
    (hobserved : scan.observed + (apis.map (·.observedCalls)).sum ≤ maxU64)
    (hcalls : scan.succeeded + scan.failed = scan.observed)
    (hrecorded : scan.filtered + scan.dropped ≤ scan.observed) :
    ∃ seen, apis.foldlM StatisticsScan.step scan = .ok {
      observed := scan.observed + (apis.map (·.observedCalls)).sum
      succeeded := scan.succeeded + (apis.map (·.successfulOperations)).sum
      failed := scan.failed + (apis.map (·.failedOperations)).sum
      filtered := scan.filtered + (apis.map (·.filteredBeforeQueue)).sum
      dropped := scan.dropped + (apis.map (·.droppedEvents)).sum
      seen := seen } := by
  induction apis generalizing scan with
  | nil => exact ⟨scan.seen, rfl⟩
  | cons api apis ih =>
      have hapi := h api List.mem_cons_self
      have hc := hapi.calls
      have hr := hapi.recorded
      simp only [List.map_cons, List.sum_cons] at hobserved ⊢
      obtain ⟨hid, hnodup⟩ := List.nodup_cons.mp hnodup
      rw [List.foldlM_cons, StatisticsScan.step_of hapi (hseen api List.mem_cons_self)
        (by omega) hcalls hrecorded, ok_bind]
      obtain ⟨seen, hrun⟩ := ih (fun other hmem => h other (List.mem_cons_of_mem _ hmem)) hnodup
        (scan.add api)
        (by
          intro other hmem hin
          rcases List.mem_cons.mp hin with heq | hin
          · exact hid (List.mem_map.mpr ⟨other, hmem, heq⟩)
          · exact hseen other (List.mem_cons_of_mem _ hmem) hin)
        (by dsimp only [StatisticsScan.add]; omega) (by dsimp only [StatisticsScan.add]; omega)
        (by dsimp only [StatisticsScan.add]; omega)
      refine ⟨seen, hrun.trans ?_⟩
      simp only [StatisticsScan.add, Nat.add_assoc]

/-- Sums of entries that add up, add up. -/
theorem sum_calls {apis : List ApiStatistics} (h : ∀ api ∈ apis, api.Consistent) :
    (apis.map (·.successfulOperations)).sum + (apis.map (·.failedOperations)).sum =
        (apis.map (·.observedCalls)).sum ∧
      (apis.map (·.filteredBeforeQueue)).sum + (apis.map (·.droppedEvents)).sum ≤
        (apis.map (·.observedCalls)).sum := by
  induction apis with
  | nil => exact ⟨rfl, le_refl 0⟩
  | cons api apis ih =>
      have hapi := h api List.mem_cons_self
      have hc := hapi.calls
      have hr := hapi.recorded
      have := ih fun other hmem => h other (List.mem_cons_of_mem _ hmem)
      simp only [List.map_cons, List.sum_cons]
      omega

theorem validateStatistics_of {statistics : CaptureStatistics}
    (hapis : ∀ api ∈ statistics.perApi, api.Consistent)
    (hnodup : (statistics.perApi.map (·.apiId)).Nodup) (h : statistics.Aggregated)
    (hstacks : statistics.uniqueStacks + statistics.reusedStacks ≤ statistics.recordedEvents) :
    validateStatistics statistics = .ok () := by
  obtain ⟨hcalls, hrecorded⟩ := sum_calls hapis
  have hbound := h.bound
  rw [h.observed] at hbound
  obtain ⟨seen, hscan⟩ := statisticsScan_of hapis hnodup {} (by simp)
    (by change 0 + _ ≤ _; omega) rfl (le_refl 0)
  unfold validateStatistics
  rw [validateCallCounts_of "aggregate"
      (by rw [h.succeeded, h.failed, h.observed]; exact hcalls)
      (by rw [h.filtered, h.dropped, h.observed]; exact hrecorded),
    ok_bind, hscan, ok_bind, failIf_of_not, ok_bind, failIf_of_not]
  · omega
  · rw [h.observed, h.succeeded, h.failed, h.filtered, h.dropped]
    simp

/-! ## Completeness -/

/-- The bits of the issue mask, from the lowest; `unknown` are those above the known
ones, which only a mask that was read brings in. -/
inductive CompletenessIssue where
  | captureDidNotStartAtProcessStart | preexistingAllocationsUnknown | eventLoss | traceTruncated
  | writerError | unknownRecordSkipped | missingEndOfTrace | abnormalStop | stackDataLoss
  | partiallyUnderstoodFormat | customHookInstallFailed
  | unknown (bit : Fin 21)
deriving DecidableEq, Repr

abbrev CompletenessReport := Finset CompletenessIssue

structure CaptureScope where
  startedAtProcessStart : Bool := false
  preexistingAllocationsUnknown : Bool := true
deriving DecidableEq, Repr

structure EndOfTrace where
  finalSequence : ℕ := 0
  finalMonotonicTicks : ℕ := 0
  normalStop : Bool := false
  targetExitCode : Option ℤ := none
  aggregateCompleteness : CompletenessReport := ∅
deriving DecidableEq

def validateCaptureScope (scope : CaptureScope) : Except Error Unit :=
  failIf (scope.startedAtProcessStart = true ∧ scope.preexistingAllocationsUnknown = true)
    (.completeness "process-start capture cannot have unknown preexisting allocations")

def validateEndOfTrace (trace : EndOfTrace) : Except Error Unit := do
  failIf (.missingEndOfTrace ∈ trace.aggregateCompleteness)
    (.completeness "EndOfTrace cannot report itself as missing")
  failIf (trace.normalStop = true ∧ .abnormalStop ∈ trace.aggregateCompleteness)
    (.completeness "normal EndOfTrace cannot report an abnormal stop")

structure CompletenessTracker where
  report : CompletenessReport
  sawEndOfTrace : Bool := false
deriving DecidableEq

namespace CompletenessTracker

/-- The constructor; `validate_capture_scope` has run. -/
def start (scope : CaptureScope) : CompletenessTracker where
  report := {.missingEndOfTrace} ∪
    (if scope.startedAtProcessStart then ∅ else {.captureDidNotStartAtProcessStart}) ∪
    (if scope.preexistingAllocationsUnknown then {.preexistingAllocationsUnknown} else ∅)

def mark (tracker : CompletenessTracker) (issue : CompletenessIssue) : CompletenessTracker :=
  { tracker with report := insert issue tracker.report }

def markCustomHookInstallFailed (tracker : CompletenessTracker) : CompletenessTracker :=
  tracker.mark .customHookInstallFailed

/-- The issues a loss stands for. -/
def lossIssues (reason : LossReason) : CompletenessReport :=
  match reason with
  | .stackCaptureFailed => {.stackDataLoss}
  | .writerError => {.eventLoss, .writerError}
  | _ => {.eventLoss}

def observeLoss (tracker : CompletenessTracker) (loss : LossRecord) :
    Except Error CompletenessTracker := do
  failIf (tracker.sawEndOfTrace = true) (.completeness "Loss record appears after EndOfTrace")
  validateLossRecord loss
  return { tracker with report := tracker.report ∪ lossIssues loss.reason }

def observeEndOfTrace (tracker : CompletenessTracker) (trace : EndOfTrace) :
    Except Error CompletenessTracker := do
  failIf (tracker.sawEndOfTrace = true)
    (.completeness "trace contains more than one EndOfTrace record")
  validateEndOfTrace trace
  let report := tracker.report.erase .missingEndOfTrace ∪ trace.aggregateCompleteness
  return {
    report := if trace.normalStop then report else insert .abnormalStop report
    sawEndOfTrace := true }

end CompletenessTracker

end Noleax.Trace
