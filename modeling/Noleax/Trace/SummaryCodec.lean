import Mathlib.Combinatorics.Colex
import Noleax.Trace.MemoryCodec
import Noleax.Trace.MetadataCodec
import Noleax.Trace.ModuleCodec

/-!
# Statistics and the end of the trace (`src/trace/record_codec.cpp`)

The records that close a trace. The mask of the end record is the set of its bits.
-/

namespace Noleax.Trace

open Lib

/-! ## Statistics -/

/-- `StatisticsRecordType::kCaptureStatistics` -/
def captureStatisticsType : ℕ := 1

def appendApiStatistics (api : ApiStatistics) : Bytes :=
  appendU32 api.apiId ++ appendU32 0 ++ appendU64 api.observedCalls ++
    appendU64 api.successfulOperations ++ appendU64 api.failedOperations ++
    appendU64 api.filteredBeforeQueue ++ appendU64 api.droppedEvents

def readApiStatistics : PayloadReader ApiStatistics := do
  let apiId ← readU32
  expectZeros 4
  let observedCalls ← readU64
  let successfulOperations ← readU64
  let failedOperations ← readU64
  let filteredBeforeQueue ← readU64
  let droppedEvents ← readU64
  return ⟨apiId, observedCalls, successfulOperations, failedOperations, filteredBeforeQueue,
    droppedEvents⟩

def appendStatistics (statistics : CaptureStatistics) : Bytes :=
  appendU64 statistics.observedCalls ++ appendU64 statistics.successfulOperations ++
    appendU64 statistics.failedOperations ++ appendU64 statistics.filteredBeforeQueue ++
    appendU64 statistics.droppedEvents ++ appendU64 statistics.uniqueStacks ++
    appendU64 statistics.reusedStacks ++ appendU64 statistics.writtenUncompressedBytes ++
    appendU64 statistics.writtenStoredBytes ++ appendU32 statistics.perApi.length ++ appendU32 0 ++
    statistics.perApi.flatMap appendApiStatistics

def readStatistics (size : ℕ) : PayloadReader CaptureStatistics := do
  let observedCalls ← readU64
  let successfulOperations ← readU64
  let failedOperations ← readU64
  let filteredBeforeQueue ← readU64
  let droppedEvents ← readU64
  let uniqueStacks ← readU64
  let reusedStacks ← readU64
  let writtenUncompressedBytes ← readU64
  let writtenStoredBytes ← readU64
  let apiCount ← readU32
  expectZeros 4
  check (failIf ((size - 80) / 48 < apiCount)
    (.recordCodec "per-API statistics count exceeds the record payload"))
  let perApi ← readMany readApiStatistics apiCount
  expectDone
  let statistics : CaptureStatistics := ⟨observedCalls, successfulOperations, failedOperations,
    filteredBeforeQueue, droppedEvents, uniqueStacks, reusedStacks, writtenUncompressedBytes,
    writtenStoredBytes, perApi⟩
  check (asInvalid "Statistics" (validateStatistics statistics))
  return statistics

def appendStatisticsRecord (chunkPayload : Bytes) (statistics : CaptureStatistics)
    (maximumRecordSize : ℕ) : Except Error Bytes := do
  validateStatistics statistics
  failIf (2 ^ 32 - 1 < statistics.perApi.length ∨
      (2 ^ 32 - 1 - 80) / 48 < statistics.perApi.length)
    (.recordCodec "too many per-API statistics entries")
  appendRecord chunkPayload ⟨captureStatisticsType, recordVersion, appendStatistics statistics⟩
    maximumRecordSize

def decodeStatisticsRecord : RecordView → Except Error (Option CaptureStatistics) :=
  decodeRecord captureStatisticsType readStatistics

def ApiStatistics.InRange (api : ApiStatistics) : Prop :=
  IsWord 4 api.apiId ∧ IsWord 8 api.observedCalls ∧ IsWord 8 api.successfulOperations ∧
    IsWord 8 api.failedOperations ∧ IsWord 8 api.filteredBeforeQueue ∧ IsWord 8 api.droppedEvents

def CaptureStatistics.InRange (statistics : CaptureStatistics) : Prop :=
  IsWord 8 statistics.observedCalls ∧ IsWord 8 statistics.successfulOperations ∧
    IsWord 8 statistics.failedOperations ∧ IsWord 8 statistics.filteredBeforeQueue ∧
    IsWord 8 statistics.droppedEvents ∧ IsWord 8 statistics.uniqueStacks ∧
    IsWord 8 statistics.reusedStacks ∧ IsWord 8 statistics.writtenUncompressedBytes ∧
    IsWord 8 statistics.writtenStoredBytes ∧ IsWord 4 statistics.perApi.length ∧
    ∀ api ∈ statistics.perApi, api.InRange

theorem reads_apiStatistics :
    Reads ApiStatistics.InRange appendApiStatistics readApiStatistics := by
  apply ReadsTo.reads
  refine ReadsTo.layout (.field reads_u32 ApiStatistics.apiId fun _ _ =>
    .skip (reads_zeros 4) <|
    .field reads_u64 ApiStatistics.observedCalls fun _ _ =>
    .field reads_u64 ApiStatistics.successfulOperations fun _ _ =>
    .field reads_u64 ApiStatistics.failedOperations fun _ _ =>
    .field reads_u64 ApiStatistics.filteredBeforeQueue fun _ _ =>
    .field reads_u64 ApiStatistics.droppedEvents fun _ _ => .done (Q := fun _ => True) ?_) ?_ ?_
  · rintro ⟨⟩
    simp [and_assoc]
  · simp [ApiStatistics.InRange]
  · simp [appendApiStatistics]

theorem appendStatistics_length (statistics : CaptureStatistics) :
    (appendStatistics statistics).length = 80 + statistics.perApi.length * 48 := by
  have hapis := flatMap_length appendApiStatistics 48
    (fun _ => by simp [appendApiStatistics, appendU64, appendU32]) statistics.perApi
  simp only [appendStatistics, List.length_append, hapis]
  simp [appendU64, appendU32]

theorem readsTo_statistics (size : ℕ) :
    ReadsTo (fun rest => rest = [])
      (fun statistics => (statistics.InRange ∧ validateStatistics statistics = .ok ()) ∧
        statistics.perApi.length ≤ (size - 80) / 48)
      appendStatistics (readStatistics size) := by
  refine ReadsTo.layout (.field reads_u64 CaptureStatistics.observedCalls fun _ _ =>
    .field reads_u64 CaptureStatistics.successfulOperations fun _ _ =>
    .field reads_u64 CaptureStatistics.failedOperations fun _ _ =>
    .field reads_u64 CaptureStatistics.filteredBeforeQueue fun _ _ =>
    .field reads_u64 CaptureStatistics.droppedEvents fun _ _ =>
    .field reads_u64 CaptureStatistics.uniqueStacks fun _ _ =>
    .field reads_u64 CaptureStatistics.reusedStacks fun _ _ =>
    .field reads_u64 CaptureStatistics.writtenUncompressedBytes fun _ _ =>
    .field reads_u64 CaptureStatistics.writtenStoredBytes fun _ _ =>
    .field reads_u32 (fun statistics : CaptureStatistics => statistics.perApi.length)
      fun apiCount _ =>
    .skip (reads_zeros 4) <| .test ?count fun hcount =>
    .known (reads_readMany reads_apiStatistics _) CaptureStatistics.perApi
      (fun apis => ∀ api ∈ apis, api.InRange) ?apis fun apis hapis =>
    .ending <|
    .valid (fun statistics => asInvalid "Statistics" (validateStatistics statistics))
      (Q := fun statistics => statistics.perApi.length ≤ (size - 80) / 48) ?done) ?_ ?_
  case count =>
    rintro statistics ⟨-, rfl⟩ ⟨-, hlimit, -⟩
    exact Nat.not_lt.mpr hlimit
  case apis =>
    rintro statistics ⟨-, hcount⟩
    exact and_iff_right hcount
  case done =>
    rintro ⟨⟩
    obtain ⟨rfl, -⟩ := hapis
    simp only [CaptureStatistics.mk.injEq]
    constructor
    · tauto
    · rintro ⟨rfl, rfl, rfl, rfl, rfl, rfl, rfl, rfl, rfl, rfl⟩
      simpa using hcount
  · intro statistics
    rw [asInvalid_eq_ok]
    unfold CaptureStatistics.InRange
    tauto
  · simp [appendStatistics]

theorem statistics_roundTrip :
    RoundTrip CaptureStatistics.InRange appendStatisticsRecord decodeStatisticsRecord := by
  refine roundTrip_of (decodes_record fun _ _ =>
    ReadsTo.runReader_sized readsTo_statistics ?_)
    (fun _ _ _ _ => limited_bind_eq_ok) ?_ fun _ => by decide
  · intro statistics _
    rw [appendStatistics_length]
    omega
  · intro statistics maximumRecordSize _ hsize hlimit
    rw [appendStatistics_length] at hsize hlimit
    omega

/-! ## The mask of a completeness report -/

/-- The position of the issue in the mask. -/
def CompletenessIssue.bit : CompletenessIssue → ℕ
  | captureDidNotStartAtProcessStart => 0
  | preexistingAllocationsUnknown => 1
  | eventLoss => 2
  | traceTruncated => 3
  | writerError => 4
  | unknownRecordSkipped => 5
  | missingEndOfTrace => 6
  | abnormalStop => 7
  | stackDataLoss => 8
  | partiallyUnderstoodFormat => 9
  | customHookInstallFailed => 10
  | unknown bit => 11 + bit

/-- One issue for each of the 32 bits. -/
def completenessIssues : List CompletenessIssue :=
  [.captureDidNotStartAtProcessStart, .preexistingAllocationsUnknown, .eventLoss, .traceTruncated,
    .writerError, .unknownRecordSkipped, .missingEndOfTrace, .abnormalStop, .stackDataLoss,
    .partiallyUnderstoodFormat, .customHookInstallFailed] ++
    (List.finRange 21).map .unknown

namespace CompletenessReport

/-- `CompletenessReport::mask` -/
def mask (report : CompletenessReport) : ℕ := ∑ issue ∈ report, 2 ^ issue.bit

/-- `CompletenessReport::from_mask`, which keeps the unknown bits. -/
def fromMask (mask : ℕ) : CompletenessReport :=
  (completenessIssues.filter fun issue => mask.testBit issue.bit).toFinset

end CompletenessReport

theorem CompletenessIssue.bit_injective {issue other : CompletenessIssue}
    (h : issue.bit = other.bit) : issue = other := by
  cases issue <;> cases other <;> simp_all only [bit, CompletenessIssue.unknown.injEq] <;> omega

theorem mem_completenessIssues (issue : CompletenessIssue) : issue ∈ completenessIssues := by
  cases issue with
  | unknown bit =>
      exact List.mem_append_right _ (List.mem_map.mpr ⟨bit, List.mem_finRange bit, rfl⟩)
  | _ => decide

theorem exists_issue_of_bit : ∀ bit < 32, ∃ issue ∈ completenessIssues, issue.bit = bit := by
  decide

theorem testBit_sum_two_pow (bits : Finset ℕ) (bit : ℕ) :
    (∑ i ∈ bits, 2 ^ i).testBit bit ↔ bit ∈ bits := by
  rw [← Nat.mem_bitIndices, ← List.mem_toFinset, Finset.toFinset_bitIndices_sum_two_pow]

namespace CompletenessReport

theorem mask_testBit (report : CompletenessReport) (bit : ℕ) :
    report.mask.testBit bit ↔ ∃ issue ∈ report, issue.bit = bit := by
  have hsum : report.mask = ∑ i ∈ report.image CompletenessIssue.bit, 2 ^ i :=
    (Finset.sum_image fun _ _ _ _ h => CompletenessIssue.bit_injective h).symm
  rw [hsum, testBit_sum_two_pow, Finset.mem_image]

theorem mem_fromMask {mask : ℕ} {issue : CompletenessIssue} :
    issue ∈ fromMask mask ↔ mask.testBit issue.bit := by
  simp [fromMask, mem_completenessIssues]

theorem bit_lt (issue : CompletenessIssue) : issue.bit < 32 := by
  cases issue <;> simp only [CompletenessIssue.bit] <;> omega

theorem mask_isWord (report : CompletenessReport) : IsWord 4 report.mask := by
  show report.mask < 2 ^ 32
  apply Nat.lt_pow_two_of_testBit
  intro bit hbit
  by_contra h
  obtain ⟨issue, -, rfl⟩ := (report.mask_testBit bit).mp (by simpa using h)
  exact absurd (bit_lt issue) (Nat.not_lt.mpr hbit)

theorem mask_fromMask {mask : ℕ} (h : IsWord 4 mask) : (fromMask mask).mask = mask := by
  apply Nat.eq_of_testBit_eq
  intro bit
  rw [Bool.eq_iff_iff, mask_testBit]
  constructor
  · rintro ⟨issue, hissue, rfl⟩
    exact mem_fromMask.mp hissue
  · intro hbit
    have hlt : bit < 32 := by
      by_contra hge
      have hmask : mask < 2 ^ bit :=
        Nat.lt_of_lt_of_le h (Nat.pow_le_pow_right (n := 2) (by decide) (Nat.not_lt.mp hge))
      rw [Nat.testBit_lt_two_pow hmask] at hbit
      cases hbit
    obtain ⟨issue, -, rfl⟩ := exists_issue_of_bit bit hlt
    exact ⟨issue, mem_fromMask.mpr hbit, rfl⟩

theorem fromMask_mask (report : CompletenessReport) : fromMask report.mask = report := by
  ext issue
  rw [mem_fromMask, mask_testBit]
  constructor
  · rintro ⟨other, hother, hbit⟩
    rwa [← CompletenessIssue.bit_injective hbit]
  · intro hissue
    exact ⟨issue, hissue, rfl⟩

end CompletenessReport

/-! ## The end of the trace -/

/-- `EndRecordType::kEndOfTrace` -/
def endOfTraceType : ℕ := 1

def readCompleteness : PayloadReader CompletenessReport := do
  return CompletenessReport.fromMask (← readU32)

def appendEndOfTrace (trace : EndOfTrace) : Bytes :=
  appendU64 trace.finalSequence ++ appendU64 trace.finalMonotonicTicks ++
    appendBool trace.normalStop ++ appendBool trace.targetExitCode.isSome ++ appendZeros 6 ++
    appendI32 (trace.targetExitCode.getD 0) ++ appendU32 0 ++
    appendU32 trace.aggregateCompleteness.mask ++ appendU32 0

def readEndOfTrace : PayloadReader EndOfTrace := do
  let finalSequence ← readU64
  let finalMonotonicTicks ← readU64
  let normalStop ← decodeBool "normal-stop boolean is not zero or one"
  let hasTargetExitCode ← decodeBool "target-exit-code presence is not zero or one"
  expectZeros 6
  let exitCode ← readI32
  expectZeros 4
  let aggregateCompleteness ← readCompleteness
  expectZeros 4
  expectDone
  let targetExitCode ← check (decodeOptional hasTargetExitCode exitCode (exitCode = 0)
    "absent target exit code must be zero")
  let trace : EndOfTrace := ⟨finalSequence, finalMonotonicTicks, normalStop, targetExitCode,
    aggregateCompleteness⟩
  check (asInvalid "EndOfTrace" (validateEndOfTrace trace))
  return trace

def appendEndOfTraceRecord (chunkPayload : Bytes) (trace : EndOfTrace)
    (maximumRecordSize : ℕ) : Except Error Bytes := do
  validateEndOfTrace trace
  appendRecord chunkPayload ⟨endOfTraceType, recordVersion, appendEndOfTrace trace⟩
    maximumRecordSize

def decodeEndOfTraceRecord : RecordView → Except Error (Option EndOfTrace) :=
  decodeRecord endOfTraceType fun _ => readEndOfTrace

def EndOfTrace.InRange (trace : EndOfTrace) : Prop :=
  IsWord 8 trace.finalSequence ∧ IsWord 8 trace.finalMonotonicTicks ∧
    IsInt32 (trace.targetExitCode.getD 0)

theorem reads_completeness :
    Reads (fun _ => True) (fun report => appendU32 (CompletenessReport.mask report))
      readCompleteness := by
  refine reads_u32.mapped CompletenessReport.mask ?_ ?_
  · intro mask hmask
    exact ⟨trivial, CompletenessReport.mask_fromMask hmask⟩
  · intro report _
    exact ⟨report.mask_isWord, report.fromMask_mask⟩

theorem readsTo_endOfTrace :
    ReadsTo (fun rest => rest = [])
      (fun trace => trace.InRange ∧ validateEndOfTrace trace = .ok ()) appendEndOfTrace
      readEndOfTrace := by
  refine ReadsTo.layout (.field reads_u64 EndOfTrace.finalSequence fun _ _ =>
    .field reads_u64 EndOfTrace.finalMonotonicTicks fun _ _ =>
    .field (reads_bool _) EndOfTrace.normalStop fun _ _ =>
    .field (reads_bool _) (fun trace : EndOfTrace => trace.targetExitCode.isSome)
      fun present _ =>
    .skip (reads_zeros 6) <|
    .field reads_i32 (fun trace : EndOfTrace => trace.targetExitCode.getD 0) fun exitCode _ =>
    .skip (reads_zeros 4) <|
    .field reads_completeness EndOfTrace.aggregateCompleteness fun _ _ =>
    .skip (reads_zeros 4) <|
    .ending <|
    .look EndOfTrace.targetExitCode ?exit fun code hcode =>
    .valid (fun trace => asInvalid "EndOfTrace" (validateEndOfTrace trace))
      (Q := fun _ => True) ?done) ?_ ?_
  case exit =>
    intro trace hfields _
    simp only [and_assoc] at hfields
    obtain ⟨-, -, -, -, hpresent, hcode, -⟩ := hfields
    rw [decodeOptional_eq_ok, ← hpresent, ← hcode]
    cases h : trace.targetExitCode <;> simp
  case done =>
    have hvalue : code.getD 0 = exitCode := by
      have helim := decodeOptional_elim hcode id id
      cases code <;> exact helim
    have hpresent := (decodeOptional_eq_ok.mp hcode).1
    rintro ⟨⟩
    simp only [EndOfTrace.mk.injEq]
    constructor
    · tauto
    · rintro ⟨rfl, rfl, rfl, rfl, rfl⟩
      simp [hvalue, hpresent]
  · intro trace
    rw [asInvalid_eq_ok]
    unfold EndOfTrace.InRange
    tauto
  · simp [appendEndOfTrace]

theorem endOfTrace_roundTrip :
    RoundTrip EndOfTrace.InRange appendEndOfTraceRecord decodeEndOfTraceRecord :=
  roundTrip_of (decodes_record fun _ _ => readsTo_endOfTrace.runReader_eq_ok)
    (fun _ _ _ _ => validated_bind_eq_ok) (fun _ _ _ _ _ => trivial) fun _ => by decide

/-! ## All kinds -/

end Noleax.Trace
