import Noleax.Trace.Completeness
import Noleax.Trace.Snapshot
import Noleax.Trace.Wire

/-!
# Metadata records (`src/trace/record_codec.cpp`)

The capture scope, the custom hooks and the event buffer. Where a layout carries the
lengths of its strings, its reader is told the size of the payload and compares.
-/

namespace Noleax.Trace

open Lib

/-- `MetadataRecordType` -/
def captureScopeType : ℕ := 1
def customHookDefinitionType : ℕ := 2
def customHookFailureType : ℕ := 3
def bufferConfigurationType : ℕ := 4

/-! ## The capture scope -/

def appendCaptureScope (scope : CaptureScope) : Bytes :=
  appendBool scope.startedAtProcessStart ++ appendBool scope.preexistingAllocationsUnknown ++
    appendZeros 6

def readCaptureScope : PayloadReader CaptureScope := do
  let startedAtProcessStart ← decodeBool "capture-start boolean is not zero or one"
  let preexistingAllocationsUnknown ←
    decodeBool "preexisting-allocation boolean is not zero or one"
  expectZeros 6
  expectDone
  let scope : CaptureScope := ⟨startedAtProcessStart, preexistingAllocationsUnknown⟩
  check (asInvalid "CaptureScope" (validateCaptureScope scope))
  return scope

def appendCaptureScopeRecord (chunkPayload : Bytes) (scope : CaptureScope)
    (maximumRecordSize : ℕ) : Except Error Bytes := do
  validateCaptureScope scope
  appendRecord chunkPayload ⟨captureScopeType, recordVersion, appendCaptureScope scope⟩
    maximumRecordSize

def decodeCaptureScopeRecord : RecordView → Except Error (Option CaptureScope) :=
  decodeRecord captureScopeType fun _ => readCaptureScope

theorem readsTo_captureScope :
    ReadsTo (fun rest => rest = []) (fun scope => True ∧ validateCaptureScope scope = .ok ())
      appendCaptureScope readCaptureScope := by
  refine ReadsTo.layout (.field (reads_bool _) CaptureScope.startedAtProcessStart fun _ _ =>
    .field (reads_bool _) CaptureScope.preexistingAllocationsUnknown fun _ _ =>
    .skip (reads_zeros 6) <|
    .ending (.valid (fun scope => asInvalid "CaptureScope" (validateCaptureScope scope))
      (Q := fun _ => True) ?_)) ?_ ?_
  · rintro ⟨⟩
    simp
  · simp [asInvalid_eq_ok]
  · simp [appendCaptureScope]

theorem captureScope_roundTrip :
    RoundTrip (fun _ => True) appendCaptureScopeRecord decodeCaptureScopeRecord :=
  roundTrip_of (decodes_record fun _ _ => readsTo_captureScope.runReader_eq_ok)
    (fun _ _ _ _ => validated_bind_eq_ok) (fun _ _ _ _ _ => trivial) fun _ => by decide

/-! ## Custom hook definitions -/

def appendCustomHookDefinition (definition : CustomHookDefinition) : Bytes :=
  appendU32 definition.apiId ++ appendU32 definition.moduleName.length ++
    appendU32 definition.label.length ++ appendU32 0 ++ definition.moduleName ++ definition.label

def readCustomHookDefinition (size : ℕ) : PayloadReader CustomHookDefinition := do
  check (failIf (size < 16) (.recordCodec "custom hook definition payload is truncated"))
  let apiId ← readU32
  let moduleNameSize ← readU32
  let labelSize ← readU32
  expectZeros 4
  check (failIf (moduleNameSize + labelSize ≠ size - 16)
    (.recordCodec "custom hook definition string sizes do not match the record payload"))
  let moduleName ← readString moduleNameSize
  let label ← readString labelSize
  expectDone
  let definition : CustomHookDefinition := ⟨apiId, moduleName, label⟩
  check (asInvalid "CustomHookDefinition" (validateCustomHookDefinition definition))
  return definition

def appendCustomHookDefinitionRecord (chunkPayload : Bytes) (definition : CustomHookDefinition)
    (maximumRecordSize : ℕ) : Except Error Bytes := do
  validateCustomHookDefinition definition
  failIf (stringsExceed definition.moduleName definition.label 16 maximumRecordSize)
    (.recordCodec "custom hook definition exceeds the configured record size limit")
  appendRecord chunkPayload
    ⟨customHookDefinitionType, recordVersion, appendCustomHookDefinition definition⟩
    maximumRecordSize

def decodeCustomHookDefinitionRecord : RecordView → Except Error (Option CustomHookDefinition) :=
  decodeRecord customHookDefinitionType readCustomHookDefinition

def CustomHookDefinition.InRange (definition : CustomHookDefinition) : Prop :=
  IsWord 4 definition.apiId ∧ IsWord 4 definition.moduleName.length ∧
    IsWord 4 definition.label.length

theorem appendCustomHookDefinition_length (definition : CustomHookDefinition) :
    (appendCustomHookDefinition definition).length =
      16 + definition.moduleName.length + definition.label.length := by
  simp [appendCustomHookDefinition, appendU32]
  omega

theorem readsTo_customHookDefinition (size : ℕ) :
    ReadsTo (fun rest => rest = [])
      (fun definition => (definition.InRange ∧ validateCustomHookDefinition definition = .ok ()) ∧
        size = 16 + definition.moduleName.length + definition.label.length)
      appendCustomHookDefinition (readCustomHookDefinition size) := by
  refine ReadsTo.layout (.test ?truncated fun htruncated =>
    .field reads_u32 CustomHookDefinition.apiId fun _ _ =>
    .field reads_u32 (fun definition : CustomHookDefinition => definition.moduleName.length)
      fun moduleNameSize _ =>
    .field reads_u32 (fun definition : CustomHookDefinition => definition.label.length)
      fun labelSize _ =>
    .skip (reads_zeros 4) <| .test ?sizes fun hsizes =>
    .known (reads_string _) CustomHookDefinition.moduleName (fun _ => True) ?moduleName
      fun moduleName hmoduleName =>
    .known (reads_string _) CustomHookDefinition.label (fun _ => True) ?label
      fun label hlabel =>
    .ending (.valid (fun definition =>
        asInvalid "CustomHookDefinition" (validateCustomHookDefinition definition))
      (Q := fun definition : CustomHookDefinition =>
        size = 16 + definition.moduleName.length + definition.label.length) ?done)) ?_ ?_
  case truncated =>
    rintro definition - ⟨-, -, -, -, -, hsize, -⟩
    omega
  case sizes =>
    rintro definition ⟨⟨-, rfl⟩, rfl⟩ ⟨-, -, hsize, -⟩
    omega
  case moduleName =>
    rintro definition ⟨⟨-, hsize⟩, -⟩
    exact iff_true_intro hsize
  case label =>
    rintro definition ⟨⟨-, hsize⟩, -⟩
    exact iff_true_intro hsize
  case done =>
    subst hmoduleName hlabel
    rintro ⟨⟩
    simp only [CustomHookDefinition.mk.injEq]
    constructor
    · tauto
    · rintro ⟨rfl, rfl, rfl⟩
      exact ⟨⟨⟨⟨⟨⟨trivial, rfl⟩, rfl⟩, rfl⟩, rfl⟩, rfl⟩, by omega⟩
  · intro definition
    rw [asInvalid_eq_ok]
    unfold CustomHookDefinition.InRange
    tauto
  · simp [appendCustomHookDefinition]

theorem customHookDefinition_roundTrip :
    RoundTrip CustomHookDefinition.InRange appendCustomHookDefinitionRecord
      decodeCustomHookDefinitionRecord := by
  refine roundTrip_of (decodes_record fun _ _ =>
    ReadsTo.runReader_sized readsTo_customHookDefinition ?_)
    (fun _ _ _ _ => limited_bind_eq_ok) ?_ fun _ => by decide
  · intro definition _
    exact appendCustomHookDefinition_length definition
  · intro definition maximumRecordSize _ hsize hlimit
    rw [appendCustomHookDefinition_length] at hsize hlimit
    unfold stringsExceed
    omega

/-! ## Custom hook failures -/

def CustomHookFailureRole.coding : Coding CustomHookFailureRole where
  values := [.alloc, .realloc, .free, .point]
  code
    | .alloc => 0
    | .realloc => 1
    | .free => 2
    | .point => 255
  complete := by rintro ⟨⟩ <;> decide
  injective := by rintro ⟨⟩ ⟨⟩ <;> decide
  byte := by rintro ⟨⟩ <;> decide

def CustomHookFailureReason.coding : Coding CustomHookFailureReason where
  values := [.moduleNotLoaded, .exportNotFound, .forwardedExport, .invalidRva, .wrongSignature,
    .imageIdentityMismatch, .backendUnavailable, .other]
  code
    | .moduleNotLoaded => 1
    | .exportNotFound => 2
    | .forwardedExport => 3
    | .invalidRva => 4
    | .wrongSignature => 5
    | .imageIdentityMismatch => 6
    | .backendUnavailable => 7
    | .other => 255
  complete := by rintro ⟨⟩ <;> decide
  injective := by rintro ⟨⟩ ⟨⟩ <;> decide
  byte := by rintro ⟨⟩ <;> decide

def appendCustomHookFailure (failure : CustomHookFailure) : Bytes :=
  appendU32 failure.module.length ++ appendU32 failure.detail.length ++
    CustomHookFailureRole.coding.append failure.role ++
    CustomHookFailureReason.coding.append failure.reason ++ appendZeros 6 ++ failure.module ++
    failure.detail

/-- The role and the reason are decoded after the strings. -/
def readCustomHookFailure (size : ℕ) : PayloadReader CustomHookFailure := do
  check (failIf (size < 16) (.recordCodec "custom hook failure payload is truncated"))
  let moduleSize ← readU32
  let detailSize ← readU32
  let roleCode ← readU8
  let reasonCode ← readU8
  expectZeros 6
  check (failIf (moduleSize + detailSize ≠ size - 16)
    (.recordCodec "custom hook failure string sizes do not match the record payload"))
  let module ← readString moduleSize
  let detail ← readString detailSize
  expectDone
  let role ← check (CustomHookFailureRole.coding.decode
    (.recordCodec "custom hook failure role is not supported") roleCode)
  let reason ← check (CustomHookFailureReason.coding.decode
    (.recordCodec "custom hook failure reason is not supported") reasonCode)
  let failure : CustomHookFailure := ⟨module, role, reason, detail⟩
  check (asInvalid "CustomHookFailure" (validateCustomHookFailure failure))
  return failure

def appendCustomHookFailureRecord (chunkPayload : Bytes) (failure : CustomHookFailure)
    (maximumRecordSize : ℕ) : Except Error Bytes := do
  validateCustomHookFailure failure
  failIf (stringsExceed failure.module failure.detail 16 maximumRecordSize)
    (.recordCodec "custom hook failure exceeds the configured record size limit")
  appendRecord chunkPayload
    ⟨customHookFailureType, recordVersion, appendCustomHookFailure failure⟩ maximumRecordSize

def decodeCustomHookFailureRecord : RecordView → Except Error (Option CustomHookFailure) :=
  decodeRecord customHookFailureType readCustomHookFailure

def CustomHookFailure.InRange (failure : CustomHookFailure) : Prop :=
  IsWord 4 failure.module.length ∧ IsWord 4 failure.detail.length

theorem appendCustomHookFailure_length (failure : CustomHookFailure) :
    (appendCustomHookFailure failure).length =
      16 + failure.module.length + failure.detail.length := by
  simp [appendCustomHookFailure, appendU32, Coding.append, appendU8, appendZeros]
  omega

theorem readsTo_customHookFailure (size : ℕ) :
    ReadsTo (fun rest => rest = [])
      (fun failure => (failure.InRange ∧ validateCustomHookFailure failure = .ok ()) ∧
        size = 16 + failure.module.length + failure.detail.length)
      appendCustomHookFailure (readCustomHookFailure size) := by
  refine ReadsTo.layout (.test ?truncated fun htruncated =>
    .field reads_u32 (fun failure : CustomHookFailure => failure.module.length)
      fun moduleSize _ =>
    .field reads_u32 (fun failure : CustomHookFailure => failure.detail.length)
      fun detailSize _ =>
    .field reads_u8 (fun failure : CustomHookFailure =>
      CustomHookFailureRole.coding.code failure.role) fun roleCode _ =>
    .field reads_u8 (fun failure : CustomHookFailure =>
      CustomHookFailureReason.coding.code failure.reason) fun reasonCode _ =>
    .skip (reads_zeros 6) <| .test ?sizes fun hsizes =>
    .known (reads_string _) CustomHookFailure.module (fun _ => True) ?module
      fun module hmodule =>
    .known (reads_string _) CustomHookFailure.detail (fun _ => True) ?detail
      fun detail hdetail =>
    .ending <|
    .look CustomHookFailure.role ?role fun role hrole =>
    .look CustomHookFailure.reason ?reason fun reason hreason =>
    .valid (fun failure => asInvalid "CustomHookFailure" (validateCustomHookFailure failure))
      (Q := fun failure : CustomHookFailure =>
        size = 16 + failure.module.length + failure.detail.length) ?done) ?_ ?_
  case truncated =>
    rintro failure - ⟨-, -, -, -, -, -, hsize, -⟩
    omega
  case sizes =>
    rintro failure ⟨⟨⟨⟨-, rfl⟩, rfl⟩, -⟩, -⟩ ⟨-, -, hsize, -⟩
    omega
  case module =>
    rintro failure ⟨⟨⟨⟨-, hsize⟩, -⟩, -⟩, -⟩
    exact iff_true_intro hsize
  case detail =>
    rintro failure ⟨⟨⟨⟨-, hsize⟩, -⟩, -⟩, -⟩
    exact iff_true_intro hsize
  case role =>
    rintro failure ⟨⟨⟨⟨-, rfl⟩, -⟩, -⟩, -⟩ -
    exact (Coding.decode_eq_ok _ _).mpr rfl
  case reason =>
    rintro failure ⟨⟨⟨⟨-, rfl⟩, -⟩, -⟩, -⟩ -
    exact (Coding.decode_eq_ok _ _).mpr rfl
  case done =>
    subst hmodule hdetail
    obtain rfl := (Coding.decode_eq_ok _ _).mp hrole
    obtain rfl := (Coding.decode_eq_ok _ _).mp hreason
    rintro ⟨⟩
    simp only [CustomHookFailure.mk.injEq]
    constructor
    · tauto
    · rintro ⟨rfl, rfl, rfl, rfl⟩
      simp
      omega
  · intro failure
    have hrole := CustomHookFailureRole.coding.byte failure.role
    have hreason := CustomHookFailureReason.coding.byte failure.reason
    rw [asInvalid_eq_ok]
    unfold CustomHookFailure.InRange
    tauto
  · simp [appendCustomHookFailure, Coding.append]

theorem customHookFailure_roundTrip :
    RoundTrip CustomHookFailure.InRange appendCustomHookFailureRecord
      decodeCustomHookFailureRecord := by
  refine roundTrip_of (decodes_record fun _ _ =>
    ReadsTo.runReader_sized readsTo_customHookFailure ?_)
    (fun _ _ _ _ => limited_bind_eq_ok) ?_ fun _ => by decide
  · intro failure _
    exact appendCustomHookFailure_length failure
  · intro failure maximumRecordSize _ hsize hlimit
    rw [appendCustomHookFailure_length] at hsize hlimit
    unfold stringsExceed
    omega

/-! ## The buffer configuration -/

def appendBufferConfiguration (configuration : BufferConfiguration) : Bytes :=
  appendU64 configuration.requestedBytes ++ appendU64 configuration.effectiveSlots ++
    appendU64 configuration.eventSize ++ appendU64 configuration.slotSize ++
    appendU64 configuration.reservedBytes ++ appendU64 configuration.residentAfterInitBytes ++
    appendU32 configuration.flags ++ appendZeros 4

def readBufferConfiguration (size : ℕ) : PayloadReader BufferConfiguration := do
  check (failIf (size ≠ 56) (.recordCodec "buffer configuration payload has an invalid size"))
  let requestedBytes ← readU64
  let effectiveSlots ← readU64
  let eventSize ← readU64
  let slotSize ← readU64
  let reservedBytes ← readU64
  let residentAfterInitBytes ← readU64
  let flags ← readU32
  expectZeros 4
  expectDone
  let configuration : BufferConfiguration := ⟨requestedBytes, effectiveSlots, eventSize, slotSize,
    reservedBytes, residentAfterInitBytes, flags⟩
  check (asInvalid "BufferConfiguration" (validateBufferConfiguration configuration))
  return configuration

def appendBufferConfigurationRecord (chunkPayload : Bytes) (configuration : BufferConfiguration)
    (maximumRecordSize : ℕ) : Except Error Bytes := do
  validateBufferConfiguration configuration
  appendRecord chunkPayload
    ⟨bufferConfigurationType, recordVersion, appendBufferConfiguration configuration⟩
    maximumRecordSize

def decodeBufferConfigurationRecord : RecordView → Except Error (Option BufferConfiguration) :=
  decodeRecord bufferConfigurationType readBufferConfiguration

def BufferConfiguration.InRange (configuration : BufferConfiguration) : Prop :=
  IsWord 8 configuration.requestedBytes ∧ IsWord 8 configuration.effectiveSlots ∧
    IsWord 8 configuration.eventSize ∧ IsWord 8 configuration.slotSize ∧
    IsWord 8 configuration.reservedBytes ∧ IsWord 8 configuration.residentAfterInitBytes ∧
    IsWord 4 configuration.flags

theorem readsTo_bufferConfiguration (size : ℕ) :
    ReadsTo (fun rest => rest = [])
      (fun configuration => (configuration.InRange ∧
        validateBufferConfiguration configuration = .ok ()) ∧ size = 56)
      appendBufferConfiguration (readBufferConfiguration size) := by
  refine ReadsTo.layout (.test ?size fun hsize =>
    .field reads_u64 BufferConfiguration.requestedBytes fun _ _ =>
    .field reads_u64 BufferConfiguration.effectiveSlots fun _ _ =>
    .field reads_u64 BufferConfiguration.eventSize fun _ _ =>
    .field reads_u64 BufferConfiguration.slotSize fun _ _ =>
    .field reads_u64 BufferConfiguration.reservedBytes fun _ _ =>
    .field reads_u64 BufferConfiguration.residentAfterInitBytes fun _ _ =>
    .field reads_u32 BufferConfiguration.flags fun _ _ =>
    .skip (reads_zeros 4) <|
    .ending (.valid (fun configuration =>
        asInvalid "BufferConfiguration" (validateBufferConfiguration configuration))
      (Q := fun _ => size = 56) ?done)) ?_ ?_
  case size =>
    rintro configuration - ⟨-, -, -, -, -, -, -, hsize, -⟩
    exact not_not.mpr hsize
  case done =>
    obtain rfl := not_not.mp hsize
    rintro ⟨⟩
    simp [and_assoc]
  · intro configuration
    rw [asInvalid_eq_ok]
    unfold BufferConfiguration.InRange
    tauto
  · simp [appendBufferConfiguration]

theorem bufferConfiguration_roundTrip :
    RoundTrip BufferConfiguration.InRange appendBufferConfigurationRecord
      decodeBufferConfigurationRecord := by
  refine roundTrip_of (decodes_record fun _ _ =>
    ReadsTo.runReader_sized readsTo_bufferConfiguration ?_)
    (fun _ _ _ _ => validated_bind_eq_ok) (fun _ _ _ _ _ => trivial) fun _ => by decide
  intro configuration _
  simp [appendBufferConfiguration, appendU64, appendU32, appendZeros]

end Noleax.Trace
