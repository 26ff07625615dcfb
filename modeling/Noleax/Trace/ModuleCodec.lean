import Noleax.Trace.Module
import Noleax.Trace.Wire

/-!
# Module and stack records (`src/trace/record_codec.cpp`)
-/

namespace Noleax.Trace

open Lib

/-! ## Modules -/

/-- `ModuleRecordType` -/
def moduleLoadType : ℕ := 1
def moduleUnloadType : ℕ := 2

/-- The bits of the presence byte. -/
def ModuleLoad.presence (load : ModuleLoad) : ℕ :=
  (if load.imageIdentity.isSome then 1 else 0) + if load.pdbIdentity.isSome then 2 else 0

def noGuid : Bytes := appendZeros 16

def appendModuleLoad (load : ModuleLoad) : Bytes :=
  appendU64 load.moduleId ++ appendU64 load.monotonicTicks ++ appendU64 load.baseAddress ++
    appendU64 load.imageSize ++ appendU32 load.flags ++ appendU8 load.presence ++ appendZeros 3 ++
    appendU32 (load.imageIdentity.elim 0 (·.timestamp)) ++
    appendU32 (load.imageIdentity.elim 0 (·.checksum)) ++
    appendU32 (load.imageIdentity.elim 0 (·.imageSize)) ++
    appendU32 (load.pdbIdentity.elim 0 (·.age)) ++ appendU32 load.imagePath.length ++
    appendU32 load.pdbPath.length ++ load.pdbIdentity.elim noGuid (·.guid) ++ load.imagePath ++
    load.pdbPath

def readModuleLoad (size : ℕ) : PayloadReader ModuleLoad := do
  check (failIf (size < 80) (.recordCodec "module load payload is truncated"))
  let moduleId ← readU64
  let monotonicTicks ← readU64
  let baseAddress ← readU64
  let imageSize ← readU64
  let flags ← readU32
  let presence ← readU8
  check (failIf (3 < presence) (.recordCodec "module load presence flags are not supported"))
  expectZeros 3
  let timestamp ← readU32
  let checksum ← readU32
  let identityImageSize ← readU32
  let pdbAge ← readU32
  let imagePathSize ← readU32
  let pdbPathSize ← readU32
  let guid ← readGuid
  check (failIf (imagePathSize + pdbPathSize ≠ size - 80)
    (.recordCodec "module path sizes do not match the record payload"))
  let imagePath ← readString imagePathSize
  let pdbPath ← readString pdbPathSize
  expectDone
  let imageIdentity ← check (decodeOptional (presence.testBit 0)
    (PeImageIdentity.mk timestamp checksum identityImageSize)
    (timestamp = 0 ∧ checksum = 0 ∧ identityImageSize = 0)
    "absent module PE identity must be zero")
  let pdbIdentity ← check (decodeOptional (presence.testBit 1) (PdbIdentity.mk guid pdbAge)
    (pdbAge = 0 ∧ guid = noGuid) "absent module PDB identity must be zero")
  let load : ModuleLoad := ⟨moduleId, monotonicTicks, baseAddress, imageSize, imagePath,
    imageIdentity, pdbIdentity, pdbPath, flags⟩
  check (asInvalid "ModuleLoad" (validateModuleLoad load))
  return load

def appendModuleUnload (unload : ModuleUnload) : Bytes :=
  appendU64 unload.moduleId ++ appendU64 unload.monotonicTicks

def readModuleUnload (size : ℕ) : PayloadReader ModuleUnload := do
  check (failIf (size ≠ 16) (.recordCodec "module unload payload has an invalid size"))
  let moduleId ← readU64
  let monotonicTicks ← readU64
  expectDone
  let unload : ModuleUnload := ⟨moduleId, monotonicTicks⟩
  check (asInvalid "ModuleUnload" (validateModuleUnload unload))
  return unload

def appendModuleLoadRecord (chunkPayload : Bytes) (load : ModuleLoad) (maximumRecordSize : ℕ) :
    Except Error Bytes := do
  validateModuleLoad load
  failIf (stringsExceed load.imagePath load.pdbPath 80 maximumRecordSize)
    (.recordCodec "module load exceeds the configured record size limit")
  appendRecord chunkPayload ⟨moduleLoadType, recordVersion, appendModuleLoad load⟩
    maximumRecordSize

def appendModuleUnloadRecord (chunkPayload : Bytes) (unload : ModuleUnload)
    (maximumRecordSize : ℕ) : Except Error Bytes := do
  validateModuleUnload unload
  appendRecord chunkPayload ⟨moduleUnloadType, recordVersion, appendModuleUnload unload⟩
    maximumRecordSize

def decodeModuleRecord (record : RecordView) : Except Error (Option ModuleRecord) :=
  if record.version ≠ recordVersion then .ok none
  else if record.type = moduleLoadType then do
    return some (.load (← runReader (readModuleLoad record.payload.length) record.payload))
  else if record.type = moduleUnloadType then do
    return some (.unload (← runReader (readModuleUnload record.payload.length) record.payload))
  else .ok none

/-! ### What the decoder accepts -/

def ModuleLoad.InRange (load : ModuleLoad) : Prop :=
  IsWord 8 load.moduleId ∧ IsWord 8 load.monotonicTicks ∧ IsWord 8 load.baseAddress ∧
    IsWord 8 load.imageSize ∧ IsWord 4 load.flags ∧
    IsWord 4 (load.imageIdentity.elim 0 (·.timestamp)) ∧
    IsWord 4 (load.imageIdentity.elim 0 (·.checksum)) ∧
    IsWord 4 (load.imageIdentity.elim 0 (·.imageSize)) ∧
    IsWord 4 (load.pdbIdentity.elim 0 (·.age)) ∧ IsWord 4 load.imagePath.length ∧
    IsWord 4 load.pdbPath.length ∧ (load.pdbIdentity.elim noGuid (·.guid)).length = 16

def ModuleUnload.InRange (unload : ModuleUnload) : Prop :=
  IsWord 8 unload.moduleId ∧ IsWord 8 unload.monotonicTicks

theorem ModuleLoad.presence_le (load : ModuleLoad) : load.presence ≤ 3 := by
  unfold presence
  split <;> split <;> decide

theorem ModuleLoad.presence_testBit (load : ModuleLoad) :
    load.presence.testBit 0 = load.imageIdentity.isSome ∧
      load.presence.testBit 1 = load.pdbIdentity.isSome := by
  unfold presence
  generalize load.imageIdentity.isSome = image
  generalize load.pdbIdentity.isSome = pdb
  revert image pdb
  decide

/-- The presence byte is known by its bits. -/
theorem bits_of_loadPresence : ∀ presence ≤ 3, presence =
    (if presence.testBit 0 then 1 else 0) + (if presence.testBit 1 then 2 else 0) := by
  decide

theorem appendModuleLoad_length {load : ModuleLoad} (h : load.InRange) :
    (appendModuleLoad load).length = 80 + load.imagePath.length + load.pdbPath.length := by
  have hguid := h.2.2.2.2.2.2.2.2.2.2.2
  simp [appendModuleLoad, appendU64, appendU32, appendU8, appendZeros, hguid]
  omega

theorem readsTo_moduleLoad (size : ℕ) :
    ReadsTo (fun rest => rest = [])
      (fun load => (load.InRange ∧ validateModuleLoad load = .ok ()) ∧
        size = 80 + load.imagePath.length + load.pdbPath.length)
      appendModuleLoad (readModuleLoad size) := by
  refine ReadsTo.layout (.test ?truncated fun htruncated =>
    .field reads_u64 ModuleLoad.moduleId fun _ _ =>
    .field reads_u64 ModuleLoad.monotonicTicks fun _ _ =>
    .field reads_u64 ModuleLoad.baseAddress fun _ _ =>
    .field reads_u64 ModuleLoad.imageSize fun _ _ =>
    .field reads_u32 ModuleLoad.flags fun _ _ =>
    .field reads_u8 ModuleLoad.presence fun presence _ => .test ?flags fun hflags =>
    .skip (reads_zeros 3) <|
    .field reads_u32 (fun load : ModuleLoad => load.imageIdentity.elim 0 (·.timestamp))
      fun _ _ =>
    .field reads_u32 (fun load : ModuleLoad => load.imageIdentity.elim 0 (·.checksum)) fun _ _ =>
    .field reads_u32 (fun load : ModuleLoad => load.imageIdentity.elim 0 (·.imageSize))
      fun _ _ =>
    .field reads_u32 (fun load : ModuleLoad => load.pdbIdentity.elim 0 (·.age)) fun _ _ =>
    .field reads_u32 (fun load : ModuleLoad => load.imagePath.length) fun imagePathSize _ =>
    .field reads_u32 (fun load : ModuleLoad => load.pdbPath.length) fun pdbPathSize _ =>
    .field reads_guid (fun load : ModuleLoad => load.pdbIdentity.elim noGuid (·.guid))
      fun _ _ => .test ?sizes fun hsizes =>
    .known (reads_string _) ModuleLoad.imagePath (fun _ => True) ?imagePath
      fun imagePath himagePath =>
    .known (reads_string _) ModuleLoad.pdbPath (fun _ => True) ?pdbPath fun pdbPath hpdbPath =>
    .ending <|
    .look ModuleLoad.imageIdentity ?image fun image himage =>
    .look ModuleLoad.pdbIdentity ?pdb fun pdb hpdb =>
    .valid (fun load => asInvalid "ModuleLoad" (validateModuleLoad load))
      (Q := fun load : ModuleLoad =>
        size = 80 + load.imagePath.length + load.pdbPath.length) ?done) ?_ ?_
  case truncated =>
    intro load _ h
    have hsize : size = 80 + load.imagePath.length + load.pdbPath.length := by tauto
    omega
  case flags =>
    rintro load ⟨-, rfl⟩ -
    exact Nat.not_lt.mpr load.presence_le
  case sizes =>
    intro load hfields h
    have hsize : size = 80 + load.imagePath.length + load.pdbPath.length := by tauto
    obtain ⟨⟨⟨-, rfl⟩, rfl⟩, -⟩ := hfields
    omega
  case imagePath =>
    rintro load ⟨⟨⟨-, hsize⟩, -⟩, -⟩
    exact iff_true_intro hsize
  case pdbPath =>
    rintro load ⟨⟨⟨-, hsize⟩, -⟩, -⟩
    exact iff_true_intro hsize
  case image =>
    intro load hfields _
    simp only [and_assoc] at hfields
    obtain ⟨-, -, -, -, -, -, hpresence, htimestamp, hchecksum, himageSize, -⟩ := hfields
    rw [decodeOptional_eq_ok, ← hpresence, ← htimestamp, ← hchecksum, ← himageSize]
    cases h : load.imageIdentity <;> simp [load.presence_testBit, h]
  case pdb =>
    intro load hfields _
    simp only [and_assoc] at hfields
    obtain ⟨-, -, -, -, -, -, hpresence, -, -, -, hage, -, -, hguid, -⟩ := hfields
    rw [decodeOptional_eq_ok, ← hpresence, ← hage, ← hguid]
    cases h : load.pdbIdentity <;> simp [load.presence_testBit, h]
  case done =>
    intro load
    constructor
    · intro h
      simp only [and_assoc] at h
      obtain ⟨-, rfl, rfl, rfl, rfl, rfl, -, -, -, -, -, -, -, -, rfl, rfl, rfl, rfl, -⟩ := h
      rfl
    · rintro rfl
      have hbits := bits_of_loadPresence presence (Nat.not_lt.mp hflags)
      rw [← (decodeOptional_eq_ok.mp himage).1, ← (decodeOptional_eq_ok.mp hpdb).1] at hbits
      have htimestamp := decodeOptional_elim himage (·.timestamp) And.left
      have hchecksum := decodeOptional_elim himage (·.checksum) fun h => h.2.1
      have himageSize := decodeOptional_elim himage (·.imageSize) fun h => h.2.2
      have hage := decodeOptional_elim hpdb (·.age) And.left
      have hguid := decodeOptional_elim hpdb (·.guid) And.right
      simp only [and_assoc, true_and]
      refine ⟨hbits.symm, htimestamp, hchecksum, himageSize, hage, himagePath, hpdbPath, hguid, ?_⟩
      omega
  · intro load
    have hpresence : IsWord 1 load.presence := Nat.lt_of_le_of_lt load.presence_le (by decide)
    rw [asInvalid_eq_ok]
    unfold ModuleLoad.InRange
    tauto
  · simp [appendModuleLoad]

theorem readsTo_moduleUnload (size : ℕ) :
    ReadsTo (fun rest => rest = [])
      (fun unload => (unload.InRange ∧ validateModuleUnload unload = .ok ()) ∧ size = 16)
      appendModuleUnload (readModuleUnload size) := by
  refine ReadsTo.layout (.test ?size fun hsize =>
    .field reads_u64 ModuleUnload.moduleId fun _ _ =>
    .field reads_u64 ModuleUnload.monotonicTicks fun _ _ =>
    .ending (.valid (fun unload => asInvalid "ModuleUnload" (validateModuleUnload unload))
      (Q := fun _ => size = 16) ?done)) ?_ ?_
  case size =>
    rintro unload - ⟨-, -, hsize, -⟩
    exact not_not.mpr hsize
  case done =>
    obtain rfl := not_not.mp hsize
    rintro ⟨⟩
    simp
  · intro unload
    rw [asInvalid_eq_ok]
    unfold ModuleUnload.InRange
    tauto
  · simp [appendModuleUnload]

namespace ModuleRecord

def InRange : ModuleRecord → Prop
  | load l => l.InRange
  | unload u => u.InRange

def type : ModuleRecord → ℕ
  | load _ => moduleLoadType
  | unload _ => moduleUnloadType

def write : ModuleRecord → Bytes
  | load l => appendModuleLoad l
  | unload u => appendModuleUnload u

end ModuleRecord

def appendModuleRecord (chunkPayload : Bytes) (record : ModuleRecord) (maximumRecordSize : ℕ) :
    Except Error Bytes :=
  match record with
  | .load load => appendModuleLoadRecord chunkPayload load maximumRecordSize
  | .unload unload => appendModuleUnloadRecord chunkPayload unload maximumRecordSize

theorem runReader_moduleLoad {payload : Bytes} {load : ModuleLoad} :
    runReader (readModuleLoad payload.length) payload = .ok load ↔
      (load.InRange ∧ validateModuleLoad load = .ok ()) ∧ payload = appendModuleLoad load :=
  ReadsTo.runReader_sized readsTo_moduleLoad fun _ h => appendModuleLoad_length h.1

theorem runReader_moduleUnload {payload : Bytes} {unload : ModuleUnload} :
    runReader (readModuleUnload payload.length) payload = .ok unload ↔
      (unload.InRange ∧ validateModuleUnload unload = .ok ()) ∧
        payload = appendModuleUnload unload :=
  ReadsTo.runReader_sized readsTo_moduleUnload fun unload _ => by
    simp [appendModuleUnload, appendU64]

theorem decodes_moduleRecord :
    Decodes (fun record => record.InRange ∧ validateModuleRecord record = .ok ())
      ModuleRecord.type ModuleRecord.write decodeModuleRecord := by
  rintro ⟨type, version, payload⟩ v
  unfold decodeModuleRecord
  dsimp only
  by_cases hversion : version = recordVersion
  · subst hversion
    rw [if_neg (not_not.mpr rfl)]
    constructor
    · intro h
      split_ifs at h with hload hunload
      · obtain ⟨load, hrun, hv⟩ := bind_eq_ok.mp h
        obtain ⟨hvalid, rfl⟩ := runReader_moduleLoad.mp hrun
        cases hv
        exact ⟨hvalid, by rw [hload]; rfl⟩
      · obtain ⟨unload, hrun, hv⟩ := bind_eq_ok.mp h
        obtain ⟨hvalid, rfl⟩ := runReader_moduleUnload.mp hrun
        cases hv
        exact ⟨hvalid, by rw [hunload]; rfl⟩
      · cases h
    · rintro ⟨hvalid, heq⟩
      cases heq
      cases v with
      | load load =>
          refine (if_pos rfl).trans ?_
          exact bind_eq_ok.mpr ⟨load, runReader_moduleLoad.mpr ⟨hvalid, rfl⟩, rfl⟩
      | unload unload =>
          have hother : moduleUnloadType ≠ moduleLoadType := by decide
          refine (if_neg hother).trans ((if_pos rfl).trans ?_)
          exact bind_eq_ok.mpr ⟨unload, runReader_moduleUnload.mpr ⟨hvalid, rfl⟩, rfl⟩
  · rw [if_pos hversion]
    constructor
    · intro h
      cases h
    · rintro ⟨-, heq⟩
      cases heq
      exact absurd rfl hversion

/-- The limit that the append function of a record checks besides. -/
def ModuleRecord.Exceeds (maximumRecordSize : ℕ) : ModuleRecord → Prop
  | load l => stringsExceed l.imagePath l.pdbPath 80 maximumRecordSize
  | unload _ => False

theorem appendModuleRecord_eq_ok {chunkPayload output : Bytes} {record : ModuleRecord}
    {maximumRecordSize : ℕ} :
    appendModuleRecord chunkPayload record maximumRecordSize = .ok output ↔
      validateModuleRecord record = .ok () ∧ ¬ record.Exceeds maximumRecordSize ∧
        appendRecord chunkPayload ⟨record.type, recordVersion, record.write⟩
          maximumRecordSize = .ok output := by
  cases record with
  | load load => exact limited_bind_eq_ok
  | unload unload =>
      refine validated_bind_eq_ok.trans ?_
      simp [ModuleRecord.Exceeds]
      rfl

theorem moduleRecord_roundTrip :
    RoundTrip ModuleRecord.InRange appendModuleRecord decodeModuleRecord := by
  refine roundTrip_of decodes_moduleRecord (fun _ _ _ _ => appendModuleRecord_eq_ok) ?_ ?_
  · intro record maximumRecordSize hrange hsize hlimit
    cases record with
    | load load =>
        change (appendModuleLoad load).length + 8 < _ at hsize
        change (appendModuleLoad load).length + 8 ≤ _ at hlimit
        rw [appendModuleLoad_length hrange] at hsize hlimit
        show ¬ stringsExceed _ _ _ _
        unfold stringsExceed
        omega
    | unload unload => exact not_false
  · intro record
    cases record with
    | load load => exact (by decide : IsWord 2 moduleLoadType)
    | unload unload => exact (by decide : IsWord 2 moduleUnloadType)

/-! ## Stacks -/

/-- `StackRecordType::kDefinition` -/
def stackDefinitionType : ℕ := 1

def StackStatus.coding : Coding StackStatus where
  values := [.complete, .truncatedByDepth, .unwindFailed, .unavailable]
  code
    | .complete => 0
    | .truncatedByDepth => 1
    | .unwindFailed => 2
    | .unavailable => 3
  complete := by rintro ⟨⟩ <;> decide
  injective := by rintro ⟨⟩ ⟨⟩ <;> decide
  byte := by rintro ⟨⟩ <;> decide

def appendStackFrame (frame : StackFrame) : Bytes :=
  appendU64 frame.moduleId ++ appendU64 frame.moduleOffset ++ appendU64 frame.absoluteAddress ++
    appendU32 frame.flags ++ appendU32 0

def readStackFrame : PayloadReader StackFrame := do
  let moduleId ← readU64
  let moduleOffset ← readU64
  let absoluteAddress ← readU64
  let flags ← readU32
  expectZeros 4
  return ⟨moduleId, moduleOffset, absoluteAddress, flags⟩

def appendStackDefinition (definition : StackDefinition) : Bytes :=
  appendU64 definition.stackId ++ StackStatus.coding.append definition.status ++ appendZeros 3 ++
    appendU32 definition.frames.length ++ definition.frames.flatMap appendStackFrame

def readStackDefinition (size : ℕ) : PayloadReader StackDefinition := do
  check (failIf (size < 16) (.recordCodec "stack definition payload is truncated"))
  let stackId ← readU64
  let status ← StackStatus.coding.read "stack capture status is not supported"
  expectZeros 3
  let frameCount ← readU32
  check (failIf ((size - 16) / 32 < frameCount ∨ 16 + frameCount * 32 ≠ size)
    (.recordCodec "stack frame count does not match the record payload"))
  let frames ← readMany readStackFrame frameCount
  expectDone
  let definition : StackDefinition := ⟨stackId, status, frames⟩
  check (asInvalid "StackDefinition" (validateStackDefinition definition))
  return definition

def appendStackDefinitionRecord (chunkPayload : Bytes) (definition : StackDefinition)
    (maximumRecordSize : ℕ) : Except Error Bytes := do
  validateStackDefinition definition
  failIf (2 ^ 32 - 1 < definition.frames.length ∨ maximumRecordSize < 8 + 16 ∨
      (maximumRecordSize - 8 - 16) / 32 < definition.frames.length)
    (.recordCodec "stack definition exceeds the configured record size limit")
  appendRecord chunkPayload
    ⟨stackDefinitionType, recordVersion, appendStackDefinition definition⟩ maximumRecordSize

def decodeStackDefinitionRecord : RecordView → Except Error (Option StackDefinition) :=
  decodeRecord stackDefinitionType readStackDefinition

def StackFrame.InRange (frame : StackFrame) : Prop :=
  IsWord 8 frame.moduleId ∧ IsWord 8 frame.moduleOffset ∧ IsWord 8 frame.absoluteAddress ∧
    IsWord 4 frame.flags

def StackDefinition.InRange (definition : StackDefinition) : Prop :=
  IsWord 8 definition.stackId ∧ IsWord 4 definition.frames.length ∧
    ∀ frame ∈ definition.frames, frame.InRange

theorem reads_stackFrame : Reads StackFrame.InRange appendStackFrame readStackFrame := by
  apply ReadsTo.reads
  refine ReadsTo.layout (.field reads_u64 StackFrame.moduleId fun _ _ =>
    .field reads_u64 StackFrame.moduleOffset fun _ _ =>
    .field reads_u64 StackFrame.absoluteAddress fun _ _ =>
    .field reads_u32 StackFrame.flags fun _ _ =>
    .skip (reads_zeros 4) <| .done (Q := fun _ => True) ?_) ?_ ?_
  · rintro ⟨⟩
    simp [and_assoc]
  · simp [StackFrame.InRange]
  · simp [appendStackFrame]

theorem appendStackDefinition_length (definition : StackDefinition) :
    (appendStackDefinition definition).length = 16 + definition.frames.length * 32 := by
  have hframes := flatMap_length appendStackFrame 32
    (fun _ => by simp [appendStackFrame, appendU64, appendU32]) definition.frames
  simp only [appendStackDefinition, List.length_append, hframes]
  simp [appendU64, appendU32, Coding.append, appendU8, appendZeros]

theorem readsTo_stackDefinition (size : ℕ) :
    ReadsTo (fun rest => rest = [])
      (fun definition => (definition.InRange ∧ validateStackDefinition definition = .ok ()) ∧
        size = 16 + definition.frames.length * 32)
      appendStackDefinition (readStackDefinition size) := by
  refine ReadsTo.layout (.test ?truncated fun htruncated =>
    .field reads_u64 StackDefinition.stackId fun _ _ =>
    .field (StackStatus.coding.reads _) StackDefinition.status fun _ _ =>
    .skip (reads_zeros 3) <|
    .field reads_u32 (fun definition : StackDefinition => definition.frames.length)
      fun frameCount _ => .test ?count fun hcount =>
    .known (reads_readMany reads_stackFrame _) StackDefinition.frames
      (fun frames => ∀ frame ∈ frames, frame.InRange) ?frames fun frames hframes =>
    .ending <|
    .valid (fun definition => asInvalid "StackDefinition" (validateStackDefinition definition))
      (Q := fun definition => size = 16 + definition.frames.length * 32) ?done) ?_ ?_
  case truncated =>
    intro definition _ h
    have hsize : size = 16 + definition.frames.length * 32 := by tauto
    omega
  case count =>
    intro definition hfields h
    have hsize : size = 16 + definition.frames.length * 32 := by tauto
    obtain ⟨-, rfl⟩ := hfields
    omega
  case frames =>
    rintro definition ⟨-, hcount⟩
    exact and_iff_right hcount
  case done =>
    rintro ⟨stackId, status, frames⟩
    obtain ⟨rfl, -⟩ := hframes
    simp only [StackDefinition.mk.injEq]
    constructor
    · tauto
    · rintro ⟨rfl, rfl, rfl⟩
      simp
      omega
  · intro definition
    rw [asInvalid_eq_ok]
    unfold StackDefinition.InRange
    tauto
  · simp [appendStackDefinition]

theorem stackDefinition_roundTrip :
    RoundTrip StackDefinition.InRange appendStackDefinitionRecord
      decodeStackDefinitionRecord := by
  refine roundTrip_of (decodes_record fun _ _ =>
    ReadsTo.runReader_sized readsTo_stackDefinition ?_)
    (fun _ _ _ _ => limited_bind_eq_ok) ?_ fun _ => by decide
  · intro definition _
    exact appendStackDefinition_length definition
  · intro definition maximumRecordSize _ hsize hlimit
    rw [appendStackDefinition_length] at hsize hlimit
    omega

end Noleax.Trace
