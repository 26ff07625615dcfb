import Noleax.Ipc.Protocol

/-!
# Round trips of the messages

Hello, status, error response and frame: the decoder accepts exactly what the encoder
produces. A start request is read with any nonzero byte for a flag, so its decoder
accepts more; it recovers every request from its encoding, and every request it returns
can be encoded again.
-/

namespace Noleax.Ipc

open Lib

theorem reads_value {α : Type} [Integral α] :
    Reads (fun _ : α => True) integer PayloadReader.integer :=
  reads_integer _

theorem reads_enum {α : Type} [Integral α] :
    Reads (fun _ : α => True) writeEnum PayloadReader.readEnum :=
  reads_integer _

/-! ## Strings -/

/-- A string the protocol carries. -/
def ProtocolString (value : Bytes) : Prop := value.length ≤ maximumStringSize ∧ 0 ∉ value

theorem string_eq_ok {value bytes : Bytes} :
    string value = .ok bytes ↔ ProtocolString value ∧ stringBytes value = bytes := by
  unfold string
  rw [failIf_bind_eq_ok, failIf_bind_eq_ok, not_lt, pure_eq_ok, Except.ok.injEq, ← and_assoc]
  rfl

/-- The length of a string is not cut off. -/
theorem toNat_length {value : Bytes} (h : value.length ≤ maximumStringSize) :
    (UInt32.ofNat value.length).toNat = value.length := by
  unfold maximumStringSize at h
  rw [UInt32.toNat_ofNat']
  omega

theorem reads_string : Reads ProtocolString stringBytes PayloadReader.string := by
  apply ReadsTo.reads
  refine ReadsTo.layout (.field reads_value (fun value : Bytes => UInt32.ofNat value.length)
    fun size _ => .test ?limit fun hsize =>
    .known (reads_takeBytes _ _) id (fun value => value.length ≤ maximumStringSize) ?length
    fun value hvalue => .test ?nul fun hnul => .done (Q := fun value => 0 ∉ value) ?done) ?_ ?_
  case limit =>
    rintro value ⟨-, rfl⟩ ⟨hlength, -⟩
    have hlength : value.length ≤ maximumStringSize := hlength
    rw [toNat_length hlength]
    exact Nat.not_lt.mpr hlength
  case length =>
    rintro value ⟨-, rfl⟩
    constructor
    · intro hlength
      exact hlength.le.trans (Nat.not_lt.mp hsize)
    · intro hlength
      exact (toNat_length hlength).symm
  case nul =>
    rintro _ ⟨-, rfl⟩ hnul
    exact hnul
  case done =>
    intro w
    constructor
    · rintro ⟨⟨-, hw⟩, -⟩
      exact hw
    · rintro rfl
      refine ⟨⟨⟨trivial, ?_⟩, rfl⟩, hnul⟩
      show UInt32.ofNat w.length = size
      rw [hvalue, UInt32.ofNat_toNat]
  · simp [ProtocolString]
  · simp [stringBytes]

/-! ## Custom hooks -/

theorem reads_role :
    Reads (fun role => ProtocolString role.exportName)
      (fun role => roleBytes role (stringBytes role.exportName)) readCustomHookRole := by
  apply ReadsTo.reads
  refine ReadsTo.layout (.field reads_enum CustomHookRoleSpec.locator fun locator _ =>
    .field reads_value (fun _ => (0 : UInt8)) fun reserved8 _ =>
    .field reads_value (fun _ => (0 : UInt16)) fun reserved16 _ =>
    .field reads_value (fun _ => (0 : UInt32)) fun reserved32 _ =>
    .field reads_value CustomHookRoleSpec.rva fun rva _ =>
    .field reads_string CustomHookRoleSpec.exportName fun exportName _ =>
    .test ?reserved fun hreserved => .done (Q := fun _ => True) ?done) ?_ ?_
  case reserved =>
    rintro role ⟨⟨⟨⟨⟨-, h8⟩, h16⟩, h32⟩, -⟩, -⟩ -
    simp [← h8, ← h16, ← h32]
  case done =>
    simp only [not_or, not_not] at hreserved
    obtain ⟨rfl, rfl, rfl⟩ := hreserved
    rintro ⟨⟩
    simp only [CustomHookRoleSpec.mk.injEq]
    tauto
  · simp
  · simp [roleBytes]

theorem writeCustomHookRole_eq_ok {role : CustomHookRoleSpec} {bytes : Bytes} :
    writeCustomHookRole role = .ok bytes ↔
      ProtocolString role.exportName ∧ roleBytes role (stringBytes role.exportName) = bytes := by
  unfold writeCustomHookRole
  simp only [bind_eq_ok, string_eq_ok, pure_eq_ok, Except.ok.injEq]
  constructor
  · rintro ⟨_, ⟨hstring, rfl⟩, hbytes⟩
    exact ⟨hstring, hbytes⟩
  · rintro ⟨hstring, hbytes⟩
    exact ⟨_, ⟨hstring, rfl⟩, hbytes⟩

/-- The strings of a hook can be written. -/
structure CustomHookSpec.Strings (hook : CustomHookSpec) : Prop where
  alloc : ProtocolString hook.alloc.exportName
  realloc : ProtocolString hook.realloc.exportName
  free : ProtocolString hook.free.exportName
  moduleName : ProtocolString hook.moduleName
  label : ProtocolString hook.label

/-- A hook with its strings. -/
def hookBytes (hook : CustomHookSpec) : Bytes :=
  customHookBytes hook (roleBytes hook.alloc (stringBytes hook.alloc.exportName))
    (roleBytes hook.realloc (stringBytes hook.realloc.exportName))
    (roleBytes hook.free (stringBytes hook.free.exportName)) (stringBytes hook.moduleName)
    (stringBytes hook.label)

theorem writeCustomHook_eq_ok {hook : CustomHookSpec} {bytes : Bytes} :
    writeCustomHook hook = .ok bytes ↔ hook.Strings ∧ hookBytes hook = bytes := by
  unfold writeCustomHook
  simp only [bind_eq_ok, string_eq_ok, writeCustomHookRole_eq_ok, pure_eq_ok, Except.ok.injEq]
  constructor
  · rintro ⟨_, ⟨halloc, rfl⟩, _, ⟨hrealloc, rfl⟩, _, ⟨hfree, rfl⟩, _, ⟨hmodule, rfl⟩, _,
      ⟨hlabel, rfl⟩, hbytes⟩
    exact ⟨⟨halloc, hrealloc, hfree, hmodule, hlabel⟩, hbytes⟩
  · rintro ⟨h, rfl⟩
    exact ⟨_, ⟨h.alloc, rfl⟩, _, ⟨h.realloc, rfl⟩, _, ⟨h.free, rfl⟩, _, ⟨h.moduleName, rfl⟩, _,
      ⟨h.label, rfl⟩, rfl⟩

theorem recovers_slot {slot : UInt8} (h : slot = 0xff ∨ validArgumentSlot slot) :
    Recovers (integer slot) readArgumentSlot slot := by
  refine .congr (.field (reads_value.recovers trivial) <|
    .checked (failIf_of_not ?_) (recoversTo_pure slot)) (List.append_nil _).symm
  rintro ⟨hother, hinvalid⟩
  exact h.elim hother hinvalid

theorem recovers_optionalSlot {slot : Option UInt8} (h : slot.all validArgumentSlot) :
    Recovers (integer (slot.getD 0xff)) readArgumentSlot (slot.getD 0xff) := by
  apply recovers_slot
  cases slot with
  | none => exact .inl rfl
  | some slot => exact .inr h

theorem optionalSlot_getD {slot : Option UInt8} (h : slot.all validArgumentSlot) :
    optionalSlot (slot.getD 0xff) = slot := by
  cases slot with
  | none => rfl
  | some slot =>
      have hvalid : validArgumentSlot slot := h
      refine if_pos fun hff : slot = 0xff => ?_
      rw [hff] at hvalid
      cases hvalid

theorem checkedIdentity_getD (identity : Option CustomHookImageIdentity) :
    checkedIdentity (flag identity.isSome) (identity.getD ⟨0, 0, 0⟩) = .ok identity := by
  cases identity <;> rfl

theorem flag_ne_zero (value : Bool) : decide (flag value ≠ 0) = value := by
  cases value <;> rfl

theorem flag_le_one (value : Bool) : flag value ≤ 1 := by
  cases value <;> decide

/-- What the checks of a hook say of its slots. -/
theorem validateCustomHook_slots {hook : CustomHookSpec} {u : Unit}
    (h : validateCustomHook hook = .ok u) :
    validArgumentSlot hook.allocSizeArg ∧ hook.allocCountArg.all validArgumentSlot ∧
      validArgumentSlot hook.reallocPtrArg ∧ validArgumentSlot hook.reallocSizeArg ∧
      validArgumentSlot hook.freePtrArg ∧ hook.resultArg.all validArgumentSlot ∧
      hook.freeSizeArg.all validArgumentSlot := by
  unfold validateCustomHook at h
  obtain ⟨_, -, h⟩ := bind_eq_ok.mp h
  obtain ⟨_, -, h⟩ := bind_eq_ok.mp h
  obtain ⟨_, -, h⟩ := bind_eq_ok.mp h
  obtain ⟨-, h⟩ := failIf_bind_eq_ok.mp h
  obtain ⟨hslots, -⟩ := failIf_bind_eq_ok.mp h
  simpa only [not_or, not_not] using hslots

theorem recovers_customHook {hook : CustomHookSpec} {u : Unit}
    (hvalid : validateCustomHook hook = .ok u) (hstrings : hook.Strings) :
    Recovers (hookBytes hook) readCustomHook hook := by
  obtain ⟨hallocSize, hallocCount, hreallocPtr, hreallocSize, hfreePtr, hresult, hfreeSize⟩ :=
    validateCustomHook_slots hvalid
  refine .congr (.field (recovers_slot (.inr hallocSize)) <|
    .field (recovers_optionalSlot hallocCount) <| .field (recovers_slot (.inr hreallocPtr)) <|
    .field (recovers_slot (.inr hreallocSize)) <| .field (recovers_slot (.inr hfreePtr)) <|
    .field (recovers_optionalSlot hresult) <| .field (recovers_optionalSlot hfreeSize) <|
    .field (reads_value.recovers (a := flag hook.calloc) trivial) <|
    .field (reads_value.recovers (a := flag hook.forced) trivial) <|
    .field (reads_value.recovers (a := 0) trivial) <|
    .field (reads_value.recovers (a := hook.waitModuleMs) trivial) <|
    .field (reads_role.recovers hstrings.alloc) <| .field (reads_role.recovers hstrings.realloc) <|
    .field (reads_role.recovers hstrings.free) <|
    .field (reads_string.recovers hstrings.moduleName) <|
    .field (reads_string.recovers hstrings.label) <|
    .field (reads_value.recovers (a := flag hook.imageIdentity.isSome) trivial) <|
    .field (reads_value.recovers (a := 0) trivial) <|
    .field (reads_value.recovers (a := 0) trivial) <|
    .field (reads_value.recovers (a := (hook.imageIdentity.getD ⟨0, 0, 0⟩).timestamp) trivial) <|
    .field (reads_value.recovers (a := (hook.imageIdentity.getD ⟨0, 0, 0⟩).checksum) trivial) <|
    .field (reads_value.recovers (a := (hook.imageIdentity.getD ⟨0, 0, 0⟩).imageSize) trivial) <|
    .checked (failIf_of_not ?_) <| .checked (checkedIdentity_getD hook.imageIdentity) <|
    (recoversTo_pure _).value ?_) ?_
  · simp [flag_le_one]
  · rw [optionalSlot_getD hallocCount, optionalSlot_getD hresult, optionalSlot_getD hfreeSize,
      flag_ne_zero, flag_ne_zero]
  · simp [hookBytes, customHookBytes]

theorem yields_customHook : Yields CustomHookSpec.Strings readCustomHook := by
  refine .after fun _ => .after fun _ => .after fun _ => .after fun _ => .after fun _ =>
    .after fun _ => .after fun _ => .after fun _ => .after fun _ => .after fun _ =>
    .after fun _ => reads_role.yields.bind fun alloc halloc =>
    reads_role.yields.bind fun realloc hrealloc => reads_role.yields.bind fun free hfree =>
    reads_string.yields.bind fun moduleName hmodule => reads_string.yields.bind fun label hlabel =>
    .after fun _ => .after fun _ => .after fun _ => .after fun _ => .after fun _ =>
    .after fun _ => .after fun _ => .after fun _ => yields_pure ?_
  exact ⟨halloc, hrealloc, hfree, hmodule, hlabel⟩

theorem writeCustomHooks_eq_ok {hooks : List CustomHookSpec} {bytes : Bytes} :
    writeCustomHooks hooks = .ok bytes ↔ (∀ hook ∈ hooks, hook.Strings) ∧
      integer (UInt32.ofNat hooks.length) ++ hooks.flatMap hookBytes = bytes := by
  unfold writeCustomHooks
  rw [bind_eq_ok]
  simp only [mapM_eq_ok fun _ _ _ => writeCustomHook_eq_ok, pure_eq_ok, Except.ok.injEq]
  constructor
  · rintro ⟨_, ⟨hstrings, rfl⟩, hbytes⟩
    exact ⟨hstrings, hbytes⟩
  · rintro ⟨hstrings, hbytes⟩
    exact ⟨_, ⟨hstrings, rfl⟩, hbytes⟩

theorem validateCustomHooks_eq_ok {hooks : List CustomHookSpec} {u : Unit} :
    validateCustomHooks hooks = .ok u ↔ hooks.length ≤ maximumCustomHooks ∧
      ∀ hook ∈ hooks, validateCustomHook hook = .ok () := by
  unfold validateCustomHooks
  rw [failIf_bind_eq_ok, not_lt, forM_eq_ok fun _ _ => Iff.rfl]

theorem recovers_customHooks {hooks : List CustomHookSpec}
    (hvalid : validateCustomHooks hooks = .ok ()) (hstrings : ∀ hook ∈ hooks, hook.Strings) :
    Recovers (integer (UInt32.ofNat hooks.length) ++ hooks.flatMap hookBytes) readCustomHooks
      hooks := by
  obtain ⟨hlength, hhooks⟩ := validateCustomHooks_eq_ok.mp hvalid
  have hcount : (UInt32.ofNat hooks.length).toNat = hooks.length := by
    unfold maximumCustomHooks at hlength
    rw [UInt32.toNat_ofNat']
    omega
  refine .field (reads_value.recovers trivial) (.checked (failIf_of_not ?_) ?_)
  · rw [hcount]
    exact Nat.not_lt.mpr hlength
  · rw [hcount]
    exact recovers_readMany fun hook hmem =>
      recovers_customHook (hhooks hook hmem) (hstrings hook hmem)

theorem yields_customHooks :
    Yields (fun hooks => ∀ hook ∈ hooks, hook.Strings) readCustomHooks := by
  refine .after fun _ => .after fun _ => ?_
  intro input hooks rest hread
  exact (yields_readMany yields_customHook _ _ _ _ hread).2

/-! ## `StartCaptureRequest` -/

theorem encodeStartCapture_eq_ok {request : StartCaptureRequest} {payload : Bytes} :
    encodeStartCapture request = .ok payload ↔ ¬ request.Invalid ∧
      validateCustomHooks request.customHooks = .ok () ∧
      ProtocolString request.tracePathUtf8 ∧ (∀ hook ∈ request.customHooks, hook.Strings) ∧
      startCaptureBytes request (stringBytes request.tracePathUtf8)
        (integer (UInt32.ofNat request.customHooks.length) ++
          request.customHooks.flatMap hookBytes) = payload := by
  unfold encodeStartCapture
  rw [failIf_bind_eq_ok]
  simp only [bind_eq_ok, string_eq_ok, writeCustomHooks_eq_ok, pure_eq_ok, Except.ok.injEq]
  constructor
  · rintro ⟨hfields, _, hhooks, _, ⟨hpath, rfl⟩, _, ⟨hstrings, rfl⟩, hbytes⟩
    exact ⟨hfields, hhooks, hpath, hstrings, hbytes⟩
  · rintro ⟨hfields, hhooks, hpath, hstrings, hbytes⟩
    exact ⟨hfields, _, hhooks, _, ⟨hpath, rfl⟩, _, ⟨hstrings, rfl⟩, hbytes⟩

theorem decodeStartCapture_encode {request : StartCaptureRequest} {payload : Bytes}
    (h : encodeStartCapture request = .ok payload) :
    decodeStartCapture payload = .ok request := by
  obtain ⟨hfields, hhooks, hpath, hstrings, rfl⟩ := encodeStartCapture_eq_ok.mp h
  refine RecoversTo.run (.congr (.field (reads_enum.recovers (a := request.captureKind) trivial) <|
    .field (reads_enum.recovers (a := request.hookProfile) trivial) <|
    .field (reads_enum.recovers (a := request.compression) trivial) <|
    .field (reads_value.recovers (a := 0) trivial) <|
    .field (reads_value.recovers (a := request.maximumStackDepth) trivial) <|
    .field (reads_value.recovers (a := 0) trivial) <|
    .field (reads_value.recovers (a := request.minimumCaptureSize) trivial) <|
    .field (reads_value.recovers (a := request.bufferSize) trivial) <|
    .field (reads_value.recovers (a := request.maximumTraceSize) trivial) <|
    .field (reads_value.recovers (a := request.flushIntervalNs) trivial) <|
    .field (reads_value.recovers (a := request.memoryCountersIntervalNs) trivial) <|
    .field (reads_value.recovers (a := request.memoryMapIntervalNs) trivial) <|
    .field (reads_value.recovers (a := request.compressionLevel) trivial) <|
    .field (reads_value.recovers (a := 0) trivial) <| .field (reads_string.recovers hpath) <|
    .field (reads_value.recovers (a := flag request.unloadOnStop) trivial) <|
    .field (recovers_customHooks hhooks hstrings) <|
    .field (reads_value.recovers (a := flag request.strictBuffer) trivial) <|
    .ending <| .checked (failIf_of_not ?_) <| .checked hhooks <| (recoversTo_pure _).value ?_) ?_)
  · rw [flag_ne_zero, flag_ne_zero]
    simpa using hfields
  · rw [flag_ne_zero, flag_ne_zero]
  · simp [startCaptureBytes]

/-- What a start request has when it is accepted, it can be encoded with. -/
theorem yields_startCapture :
    Yields (fun request => ∃ payload, encodeStartCapture request = .ok payload)
      readStartCapture := by
  refine .after fun _ => .after fun _ => .after fun _ => .after fun _ => .after fun _ =>
    .after fun _ => .after fun _ => .after fun _ => .after fun _ => .after fun _ =>
    .after fun _ => .after fun _ => .after fun _ => .after fun _ =>
    reads_string.yields.bind fun tracePath hpath => .after fun _ =>
    yields_customHooks.bind fun hooks hstrings => .after fun _ => .after fun _ =>
    .checked fun _ hfields => .checked fun _ hhooks => yields_pure ?_
  rw [failIf_eq_ok, not_or, not_or, not_or] at hfields
  exact ⟨_, encodeStartCapture_eq_ok.mpr ⟨hfields.2.2.2, hhooks, hpath, hstrings, rfl⟩⟩

/-! ## `AgentHello` -/

theorem SessionToken.val_copy {token : Bytes} (h : token.length = 16) :
    (SessionToken.copy token).val = token := by
  show (token ++ _).take 16 = token
  rw [List.take_append_of_le_length h.ge, List.take_of_length_le h.le]

theorem SessionToken.copy_val (token : SessionToken) : SessionToken.copy token.val = token :=
  Subtype.ext (SessionToken.val_copy token.property)

theorem readsTo_agentHello :
    ReadsTo (fun rest => rest = []) (fun hello => ¬ hello.Invalid) agentHelloBytes
      readAgentHello := by
  refine ReadsTo.layout (.field reads_value AgentHello.agentAbiVersion fun agentAbiVersion _ =>
    .field reads_value AgentHello.processId fun processId _ =>
    .field reads_value AgentHello.workerThreadId fun workerThreadId _ =>
    .field reads_value AgentHello.pointerWidth fun pointerWidth _ =>
    .field reads_value (fun _ => (0 : UInt8)) fun reserved _ =>
    .field reads_enum AgentHello.architecture fun architecture _ =>
    .known (reads_takeBytes _ _) (fun hello : AgentHello => hello.sessionToken.val)
      (fun _ => True) ?token fun token htoken =>
    .ending <| .test ?valid fun hvalid => .done
      (Q := fun hello : AgentHello => ¬ hello.Invalid) ?done) ?_ ?_
  case token =>
    rintro hello -
    exact iff_of_true hello.sessionToken.property trivial
  case valid =>
    rintro ⟨_, _, _, _, _, hello⟩ ⟨⟨⟨⟨⟨⟨⟨-, rfl⟩, rfl⟩, rfl⟩, rfl⟩, rfl⟩, rfl⟩, rfl⟩ hvalid
    rw [SessionToken.copy_val]
    simpa using hvalid
  case done =>
    rw [not_or, not_not] at hvalid
    obtain ⟨rfl, hvalid⟩ := hvalid
    intro hello
    constructor
    · rintro ⟨⟨⟨⟨⟨⟨⟨⟨-, rfl⟩, rfl⟩, rfl⟩, rfl⟩, -⟩, rfl⟩, rfl⟩, -⟩
      rw [SessionToken.copy_val]
    · rintro rfl
      exact ⟨⟨⟨⟨⟨⟨⟨⟨trivial, rfl⟩, rfl⟩, rfl⟩, rfl⟩, rfl⟩, rfl⟩, SessionToken.val_copy htoken⟩,
        hvalid⟩
  · simp
  · simp [agentHelloBytes]

/-! ## `CaptureStatus` -/

theorem readsTo_captureStatus :
    ReadsTo (fun rest => rest = []) (fun status => validAgentState status.state)
      captureStatusBytes readCaptureStatus := by
  refine ReadsTo.layout (.field reads_enum CaptureStatus.state fun state _ =>
    .field reads_value (fun _ => (0 : UInt8)) fun reserved8 _ =>
    .field reads_value (fun _ => (0 : UInt16)) fun reserved16 _ =>
    .field reads_value (fun _ => (0 : UInt32)) fun reserved32 _ =>
    .field reads_value CaptureStatus.observedCalls fun _ _ =>
    .field reads_value CaptureStatus.writtenEvents fun _ _ =>
    .field reads_value CaptureStatus.filteredCalls fun _ _ =>
    .field reads_value CaptureStatus.droppedEvents fun _ _ =>
    .field reads_value CaptureStatus.bytesWritten fun _ _ =>
    .field reads_value CaptureStatus.queuedEvents fun _ _ =>
    .field reads_value CaptureStatus.queueCapacity fun _ _ =>
    .field reads_value CaptureStatus.queueHighWaterEvents fun _ _ =>
    .field reads_value CaptureStatus.consumedEvents fun _ _ =>
    .field reads_value CaptureStatus.lastFlushMonotonicNs fun _ _ =>
    .field reads_value CaptureStatus.flags fun _ _ =>
    .field reads_value CaptureStatus.bufferRequestedBytes fun _ _ =>
    .field reads_value CaptureStatus.bufferEffectiveSlots fun _ _ =>
    .field reads_value CaptureStatus.bufferSlotBytes fun _ _ =>
    .field reads_value CaptureStatus.bufferReservedBytes fun _ _ =>
    .field reads_value CaptureStatus.bufferResidentBytes fun _ _ =>
    .field reads_value CaptureStatus.agentReservedBytes fun _ _ =>
    .field reads_value CaptureStatus.agentResidentBytes fun _ _ =>
    .ending <| .test ?valid fun hvalid =>
      .done (Q := fun status : CaptureStatus => validAgentState status.state) ?done) ?_ ?_
  case valid =>
    intro status hfields hstate
    simp only [and_assoc, true_and] at hfields
    obtain ⟨rfl, h8, h16, h32, -⟩ := hfields
    simp [← h8, ← h16, ← h32, hstate]
  case done =>
    simp only [not_or, not_not] at hvalid
    obtain ⟨hstate, rfl, rfl, rfl⟩ := hvalid
    rintro ⟨⟩
    simp only [and_assoc, true_and, CaptureStatus.mk.injEq]
    refine ⟨?_, ?_⟩
    · tauto
    · rintro ⟨rfl, h⟩
      tauto
  · simp
  · simp [captureStatusBytes]

/-! ## `ErrorResponse` -/

theorem readsTo_errorResponse :
    ReadsTo (fun rest => rest = [])
      (fun error => ProtocolString error.message ∧ ¬ (error.errorCode = 0 ∨ error.message = []))
      (fun error => errorResponseBytes error (stringBytes error.message)) readErrorResponse := by
  refine ReadsTo.layout (.field reads_value ErrorResponse.errorCode fun errorCode _ =>
    .field reads_value ErrorResponse.systemError fun systemError _ =>
    .field reads_string ErrorResponse.message fun message _ =>
    .ending <| .test ?valid fun hvalid =>
      .done (Q := fun error : ErrorResponse => ¬ (error.errorCode = 0 ∨ error.message = []))
        ?done) ?_ ?_
  case valid =>
    rintro error ⟨⟨⟨-, rfl⟩, rfl⟩, rfl⟩ hvalid
    exact hvalid
  case done =>
    intro error
    constructor
    · rintro ⟨⟨⟨⟨-, rfl⟩, rfl⟩, rfl⟩, -⟩
      rfl
    · rintro rfl
      exact ⟨⟨⟨⟨trivial, rfl⟩, rfl⟩, rfl⟩, hvalid⟩
  · simp
  · simp [errorResponseBytes]

/-! ## Frames -/

/-- What `decode_frame_header` asks of a header. -/
structure FrameHeader.Valid (header : FrameHeader) : Prop where
  major : header.protocolMajor = Ipc.protocolMajor
  minor : header.protocolMinor ≤ Ipc.protocolMinor
  known : isKnownMessageType header.messageType
  noFlags : header.flags = 0
  requested : header.requestId ≠ 0
  size : header.payloadSize.toNat ≤ maximumPayloadSize

theorem readsTo_frameHeader :
    ReadsTo (fun rest => rest = []) FrameHeader.Valid frameHeaderBytes readFrameHeader := by
  refine ReadsTo.layout (.known (reads_takeBytes _ _) (fun _ => protocolMagic) (fun _ => True)
      ?magic fun magic _ => .test ?isMagic fun hmagic =>
    .field reads_value FrameHeader.protocolMajor fun major _ =>
    .field reads_value FrameHeader.protocolMinor fun minor _ =>
    .field reads_value (fun _ => frameHeaderSize) fun headerSize _ =>
    .field reads_enum FrameHeader.messageType fun messageType _ =>
    .field reads_value FrameHeader.flags fun flags _ =>
    .field reads_value FrameHeader.requestId fun requestId _ =>
    .field reads_value FrameHeader.payloadSize fun payloadSize _ =>
    .field reads_value (fun _ => (0 : UInt32)) fun reserved _ =>
    .ending <| .test ?version fun hversion => .test ?size fun hsize => .test ?known fun hknown =>
    .test ?noFlags fun hflags => .test ?requested fun hrequested => .test ?limit fun hlimit =>
      .done (Q := FrameHeader.Valid) ?done) ?_ ?_
  case magic => exact fun _ _ => iff_of_true rfl trivial
  case isMagic =>
    rintro header ⟨-, rfl⟩ -
    exact fun h => h rfl
  case version =>
    rintro header ⟨⟨⟨⟨⟨⟨⟨⟨-, rfl⟩, rfl⟩, -⟩, -⟩, -⟩, -⟩, -⟩, -⟩ hvalid
    exact not_or.mpr ⟨not_not.mpr hvalid.major, UInt16.not_lt.mpr hvalid.minor⟩
  case size =>
    rintro header ⟨⟨⟨⟨⟨⟨-, rfl⟩, -⟩, -⟩, -⟩, -⟩, -⟩ -
    exact fun h => h rfl
  case known =>
    rintro header ⟨⟨⟨⟨⟨-, rfl⟩, -⟩, -⟩, -⟩, -⟩ hvalid
    exact not_not.mpr hvalid.known
  case noFlags =>
    rintro header ⟨⟨⟨⟨-, rfl⟩, -⟩, -⟩, rfl⟩ hvalid
    simp [hvalid.noFlags]
  case requested =>
    rintro header ⟨⟨⟨-, rfl⟩, -⟩, -⟩ hvalid
    exact hvalid.requested
  case limit =>
    rintro header ⟨⟨-, rfl⟩, -⟩ hvalid
    exact Nat.not_lt.mpr hvalid.size
  case done =>
    rw [not_or, not_not, UInt16.not_lt] at hversion
    rw [not_or, not_not, not_not] at hflags
    rw [not_not] at hmagic hsize hknown
    intro header
    constructor
    · rintro ⟨⟨⟨⟨⟨⟨⟨⟨⟨⟨-, -⟩, rfl⟩, rfl⟩, -⟩, rfl⟩, rfl⟩, rfl⟩, rfl⟩, -⟩, -⟩
      rfl
    · rintro rfl
      exact ⟨⟨⟨⟨⟨⟨⟨⟨⟨⟨trivial, hmagic.symm⟩, rfl⟩, rfl⟩, hsize.symm⟩, rfl⟩, rfl⟩, rfl⟩, rfl⟩,
        hflags.2.symm⟩, ⟨hversion.1, hversion.2, hknown, hflags.1, hrequested,
          Nat.not_lt.mp hlimit⟩⟩
  · simp
  · simp [frameHeaderBytes]

theorem frameHeaderBytes_length (header : FrameHeader) :
    (frameHeaderBytes header).length = frameHeaderSize.toNat := by
  simp [frameHeaderBytes, integer, writeEnum]
  rfl

theorem decodeFrameHeader_eq_ok {bytes : Bytes} {header : FrameHeader} :
    decodeFrameHeader bytes = .ok header ↔ header.Valid ∧ bytes = frameHeaderBytes header := by
  unfold decodeFrameHeader
  rw [failIf_bind_eq_ok, not_not, readsTo_frameHeader.runReader_eq_ok]
  constructor
  · exact fun h => h.2
  · rintro ⟨hvalid, rfl⟩
    exact ⟨frameHeaderBytes_length header, hvalid, rfl⟩

/-- The header of a message. -/
def Message.header (message : Message) : FrameHeader :=
  ⟨protocolMajor, protocolMinor, message.type, 0, message.requestId,
    UInt32.ofNat message.payload.length⟩

/-- What `encode_frame` asks of a message. -/
structure Message.Encodable (message : Message) : Prop where
  known : isKnownMessageType message.type
  requested : message.requestId ≠ 0
  size : message.payload.length ≤ maximumPayloadSize

/-- The frame of a message. -/
def Message.frame (message : Message) : Bytes := frameHeaderBytes message.header ++ message.payload

theorem encodeFrame_eq_ok {message : Message} {bytes : Bytes} :
    encodeFrame message = .ok bytes ↔ message.Encodable ∧ message.frame = bytes := by
  unfold encodeFrame
  rw [failIf_bind_eq_ok, failIf_bind_eq_ok, failIf_bind_eq_ok, not_not, not_lt, pure_eq_ok,
    Except.ok.injEq]
  constructor
  · rintro ⟨hknown, hrequested, hsize, hbytes⟩
    exact ⟨⟨hknown, hrequested, hsize⟩, hbytes⟩
  · rintro ⟨h, hbytes⟩
    exact ⟨h.known, h.requested, h.size, hbytes⟩

/-- The length of a payload is not cut off. -/
theorem toNat_payload {payload : Bytes} (h : payload.length ≤ maximumPayloadSize) :
    (UInt32.ofNat payload.length).toNat = payload.length := by
  unfold maximumPayloadSize at h
  rw [UInt32.toNat_ofNat']
  omega

theorem Message.Encodable.header {message : Message} (h : message.Encodable) :
    message.header.Valid where
  major := rfl
  minor := UInt16.le_refl _
  known := h.known
  noFlags := rfl
  requested := h.requested
  size := (toNat_payload h.size).trans_le h.size

/-- A valid header and as many bytes as it says are the frame of a message. -/
theorem FrameHeader.Valid.frame {header : FrameHeader} (h : header.Valid) {payload : Bytes}
    (hsize : payload.length = header.payloadSize.toNat) :
    Message.Encodable ⟨header.messageType, header.requestId, payload⟩ ∧
      Message.frame ⟨header.messageType, header.requestId, payload⟩ =
        frameHeaderBytes header ++ payload := by
  refine ⟨⟨h.known, h.requested, hsize.trans_le h.size⟩, congrArg (frameHeaderBytes · ++ payload) ?_⟩
  obtain ⟨major, minor, messageType, flags, requestId, payloadSize⟩ := header
  obtain rfl : major = Ipc.protocolMajor := h.major
  obtain rfl : flags = 0 := h.noFlags
  obtain rfl : minor = Ipc.protocolMinor := UInt16.le_antisymm h.minor (UInt16.zero_le)
  show FrameHeader.mk _ _ _ _ _ (UInt32.ofNat payload.length) = _
  rw [hsize, UInt32.ofNat_toNat]

theorem decodeFrame_eq_ok {bytes : Bytes} {message : Message} :
    decodeFrame bytes = .ok message ↔ encodeFrame message = .ok bytes := by
  rw [encodeFrame_eq_ok]
  unfold decodeFrame
  rw [failIf_bind_eq_ok, bind_eq_ok]
  simp only [failIf_bind_eq_ok, not_lt, not_not, decodeFrameHeader_eq_ok, pure_eq_ok,
    Except.ok.injEq]
  constructor
  · rintro ⟨hroom, header, ⟨hvalid, htake⟩, hlength, rfl⟩
    have hsize : (bytes.drop frameHeaderSize.toNat).length = header.payloadSize.toNat := by
      rw [List.length_drop]
      omega
    obtain ⟨hencodable, hframe⟩ := hvalid.frame hsize
    refine ⟨hencodable, hframe.trans ?_⟩
    rw [← htake, List.take_append_drop]
  · rintro ⟨hencodable, rfl⟩
    have hlength := frameHeaderBytes_length message.header
    have htotal : message.frame.length = frameHeaderSize.toNat + message.payload.length := by
      rw [← hlength]
      exact List.length_append
    refine ⟨by omega, message.header, ⟨hencodable.header, ?_⟩, ?_, ?_⟩
    · unfold Message.frame
      rw [← hlength, List.take_left]
    · show _ = _ + (UInt32.ofNat message.payload.length).toNat
      rw [htotal, toNat_payload hencodable.size]
    · unfold Message.frame
      rw [← hlength, List.drop_left]
      rfl

/-! ## The protocol -/

theorem decodeAgentHello_eq_ok {hello : AgentHello} {payload : Bytes} :
    decodeAgentHello payload = .ok hello ↔ encodeAgentHello hello = .ok payload := by
  unfold encodeAgentHello
  rw [failIf_bind_eq_ok, pure_eq_ok, Except.ok.injEq, eq_comm (b := payload)]
  exact readsTo_agentHello.runReader_eq_ok

theorem decodeCaptureStatus_eq_ok {status : CaptureStatus} {payload : Bytes} :
    decodeCaptureStatus payload = .ok status ↔ encodeCaptureStatus status = .ok payload := by
  unfold encodeCaptureStatus
  rw [failIf_bind_eq_ok, not_not, pure_eq_ok, Except.ok.injEq, eq_comm (b := payload)]
  exact readsTo_captureStatus.runReader_eq_ok

theorem decodeErrorResponse_eq_ok {error : ErrorResponse} {payload : Bytes} :
    decodeErrorResponse payload = .ok error ↔ encodeErrorResponse error = .ok payload := by
  unfold encodeErrorResponse
  rw [failIf_bind_eq_ok, bind_eq_ok]
  simp only [string_eq_ok, pure_eq_ok, Except.ok.injEq]
  refine readsTo_errorResponse.runReader_eq_ok.trans ⟨?_, ?_⟩
  · rintro ⟨⟨hmessage, hfields⟩, rfl⟩
    exact ⟨hfields, _, ⟨hmessage, rfl⟩, rfl⟩
  · rintro ⟨hfields, _, ⟨hmessage, rfl⟩, rfl⟩
    exact ⟨⟨hmessage, hfields⟩, rfl⟩

/-- Hello, status, error response and frame are decoded from exactly the bytes they are
encoded to. A start request is decoded from its encoding, and what is decoded as one has
an encoding, from which it is decoded again. -/
theorem protocol_round_trip :
    (∀ hello payload,
      decodeAgentHello payload = .ok hello ↔ encodeAgentHello hello = .ok payload) ∧
    (∀ status payload,
      decodeCaptureStatus payload = .ok status ↔ encodeCaptureStatus status = .ok payload) ∧
    (∀ error payload,
      decodeErrorResponse payload = .ok error ↔ encodeErrorResponse error = .ok payload) ∧
    (∀ message bytes, decodeFrame bytes = .ok message ↔ encodeFrame message = .ok bytes) ∧
    (∀ request payload, encodeStartCapture request = .ok payload →
      decodeStartCapture payload = .ok request) ∧
    ∀ request payload, decodeStartCapture payload = .ok request →
      ∃ canonical, encodeStartCapture request = .ok canonical ∧
        decodeStartCapture canonical = .ok request := by
  refine ⟨fun _ _ => decodeAgentHello_eq_ok, fun _ _ => decodeCaptureStatus_eq_ok,
    fun _ _ => decodeErrorResponse_eq_ok, fun _ _ => decodeFrame_eq_ok,
    fun _ _ => decodeStartCapture_encode, ?_⟩
  intro request payload hdecode
  obtain ⟨canonical, hencode⟩ := yields_startCapture.run hdecode
  exact ⟨canonical, hencode, decodeStartCapture_encode hencode⟩

end Noleax.Ipc
