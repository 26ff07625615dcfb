import Noleax.Lib.Integers
import Noleax.Lib.Recovery

/-!
# The messages between controller and agent (`ipc/protocol.cpp`)

A message is encoded field by field after its fields are validated. A decoder reads
the fields in the same order, checks that nothing is left and validates what it has
read. An enumeration is the integer under it, as a value of an `enum class` is.
-/

namespace Noleax.Ipc

open Lib

/-- What a `ProtocolError` says. -/
abbrev ProtocolError := String

/-- `NLXP` -/
def protocolMagic : Bytes := [0x4e, 0x4c, 0x58, 0x50]
def protocolMajor : UInt16 := 1
def protocolMinor : UInt16 := 0
def frameHeaderSize : UInt16 := 32
def maximumPayloadSize : ℕ := 64 * 1024
def maximumStringSize : ℕ := 32 * 1024
def maximumCustomHooks : ℕ := 32

/-! ## `PayloadWriter` -/

/-- `integer` -/
def integer {α : Type} [Integral α] (value : α) : Bytes := integerBytes value

def writeEnum {α : Type} [Integral α] (value : α) : Bytes := integer value

/-- What `string` writes. -/
def stringBytes (value : Bytes) : Bytes := integer (UInt32.ofNat value.length) ++ value

def string (value : Bytes) : Except ProtocolError Bytes := do
  failIf (maximumStringSize < value.length) "protocol string exceeds the maximum length"
  failIf (0 ∈ value) "protocol string contains an embedded NUL"
  return stringBytes value

/-! ## `PayloadReader` -/

/-- The state is what lies behind `offset_`. -/
abbrev PayloadReader := EStateM ProtocolError Bytes

namespace PayloadReader

def truncated : ProtocolError := "protocol payload is truncated"

def integer {α : Type} [Integral α] : PayloadReader α := readInteger truncated

def bytes (size : ℕ) : PayloadReader Bytes := takeBytes truncated size

def string : PayloadReader Bytes := do
  let size : UInt32 ← integer
  check (failIf (maximumStringSize < size.toNat) "protocol string length exceeds the maximum")
  let value ← bytes size.toNat
  check (failIf (0 ∈ value) "protocol string contains an embedded NUL")
  return value

def finish : PayloadReader Unit := do
  check (failIf ((← get) ≠ []) "protocol payload has trailing bytes")

def readEnum {α : Type} [Integral α] : PayloadReader α := integer

end PayloadReader

open PayloadReader (readEnum)

/-! ## Enumerations -/

structure MessageType where
  code : UInt16
deriving DecidableEq, Repr

structure CaptureKind where
  code : UInt8
deriving DecidableEq, Repr

structure HookProfile where
  code : UInt8
deriving DecidableEq, Repr

structure CompressionCodec where
  code : UInt8
deriving DecidableEq, Repr

structure AgentState where
  code : UInt8
deriving DecidableEq, Repr

structure Architecture where
  code : UInt16
deriving DecidableEq, Repr

structure CustomHookLocator where
  code : UInt8
deriving DecidableEq, Repr

instance : Integral MessageType := .via MessageType.mk MessageType.code (fun _ => rfl) fun _ => rfl
instance : Integral CaptureKind := .via CaptureKind.mk CaptureKind.code (fun _ => rfl) fun _ => rfl
instance : Integral HookProfile := .via HookProfile.mk HookProfile.code (fun _ => rfl) fun _ => rfl
instance : Integral CompressionCodec :=
  .via CompressionCodec.mk CompressionCodec.code (fun _ => rfl) fun _ => rfl
instance : Integral AgentState := .via AgentState.mk AgentState.code (fun _ => rfl) fun _ => rfl
instance : Integral Architecture :=
  .via Architecture.mk Architecture.code (fun _ => rfl) fun _ => rfl
instance : Integral CustomHookLocator :=
  .via CustomHookLocator.mk CustomHookLocator.code (fun _ => rfl) fun _ => rfl

def MessageType.agentHello : MessageType := ⟨1⟩
def MessageType.error : MessageType := ⟨10⟩
def CaptureKind.launch : CaptureKind := ⟨1⟩
def CaptureKind.attach : CaptureKind := ⟨2⟩
def HookProfile.windowsNtHeap : HookProfile := ⟨1⟩
def HookProfile.windowsVirtualMemory : HookProfile := ⟨2⟩
def HookProfile.windowsNative : HookProfile := ⟨3⟩
def HookProfile.linuxGlibcHeap : HookProfile := ⟨4⟩
def HookProfile.linuxVirtualMemory : HookProfile := ⟨5⟩
def HookProfile.linuxNative : HookProfile := ⟨6⟩
def CompressionCodec.none : CompressionCodec := ⟨0⟩
def CompressionCodec.lz4 : CompressionCodec := ⟨1⟩
def CompressionCodec.zstd : CompressionCodec := ⟨2⟩
def AgentState.idle : AgentState := ⟨0⟩
def AgentState.unpatching : AgentState := ⟨8⟩
def Architecture.unknown : Architecture := ⟨0⟩
def Architecture.arm64 : Architecture := ⟨3⟩
def CustomHookLocator.none : CustomHookLocator := ⟨0⟩
def CustomHookLocator.exportTable : CustomHookLocator := ⟨1⟩
def CustomHookLocator.rva : CustomHookLocator := ⟨2⟩
def CustomHookLocator.elfSymbol : CustomHookLocator := ⟨3⟩

def isKnownMessageType (type : MessageType) : Bool :=
  MessageType.agentHello.code ≤ type.code && type.code ≤ MessageType.error.code

def validCaptureKind (value : CaptureKind) : Bool := value = .launch || value = .attach

def validHookProfile (value : HookProfile) : Bool :=
  value = .windowsNtHeap || value = .windowsVirtualMemory || value = .windowsNative ||
    value = .linuxGlibcHeap || value = .linuxVirtualMemory || value = .linuxNative

def validCompression (value : CompressionCodec) : Bool :=
  value = .none || value = .lz4 || value = .zstd

def validAgentState (value : AgentState) : Bool :=
  AgentState.idle.code ≤ value.code && value.code ≤ AgentState.unpatching.code

def validArchitecture (value : Architecture) : Bool :=
  Architecture.unknown.code ≤ value.code && value.code ≤ Architecture.arm64.code

def validCustomHookLocator (value : CustomHookLocator) : Bool :=
  value = .none || value = .exportTable || value = .rva || value = .elfSymbol

def validArgumentSlot (value : UInt8) : Bool := value ≤ 7

/-! ## Messages -/

structure FrameHeader where
  protocolMajor : UInt16
  protocolMinor : UInt16
  messageType : MessageType
  flags : UInt32
  requestId : UInt64
  payloadSize : UInt32
deriving DecidableEq, Repr

structure Message where
  type : MessageType
  requestId : UInt64
  payload : Bytes
deriving DecidableEq, Repr

/-- `std::array<std::byte, 16>` -/
abbrev SessionToken := { bytes : Bytes // bytes.length = 16 }

structure AgentHello where
  agentAbiVersion : UInt32
  processId : UInt32
  workerThreadId : UInt32
  pointerWidth : UInt8
  architecture : Architecture
  sessionToken : SessionToken
deriving DecidableEq

structure CustomHookRoleSpec where
  locator : CustomHookLocator
  exportName : Bytes
  rva : UInt64
deriving DecidableEq, Repr

structure CustomHookImageIdentity where
  timestamp : UInt32
  checksum : UInt32
  imageSize : UInt32
deriving DecidableEq, Repr

structure CustomHookSpec where
  /-- `module` -/
  moduleName : Bytes
  alloc : CustomHookRoleSpec
  realloc : CustomHookRoleSpec
  free : CustomHookRoleSpec
  allocSizeArg : UInt8
  allocCountArg : Option UInt8
  reallocPtrArg : UInt8
  reallocSizeArg : UInt8
  freePtrArg : UInt8
  resultArg : Option UInt8
  freeSizeArg : Option UInt8
  calloc : Bool
  forced : Bool
  waitModuleMs : UInt64
  label : Bytes
  imageIdentity : Option CustomHookImageIdentity
deriving DecidableEq, Repr

structure StartCaptureRequest where
  captureKind : CaptureKind
  hookProfile : HookProfile
  compression : CompressionCodec
  maximumStackDepth : UInt16
  minimumCaptureSize : UInt64
  bufferSize : UInt64
  maximumTraceSize : UInt64
  flushIntervalNs : UInt64
  memoryCountersIntervalNs : UInt64
  memoryMapIntervalNs : UInt64
  compressionLevel : Int32
  tracePathUtf8 : Bytes
  unloadOnStop : Bool
  customHooks : List CustomHookSpec
  strictBuffer : Bool
deriving DecidableEq

structure CaptureStatus where
  state : AgentState
  observedCalls : UInt64
  writtenEvents : UInt64
  filteredCalls : UInt64
  droppedEvents : UInt64
  bytesWritten : UInt64
  queuedEvents : UInt64
  queueCapacity : UInt64
  queueHighWaterEvents : UInt64
  consumedEvents : UInt64
  lastFlushMonotonicNs : UInt64
  flags : UInt32
  bufferRequestedBytes : UInt64
  bufferEffectiveSlots : UInt64
  bufferSlotBytes : UInt64
  bufferReservedBytes : UInt64
  bufferResidentBytes : UInt64
  agentReservedBytes : UInt64
  agentResidentBytes : UInt64
deriving DecidableEq, Repr

structure ErrorResponse where
  errorCode : UInt32
  systemError : UInt32
  message : Bytes
deriving DecidableEq, Repr

/-! ## Custom hooks -/

/-- The switch of `validate_custom_hook_role`, after the check of the locator. -/
def validateLocated (role : CustomHookRoleSpec) (required : Bool) : Except ProtocolError Unit :=
  if role.locator = .none then
    failIf (required ∨ role.exportName ≠ [] ∨ role.rva ≠ 0)
      "custom hook role is missing or inconsistent"
  else if role.locator = .exportTable ∨ role.locator = .elfSymbol then
    failIf (role.exportName = [] ∨ role.rva ≠ 0)
      "custom hook export role is inconsistent"
  else if role.locator = .rva then
    failIf (role.rva = 0 ∨ role.exportName ≠ [])
      "custom hook RVA role is inconsistent"
  else throw "custom hook role locator is not supported"

def validateCustomHookRole (role : CustomHookRoleSpec) (required : Bool) :
    Except ProtocolError Unit := do
  failIf (¬ validCustomHookLocator role.locator)
    "custom hook role locator is not supported"
  validateLocated role required

/-- The body of the loop of `validate_custom_hooks`. -/
def validateCustomHook (hook : CustomHookSpec) : Except ProtocolError Unit := do
  validateCustomHookRole hook.alloc true
  validateCustomHookRole hook.realloc false
  validateCustomHookRole hook.free true
  failIf (hook.moduleName = [] ∨ hook.label = [])
    "custom hook module and label must not be empty"
  failIf (¬ validArgumentSlot hook.allocSizeArg ∨
      ¬ hook.allocCountArg.all validArgumentSlot ∨ ¬ validArgumentSlot hook.reallocPtrArg ∨
      ¬ validArgumentSlot hook.reallocSizeArg ∨ ¬ validArgumentSlot hook.freePtrArg ∨
      ¬ hook.resultArg.all validArgumentSlot ∨ ¬ hook.freeSizeArg.all validArgumentSlot)
    "custom hook argument slot is out of range"
  failIf (hook.calloc ≠ hook.allocCountArg.isSome)
    "custom hook calloc mapping requires alloc_count_arg and vice versa"

def validateCustomHooks (hooks : List CustomHookSpec) : Except ProtocolError Unit := do
  failIf (maximumCustomHooks < hooks.length)
    "start capture request declares too many custom hooks"
  hooks.forM validateCustomHook

def roleBytes (role : CustomHookRoleSpec) (exportName : Bytes) : Bytes :=
  [writeEnum role.locator, integer (0 : UInt8), integer (0 : UInt16), integer (0 : UInt32),
    integer role.rva, exportName].flatten

def writeCustomHookRole (role : CustomHookRoleSpec) : Except ProtocolError Bytes := do
  return roleBytes role (← string role.exportName)

def readCustomHookRole : PayloadReader CustomHookRoleSpec := do
  let locator ← readEnum
  let reserved8 : UInt8 ← PayloadReader.integer
  let reserved16 : UInt16 ← PayloadReader.integer
  let reserved32 : UInt32 ← PayloadReader.integer
  let rva ← PayloadReader.integer
  let exportName ← PayloadReader.string
  check (failIf (reserved8 ≠ 0 ∨ reserved16 ≠ 0 ∨ reserved32 ≠ 0)
    "custom hook role reserved fields must be zero")
  return ⟨locator, exportName, rva⟩

/-- `value ? 1U : 0U` -/
def flag (value : Bool) : UInt8 := if value then 1 else 0

/-- The fields of a hook; its roles, its module and its label are written already. -/
def customHookBytes (hook : CustomHookSpec) (alloc realloc free moduleName label : Bytes) :
    Bytes :=
  let identity := hook.imageIdentity.getD ⟨0, 0, 0⟩
  [integer hook.allocSizeArg, integer (hook.allocCountArg.getD 0xff), integer hook.reallocPtrArg,
    integer hook.reallocSizeArg, integer hook.freePtrArg, integer (hook.resultArg.getD 0xff),
    integer (hook.freeSizeArg.getD 0xff), integer (flag hook.calloc), integer (flag hook.forced),
    integer (0 : UInt8), integer hook.waitModuleMs, alloc, realloc, free, moduleName, label,
    integer (flag hook.imageIdentity.isSome), integer (0 : UInt8), integer (0 : UInt16),
    integer identity.timestamp, integer identity.checksum, integer identity.imageSize].flatten

/-- The body of the loop of `write_custom_hooks`. -/
def writeCustomHook (hook : CustomHookSpec) : Except ProtocolError Bytes := do
  let alloc ← writeCustomHookRole hook.alloc
  let realloc ← writeCustomHookRole hook.realloc
  let free ← writeCustomHookRole hook.free
  let moduleName ← string hook.moduleName
  let label ← string hook.label
  return customHookBytes hook alloc realloc free moduleName label

def writeCustomHooks (hooks : List CustomHookSpec) : Except ProtocolError Bytes := do
  let bodies ← hooks.mapM writeCustomHook
  return integer (UInt32.ofNat hooks.length) ++ bodies.flatten

def readArgumentSlot : PayloadReader UInt8 := do
  let value : UInt8 ← PayloadReader.integer
  check (failIf (value ≠ 0xff ∧ ¬ validArgumentSlot value)
    "custom hook argument slot is out of range")
  return value

/-- A slot that may be absent. -/
def optionalSlot (value : UInt8) : Option UInt8 := if value ≠ 0xff then some value else none

/-- The identity of a hook and its check. -/
def checkedIdentity (present : UInt8) (identity : CustomHookImageIdentity) :
    Except ProtocolError (Option CustomHookImageIdentity) :=
  if present ≠ 0 then return some identity
  else do
    failIf (identity.timestamp ≠ 0 ∨ identity.checksum ≠ 0 ∨ identity.imageSize ≠ 0)
      "absent custom hook image identity must be zero"
    return none

/-- The body of the loop of `read_custom_hooks`. -/
def readCustomHook : PayloadReader CustomHookSpec := do
  let allocSizeArg ← readArgumentSlot
  let allocCountArg ← readArgumentSlot
  let reallocPtrArg ← readArgumentSlot
  let reallocSizeArg ← readArgumentSlot
  let freePtrArg ← readArgumentSlot
  let resultArg ← readArgumentSlot
  let freeSizeArg ← readArgumentSlot
  let calloc : UInt8 ← PayloadReader.integer
  let forced : UInt8 ← PayloadReader.integer
  let reserved : UInt8 ← PayloadReader.integer
  let waitModuleMs ← PayloadReader.integer
  let alloc ← readCustomHookRole
  let realloc ← readCustomHookRole
  let free ← readCustomHookRole
  let moduleName ← PayloadReader.string
  let label ← PayloadReader.string
  let identityPresent : UInt8 ← PayloadReader.integer
  let identityReserved8 : UInt8 ← PayloadReader.integer
  let identityReserved16 : UInt16 ← PayloadReader.integer
  let identityTimestamp ← PayloadReader.integer
  let identityChecksum ← PayloadReader.integer
  let identityImageSize ← PayloadReader.integer
  check (failIf (reserved ≠ 0 ∨ identityReserved8 ≠ 0 ∨ identityReserved16 ≠ 0 ∨
      1 < identityPresent)
    "custom hook reserved fields must be zero")
  let imageIdentity ← check (checkedIdentity identityPresent
    ⟨identityTimestamp, identityChecksum, identityImageSize⟩)
  return ⟨moduleName, alloc, realloc, free, allocSizeArg, optionalSlot allocCountArg,
    reallocPtrArg, reallocSizeArg, freePtrArg, optionalSlot resultArg, optionalSlot freeSizeArg,
    calloc ≠ 0, forced ≠ 0, waitModuleMs, label, imageIdentity⟩

def readCustomHooks : PayloadReader (List CustomHookSpec) := do
  let count : UInt32 ← PayloadReader.integer
  check (failIf (maximumCustomHooks < count.toNat)
    "start capture request declares too many custom hooks")
  readMany readCustomHook count.toNat

/-! ## Frames -/

/-- The bytes of a header. -/
def frameHeaderBytes (header : FrameHeader) : Bytes :=
  [protocolMagic, integer header.protocolMajor, integer header.protocolMinor,
    integer frameHeaderSize, writeEnum header.messageType, integer header.flags,
    integer header.requestId, integer header.payloadSize, integer (0 : UInt32)].flatten

def appendFrameHeader (message : Message) : Bytes :=
  frameHeaderBytes ⟨protocolMajor, protocolMinor, message.type, 0, message.requestId,
    UInt32.ofNat message.payload.length⟩

def encodeFrame (message : Message) : Except ProtocolError Bytes := do
  failIf (¬ isKnownMessageType message.type)
    "cannot encode an unknown message type"
  failIf (message.requestId = 0) "protocol request id must be nonzero"
  failIf (maximumPayloadSize < message.payload.length)
    "protocol payload exceeds the maximum length"
  return appendFrameHeader message ++ message.payload

/-- The fields of `decode_frame_header`. -/
def readFrameHeader : PayloadReader FrameHeader := do
  let magic ← PayloadReader.bytes protocolMagic.length
  check (failIf (magic ≠ protocolMagic) "protocol frame magic is invalid")
  let major : UInt16 ← PayloadReader.integer
  let minor : UInt16 ← PayloadReader.integer
  let headerSize : UInt16 ← PayloadReader.integer
  let messageType ← readEnum
  let flags : UInt32 ← PayloadReader.integer
  let requestId : UInt64 ← PayloadReader.integer
  let payloadSize : UInt32 ← PayloadReader.integer
  let reserved : UInt32 ← PayloadReader.integer
  PayloadReader.finish
  check (failIf (major ≠ protocolMajor ∨ protocolMinor < minor)
    "protocol version is not supported")
  check (failIf (headerSize ≠ frameHeaderSize)
    "protocol header size is not supported")
  check (failIf (¬ isKnownMessageType messageType)
    "protocol message type is unknown")
  check (failIf (flags ≠ 0 ∨ reserved ≠ 0)
    "protocol frame contains unsupported flags or reserved bits")
  check (failIf (requestId = 0) "protocol request id must be nonzero")
  check (failIf (maximumPayloadSize < payloadSize.toNat)
    "protocol payload length exceeds the maximum")
  return ⟨major, minor, messageType, flags, requestId, payloadSize⟩

def decodeFrameHeader (bytes : Bytes) : Except ProtocolError FrameHeader := do
  failIf (bytes.length ≠ frameHeaderSize.toNat)
    "protocol frame header has an invalid length"
  runReader readFrameHeader bytes

def decodeFrame (bytes : Bytes) : Except ProtocolError Message := do
  failIf (bytes.length < frameHeaderSize.toNat) "protocol frame is truncated"
  let header ← decodeFrameHeader (bytes.take frameHeaderSize.toNat)
  failIf (bytes.length ≠ frameHeaderSize.toNat + header.payloadSize.toNat)
    "protocol frame length does not match its header"
  return ⟨header.messageType, header.requestId, bytes.drop frameHeaderSize.toNat⟩

/-! ## `AgentHello` -/

def AgentHello.Invalid (hello : AgentHello) : Prop :=
  hello.agentAbiVersion = 0 ∨ hello.processId = 0 ∨ hello.workerThreadId = 0 ∨
    (hello.pointerWidth ≠ 4 ∧ hello.pointerWidth ≠ 8) ∨ ¬ validArchitecture hello.architecture

instance (hello : AgentHello) : Decidable hello.Invalid := inferInstanceAs (Decidable (_ ∨ _))

def agentHelloBytes (hello : AgentHello) : Bytes :=
  [integer hello.agentAbiVersion, integer hello.processId, integer hello.workerThreadId,
    integer hello.pointerWidth, integer (0 : UInt8), writeEnum hello.architecture,
    hello.sessionToken.val].flatten

def encodeAgentHello (hello : AgentHello) : Except ProtocolError Bytes := do
  failIf hello.Invalid "agent hello contains invalid fields"
  return agentHelloBytes hello

/-- `std::ranges::copy` into an array of zeros. -/
def SessionToken.copy (token : Bytes) : SessionToken :=
  ⟨(token ++ List.replicate 16 0).take 16, by
    rw [List.length_take, List.length_append, List.length_replicate]
    omega⟩

def readAgentHello : PayloadReader AgentHello := do
  let agentAbiVersion ← PayloadReader.integer
  let processId ← PayloadReader.integer
  let workerThreadId ← PayloadReader.integer
  let pointerWidth ← PayloadReader.integer
  let reserved : UInt8 ← PayloadReader.integer
  let architecture ← readEnum
  let token ← PayloadReader.bytes 16
  PayloadReader.finish
  let hello : AgentHello := ⟨agentAbiVersion, processId, workerThreadId, pointerWidth,
    architecture, SessionToken.copy token⟩
  check (failIf (reserved ≠ 0 ∨ hello.Invalid) "agent hello contains invalid fields")
  return hello

def decodeAgentHello (payload : Bytes) : Except ProtocolError AgentHello :=
  runReader readAgentHello payload

/-! ## `StartCaptureRequest` -/

def StartCaptureRequest.Invalid (request : StartCaptureRequest) : Prop :=
  ¬ validCaptureKind request.captureKind ∨ ¬ validHookProfile request.hookProfile ∨
    ¬ validCompression request.compression ∨ request.maximumStackDepth = 0 ∨
    request.bufferSize = 0 ∨ request.maximumTraceSize = 0 ∨ request.flushIntervalNs = 0 ∨
    request.tracePathUtf8 = []

instance (request : StartCaptureRequest) : Decidable request.Invalid :=
  inferInstanceAs (Decidable (_ ∨ _))

/-- The fields of a request; its strings are written already. -/
def startCaptureBytes (request : StartCaptureRequest) (tracePath customHooks : Bytes) : Bytes :=
  [writeEnum request.captureKind, writeEnum request.hookProfile, writeEnum request.compression,
    integer (0 : UInt8), integer request.maximumStackDepth, integer (0 : UInt16),
    integer request.minimumCaptureSize, integer request.bufferSize,
    integer request.maximumTraceSize, integer request.flushIntervalNs,
    integer request.memoryCountersIntervalNs, integer request.memoryMapIntervalNs,
    integer request.compressionLevel, integer (0 : UInt32), tracePath,
    integer (flag request.unloadOnStop), customHooks,
    integer (flag request.strictBuffer)].flatten

def encodeStartCapture (request : StartCaptureRequest) : Except ProtocolError Bytes := do
  failIf request.Invalid "start capture request contains invalid fields"
  validateCustomHooks request.customHooks
  let tracePath ← string request.tracePathUtf8
  let customHooks ← writeCustomHooks request.customHooks
  return startCaptureBytes request tracePath customHooks

def readStartCapture : PayloadReader StartCaptureRequest := do
  let captureKind ← readEnum
  let hookProfile ← readEnum
  let compression ← readEnum
  let reserved8 : UInt8 ← PayloadReader.integer
  let maximumStackDepth ← PayloadReader.integer
  let reserved16 : UInt16 ← PayloadReader.integer
  let minimumCaptureSize ← PayloadReader.integer
  let bufferSize ← PayloadReader.integer
  let maximumTraceSize ← PayloadReader.integer
  let flushIntervalNs ← PayloadReader.integer
  let memoryCountersIntervalNs ← PayloadReader.integer
  let memoryMapIntervalNs ← PayloadReader.integer
  let compressionLevel ← PayloadReader.integer
  let reserved32 : UInt32 ← PayloadReader.integer
  let tracePathUtf8 ← PayloadReader.string
  let unloadOnStop : UInt8 ← PayloadReader.integer
  let customHooks ← readCustomHooks
  let strictBuffer : UInt8 ← PayloadReader.integer
  PayloadReader.finish
  let request : StartCaptureRequest := ⟨captureKind, hookProfile, compression,
    maximumStackDepth, minimumCaptureSize, bufferSize, maximumTraceSize, flushIntervalNs,
    memoryCountersIntervalNs, memoryMapIntervalNs, compressionLevel, tracePathUtf8,
    unloadOnStop ≠ 0, customHooks, strictBuffer ≠ 0⟩
  check (failIf (reserved8 ≠ 0 ∨ reserved16 ≠ 0 ∨ reserved32 ≠ 0 ∨ request.Invalid)
    "start capture request contains invalid fields")
  check (validateCustomHooks request.customHooks)
  return request

def decodeStartCapture (payload : Bytes) : Except ProtocolError StartCaptureRequest :=
  runReader readStartCapture payload

/-! ## `CaptureStatus` -/

def captureStatusBytes (status : CaptureStatus) : Bytes :=
  [writeEnum status.state, integer (0 : UInt8), integer (0 : UInt16), integer (0 : UInt32),
    integer status.observedCalls, integer status.writtenEvents, integer status.filteredCalls,
    integer status.droppedEvents, integer status.bytesWritten, integer status.queuedEvents,
    integer status.queueCapacity, integer status.queueHighWaterEvents,
    integer status.consumedEvents, integer status.lastFlushMonotonicNs, integer status.flags,
    integer status.bufferRequestedBytes, integer status.bufferEffectiveSlots,
    integer status.bufferSlotBytes, integer status.bufferReservedBytes,
    integer status.bufferResidentBytes, integer status.agentReservedBytes,
    integer status.agentResidentBytes].flatten

def encodeCaptureStatus (status : CaptureStatus) : Except ProtocolError Bytes := do
  failIf (¬ validAgentState status.state) "capture status contains an invalid state"
  return captureStatusBytes status

def readCaptureStatus : PayloadReader CaptureStatus := do
  let state ← readEnum
  let reserved8 : UInt8 ← PayloadReader.integer
  let reserved16 : UInt16 ← PayloadReader.integer
  let reserved32 : UInt32 ← PayloadReader.integer
  let observedCalls ← PayloadReader.integer
  let writtenEvents ← PayloadReader.integer
  let filteredCalls ← PayloadReader.integer
  let droppedEvents ← PayloadReader.integer
  let bytesWritten ← PayloadReader.integer
  let queuedEvents ← PayloadReader.integer
  let queueCapacity ← PayloadReader.integer
  let queueHighWaterEvents ← PayloadReader.integer
  let consumedEvents ← PayloadReader.integer
  let lastFlushMonotonicNs ← PayloadReader.integer
  let flags ← PayloadReader.integer
  let bufferRequestedBytes ← PayloadReader.integer
  let bufferEffectiveSlots ← PayloadReader.integer
  let bufferSlotBytes ← PayloadReader.integer
  let bufferReservedBytes ← PayloadReader.integer
  let bufferResidentBytes ← PayloadReader.integer
  let agentReservedBytes ← PayloadReader.integer
  let agentResidentBytes ← PayloadReader.integer
  PayloadReader.finish
  check (failIf (¬ validAgentState state ∨ reserved8 ≠ 0 ∨ reserved16 ≠ 0 ∨ reserved32 ≠ 0)
    "capture status contains invalid fields")
  return ⟨state, observedCalls, writtenEvents, filteredCalls, droppedEvents, bytesWritten,
    queuedEvents, queueCapacity, queueHighWaterEvents, consumedEvents, lastFlushMonotonicNs,
    flags, bufferRequestedBytes, bufferEffectiveSlots, bufferSlotBytes, bufferReservedBytes,
    bufferResidentBytes, agentReservedBytes, agentResidentBytes⟩

def decodeCaptureStatus (payload : Bytes) : Except ProtocolError CaptureStatus :=
  runReader readCaptureStatus payload

/-! ## `ErrorResponse` -/

/-- The fields of a response; its message is written already. -/
def errorResponseBytes (error : ErrorResponse) (message : Bytes) : Bytes :=
  [integer error.errorCode, integer error.systemError, message].flatten

def encodeErrorResponse (error : ErrorResponse) : Except ProtocolError Bytes := do
  failIf (error.errorCode = 0 ∨ error.message = []) "error response contains invalid fields"
  return errorResponseBytes error (← string error.message)

def readErrorResponse : PayloadReader ErrorResponse := do
  let errorCode ← PayloadReader.integer
  let systemError ← PayloadReader.integer
  let message ← PayloadReader.string
  PayloadReader.finish
  check (failIf (errorCode = 0 ∨ message = [])
    "error response contains invalid fields")
  return ⟨errorCode, systemError, message⟩

def decodeErrorResponse (payload : Bytes) : Except ProtocolError ErrorResponse :=
  runReader readErrorResponse payload

end Noleax.Ipc
