import Noleax.Trace.Wire

/-!
# Headers of a trace file (`trace/wire_format.cpp`, `trace/trace_reader.cpp`)

The file header and the chunk header, with what their parsers accept, and CRC32C. An
unknown platform, architecture, chunk type or codec is a number that names no value.
-/

namespace Noleax.Trace

open Lib

/-! ## Names -/

inductive Platform where
  | windows | linux | macos
deriving DecidableEq, Repr

inductive Architecture where
  | x86 | x64 | arm64
deriving DecidableEq, Repr

inductive ChunkType where
  | metadata | module | stack | event | statistics | endOfTrace | memory
deriving DecidableEq, Repr

inductive CompressionCodec where
  | none | lz4 | zstd
deriving DecidableEq, Repr

def Platform.coding : Coding Platform where
  values := [.windows, .linux, .macos]
  code
    | .windows => 1
    | .linux => 2
    | .macos => 3
  complete := by rintro ⟨⟩ <;> decide
  injective := by rintro ⟨⟩ ⟨⟩ <;> decide
  byte := by rintro ⟨⟩ <;> decide

def Architecture.coding : Coding Architecture where
  values := [.x86, .x64, .arm64]
  code
    | .x86 => 1
    | .x64 => 2
    | .arm64 => 3
  complete := by rintro ⟨⟩ <;> decide
  injective := by rintro ⟨⟩ ⟨⟩ <;> decide
  byte := by rintro ⟨⟩ <;> decide

def ChunkType.coding : Coding ChunkType where
  values := [.metadata, .module, .stack, .event, .statistics, .endOfTrace, .memory]
  code
    | .metadata => 1
    | .module => 2
    | .stack => 3
    | .event => 4
    | .statistics => 5
    | .endOfTrace => 6
    | .memory => 7
  complete := by rintro ⟨⟩ <;> decide
  injective := by rintro ⟨⟩ ⟨⟩ <;> decide
  byte := by rintro ⟨⟩ <;> decide

def CompressionCodec.coding : Coding CompressionCodec where
  values := [.none, .lz4, .zstd]
  code
    | .none => 0
    | .lz4 => 1
    | .zstd => 2
  complete := by rintro ⟨⟩ <;> decide
  injective := by rintro ⟨⟩ ⟨⟩ <;> decide
  byte := by rintro ⟨⟩ <;> decide

/-! ## The checksum -/

/-- One bit of an entry of `make_crc32c_table`. -/
def crc32cBit (value : UInt32) : UInt32 :=
  if value &&& 1 ≠ 0 then (value >>> 1) ^^^ 0x82F63B78 else value >>> 1

/-- `kCrc32cTable[index]` -/
def crc32cEntry (index : UInt32) : UInt32 :=
  (List.range 8).foldl (fun value _ => crc32cBit value) index

def crc32cStep (crc : UInt32) (byte : UInt8) : UInt32 :=
  crc32cEntry ((crc ^^^ byte.toUInt32) &&& 0xFF) ^^^ (crc >>> 8)

def crc32c (bytes : Bytes) : ℕ := (~~~ (bytes.foldl crc32cStep 0xFFFFFFFF)).toNat

theorem crc32c_isWord (bytes : Bytes) : IsWord 4 (crc32c bytes) := UInt32.toNat_lt _

/-! ## Options of the reader -/

structure TraceReaderOptions where
  maxFileHeaderSize : ℕ := 64 * 1024
  maxChunkHeaderSize : ℕ := 64 * 1024
  maxUncompressedChunkSize : ℕ := 16 * 1024 * 1024
  maxStoredChunkSize : ℕ := 17 * 1024 * 1024
  maxCompressionRatio : ℕ := 64 * 1024
deriving DecidableEq, Repr

/-- `validate_options` -/
def TraceReaderOptions.validate (options : TraceReaderOptions) : Except Error Unit := do
  failIf (options.maxFileHeaderSize < fileHeaderSize)
    (.traceRead "maximum file header size is smaller than the V1 header")
  failIf (options.maxChunkHeaderSize < chunkHeaderSize)
    (.traceRead "maximum chunk header size is smaller than the V1 header")
  failIf (options.maxUncompressedChunkSize = 0 ∨ options.maxStoredChunkSize = 0)
    (.traceRead "chunk size limits must not be zero")
  failIf (options.maxCompressionRatio = 0)
    (.traceRead "maximum compression ratio must not be zero")

theorem TraceReaderOptions.validate_eq_ok {options : TraceReaderOptions} :
    options.validate = .ok () ↔ fileHeaderSize ≤ options.maxFileHeaderSize ∧
      chunkHeaderSize ≤ options.maxChunkHeaderSize ∧
      (options.maxUncompressedChunkSize ≠ 0 ∧ options.maxStoredChunkSize ≠ 0) ∧
      options.maxCompressionRatio ≠ 0 := by
  unfold TraceReaderOptions.validate
  simp only [failIf_bind_eq_ok, failIf_eq_ok]
  omega

/-! ## The file header -/

structure FileHeader where
  pointerWidth : ℕ
  platform : Platform
  architecture : Architecture
  flags : ℕ := 0
  sessionId : Bytes
  fileIndex : ℕ := 0
  monotonicFrequency : ℕ
  monotonicOrigin : ℕ := 0
  utcOriginNs : ℤ := 0
deriving DecidableEq, Repr

def traceMagic : Bytes := [78, 76, 88, 84, 82, 65, 67, 69]

def traceFormatMajor : ℕ := 1
def traceFormatMinor : ℕ := 4

/-- `ByteOrder::kLittleEndian` -/
def littleEndianOrder : ℕ := 1

/-- A file header with what its file says of the format. -/
structure RawFileHeader where
  headerSize : ℕ := fileHeaderSize
  formatMinor : ℕ := traceFormatMinor
  header : FileHeader

def appendFileHeader (raw : RawFileHeader) : Bytes :=
  traceMagic ++ appendU16 raw.headerSize ++ appendU16 traceFormatMajor ++
    appendU16 raw.formatMinor ++ appendU8 littleEndianOrder ++ appendU8 raw.header.pointerWidth ++
    appendU16 (Platform.coding.code raw.header.platform) ++
    appendU16 (Architecture.coding.code raw.header.architecture) ++ appendU32 raw.header.flags ++
    raw.header.sessionId ++ appendU32 raw.header.fileIndex ++
    appendU64 raw.header.monotonicFrequency ++ appendU64 raw.header.monotonicOrigin ++
    appendI64 raw.header.utcOriginNs

/-- `validate_file_header` -/
def validateFileHeader (header : FileHeader) : Except Error Unit := do
  failIf (header.pointerWidth ≠ 4 ∧ header.pointerWidth ≠ 8)
    (.wireFormat "pointer width must be 4 or 8 bytes")
  failIf (header.monotonicFrequency = 0) (.wireFormat "monotonic frequency must not be zero")

def encodeFileHeader (header : FileHeader) : Except Error Bytes := do
  validateFileHeader header
  return appendFileHeader { header := header }

/-- What the constructor of `TraceReader` makes of the bytes of the header: the fields by
their places, then the checks. -/
def parseFileHeader (options : TraceReaderOptions) : PayloadReader RawFileHeader := do
  let magic ← readString 8
  let headerSize ← readU16
  let formatMajor ← readU16
  let formatMinor ← readU16
  let byteOrder ← readU8
  let pointerWidth ← readU8
  let platformCode ← readU16
  let architectureCode ← readU16
  let flags ← readU32
  let sessionId ← readGuid
  let fileIndex ← readU32
  let monotonicFrequency ← readU64
  let monotonicOrigin ← readU64
  let utcOriginNs ← readI64
  check (failIf (magic ≠ traceMagic) (.traceRead "trace magic does not match NLXTRACE"))
  check (failIf (byteOrder ≠ littleEndianOrder) (.traceRead "trace byte order is not supported"))
  check (failIf (headerSize < fileHeaderSize ∨ options.maxFileHeaderSize < headerSize)
    (.traceRead "trace file header size is invalid"))
  check (failIf (formatMajor ≠ traceFormatMajor)
    (.traceRead "trace format major version is not supported"))
  check (failIf (pointerWidth ≠ 4 ∧ pointerWidth ≠ 8)
    (.traceRead "trace pointer width must be 4 or 8 bytes"))
  let platform ← check (Platform.coding.decode (.traceRead "trace platform is not supported")
    platformCode)
  let architecture ← check (Architecture.coding.decode
    (.traceRead "trace architecture is not supported") architectureCode)
  check (failIf (monotonicFrequency = 0)
    (.traceRead "trace monotonic frequency must not be zero"))
  return ⟨headerSize, formatMinor, pointerWidth, platform, architecture, flags, sessionId,
    fileIndex, monotonicFrequency, monotonicOrigin, utcOriginNs⟩

/-- What the fields of a header can hold. -/
def FileHeader.InRange (header : FileHeader) : Prop :=
  IsWord 4 header.flags ∧ header.sessionId.length = 16 ∧ IsWord 4 header.fileIndex ∧
    IsWord 8 header.monotonicFrequency ∧ IsWord 8 header.monotonicOrigin ∧
    IsInt64 header.utcOriginNs

/-- A header the reader accepts. -/
structure RawFileHeader.Accepted (options : TraceReaderOptions) (raw : RawFileHeader) : Prop where
  range : raw.header.InRange
  minor : IsWord 2 raw.formatMinor
  word : IsWord 2 raw.headerSize
  least : fileHeaderSize ≤ raw.headerSize
  most : raw.headerSize ≤ options.maxFileHeaderSize
  valid : validateFileHeader raw.header = .ok ()

theorem validateFileHeader_eq_ok {header : FileHeader} :
    validateFileHeader header = .ok () ↔
      (header.pointerWidth = 4 ∨ header.pointerWidth = 8) ∧ header.monotonicFrequency ≠ 0 := by
  unfold validateFileHeader
  rw [failIf_bind_eq_ok, failIf_eq_ok]
  tauto

theorem reads_fileHeader (options : TraceReaderOptions) :
    Reads (RawFileHeader.Accepted options) appendFileHeader (parseFileHeader options) := by
  apply ReadsTo.reads
  refine ReadsTo.layout (.field (reads_string 8) (fun _ => traceMagic) fun magic _ =>
    .field reads_u16 RawFileHeader.headerSize fun headerSize _ =>
    .field reads_u16 (fun _ => traceFormatMajor) fun major _ =>
    .field reads_u16 RawFileHeader.formatMinor fun _ _ =>
    .field reads_u8 (fun _ => littleEndianOrder) fun order _ =>
    .field reads_u8 (fun raw : RawFileHeader => raw.header.pointerWidth) fun width _ =>
    .field reads_u16 (fun raw : RawFileHeader => Platform.coding.code raw.header.platform)
      fun _ _ =>
    .field reads_u16 (fun raw : RawFileHeader => Architecture.coding.code raw.header.architecture)
      fun _ _ =>
    .field reads_u32 (fun raw : RawFileHeader => raw.header.flags) fun _ _ =>
    .field reads_guid (fun raw : RawFileHeader => raw.header.sessionId) fun _ _ =>
    .field reads_u32 (fun raw : RawFileHeader => raw.header.fileIndex) fun _ _ =>
    .field reads_u64 (fun raw : RawFileHeader => raw.header.monotonicFrequency)
      fun frequency _ =>
    .field reads_u64 (fun raw : RawFileHeader => raw.header.monotonicOrigin) fun _ _ =>
    .field reads_i64 (fun raw : RawFileHeader => raw.header.utcOriginNs) fun _ _ =>
    .test ?magic fun hmagic => .test ?order fun horder => .test ?size fun hsize =>
    .test ?major fun hmajor => .test ?width fun hwidth =>
    .look (fun raw : RawFileHeader => raw.header.platform) ?platform fun platform hplatform =>
    .look (fun raw : RawFileHeader => raw.header.architecture) ?architecture
      fun architecture harchitecture =>
    .test ?frequency fun hfrequency =>
    .done (Q := fun raw : RawFileHeader => fileHeaderSize ≤ raw.headerSize ∧
      raw.headerSize ≤ options.maxFileHeaderSize ∧ validateFileHeader raw.header = .ok ())
      ?done) ?_ ?_
  case magic =>
    intro raw hfields _
    simp only [and_assoc] at hfields
    exact not_not.mpr hfields.2.1.symm
  case order =>
    intro raw hfields _
    simp only [and_assoc] at hfields
    obtain ⟨-, -, -, -, -, horder, -⟩ := hfields
    exact not_not.mpr horder.symm
  case size =>
    rintro raw hfields ⟨hleast, hmost, -⟩
    simp only [and_assoc] at hfields
    obtain ⟨-, -, rfl, -⟩ := hfields
    omega
  case major =>
    intro raw hfields _
    simp only [and_assoc] at hfields
    obtain ⟨-, -, -, hmajor, -⟩ := hfields
    exact not_not.mpr hmajor.symm
  case width =>
    rintro raw hfields ⟨-, -, hvalid⟩
    simp only [and_assoc] at hfields
    obtain ⟨-, -, -, -, -, -, rfl, -⟩ := hfields
    have hwidth := (validateFileHeader_eq_ok.mp hvalid).1
    omega
  case platform =>
    intro raw hfields _
    simp only [and_assoc] at hfields
    obtain ⟨-, -, -, -, -, -, -, rfl, -⟩ := hfields
    exact (Coding.decode_eq_ok _ _).mpr rfl
  case architecture =>
    intro raw hfields _
    simp only [and_assoc] at hfields
    obtain ⟨-, -, -, -, -, -, -, -, rfl, -⟩ := hfields
    exact (Coding.decode_eq_ok _ _).mpr rfl
  case frequency =>
    rintro raw hfields ⟨-, -, hvalid⟩
    simp only [and_assoc] at hfields
    obtain ⟨-, -, -, -, -, -, -, -, -, -, -, -, rfl, -⟩ := hfields
    exact (validateFileHeader_eq_ok.mp hvalid).2
  case done =>
    obtain rfl := not_not.mp hmagic
    obtain rfl := not_not.mp horder
    obtain rfl := not_not.mp hmajor
    obtain rfl := (Coding.decode_eq_ok _ _).mp hplatform
    obtain rfl := (Coding.decode_eq_ok _ _).mp harchitecture
    intro raw
    constructor
    · rintro ⟨hfields, -⟩
      simp only [and_assoc] at hfields
      obtain ⟨-, -, rfl, -, rfl, -, rfl, -, -, rfl, rfl, rfl, rfl, rfl, rfl, rfl, rfl⟩ := hfields
      rfl
    · rintro rfl
      have hvalid : width = 4 ∨ width = 8 := by omega
      simp only [true_and]
      exact ⟨by omega, by omega, validateFileHeader_eq_ok.mpr ⟨hvalid, hfrequency⟩⟩
  · intro raw
    have hplatform := Nat.lt_trans (Platform.coding.byte raw.header.platform)
      (by decide : 256 ^ 1 < 256 ^ 2)
    have harchitecture := Nat.lt_trans (Architecture.coding.byte raw.header.architecture)
      (by decide : 256 ^ 1 < 256 ^ 2)
    constructor
    · rintro ⟨⟨hflags, hsession, hindex, hfrequency, horigin, hutc⟩, hminor, hword, hleast, hmost,
        hvalid⟩
      have hwidth : IsWord 1 raw.header.pointerWidth := by
        have := (validateFileHeader_eq_ok.mp hvalid).1
        unfold IsWord
        omega
      exact ⟨rfl, hword, by decide, hminor, by decide, hwidth, hplatform, harchitecture, hflags,
        hsession, hindex, hfrequency, horigin, hutc, hleast, hmost, hvalid⟩
    · rintro ⟨-, hword, -, hminor, -, -, -, -, hflags, hsession, hindex, hfrequency, horigin, hutc,
        hleast, hmost, hvalid⟩
      exact ⟨⟨hflags, hsession, hindex, hfrequency, horigin, hutc⟩, hminor, hword, hleast, hmost,
        hvalid⟩
  · simp [appendFileHeader]

/-! ## The chunk header -/

structure ChunkDescriptor where
  type : ChunkType := .event
  version : ℕ := 1
  flags : ℕ := 0
  codec : CompressionCodec := .none
  sequenceBegin : ℕ := 0
  sequenceEnd : ℕ := 0
deriving DecidableEq, Repr

structure ChunkHeader where
  descriptor : ChunkDescriptor
  uncompressedSize : ℕ := 0
  storedSize : ℕ := 0
  crc32c : ℕ := 0
deriving DecidableEq, Repr

/-- A chunk header before its type and its codec are known. -/
structure RawChunkHeader where
  type : ℕ
  version : ℕ
  headerSize : ℕ := chunkHeaderSize
  flags : ℕ
  codec : ℕ
  sequenceBegin : ℕ
  sequenceEnd : ℕ
  uncompressedSize : ℕ
  storedSize : ℕ
  crc32c : ℕ
deriving DecidableEq, Repr

def appendChunkHeader (raw : RawChunkHeader) : Bytes :=
  appendU16 raw.type ++ appendU16 raw.version ++ appendU16 raw.headerSize ++
    appendU16 raw.flags ++ appendU8 raw.codec ++ appendZeros 7 ++ appendU64 raw.sequenceBegin ++
    appendU64 raw.sequenceEnd ++ appendU64 raw.uncompressedSize ++ appendU64 raw.storedSize ++
    appendU32 raw.crc32c ++ appendU32 0

/-- `validate_chunk_header` -/
def validateChunkDescriptor (descriptor : ChunkDescriptor) : Except Error Unit := do
  failIf (descriptor.version = 0) (.wireFormat "chunk version must not be zero")
  failIf (¬ (descriptor.sequenceBegin ≠ 0 ↔ descriptor.sequenceEnd ≠ 0))
    (.wireFormat "chunk sequence range must contain both endpoints or neither")
  failIf (descriptor.sequenceBegin ≠ 0 ∧ descriptor.sequenceEnd < descriptor.sequenceBegin)
    (.wireFormat "chunk sequence range is reversed")

def ChunkHeader.raw (header : ChunkHeader) : RawChunkHeader where
  type := ChunkType.coding.code header.descriptor.type
  version := header.descriptor.version
  flags := header.descriptor.flags
  codec := CompressionCodec.coding.code header.descriptor.codec
  sequenceBegin := header.descriptor.sequenceBegin
  sequenceEnd := header.descriptor.sequenceEnd
  uncompressedSize := header.uncompressedSize
  storedSize := header.storedSize
  crc32c := header.crc32c

def encodeChunkHeader (header : ChunkHeader) : Except Error Bytes := do
  validateChunkDescriptor header.descriptor
  return appendChunkHeader header.raw

def validateSequenceRange (first last : ℕ) : Except Error Unit := do
  failIf (¬ (first ≠ 0 ↔ last ≠ 0)) (.traceRead "chunk sequence range has only one endpoint")
  failIf (first ≠ 0 ∧ last < first) (.traceRead "chunk sequence range is reversed")

def validateChunkSizes (codec : Option CompressionCodec) (uncompressedSize storedSize : ℕ)
    (options : TraceReaderOptions) : Except Error Unit := do
  failIf (options.maxUncompressedChunkSize < uncompressedSize)
    (.traceRead "uncompressed chunk exceeds the configured size limit")
  failIf (options.maxStoredChunkSize < storedSize)
    (.traceRead "stored chunk exceeds the configured size limit")
  match codec with
  | Option.none => return ()
  | some .none =>
      failIf (uncompressedSize ≠ storedSize)
        (.traceRead "uncompressed chunk sizes do not match")
  | some _ => do
      failIf (¬ (uncompressedSize = 0 ↔ storedSize = 0))
        (.traceRead "empty compressed chunks must use an empty stored payload")
      failIf (storedSize ≠ 0 ∧ storedSize ≤ maxU64 / options.maxCompressionRatio ∧
          storedSize * options.maxCompressionRatio < uncompressedSize)
        (.traceRead "compressed chunk exceeds the configured expansion ratio")

def parseChunkHeader (options : TraceReaderOptions) : PayloadReader RawChunkHeader := do
  let type ← readU16
  let version ← readU16
  let headerSize ← readU16
  let flags ← readU16
  let codec ← readU8
  let reserved ← readString 7
  let sequenceBegin ← readU64
  let sequenceEnd ← readU64
  let uncompressedSize ← readU64
  let storedSize ← readU64
  let crc ← readU32
  let reservedTail ← readU32
  check (failIf (headerSize < chunkHeaderSize ∨ options.maxChunkHeaderSize < headerSize)
    (.traceRead "chunk header size is invalid"))
  check (failIf (version = 0) (.traceRead "chunk version must not be zero"))
  check (failIf (reserved ≠ appendZeros 7 ∨ reservedTail ≠ 0)
    (.traceRead "chunk reserved fields must be zero"))
  check (validateSequenceRange sequenceBegin sequenceEnd)
  check (validateChunkSizes (CompressionCodec.coding.find codec) uncompressedSize storedSize
    options)
  return ⟨type, version, headerSize, flags, codec, sequenceBegin, sequenceEnd, uncompressedSize,
    storedSize, crc⟩

/-- A chunk header the reader accepts. -/
structure RawChunkHeader.Accepted (options : TraceReaderOptions) (raw : RawChunkHeader) :
    Prop where
  type : IsWord 2 raw.type
  version : raw.version ≠ 0 ∧ IsWord 2 raw.version
  headerSize : IsWord 2 raw.headerSize
  least : chunkHeaderSize ≤ raw.headerSize
  most : raw.headerSize ≤ options.maxChunkHeaderSize
  flags : IsWord 2 raw.flags
  codec : IsWord 1 raw.codec
  sequences : IsWord 8 raw.sequenceBegin ∧ IsWord 8 raw.sequenceEnd
  range : validateSequenceRange raw.sequenceBegin raw.sequenceEnd = .ok ()
  words : IsWord 8 raw.uncompressedSize ∧ IsWord 8 raw.storedSize
  sizes : validateChunkSizes (CompressionCodec.coding.find raw.codec) raw.uncompressedSize
    raw.storedSize options = .ok ()
  checksum : IsWord 4 raw.crc32c

theorem reads_chunkHeader (options : TraceReaderOptions) :
    Reads (RawChunkHeader.Accepted options) appendChunkHeader (parseChunkHeader options) := by
  apply ReadsTo.reads
  refine ReadsTo.layout (.field reads_u16 RawChunkHeader.type fun _ _ =>
    .field reads_u16 RawChunkHeader.version fun version _ =>
    .field reads_u16 RawChunkHeader.headerSize fun headerSize _ =>
    .field reads_u16 RawChunkHeader.flags fun _ _ =>
    .field reads_u8 RawChunkHeader.codec fun codec _ =>
    .field (reads_string 7) (fun _ => appendZeros 7) fun reserved _ =>
    .field reads_u64 RawChunkHeader.sequenceBegin fun first _ =>
    .field reads_u64 RawChunkHeader.sequenceEnd fun last _ =>
    .field reads_u64 RawChunkHeader.uncompressedSize fun uncompressed _ =>
    .field reads_u64 RawChunkHeader.storedSize fun stored _ =>
    .field reads_u32 RawChunkHeader.crc32c fun _ _ =>
    .field reads_u32 (fun _ => 0) fun tail _ =>
    .test ?size fun hsize => .test ?version fun hversion => .test ?reserved fun hreserved =>
    .look (fun _ => ()) ?range fun _ hrange => .look (fun _ => ()) ?sizes fun _ hsizes =>
    .done (Q := fun raw : RawChunkHeader =>
      (chunkHeaderSize ≤ raw.headerSize ∧ raw.headerSize ≤ options.maxChunkHeaderSize) ∧
        raw.version ≠ 0 ∧ validateSequenceRange raw.sequenceBegin raw.sequenceEnd = .ok () ∧
        validateChunkSizes (CompressionCodec.coding.find raw.codec) raw.uncompressedSize
          raw.storedSize options = .ok ()) ?done) ?_ ?_
  case size =>
    rintro raw hfields ⟨hbounds, -⟩
    simp only [and_assoc] at hfields
    obtain ⟨-, -, -, rfl, -⟩ := hfields
    omega
  case version =>
    rintro raw hfields ⟨-, hversion, -⟩
    simp only [and_assoc] at hfields
    obtain ⟨-, -, rfl, -⟩ := hfields
    exact hversion
  case reserved =>
    intro raw hfields _
    simp only [and_assoc] at hfields
    obtain ⟨-, -, -, -, -, -, rfl, -, -, -, -, -, rfl⟩ := hfields
    simp
  case range =>
    rintro raw hfields ⟨-, -, hrange, -⟩
    simp only [and_assoc] at hfields
    obtain ⟨-, -, -, -, -, -, -, rfl, rfl, -⟩ := hfields
    exact hrange
  case sizes =>
    rintro raw hfields ⟨-, -, -, hsizes⟩
    simp only [and_assoc] at hfields
    obtain ⟨-, -, -, -, -, rfl, -, -, -, rfl, rfl, -⟩ := hfields
    exact hsizes
  case done =>
    obtain ⟨hzeros, htail⟩ := not_or.mp hreserved
    obtain rfl := not_not.mp hzeros
    obtain rfl := not_not.mp htail
    intro raw
    constructor
    · rintro ⟨hfields, -⟩
      simp only [and_assoc] at hfields
      obtain ⟨-, rfl, rfl, rfl, rfl, rfl, -, rfl, rfl, rfl, rfl, rfl, -⟩ := hfields
      rfl
    · rintro rfl
      simp only [and_assoc, true_and]
      exact ⟨by omega, by omega, hversion, hrange, hsizes⟩
  · intro raw
    constructor
    · intro h
      exact ⟨h.type, h.version.2, h.headerSize, h.flags, h.codec, rfl, h.sequences.1,
        h.sequences.2, h.words.1, h.words.2, h.checksum, by decide, ⟨h.least, h.most⟩,
        h.version.1, h.range, h.sizes⟩
    · rintro ⟨htype, hversion, hheader, hflags, hcodec, -, hfirst, hlast, huncompressed, hstored,
        hchecksum, -, ⟨hleast, hmost⟩, hnonzero, hrange, hsizes⟩
      exact ⟨htype, ⟨hnonzero, hversion⟩, hheader, hleast, hmost, hflags, hcodec, ⟨hfirst, hlast⟩,
        hrange, ⟨huncompressed, hstored⟩, hsizes, hchecksum⟩
  · intro raw
    simp only [appendChunkHeader, List.append_assoc, List.append_nil]
    rfl

end Noleax.Trace
