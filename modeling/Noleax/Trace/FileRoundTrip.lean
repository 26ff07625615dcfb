import Noleax.Trace.Chunk
import Noleax.Trace.TraceReader

/-!
# What was written is read (`trace_writer.cpp`, `trace_reader.cpp`)

The bytes `TraceWriter` leaves in a file, and what a reader yields for every prefix of
them. The compressors are not in the repository: of them only that decompression inverts
compression is used, and what their interfaces say of sizes.
-/

namespace Noleax.Trace

open Lib

/-! ## The bytes of the writer -/

/-- `LZ4_compress_default` and `ZSTD_compress` at level 1. -/
structure Compressors where
  lz4 : Bytes → Option Bytes
  zstd : Bytes → Except String Bytes

/-- `LZ4_MAX_INPUT_SIZE` -/
def lz4MaxInputSize : ℕ := 0x7E000000

def compressLz4 (compressors : Compressors) (payload : Bytes) : Except Error Bytes :=
  if payload = [] then .ok []
  else do
    failIf (lz4MaxInputSize < payload.length ∨ 2 ^ 31 - 1 < payload.length)
      (.traceWrite "LZ4 input exceeds its supported size")
    match compressors.lz4 payload with
    | none => .error (.traceWrite "LZ4 compression failed")
    | some stored => do
        failIf (stored = []) (.traceWrite "LZ4 compression failed")
        return stored

def compressZstd (compressors : Compressors) (payload : Bytes) (configuredLevel : ℤ) :
    Except Error Bytes :=
  if payload = [] then .ok []
  else do
    let level := if configuredLevel = 0 then 1 else configuredLevel
    failIf (level ≠ 1) (.traceWrite "V1 trace writer supports Zstd level 1")
    match compressors.zstd payload with
    | .error name => .error (.traceWrite ("Zstd compression failed: " ++ name))
    | .ok stored => .ok stored

def compressPayload (compressors : Compressors) (codec : CompressionCodec) (payload : Bytes)
    (zstdLevel : ℤ) : Except Error Bytes :=
  match codec with
  | .none => .ok payload
  | .lz4 => compressLz4 compressors payload
  | .zstd => compressZstd compressors payload zstdLevel

/-- A `TraceWriter` with the bytes it wrote; its stream takes every write. -/
structure FileWriter where
  file : Bytes
  bytesWritten : ℕ
  reservedTailSize : ℕ
  uncompressedPayloadBytesWritten : ℕ := 0
  storedPayloadBytesWritten : ℕ := 0

/-- The constructor of `TraceWriter`. -/
def FileWriter.create (options : TraceWriterOptions) (header : FileHeader) :
    Except Error FileWriter := do
  options.validate
  let encoded ← encodeFileHeader header
  return {
    file := encoded
    bytesWritten := encoded.length
    reservedTailSize := options.reservedTailSize }

def chunkHeaderOf (descriptor : ChunkDescriptor) (payload stored : Bytes) : ChunkHeader where
  descriptor := descriptor
  uncompressedSize := payload.length
  storedSize := stored.length
  crc32c := crc32c payload

/-- `write_chunk`; `none` is `kFileLimit`. -/
def FileWriter.writeChunk (options : TraceWriterOptions) (compressors : Compressors)
    (writer : FileWriter) (descriptor : ChunkDescriptor) (payload : Bytes) :
    Except Error (Option FileWriter) := do
  failIf (options.maxUncompressedChunkSize < payload.length)
    (.traceWrite "uncompressed chunk exceeds its configured size limit")
  let stored ← compressPayload compressors descriptor.codec payload options.zstdLevel
  failIf (options.maxStoredChunkSize < stored.length)
    (.traceWrite "stored chunk exceeds its configured size limit")
  let encoded ← encodeChunkHeader (chunkHeaderOf descriptor payload stored)
  if ExceedsFileLimit writer.bytesWritten stored.length
      (options.maxFileSize - writer.reservedTailSize) then
    return none
  else
    failIf (maxU64 - writer.uncompressedPayloadBytesWritten < payload.length)
      (.traceWrite "cumulative uncompressed payload size overflow")
    failIf (2 ^ 63 - 1 < stored.length) (.traceWrite "write size exceeds std::streamsize")
    return some { writer with
      file := writer.file ++ encoded ++ stored
      bytesWritten := writer.bytesWritten + (encoded.length + stored.length)
      uncompressedPayloadBytesWritten :=
        writer.uncompressedPayloadBytesWritten + payload.length
      storedPayloadBytesWritten := writer.storedPayloadBytesWritten + stored.length }

/-- `release_file_reserve` -/
def FileWriter.releaseFileReserve (writer : FileWriter) : FileWriter :=
  { writer with reservedTailSize := 0 }

/-- The calls of `write_chunk` that returned `kWritten`; the others leave the writer as it
was. -/
inductive Written (options : TraceWriterOptions) (compressors : Compressors) :
    FileWriter → List (ChunkDescriptor × Bytes) → FileWriter → Prop
  | nil (writer : FileWriter) : Written options compressors writer [] writer
  | cons {writer middle last : FileWriter} {descriptor : ChunkDescriptor} {payload : Bytes}
      {chunks : List (ChunkDescriptor × Bytes)}
      (hwrite : writer.writeChunk options compressors descriptor payload = .ok (some middle))
      (hrest : Written options compressors middle chunks last) :
      Written options compressors writer ((descriptor, payload) :: chunks) last
  | release {writer last : FileWriter} {chunks : List (ChunkDescriptor × Bytes)}
      (hrest : Written options compressors writer.releaseFileReserve chunks last) :
      Written options compressors writer chunks last

/-- What the compression libraries promise. -/
structure Compressors.InvertedBy (compressors : Compressors) (decompressors : Decompressors) :
    Prop where
  lz4 : ∀ payload stored, compressors.lz4 payload = some stored →
    decompressors.lz4 stored payload.length = some payload
  /-- the size is returned as an `int` -/
  lz4_size : ∀ payload stored, compressors.lz4 payload = some stored →
    stored.length ≤ 2 ^ 31 - 1
  zstd : ∀ payload stored, compressors.zstd payload = .ok stored →
    decompressors.zstd stored payload.length = .ok payload
  /-- a frame has a header -/
  zstd_frame : ∀ payload stored, compressors.zstd payload = .ok stored → stored ≠ []

/-! ## What the reader yields -/

section Yields

variable (options : TraceReaderOptions) (decompressors : Decompressors)

/-- The results of `read_next_chunk`, called until it says that the file ends. -/
inductive Yields : TraceReader → List TraceChunk → ChunkReadStatus → Prop
  | ended {reader after : TraceReader} {status : ChunkReadStatus}
      (hread : readNextChunk options decompressors reader = .ok (.ended status) after) :
      Yields reader [] status
  | chunk {reader after : TraceReader} {chunk : TraceChunk} {chunks : List TraceChunk}
      {status : ChunkReadStatus}
      (hread : readNextChunk options decompressors reader = .ok (.chunk chunk) after)
      (hrest : Yields after chunks status) : Yields reader (chunk :: chunks) status

end Yields

/-! ## One chunk in the file -/

/-- What the fields of a descriptor can hold. -/
def ChunkDescriptor.InRange (descriptor : ChunkDescriptor) : Prop :=
  IsWord 2 descriptor.version ∧ IsWord 2 descriptor.flags ∧
    IsWord 8 descriptor.sequenceBegin ∧ IsWord 8 descriptor.sequenceEnd

/-- A chunk the writer wrote, with the bytes it stored for the payload. -/
structure StoredChunk where
  descriptor : ChunkDescriptor
  payload : Bytes
  stored : Bytes

namespace StoredChunk

variable (chunk : StoredChunk)

def header : ChunkHeader := chunkHeaderOf chunk.descriptor chunk.payload chunk.stored

def bytes : Bytes := appendChunkHeader chunk.header.raw ++ chunk.stored

def traceChunk : TraceChunk := ⟨chunk.header, chunk.payload⟩

/-- The limits of the reader leave room for the chunk. -/
structure AdmittedBy (options : TraceReaderOptions) : Prop where
  uncompressed : chunk.payload.length ≤ options.maxUncompressedChunkSize
  stored : chunk.stored.length ≤ options.maxStoredChunkSize
  /-- a ratio that overflows with the stored size is no limit -/
  expansion : chunk.descriptor.codec ≠ .none →
    chunk.stored.length ≤ maxU64 / options.maxCompressionRatio →
    chunk.payload.length ≤ chunk.stored.length * options.maxCompressionRatio

/-- The reader makes the chunk of its bytes. -/
structure Readable (options : TraceReaderOptions) (decompressors : Decompressors) : Prop where
  header : chunk.header.raw.Accepted options
  decode : decodeChunk decompressors chunk.header.raw chunk.descriptor.type chunk.descriptor.codec
    chunk.stored = .ok chunk.traceChunk
  streamsize : chunk.stored.length ≤ 2 ^ 63 - 1

end StoredChunk

theorem appendChunkHeader_length (raw : RawChunkHeader) :
    (appendChunkHeader raw).length = chunkHeaderSize := by
  simp [appendChunkHeader, appendU8, appendU16, appendU32, appendU64, appendZeros, chunkHeaderSize]

theorem StoredChunk.bytes_length (chunk : StoredChunk) :
    chunk.bytes.length = chunkHeaderSize + chunk.stored.length := by
  unfold bytes
  rw [List.length_append, appendChunkHeader_length]

/-- A chunk of the writer, as its options and its compressors made it. -/
structure StoredChunk.MadeBy (options : TraceWriterOptions) (compressors : Compressors)
    (chunk : StoredChunk) : Prop where
  compressed : compressPayload compressors chunk.descriptor.codec chunk.payload
    options.zstdLevel = .ok chunk.stored
  descriptor : validateChunkDescriptor chunk.descriptor = .ok ()
  payload : chunk.payload.length ≤ maxU64
  streamsize : chunk.stored.length ≤ 2 ^ 63 - 1

/-- The file is counted, and within its limit. -/
def FileWriter.Counted (options : TraceWriterOptions) (writer : FileWriter) : Prop :=
  writer.bytesWritten = writer.file.length ∧ writer.bytesWritten ≤ options.maxFileSize

section Writer

variable {options : TraceWriterOptions} {compressors : Compressors} {writer after : FileWriter}
  {descriptor : ChunkDescriptor} {payload : Bytes}

theorem writeChunk_written
    (h : writer.writeChunk options compressors descriptor payload = .ok (some after))
    (hcounted : writer.Counted options) :
    ∃ stored, StoredChunk.MadeBy options compressors ⟨descriptor, payload, stored⟩ ∧
      after.file = writer.file ++ StoredChunk.bytes ⟨descriptor, payload, stored⟩ ∧
      after.Counted options := by
  unfold FileWriter.writeChunk at h
  obtain ⟨-, h⟩ := failIf_bind_eq_ok.mp h
  obtain ⟨stored, hcompressed, h⟩ := bind_eq_ok.mp h
  obtain ⟨-, h⟩ := failIf_bind_eq_ok.mp h
  obtain ⟨encoded, hencoded, h⟩ := bind_eq_ok.mp h
  obtain ⟨⟨⟩, hdescriptor, hencoded⟩ := bind_eq_ok.mp hencoded
  cases hencoded
  split at h
  · cases h
  · rename_i hroom
    obtain ⟨hpayload, h⟩ := failIf_bind_eq_ok.mp h
    obtain ⟨hstream, h⟩ := failIf_bind_eq_ok.mp h
    cases h
    refine ⟨stored, ⟨hcompressed, hdescriptor, by dsimp only; omega, by dsimp only; omega⟩,
      List.append_assoc .., ?_, ?_⟩
    · have hlength := hcounted.1
      simp only [List.length_append]
      omega
    · rw [appendChunkHeader_length]
      dsimp only
      omega

/-- All that was written is chunks. -/
theorem Written.file {chunks : List (ChunkDescriptor × Bytes)}
    (h : Written options compressors writer chunks after) (hcounted : writer.Counted options) :
    ∃ stored : List StoredChunk, stored.map (fun chunk => (chunk.descriptor, chunk.payload)) =
        chunks ∧ (∀ chunk ∈ stored, chunk.MadeBy options compressors) ∧
      after.file = writer.file ++ stored.flatMap StoredChunk.bytes ∧ after.Counted options := by
  induction h with
  | nil writer => exact ⟨[], rfl, by simp, by simp, hcounted⟩
  | cons hwrite hrest ih =>
      obtain ⟨bytes, hmade, hfile, hcounted⟩ := writeChunk_written hwrite hcounted
      obtain ⟨stored, rfl, hall, hfile', hcounted'⟩ := ih hcounted
      refine ⟨⟨_, _, bytes⟩ :: stored, rfl, ?_, ?_, hcounted'⟩
      · intro chunk hchunk
        rcases List.mem_cons.mp hchunk with rfl | hchunk
        · exact hmade
        · exact hall chunk hchunk
      · rw [hfile', hfile, List.flatMap_cons, List.append_assoc]
  | release hrest ih => exact ih hcounted

end Writer

/-! ## Decompression inverts compression -/

section Inverse

variable {compressors : Compressors} {decompressors : Decompressors}

theorem decompressPayload_compressed (h : compressors.InvertedBy decompressors)
    {codec : CompressionCodec} {payload stored : Bytes} {level : ℤ}
    (hcompress : compressPayload compressors codec payload level = .ok stored) :
    decompressPayload decompressors codec stored payload.length = .ok payload := by
  cases codec with
  | none =>
      cases hcompress
      rfl
  | lz4 =>
      change compressLz4 compressors payload = .ok stored at hcompress
      show decompressLz4 decompressors stored payload.length = .ok payload
      unfold compressLz4 at hcompress
      unfold decompressLz4
      by_cases hempty : payload = []
      · rw [if_pos hempty] at hcompress
        cases hcompress
        rw [if_pos rfl, hempty]
      · rw [if_neg hempty] at hcompress
        obtain ⟨hsize, hcompress⟩ := failIf_bind_eq_ok.mp hcompress
        split at hcompress
        · cases hcompress
        · rename_i output houtput
          obtain ⟨hnonempty, hcompress⟩ := failIf_bind_eq_ok.mp hcompress
          cases hcompress
          have hstored := h.lz4_size payload stored houtput
          rw [if_neg hnonempty, failIf_of_not (by omega), ok_bind, h.lz4 payload stored houtput]
          simp
  | zstd =>
      change compressZstd compressors payload level = .ok stored at hcompress
      show decompressZstd decompressors stored payload.length = .ok payload
      unfold compressZstd at hcompress
      unfold decompressZstd
      by_cases hempty : payload = []
      · rw [if_pos hempty] at hcompress
        cases hcompress
        rw [if_pos rfl, hempty]
      · rw [if_neg hempty] at hcompress
        obtain ⟨-, hcompress⟩ := failIf_bind_eq_ok.mp hcompress
        split at hcompress
        · cases hcompress
        · rename_i output houtput
          cases hcompress
          rw [if_neg (h.zstd_frame payload stored houtput), h.zstd payload stored houtput]
          simp

theorem StoredChunk.MadeBy.empty_iff {options : TraceWriterOptions} {chunk : StoredChunk}
    (hmade : chunk.MadeBy options compressors) (h : compressors.InvertedBy decompressors) :
    chunk.payload.length = 0 ↔ chunk.stored.length = 0 := by
  obtain ⟨descriptor, payload, stored⟩ := chunk
  have hcompress := hmade.compressed
  show payload.length = 0 ↔ stored.length = 0
  rw [List.length_eq_zero_iff, List.length_eq_zero_iff]
  unfold compressPayload at hcompress
  split at hcompress
  · cases hcompress
    exact Iff.rfl
  · unfold compressLz4 at hcompress
    by_cases hempty : payload = []
    · rw [if_pos hempty] at hcompress
      cases hcompress
      simp [hempty]
    · rw [if_neg hempty] at hcompress
      obtain ⟨-, hcompress⟩ := failIf_bind_eq_ok.mp hcompress
      split at hcompress
      · cases hcompress
      · obtain ⟨hnonempty, hcompress⟩ := failIf_bind_eq_ok.mp hcompress
        cases hcompress
        exact iff_of_false hempty hnonempty
  · unfold compressZstd at hcompress
    by_cases hempty : payload = []
    · rw [if_pos hempty] at hcompress
      cases hcompress
      simp [hempty]
    · rw [if_neg hempty] at hcompress
      obtain ⟨-, hcompress⟩ := failIf_bind_eq_ok.mp hcompress
      split at hcompress
      · cases hcompress
      · rename_i houtput
        cases hcompress
        exact iff_of_false hempty (h.zstd_frame _ _ houtput)

/-- The reader's checks of the sizes are its limits. -/
theorem StoredChunk.MadeBy.sizes {options : TraceWriterOptions}
    {readerOptions : TraceReaderOptions} {chunk : StoredChunk}
    (hmade : chunk.MadeBy options compressors) (h : compressors.InvertedBy decompressors)
    (hadmitted : chunk.AdmittedBy readerOptions) :
    validateChunkSizes (some chunk.descriptor.codec) chunk.payload.length chunk.stored.length
      readerOptions = .ok () := by
  have hempty := hmade.empty_iff h
  have hcompress := hmade.compressed
  have hexpansion := hadmitted.expansion
  unfold validateChunkSizes
  rw [failIf_of_not (Nat.not_lt.mpr hadmitted.uncompressed), ok_bind,
    failIf_of_not (Nat.not_lt.mpr hadmitted.stored), ok_bind]
  cases hcodec : chunk.descriptor.codec with
  | none =>
      rw [hcodec] at hcompress
      have hsame : chunk.payload = chunk.stored := Except.ok.inj hcompress
      exact failIf_of_not (not_not.mpr (congrArg List.length hsame))
  | lz4 =>
      refine failIf_bind_eq_ok.mpr ⟨not_not.mpr hempty, failIf_of_not ?_⟩
      rintro ⟨-, hfits, hover⟩
      have := hexpansion (by rw [hcodec]; exact CompressionCodec.noConfusion) hfits
      omega
  | zstd =>
      refine failIf_bind_eq_ok.mpr ⟨not_not.mpr hempty, failIf_of_not ?_⟩
      rintro ⟨-, hfits, hover⟩
      have := hexpansion (by rw [hcodec]; exact CompressionCodec.noConfusion) hfits
      omega

theorem StoredChunk.MadeBy.readable {options : TraceWriterOptions}
    {readerOptions : TraceReaderOptions} {chunk : StoredChunk}
    (hmade : chunk.MadeBy options compressors) (h : compressors.InvertedBy decompressors)
    (hoptions : readerOptions.validate = .ok ()) (hrange : chunk.descriptor.InRange)
    (hadmitted : chunk.AdmittedBy readerOptions) : chunk.Readable readerOptions decompressors where
  header := by
    obtain ⟨hversion, hflags, hbegin, hend⟩ := hrange
    have hdescriptor := hmade.descriptor
    unfold validateChunkDescriptor at hdescriptor
    obtain ⟨hnonzero, hdescriptor⟩ := failIf_bind_eq_ok.mp hdescriptor
    obtain ⟨hboth, hordered⟩ := failIf_bind_eq_ok.mp hdescriptor
    have hheader := (TraceReaderOptions.validate_eq_ok.mp hoptions).2.1
    have hpayload := hmade.payload
    have hstored := hmade.streamsize
    have hfind : CompressionCodec.coding.find chunk.header.raw.codec =
        some chunk.descriptor.codec := CompressionCodec.coding.find_eq_some.mpr rfl
    exact {
      type := Nat.lt_trans (ChunkType.coding.byte chunk.descriptor.type) (by decide)
      version := ⟨hnonzero, hversion⟩
      headerSize := (by decide : IsWord 2 chunkHeaderSize)
      least := le_refl _
      most := hheader
      flags := hflags
      codec := CompressionCodec.coding.byte chunk.descriptor.codec
      sequences := ⟨hbegin, hend⟩
      range := failIf_bind_eq_ok.mpr ⟨hboth, failIf_eq_ok.mpr (failIf_eq_ok.mp hordered)⟩
      words := ⟨Nat.lt_of_le_of_lt hpayload (by decide), Nat.lt_of_le_of_lt hstored (by decide)⟩
      sizes := by rw [hfind]; exact hmade.sizes h hadmitted
      checksum := crc32c_isWord chunk.payload }
  decode := by
    show (do
      let payload ← decompressPayload decompressors chunk.descriptor.codec chunk.stored
        chunk.payload.length
      _) = _
    rw [decompressPayload_compressed h hmade.compressed, ok_bind]
    exact failIf_bind_eq_ok.mpr ⟨not_not.mpr rfl, rfl⟩
  streamsize := hmade.streamsize

end Inverse

/-! ## Reading one chunk -/

section ReadChunk

variable {options : TraceReaderOptions} {decompressors : Decompressors} {reader : TraceReader}

/-- A whole header is parsed, and what follows is its body. -/
theorem readChunk_of_header {raw : RawChunkHeader} (hraw : raw.Accepted options) {tail : Bytes}
    (hinput : reader.input = appendChunkHeader raw ++ tail)
    (hcount : reader.bytesRead + chunkHeaderSize ≤ maxU64) :
    readChunk options decompressors reader = readBody decompressors raw
      { reader with input := tail, bytesRead := reader.bytesRead + chunkHeaderSize } := by
  have hlength := appendChunkHeader_length raw
  have hread := readExact_complete (by rw [hinput, List.length_append]; omega) (by decide) hcount
  have htake : reader.input.take chunkHeaderSize = appendChunkHeader raw := by
    rw [hinput, ← hlength, List.take_left]
  have hdrop : reader.input.drop chunkHeaderSize = tail := by
    rw [hinput, ← hlength, List.drop_left]
  have hparse : runReader (parseChunkHeader options) (appendChunkHeader raw) = .ok raw :=
    runReader_eq_ok.mpr ⟨[], (reads_chunkHeader options _ _ _).mpr ⟨hraw, by simp⟩⟩
  unfold readChunk
  rw [run_bind, hread, htake, hdrop]
  dsimp only
  rw [hparse]
  rfl

/-- The body of a chunk that this version knows. -/
theorem readBody_known {chunk : StoredChunk} {r : TraceReader} :
    readBody decompressors chunk.header.raw r =
      readStored decompressors chunk.header.raw chunk.descriptor.type chunk.descriptor.codec r := by
  have htype : ChunkType.coding.find chunk.header.raw.type = some chunk.descriptor.type :=
    ChunkType.coding.find_eq_some.mpr rfl
  have hcodec : CompressionCodec.coding.find chunk.header.raw.codec =
      some chunk.descriptor.codec := CompressionCodec.coding.find_eq_some.mpr rfl
  have hextension : skipExtension (chunk.header.raw.headerSize - chunkHeaderSize) r =
      .ok true r := rfl
  unfold readBody
  rw [run_bind, hextension, htype, hcodec]
  rfl

theorem noteVersion_run (known version : ℕ) (r : TraceReader) :
    noteVersion known version r = .ok () { r with
      partiallyUnderstood := r.partiallyUnderstood || decide (known < version) } := by
  unfold noteVersion
  by_cases h : known < version
  · rw [if_pos h]
    simp [h, markPartiallyUnderstood]
  · rw [if_neg h]
    simp [h]

/-- The reader after a chunk of which `rest` is left. -/
def TraceReader.after (reader : TraceReader) (chunk : StoredChunk) (rest : Bytes) : TraceReader :=
  { reader with
    input := rest
    bytesRead := reader.bytesRead + chunk.bytes.length
    partiallyUnderstood := reader.partiallyUnderstood || decide (1 < chunk.descriptor.version) }

theorem readChunk_readable {chunk : StoredChunk} (h : chunk.Readable options decompressors)
    {rest : Bytes} (hinput : reader.input = chunk.bytes ++ rest)
    (hcount : reader.bytesRead + chunk.bytes.length ≤ maxU64) :
    readChunk options decompressors reader =
      .ok (some (.chunk chunk.traceChunk)) (reader.after chunk rest) := by
  have hlength := chunk.bytes_length
  have hstored := h.streamsize
  unfold StoredChunk.bytes at hinput
  rw [List.append_assoc] at hinput
  rw [readChunk_of_header h.header hinput (by omega), readBody_known]
  refine run_bind_eq_ok.mpr ⟨(), _, noteVersion_run _ _ _, run_bind_eq_ok.mpr ⟨(), _,
    run_check_eq_ok.mpr ⟨failIf_of_not (Nat.not_lt.mpr hstored), rfl⟩, ?_⟩⟩
  refine run_bind_eq_ok.mpr ⟨_, _, readExact_complete (by simp [StoredChunk.header,
    chunkHeaderOf, ChunkHeader.raw]) hstored ?_, ?_⟩
  · change reader.bytesRead + chunkHeaderSize + chunk.stored.length ≤ maxU64
    omega
  · have htake : (chunk.stored ++ rest).take chunk.stored.length = chunk.stored :=
      List.take_left
    have hdrop : (chunk.stored ++ rest).drop chunk.stored.length = rest := List.drop_left
    refine run_bind_eq_ok.mpr ⟨chunk.traceChunk, _, run_check_eq_ok.mpr ⟨?_, rfl⟩, ?_⟩
    · change decodeChunk _ _ _ _ ((chunk.stored ++ rest).take chunk.stored.length) = _
      rw [htake]
      exact h.decode
    · change EStateM.Result.ok _ _ = EStateM.Result.ok _ _
      congr 1
      unfold TraceReader.after
      rw [hlength, ← Nat.add_assoc]
      rw [← hdrop]
      simp [StoredChunk.header, chunkHeaderOf, ChunkHeader.raw]
      rfl

/-- A part of a chunk. -/
theorem readChunk_cut {chunk : StoredChunk} (h : chunk.Readable options decompressors)
    {count : ℕ} (hinput : reader.input = chunk.bytes.take count) (hpos : count ≠ 0)
    (hcut : count < chunk.bytes.length)
    (hcount : reader.bytesRead + chunk.bytes.length ≤ maxU64) :
    ∃ after, readChunk options decompressors reader = .ok (some (.ended .truncated)) after := by
  have hlength := chunk.bytes_length
  have hheader := appendChunkHeader_length chunk.header.raw
  have hstored := h.streamsize
  have hinputLength : reader.input.length = count := by
    rw [hinput, List.length_take_of_le (by omega)]
  by_cases hpart : count < chunkHeaderSize
  · -- the header is cut
    have hread : readExact chunkHeaderSize reader = _ :=
      readExact_short (by omega) (by decide) (by omega)
    have hnonempty : reader.input ≠ [] := by
      intro hempty
      rw [hempty] at hinputLength
      exact hpos hinputLength.symm
    rw [if_neg hnonempty] at hread
    unfold readChunk
    rw [run_bind, hread]
    exact ⟨_, rfl⟩
  · -- the stored bytes are cut
    have htail : reader.input = appendChunkHeader chunk.header.raw ++
        chunk.stored.take (count - chunkHeaderSize) := by
      rw [hinput]
      unfold StoredChunk.bytes
      rw [List.take_append, hheader, List.take_of_length_le (by omega)]
    have htailLength : (chunk.stored.take (count - chunkHeaderSize)).length =
        count - chunkHeaderSize := List.length_take_of_le (by omega)
    rw [readChunk_of_header h.header htail (by omega), readBody_known]
    refine ⟨{ reader with
        input := []
        bytesRead := reader.bytesRead + chunkHeaderSize +
          (chunk.stored.take (count - chunkHeaderSize)).length
        partiallyUnderstood :=
          reader.partiallyUnderstood || decide (1 < chunk.descriptor.version)
        terminalStatus := some .truncated },
      run_bind_eq_ok.mpr ⟨(), _, noteVersion_run _ _ _, run_bind_eq_ok.mpr ⟨(), _,
        run_check_eq_ok.mpr ⟨failIf_of_not (Nat.not_lt.mpr hstored), rfl⟩,
        run_bind_eq_ok.mpr ⟨_, _, readExact_short ?_ hstored ?_, ?_⟩⟩⟩⟩
    · change (chunk.stored.take (count - chunkHeaderSize)).length < chunk.stored.length
      omega
    · change reader.bytesRead + chunkHeaderSize +
        (chunk.stored.take (count - chunkHeaderSize)).length ≤ maxU64
      omega
    · by_cases hempty : chunk.stored.take (count - chunkHeaderSize) = []
      · rw [if_pos hempty]
        rfl
      · rw [if_neg hempty]
        rfl

theorem readChunk_end (hinput : reader.input = []) (hcount : reader.bytesRead ≤ maxU64) :
    ∃ after, readChunk options decompressors reader = .ok (some (.ended .endOfFile)) after := by
  have hread : readExact chunkHeaderSize reader = _ :=
    readExact_short (by rw [hinput]; decide) (by decide) (by rw [hinput]; exact hcount)
  rw [if_pos hinput] at hread
  unfold readChunk
  rw [run_bind, hread]
  exact ⟨_, rfl⟩

/-- A round that has a result ends the call. -/
theorem readNextChunk_of_round (hopen : reader.terminalStatus = none) {result : ChunkReadResult}
    {after : TraceReader}
    (h : readChunk options decompressors reader = .ok (some result) after) :
    readNextChunk options decompressors reader = .ok result after := by
  rw [readNextChunk_of_open _ _ hopen]
  exact loopBy_some h

/-! ## Reading a prefix of the chunks -/

/-- The bytes of the first chunks. -/
def chunkOffset (chunks : List StoredChunk) (count : ℕ) : ℕ :=
  ((chunks.take count).flatMap StoredChunk.bytes).length

theorem chunkOffset_succ (chunk : StoredChunk) (chunks : List StoredChunk) (count : ℕ) :
    chunkOffset (chunk :: chunks) (count + 1) = chunk.bytes.length + chunkOffset chunks count := by
  simp [chunkOffset]

/-- The reader yields the chunks that are there as a whole. -/
theorem yields_prefix (chunks : List StoredChunk)
    (hchunks : ∀ chunk ∈ chunks, chunk.Readable options decompressors) {size : ℕ}
    (hsize : size ≤ chunkOffset chunks chunks.length) (hopen : reader.terminalStatus = none)
    (hinput : reader.input = (chunks.flatMap StoredChunk.bytes).take size)
    (hcount : reader.bytesRead + chunkOffset chunks chunks.length ≤ maxU64) :
    ∃ count ≤ chunks.length, chunkOffset chunks count ≤ size ∧
      (count < chunks.length → size < chunkOffset chunks (count + 1)) ∧
      Yields options decompressors reader ((chunks.take count).map StoredChunk.traceChunk)
        (if size = chunkOffset chunks count then .endOfFile else .truncated) := by
  induction chunks generalizing reader size with
  | nil =>
      obtain rfl : size = 0 := Nat.le_zero.mp hsize
      have hend : ∃ after, readChunk options decompressors reader =
          .ok (some (.ended .endOfFile)) after := readChunk_end hinput (by omega)
      obtain ⟨after, hread⟩ := hend
      exact ⟨0, le_refl _, le_refl _, fun h => absurd h (Nat.lt_irrefl _),
        .ended (readNextChunk_of_round hopen hread)⟩
  | cons chunk chunks ih =>
      have hchunk := hchunks chunk List.mem_cons_self
      rw [List.length_cons, chunkOffset_succ] at hsize hcount
      rw [List.flatMap_cons] at hinput
      by_cases hwhole : chunk.bytes.length ≤ size
      · -- the first chunk is whole
        rw [List.take_append, List.take_of_length_le hwhole] at hinput
        generalize hrest : (chunks.flatMap StoredChunk.bytes).take (size - chunk.bytes.length) =
          rest at hinput
        have hread := readChunk_readable hchunk hinput (by omega)
        have hsize' : size - chunk.bytes.length ≤ chunkOffset chunks chunks.length := by omega
        have hopen' : (reader.after chunk rest).terminalStatus = none := hopen
        have hinput' : (reader.after chunk rest).input =
            (chunks.flatMap StoredChunk.bytes).take (size - chunk.bytes.length) := hrest.symm
        have hcount' : (reader.after chunk rest).bytesRead +
            chunkOffset chunks chunks.length ≤ maxU64 := by
          show reader.bytesRead + chunk.bytes.length + chunkOffset chunks chunks.length ≤ maxU64
          omega
        obtain ⟨count, hlength, hleast, hmost, hyields⟩ :=
          ih (fun c hc => hchunks c (List.mem_cons_of_mem _ hc)) hsize' hopen' hinput' hcount'
        refine ⟨count + 1, Nat.succ_le_succ hlength, ?_, ?_, ?_⟩
        · rw [chunkOffset_succ]
          omega
        · intro hlt
          have := hmost (Nat.lt_of_succ_lt_succ hlt)
          rw [chunkOffset_succ]
          omega
        · have hstatus : (size = chunkOffset (chunk :: chunks) (count + 1)) ↔
              size - chunk.bytes.length = chunkOffset chunks count := by
            rw [chunkOffset_succ]
            omega
          simp only [hstatus]
          exact .chunk (readNextChunk_of_round hopen hread) hyields
      · -- the first chunk is cut, or there is nothing
        have hcut : chunk.bytes.length > size := Nat.lt_of_not_le hwhole
        have hnext : size < chunkOffset (chunk :: chunks) (0 + 1) := by
          rw [chunkOffset_succ]
          omega
        refine ⟨0, Nat.zero_le _, Nat.zero_le _, fun _ => hnext, ?_⟩
        rw [List.take_append_of_le_length (by omega)] at hinput
        by_cases hempty : size = 0
        · subst hempty
          have hend : ∃ after, readChunk options decompressors reader =
              .ok (some (.ended .endOfFile)) after := readChunk_end hinput (by omega)
          obtain ⟨after, hread⟩ := hend
          exact .ended (readNextChunk_of_round hopen hread)
        · obtain ⟨after, hread⟩ := readChunk_cut hchunk hinput hempty hcut (by omega)
          have hstatus : size ≠ chunkOffset (chunk :: chunks) 0 := hempty
          rw [if_neg hstatus]
          exact .ended (readNextChunk_of_round hopen hread)

end ReadChunk

/-! ## The whole file -/

theorem appendFileHeader_length {header : FileHeader} (hrange : header.InRange) :
    (appendFileHeader { header := header }).length = fileHeaderSize := by
  have hsession := hrange.2.1
  simp [appendFileHeader, traceMagic, appendU8, appendU16, appendU32, appendU64, appendI64,
    fileHeaderSize, hsession]

theorem openTrace_encoded {options : TraceReaderOptions} (hoptions : options.validate = .ok ())
    {header : FileHeader} (hrange : header.InRange) (hvalid : validateFileHeader header = .ok ())
    (tail : Bytes) :
    openTrace options (appendFileHeader { header := header } ++ tail) =
      .ok (header, { input := tail, bytesRead := fileHeaderSize }) := by
  have hlength := appendFileHeader_length hrange
  have hread := readExact_complete (r := { input := appendFileHeader { header := header } ++ tail })
    (by rw [List.length_append]; omega) (by decide : fileHeaderSize ≤ _)
    (by decide : 0 + fileHeaderSize ≤ maxU64)
  have hraw : RawFileHeader.Accepted options { header := header } := {
    range := hrange
    minor := (by decide : IsWord 2 traceFormatMinor)
    word := (by decide : IsWord 2 fileHeaderSize)
    least := le_refl _
    most := (TraceReaderOptions.validate_eq_ok.mp hoptions).1
    valid := hvalid }
  have hparse : runReader (parseFileHeader options) (appendFileHeader { header := header }) =
      .ok { header := header } :=
    runReader_eq_ok.mpr ⟨[], (reads_fileHeader options _ _ _).mpr ⟨hraw, by simp⟩⟩
  have htake : (appendFileHeader { header := header } ++ tail).take fileHeaderSize =
      appendFileHeader { header := header } := List.take_left' hlength
  have hdrop : (appendFileHeader { header := header } ++ tail).drop fileHeaderSize = tail :=
    List.drop_left' hlength
  have hheader : readFileHeader options
      { input := appendFileHeader { header := header } ++ tail } =
      .ok header { input := tail, bytesRead := fileHeaderSize } := by
    unfold readFileHeader
    rw [run_bind, hread, htake, hdrop]
    dsimp only
    rw [hparse]
    rfl
  unfold openTrace
  rw [hoptions, ok_bind, hheader]

theorem chunkOffset_mono (chunks : List StoredChunk) {first last : ℕ} (h : first ≤ last) :
    chunkOffset chunks first ≤ chunkOffset chunks last := by
  unfold chunkOffset
  rw [← Nat.min_eq_left h, ← List.take_take]
  exact ((List.take_prefix first (chunks.take last)).flatMap StoredChunk.bytes).length_le

/-- What the reader's limits ask of a call of `write_chunk`. -/
def AdmitsCall (readerOptions : TraceReaderOptions) (options : TraceWriterOptions)
    (compressors : Compressors) (call : ChunkDescriptor × Bytes) : Prop :=
  ∀ stored, compressPayload compressors call.1.codec call.2 options.zstdLevel = .ok stored →
    StoredChunk.AdmittedBy ⟨call.1, call.2, stored⟩ readerOptions

theorem chunkOffset_length (chunks : List StoredChunk) :
    chunkOffset chunks chunks.length = (chunks.flatMap StoredChunk.bytes).length := by
  unfold chunkOffset
  rw [List.take_length]

/-- Every prefix of a file that holds the file header is read to the last whole chunk: what
`write_chunk` took comes back, and the end says whether a chunk was cut. -/
theorem file_roundTrip {compressors : Compressors} {decompressors : Decompressors}
    (hinverse : compressors.InvertedBy decompressors)
    {options : TraceWriterOptions} (hlimit : options.maxFileSize ≤ maxU64)
    {readerOptions : TraceReaderOptions} (hoptions : readerOptions.validate = .ok ())
    {header : FileHeader} (hheader : header.InRange) {created last : FileWriter}
    (hcreate : FileWriter.create options header = .ok created)
    {chunks : List (ChunkDescriptor × Bytes)}
    (hwritten : Written options compressors created chunks last)
    (hranges : ∀ chunk ∈ chunks, chunk.1.InRange)
    (hadmitted : ∀ chunk ∈ chunks, AdmitsCall readerOptions options compressors chunk) :
    ∃ stored : List StoredChunk,
      stored.map (fun chunk => (chunk.descriptor, chunk.payload)) = chunks ∧
      last.file = created.file ++ stored.flatMap StoredChunk.bytes ∧
      created.file.length = fileHeaderSize ∧
      (∃ reader, openTrace readerOptions last.file = .ok (header, reader) ∧
        Yields readerOptions decompressors reader (stored.map StoredChunk.traceChunk)
          .endOfFile) ∧
      ∀ size, fileHeaderSize ≤ size → size ≤ last.file.length →
        ∃ reader, ∃ count ≤ chunks.length,
          openTrace readerOptions (last.file.take size) = .ok (header, reader) ∧
          fileHeaderSize + chunkOffset stored count ≤ size ∧
          (count < chunks.length → size < fileHeaderSize + chunkOffset stored (count + 1)) ∧
          Yields readerOptions decompressors reader
            ((stored.take count).map StoredChunk.traceChunk)
            (if size = fileHeaderSize + chunkOffset stored count then .endOfFile
              else .truncated) := by
  unfold FileWriter.create at hcreate
  obtain ⟨⟨⟩, hvalidate, hcreate⟩ := bind_eq_ok.mp hcreate
  obtain ⟨encoded, hencode, hcreate⟩ := bind_eq_ok.mp hcreate
  obtain ⟨⟨⟩, hvalid, hencode⟩ := bind_eq_ok.mp hencode
  cases hencode
  cases hcreate
  have hlength := appendFileHeader_length hheader
  have hfits := (TraceWriterOptions.validate_eq_ok.mp hvalidate).1
  obtain ⟨stored, hchunks, hall, hfile, hcounted, hbound⟩ :=
    hwritten.file ⟨rfl, by dsimp only; omega⟩
  have hcalls : ∀ chunk ∈ stored, (chunk.descriptor, chunk.payload) ∈ chunks := by
    intro chunk hchunk
    rw [← hchunks]
    exact List.mem_map_of_mem hchunk
  have hreadable : ∀ chunk ∈ stored, chunk.Readable readerOptions decompressors := by
    intro chunk hchunk
    have hcall := hcalls chunk hchunk
    exact (hall chunk hchunk).readable hinverse hoptions (hranges _ hcall)
      (hadmitted _ hcall chunk.stored (hall chunk hchunk).compressed)
  have hcount : stored.length = chunks.length := by
    rw [← hchunks, List.length_map]
  have htotal : last.file.length = fileHeaderSize + chunkOffset stored stored.length := by
    rw [hfile, List.length_append, chunkOffset_length, hlength]
  have hprefix : ∀ size, fileHeaderSize ≤ size → size ≤ last.file.length →
      ∃ reader, ∃ count ≤ chunks.length,
        openTrace readerOptions (last.file.take size) = .ok (header, reader) ∧
        fileHeaderSize + chunkOffset stored count ≤ size ∧
        (count < chunks.length → size < fileHeaderSize + chunkOffset stored (count + 1)) ∧
        Yields readerOptions decompressors reader
          ((stored.take count).map StoredChunk.traceChunk)
          (if size = fileHeaderSize + chunkOffset stored count then .endOfFile
            else .truncated) := by
    intro size hleast hmost
    have htake : last.file.take size = appendFileHeader { header := header } ++
        (stored.flatMap StoredChunk.bytes).take (size - fileHeaderSize) := by
      rw [hfile, List.take_append, hlength, List.take_of_length_le (by rw [hlength]; exact hleast)]
    have hopen := openTrace_encoded hoptions hheader hvalid
      ((stored.flatMap StoredChunk.bytes).take (size - fileHeaderSize))
    rw [← htake] at hopen
    generalize hreader : TraceReader.mk ((stored.flatMap StoredChunk.bytes).take
      (size - fileHeaderSize)) fileHeaderSize false none = reader at hopen
    obtain ⟨count, hcount', hoffset, hnext, hyields⟩ := yields_prefix stored hreadable
      (show size - fileHeaderSize ≤ chunkOffset stored stored.length by omega)
      (show reader.terminalStatus = none by rw [← hreader])
      (show reader.input = _ by rw [← hreader])
      (by rw [← hreader]; dsimp only; omega)
    refine ⟨reader, count, by omega, hopen, by omega, ?_, ?_⟩
    · intro hlt
      have := hnext (by omega)
      omega
    · have hend : size = fileHeaderSize + chunkOffset stored count ↔
          size - fileHeaderSize = chunkOffset stored count := by omega
      simp only [hend]
      exact hyields
  refine ⟨stored, hchunks, hfile, hlength, ?_, hprefix⟩
  obtain ⟨reader, count, hcount', hopen, hoffset, hnext, hyields⟩ :=
    hprefix last.file.length (by omega) (le_refl _)
  rw [List.take_length] at hopen
  refine ⟨reader, hopen, ?_⟩
  -- the chunks that are there are all
  have hwhole : count = stored.length := by
    by_contra hless
    have hlt := hnext (by omega)
    have hmono := chunkOffset_mono stored (show count + 1 ≤ stored.length by omega)
    omega
  subst hwhole
  rw [List.take_length, if_pos htotal] at hyields
  exact hyields

/-! A file of three short payloads: the compressors leave them as literals. -/

/-- A block of literals, a frame with one raw block. -/
def literalCompressors : Compressors where
  lz4 payload :=
    if payload.length ≤ 12 then some (UInt8.ofNat (16 * payload.length) :: payload) else none
  zstd payload :=
    if payload.length < 7 then
      .ok ([0x28, 0xB5, 0x2F, 0xFD, 0x20, UInt8.ofNat payload.length,
        UInt8.ofNat (8 * payload.length + 1), 0, 0] ++ payload)
    else .error "Src size is incorrect"

def literalDecompressors : Decompressors where
  lz4
    | [], _ => none
    | token :: literals, size =>
        if token.toNat = 16 * size ∧ literals.length = size then some literals else none
  zstd stored size :=
    if stored.take 5 = [0x28, 0xB5, 0x2F, 0xFD, 0x20] ∧ (stored.drop 9).length = size then
      .ok (stored.drop 9)
    else .error "Data corruption detected"

theorem literalCompressors_invertedBy : literalCompressors.InvertedBy literalDecompressors where
  lz4 := by
    intro payload stored h
    simp only [literalCompressors, Option.ite_none_right_eq_some, Option.some.injEq] at h
    obtain ⟨hshort, rfl⟩ := h
    simp only [literalDecompressors, UInt8.toNat_ofNat']
    exact if_pos ⟨Nat.mod_eq_of_lt (by omega), trivial⟩
  lz4_size := by
    intro payload stored h
    simp only [literalCompressors, Option.ite_none_right_eq_some, Option.some.injEq] at h
    obtain ⟨hshort, rfl⟩ := h
    rw [List.length_cons]
    omega
  zstd := by
    intro payload stored h
    simp only [literalCompressors] at h
    split at h
    · cases h
      have hdrop : ([0x28, 0xB5, 0x2F, 0xFD, 0x20, UInt8.ofNat payload.length,
          UInt8.ofNat (8 * payload.length + 1), 0, 0] ++ payload).drop 9 = payload := rfl
      show (if _ ∧ _ then _ else _) = _
      rw [hdrop, if_pos ⟨rfl, rfl⟩]
    · cases h
  zstd_frame := by
    intro payload stored h
    simp only [literalCompressors] at h
    split at h
    · cases h
      exact List.cons_ne_nil _ _
    · cases h

def sampleHeader : FileHeader where
  pointerWidth := 8
  platform := .windows
  architecture := .x64
  sessionId := List.replicate 16 7
  monotonicFrequency := 10000000

/-- A chunk of one record, stored as it is. -/
def plainChunk (descriptor : ChunkDescriptor) (record : RecordView) : Bytes :=
  appendChunkHeader (chunkHeaderOf descriptor record.frame record.frame).raw ++ record.frame

def sampleCalls : List (ChunkDescriptor × Bytes) :=
  [({ sequenceBegin := 1, sequenceEnd := 2 }, [1, 2, 3]), ({ codec := .lz4 }, [4, 5]),
    ({ type := .endOfTrace, codec := .zstd }, [6])]

def sampleOptions : TraceWriterOptions where
  maxFileSize := 65536
  maxUncompressedChunkSize := 4096
  maxStoredChunkSize := 4096
  reservedTailSize := 256

set_option maxRecDepth 20000 in
theorem file_roundTrip_sample : ∃ (last : FileWriter) (stored : List StoredChunk)
    (reader : TraceReader),
    stored.map (fun chunk => (chunk.descriptor, chunk.payload)) = sampleCalls ∧
    openTrace {} last.file = .ok (sampleHeader, reader) ∧
    Yields {} literalDecompressors reader (stored.map StoredChunk.traceChunk) .endOfFile := by
  have hwritten : ∃ last, Written sampleOptions literalCompressors
      ⟨appendFileHeader { header := sampleHeader }, 68, 256, 0, 0⟩ sampleCalls last :=
    ⟨_, .cons rfl (.cons rfl (.release (.cons rfl (.nil _))))⟩
  obtain ⟨last, hwritten⟩ := hwritten
  have hheader : sampleHeader.InRange := 
    ⟨by decide, rfl, by decide, by decide, by decide, by unfold IsInt64; decide⟩
  have hranges : ∀ call ∈ sampleCalls, call.1.InRange := by
    intro call hcall
    simp only [sampleCalls, List.mem_cons, List.not_mem_nil, or_false] at hcall
    rcases hcall with rfl | rfl | rfl
    all_goals exact ⟨by decide, by decide, by decide, by decide⟩
  have hadmitted : ∀ call ∈ sampleCalls,
      AdmitsCall {} sampleOptions literalCompressors call := by
    intro call hcall stored hstored
    simp only [sampleCalls, List.mem_cons, List.not_mem_nil, or_false] at hcall
    rcases hcall with rfl | rfl | rfl
    all_goals
      cases hstored
      exact ⟨by decide, by decide, by decide⟩
  obtain ⟨stored, hcalls, -, -, ⟨reader, hopen, hyields⟩, -⟩ :=
    file_roundTrip literalCompressors_invertedBy (by decide) rfl hheader rfl hwritten hranges
      hadmitted
  exact ⟨last, stored, reader, hcalls, hopen, hyields⟩

end Noleax.Trace
