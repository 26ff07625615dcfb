import Noleax.Trace.Completeness
import Noleax.Trace.Module
import Noleax.Trace.Wire

/-!
# Chunks and their writer (`trace/wire_format`, `trace/trace_writer`)

A chunk carries its records, not their bytes: appending a record validates it and
decoding validates it again, and the codec between the two is the identity. What
the file limit depends on are the sizes; `Encoding` gives the ones that depend on
the record's content and on the compressor.
-/

namespace Noleax.Trace

open Lib

/-! ## Chunks -/

inductive MetadataRecord where
  | captureScope (scope : CaptureScope)
  | bufferConfiguration
  | customHookDefinition (apiId : ℕ)
  | customHookFailure
deriving DecidableEq, Repr

/-- A memory sample; the decoder looks at its time only. -/
inductive MemoryRecord where
  | counters (monotonicTicks : ℕ)
  | map (monotonicTicks : ℕ)
  | agent (monotonicTicks : ℕ)
deriving DecidableEq, Repr

def MemoryRecord.monotonicTicks : MemoryRecord → ℕ
  | counters ticks => ticks
  | map ticks => ticks
  | agent ticks => ticks

inductive ChunkPayload where
  | metadata (records : List MetadataRecord)
  | modules (records : List ModuleRecord)
  | stacks (definitions : List StackDefinition)
  | events (records : List EventChunkRecord)
  | memory (records : List MemoryRecord)
  | statistics (statistics : CaptureStatistics)
  | endOfTrace (trace : EndOfTrace)
deriving DecidableEq

structure Chunk where
  payload : ChunkPayload
  sequenceBegin : ℕ := 0
  sequenceEnd : ℕ := 0
deriving DecidableEq

/-- `validate_chunk_header`. -/
def validateChunkHeader (chunk : Chunk) : Except Error Unit := do
  failIf (¬ (chunk.sequenceBegin ≠ 0 ↔ chunk.sequenceEnd ≠ 0))
    (.wireFormat "chunk sequence range must contain both endpoints or neither")
  failIf (chunk.sequenceBegin ≠ 0 ∧ chunk.sequenceEnd < chunk.sequenceBegin)
    (.wireFormat "chunk sequence range is reversed")

/-! ## Sizes -/

def lossRecordSize : ℕ := recordHeaderSize + 48
def endOfTraceRecordSize : ℕ := recordHeaderSize + 40

def statisticsRecordSize (apis : ℕ) : ℕ := recordHeaderSize + 80 + 48 * apis

/-- The sizes that depend on a record's content, and the compressor. -/
structure Encoding where
  metadata : MetadataRecord → ℕ
  module : ModuleRecord → ℕ
  stack : StackDefinition → ℕ
  event : Event → ℕ
  memory : MemoryRecord → ℕ
  compressed : ChunkPayload → ℕ

namespace Encoding

variable (encoding : Encoding)

def eventRecord : EventChunkRecord → ℕ
  | .event e => encoding.event e
  | .loss _ => lossRecordSize

def payloadSize : ChunkPayload → ℕ
  | .metadata records => (records.map encoding.metadata).sum
  | .modules records => (records.map encoding.module).sum
  | .stacks definitions => (definitions.map encoding.stack).sum
  | .events records => (records.map encoding.eventRecord).sum
  | .memory records => (records.map encoding.memory).sum
  | .statistics statistics => statisticsRecordSize statistics.perApi.length
  | .endOfTrace _ => endOfTraceRecordSize

end Encoding

/-! ## `TraceWriter` -/

structure TraceWriterOptions where
  maxFileSize : ℕ
  maxUncompressedChunkSize : ℕ
  maxStoredChunkSize : ℕ
  reservedTailSize : ℕ
  zstdLevel : ℤ := 1

/-- The checks of the constructor. -/
def TraceWriterOptions.validate (options : TraceWriterOptions) : Except Error Unit := do
  failIf (options.maxFileSize < fileHeaderSize)
    (.traceWrite "max file size is smaller than the trace header")
  failIf (options.maxUncompressedChunkSize = 0 ∨ options.maxStoredChunkSize = 0)
    (.traceWrite "chunk size limits must not be zero")
  failIf (options.zstdLevel ≠ 0 ∧ options.zstdLevel ≠ 1)
    (.traceWrite "V1 trace writer supports Zstd level 0 or 1")
  failIf (options.maxFileSize - fileHeaderSize < options.reservedTailSize)
    (.traceWrite "reserved trace tail does not fit after the file header")

theorem TraceWriterOptions.validate_eq_ok {options : TraceWriterOptions} :
    options.validate = .ok () ↔ fileHeaderSize ≤ options.maxFileSize ∧
      (options.maxUncompressedChunkSize ≠ 0 ∧ options.maxStoredChunkSize ≠ 0) ∧
      (options.zstdLevel = 0 ∨ options.zstdLevel = 1) ∧
      options.reservedTailSize ≤ options.maxFileSize - fileHeaderSize := by
  unfold TraceWriterOptions.validate
  simp only [failIf_bind_eq_ok, failIf_eq_ok]
  omega

/-- `storedSizes` are the sizes the chunks have in the file. -/
structure TraceWriter where
  chunks : List Chunk := []
  storedSizes : List ℕ := []
  bytesWritten : ℕ := fileHeaderSize
  reservedTailSize : ℕ
  uncompressedPayloadBytesWritten : ℕ := 0
  storedPayloadBytesWritten : ℕ := 0

abbrev ExceedsFileLimit (bytesWritten storedSize maxFileSize : ℕ) : Prop :=
  maxU64 - chunkHeaderSize < storedSize ∨ maxFileSize < bytesWritten ∨
    maxFileSize - bytesWritten < chunkHeaderSize + storedSize

/-- `write_chunk`; `none` is `kFileLimit`. A chunk is compressed or stored as it is. -/
def TraceWriter.writeChunk (options : TraceWriterOptions) (encoding : Encoding)
    (writer : TraceWriter) (chunk : Chunk) (compress : Bool) :
    Except Error (Option TraceWriter) := do
  let size := encoding.payloadSize chunk.payload
  failIf (options.maxUncompressedChunkSize < size)
    (.traceWrite "uncompressed chunk exceeds its configured size limit")
  let stored := if compress then encoding.compressed chunk.payload else size
  failIf (options.maxStoredChunkSize < stored)
    (.traceWrite "stored chunk exceeds its configured size limit")
  validateChunkHeader chunk
  if ExceedsFileLimit writer.bytesWritten stored (options.maxFileSize - writer.reservedTailSize) then
    return none
  else
    failIf (maxU64 - writer.uncompressedPayloadBytesWritten < size)
      (.traceWrite "cumulative uncompressed payload size overflow")
    return some {
      chunks := writer.chunks ++ [chunk]
      storedSizes := writer.storedSizes ++ [stored]
      bytesWritten := writer.bytesWritten + chunkHeaderSize + stored
      reservedTailSize := writer.reservedTailSize
      uncompressedPayloadBytesWritten := writer.uncompressedPayloadBytesWritten + size
      storedPayloadBytesWritten := writer.storedPayloadBytesWritten + stored }

/-- The size of a chunk in the file. -/
def Encoding.storedSize (encoding : Encoding) (chunk : Chunk) (compress : Bool) : ℕ :=
  if compress then encoding.compressed chunk.payload else encoding.payloadSize chunk.payload

/-- The file with one more chunk. -/
def TraceWriter.withChunk (writer : TraceWriter) (encoding : Encoding) (chunk : Chunk)
    (compress : Bool) : TraceWriter where
  chunks := writer.chunks ++ [chunk]
  storedSizes := writer.storedSizes ++ [encoding.storedSize chunk compress]
  bytesWritten := writer.bytesWritten + chunkHeaderSize + encoding.storedSize chunk compress
  reservedTailSize := writer.reservedTailSize
  uncompressedPayloadBytesWritten :=
    writer.uncompressedPayloadBytesWritten + encoding.payloadSize chunk.payload
  storedPayloadBytesWritten :=
    writer.storedPayloadBytesWritten + encoding.storedSize chunk compress

/-- What the sizes of a written chunk satisfy. -/
structure TraceWriter.Admits (options : TraceWriterOptions) (encoding : Encoding)
    (writer : TraceWriter) (chunk : Chunk) (compress : Bool) : Prop where
  size : encoding.payloadSize chunk.payload ≤ options.maxUncompressedChunkSize
  stored : encoding.storedSize chunk compress ≤ options.maxStoredChunkSize
  header : validateChunkHeader chunk = .ok ()
  room : ¬ ExceedsFileLimit writer.bytesWritten (encoding.storedSize chunk compress)
    (options.maxFileSize - writer.reservedTailSize)
  total : encoding.payloadSize chunk.payload ≤ maxU64 - writer.uncompressedPayloadBytesWritten

theorem TraceWriter.writeChunk_eq_some {options : TraceWriterOptions} {encoding : Encoding}
    {writer file : TraceWriter} {chunk : Chunk} {compress : Bool} :
    writer.writeChunk options encoding chunk compress = .ok (some file) ↔
      writer.Admits options encoding chunk compress ∧
        file = writer.withChunk encoding chunk compress := by
  unfold TraceWriter.writeChunk
  change (do
    failIf (options.maxUncompressedChunkSize < encoding.payloadSize chunk.payload) _
    failIf (options.maxStoredChunkSize < encoding.storedSize chunk compress) _
    validateChunkHeader chunk
    if ExceedsFileLimit writer.bytesWritten (encoding.storedSize chunk compress) _ then _
    else _) = _ ↔ _
  rw [failIf_bind_eq_ok, failIf_bind_eq_ok, bind_eq_ok]
  constructor
  · rintro ⟨hsize, hstored, ⟨⟩, hheader, h⟩
    split at h
    · cases h
    · rename_i hroom
      rw [failIf_bind_eq_ok] at h
      obtain ⟨htotal, h⟩ := h
      cases h
      exact ⟨⟨by omega, by omega, hheader, hroom, by omega⟩, rfl⟩
  · rintro ⟨⟨hsize, hstored, hheader, hroom, htotal⟩, rfl⟩
    refine ⟨by omega, by omega, (), hheader, ?_⟩
    rw [if_neg hroom, failIf_of_not (by omega)]
    rfl

/-- The file met the limit: everything but the room for the chunk was there. -/
theorem TraceWriter.writeChunk_eq_none {options : TraceWriterOptions} {encoding : Encoding}
    {writer : TraceWriter} {chunk : Chunk} {compress : Bool}
    (h : writer.writeChunk options encoding chunk compress = .ok none) :
    ExceedsFileLimit writer.bytesWritten (encoding.storedSize chunk compress)
      (options.maxFileSize - writer.reservedTailSize) := by
  unfold TraceWriter.writeChunk at h
  obtain ⟨-, -, h⟩ := bind_eq_ok.mp h
  obtain ⟨-, -, h⟩ := bind_eq_ok.mp h
  obtain ⟨-, -, h⟩ := bind_eq_ok.mp h
  by_cases hroom : ExceedsFileLimit writer.bytesWritten (encoding.storedSize chunk compress)
      (options.maxFileSize - writer.reservedTailSize)
  · exact hroom
  · have hroom' : ¬ ExceedsFileLimit writer.bytesWritten (if compress then
        encoding.compressed chunk.payload else encoding.payloadSize chunk.payload)
      (options.maxFileSize - writer.reservedTailSize) := hroom
    rw [if_neg hroom', failIf_bind_eq_ok] at h
    cases h.2

/-- The bytes of the file: its header, and each chunk with its own. -/
def TraceWriter.fileLength (writer : TraceWriter) : ℕ :=
  fileHeaderSize + (writer.storedSizes.map (chunkHeaderSize + ·)).sum

def TraceWriter.releaseFileReserve (writer : TraceWriter) : TraceWriter :=
  { writer with reservedTailSize := 0 }

/-- The byte count of the file is right, and what it has and reserves is within the
limit. -/
structure TraceWriter.Fits (options : TraceWriterOptions) (writer : TraceWriter) : Prop where
  length : writer.bytesWritten = writer.fileLength
  room : writer.bytesWritten + writer.reservedTailSize ≤ options.maxFileSize

theorem TraceWriter.Fits.withChunk {options : TraceWriterOptions} {encoding : Encoding}
    {writer : TraceWriter} (h : writer.Fits options) {chunk : Chunk} {compress : Bool}
    (hadmits : writer.Admits options encoding chunk compress) :
    (writer.withChunk encoding chunk compress).Fits options where
  length := by
    have hlength := h.length
    unfold TraceWriter.fileLength at hlength ⊢
    unfold TraceWriter.withChunk
    rw [List.map_append, List.sum_append, hlength]
    simp
    omega
  room := by
    have hroom := hadmits.room
    have := h.room
    unfold TraceWriter.withChunk
    dsimp only
    omega

end Noleax.Trace
