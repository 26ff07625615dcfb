import Mathlib.Data.List.Forall2
import Noleax.Trace.Chunk
import Noleax.Trace.EventCodec
import Noleax.Trace.FileFormat
import Noleax.Trace.MemoryCodec
import Noleax.Trace.MetadataCodec
import Noleax.Trace.ModuleCodec
import Noleax.Trace.SummaryCodec

/-!
# The bytes of a chunk's records (`agent/linux/trace_writer.cpp`, `trace/record_codec.cpp`)

The writer appends its records to a buffer, one after the other, and hands the buffer to
`write_chunk`. A loop over the records of such a payload meets exactly these records.
-/

namespace Noleax.Trace

open Lib

/-! ## Records one after the other -/

section Appending

variable {α : Type}

/-- A buffer that the values were appended to. -/
def appendAll (append : Bytes → α → ℕ → Except Error Bytes) (maximumRecordSize : ℕ)
    (values : List α) : Except Error Bytes :=
  values.foldlM (fun payload value => append payload value maximumRecordSize) []

/-- What is appended for a value is one frame within the limit, of a record that is `Q`. -/
def Framed (append : Bytes → α → ℕ → Except Error Bytes) (maximumRecordSize : ℕ)
    (Q : α → RecordView → Prop) (value : α) : Prop :=
  ∀ payload output, append payload value maximumRecordSize = .ok output →
    ∃ record, output = payload ++ record.frame ∧
      (record.InRange ∧ record.payload.length + 8 ≤ maximumRecordSize) ∧ Q value record

variable {append : Bytes → α → ℕ → Except Error Bytes} {maximumRecordSize limit : ℕ}
  {Q : α → RecordView → Prop} {values : List α} {payload : Bytes}

/-- A codec frames the values it can hold. -/
theorem RoundTrip.framed {P : α → Prop} {decode : RecordView → Except Error (Option α)}
    (h : RoundTrip P append decode) {value : α} (hvalue : P value) :
    Framed append maximumRecordSize (fun v record => decode record = .ok (some v)) value := by
  intro payload output happend
  obtain ⟨record, houtput, hnext, hdecode⟩ := h.decodes _ _ _ _ hvalue happend
  exact ⟨record, houtput, ((reads_record _ _ _ _).mp (hnext [])).1, hdecode⟩

theorem Framed.mono {R : α → RecordView → Prop} {value : α}
    (h : Framed append maximumRecordSize Q value) (hR : ∀ record, Q value record → R value record) :
    Framed append maximumRecordSize R value := by
  intro payload output happend
  obtain ⟨record, houtput, hfits, hrecord⟩ := h payload output happend
  exact ⟨record, houtput, hfits, hR record hrecord⟩

/-- The frames of a buffer are those of the values that were appended. -/
theorem frames_of_appendAll (hframed : ∀ value ∈ values, Framed append maximumRecordSize Q value)
    (h : appendAll append maximumRecordSize values = .ok payload) :
    ∃ records, Frames maximumRecordSize records payload ∧ List.Forall₂ Q values records := by
  -- by induction on the values, from any buffer they are appended to
  suffices hall : ∀ before, values.foldlM (fun bytes value => append bytes value maximumRecordSize)
      before = .ok payload → ∃ records rest, payload = before ++ rest ∧
        Frames maximumRecordSize records rest ∧ List.Forall₂ Q values records by
    obtain ⟨records, rest, rfl, hframes, hrecords⟩ := hall [] h
    exact ⟨records, hframes, hrecords⟩
  clear h
  induction values with
  | nil =>
      intro before h
      cases h
      exact ⟨[], [], (List.append_nil _).symm, frames_nil.mpr rfl, .nil⟩
  | cons value values ih =>
      intro before h
      rw [List.foldlM_cons] at h
      obtain ⟨middle, happend, h⟩ := bind_eq_ok.mp h
      obtain ⟨record, rfl, hfits, hrecord⟩ := hframed value List.mem_cons_self before middle happend
      obtain ⟨records, rest, hpayload, hframes, hrecords⟩ :=
        ih (fun v hv => hframed v (List.mem_cons_of_mem _ hv)) _ h
      refine ⟨record :: records, record.frame ++ rest, ?_, ?_, .cons hrecord hrecords⟩
      · rw [hpayload, List.append_assoc]
      · exact frames_cons.mpr ⟨hfits, rest, rfl, hframes⟩

/-- What the records show holds of every value. -/
theorem forall_of_appendAll {P : α → Prop} (hP : ∀ value record, Q value record → P value)
    (hframed : ∀ value ∈ values, Framed append maximumRecordSize Q value)
    (h : appendAll append maximumRecordSize values = .ok payload) : ∀ value ∈ values, P value := by
  obtain ⟨records, -, hrecords⟩ := frames_of_appendAll hframed h
  have hboth : List.Forall₂ (fun value record => P value ∧ Q value record) values records :=
    hrecords.imp fun value record hrecord => ⟨hP value record hrecord, hrecord⟩
  exact ((List.forall₂_and_left values records).mp hboth).1

theorem Frames.mono {records : List RecordView} (h : Frames maximumRecordSize records payload)
    (hlimit : maximumRecordSize ≤ limit) : Frames limit records payload where
  inRange := h.inRange
  limit := fun record hrecord => (h.limit record hrecord).trans hlimit
  payload := h.payload

/-- No payload has more records than bytes. -/
theorem Frames.length_le {records : List RecordView} (h : Frames maximumRecordSize records payload) :
    records.length ≤ payload.length := by
  rw [h.payload]
  clear h
  induction records with
  | nil => exact Nat.le_refl _
  | cons record records ih =>
      rw [List.flatMap_cons, List.length_append, List.length_cons, record.frame_length]
      omega

variable {σ : Type} {step : σ → RecordView → Except Error σ} {take : σ → α → Except Error σ}

/-- A loop over the records goes as one over the values they carry. -/
theorem foldlM_records {records : List RecordView}
    (hstep : ∀ s value record, Q value record → step s record = take s value)
    (h : List.Forall₂ Q values records) (s : σ) :
    records.foldlM step s = values.foldlM take s := by
  induction h generalizing s with
  | nil => rfl
  | cons hrecord hrest ih =>
      rw [List.foldlM_cons, List.foldlM_cons, hstep s _ _ hrecord]
      exact bind_congr fun t => ih t

/-- The loop over a buffer goes as one over the values that were appended to it. -/
theorem forRecords_appended {s t : σ}
    (hstep : ∀ s value record, Q value record → step s record = take s value)
    (hframed : ∀ value ∈ values, Framed append maximumRecordSize Q value)
    (happend : appendAll append maximumRecordSize values = .ok payload)
    (hleast : 8 ≤ maximumRecordSize) (hlimit : maximumRecordSize ≤ limit)
    (htake : values.foldlM take s = .ok t) : forRecords limit step s payload = .ok t := by
  obtain ⟨records, hframes, hrecords⟩ := frames_of_appendAll hframed happend
  refine forRecords_eq_ok.mpr ⟨hleast.trans hlimit, records, hframes.mono hlimit, ?_⟩
  rw [foldlM_records hstep hrecords]
  exact htake

theorem length_le_of_appendAll
    (hframed : ∀ value ∈ values, Framed append maximumRecordSize Q value)
    (happend : appendAll append maximumRecordSize values = .ok payload) :
    values.length ≤ payload.length := by
  obtain ⟨records, hframes, hrecords⟩ := frames_of_appendAll hframed happend
  rw [hrecords.length_eq]
  exact hframes.length_le

end Appending

/-! ## A decoder and the records of other types -/

section Decoding

variable {α : Type} {type : ℕ} {read : ℕ → PayloadReader α} {record : RecordView}

theorem decodeRecord_type {value : α} (h : decodeRecord type read record = .ok (some value)) :
    record.type = type := by
  unfold decodeRecord at h
  split at h
  · cases h
  · rename_i hsame
    by_contra hother
    exact hsame (.inl hother)

theorem decodeRecord_other (h : record.type ≠ type) :
    decodeRecord type read record = .ok none := if_pos (.inl h)

end Decoding

/-! ## What the records carry -/

/-- What a metadata record carries. -/
inductive MetadataContent where
  | scope (scope : CaptureScope)
  | configuration (configuration : BufferConfiguration)
  | hook (definition : CustomHookDefinition)
  | failure (failure : CustomHookFailure)
deriving DecidableEq

/-- What a memory record carries. -/
inductive MemoryContent where
  | counters (counters : MemoryCounters)
  | map (map : MemoryMap)
  | agent (memory : AgentMemory)
deriving DecidableEq

namespace MetadataContent

def InRange : MetadataContent → Prop
  | scope _ => True
  | configuration value => value.InRange
  | hook definition => definition.InRange
  | failure value => value.InRange

/-- The calls of `write_metadata`. -/
def append (chunkPayload : Bytes) (content : MetadataContent) (maximumRecordSize : ℕ) :
    Except Error Bytes :=
  match content with
  | scope value => appendCaptureScopeRecord chunkPayload value maximumRecordSize
  | configuration value => appendBufferConfigurationRecord chunkPayload value maximumRecordSize
  | hook definition => appendCustomHookDefinitionRecord chunkPayload definition maximumRecordSize
  | failure value => appendCustomHookFailureRecord chunkPayload value maximumRecordSize

/-- The decoder of its kind makes it of the record. -/
def DecodedFrom (content : MetadataContent) (record : RecordView) : Prop :=
  match content with
  | scope value => decodeCaptureScopeRecord record = .ok (some value)
  | configuration value => decodeBufferConfigurationRecord record = .ok (some value)
  | hook definition => decodeCustomHookDefinitionRecord record = .ok (some definition)
  | failure value => decodeCustomHookFailureRecord record = .ok (some value)

theorem framed {content : MetadataContent} (h : content.InRange) (maximumRecordSize : ℕ) :
    Framed append maximumRecordSize DecodedFrom content := by
  cases content with
  | scope value => exact captureScope_roundTrip.framed trivial
  | configuration value => exact bufferConfiguration_roundTrip.framed h
  | hook definition => exact customHookDefinition_roundTrip.framed h
  | failure value => exact customHookFailure_roundTrip.framed h

end MetadataContent

namespace MemoryContent

def InRange : MemoryContent → Prop
  | counters value => value.InRange
  | map value => value.InRange
  | agent memory => memory.InRange

def monotonicTicks : MemoryContent → ℕ
  | counters value => value.monotonicTicks
  | map value => value.monotonicTicks
  | agent memory => memory.monotonicTicks

/-- The calls of `capture_memory_snapshot` and of `write_memory_baselines`. -/
def append (chunkPayload : Bytes) (content : MemoryContent) (maximumRecordSize : ℕ) :
    Except Error Bytes :=
  match content with
  | counters value => appendMemoryCountersRecord chunkPayload value maximumRecordSize
  | map value => appendMemoryMapRecord chunkPayload value maximumRecordSize
  | agent memory => appendAgentMemoryRecord chunkPayload memory maximumRecordSize

def DecodedFrom (content : MemoryContent) (record : RecordView) : Prop :=
  match content with
  | counters value => decodeMemoryCountersRecord record = .ok (some value)
  | map value => decodeMemoryMapRecord record = .ok (some value)
  | agent memory => decodeAgentMemoryRecord record = .ok (some memory)

theorem framed {content : MemoryContent} (h : content.InRange) (maximumRecordSize : ℕ) :
    Framed append maximumRecordSize DecodedFrom content := by
  cases content with
  | counters value => exact memoryCounters_roundTrip.framed h
  | map value => exact memoryMap_roundTrip.framed h
  | agent memory => exact agentMemory_roundTrip.framed h

end MemoryContent

/-- The content a metadata record stands for; of most the model keeps the kind alone. -/
inductive MetadataRecord.Carries : MetadataRecord → MetadataContent → Prop
  | scope (scope : CaptureScope) : Carries (.captureScope scope) (.scope scope)
  | configuration (configuration : BufferConfiguration) :
      Carries .bufferConfiguration (.configuration configuration)
  | hook (definition : CustomHookDefinition) :
      Carries (.customHookDefinition definition.apiId) (.hook definition)
  | failure (failure : CustomHookFailure) : Carries .customHookFailure (.failure failure)

inductive MemoryRecord.Carries : MemoryRecord → MemoryContent → Prop
  | counters (counters : MemoryCounters) :
      Carries (.counters counters.monotonicTicks) (.counters counters)
  | map (map : MemoryMap) : Carries (.map map.monotonicTicks) (.map map)
  | agent (memory : AgentMemory) : Carries (.agent memory.monotonicTicks) (.agent memory)

/-! ## Chunks -/

def ChunkPayload.type : ChunkPayload → ChunkType
  | .metadata _ => .metadata
  | .modules _ => .module
  | .stacks _ => .stack
  | .events _ => .event
  | .memory _ => .memory
  | .statistics _ => .statistics
  | .endOfTrace _ => .endOfTrace

/-- The bytes the records of a payload are appended as. -/
inductive ChunkPayload.AppendedAs (maximumRecordSize : ℕ) : ChunkPayload → Bytes → Prop
  | metadata {records : List MetadataRecord} {contents : List MetadataContent}
      {bytes : Bytes} (hcarries : List.Forall₂ MetadataRecord.Carries records contents)
      (hrange : ∀ content ∈ contents, content.InRange)
      (hbytes : appendAll MetadataContent.append maximumRecordSize contents = .ok bytes) :
      ChunkPayload.AppendedAs maximumRecordSize (.metadata records) bytes
  | modules {records : List ModuleRecord} {bytes : Bytes}
      (hrange : ∀ record ∈ records, record.InRange)
      (hbytes : appendAll appendModuleRecord maximumRecordSize records = .ok bytes) :
      ChunkPayload.AppendedAs maximumRecordSize (.modules records) bytes
  | stacks {definitions : List StackDefinition} {bytes : Bytes}
      (hrange : ∀ definition ∈ definitions, definition.InRange)
      (hbytes : appendAll appendStackDefinitionRecord maximumRecordSize definitions = .ok bytes) :
      ChunkPayload.AppendedAs maximumRecordSize (.stacks definitions) bytes
  | events {records : List EventChunkRecord} {bytes : Bytes}
      (hrange : ∀ record ∈ records, record.InRange)
      (hbytes : appendAll appendEventChunkRecord maximumRecordSize records = .ok bytes) :
      ChunkPayload.AppendedAs maximumRecordSize (.events records) bytes
  | memory {records : List MemoryRecord} {contents : List MemoryContent} {bytes : Bytes}
      (hcarries : List.Forall₂ MemoryRecord.Carries records contents)
      (hrange : ∀ content ∈ contents, content.InRange)
      (hbytes : appendAll MemoryContent.append maximumRecordSize contents = .ok bytes) :
      ChunkPayload.AppendedAs maximumRecordSize (.memory records) bytes
  | statistics {statistics : CaptureStatistics} {bytes : Bytes}
      (hrange : statistics.InRange)
      (hbytes : appendAll appendStatisticsRecord maximumRecordSize [statistics] = .ok bytes) :
      ChunkPayload.AppendedAs maximumRecordSize (.statistics statistics) bytes
  | endOfTrace {trace : EndOfTrace} {bytes : Bytes} (hrange : trace.InRange)
      (hbytes : appendAll appendEndOfTraceRecord maximumRecordSize [trace] = .ok bytes) :
      ChunkPayload.AppendedAs maximumRecordSize (.endOfTrace trace) bytes

/-- A call of `write_chunk` with the bytes of a chunk, under whatever codec. -/
structure Chunk.WrittenAs (maximumRecordSize : ℕ) (chunk : Chunk)
    (call : ChunkDescriptor × Bytes) : Prop where
  type : call.1.type = chunk.payload.type
  version : call.1.version = 1
  flags : call.1.flags = 0
  sequenceBegin : call.1.sequenceBegin = chunk.sequenceBegin
  sequenceEnd : call.1.sequenceEnd = chunk.sequenceEnd
  payload : chunk.payload.AppendedAs maximumRecordSize call.2

end Noleax.Trace
