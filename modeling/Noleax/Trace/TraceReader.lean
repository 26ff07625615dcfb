import Noleax.Trace.FileFormat

/-!
# The reader of a trace file (`src/trace/trace_reader.cpp`)

The input is the bytes the stream still has. The decompressors are not in the
repository; what they return for a payload of the announced size is a parameter.
-/

namespace Noleax.Trace

open Lib

/-- `LZ4_decompress_safe` and `ZSTD_decompress` into a buffer of the given size. -/
structure Decompressors where
  lz4 : Bytes → ℕ → Option Bytes
  zstd : Bytes → ℕ → Except String Bytes

structure TraceChunk where
  header : ChunkHeader
  payload : Bytes
deriving DecidableEq, Repr

inductive ChunkReadStatus where
  | endOfFile | truncated
deriving DecidableEq, Repr

inductive ChunkReadResult where
  | chunk (chunk : TraceChunk)
  | ended (status : ChunkReadStatus)
deriving DecidableEq, Repr

structure TraceReader where
  input : Bytes
  bytesRead : ℕ := 0
  partiallyUnderstood : Bool := false
  terminalStatus : Option ChunkReadStatus := none
deriving DecidableEq, Repr

abbrev ReaderM := EStateM Error TraceReader

/-! ## Bytes -/

inductive ExactReadResult where
  | complete (bytes : Bytes)
  | noBytes
  | cutShort
deriving DecidableEq, Repr

def readExact (size : ℕ) : ReaderM ExactReadResult := do
  if size = 0 then return .complete []
  else do
    check (failIf (2 ^ 63 - 1 < size) (.traceRead "read size exceeds std::streamsize"))
    let reader ← get
    let bytes := reader.input.take size
    check (failIf (maxU64 - bytes.length < reader.bytesRead)
      (.traceRead "trace byte count overflow"))
    set { reader with
      input := reader.input.drop size
      bytesRead := reader.bytesRead + bytes.length }
    return if bytes.length = size then .complete bytes
      else if bytes = [] then .noBytes else .cutShort

/-- The pieces `skip_exact` reads; whether all of them were there. -/
def skipPieces : ℕ → ℕ → ReaderM Bool
  | 0, size => return size = 0
  | fuel + 1, size =>
      if size = 0 then return true
      else do
        match ← readExact (min size 4096) with
        | .complete _ => skipPieces fuel (size - min size 4096)
        | _ => return false

def skipExact (size : ℕ) : ReaderM Bool := skipPieces size size

/-! ## Payloads -/

def decompressLz4 (decompressors : Decompressors) (stored : Bytes) (uncompressedSize : ℕ) :
    Except Error Bytes :=
  if stored = [] then .ok []
  else do
    failIf (2 ^ 31 - 1 < stored.length ∨ 2 ^ 31 - 1 < uncompressedSize)
      (.traceRead "LZ4 chunk exceeds its supported size")
    match decompressors.lz4 stored uncompressedSize with
    | some output => do
        failIf (output.length ≠ uncompressedSize)
          (.traceRead "LZ4 chunk is corrupt or has an unexpected decoded size")
        return output
    | none => .error (.traceRead "LZ4 chunk is corrupt or has an unexpected decoded size")

def decompressZstd (decompressors : Decompressors) (stored : Bytes) (uncompressedSize : ℕ) :
    Except Error Bytes :=
  if stored = [] then .ok []
  else match decompressors.zstd stored uncompressedSize with
    | .ok output => do
        failIf (output.length ≠ uncompressedSize)
          (.traceRead "Zstd chunk has an unexpected decoded size")
        return output
    | .error name => .error (.traceRead ("Zstd chunk is corrupt: " ++ name))

def decompressPayload (decompressors : Decompressors) (codec : CompressionCodec) (stored : Bytes)
    (uncompressedSize : ℕ) : Except Error Bytes :=
  match codec with
  | .none => .ok stored
  | .lz4 => decompressLz4 decompressors stored uncompressedSize
  | .zstd => decompressZstd decompressors stored uncompressedSize

/-! ## Chunks -/

section Reader

variable (options : TraceReaderOptions) (decompressors : Decompressors)

def finish (status : ChunkReadStatus) : ReaderM (Option ChunkReadResult) := do
  modify fun reader => { reader with terminalStatus := some status }
  return some (.ended status)

def markPartiallyUnderstood : ReaderM Unit :=
  modify fun reader => { reader with partiallyUnderstood := true }

/-- A version that is newer than the one this reader knows. -/
def noteVersion (known version : ℕ) : ReaderM Unit :=
  if known < version then markPartiallyUnderstood else pure ()

/-- The bytes of a header beyond those this version knows. -/
def skipExtension (size : ℕ) : ReaderM Bool :=
  if size = 0 then return true
  else do
    markPartiallyUnderstood
    skipExact size

/-- A chunk of an unknown type is skipped, and the next one is read. -/
def skipChunk (storedSize : ℕ) : ReaderM (Option ChunkReadResult) := do
  markPartiallyUnderstood
  if ← skipExact storedSize then return none
  else finish .truncated

/-- The chunk that its stored bytes make. -/
def decodeChunk (raw : RawChunkHeader) (type : ChunkType) (codec : CompressionCodec)
    (stored : Bytes) : Except Error TraceChunk := do
  let payload ← decompressPayload decompressors codec stored raw.uncompressedSize
  failIf (crc32c payload ≠ raw.crc32c) (.traceRead "chunk CRC32C does not match")
  return {
    header := {
      descriptor := ⟨type, raw.version, raw.flags, codec, raw.sequenceBegin, raw.sequenceEnd⟩
      uncompressedSize := raw.uncompressedSize
      storedSize := raw.storedSize
      crc32c := raw.crc32c }
    payload := payload }

def readStored (raw : RawChunkHeader) (type : ChunkType) (codec : CompressionCodec) :
    ReaderM (Option ChunkReadResult) := do
  noteVersion 1 raw.version
  check (failIf (2 ^ 63 - 1 < raw.storedSize)
    (.traceRead "stored chunk size does not fit this process"))
  match ← readExact raw.storedSize with
  | .complete stored => do
      let chunk ← check (decodeChunk decompressors raw type codec stored)
      return some (.chunk chunk)
  | _ => finish .truncated

/-- What follows a chunk header. -/
def readBody (raw : RawChunkHeader) : ReaderM (Option ChunkReadResult) := do
  if ← skipExtension (raw.headerSize - chunkHeaderSize) then
    match ChunkType.coding.find raw.type with
    | none => skipChunk raw.storedSize
    | some type =>
        match CompressionCodec.coding.find raw.codec with
        | none => throw (.traceRead "compression codec is not supported")
        | some codec => readStored decompressors raw type codec
  else finish .truncated

/-- One round of the loop of `read_next_chunk`. -/
def readChunk : ReaderM (Option ChunkReadResult) := do
  match ← readExact chunkHeaderSize with
  | .noBytes => finish .endOfFile
  | .cutShort => finish .truncated
  | .complete encoded => do
      let raw ← check (runReader (parseChunkHeader options) encoded)
      readBody decompressors raw

/-- The loop of `read_next_chunk`. A round consumes a header, so that the rounds are fewer
than the bytes. -/
def readRounds : ReaderM ChunkReadResult :=
  loopBy (·.input.length) (readChunk options decompressors) (.ended .endOfFile)

def readNextChunk : ReaderM ChunkReadResult := do
  match (← get).terminalStatus with
  | some status => return .ended status
  | none => readRounds options decompressors

/-- The constructor of `TraceReader`, after its options are validated. -/
def readFileHeader : ReaderM FileHeader := do
  match ← readExact fileHeaderSize with
  | .complete encoded => do
      let raw ← check (runReader (parseFileHeader options) encoded)
      noteVersion traceFormatMinor raw.formatMinor
      if ← skipExtension (raw.headerSize - fileHeaderSize) then return raw.header
      else throw (.traceRead "trace file header extension is truncated")
  | _ => throw (.traceRead "trace file header is truncated")

def openTrace (input : Bytes) : Except Error (FileHeader × TraceReader) := do
  options.validate
  match readFileHeader options { input := input } with
  | .ok header reader => .ok (header, reader)
  | .error e _ => .error e

end Reader

/-! ## What a read consumes -/

section Consumes

variable {α β : Type} {r t : TraceReader}

theorem readExact_complete {size : ℕ} (hlength : size ≤ r.input.length) (hsize : size ≤ 2 ^ 63 - 1)
    (hcount : r.bytesRead + size ≤ maxU64) :
    readExact size r = .ok (.complete (r.input.take size))
      { r with input := r.input.drop size, bytesRead := r.bytesRead + size } := by
  unfold readExact
  by_cases hzero : size = 0
  · subst hzero
    rfl
  · have htake : (r.input.take size).length = size := List.length_take_of_le hlength
    rw [if_neg hzero, failIf_of_not (by omega)]
    simp only [run_bind, run_check_ok, run_get, run_set, run_pure, htake]
    rw [failIf_of_not (by omega)]
    simp

theorem readExact_short {size : ℕ} (hlength : r.input.length < size) (hsize : size ≤ 2 ^ 63 - 1)
    (hcount : r.bytesRead + r.input.length ≤ maxU64) :
    readExact size r = .ok (if r.input = [] then .noBytes else .cutShort)
      { r with input := [], bytesRead := r.bytesRead + r.input.length } := by
  have htake : r.input.take size = r.input := List.take_of_length_le (by omega)
  have hdrop : r.input.drop size = [] := List.drop_of_length_le (by omega)
  unfold readExact
  rw [if_neg (by omega), failIf_of_not (by omega)]
  simp only [run_bind, run_check_ok, run_get, run_set, run_pure, htake, hdrop]
  rw [failIf_of_not (by omega)]
  simp [Nat.ne_of_lt hlength]

/-- A whole read had the bytes and the room to count them. -/
theorem readExact_eq_complete {size : ℕ} {bytes : Bytes}
    (h : readExact size r = .ok (.complete bytes) t) :
    bytes.length = size ∧ r.input = bytes ++ t.input ∧ t.terminalStatus = r.terminalStatus ∧
      ∀ more, readExact size { r with input := bytes ++ more } =
        .ok (.complete bytes) { t with input := more } := by
  by_cases hzero : size = 0
  · subst hzero
    cases h
    exact ⟨rfl, rfl, rfl, fun _ => rfl⟩
  · unfold readExact at h
    rw [if_neg hzero] at h
    simp only [run_bind_eq_ok, run_check_eq_ok, run_get_eq_ok, run_set_eq_ok, run_pure_eq_ok,
      failIf_eq_ok] at h
    obtain ⟨_, _, ⟨hsize, rfl⟩, _, _, ⟨rfl, rfl⟩, _, _, ⟨hcount, rfl⟩, _, _, rfl, hresult, rfl⟩ := h
    split_ifs at hresult with hlength hempty
    cases hresult
    have hmax : maxU64 = 2 ^ 64 - 1 := rfl
    refine ⟨hlength, (List.take_append_drop size r.input).symm, rfl, fun more => ?_⟩
    rw [readExact_complete (by simp [hlength]) (by omega) (by dsimp only; omega)]
    simp [hlength]

/-- A result of `G` depends on the bytes that were consumed only. -/
def Consumes (G : α → Prop) (x : ReaderM α) : Prop :=
  ∀ r a t, x r = .ok a t → G a → ∃ used, r.input = used ++ t.input ∧
    t.terminalStatus = r.terminalStatus ∧
    ∀ more, x { r with input := used ++ more } = .ok a { t with input := more }

theorem Consumes.bind {G : α → Prop} {H : β → Prop} {x : ReaderM α} {f : α → ReaderM β}
    (hx : Consumes G x) (hf : ∀ a, G a → Consumes H (f a))
    (hother : ∀ a r b t, ¬ G a → f a r = .ok b t → ¬ H b) : Consumes H (x >>= f) := by
  intro r b t h hb
  obtain ⟨a, m, hrun, hrest⟩ := run_bind_eq_ok.mp h
  by_cases ha : G a
  · obtain ⟨used, hinput, hopen, hmore⟩ := hx r a m hrun ha
    obtain ⟨used', hinput', hopen', hmore'⟩ := hf a ha m b t hrest hb
    refine ⟨used ++ used', by rw [hinput, hinput', List.append_assoc], hopen'.trans hopen,
      fun more => ?_⟩
    rw [List.append_assoc]
    exact run_bind_eq_ok.mpr ⟨a, _, hmore (used' ++ more), hmore' more⟩
  · exact absurd hb (hother a m b t ha hrest)

theorem consumes_pure {G : α → Prop} (a : α) : Consumes G (pure a) := by
  intro r b t h _
  obtain ⟨rfl, rfl⟩ := run_pure_eq_ok.mp h
  exact ⟨[], rfl, rfl, fun _ => rfl⟩

theorem consumes_check {G : α → Prop} (x : Except Error α) : Consumes G (check x) := by
  intro r b t h _
  obtain ⟨rfl, rfl⟩ := run_check_eq_ok.mp h
  exact ⟨[], rfl, rfl, fun _ => rfl⟩

theorem consumes_mark {G : Unit → Prop} : Consumes G markPartiallyUnderstood := by
  intro r b t h _
  cases h
  exact ⟨[], rfl, rfl, fun _ => rfl⟩

theorem consumes_throw {G : α → Prop} (e : Error) : Consumes G (throw e) := by
  intro r b t h _
  cases h

theorem consumes_noteVersion {G : Unit → Prop} (known version : ℕ) :
    Consumes G (noteVersion known version) := by
  unfold noteVersion
  split
  · exact consumes_mark
  · exact consumes_pure _

/-- A part whose every result is good. -/
theorem Consumes.then {H : β → Prop} {x : ReaderM α} {f : α → ReaderM β}
    (hx : Consumes (fun _ => True) x) (hf : ∀ a, Consumes H (f a)) : Consumes H (x >>= f) :=
  hx.bind (fun a _ => hf a) fun _ _ _ _ h => absurd trivial h

def ExactReadResult.IsComplete : ExactReadResult → Prop
  | complete _ => True
  | _ => False

theorem consumes_readExact (size : ℕ) : Consumes ExactReadResult.IsComplete (readExact size) := by
  intro r a t h ha
  cases a with
  | complete bytes =>
      obtain ⟨-, hinput, hopen, hmore⟩ := readExact_eq_complete h
      exact ⟨bytes, hinput, hopen, hmore⟩
  | noBytes => cases ha
  | cutShort => cases ha

theorem consumes_skipPieces (fuel size : ℕ) :
    Consumes (fun whole => whole = true) (skipPieces fuel size) := by
  induction fuel generalizing size with
  | zero => exact consumes_pure _
  | succ fuel ih =>
      unfold skipPieces
      split
      · exact consumes_pure _
      · refine (consumes_readExact _).bind ?_ ?_
        · rintro (bytes | _ | _) hcomplete
          · exact ih _
          · cases hcomplete
          · cases hcomplete
        · rintro (bytes | _ | _) r b t hother hrun
          · exact absurd trivial hother
          · obtain ⟨rfl, -⟩ := run_pure_eq_ok.mp hrun
            exact Bool.false_ne_true
          · obtain ⟨rfl, -⟩ := run_pure_eq_ok.mp hrun
            exact Bool.false_ne_true

theorem consumes_skipExtension (size : ℕ) :
    Consumes (fun whole => whole = true) (skipExtension size) := by
  unfold skipExtension
  split
  · exact consumes_pure _
  · exact consumes_mark.then fun _ => consumes_skipPieces _ _

/-- The reader goes on: it has a chunk, or it skipped one. -/
def Continues (result : Option ChunkReadResult) : Prop :=
  ∀ status, result ≠ some (.ended status)

theorem not_continues_finish {status : ChunkReadStatus} {result : Option ChunkReadResult}
    (h : finish status r = .ok result t) : ¬ Continues result := by
  cases h
  exact fun h => h status rfl

variable (options : TraceReaderOptions) (decompressors : Decompressors)

theorem consumes_skipChunk (storedSize : ℕ) : Consumes Continues (skipChunk storedSize) := by
  refine consumes_mark.then fun _ => (consumes_skipPieces _ _).bind ?_ ?_
  · rintro whole rfl
    exact consumes_pure _
  · intro whole r b t hother hrun
    rw [if_neg hother] at hrun
    exact not_continues_finish hrun

theorem consumes_readStored (raw : RawChunkHeader) (type : ChunkType) (codec : CompressionCodec) :
    Consumes Continues (readStored decompressors raw type codec) := by
  refine (consumes_noteVersion _ _).then fun _ => (consumes_check _).then fun _ =>
    (consumes_readExact _).bind ?_ ?_
  · rintro (stored | _ | _) hcomplete
    · exact (consumes_check _).then fun _ => consumes_pure _
    · cases hcomplete
    · cases hcomplete
  · rintro (stored | _ | _) r b t hother hrun
    · exact absurd trivial hother
    · exact not_continues_finish hrun
    · exact not_continues_finish hrun

theorem consumes_readBody (raw : RawChunkHeader) :
    Consumes Continues (readBody decompressors raw) := by
  refine (consumes_skipExtension _).bind ?_ ?_
  · rintro whole rfl
    rw [if_pos rfl]
    split
    · exact consumes_skipChunk _
    · split
      · exact consumes_throw _
      · exact consumes_readStored _ _ _ _
  · intro whole r b t hother hrun
    rw [if_neg hother] at hrun
    exact not_continues_finish hrun

theorem consumes_readChunk : Consumes Continues (readChunk options decompressors) := by
  refine (consumes_readExact _).bind ?_ ?_
  · rintro (encoded | _ | _) hcomplete
    · exact (consumes_check _).then fun raw => consumes_readBody _ raw
    · cases hcomplete
    · cases hcomplete
  · rintro (encoded | _ | _) r b t hother hrun
    · exact absurd trivial hother
    · exact not_continues_finish hrun
    · exact not_continues_finish hrun

/-- A round that goes on consumed a chunk header at least. -/
theorem readChunk_consumes {result : Option ChunkReadResult}
    (h : readChunk options decompressors r = .ok result t) (hresult : Continues result) :
    t.input.length + chunkHeaderSize ≤ r.input.length := by
  obtain ⟨read, m, hread, hrest⟩ := run_bind_eq_ok.mp h
  cases read with
  | complete encoded =>
      obtain ⟨hlength, hinput, -, -⟩ := readExact_eq_complete hread
      obtain ⟨used, hused, -⟩ := (consumes_check _).then
        (fun raw => consumes_readBody decompressors raw) m result t hrest hresult
      rw [hinput, hused, List.length_append, List.length_append, hlength]
      omega
  | noBytes => exact absurd hresult (not_continues_finish hrest)
  | cutShort => exact absurd hresult (not_continues_finish hrest)

theorem readChunk_shrinks (h : readChunk options decompressors r = .ok none t) :
    t.input.length < r.input.length := by
  have hlength := readChunk_consumes options decompressors h (fun _ h => nomatch h)
  have hpos : 0 < chunkHeaderSize := by decide
  omega

/-- A chunk of an unknown type is passed over. -/
theorem readRounds_of_none (h : readChunk options decompressors r = .ok none t) :
    readRounds options decompressors r = readRounds options decompressors t :=
  loopBy_none (fun _ _ h => readChunk_shrinks options decompressors h) h

def ChunkReadResult.IsChunk : ChunkReadResult → Prop
  | chunk _ => True
  | ended _ => False

theorem consumes_readRounds :
    Consumes ChunkReadResult.IsChunk (readRounds options decompressors) := by
  intro r result t h hresult
  induction hsize : r.input.length using Nat.strong_induction_on generalizing r with
  | _ size ih =>
      rcases hround : readChunk options decompressors r with ⟨_ | first, m⟩ | ⟨e, m⟩
      · -- a chunk of an unknown type, and then the rest
        rw [readRounds_of_none _ _ hround] at h
        obtain ⟨used, hinput, hopen, hmore⟩ :=
          consumes_readChunk options decompressors r none m hround (fun _ h => nomatch h)
        obtain ⟨used', hinput', hopen', hmore'⟩ :=
          ih _ (hsize ▸ readChunk_shrinks options decompressors hround) m h rfl
        refine ⟨used ++ used', by rw [hinput, hinput', List.append_assoc], hopen'.trans hopen,
          fun more => ?_⟩
        rw [List.append_assoc, readRounds_of_none _ _ (hmore _)]
        exact hmore' more
      · rw [readRounds, loopBy_some hround] at h
        cases h
        have hgoes : Continues (some result) := by
          rintro status ⟨⟩
          exact hresult
        obtain ⟨used, hinput, hopen, hmore⟩ :=
          consumes_readChunk options decompressors r _ t hround hgoes
        exact ⟨used, hinput, hopen, fun more => loopBy_some (hmore more)⟩
      · rw [readRounds, loopBy_error hround] at h
        cases h

theorem readNextChunk_of_open (hopen : r.terminalStatus = none) :
    readNextChunk options decompressors r = readRounds options decompressors r := by
  unfold readNextChunk
  rw [run_bind, run_get]
  dsimp only
  rw [hopen]

end Consumes

end Noleax.Trace
