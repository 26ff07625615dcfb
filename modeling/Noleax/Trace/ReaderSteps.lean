import Noleax.Trace.TraceReader

/-!
# What a reader has passed (`src/trace/trace_reader.cpp`)

The chunks a reader went through, those of unknown types included, with the header each
of them had; and from what headers the reader knows that it understands a part only.
-/

namespace Noleax.Trace

open Lib

/-- A chunk that was read; one of an unknown type was passed over. -/
structure ChunkRead where
  header : RawChunkHeader
  chunk : Option TraceChunk
deriving DecidableEq, Repr

/-- A header that this reader does not understand in full: it is longer than the one known,
or its type or its version is newer. -/
def RawChunkHeader.New (raw : RawChunkHeader) : Prop :=
  chunkHeaderSize < raw.headerSize ∨ ChunkType.coding.find raw.type = none ∨ 1 < raw.version

section Passed

variable (options : TraceReaderOptions) (decompressors : Decompressors)

/-- The input goes on with a chunk header. -/
def Opens (reader : TraceReader) (raw : RawChunkHeader) : Prop :=
  chunkHeaderSize ≤ reader.input.length ∧
    runReader (parseChunkHeader options) (reader.input.take chunkHeaderSize) = .ok raw

/-- The chunks between two states of a reader. -/
inductive Passed : TraceReader → List ChunkRead → TraceReader → Prop
  | nil (reader : TraceReader) : Passed reader [] reader
  | cons {reader next last : TraceReader} {raw : RawChunkHeader} {chunk : Option TraceChunk}
      {reads : List ChunkRead} (hopens : Opens options reader raw)
      (hread : readChunk options decompressors reader = .ok (chunk.map .chunk) next)
      (hrest : Passed next reads last) : Passed reader (⟨raw, chunk⟩ :: reads) last

end Passed

/-! ## What is understood -/

section Understood

variable {r t : TraceReader} {b : Bool}

/-- The flag `partially_understood_` is `b`. -/
def Understands (b : Bool) (r : TraceReader) : Prop := r.partiallyUnderstood = b

theorem keeps_readExact (size : ℕ) : Keeps (Understands b) (readExact size) := by
  unfold readExact
  refine keeps_ite (fun _ => keeps_pure _) fun _ => ?_
  refine (keeps_check _).bind fun _ => keeps_get_bind fun s hs => (keeps_check _).bind fun _ => ?_
  refine Keeps.bind (keeps_set ?_) fun _ => keeps_pure _
  exact hs

theorem keeps_skipPieces (fuel size : ℕ) : Keeps (Understands b) (skipPieces fuel size) := by
  induction fuel generalizing size with
  | zero => exact keeps_pure _
  | succ fuel ih =>
      unfold skipPieces
      refine keeps_ite (fun _ => keeps_pure _) fun _ => (keeps_readExact _).bind ?_
      rintro (bytes | _ | _)
      · exact ih _
      · exact keeps_pure _
      · exact keeps_pure _

theorem keeps_finish (status : ChunkReadStatus) : Keeps (Understands b) (finish status) :=
  Keeps.bind (keeps_modify fun _ h => h) fun _ => keeps_pure _

/-- What was marked stays marked. -/
theorem noteVersion_understood {known version : ℕ} (h : noteVersion known version r = .ok () t) :
    t.partiallyUnderstood = (r.partiallyUnderstood || decide (known < version)) := by
  unfold noteVersion at h
  by_cases hnew : known < version
  · rw [if_pos hnew] at h
    cases h
    simp [hnew]
  · rw [if_neg hnew] at h
    cases h
    simp [hnew]

theorem skipExtension_understood {size : ℕ} {whole : Bool}
    (h : skipExtension size r = .ok whole t) :
    t.partiallyUnderstood = (r.partiallyUnderstood || decide (0 < size)) := by
  unfold skipExtension at h
  by_cases hzero : size = 0
  · rw [if_pos hzero] at h
    cases h
    simp [hzero]
  · rw [if_neg hzero] at h
    obtain ⟨⟨⟩, m, hmark, hskip⟩ := run_bind_eq_ok.mp h
    cases hmark
    have hkeeps : t.partiallyUnderstood = true :=
      (keeps_skipPieces size size).ok (P := Understands true) (by exact rfl) hskip
    rw [hkeeps, decide_eq_true (Nat.pos_of_ne_zero hzero), Bool.or_true]

theorem skipChunk_understood {storedSize : ℕ} {result : Option ChunkReadResult}
    (h : skipChunk storedSize r = .ok result t) : t.partiallyUnderstood = true := by
  obtain ⟨⟨⟩, m, hmark, h⟩ := run_bind_eq_ok.mp h
  cases hmark
  obtain ⟨whole, m, hskip, h⟩ := run_bind_eq_ok.mp h
  have hmarked : m.partiallyUnderstood = true :=
    (keeps_skipPieces storedSize storedSize).ok (P := Understands true) (by exact rfl) hskip
  cases whole with
  | true =>
      cases h
      exact hmarked
  | false => exact (keeps_finish .truncated).ok (P := Understands true) hmarked h

variable {options : TraceReaderOptions} {decompressors : Decompressors}

theorem readStored_understood {raw : RawChunkHeader} {type : ChunkType}
    {codec : CompressionCodec} {result : Option ChunkReadResult}
    (h : readStored decompressors raw type codec r = .ok result t) :
    t.partiallyUnderstood = (r.partiallyUnderstood || decide (1 < raw.version)) := by
  obtain ⟨⟨⟩, m, hversion, h⟩ := run_bind_eq_ok.mp h
  rw [← noteVersion_understood hversion]
  refine Keeps.ok (P := Understands m.partiallyUnderstood) ?_ rfl h
  refine (keeps_check _).bind fun _ => (keeps_readExact _).bind ?_
  rintro (stored | _ | _)
  · exact (keeps_check _).bind fun _ => keeps_pure _
  · exact keeps_finish _
  · exact keeps_finish _

theorem readBody_understood {raw : RawChunkHeader} {result : Option ChunkReadResult}
    (h : readBody decompressors raw r = .ok result t) :
    t.partiallyUnderstood = true ↔ r.partiallyUnderstood = true ∨ raw.New := by
  obtain ⟨whole, m, hextension, h⟩ := run_bind_eq_ok.mp h
  have hm := skipExtension_understood hextension
  unfold RawChunkHeader.New
  cases whole with
  | false =>
      -- an extension was there, of which a part is missing
      have hlong : chunkHeaderSize < raw.headerSize := by
        by_contra hshort
        unfold skipExtension at hextension
        rw [if_pos (by omega)] at hextension
        cases hextension
      have hmarked : m.partiallyUnderstood = true := by
        rw [hm, decide_eq_true (by omega), Bool.or_true]
      have ht : t.partiallyUnderstood = true :=
        (keeps_finish .truncated).ok (P := Understands true) hmarked h
      simp [ht, hlong]
  | true =>
      rw [if_pos rfl] at h
      cases htype : ChunkType.coding.find raw.type with
      | none =>
          rw [htype] at h
          simp [skipChunk_understood h]
      | some type =>
          rw [htype] at h
          cases hcodec : CompressionCodec.coding.find raw.codec with
          | none =>
              rw [hcodec] at h
              cases h
          | some codec =>
              rw [hcodec] at h
              rw [readStored_understood h, hm]
              simp [or_assoc]

/-- A read that is not whole met the end of the input. -/
theorem readExact_eq_short {size : ℕ} {read : ExactReadResult}
    (h : readExact size r = .ok read t) (hincomplete : ¬ read.IsComplete) :
    r.input.length < size := by
  unfold readExact at h
  split at h
  · cases h
    exact absurd trivial hincomplete
  · simp only [run_bind_eq_ok, run_check_eq_ok, run_get_eq_ok, run_set_eq_ok,
      run_pure_eq_ok] at h
    obtain ⟨_, s, ⟨-, hs⟩, _, _, ⟨hget, -⟩, _, _, -, _, _, -, hresult, -⟩ := h
    rw [← hget, ← hs] at hresult
    by_contra hlong
    rw [if_pos (List.length_take_of_le (Nat.not_lt.mp hlong))] at hresult
    rw [← hresult] at hincomplete
    exact hincomplete trivial

/-- A round of the reader opens a chunk, or it is at the end. -/
theorem readChunk_understood {result : Option ChunkReadResult}
    (h : readChunk options decompressors r = .ok result t) :
    (∃ raw, Opens options r raw ∧
        (t.partiallyUnderstood = true ↔ r.partiallyUnderstood = true ∨ raw.New)) ∨
      (¬ Continues result ∧ (∀ raw, ¬ Opens options r raw) ∧
        t.partiallyUnderstood = r.partiallyUnderstood) := by
  obtain ⟨read, m, hread, h⟩ := run_bind_eq_ok.mp h
  have hkept : m.partiallyUnderstood = r.partiallyUnderstood :=
    (keeps_readExact chunkHeaderSize).ok (P := Understands r.partiallyUnderstood) rfl hread
  have hshort (hincomplete : ¬ read.IsComplete) : ∀ raw, ¬ Opens options r raw := by
    rintro raw ⟨hlength, -⟩
    exact absurd hlength (Nat.not_le.mpr (readExact_eq_short hread hincomplete))
  cases read with
  | complete encoded =>
      obtain ⟨raw, _, hcheck, hbody⟩ := run_bind_eq_ok.mp h
      obtain ⟨hparse, rfl⟩ := run_check_eq_ok.mp hcheck
      obtain ⟨hlength, hinput, -, -⟩ := readExact_eq_complete hread
      refine .inl ⟨raw, ⟨by rw [hinput, List.length_append]; omega, ?_⟩, ?_⟩
      · rw [hinput, List.take_left' hlength]
        exact hparse
      · rw [readBody_understood hbody, hkept]
  | noBytes =>
      refine .inr ⟨not_continues_finish h, hshort id, ?_⟩
      exact (keeps_finish .endOfFile).ok (P := Understands _) hkept h
  | cutShort =>
      refine .inr ⟨not_continues_finish h, hshort id, ?_⟩
      exact (keeps_finish .truncated).ok (P := Understands _) hkept h

end Understood

/-! ## What was passed -/

section Runs

variable {options : TraceReaderOptions} {decompressors : Decompressors}
  {r m t : TraceReader} {reads more : List ChunkRead}

theorem Passed.append (h : Passed options decompressors r reads m)
    (hmore : Passed options decompressors m more t) :
    Passed options decompressors r (reads ++ more) t := by
  induction h with
  | nil reader => exact hmore
  | cons hopens hread hrest ih => exact .cons hopens hread (ih hmore)

theorem continues_map (chunk : Option TraceChunk) :
    Continues (chunk.map ChunkReadResult.chunk) := by
  intro status h
  cases chunk <;> cases h

/-- A step opens the one header that is there. -/
theorem opens_of_read {chunk : Option TraceChunk}
    (h : readChunk options decompressors r = .ok (chunk.map .chunk) t) :
    ∃ raw, Opens options r raw ∧
      (t.partiallyUnderstood = true ↔ r.partiallyUnderstood = true ∨ raw.New) := by
  rcases readChunk_understood h with hopens | ⟨hends, -⟩
  · exact hopens
  · exact absurd (continues_map chunk) hends

theorem Opens.unique {raw other : RawChunkHeader} (h : Opens options r raw)
    (hother : Opens options r other) : raw = other :=
  Except.ok.inj (h.2.symm.trans hother.2)

/-- The reader knows of the headers it does not understand. -/
theorem Passed.understood (h : Passed options decompressors r reads t) :
    t.partiallyUnderstood = true ↔
      r.partiallyUnderstood = true ∨ ∃ read ∈ reads, read.header.New := by
  induction h with
  | nil reader => simp
  | cons hopens hread hrest ih =>
      obtain ⟨raw, hraw, hstep⟩ := opens_of_read hread
      rw [ih, hstep, hraw.unique hopens]
      simp [or_assoc]

/-- What was passed depends on the bytes that were consumed only. -/
theorem Passed.consumes (h : Passed options decompressors r reads t) :
    ∃ used, r.input = used ++ t.input ∧ t.terminalStatus = r.terminalStatus ∧
      ∀ rest, Passed options decompressors { r with input := used ++ rest } reads
        { t with input := rest } := by
  induction h with
  | nil reader => exact ⟨[], rfl, rfl, fun rest => .nil _⟩
  | cons hopens hread hrest ih =>
      rename_i reader next last raw chunk reads
      have hgoes := continues_map chunk
      obtain ⟨used, hinput, hopen, hmore⟩ :=
        consumes_readChunk options decompressors reader _ next hread hgoes
      have hlength := readChunk_consumes options decompressors hread hgoes
      obtain ⟨used', hinput', hopen', hmore'⟩ := ih
      refine ⟨used ++ used', by rw [hinput, hinput', List.append_assoc], hopen'.trans hopen,
        fun rest => ?_⟩
      -- the header lies in what this step consumed
      have hused : chunkHeaderSize ≤ used.length := by
        rw [hinput, List.length_append] at hlength
        omega
      have hheader : Opens options { reader with input := used ++ (used' ++ rest) } raw := by
        refine ⟨?_, ?_⟩
        · show chunkHeaderSize ≤ (used ++ (used' ++ rest)).length
          rw [List.length_append]
          omega
        · show runReader _ ((used ++ (used' ++ rest)).take chunkHeaderSize) = _
          have hparse := hopens.2
          rw [hinput, List.take_append_of_le_length hused] at hparse
          rw [List.take_append_of_le_length hused]
          exact hparse
      rw [List.append_assoc]
      exact .cons hheader (hmore (used' ++ rest)) (hmore' rest)

theorem Passed.length (h : Passed options decompressors r reads t) :
    t.input.length + reads.length ≤ r.input.length := by
  induction h with
  | nil reader => exact le_refl _
  | cons hopens hread hrest ih =>
      have hlength := readChunk_consumes options decompressors hread (continues_map _)
      have hpos : 0 < chunkHeaderSize := by decide
      rw [List.length_cons]
      omega

/-- The chunks of unknown types before the one that a call of `read_next_chunk` is about. -/
def Skipped (options : TraceReaderOptions) (decompressors : Decompressors) (r : TraceReader)
    (reads : List ChunkRead) (t : TraceReader) : Prop :=
  Passed options decompressors r reads t ∧ ∀ read ∈ reads, read.chunk = none

theorem Skipped.nil (r : TraceReader) : Skipped options decompressors r [] r :=
  ⟨.nil r, fun _ h => nomatch h⟩

theorem Skipped.snoc (h : Skipped options decompressors r reads m)
    (hread : readChunk options decompressors m = .ok none t) :
    ∃ reads, Skipped options decompressors r reads t := by
  have hskip : readChunk options decompressors m =
      .ok ((none : Option TraceChunk).map .chunk) t := hread
  obtain ⟨raw, hopens, -⟩ := opens_of_read hskip
  refine ⟨reads ++ [⟨raw, none⟩], h.1.append (.cons hopens hread (.nil t)), ?_⟩
  intro read hmem
  rcases List.mem_append.mp hmem with hmem | hmem
  · exact h.2 read hmem
  · rw [List.mem_singleton.mp hmem]

theorem readRounds_eq_ok {result : ChunkReadResult}
    (h : readRounds options decompressors r = .ok result t) :
    ∃ reads m, Skipped options decompressors r reads m ∧
      readChunk options decompressors m = .ok (some result) t := by
  obtain ⟨m, ⟨reads, hskipped⟩, hread⟩ :=
    loopBy_eq_ok (I := fun m => ∃ reads, Skipped options decompressors r reads m)
      (fun _ _ h => readChunk_shrinks options decompressors h) ⟨[], Skipped.nil r⟩
      (fun _ _ ⟨_, hskipped⟩ hread => hskipped.snoc hread) h
  exact ⟨reads, m, hskipped, hread⟩

theorem readRounds_eq_error {e : Error} (h : readRounds options decompressors r = .error e t) :
    ∃ reads m, Skipped options decompressors r reads m ∧
      readChunk options decompressors m = .error e t := by
  obtain ⟨m, ⟨reads, hskipped⟩, hread⟩ :=
    loopBy_eq_error (I := fun m => ∃ reads, Skipped options decompressors r reads m)
      (fun _ _ h => readChunk_shrinks options decompressors h) ⟨[], Skipped.nil r⟩
      (fun _ _ ⟨_, hskipped⟩ hread => hskipped.snoc hread) h
  exact ⟨reads, m, hskipped, hread⟩

/-- Chunks of unknown types are passed over. -/
theorem Skipped.readRounds (h : Skipped options decompressors r reads t) :
    readRounds options decompressors r = readRounds options decompressors t := by
  obtain ⟨hpassed, hnone⟩ := h
  induction hpassed with
  | nil reader => rfl
  | cons hopens hread hrest ih =>
      rename_i reader next last raw chunk reads
      obtain rfl : chunk = none := hnone ⟨raw, chunk⟩ List.mem_cons_self
      rw [readRounds_of_none options decompressors hread]
      exact ih fun read hmem => hnone read (List.mem_cons_of_mem _ hmem)

end Runs

end Noleax.Trace
