import Noleax.Analyzer.StreamSteps

/-!
# Invariants of a whole trace (`src/analyzer/event_stream.cpp`)

What every accepted chunk and every mark preserves holds when `analyze_event_stream` returns.
-/

namespace Noleax.Analyzer

open Lib Trace

/-- A property of the decoder that the reading of a trace preserves. -/
structure StreamInvariant (P : EventStreamDecoder → Prop) : Prop where
  mark : ∀ dec issue, P dec → P (dec.mark issue)
  understood : ∀ dec, P dec →
    P { dec with readerPartialMarked := true, mayHaveUnknownEvents := true }
  truncated : ∀ dec, P dec → P { dec with truncated := true }
  accepted : ∀ dec chunk next, P dec → Accepted dec chunk next → P next

section Runs

variable {P : EventStreamDecoder → Prop} {α : Type}

/-- The property of the decoder, of a stream. -/
abbrev Decoding (P : EventStreamDecoder → Prop) (stream : StreamRun) : Prop := P stream.decoder

theorem preserves_withReader (x : ReaderM α) : Preserves (Decoding P) (withReader x) := by
  intro stream a next hstream hrun
  unfold withReader at hrun
  split at hrun
  · cases hrun
    exact hstream
  · cases hrun

theorem preserves_withDecoder {x : DecoderM α} (h : Preserves P x) :
    Preserves (Decoding P) (withDecoder x) := by
  intro stream a next hstream hrun
  unfold withDecoder at hrun
  split at hrun
  · rename_i hdecoder
    cases hrun
    exact h _ _ _ hstream hdecoder
  · cases hrun

/-- A header that was read is valid. -/
theorem openTrace_valid {options : TraceReaderOptions} {input : Bytes} {header : FileHeader}
    {reader : TraceReader} (h : openTrace options input = .ok (header, reader)) :
    validateFileHeader header = .ok () := by
  obtain ⟨⟨⟩, -, h⟩ := bind_eq_ok.mp h
  split at h
  case h_2 => cases h
  case h_1 read last hread =>
    cases h
    obtain ⟨encoded, _, -, hread⟩ := run_bind_eq_ok.mp hread
    cases encoded with
    | noBytes => cases hread
    | cutShort => cases hread
    | complete bytes =>
        obtain ⟨raw, _, hcheck, hread⟩ := run_bind_eq_ok.mp hread
        obtain ⟨hraw, rfl⟩ := run_check_eq_ok.mp hcheck
        obtain ⟨rest, hparse⟩ := runReader_eq_ok.mp hraw
        have haccepted := ((reads_fileHeader options bytes raw rest).mp hparse).1
        obtain ⟨⟨⟩, _, -, hread⟩ := run_bind_eq_ok.mp hread
        obtain ⟨whole, _, -, hread⟩ := run_bind_eq_ok.mp hread
        cases whole with
        | true =>
            cases hread
            exact haccepted.valid
        | false => cases hread

namespace StreamInvariant

variable (h : StreamInvariant P)
include h

theorem synchronize : Preserves (Decoding P) synchronize := by
  intro stream a next hstream hrun
  cases hrun
  show P (stream.decoder.synchronize stream.reader.partiallyUnderstood)
  unfold EventStreamDecoder.synchronize
  split
  · exact h.mark _ _ (h.understood _ hstream)
  · exact hstream

theorem acceptTruncation : Preserves P acceptTruncation := by
  intro dec a next hdec hrun
  cases hrun
  exact h.mark _ _ (h.truncated _ hdec)

theorem acceptChunk (chunk : TraceChunk) : Preserves P (acceptChunk chunk) :=
  fun dec _ next hdec hrun => h.accepted dec chunk next hdec (acceptChunk_eq_ok hrun).2

theorem round (options : TraceReaderOptions) (decompressors : Decompressors) :
    Preserves (Decoding P) (round options decompressors) := by
  refine (preserves_withReader _).bind fun result => h.synchronize.bind fun _ => ?_
  rcases result with chunk | status
  · exact (preserves_withDecoder (h.acceptChunk chunk)).bind fun _ => (keeps_pure _).preserves
  · cases status with
    | endOfFile => exact (keeps_pure _).preserves
    | truncated =>
        exact (preserves_withDecoder h.acceptTruncation).bind fun _ => (keeps_pure _).preserves

/-- What a returned analysis was made of. -/
theorem analysis {options : EventStreamOptions} {decompressors : Decompressors} {input : Bytes}
    {trace : EventStreamResult}
    (hstart : ∀ header, validateFileHeader header = .ok () → P (EventStreamDecoder.logged
      { maximumRecordSize := options.maximumRecordSize, fileHeader := header }
      (.fileHeader header)))
    (hok : (analyzeEventStream options decompressors input).outcome = .ok trace) :
    ∃ dec, P dec ∧ (analyzeEventStream options decompressors input).log = dec.log ∧
      trace.fileHeader = dec.fileHeader := by
  unfold analyzeEventStream at hok ⊢
  split at hok
  · cases hok
  · rename_i header reader hopen
    split at hok
    · rename_i result stream hrun
      cases hok
      obtain ⟨⟨⟩, first, hnotify, hrun⟩ := run_bind_eq_ok.mp hrun
      cases hnotify
      obtain ⟨⟨⟩, synchronized, hsynchronize, hrun⟩ := run_bind_eq_ok.mp hrun
      have hsynchronized := h.synchronize _ _ _ (hstart header (openTrace_valid hopen)) hsynchronize
      obtain ⟨⟨⟩, last, hread, hrun⟩ := run_bind_eq_ok.mp hrun
      have hlast := preserves_loopBy (h.round _ _) _ _ _ hsynchronized hread
      obtain ⟨_, _, hget, hrun⟩ := run_bind_eq_ok.mp hrun
      obtain ⟨rfl, rfl⟩ := run_get_eq_ok.mp hget
      obtain ⟨hresult, rfl⟩ := run_check_eq_ok.mp hrun
      refine ⟨last.decoder, hlast, rfl, ?_⟩
      unfold StreamRun.result at hresult
      dsimp only at hresult
      split at hresult
      · cases hresult
        rfl
      · cases hresult
    · cases hok

end StreamInvariant

end Runs

end Noleax.Analyzer
