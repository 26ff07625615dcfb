import Noleax.Analyzer.Outstanding
import Noleax.Analyzer.StreamEvents

/-!
# The end of a trace (`src/analyzer/event_stream.cpp`)

What the result of an accepted trace says of its end: no event has a greater sequence number,
or later ticks.
-/

namespace Noleax.Analyzer

open Lib Trace

/-! ## What a chunk may assume -/

/-- A property that the reading of a trace preserves, where no chunk follows the end. -/
structure Reading (P : EventStreamDecoder → Prop) : Prop where
  mark : ∀ dec issue, P dec → P (dec.mark issue)
  understood : ∀ dec, P dec →
    P { dec with readerPartialMarked := true, mayHaveUnknownEvents := true }
  truncated : ∀ dec, P dec → P { dec with truncated := true }
  accepted : ∀ dec chunk next, P dec → dec.sawEndChunk = false → Accepted dec chunk next → P next

namespace Reading

variable {P : EventStreamDecoder → Prop} (h : Reading P)
include h

theorem synchronize : Preserves (Decoding P) synchronize := by
  intro stream a next hstream hrun
  cases hrun
  show P (stream.decoder.synchronize stream.reader.partiallyUnderstood)
  unfold EventStreamDecoder.synchronize
  split
  · exact h.mark _ _ (h.understood _ hstream)
  · exact hstream

theorem round (options : TraceReaderOptions) (decompressors : Decompressors) :
    Preserves (Decoding P) (round options decompressors) := by
  refine (preserves_withReader _).bind fun result => h.synchronize.bind fun _ => ?_
  rcases result with chunk | status
  · have hchunk : Preserves P (acceptChunk chunk) := by
      intro dec _ next hdec hrun
      obtain ⟨hopen, haccepted⟩ := acceptChunk_eq_ok hrun
      exact h.accepted dec chunk next hdec hopen haccepted
    exact (preserves_withDecoder hchunk).bind fun _ => (keeps_pure _).preserves
  · cases status with
    | endOfFile => exact (keeps_pure _).preserves
    | truncated =>
        have htruncation : Preserves P acceptTruncation := by
          intro dec a next hdec hrun
          cases hrun
          exact h.mark _ _ (h.truncated _ hdec)
        exact (preserves_withDecoder htruncation).bind fun _ => (keeps_pure _).preserves

/-- The decoder that a returned result was made from. -/
theorem returned {options : EventStreamOptions} {decompressors : Decompressors} {input : Bytes}
    {trace : EventStreamResult}
    (hstart : ∀ header reader, openTrace options.readerOptions input = .ok (header, reader) →
      P (EventStreamDecoder.logged
        { maximumRecordSize := options.maximumRecordSize, fileHeader := header }
        (.fileHeader header)))
    (hok : (analyzeEventStream options decompressors input).outcome = .ok trace) :
    ∃ stream : StreamRun, P stream.decoder ∧
      (analyzeEventStream options decompressors input).log = stream.decoder.log ∧
      stream.result = .ok trace := by
  unfold analyzeEventStream at hok ⊢
  split at hok
  · cases hok
  · rename_i header reader hopen
    split at hok
    · rename_i result stream hrun
      cases hok
      obtain ⟨⟨⟩, first, hnotify, hrun⟩ := run_bind_eq_ok.mp hrun
      cases hnotify
      obtain ⟨⟨⟩, synchronized, hsynchronize, hrun⟩ := run_bind_eq_ok.mp hrun
      have hsynchronized := h.synchronize _ _ _ (hstart header reader hopen) hsynchronize
      obtain ⟨⟨⟩, last, hread, hrun⟩ := run_bind_eq_ok.mp hrun
      have hlast := preserves_loopBy (h.round _ _) _ _ _ hsynchronized hread
      obtain ⟨_, _, hget, hrun⟩ := run_bind_eq_ok.mp hrun
      obtain ⟨rfl, rfl⟩ := run_get_eq_ok.mp hget
      obtain ⟨hresult, rfl⟩ := run_check_eq_ok.mp hrun
      exact ⟨last, hlast, rfl, hresult⟩
    · cases hok

end Reading

/-- The fields of a header that was read fit their words. -/
theorem openTrace_range {options : TraceReaderOptions} {input : Bytes} {header : FileHeader}
    {reader : TraceReader} (h : openTrace options input = .ok (header, reader)) :
    header.InRange := by
  obtain ⟨⟨⟩, -, h⟩ := bind_eq_ok.mp h
  split at h
  case h_2 => cases h
  case h_1 read last hread =>
    cases h
    obtain ⟨encoded, _, -, hread⟩ := run_bind_eq_ok.mp hread
    cases encoded with
    | noBytes => cases hread
    | cutShort => cases hread
    | complete bytes =>
        obtain ⟨raw, _, hcheck, hread⟩ := run_bind_eq_ok.mp hread
        obtain ⟨hraw, rfl⟩ := run_check_eq_ok.mp hcheck
        obtain ⟨rest, hparse⟩ := runReader_eq_ok.mp hraw
        have haccepted := ((reads_fileHeader options bytes raw rest).mp hparse).1
        obtain ⟨⟨⟩, _, -, hread⟩ := run_bind_eq_ok.mp hread
        obtain ⟨whole, _, -, hread⟩ := run_bind_eq_ok.mp hread
        cases whole with
        | true =>
            cases hread
            exact haccepted.range
        | false => cases hread

/-! ## The ends that are known -/

/-- What the decoder knows of the end. -/
structure Ends where
  sequence : ℕ
  ticks : ℕ
  endOfTrace : Option EndOfTrace
  closed : Bool

def EventStreamDecoder.ends (dec : EventStreamDecoder) : Ends where
  sequence := dec.knownSequenceEnd
  ticks := dec.knownMonotonicEnd
  endOfTrace := dec.endOfTrace
  closed := dec.sawEndChunk

/-- No event is after the known end, which is not after the end record, if there is one. -/
structure Ends.Bounding (origin : ℕ) (events : List Event) (ends : Ends) : Prop where
  sequence : ∀ event ∈ events, 0 < event.header.sequence ∧ event.header.sequence ≤ ends.sequence
  ticks : ∀ event ∈ events, event.header.monotonicTicks ≤ ends.ticks
  ended : ∀ last ∈ ends.endOfTrace, ends.closed = true ∧ origin ≤ last.finalMonotonicTicks ∧
    ends.sequence ≤ last.finalSequence ∧ ends.ticks ≤ last.finalMonotonicTicks

section Scan

/-- The events of a scan lie within its bounds. -/
def EventScan.Bounded (scan : EventScan) : Prop :=
  ∀ event ∈ loggedEvents (scan.records.map recordCallback),
    (0 < event.header.sequence ∧ event.header.sequence ≤ scan.bounds.sequenceEnd) ∧
      event.header.monotonicTicks ≤ scan.bounds.maximumTicks

variable {origin : ℕ} {scan next : EventScan} {record : RecordView}

theorem EventScan.Bounded.step (h : scan.Bounded) (hstep : scan.step origin record = .ok next) :
    next.Bounded := by
  obtain ⟨decoded, hdecode, hstep⟩ := bind_eq_ok.mp hstep
  rcases decoded with _ | ⟨event | loss⟩
  · cases hstep
    exact h
  · obtain ⟨⟨-, hvalid⟩, -⟩ := (decodes_eventChunkRecord record (.event event)).mp hdecode
    obtain ⟨⟨⟩, hheader, -⟩ := bind_eq_ok.mp hvalid
    have hpositive := Nat.pos_of_ne_zero (validateHeader_eq_ok.mp hheader).1
    dsimp only at hstep
    unfold EventScan.event at hstep
    simp only [failIf_bind_eq_ok] at hstep
    obtain ⟨-, -, -, hstep⟩ := hstep
    cases hstep
    intro other hother
    rw [List.map_append, loggedEvents_append, List.mem_append] at hother
    rcases hother with hold | hnew
    · obtain ⟨⟨hzero, hsequence⟩, hticks⟩ := h other hold
      exact ⟨⟨hzero, hsequence.trans (Nat.le_max_left _ _)⟩, hticks.trans (Nat.le_max_left _ _)⟩
    · obtain rfl := List.mem_singleton.mp hnew
      exact ⟨⟨hpositive, Nat.le_max_right _ _⟩, Nat.le_max_right _ _⟩
  · have hkept : next.records = scan.records ++ [.loss loss] ∧
        scan.bounds.sequenceEnd ≤ next.bounds.sequenceEnd ∧
        scan.bounds.maximumTicks ≤ next.bounds.maximumTicks := by
      dsimp only at hstep
      unfold EventScan.loss at hstep
      cases hrange : loss.sequenceRange <;> cases hticks : loss.tickRange <;>
        rw [hrange, hticks] at hstep <;> dsimp only at hstep
      · cases hstep
        exact ⟨rfl, Nat.le_refl _, Nat.le_refl _⟩
      · obtain ⟨-, hstep⟩ := failIf_bind_eq_ok.mp hstep
        cases hstep
        exact ⟨rfl, Nat.le_refl _, Nat.le_max_left _ _⟩
      · cases hstep
        exact ⟨rfl, Nat.le_max_left _ _, Nat.le_refl _⟩
      · obtain ⟨-, hstep⟩ := failIf_bind_eq_ok.mp hstep
        cases hstep
        exact ⟨rfl, Nat.le_max_left _ _, Nat.le_max_left _ _⟩
    intro other hother
    rw [hkept.1, List.map_append, loggedEvents_append, List.mem_append] at hother
    rcases hother with hold | hnew
    · obtain ⟨⟨hzero, hsequence⟩, hticks⟩ := h other hold
      exact ⟨⟨hzero, hsequence.trans hkept.2.1⟩, hticks.trans hkept.2.2⟩
    · cases hnew

theorem scanEvents_bounded {dec : EventStreamDecoder} {payload : Bytes}
    (hscan : scanEvents dec payload = .ok scan) : scan.Bounded := by
  obtain ⟨-, records, -, hrun⟩ := forRecords_eq_ok.mp hscan
  refine foldlM_inv (fun _ _ _ hbounded hstep => hbounded.step hstep) ?_ hrun
  exact List.forall_mem_nil _

end Scan

namespace EventStreamDecoder

variable {dec next : EventStreamDecoder} {descriptor : ChunkDescriptor} {payload : Bytes}

theorem ends_mark (dec : EventStreamDecoder) (issue : CompletenessIssue) :
    (dec.mark issue).ends = dec.ends := by
  rw [dec.mark_eq]
  rfl

theorem ends_markIf (dec : EventStreamDecoder) (p : Bool) (issue : CompletenessIssue) :
    (dec.markIf p issue).ends = dec.ends := by
  unfold markIf
  cases p with
  | true => exact dec.ends_mark issue
  | false => rfl

theorem ends_afterMetadata (scan : MetadataScan) : (dec.afterMetadata scan).ends = dec.ends := by
  unfold afterMetadata
  dsimp only
  rw [foldl_leaves (F := ends) (g := afterCustomHookFailure) (fun s _ => s.ends_mark _),
    foldl_leaves (F := ends) (g := afterCustomHook) (fun _ _ => rfl), ends_markIf]
  cases scan.scope <;> rfl

theorem ends_afterModules (scan : RecordScan ModuleRecord) (table : ModuleTable) :
    (dec.afterModules scan table).ends =
      { dec.ends with ticks := max dec.knownMonotonicEnd table.previousTicks } := by
  unfold afterModules
  rw [foldl_leaves (F := ends) (g := afterModule) (fun s record => by cases record <;> rfl),
    ends_markIf]
  rfl

theorem ends_afterStacks (scan : StackScan) : (dec.afterStacks scan).ends = dec.ends := by
  unfold afterStacks
  rw [foldl_leaves (F := ends) (g := afterStack) (fun _ _ => rfl), ends_markIf]

theorem ends_afterEvents (scan : EventScan) : (dec.afterEvents scan).ends =
    { dec.ends with
      sequence := max dec.knownSequenceEnd scan.bounds.sequenceEnd
      ticks := max dec.knownMonotonicEnd scan.bounds.maximumTicks } := by
  unfold afterEvents
  rw [foldl_leaves (F := ends) (g := afterEventRecord) (fun s record => by cases record <;> rfl)]
  cases scan.skippedUnknown with
  | true =>
      have hsame : dec.unknownEvents.ends = dec.ends := ends_mark _ _
      show Ends.mk (max dec.unknownEvents.ends.sequence _) (max dec.unknownEvents.ends.ticks _)
        dec.unknownEvents.ends.endOfTrace dec.unknownEvents.ends.closed = _
      rw [hsame]
      rfl
  | false => rfl

theorem ends_afterMemory (scan : MemoryScan) : (dec.afterMemory scan).ends = dec.ends := by
  unfold afterMemory
  rw [foldl_leaves (F := ends) (g := afterDelivery) (fun _ _ => rfl)]
  exact dec.ends_markIf _ _

/-- The events that were delivered lie within the known ends. -/
def Bounded (dec : EventStreamDecoder) : Prop :=
  dec.ends.Bounding dec.fileHeader.monotonicOrigin (loggedEvents dec.delivery.log)

end EventStreamDecoder

/-- Later ends still bound, where no end record was read. -/
theorem Ends.Bounding.extend {origin : ℕ} {events : List Event} {ends : Ends}
    (h : ends.Bounding origin events) (later : Ends) (hopen : ends.closed = false)
    (hsequence : ends.sequence ≤ later.sequence) (hticks : ends.ticks ≤ later.ticks)
    (hsame : later.endOfTrace = ends.endOfTrace) : later.Bounding origin events := by
  refine ⟨?_, ?_, ?_⟩
  · intro event hevent
    exact ⟨(h.sequence event hevent).1, (h.sequence event hevent).2.trans hsequence⟩
  · exact fun event hevent => (h.ticks event hevent).trans hticks
  · intro last hlast
    rw [hsame] at hlast
    rw [(h.ended last hlast).1] at hopen
    cases hopen

namespace EventStreamDecoder

variable {dec next : EventStreamDecoder} {descriptor : ChunkDescriptor} {payload : Bytes}

theorem Bounded.handled {type : ChunkType} (h : dec.Bounded) (hopen : dec.sawEndChunk = false)
    (hhandled : Handled dec descriptor payload type next) : next.Bounded := by
  have hheader : next.fileHeader = dec.fileHeader := congrArg StreamFrame.fileHeader hhandled.frame
  unfold Bounded
  rw [hheader]
  cases hhandled with
  | metadata hscan =>
      rw [ends_afterMetadata, delivery_afterMetadata]
      show dec.ends.Bounding _ (loggedEvents (dec.log ++ _))
      rw [loggedEvents_append, loggedEvents_plain (metadataCallbacks_plain _), List.append_nil]
      exact h
  | modules hscoped hscan htable =>
      rw [ends_afterModules, delivery_afterModules]
      show Ends.Bounding _ (loggedEvents (dec.log ++ _)) _
      rw [loggedEvents_append,
        loggedEvents_plain (plain_map (fun record => by cases record <;> trivial) _),
        List.append_nil]
      exact h.extend _ hopen (Nat.le_refl _) (Nat.le_max_left _ _) rfl
  | definitions hscoped hscan =>
      rw [ends_afterStacks, delivery_afterStacks]
      show dec.ends.Bounding _ (loggedEvents (dec.log ++ _))
      rw [loggedEvents_append,
        loggedEvents_plain (plain_map (c := .stackDefinition) (fun _ => trivial) _),
        List.append_nil]
      exact h
  | @events scan hallowed hscan hrange =>
      rw [ends_afterEvents, delivery_afterEvents]
      show Ends.Bounding _ (loggedEvents (dec.log ++ _)) _
      rw [loggedEvents_append]
      have hold := h.extend { dec.ends with
        sequence := max dec.knownSequenceEnd scan.bounds.sequenceEnd
        ticks := max dec.knownMonotonicEnd scan.bounds.maximumTicks } hopen
          (Nat.le_max_left _ _) (Nat.le_max_left _ _) rfl
      have hnew := scanEvents_bounded hscan
      refine ⟨?_, ?_, hold.ended⟩
      · intro event hevent
        rcases List.mem_append.mp hevent with hevent | hevent
        · exact hold.sequence event hevent
        · exact ⟨(hnew event hevent).1.1, (hnew event hevent).1.2.trans (Nat.le_max_right _ _)⟩
      · intro event hevent
        rcases List.mem_append.mp hevent with hevent | hevent
        · exact hold.ticks event hevent
        · exact (hnew event hevent).2.trans (Nat.le_max_right _ _)
  | memory hscoped hscan =>
      rw [ends_afterMemory, delivery_afterMemory]
      show dec.ends.Bounding _ (loggedEvents (dec.log ++ _))
      rw [loggedEvents_append, loggedEvents_deliveries, List.append_nil]
      exact h
  | noStatistics hscoped hscan hvalue =>
      rw [ends_markIf, delivery_markIf]
      exact h
  | @statistics scan value hscoped hscan hvalue hmatch =>
      show Ends.Bounding _ (loggedEvents (Delivery.append (markIf _ _ _).delivery _).log)
        (markIf _ _ _).ends
      rw [ends_markIf, delivery_markIf]
      show dec.ends.Bounding _ (loggedEvents (dec.log ++ [.statistics value]))
      rw [loggedEvents_append]
      exact (List.append_nil (loggedEvents dec.log)).symm ▸ h
  | noEndOfTrace hscoped hscan hvalue =>
      show Ends.Bounding _ (loggedEvents (markIf _ _ _).delivery.log)
        { (markIf _ _ _).ends with closed := true }
      rw [ends_markIf, delivery_markIf]
      exact h.extend _ hopen (Nat.le_refl _) (Nat.le_refl _) rfl
  | @endOfTrace scan trace hscoped hscan hvalue hvalid hbounds =>
      show Ends.Bounding _ (loggedEvents (Delivery.append (markIf _ _ _).delivery _).log)
        { (markIf _ _ _).ends with endOfTrace := some trace, closed := true }
      have hends := ends_markIf dec scan.skippedUnknown .unknownRecordSkipped
      have hframe := frame_markIf dec scan.skippedUnknown .unknownRecordSkipped
      obtain ⟨horigin, hlater⟩ := failIf_bind_eq_ok.mp hbounds
      have hlater := failIf_eq_ok.mp hlater
      rw [hends, delivery_markIf]
      show Ends.Bounding _ (loggedEvents (dec.log ++ [.endOfTrace trace])) _
      rw [loggedEvents_append]
      show Ends.Bounding _ (loggedEvents dec.log ++ []) _
      rw [List.append_nil]
      refine ⟨h.sequence, h.ticks, ?_⟩
      intro last hlast
      obtain rfl := Option.some.inj hlast
      have hheader : (dec.markIf scan.skippedUnknown .unknownRecordSkipped).fileHeader =
          dec.fileHeader := congrArg StreamFrame.fileHeader hframe
      have hsequence : (dec.markIf scan.skippedUnknown .unknownRecordSkipped).knownSequenceEnd =
          dec.ends.sequence := congrArg Ends.sequence hends
      have hticks : (dec.markIf scan.skippedUnknown .unknownRecordSkipped).knownMonotonicEnd =
          dec.ends.ticks := congrArg Ends.ticks hends
      rw [hheader] at horigin
      rw [hsequence, hticks] at hlater
      refine ⟨rfl, Nat.not_lt.mp horigin, ?_, ?_⟩
      · exact Nat.not_lt.mp fun hlt => hlater (.inl hlt)
      · exact Nat.not_lt.mp fun hlt => hlater (.inr hlt)

theorem ends_afterFuture (dec : EventStreamDecoder) (descriptor : ChunkDescriptor) :
    (dec.afterFuture descriptor).ends.sequence ≥ dec.ends.sequence ∧
    (dec.afterFuture descriptor).ends.ticks = dec.ends.ticks ∧
    (dec.afterFuture descriptor).ends.endOfTrace = dec.ends.endOfTrace := by
  unfold afterFuture
  dsimp only
  split
  · have hsame : (dec.mark .partiallyUnderstoodFormat).unknownEvents.ends = dec.ends :=
      (ends_mark _ _).trans (ends_mark _ _)
    rw [← hsame]
    exact ⟨Nat.le_max_left _ _, rfl, rfl⟩
  · have hsame : ((dec.mark .partiallyUnderstoodFormat).mark .unknownRecordSkipped).ends =
        dec.ends := (ends_mark _ _).trans (ends_mark _ _)
    rw [← hsame]
    exact ⟨Nat.le_refl _, rfl, rfl⟩

theorem bounded_markIf (p : Bool) (issue : CompletenessIssue) (h : dec.Bounded) :
    (dec.markIf p issue).Bounded := by
  have hheader : (dec.markIf p issue).fileHeader = dec.fileHeader :=
    congrArg StreamFrame.fileHeader (dec.frame_markIf p issue)
  unfold Bounded
  rw [hheader, ends_markIf, delivery_markIf]
  exact h

theorem Bounded.accepted {chunk : TraceChunk} (h : dec.Bounded) (hopen : dec.sawEndChunk = false)
    (haccepted : Accepted dec chunk next) : next.Bounded := by
  have hmarked := bounded_markIf (chunk.header.descriptor.flags ≠ 0) .partiallyUnderstoodFormat h
  have hclosed : (dec.markIf (chunk.header.descriptor.flags ≠ 0)
      .partiallyUnderstoodFormat).sawEndChunk = false :=
    (congrArg Ends.closed (dec.ends_markIf _ _)).trans hopen
  cases haccepted with
  | future hversion hevents =>
      obtain ⟨hsequence, hticks, hsame⟩ := ends_afterFuture
        (dec.markIf (chunk.header.descriptor.flags ≠ 0) .partiallyUnderstoodFormat)
        chunk.header.descriptor
      have hextended := hmarked.extend _ hclosed hsequence (Nat.le_of_eq hticks.symm) hsame
      have hheader := congrArg StreamFrame.fileHeader (frame_afterFuture
        (dec.markIf (chunk.header.descriptor.flags ≠ 0) .partiallyUnderstoodFormat)
        chunk.header.descriptor)
      unfold Bounded
      rw [delivery_afterFuture]
      rw [show fileHeader _ = _ from hheader]
      exact hextended
  | known hversion hevents hhandled => exact hmarked.handled hclosed hhandled

theorem bounded_reading : Reading Bounded where
  mark := by
    intro dec issue h
    have hheader : (dec.mark issue).fileHeader = dec.fileHeader :=
      congrArg StreamFrame.fileHeader (dec.frame_mark issue)
    unfold Bounded
    rw [hheader, ends_mark, delivery_mark]
    exact h
  understood := fun _ h => h
  truncated := fun _ h => h
  accepted := fun _ _ _ h hopen haccepted => h.accepted hopen haccepted

end EventStreamDecoder

/-! ## Whole traces -/

section Analysis

variable {options : EventStreamOptions} {decompressors : Decompressors} {input : Bytes}
  {trace : EventStreamResult}

/-- What the result says of the end bounds the events. -/
structure EndsAfter (trace : EventStreamResult) (events : List Event) : Prop where
  frequency : IsWord 8 trace.fileHeader.monotonicFrequency
  origin : trace.fileHeader.monotonicOrigin ≤ trace.traceEnd.ticks
  ticks : ∀ event ∈ events, event.header.monotonicTicks ≤ trace.traceEnd.ticks
  sequence : ∀ event ∈ events, ∃ last ∈ trace.traceEnd.sequence, event.header.sequence ≤ last

theorem frequency_reading : Reading fun dec => IsWord 8 dec.fileHeader.monotonicFrequency where
  mark := by
    intro dec issue h
    have hheader : (dec.mark issue).fileHeader = dec.fileHeader :=
      congrArg StreamFrame.fileHeader (dec.frame_mark issue)
    show IsWord 8 (dec.mark issue).fileHeader.monotonicFrequency
    rw [hheader]
    exact h
  understood := fun _ h => h
  truncated := fun _ h => h
  accepted := by
    intro dec chunk next h _ haccepted
    have hheader : next.fileHeader = dec.fileHeader :=
      congrArg StreamFrame.fileHeader haccepted.frame
    show IsWord 8 next.fileHeader.monotonicFrequency
    rw [hheader]
    exact h

theorem Reading.and {P Q : EventStreamDecoder → Prop} (h : Reading P) (h' : Reading Q) :
    Reading fun dec => P dec ∧ Q dec where
  mark := fun dec issue hdec => ⟨h.mark dec issue hdec.1, h'.mark dec issue hdec.2⟩
  understood := fun dec hdec => ⟨h.understood dec hdec.1, h'.understood dec hdec.2⟩
  truncated := fun dec hdec => ⟨h.truncated dec hdec.1, h'.truncated dec hdec.2⟩
  accepted := fun dec chunk next hdec hopen haccepted =>
    ⟨h.accepted dec chunk next hdec.1 hopen haccepted,
      h'.accepted dec chunk next hdec.2 hopen haccepted⟩

/-- The events of an accepted trace lie within its end. -/
theorem accepted_ends
    (haccepted : (analyzeEventStream options decompressors input).outcome = .ok trace) :
    EndsAfter trace (loggedEvents (analyzeEventStream options decompressors input).log) := by
  obtain ⟨stream, ⟨hbounded, hword⟩, hlog, hresult⟩ :=
    (EventStreamDecoder.bounded_reading.and frequency_reading).returned
      (fun header reader hopen => ⟨⟨List.forall_mem_nil _, List.forall_mem_nil _,
        fun last hlast => by cases hlast⟩, (openTrace_range hopen).2.2.2.1⟩) haccepted
  unfold StreamRun.result at hresult
  dsimp only at hresult
  split at hresult
  case h_2 => cases hresult
  case h_1 scope tracker hscope htracker =>
    cases hresult
    rw [hlog]
    obtain ⟨hsequence, hticks, hended⟩ := hbounded
    cases hend : stream.decoder.endOfTrace with
    | none =>
        refine ⟨hword, ?_, ?_, ?_⟩
        · simp only [EventStreamResult.traceEnd]
          exact Nat.le_max_right _ _
        · intro event hevent
          simp only [EventStreamResult.traceEnd]
          exact (hticks event hevent).trans (Nat.le_max_left _ _)
        · intro event hevent
          obtain ⟨hpositive, hle⟩ := hsequence event hevent
          have hle : event.header.sequence ≤ stream.decoder.knownSequenceEnd := hle
          simp only [EventStreamResult.traceEnd]
          rw [if_pos (by omega)]
          exact ⟨_, rfl, hle⟩
    | some last =>
        obtain ⟨-, horigin, hlast, hlastTicks⟩ := hended last hend
        refine ⟨hword, ?_, ?_, ?_⟩
        · simp only [EventStreamResult.traceEnd]
          exact horigin
        · intro event hevent
          simp only [EventStreamResult.traceEnd]
          exact (hticks event hevent).trans hlastTicks
        · intro event hevent
          obtain ⟨hpositive, hle⟩ := hsequence event hevent
          have hle : event.header.sequence ≤ last.finalSequence := hle.trans hlast
          simp only [EventStreamResult.traceEnd]
          rw [if_pos (by omega)]
          exact ⟨_, rfl, hle⟩

end Analysis

end Noleax.Analyzer
