import Noleax.Analyzer.Delivered

/-!
# The events of a trace (`src/analyzer/event_stream.cpp`)

The log of an accepted trace starts with its file header, and has no other; no event is before
the origin; and there are no more events than sequence numbers.
-/

namespace Noleax.Analyzer

open Lib Trace

def Callback.toEvent : Callback → Option Event
  | .event value => some value
  | _ => none

/-- The events of a log. -/
def loggedEvents (log : List Callback) : List Event := log.filterMap Callback.toEvent

theorem loggedEvents_append (log more : List Callback) :
    loggedEvents (log ++ more) = loggedEvents log ++ loggedEvents more :=
  List.filterMap_append

/-- Events that were checked against an origin and an order. -/
structure Numbered (origin : ℕ) (order : EventOrder) (events : List Event) : Prop where
  count : events.length ≤ order.previousSequence
  word : order.previousSequence ≤ maxU64
  first : order.sawEvent = false → order.previousSequence = 0
  since : ∀ event ∈ events, origin ≤ event.header.monotonicTicks

namespace Numbered

variable {origin : ℕ} {order : EventOrder} {events : List Event}

theorem snoc (h : Numbered origin order events) {event : Event}
    (hsince : origin ≤ event.header.monotonicTicks) (hnonzero : event.header.sequence ≠ 0)
    (hword : IsWord 8 event.header.sequence)
    (hlater : order.sawEvent = true → order.previousSequence < event.header.sequence) :
    Numbered origin ⟨true, event.header.sequence, event.header.monotonicTicks⟩
      (events ++ [event]) where
  count := by
    have hcount := h.count
    have hfirst := h.first
    show (events ++ [event]).length ≤ event.header.sequence
    rw [List.length_append, List.length_singleton]
    cases hsaw : order.sawEvent with
    | true => exact Nat.lt_of_le_of_lt hcount (hlater hsaw)
    | false =>
        rw [hfirst hsaw] at hcount
        omega
  word := Nat.le_sub_one_of_lt hword
  first := fun hsaw => nomatch hsaw
  since := by
    intro other hother
    rcases List.mem_append.mp hother with hold | hnew
    · exact h.since other hold
    · rw [List.mem_singleton.mp hnew]
      exact hsince

/-- The scan of an event chunk after `before`. -/
abbrev Scanned (origin : ℕ) (before : List Event) (scan : EventScan) : Prop :=
  Numbered origin scan.order (before ++ loggedEvents (scan.records.map recordCallback))

theorem scanned_step {before : List Event} {scan next : EventScan} {record : RecordView}
    (h : Scanned origin before scan) (hstep : scan.step origin record = .ok next) :
    Scanned origin before next := by
  obtain ⟨decoded, hdecode, hstep⟩ := bind_eq_ok.mp hstep
  rcases decoded with _ | ⟨event | loss⟩
  · cases hstep
    exact h
  · obtain ⟨⟨hrange, hvalid⟩, -⟩ := (decodes_eventChunkRecord record (.event event)).mp hdecode
    dsimp only at hstep
    unfold EventScan.event at hstep
    simp only [failIf_bind_eq_ok] at hstep
    obtain ⟨hsince, hsequence, -, hstep⟩ := hstep
    cases hstep
    obtain ⟨⟨⟩, hheader, -⟩ := bind_eq_ok.mp hvalid
    show Numbered origin _ (before ++ loggedEvents ((scan.records ++ [EventChunkRecord.event event]).map _))
    rw [List.map_append, loggedEvents_append, ← List.append_assoc]
    refine h.snoc (Nat.not_lt.mp hsince) (validateHeader_eq_ok.mp hheader).1 hrange.1.1 ?_
    intro hsaw
    exact Nat.not_le.mp fun hle => hsequence ⟨hsaw, hle⟩
  · have hkept : next.order = scan.order ∧ next.records = scan.records ++ [.loss loss] := by
      dsimp only at hstep
      unfold EventScan.loss at hstep
      dsimp only at hstep
      split at hstep
      · obtain ⟨-, hstep⟩ := failIf_bind_eq_ok.mp hstep
        cases hstep
        exact ⟨rfl, rfl⟩
      · cases hstep
        exact ⟨rfl, rfl⟩
    show Numbered origin next.order (before ++ loggedEvents (next.records.map _))
    rw [hkept.1, hkept.2, List.map_append, loggedEvents_append]
    show Numbered origin scan.order (before ++ (loggedEvents _ ++ []))
    rw [List.append_nil]
    exact h

end Numbered

theorem scanEvents_numbered {dec : EventStreamDecoder} {payload : Bytes} {scan : EventScan}
    {before : List Event} (hscan : scanEvents dec payload = .ok scan)
    (h : Numbered dec.fileHeader.monotonicOrigin dec.order before) :
    Numbered.Scanned dec.fileHeader.monotonicOrigin before scan := by
  obtain ⟨-, records, -, hrun⟩ := forRecords_eq_ok.mp hscan
  refine foldlM_inv (fun scan record next hscanned hstep => hscanned.scanned_step hstep) ?_ hrun
  show Numbered _ dec.order (before ++ [])
  rw [List.append_nil]
  exact h

/-! ## The whole trace -/

/-- A log that starts with the header, and has no other. -/
def BeginsWith (header : FileHeader) (log : List Callback) : Prop :=
  ∃ rest, log = .fileHeader header :: rest ∧ ∀ callback ∈ rest, ∀ other, callback ≠ .fileHeader other

theorem BeginsWith.append {header : FileHeader} {log more : List Callback}
    (h : BeginsWith header log) (hmore : ∀ callback ∈ more, ∀ other, callback ≠ .fileHeader other) :
    BeginsWith header (log ++ more) := by
  obtain ⟨rest, rfl, hrest⟩ := h
  refine ⟨rest ++ more, rfl, ?_⟩
  intro callback hcallback
  rcases List.mem_append.mp hcallback with hold | hnew
  · exact hrest callback hold
  · exact hmore callback hnew

/-- What the log says of the events. -/
structure EventStreamDecoder.Eventful (dec : EventStreamDecoder) : Prop where
  header : validateFileHeader dec.fileHeader = .ok ()
  begins : BeginsWith dec.fileHeader dec.delivery.log
  numbered : Numbered dec.fileHeader.monotonicOrigin dec.delivery.order
    (loggedEvents dec.delivery.log)

namespace EventStreamDecoder

variable {dec next : EventStreamDecoder}

theorem loggedEvents_plain {more : List Callback} (h : ∀ callback ∈ more, callback.Plain) :
    loggedEvents more = [] := by
  refine List.filterMap_eq_nil_iff.mpr ?_
  intro callback hcallback
  have hplain := h callback hcallback
  cases callback <;> first | rfl | exact False.elim hplain

/-- The callbacks of a memory chunk. -/
theorem delivery_cases {scan : MemoryScan} {callback : Callback}
    (h : callback ∈ scan.deliveries.map Prod.snd) :
    (∃ counters, callback = .memoryCounters counters) ∨ (∃ map, callback = .memoryMap map) ∨
      ∃ memory, callback = .agentMemory memory := by
  unfold MemoryScan.deliveries at h
  simp only [List.map_append, List.map_map, List.mem_append, List.mem_map,
    Function.comp_apply] at h
  obtain (⟨counters, -, rfl⟩ | ⟨map, -, rfl⟩) | ⟨memory, -, rfl⟩ := h
  · exact .inl ⟨counters, rfl⟩
  · exact .inr (.inl ⟨map, rfl⟩)
  · exact .inr (.inr ⟨memory, rfl⟩)

theorem loggedEvents_deliveries (scan : MemoryScan) :
    loggedEvents (scan.deliveries.map Prod.snd) = [] := by
  refine List.filterMap_eq_nil_iff.mpr ?_
  intro callback hcallback
  obtain ⟨_, rfl⟩ | ⟨_, rfl⟩ | ⟨_, rfl⟩ := delivery_cases hcallback <;> rfl

theorem Eventful.accepted {chunk : TraceChunk} (h : dec.Eventful)
    (haccepted : Accepted dec chunk next) : next.Eventful := by
  have hheader : next.fileHeader = dec.fileHeader := congrArg StreamFrame.fileHeader haccepted.frame
  have hdelivered := delivered_of_accepted haccepted
  suffices hnext : BeginsWith dec.fileHeader next.delivery.log ∧
      Numbered dec.fileHeader.monotonicOrigin next.delivery.order
        (loggedEvents next.delivery.log) by
    refine ⟨?_, ?_, ?_⟩
    · rw [hheader]
      exact h.header
    · rw [hheader]
      exact hnext.1
    · rw [hheader]
      exact hnext.2
  generalize next.delivery = delivery at hdelivered
  cases hdelivered with
  | @plain more hplain =>
      refine ⟨h.begins.append ?_, ?_⟩
      · rintro callback hcallback other rfl
        exact hplain _ hcallback
      · show Numbered _ dec.order (loggedEvents (dec.log ++ more))
        rw [loggedEvents_append, loggedEvents_plain hplain, List.append_nil]
        exact h.numbered
  | @events scan hscan =>
      refine ⟨h.begins.append ?_, ?_⟩
      · rintro callback hcallback other rfl
        obtain ⟨record, -, hrecord⟩ := List.mem_map.mp hcallback
        cases record <;> cases hrecord
      · show Numbered _ scan.order (loggedEvents (dec.log ++ _))
        rw [loggedEvents_append]
        exact scanEvents_numbered hscan h.numbered
  | @memory scan hscan =>
      refine ⟨h.begins.append ?_, ?_⟩
      · rintro callback hcallback other rfl
        obtain ⟨_, heq⟩ | ⟨_, heq⟩ | ⟨_, heq⟩ := delivery_cases hcallback <;> cases heq
      · show Numbered _ dec.order (loggedEvents (dec.log ++ _))
        rw [loggedEvents_append, loggedEvents_deliveries, List.append_nil]
        exact h.numbered

theorem eventful_invariant : StreamInvariant Eventful where
  mark := by
    intro dec issue h
    have hheader : (dec.mark issue).fileHeader = dec.fileHeader :=
      congrArg StreamFrame.fileHeader (dec.frame_mark issue)
    refine ⟨?_, ?_, ?_⟩
    · rw [hheader]
      exact h.header
    · rw [hheader, delivery_mark]
      exact h.begins
    · rw [hheader, delivery_mark]
      exact h.numbered
  understood := fun _ h => ⟨h.header, h.begins, h.numbered⟩
  truncated := fun _ h => ⟨h.header, h.begins, h.numbered⟩
  accepted := fun _ _ _ h haccepted => h.accepted haccepted

end EventStreamDecoder

section Analysis

variable {options : EventStreamOptions} {decompressors : Decompressors} {input : Bytes}
  {trace : EventStreamResult}

/-- The log of an accepted trace, as a consumer of events hears it. -/
structure EventLog (header : FileHeader) (log : List Callback) : Prop where
  begins : BeginsWith header log
  frequency : 0 < header.monotonicFrequency
  count : (loggedEvents log).length ≤ maxU64
  since : ∀ event ∈ loggedEvents log, header.monotonicOrigin ≤ event.header.monotonicTicks

theorem accepted_events
    (haccepted : (analyzeEventStream options decompressors input).outcome = .ok trace) :
    EventLog trace.fileHeader (analyzeEventStream options decompressors input).log := by
  obtain ⟨dec, heventful, hlog, hheader⟩ := EventStreamDecoder.eventful_invariant.analysis
    (fun header hvalid => ⟨hvalid, ⟨[], rfl, by simp⟩,
      ⟨Nat.le_refl _, Nat.zero_le _, fun _ => rfl, List.forall_mem_nil _⟩⟩) haccepted
  rw [hlog, hheader]
  exact ⟨heventful.begins,
    Nat.pos_of_ne_zero (validateFileHeader_eq_ok.mp heventful.header).2,
    Nat.le_trans heventful.numbered.count heventful.numbered.word, heventful.numbered.since⟩

end Analysis

end Noleax.Analyzer
