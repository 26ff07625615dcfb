import Noleax.Analyzer.StreamEvents

/-!
# The order of the events (`src/analyzer/event_stream.cpp`)

The events of an accepted trace come in the order of their sequence numbers, and their ticks
do not move backwards.
-/

namespace Noleax.Analyzer

open Lib Trace

/-- `later` may come after `earlier`. -/
structure Follows (earlier later : Event) : Prop where
  sequence : earlier.header.sequence < later.header.sequence
  ticks : earlier.header.monotonicTicks ≤ later.header.monotonicTicks

/-- Events that were checked against the order. -/
structure Chronological (order : EventOrder) (events : List Event) : Prop where
  ordered : events.Pairwise Follows
  first : order.sawEvent = false → events = []
  sequence : ∀ event ∈ events, event.header.sequence ≤ order.previousSequence
  ticks : ∀ event ∈ events, event.header.monotonicTicks ≤ order.previousTicks

namespace Chronological

variable {order : EventOrder} {events : List Event}

theorem nil (order : EventOrder) : Chronological order [] :=
  ⟨.nil, fun _ => rfl, List.forall_mem_nil _, List.forall_mem_nil _⟩

theorem snoc (h : Chronological order events) {event : Event}
    (hsequence : order.sawEvent = true → order.previousSequence < event.header.sequence)
    (hticks : order.sawEvent = true → order.previousTicks ≤ event.header.monotonicTicks) :
    Chronological ⟨true, event.header.sequence, event.header.monotonicTicks⟩
      (events ++ [event]) := by
  have hlater : ∀ earlier ∈ events, Follows earlier event := by
    intro earlier hearlier
    cases hsaw : order.sawEvent with
    | true =>
        exact ⟨Nat.lt_of_le_of_lt (h.sequence earlier hearlier) (hsequence hsaw),
          Nat.le_trans (h.ticks earlier hearlier) (hticks hsaw)⟩
    | false =>
        rw [h.first hsaw] at hearlier
        cases hearlier
  refine ⟨?_, nofun, ?_, ?_⟩
  · refine List.pairwise_append.mpr ⟨h.ordered, List.pairwise_singleton _ _, ?_⟩
    intro earlier hearlier later hlast
    rw [List.mem_singleton.mp hlast]
    exact hlater earlier hearlier
  · intro other hother
    rcases List.mem_append.mp hother with hold | hnew
    · exact (hlater other hold).sequence.le
    · rw [List.mem_singleton.mp hnew]
  · intro other hother
    rcases List.mem_append.mp hother with hold | hnew
    · exact (hlater other hold).ticks
    · rw [List.mem_singleton.mp hnew]

/-- The scan of an event chunk after `before`. -/
abbrev Scanned (before : List Event) (scan : EventScan) : Prop :=
  Chronological scan.order (before ++ loggedEvents (scan.records.map recordCallback))

theorem scanned_step {origin : ℕ} {before : List Event} {scan next : EventScan}
    {record : RecordView} (h : Scanned before scan) (hstep : scan.step origin record = .ok next) :
    Scanned before next := by
  obtain ⟨decoded, -, hstep⟩ := bind_eq_ok.mp hstep
  rcases decoded with _ | ⟨event | loss⟩
  · cases hstep
    exact h
  · dsimp only at hstep
    unfold EventScan.event at hstep
    simp only [failIf_bind_eq_ok] at hstep
    obtain ⟨-, hsequence, hticks, hstep⟩ := hstep
    cases hstep
    show Chronological _
      (before ++ loggedEvents ((scan.records ++ [EventChunkRecord.event event]).map _))
    rw [List.map_append, loggedEvents_append, ← List.append_assoc]
    exact h.snoc (fun hsaw => Nat.not_le.mp fun hle => hsequence ⟨hsaw, hle⟩)
      fun hsaw => Nat.not_lt.mp fun hlt => hticks ⟨hsaw, hlt⟩
  · have hkept : next.order = scan.order ∧ next.records = scan.records ++ [.loss loss] := by
      dsimp only at hstep
      unfold EventScan.loss at hstep
      dsimp only at hstep
      split at hstep
      · obtain ⟨-, hstep⟩ := failIf_bind_eq_ok.mp hstep
        cases hstep
        exact ⟨rfl, rfl⟩
      · cases hstep
        exact ⟨rfl, rfl⟩
    show Chronological next.order (before ++ loggedEvents (next.records.map _))
    rw [hkept.1, hkept.2, List.map_append, loggedEvents_append]
    show Chronological scan.order (before ++ (loggedEvents _ ++ []))
    rw [List.append_nil]
    exact h

end Chronological

theorem scanEvents_chronological {dec : EventStreamDecoder} {payload : Bytes} {scan : EventScan}
    {before : List Event} (hscan : scanEvents dec payload = .ok scan)
    (h : Chronological dec.order before) : Chronological.Scanned before scan := by
  obtain ⟨-, records, -, hrun⟩ := forRecords_eq_ok.mp hscan
  refine foldlM_inv (fun scan record next hscanned hstep => hscanned.scanned_step hstep) ?_ hrun
  show Chronological dec.order (before ++ [])
  rw [List.append_nil]
  exact h

namespace EventStreamDecoder

/-- The events that were delivered, as the order has it. -/
def InOrder (dec : EventStreamDecoder) : Prop :=
  Chronological dec.delivery.order (loggedEvents dec.delivery.log)

variable {dec next : EventStreamDecoder}

theorem InOrder.accepted {chunk : TraceChunk} (h : dec.InOrder)
    (haccepted : Accepted dec chunk next) : next.InOrder := by
  have hdelivered := delivered_of_accepted haccepted
  unfold InOrder
  generalize next.delivery = delivery at hdelivered
  cases hdelivered with
  | @plain more hplain =>
      show Chronological dec.order (loggedEvents (dec.log ++ more))
      rw [loggedEvents_append, loggedEvents_plain hplain, List.append_nil]
      exact h
  | @events scan hscan =>
      show Chronological scan.order (loggedEvents (dec.log ++ _))
      rw [loggedEvents_append]
      exact scanEvents_chronological hscan h
  | @memory scan hscan =>
      show Chronological dec.order (loggedEvents (dec.log ++ _))
      rw [loggedEvents_append, loggedEvents_deliveries, List.append_nil]
      exact h

theorem inOrder_invariant : StreamInvariant InOrder where
  mark := by
    intro dec issue h
    unfold InOrder
    rw [delivery_mark]
    exact h
  understood := fun _ h => h
  truncated := fun _ h => h
  accepted := fun _ _ _ h haccepted => h.accepted haccepted

end EventStreamDecoder

/-- The events of an accepted trace follow one another. -/
theorem accepted_inOrder {options : EventStreamOptions} {decompressors : Decompressors}
    {input : Bytes} {trace : EventStreamResult}
    (haccepted : (analyzeEventStream options decompressors input).outcome = .ok trace) :
    (loggedEvents (analyzeEventStream options decompressors input).log).Pairwise Follows := by
  obtain ⟨dec, horder, hlog, -⟩ := EventStreamDecoder.inOrder_invariant.analysis
    (fun _ _ => Chronological.nil _) haccepted
  rw [hlog]
  exact horder.ordered

end Noleax.Analyzer
