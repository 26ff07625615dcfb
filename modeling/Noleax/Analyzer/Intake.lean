import Noleax.Analyzer.StreamEvents
import Noleax.Trace.Rendering

/-!
# The analyzer over typed records (`src/analyzer/event_stream.cpp`)

What the decoder takes from the records of a file, without their bytes: `Takes` says of a
chunk of records that it is accepted, and what is known after it. A decoder that reflects
an intake delivers the records of such a chunk, and reflects the next one.
-/

namespace Noleax.Analyzer

open Lib Trace

/-! ## What is taken -/

/-- What is known of the records of the chunks so far. -/
structure Intake where
  modules : ModuleTable := {}
  stackIds : Finset ℕ := ∅
  order : EventOrder := {}
  memoryTicks : ℕ := 0
  events : List Event := []
  sequenceEnd : ℕ := 0
  monotonicEnd : ℕ := 0
  statistics : Option CaptureStatistics := none
  endOfTrace : Option EndOfTrace := none

/-- The events among the records of a chunk. -/
def chunkEvents (records : List EventChunkRecord) : List Event :=
  loggedEvents (records.map recordCallback)

/-- The number of events of an API. -/
def eventsOfApi (events : List Event) (apiId : ℕ) : ℕ :=
  events.countP fun event => event.header.apiId = apiId

/-- A record of an event chunk. -/
def EventScan.take (monotonicOrigin : ℕ) (scan : EventScan) :
    EventChunkRecord → Except Error EventScan
  | .event event => scan.event monotonicOrigin event
  | .loss loss => scan.loss monotonicOrigin loss

/-- Memory records in the order of their times, from `previous` to `last`. -/
inductive Sampled (monotonicOrigin : ℕ) : ℕ → List MemoryRecord → ℕ → Prop
  | nil (previous : ℕ) : Sampled monotonicOrigin previous [] previous
  | cons {previous last : ℕ} {record : MemoryRecord} {records : List MemoryRecord}
      (horigin : monotonicOrigin ≤ record.monotonicTicks)
      (hprevious : previous ≤ record.monotonicTicks)
      (hrest : Sampled monotonicOrigin record.monotonicTicks records last) :
      Sampled monotonicOrigin previous (record :: records) last

/-- A chunk that is accepted. -/
inductive Intake.Takes (monotonicOrigin : ℕ) (intake : Intake) : Chunk → Intake → Prop
  | modules {records : List ModuleRecord} {table : ModuleTable}
      (hsteps : records.foldlM (ModuleTable.step monotonicOrigin) intake.modules = .ok table) :
      Takes monotonicOrigin intake { payload := .modules records } { intake with
        modules := table
        monotonicEnd := max intake.monotonicEnd table.previousTicks }
  | stacks {definitions : List StackDefinition} {scan : StackScan}
      (hsteps : definitions.foldlM (StackScan.add intake.modules) { ids := intake.stackIds } =
        .ok scan) :
      Takes monotonicOrigin intake { payload := .stacks definitions }
        { intake with stackIds := scan.ids }
  | events {records : List EventChunkRecord} {scan : EventScan} (hopen : intake.statistics = none)
      (hsteps : records.foldlM (EventScan.take monotonicOrigin) { order := intake.order } =
        .ok scan) :
      Takes monotonicOrigin intake
        { payload := .events records
          sequenceBegin := scan.bounds.sequenceBegin
          sequenceEnd := scan.bounds.sequenceEnd }
        { intake with
          order := scan.order
          events := intake.events ++ chunkEvents records
          sequenceEnd := max intake.sequenceEnd scan.bounds.sequenceEnd
          monotonicEnd := max intake.monotonicEnd scan.bounds.maximumTicks }
  | memory {records : List MemoryRecord} {last : ℕ}
      (hsampled : Sampled monotonicOrigin intake.memoryTicks records last) :
      Takes monotonicOrigin intake { payload := .memory records }
        { intake with memoryTicks := last }
  | statistics {statistics : CaptureStatistics} (hfirst : intake.statistics = none)
      (hrecorded : statistics.recordedEvents = intake.events.length)
      (hperApi : ∀ event ∈ intake.events, ∃ api ∈ findApi statistics event.header.apiId,
        api.recordedEvents = eventsOfApi intake.events event.header.apiId) :
      Takes monotonicOrigin intake { payload := .statistics statistics }
        { intake with statistics := some statistics }
  | endOfTrace {trace : EndOfTrace} (horigin : monotonicOrigin ≤ trace.finalMonotonicTicks)
      (hsequence : intake.sequenceEnd ≤ trace.finalSequence)
      (hticks : intake.monotonicEnd ≤ trace.finalMonotonicTicks) :
      Takes monotonicOrigin intake { payload := .endOfTrace trace }
        { intake with endOfTrace := some trace }

/-- Chunks that are accepted one after the other; the end record ends the trace. -/
inductive Intake.TakesAll (monotonicOrigin : ℕ) (first : Intake) : List Chunk → Intake → Prop
  | nil : TakesAll monotonicOrigin first [] first
  | snoc {chunks : List Chunk} {chunk : Chunk} {intake next : Intake}
      (hbefore : TakesAll monotonicOrigin first chunks intake) (hopen : intake.endOfTrace = none)
      (htakes : Takes monotonicOrigin intake chunk next) :
      TakesAll monotonicOrigin first (chunks ++ [chunk]) next

/-! ## Scans -/

theorem stackScan_eq {table : ModuleTable} {definitions : List StackDefinition}
    {scan last : StackScan} (h : definitions.foldlM (StackScan.add table) scan = .ok last) :
    last.ids = definitions.foldl (fun ids definition => insert definition.stackId ids) scan.ids ∧
      last.definitions = scan.definitions ++ definitions ∧
      last.skippedUnknown = scan.skippedUnknown := by
  induction definitions generalizing scan with
  | nil =>
      cases h
      exact ⟨rfl, (List.append_nil _).symm, rfl⟩
  | cons definition definitions ih =>
      rw [List.foldlM_cons] at h
      obtain ⟨next, hadd, h⟩ := bind_eq_ok.mp h
      unfold StackScan.add at hadd
      rw [failIf_bind_eq_ok, bind_eq_ok] at hadd
      obtain ⟨-, ⟨⟩, -, hadd⟩ := hadd
      cases hadd
      obtain ⟨hids, hdefinitions, hskipped⟩ := ih h
      refine ⟨hids, ?_, hskipped⟩
      rw [hdefinitions, List.append_assoc]
      rfl

/-- A record that is taken is delivered, and no record was skipped. -/
theorem EventScan.take_records {origin : ℕ} {scan next : EventScan} {record : EventChunkRecord}
    (h : scan.take origin record = .ok next) :
    next.records = scan.records ++ [record] ∧ next.skippedUnknown = scan.skippedUnknown := by
  cases record with
  | event event =>
      change scan.event origin event = .ok next at h
      unfold EventScan.event at h
      simp only [failIf_bind_eq_ok] at h
      obtain ⟨-, -, -, h⟩ := h
      cases h
      exact ⟨rfl, rfl⟩
  | loss loss =>
      change scan.loss origin loss = .ok next at h
      unfold EventScan.loss at h
      dsimp only at h
      split at h
      · obtain ⟨-, h⟩ := failIf_bind_eq_ok.mp h
        cases h
        exact ⟨rfl, rfl⟩
      · cases h
        exact ⟨rfl, rfl⟩

theorem eventScan_records {origin : ℕ} {records : List EventChunkRecord} {scan last : EventScan}
    (h : records.foldlM (EventScan.take origin) scan = .ok last) :
    last.records = scan.records ++ records ∧ last.skippedUnknown = scan.skippedUnknown := by
  induction records generalizing scan with
  | nil =>
      cases h
      exact ⟨(List.append_nil _).symm, rfl⟩
  | cons record records ih =>
      rw [List.foldlM_cons] at h
      obtain ⟨next, htake, h⟩ := bind_eq_ok.mp h
      obtain ⟨hrecords, hskipped⟩ := EventScan.take_records htake
      obtain ⟨hall, hnone⟩ := ih h
      refine ⟨?_, hnone.trans hskipped⟩
      rw [hall, hrecords, List.append_assoc]
      rfl

theorem chunkEvents_cons (record : EventChunkRecord) (records : List EventChunkRecord) :
    chunkEvents (record :: records) = chunkEvents [record] ++ chunkEvents records := by
  show loggedEvents ([recordCallback record] ++ records.map recordCallback) = _
  exact loggedEvents_append _ _

/-! ## The decoder -/

section Reflecting

variable (header : FileHeader) (limit : ℕ) (scope : CaptureScope)

/-- The decoder knows what the intake knows, and has counted at most `size` records. -/
structure Knows (size : ℕ) (intake : Intake) (dec : EventStreamDecoder) : Prop where
  header : dec.fileHeader = header
  limit : dec.maximumRecordSize = limit
  modules : dec.modules = intake.modules
  stackIds : dec.stackIds = intake.stackIds
  order : dec.order = intake.order
  memoryTicks : dec.previousMemoryTicks = intake.memoryTicks
  events : loggedEvents dec.log = intake.events
  counted : dec.count .event = intake.events.length
  sorted : dec.eventsPerApi.Sorted
  perApi : ∀ apiId, (dec.eventsPerApi.lookup apiId).getD 0 = eventsOfApi intake.events apiId
  positive : ∀ known ∈ dec.eventsPerApi, 0 < known.2
  sequenceEnd : dec.knownSequenceEnd = intake.sequenceEnd
  monotonicEnd : dec.knownMonotonicEnd = intake.monotonicEnd
  statistics : dec.statistics = intake.statistics
  endOfTrace : dec.endOfTrace = intake.endOfTrace
  ended : dec.sawEndChunk = intake.endOfTrace.isSome
  small : ∀ counter, dec.count counter ≤ size
  truncated : dec.truncated = false

/-- It has met the scope, and the end record only if the intake has. -/
structure Reflects (size : ℕ) (intake : Intake) (dec : EventStreamDecoder) : Prop
    extends Knows header limit size intake dec where
  scope : dec.captureScope = some scope
  tracker : ∃ tracker, dec.completeness = some tracker ∧
    (intake.endOfTrace = none → tracker.sawEndOfTrace = false)

end Reflecting

section Decoder

variable {header : FileHeader} {limit size : ℕ} {scope : CaptureScope} {intake next : Intake}
  {dec : EventStreamDecoder}

theorem Reflects.mono {more : ℕ} (h : Reflects header limit scope size intake dec)
    (hle : size ≤ more) : Reflects header limit scope more intake dec :=
  { h with small := fun counter => (h.small counter).trans hle }

theorem Reflects.scoped (h : Reflects header limit scope size intake dec) : Scoped dec := by
  obtain ⟨tracker, htracker, -⟩ := h.tracker
  refine ⟨?_, ?_⟩
  · rw [h.scope]
    exact Option.some_ne_none _
  · rw [htracker]
    exact Option.some_ne_none _

/-- A mark is about the completeness alone. -/
theorem Knows.mark (h : Knows header limit size intake dec) (issue : CompletenessIssue) :
    Knows header limit size intake (dec.mark issue) := by
  rw [dec.mark_eq]
  exact { h with }

theorem Reflects.mark (h : Reflects header limit scope size intake dec)
    (issue : CompletenessIssue) :
    Reflects header limit scope size intake (dec.mark issue) := by
  obtain ⟨tracker, htracker, hunended⟩ := h.tracker
  refine { h.toKnows.mark issue with
    scope := ?_
    tracker := ⟨tracker.mark issue, ?_, hunended⟩ }
  · rw [dec.mark_eq]
    exact h.scope
  · rw [dec.mark_eq]
    show dec.completeness.map _ = _
    rw [htracker]
    rfl

/-- What the reader did not understand changes nothing that is reflected. -/
theorem Reflects.synchronize (h : Reflects header limit scope size intake dec) (partly : Bool) :
    Reflects header limit scope size intake (dec.synchronize partly) := by
  unfold EventStreamDecoder.synchronize
  split
  · have hmarked : Reflects header limit scope size intake
        { dec with readerPartialMarked := true, mayHaveUnknownEvents := true } := { h with }
    exact hmarked.mark _
  · exact h

/-! ## Deliveries -/

theorem Reflects.room (h : Reflects header limit scope size intake dec) (hroom : size < maxU64)
    (counter : Counter) : DecoderM.checkedIncrement counter dec = .ok () (dec.counted counter) := by
  have hsmall := h.small counter
  rw [run_checkedIncrement, if_neg (by omega)]

theorem counted_le {counter other : Counter} (h : ∀ counter, dec.count counter ≤ size) :
    (dec.counted counter).count other ≤ size + 1 := by
  show Function.update dec.count counter (dec.count counter + 1) other ≤ _
  by_cases hother : other = counter
  · subst hother
    rw [Function.update_self]
    exact Nat.succ_le_succ (h other)
  · rw [Function.update_of_ne hother]
    exact (h other).trans (Nat.le_succ _)

/-- A record that is no event is only counted. -/
theorem Reflects.delivered (h : Reflects header limit scope size intake dec)
    (hroom : size < maxU64) {counter : Counter} (hcounter : counter ≠ .event) (callback : Callback)
    (hcallback : callback.toEvent = none) :
    ∃ after, deliverCounted counter callback dec = .ok () after ∧
      Reflects header limit scope (size + 1) intake after := by
  refine ⟨dec.afterCounted counter callback,
    run_bind_eq_ok.mpr ⟨(), _, h.room hroom counter, rfl⟩, { h with
      events := ?_
      counted := ?_
      small := fun other => counted_le h.small }⟩
  · show loggedEvents (dec.log ++ [callback]) = _
    have hnone : loggedEvents [callback] = [] := by
      unfold loggedEvents
      rw [List.filterMap_cons_none hcallback, List.filterMap_nil]
    rw [loggedEvents_append, hnone, List.append_nil]
    exact h.events
  · show Function.update dec.count counter _ .event = _
    rw [Function.update_of_ne hcounter.symm]
    exact h.counted

/-- The events with one more. -/
def Intake.heard (intake : Intake) (record : EventChunkRecord) : Intake :=
  { intake with events := intake.events ++ chunkEvents [record] }

theorem eventsOfApi_snoc (events : List Event) (event : Event) (apiId : ℕ) :
    eventsOfApi (events ++ [event]) apiId =
      eventsOfApi events apiId + if event.header.apiId = apiId then 1 else 0 := by
  unfold eventsOfApi
  rw [List.countP_append, List.countP_singleton]
  simp

/-- The entry of an API, counted up. -/
theorem lookup_countedApi (hsorted : dec.eventsPerApi.Sorted) (apiId other : ℕ) :
    ((dec.countedApi apiId).eventsPerApi.lookup other).getD 0 =
      (dec.eventsPerApi.lookup other).getD 0 + if apiId = other then 1 else 0 := by
  have herased := SortedMap.sorted_erase hsorted apiId
  have hfree : ¬ SortedMap.Contains (dec.eventsPerApi.erase apiId) apiId :=
    SortedMap.lookup_eq_none.mp (SortedMap.lookup_erase_self _ _)
  show (((dec.eventsPerApi.erase apiId).insert apiId _).lookup other).getD 0 = _
  by_cases hother : other = apiId
  · subst hother
    rw [SortedMap.lookup_insert_self herased _ hfree, if_pos rfl]
    rfl
  · rw [SortedMap.lookup_insert_of_ne herased _ hfree hother,
      SortedMap.lookup_erase_of_ne hsorted hother, if_neg (Ne.symm hother)]
    rfl

/-- An event is counted for its API too. -/
theorem Reflects.event (h : Reflects header limit scope size intake dec) (hroom : size < maxU64)
    (event : Event) : ∃ after, deliverEventRecord (.event event) dec = .ok () after ∧
      Reflects header limit scope (size + 1) (intake.heard (.event event)) after := by
  have happi : (dec.eventsPerApi.lookup event.header.apiId).getD 0 ≠ maxU64 := by
    rw [h.perApi]
    have hcount : eventsOfApi intake.events event.header.apiId ≤ intake.events.length :=
      List.countP_le_length
    have hsmall := h.small .event
    have hcounted := h.counted
    omega
  have hincrement : incrementEventsPerApi event.header.apiId (dec.counted .event) =
      .ok () ((dec.counted .event).countedApi event.header.apiId) := by
    rw [run_incrementEventsPerApi]
    exact if_neg happi
  have hfree : ¬ SortedMap.Contains (dec.eventsPerApi.erase event.header.apiId)
      event.header.apiId := SortedMap.lookup_eq_none.mp (SortedMap.lookup_erase_self _ _)
  refine ⟨dec.afterEventRecord (.event event), run_bind_eq_ok.mpr ⟨(), _, h.room hroom .event,
    run_bind_eq_ok.mpr ⟨(), _, hincrement, rfl⟩⟩, { h with
      events := ?_
      counted := ?_
      sorted := ?_
      perApi := ?_
      positive := ?_
      small := fun other => counted_le h.small }⟩
  · show loggedEvents (dec.log ++ [.event event]) = intake.events ++ [event]
    rw [loggedEvents_append, h.events]
    rfl
  · show Function.update dec.count .event (dec.count .event + 1) .event =
      (intake.events ++ [event]).length
    rw [Function.update_self, h.counted, List.length_append]
    rfl
  · exact SortedMap.sorted_insert (SortedMap.sorted_erase h.sorted _) _ hfree
  · intro apiId
    show (((dec.countedApi event.header.apiId).eventsPerApi.lookup apiId).getD 0) =
      eventsOfApi (intake.events ++ [event]) apiId
    rw [lookup_countedApi h.sorted, eventsOfApi_snoc, h.perApi]
  · intro known hknown
    rcases SortedMap.mem_insert.mp hknown with rfl | hknown
    · exact Nat.succ_pos _
    · exact h.positive known (SortedMap.mem_erase.mp hknown).1

/-- A valid loss is observed. -/
theorem Reflects.loss (h : Reflects header limit scope size intake dec) (hroom : size < maxU64)
    (hopen : intake.endOfTrace = none) {loss : LossRecord}
    (hvalid : validateLossRecord loss = .ok ()) :
    ∃ after, deliverEventRecord (.loss loss) dec = .ok () after ∧
      Reflects header limit scope (size + 1) (intake.heard (.loss loss)) after := by
  obtain ⟨tracker, htracker, hunended⟩ := h.tracker
  have hobserve : withTracker (·.observeLoss loss) (dec.counted .loss) =
      .ok () { dec.counted .loss with completeness := some (tracker.afterLoss loss) } := by
    rw [run_withTracker (show (dec.counted .loss).completeness = some tracker from htracker),
      CompletenessTracker.observeLoss_of (hunended hopen) hvalid]
  refine ⟨_, run_bind_eq_ok.mpr ⟨(), _, h.room hroom .loss,
    run_bind_eq_ok.mpr ⟨(), _, hobserve, rfl⟩⟩, { h with
      events := ?_
      counted := ?_
      perApi := ?_
      small := fun other => counted_le h.small
      tracker := ⟨_, rfl, hunended⟩ }⟩
  · show loggedEvents (dec.log ++ [.loss loss]) = intake.events ++ []
    rw [loggedEvents_append, h.events]
    rfl
  · show Function.update dec.count .loss (dec.count .loss + 1) .event =
      (intake.events ++ []).length
    rw [Function.update_of_ne (show Counter.event ≠ .loss by decide), List.append_nil]
    exact h.counted
  · show ∀ apiId, _ = eventsOfApi (intake.events ++ []) apiId
    rw [List.append_nil]
    exact h.perApi

/-- A loop of deliveries, each of which changes the intake as `g` does. -/
theorem Reflects.deliverAll {α : Type} {f : α → DecoderM Unit} {g : Intake → α → Intake}
    {values : List α} (hend : ∀ intake value, (g intake value).endOfTrace = intake.endOfTrace)
    (hf : ∀ value ∈ values, ∀ (size : ℕ) (intake : Intake) (dec : EventStreamDecoder),
      Reflects header limit scope size intake dec → intake.endOfTrace = none → size < maxU64 →
      ∃ after, f value dec = .ok () after ∧
        Reflects header limit scope (size + 1) (g intake value) after)
    (h : Reflects header limit scope size intake dec) (hopen : intake.endOfTrace = none)
    (hroom : size + values.length ≤ maxU64) :
    ∃ after, values.forM f dec = .ok () after ∧
      Reflects header limit scope (size + values.length) (values.foldl g intake) after := by
  induction values generalizing size intake dec with
  | nil => exact ⟨dec, rfl, h⟩
  | cons value values ih =>
      rw [List.length_cons] at hroom
      obtain ⟨middle, hfirst, hmiddle⟩ :=
        hf value List.mem_cons_self size intake dec h hopen (by omega)
      obtain ⟨after, hrest, hafter⟩ := ih (fun v hv => hf v (List.mem_cons_of_mem _ hv)) hmiddle
        ((hend intake value).trans hopen) (by omega)
      refine ⟨after, ?_, ?_⟩
      · rw [run_forM_cons]
        exact run_bind_eq_ok.mpr ⟨⟨⟩, middle, hfirst, hrest⟩
      · rw [List.length_cons, List.foldl_cons, show size + (values.length + 1) =
          size + 1 + values.length by omega]
        exact hafter

theorem heard_all (records : List EventChunkRecord) (intake : Intake) :
    records.foldl Intake.heard intake =
      { intake with events := intake.events ++ chunkEvents records } := by
  induction records generalizing intake with
  | nil =>
      show intake = { intake with events := intake.events ++ [] }
      rw [List.append_nil]
  | cons record records ih =>
      rw [List.foldl_cons, ih, chunkEvents_cons record records, ← List.append_assoc]
      rfl

end Decoder

end Noleax.Analyzer
