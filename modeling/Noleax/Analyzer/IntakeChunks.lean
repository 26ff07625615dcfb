import Noleax.Analyzer.Intake

/-!
# The chunks of an intake (`src/analyzer/event_stream.cpp`)

Every handler of a chunk scans its payload before it delivers. Over the bytes that records
were appended as, the scan finds the records; where these are taken, the handler does not
throw, and the decoder reflects the next intake.
-/

namespace Noleax.Analyzer

open Lib Trace

/-- A limit that a reader's limit covers. -/
structure Covers (limit maximumRecordSize : ℕ) : Prop where
  least : 8 ≤ maximumRecordSize
  most : maximumRecordSize ≤ limit

/-! ## Scans over appended records -/

section Scans

variable {limit maximumRecordSize : ℕ} {payload : Bytes}

/-- The scan for one kind of record finds the values. -/
theorem recordScan_appended {α : Type} {append : Bytes → α → ℕ → Except Error Bytes}
    {decode : RecordView → Except Error (Option α)} {values : List α}
    (hcovers : Covers limit maximumRecordSize)
    (hframed : ∀ value ∈ values,
      Framed append maximumRecordSize (fun v record => decode record = .ok (some v)) value)
    (happend : appendAll append maximumRecordSize values = .ok payload) :
    forRecords limit (RecordScan.step decode) {} payload = .ok { records := values } := by
  have htake : ∀ scan : RecordScan α, values.foldlM (fun scan value =>
      (Except.ok { scan with records := scan.records ++ [value] } :
        Except Error (RecordScan α))) scan =
      .ok { scan with records := scan.records ++ values } := by
    clear hframed happend
    induction values with
    | nil =>
        intro scan
        show Except.ok scan = .ok { scan with records := scan.records ++ [] }
        rw [List.append_nil]
    | cons value values ih =>
        intro scan
        rw [List.foldlM_cons, ok_bind, ih]
        show Except.ok { scan with records := scan.records ++ [value] ++ values } = _
        rw [List.append_assoc]
        rfl
  refine forRecords_appended ?_ hframed happend hcovers.least hcovers.most (htake {})
  intro scan value record hdecode
  unfold RecordScan.step
  rw [hdecode, ok_bind]
  rfl

/-- The scan for the one record of its kind. -/
theorem singleScan_appended {α : Type} {append : Bytes → α → ℕ → Except Error Bytes}
    {decode : RecordView → Except Error (Option α)} {value : α} (what : String)
    (hcovers : Covers limit maximumRecordSize)
    (hframed : Framed append maximumRecordSize (fun v record => decode record = .ok (some v)) value)
    (happend : appendAll append maximumRecordSize [value] = .ok payload) :
    forRecords limit (SingleScan.step decode false what) {} payload =
      .ok { value := some value } := by
  have hstep : ∀ (scan : SingleScan α) (v : α) (record : RecordView),
      decode record = .ok (some v) → SingleScan.step decode false what scan record = (do
        failIf (scan.value.isSome = true ∨ false = true) (.eventStream what)
        return { scan with value := some v }) := by
    intro scan v record hdecode
    unfold SingleScan.step
    rw [hdecode, ok_bind]
  exact forRecords_appended hstep (List.forall_mem_singleton.mpr hframed) happend hcovers.least
    hcovers.most rfl

theorem eventStep_decoded {origin : ℕ} (scan : EventScan) (value : EventChunkRecord)
    (record : RecordView) (h : decodeEventChunkRecord record = .ok (some value)) :
    scan.step origin record = scan.take origin value := by
  unfold EventScan.step
  rw [h, ok_bind]
  cases value <;> rfl

theorem stackStep_decoded {table : ModuleTable} (scan : StackScan) (value : StackDefinition)
    (record : RecordView) (h : decodeStackDefinitionRecord record = .ok (some value)) :
    scan.step table record = scan.add table value := by
  unfold StackScan.step
  rw [h, ok_bind]

/-! ### Memory records -/

/-- What the scan keeps of a memory record. -/
def MemoryScan.keep (scan : MemoryScan) : MemoryContent → MemoryScan
  | .counters counters => { scan with counters := scan.counters ++ [counters] }
  | .map map => { scan with maps := scan.maps ++ [map] }
  | .agent memory => { scan with samples := scan.samples ++ [memory] }

/-- How the scan names the kind. -/
def MemoryScan.subject : MemoryContent → String
  | .counters _ => "memory counters"
  | .map _ => "memory map"
  | .agent _ => "agent memory"

theorem memoryStep_decoded {origin : ℕ} (scan : MemoryScan) (content : MemoryContent)
    (record : RecordView) (h : content.DecodedFrom record) :
    scan.step origin record = (do
      let scan ← scan.stamp origin content.monotonicTicks (MemoryScan.subject content)
      return scan.keep content) := by
  unfold MemoryScan.step
  cases content with
  | counters counters =>
      have hdecode : decodeMemoryCountersRecord record = .ok (some counters) := h
      rw [hdecode]
      rfl
  | map map =>
      have hdecode : decodeMemoryMapRecord record = .ok (some map) := h
      have htype := decodeRecord_type hdecode
      have hcounters : decodeMemoryCountersRecord record = .ok none :=
        decodeRecord_other (by rw [htype]; decide)
      rw [hcounters, ok_bind]
      dsimp only
      rw [hdecode]
      rfl
  | agent memory =>
      have hdecode : decodeAgentMemoryRecord record = .ok (some memory) := h
      have htype := decodeRecord_type hdecode
      have hcounters : decodeMemoryCountersRecord record = .ok none :=
        decodeRecord_other (by rw [htype]; decide)
      have hmap : decodeMemoryMapRecord record = .ok none :=
        decodeRecord_other (by rw [htype]; decide)
      rw [hcounters, ok_bind]
      dsimp only
      rw [hmap, ok_bind]
      dsimp only
      rw [hdecode]
      rfl

/-- The number of records a scan has kept. -/
def MemoryScan.kept (scan : MemoryScan) : ℕ :=
  scan.counters.length + scan.maps.length + scan.samples.length

/-- What is sampled in order is scanned. -/
theorem memoryScan_sampled {origin previous last : ℕ} {records : List MemoryRecord}
    {contents : List MemoryContent} (h : Sampled origin previous records last)
    (hcarries : List.Forall₂ MemoryRecord.Carries records contents) :
    ∀ scan : MemoryScan, scan.previousTicks = previous → scan.skippedUnknown = false →
      ∃ next, contents.foldlM (fun scan content => do
          let scan ← scan.stamp origin content.monotonicTicks (MemoryScan.subject content)
          return scan.keep content) scan = .ok next ∧
        next.previousTicks = last ∧ next.skippedUnknown = false ∧
        next.kept = scan.kept + contents.length := by
  -- by induction on the records, from any scan
  induction h generalizing contents with
  | nil previous =>
      intro scan hprevious hknown
      cases hcarries
      exact ⟨scan, rfl, hprevious, hknown, rfl⟩
  | @cons previous last record records horigin hlater hrest ih =>
      intro scan hprevious hknown
      obtain ⟨content, contents, hcontent, hothers, rfl⟩ :=
        List.forall₂_cons_left_iff.mp hcarries
      have hticks : content.monotonicTicks = record.monotonicTicks := by
        cases hcontent <;> rfl
      have hstamp : scan.stamp origin content.monotonicTicks (MemoryScan.subject content) =
          .ok { scan with previousTicks := record.monotonicTicks } := by
        unfold MemoryScan.stamp
        rw [hticks, failIf_of_not (Nat.not_lt.mpr horigin), ok_bind,
          failIf_of_not (by rw [hprevious]; exact Nat.not_lt.mpr hlater), ok_bind]
        rfl
      obtain ⟨next, hnext, hlast, hskipped, hkept⟩ := ih hothers
        ({ scan with previousTicks := record.monotonicTicks }.keep content)
        (by cases content <;> rfl) (by cases content <;> exact hknown)
      refine ⟨next, ?_, hlast, hskipped, ?_⟩
      · rw [List.foldlM_cons, hstamp, ok_bind]
        exact hnext
      · rw [hkept, List.length_cons]
        cases content <;> simp [MemoryScan.keep, MemoryScan.kept] <;> omega

end Scans

/-! ## Chunks of records -/

section Records

variable {header : FileHeader} {limit maximumRecordSize size : ℕ} {scope : CaptureScope}
  {intake : Intake} {dec : EventStreamDecoder} {payload : Bytes}

/-- Records that are only counted leave the intake as it is. -/
theorem Reflects.deliverPlain {α : Type} {f : α → DecoderM Unit} {values : List α}
    (hf : ∀ value (size : ℕ) (dec : EventStreamDecoder),
      Reflects header limit scope size intake dec → size < maxU64 →
      ∃ after, f value dec = .ok () after ∧ Reflects header limit scope (size + 1) intake after)
    (h : Reflects header limit scope size intake dec)
    (hroom : size + values.length ≤ maxU64) :
    ∃ after, values.forM f dec = .ok () after ∧
      Reflects header limit scope (size + values.length) intake after := by
  induction values generalizing size dec with
  | nil => exact ⟨dec, rfl, h⟩
  | cons value values ih =>
      rw [List.length_cons] at hroom
      obtain ⟨middle, hfirst, hmiddle⟩ := hf value size dec h (by omega)
      obtain ⟨after, hrest, hafter⟩ := ih hmiddle (by omega)
      refine ⟨after, ?_, ?_⟩
      · rw [run_forM_cons]
        exact run_bind_eq_ok.mpr ⟨⟨⟩, middle, hfirst, hrest⟩
      · rw [List.length_cons, show size + (values.length + 1) = size + 1 + values.length by omega]
        exact hafter

theorem Reflects.module (h : Reflects header limit scope size intake dec) (hroom : size < maxU64)
    (record : ModuleRecord) : ∃ after, deliverModule record dec = .ok () after ∧
      Reflects header limit scope (size + 1) intake after := by
  cases record with
  | load load => exact h.delivered hroom (by decide) (.moduleLoad load) rfl
  | unload unload => exact h.delivered hroom (by decide) (.moduleUnload unload) rfl

/-- A chunk of modules that the table can follow. -/
theorem Reflects.processModules (h : Reflects header limit scope size intake dec)
    (hcovers : Covers limit maximumRecordSize) {records : List ModuleRecord} {table : ModuleTable}
    (hrange : ∀ record ∈ records, record.InRange)
    (happend : appendAll appendModuleRecord maximumRecordSize records = .ok payload)
    (hsteps : records.foldlM (ModuleTable.step header.monotonicOrigin) intake.modules = .ok table)
    (hroom : size + payload.length ≤ maxU64) :
    ∃ after, processModules payload dec = .ok () after ∧
      Reflects header limit scope (size + payload.length) { intake with
        modules := table
        monotonicEnd := max intake.monotonicEnd table.previousTicks } after := by
  have hframed : ∀ record ∈ records, Framed appendModuleRecord maximumRecordSize
      (fun value view => decodeModuleRecord view = .ok (some value)) record :=
    fun record hrecord => moduleRecord_roundTrip.framed (hrange record hrecord)
  have hlength := length_le_of_appendAll hframed happend
  have hscan := recordScan_appended hcovers hframed happend
  have hnext : Reflects header limit scope size { intake with
      modules := table
      monotonicEnd := max intake.monotonicEnd table.previousTicks } { dec with
        modules := table
        knownMonotonicEnd := max dec.knownMonotonicEnd table.previousTicks } := { h with
    modules := rfl
    monotonicEnd := by rw [h.monotonicEnd] }
  obtain ⟨after, hdeliver, hafter⟩ := hnext.deliverPlain
    (fun record _ _ hdec hless => hdec.module hless record)
    (show size + records.length ≤ maxU64 by omega)
  refine ⟨after, ?_, hafter.mono (by omega)⟩
  refine run_bind_eq_ok.mpr ⟨(), dec, requireCaptureScope_eq_ok.mpr ⟨h.scoped, rfl⟩, ?_⟩
  refine run_bind_eq_ok.mpr ⟨dec, dec, rfl, ?_⟩
  refine run_bind_eq_ok.mpr ⟨{ records := records }, dec, ?_, ?_⟩
  · rw [h.limit, hscan]
    rfl
  refine run_bind_eq_ok.mpr ⟨table, dec, ?_, ?_⟩
  · rw [h.header, h.modules, hsteps]
    rfl
  exact run_bind_eq_ok.mpr ⟨⟨⟩, _, rfl, run_bind_eq_ok.mpr ⟨⟨⟩, _, rfl, hdeliver⟩⟩

/-- The intake with one more stack. -/
def Intake.define (intake : Intake) (definition : StackDefinition) : Intake :=
  { intake with stackIds := insert definition.stackId intake.stackIds }

theorem define_all (definitions : List StackDefinition) (intake : Intake) :
    definitions.foldl Intake.define intake = { intake with
      stackIds := definitions.foldl (fun ids definition => insert definition.stackId ids)
        intake.stackIds } := by
  induction definitions generalizing intake with
  | nil => rfl
  | cons definition definitions ih =>
      rw [List.foldl_cons, ih]
      rfl

theorem Reflects.stack (h : Reflects header limit scope size intake dec) (hroom : size < maxU64)
    (definition : StackDefinition) : ∃ after, deliverStack definition dec = .ok () after ∧
      Reflects header limit scope (size + 1) (intake.define definition) after := by
  have hdefined : Reflects header limit scope size (intake.define definition)
      { dec with stackIds := insert definition.stackId dec.stackIds } := { h with
    stackIds := by
      show insert definition.stackId dec.stackIds = insert definition.stackId intake.stackIds
      rw [h.stackIds] }
  obtain ⟨after, hdeliver, hafter⟩ := hdefined.delivered hroom
    (show Counter.stackDefinition ≠ .event by decide) (.stackDefinition definition) rfl
  exact ⟨after, run_bind_eq_ok.mpr ⟨⟨⟩, _, rfl, hdeliver⟩, hafter⟩

/-- A chunk of stacks that are new and consistent with the modules. -/
theorem Reflects.processStacks (h : Reflects header limit scope size intake dec)
    (hopen : intake.endOfTrace = none) (hcovers : Covers limit maximumRecordSize)
    {definitions : List StackDefinition} {scan : StackScan}
    (hrange : ∀ definition ∈ definitions, definition.InRange)
    (happend : appendAll appendStackDefinitionRecord maximumRecordSize definitions = .ok payload)
    (hsteps : definitions.foldlM (StackScan.add intake.modules) { ids := intake.stackIds } =
      .ok scan)
    (hroom : size + payload.length ≤ maxU64) :
    ∃ after, processStacks payload dec = .ok () after ∧
      Reflects header limit scope (size + payload.length)
        { intake with stackIds := scan.ids } after := by
  have hframed : ∀ definition ∈ definitions, Framed appendStackDefinitionRecord maximumRecordSize
      (fun value view => decodeStackDefinitionRecord view = .ok (some value)) definition :=
    fun definition hdefinition => stackDefinition_roundTrip.framed (hrange definition hdefinition)
  have hlength := length_le_of_appendAll hframed happend
  have hscan : forRecords limit (StackScan.step intake.modules) { ids := intake.stackIds } payload =
      .ok scan := forRecords_appended stackStep_decoded hframed happend
    hcovers.least hcovers.most hsteps
  obtain ⟨hids, hdefinitions, hskipped⟩ := stackScan_eq hsteps
  have hall : scan.definitions = definitions := hdefinitions
  obtain ⟨after, hdeliver, hafter⟩ := h.deliverAll (g := Intake.define) (fun _ _ => rfl)
    (fun definition _ _ _ _ hdec _ hless => hdec.stack hless definition) hopen
    (show size + definitions.length ≤ maxU64 by omega)
  rw [define_all, ← hids] at hafter
  refine ⟨after, ?_, hafter.mono (by omega)⟩
  refine run_bind_eq_ok.mpr ⟨(), dec, requireCaptureScope_eq_ok.mpr ⟨h.scoped, rfl⟩, ?_⟩
  refine run_bind_eq_ok.mpr ⟨dec, dec, rfl, ?_⟩
  refine run_bind_eq_ok.mpr ⟨scan, dec, ?_, ?_⟩
  · rw [h.limit, h.modules, h.stackIds, hscan]
    rfl
  refine run_bind_eq_ok.mpr ⟨⟨⟩, dec, ?_, ?_⟩
  · rw [run_markIf, hskipped]
    rfl
  · rw [hall]
    exact hdeliver

/-- The range of a chunk of known records is theirs. -/
theorem validateEventSequenceRange_exact {descriptor : ChunkDescriptor} {bounds : RecordBounds}
    (hbegin : descriptor.sequenceBegin = bounds.sequenceBegin)
    (hend : descriptor.sequenceEnd = bounds.sequenceEnd) :
    validateEventSequenceRange descriptor bounds false = .ok () := by
  unfold validateEventSequenceRange
  rw [hbegin, hend, failIf_of_not (by tauto), ok_bind, failIf_of_not (by tauto), ok_bind,
    failIf_of_not (by simp), ok_bind, failIf_of_not (by tauto)]

/-- A chunk of events in order, and of losses. -/
theorem Reflects.processEvents (h : Reflects header limit scope size intake dec)
    (hopen : intake.endOfTrace = none) (hstatistics : intake.statistics = none)
    (hcovers : Covers limit maximumRecordSize) {records : List EventChunkRecord} {scan : EventScan}
    {descriptor : ChunkDescriptor}
    (hrange : ∀ record ∈ records, record.InRange)
    (happend : appendAll appendEventChunkRecord maximumRecordSize records = .ok payload)
    (hsteps : records.foldlM (EventScan.take header.monotonicOrigin) { order := intake.order } =
      .ok scan)
    (hbegin : descriptor.sequenceBegin = scan.bounds.sequenceBegin)
    (hend : descriptor.sequenceEnd = scan.bounds.sequenceEnd)
    (hroom : size + payload.length ≤ maxU64) :
    ∃ after, processEvents descriptor payload dec = .ok () after ∧
      Reflects header limit scope (size + payload.length) { intake with
        order := scan.order
        events := intake.events ++ chunkEvents records
        sequenceEnd := max intake.sequenceEnd scan.bounds.sequenceEnd
        monotonicEnd := max intake.monotonicEnd scan.bounds.maximumTicks } after := by
  have hframed : ∀ record ∈ records, Framed appendEventChunkRecord maximumRecordSize
      (fun value view => decodeEventChunkRecord view = .ok (some value)) record :=
    fun record hrecord => eventChunkRecord_roundTrip.framed (hrange record hrecord)
  have hlength := length_le_of_appendAll hframed happend
  have hvalid := forall_of_appendAll (P := fun record => validateEventChunkRecord record = .ok ())
    (fun value record hdecode => ((decodes_eventChunkRecord record value).mp hdecode).1.2)
    hframed happend
  have hscan : forRecords limit (EventScan.step header.monotonicOrigin) { order := intake.order }
      payload = .ok scan := forRecords_appended eventStep_decoded hframed happend
    hcovers.least hcovers.most hsteps
  obtain ⟨hrecords, hskipped⟩ := eventScan_records hsteps
  have hall : scan.records = records := hrecords
  have hbounds : Reflects header limit scope size { intake with
      order := scan.order
      sequenceEnd := max intake.sequenceEnd scan.bounds.sequenceEnd
      monotonicEnd := max intake.monotonicEnd scan.bounds.maximumTicks } { dec with
        order := scan.order
        knownSequenceEnd := max dec.knownSequenceEnd scan.bounds.sequenceEnd
        knownMonotonicEnd := max dec.knownMonotonicEnd scan.bounds.maximumTicks } := { h with
    order := rfl
    sequenceEnd := by rw [h.sequenceEnd]
    monotonicEnd := by rw [h.monotonicEnd] }
  obtain ⟨after, hdeliver, hafter⟩ := hbounds.deliverAll (f := deliverEventRecord)
    (g := Intake.heard) (fun _ _ => rfl) (by
      intro record hrecord _ _ _ hdec hopen hless
      cases record with
      | event event => exact hdec.event hless event
      | loss loss => exact hdec.loss hless hopen (hvalid _ hrecord)) hopen
    (show size + records.length ≤ maxU64 by omega)
  rw [heard_all] at hafter
  refine ⟨after, ?_, hafter.mono (by omega)⟩
  have hallowed : EventsAllowed dec := ⟨h.scoped, h.statistics.trans hstatistics⟩
  refine run_bind_eq_ok.mpr ⟨⟨⟩, dec, requireEventsAllowed_eq_ok.mpr ⟨hallowed, rfl⟩, ?_⟩
  refine run_bind_eq_ok.mpr ⟨dec, dec, rfl, ?_⟩
  refine run_bind_eq_ok.mpr ⟨scan, dec, ?_, ?_⟩
  · rw [h.limit, h.header, h.order, hscan]
    rfl
  have hnone : scan.skippedUnknown = false := hskipped
  refine run_bind_eq_ok.mpr ⟨⟨⟩, dec, ?_, ?_⟩
  · rw [hnone, validateEventSequenceRange_exact hbegin hend]
    rfl
  refine run_bind_eq_ok.mpr ⟨⟨⟩, dec, ?_, ?_⟩
  · rw [run_markEvents, hnone]
    rfl
  · rw [hall]
    exact run_bind_eq_ok.mpr ⟨⟨⟩, _, rfl, hdeliver⟩

/-- A chunk of memory records in the order of their times. -/
theorem Reflects.processMemory (h : Reflects header limit scope size intake dec)
    (hcovers : Covers limit maximumRecordSize) {records : List MemoryRecord}
    {contents : List MemoryContent} {last : ℕ}
    (hcarries : List.Forall₂ MemoryRecord.Carries records contents)
    (hrange : ∀ content ∈ contents, content.InRange)
    (happend : appendAll MemoryContent.append maximumRecordSize contents = .ok payload)
    (hsampled : Sampled header.monotonicOrigin intake.memoryTicks records last)
    (hroom : size + payload.length ≤ maxU64) :
    ∃ after, processMemory payload dec = .ok () after ∧
      Reflects header limit scope (size + payload.length)
        { intake with memoryTicks := last } after := by
  have hframed : ∀ content ∈ contents,
      Framed MemoryContent.append maximumRecordSize MemoryContent.DecodedFrom content :=
    fun content hcontent => MemoryContent.framed (hrange content hcontent) _
  have hlength := length_le_of_appendAll hframed happend
  obtain ⟨scan, hsteps, hlast, hskipped, hkept⟩ := memoryScan_sampled hsampled hcarries
    { previousTicks := intake.memoryTicks } rfl rfl
  have hcount : scan.counters.length + scan.maps.length + scan.samples.length =
      contents.length := hkept.trans (Nat.zero_add _)
  have hscan : forRecords limit (MemoryScan.step header.monotonicOrigin)
      { previousTicks := intake.memoryTicks } payload = .ok scan :=
    forRecords_appended memoryStep_decoded hframed happend hcovers.least hcovers.most hsteps
  have hstamped : Reflects header limit scope size { intake with memoryTicks := last }
      { dec with previousMemoryTicks := scan.previousTicks } := { h with memoryTicks := hlast }
  -- the three kinds are delivered one after the other
  obtain ⟨counted, hcounters, hcounted⟩ := hstamped.deliverPlain (fun counters _ _ hdec hless =>
    hdec.delivered hless (show Counter.memoryCounters ≠ .event by decide)
      (.memoryCounters counters) rfl)
    (show size + scan.counters.length ≤ maxU64 by omega)
  obtain ⟨mapped, hmaps, hmapped⟩ := hcounted.deliverPlain (fun map _ _ hdec hless =>
    hdec.delivered hless (show Counter.memoryMap ≠ .event by decide) (.memoryMap map) rfl)
    (show size + scan.counters.length + scan.maps.length ≤ maxU64 by omega)
  obtain ⟨after, hsamples, hafter⟩ := hmapped.deliverPlain (fun memory _ _ hdec hless =>
    hdec.delivered hless (show Counter.agentMemory ≠ .event by decide) (.agentMemory memory) rfl)
    (show size + scan.counters.length + scan.maps.length + scan.samples.length ≤ maxU64 by omega)
  refine ⟨after, ?_, hafter.mono (by omega)⟩
  refine run_bind_eq_ok.mpr ⟨(), dec, requireCaptureScope_eq_ok.mpr ⟨h.scoped, rfl⟩, ?_⟩
  refine run_bind_eq_ok.mpr ⟨dec, dec, rfl, ?_⟩
  refine run_bind_eq_ok.mpr ⟨scan, dec, ?_, ?_⟩
  · rw [h.limit, h.header, h.memoryTicks, hscan]
    rfl
  refine run_bind_eq_ok.mpr ⟨⟨⟩, dec, ?_, ?_⟩
  · rw [run_markIf, hskipped]
    rfl
  refine run_bind_eq_ok.mpr ⟨⟨⟩, _, rfl, ?_⟩
  exact run_bind_eq_ok.mpr ⟨⟨⟩, _, hcounters, run_bind_eq_ok.mpr ⟨⟨⟩, _, hmaps, hsamples⟩⟩

/-! ## The statistics and the end -/

/-- Statistics that count what was delivered. -/
theorem Reflects.checkStatistics (h : Reflects header limit scope size intake dec)
    {statistics : CaptureStatistics}
    (hrecorded : statistics.recordedEvents = intake.events.length)
    (hperApi : ∀ event ∈ intake.events, ∃ api ∈ findApi statistics event.header.apiId,
      api.recordedEvents = eventsOfApi intake.events event.header.apiId) :
    checkStatistics dec statistics = .ok () := by
  have hmatch : MatchesRecorded dec.mayHaveUnknownEvents statistics.recordedEvents
      (dec.count .event) := by
    rw [h.counted, hrecorded]
    exact ⟨Nat.le_refl _, fun _ => rfl⟩
  have hentries : ¬ ∃ known ∈ dec.eventsPerApi, ¬ ∃ api ∈ findApi statistics known.1,
      MatchesRecorded dec.mayHaveUnknownEvents api.recordedEvents known.2 := by
    intro hexists
    obtain ⟨known, hknown, hnone⟩ := hexists
    have hcount : known.2 = eventsOfApi intake.events known.1 := by
      rw [← h.perApi, SortedMap.lookup_of_mem h.sorted hknown]
      rfl
    -- an API that was counted has an event
    have hpositive : 0 < eventsOfApi intake.events known.1 := by
      rw [← hcount]
      exact h.positive known hknown
    obtain ⟨event, hevent, hsame⟩ := List.countP_pos_iff.mp hpositive
    obtain ⟨api, hapi, hrecords⟩ := hperApi event hevent
    rw [of_decide_eq_true hsame] at hapi hrecords
    refine hnone ⟨api, hapi, ?_⟩
    rw [hrecords, hcount]
    exact ⟨Nat.le_refl _, fun _ => rfl⟩
  unfold Analyzer.checkStatistics
  rw [failIf_of_not (not_not.mpr hmatch), ok_bind, failIf_of_not hentries]

theorem Reflects.processStatistics (h : Reflects header limit scope size intake dec)
    (hfirst : intake.statistics = none) (hcovers : Covers limit maximumRecordSize)
    {statistics : CaptureStatistics} (hrange : statistics.InRange)
    (happend : appendAll appendStatisticsRecord maximumRecordSize [statistics] = .ok payload)
    (hrecorded : statistics.recordedEvents = intake.events.length)
    (hperApi : ∀ event ∈ intake.events, ∃ api ∈ findApi statistics event.header.apiId,
      api.recordedEvents = eventsOfApi intake.events event.header.apiId) :
    ∃ after, processStatistics payload dec = .ok () after ∧
      Reflects header limit scope (size + payload.length)
        { intake with statistics := some statistics } after := by
  have hnone : dec.statistics = none := h.statistics.trans hfirst
  have hscan := singleScan_appended "trace contains more than one CaptureStatistics record" hcovers
    (statistics_roundTrip.framed hrange) happend
  have hafter : Reflects header limit scope size { intake with statistics := some statistics }
      (dec.afterStatistics statistics) := { h with
    events := by
      show loggedEvents (dec.log ++ [.statistics statistics]) = intake.events
      rw [loggedEvents_append, h.events]
      exact List.append_nil _
    statistics := rfl }
  refine ⟨_, ?_, hafter.mono (Nat.le_add_right _ _)⟩
  refine run_bind_eq_ok.mpr ⟨(), dec, requireCaptureScope_eq_ok.mpr ⟨h.scoped, rfl⟩, ?_⟩
  refine run_bind_eq_ok.mpr ⟨dec, dec, rfl, ?_⟩
  refine run_bind_eq_ok.mpr ⟨{ value := some statistics }, dec, ?_, ?_⟩
  · rw [h.limit, hnone]
    exact congrArg (fun scanned => check scanned dec) hscan
  refine run_bind_eq_ok.mpr ⟨⟨⟩, dec, rfl, ?_⟩
  refine run_bind_eq_ok.mpr ⟨dec, dec, rfl, ?_⟩
  refine run_bind_eq_ok.mpr ⟨⟨⟩, dec, ?_, rfl⟩
  rw [h.checkStatistics hrecorded hperApi]
  rfl

theorem observeEndOfTrace_of {tracker : CompletenessTracker} {trace : EndOfTrace}
    (hopen : tracker.sawEndOfTrace = false) (hvalid : validateEndOfTrace trace = .ok ()) :
    ∃ next, tracker.observeEndOfTrace trace = .ok next := by
  have hnot : ¬ tracker.sawEndOfTrace = true := by
    rw [hopen]
    exact Bool.false_ne_true
  unfold CompletenessTracker.observeEndOfTrace
  rw [failIf_of_not hnot, ok_bind, hvalid, ok_bind]
  exact ⟨_, rfl⟩

theorem decodeEndOfTrace_valid {trace : EndOfTrace} {record : RecordView}
    (h : decodeEndOfTraceRecord record = .ok (some trace)) : validateEndOfTrace trace = .ok () :=
  ((decodes_record (fun _ _ => readsTo_endOfTrace.runReader_eq_ok) record trace).mp h).1.2

/-- An end record behind all that is known. -/
theorem Reflects.processEndOfTrace (h : Reflects header limit scope size intake dec)
    (hopen : intake.endOfTrace = none) (hcovers : Covers limit maximumRecordSize)
    {trace : EndOfTrace} (hrange : trace.InRange)
    (happend : appendAll appendEndOfTraceRecord maximumRecordSize [trace] = .ok payload)
    (horigin : header.monotonicOrigin ≤ trace.finalMonotonicTicks)
    (hsequence : intake.sequenceEnd ≤ trace.finalSequence)
    (hticks : intake.monotonicEnd ≤ trace.finalMonotonicTicks) :
    ∃ after, (do processEndOfTrace payload; markEndChunk) dec = .ok () after ∧
      Reflects header limit scope (size + payload.length)
        { intake with endOfTrace := some trace } after := by
  obtain ⟨tracker, htracker, hunended⟩ := h.tracker
  have hnone : dec.endOfTrace = none := h.endOfTrace.trans hopen
  have hframed : Framed appendEndOfTraceRecord maximumRecordSize
      (fun value record => decodeEndOfTraceRecord record = .ok (some value)) trace :=
    endOfTrace_roundTrip.framed hrange
  have hscan := singleScan_appended "trace contains more than one EndOfTrace record" hcovers
    hframed happend
  have hvalid := forall_of_appendAll (P := fun trace => validateEndOfTrace trace = .ok ())
    (fun _ _ hdecode => decodeEndOfTrace_valid hdecode) (List.forall_mem_singleton.mpr hframed)
    happend trace List.mem_cons_self
  obtain ⟨last, hobserve⟩ := observeEndOfTrace_of (hunended hopen) hvalid
  have hcheck : checkEndOfTrace dec trace = .ok () := by
    unfold checkEndOfTrace
    rw [h.header, h.sequenceEnd, h.monotonicEnd, failIf_of_not (Nat.not_lt.mpr horigin), ok_bind,
      failIf_of_not (by omega)]
  have hafter : Reflects header limit scope size { intake with endOfTrace := some trace }
      { { dec with completeness := some last, endOfTrace := some trace }.logged
        (.endOfTrace trace) with sawEndChunk := true } := { h with
    events := by
      show loggedEvents (dec.log ++ [.endOfTrace trace]) = intake.events
      rw [loggedEvents_append, h.events]
      exact List.append_nil _
    endOfTrace := rfl
    ended := rfl
    tracker := ⟨last, rfl, fun hended => absurd hended (Option.some_ne_none _)⟩ }
  refine ⟨_, ?_, hafter.mono (Nat.le_add_right _ _)⟩
  refine run_bind_eq_ok.mpr ⟨⟨⟩, { dec with completeness := some last, endOfTrace := some trace
    }.logged (.endOfTrace trace), ?_, rfl⟩
  refine run_bind_eq_ok.mpr ⟨(), dec, requireCaptureScope_eq_ok.mpr ⟨h.scoped, rfl⟩, ?_⟩
  refine run_bind_eq_ok.mpr ⟨dec, dec, rfl, ?_⟩
  refine run_bind_eq_ok.mpr ⟨{ value := some trace }, dec, ?_, ?_⟩
  · rw [h.limit, hnone]
    exact congrArg (fun scanned => check scanned dec) hscan
  refine run_bind_eq_ok.mpr ⟨⟨⟩, dec, rfl, ?_⟩
  refine run_bind_eq_ok.mpr ⟨dec, dec, rfl, ?_⟩
  refine run_bind_eq_ok.mpr ⟨⟨⟩, dec, ?_, ?_⟩
  · rw [hcheck]
    rfl
  refine run_bind_eq_ok.mpr ⟨⟨⟩, { dec with completeness := some last }, ?_, rfl⟩
  rw [run_withTracker htracker, hobserve]

end Records

end Noleax.Analyzer
