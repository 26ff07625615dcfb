import Noleax.Analyzer.EventStream

/-!
# What the handlers of a chunk do (`src/analyzer/event_stream.cpp`)

Every handler scans its payload, notes what it skipped and then delivers. One lemma for
each says from what scan it delivers and what state it leaves, and one that a handler that
throws has delivered nothing, unless a counter of records overflows.
-/

namespace Noleax.Trace

open Lib

/-! ## The tracker -/

namespace CompletenessTracker

/-- The tracker after a loss. -/
def afterLoss (tracker : CompletenessTracker) (loss : LossRecord) : CompletenessTracker :=
  { tracker with report := tracker.report ∪ lossIssues loss.reason }

/-- The issues an end record brings in. -/
def endIssues (trace : EndOfTrace) : CompletenessReport :=
  trace.aggregateCompleteness ∪ if trace.normalStop then ∅ else {.abnormalStop}

/-- The tracker after the end record. -/
def afterEndOfTrace (tracker : CompletenessTracker) (trace : EndOfTrace) :
    CompletenessTracker where
  report := tracker.report.erase .missingEndOfTrace ∪ endIssues trace
  sawEndOfTrace := true

theorem observeLoss_eq_ok {tracker next : CompletenessTracker} {loss : LossRecord}
    (h : tracker.observeLoss loss = .ok next) : next = tracker.afterLoss loss := by
  unfold observeLoss at h
  obtain ⟨-, h⟩ := failIf_bind_eq_ok.mp h
  obtain ⟨⟨⟩, -, h⟩ := bind_eq_ok.mp h
  cases h
  rfl

theorem observeLoss_of {tracker : CompletenessTracker} {loss : LossRecord}
    (hopen : tracker.sawEndOfTrace = false) (hvalid : validateLossRecord loss = .ok ()) :
    tracker.observeLoss loss = .ok (tracker.afterLoss loss) := by
  have hnot : ¬ tracker.sawEndOfTrace = true := by
    rw [hopen]
    exact Bool.false_ne_true
  unfold observeLoss
  rw [failIf_of_not hnot, ok_bind, hvalid, ok_bind]
  rfl

theorem observeEndOfTrace_eq_ok {tracker next : CompletenessTracker} {trace : EndOfTrace}
    (h : tracker.observeEndOfTrace trace = .ok next) :
    validateEndOfTrace trace = .ok () ∧ next = tracker.afterEndOfTrace trace := by
  unfold observeEndOfTrace at h
  obtain ⟨-, h⟩ := failIf_bind_eq_ok.mp h
  obtain ⟨⟨⟩, hvalid, h⟩ := bind_eq_ok.mp h
  cases h
  refine ⟨hvalid, ?_⟩
  unfold afterEndOfTrace endIssues
  congr 1
  cases trace.normalStop with
  | true => simp
  | false =>
      ext issue
      simp only [Bool.false_eq_true, if_false, Finset.mem_insert, Finset.mem_union,
        Finset.mem_singleton]
      tauto

end CompletenessTracker

end Noleax.Trace

namespace Noleax.Analyzer

open Lib Trace

namespace EventStreamDecoder

/-! ## Effects -/

/-- The issues that were noted. -/
def issues (dec : EventStreamDecoder) : CompletenessReport :=
  match dec.completeness with
  | some tracker => tracker.report
  | none => dec.pending

def logged (dec : EventStreamDecoder) (callback : Callback) : EventStreamDecoder :=
  { dec with log := dec.log ++ [callback] }

def counted (dec : EventStreamDecoder) (counter : Counter) : EventStreamDecoder :=
  { dec with count := Function.update dec.count counter (dec.count counter + 1) }

def countedApi (dec : EventStreamDecoder) (apiId : ℕ) : EventStreamDecoder :=
  { dec with
    eventsPerApi := (dec.eventsPerApi.erase apiId).insert apiId
      ((dec.eventsPerApi.lookup apiId).getD 0 + 1) }

/-- The tracker, when there is one, after it observed. -/
def tracked (dec : EventStreamDecoder) (f : CompletenessTracker → CompletenessTracker) :
    EventStreamDecoder :=
  { dec with completeness := dec.completeness.map f }

def markIf (dec : EventStreamDecoder) (p : Bool) (issue : CompletenessIssue) :
    EventStreamDecoder :=
  if p then dec.mark issue else dec

def started (dec : EventStreamDecoder) (scope : CaptureScope) : EventStreamDecoder :=
  { dec with
    captureScope := some scope
    completeness := some { CompletenessTracker.start scope with
      report := (CompletenessTracker.start scope).report ∪ dec.pending } }.logged
    (.captureScope scope)

def afterCustomHook (dec : EventStreamDecoder) (definition : CustomHookDefinition) :
    EventStreamDecoder :=
  { dec with customHooks := dec.customHooks ++ [definition] }.logged
    (.customHookDefinition definition)

def afterCustomHookFailure (dec : EventStreamDecoder) (failure : CustomHookFailure) :
    EventStreamDecoder :=
  { dec.mark .customHookInstallFailed with
    customHookFailures := (dec.mark .customHookInstallFailed).customHookFailures ++
      [failure] }.logged (.customHookFailure failure)

def afterCounted (dec : EventStreamDecoder) (counter : Counter) (callback : Callback) :
    EventStreamDecoder :=
  (dec.counted counter).logged callback

def afterModule (dec : EventStreamDecoder) : ModuleRecord → EventStreamDecoder
  | .load load => dec.afterCounted .moduleLoad (.moduleLoad load)
  | .unload unload => dec.afterCounted .moduleUnload (.moduleUnload unload)

def afterStack (dec : EventStreamDecoder) (definition : StackDefinition) : EventStreamDecoder :=
  { dec with stackIds := insert definition.stackId dec.stackIds }.afterCounted
    .stackDefinition (.stackDefinition definition)

def afterEventRecord (dec : EventStreamDecoder) : EventChunkRecord → EventStreamDecoder
  | .event event => ((dec.counted .event).countedApi event.header.apiId).logged (.event event)
  | .loss loss => ((dec.counted .loss).tracked (·.afterLoss loss)).logged (.loss loss)

def afterStatistics (dec : EventStreamDecoder) (statistics : CaptureStatistics) :
    EventStreamDecoder :=
  { dec with statistics := some statistics }.logged (.statistics statistics)

def afterEndOfTrace (dec : EventStreamDecoder) (trace : EndOfTrace) : EventStreamDecoder :=
  { dec.tracked (·.afterEndOfTrace trace) with endOfTrace := some trace }.logged
    (.endOfTrace trace)

/-- Event data of an unknown form. -/
def unknownEvents (dec : EventStreamDecoder) : EventStreamDecoder :=
  { dec with mayHaveUnknownEvents := true }.mark .unknownRecordSkipped

end EventStreamDecoder

/-! ### Marks -/

section Marks

variable (dec : EventStreamDecoder) (issue : CompletenessIssue)

/-- A mark changes nothing but the tracker, or what is kept for it. -/
theorem EventStreamDecoder.mark_eq :
    dec.mark issue = { dec with
      completeness := dec.completeness.map (·.mark issue)
      pending := if dec.completeness = none then insert issue dec.pending else dec.pending } := by
  unfold EventStreamDecoder.mark
  cases hcompleteness : dec.completeness with
  | some tracker => simp
  | none => simp

@[simp] theorem EventStreamDecoder.issues_mark :
    (dec.mark issue).issues = insert issue dec.issues := by
  unfold EventStreamDecoder.mark EventStreamDecoder.issues
  cases hcompleteness : dec.completeness with
  | some tracker => rfl
  | none => simp

@[simp] theorem EventStreamDecoder.mark_completeness_eq_none :
    (dec.mark issue).completeness = none ↔ dec.completeness = none := by
  rw [dec.mark_eq]
  simp

theorem EventStreamDecoder.mem_issues_markIf {p : Bool} {other : CompletenessIssue} :
    other ∈ (dec.markIf p issue).issues ↔ other ∈ dec.issues ∨ p = true ∧ other = issue := by
  unfold EventStreamDecoder.markIf
  cases p with
  | true => simp [or_comm]
  | false => simp

end Marks

/-- The exception of a counter of records. -/
def CountOverflow (e : Error) : Prop :=
  (∃ counter : Counter, e = .eventStream (counter.subject ++ " count overflow")) ∨
    e = .eventStream "per-API event count overflow"

/-! ## Deliveries -/

section Deliveries

variable {dec next : EventStreamDecoder} {e : Error}

theorem run_checkedIncrement {counter : Counter} :
    DecoderM.checkedIncrement counter dec = if dec.count counter = maxU64 then
      .error (.eventStream (counter.subject ++ " count overflow")) dec
    else .ok () (dec.counted counter) := by
  unfold DecoderM.checkedIncrement
  rw [run_bind, run_get]
  dsimp only
  by_cases hmax : dec.count counter = maxU64
  · rw [if_pos hmax, run_bind, failIf_of hmax]
    rfl
  · rw [if_neg hmax, run_bind, failIf_of_not hmax]
    rfl

theorem checkedIncrement_eq_ok {counter : Counter}
    (h : DecoderM.checkedIncrement counter dec = .ok () next) : next = dec.counted counter := by
  rw [run_checkedIncrement] at h
  split at h
  · cases h
  · cases h
    rfl

theorem checkedIncrement_eq_error {counter : Counter}
    (h : DecoderM.checkedIncrement counter dec = .error e next) : CountOverflow e := by
  rw [run_checkedIncrement] at h
  split at h
  · cases h
    exact .inl ⟨counter, rfl⟩
  · cases h

theorem run_incrementEventsPerApi {apiId : ℕ} :
    incrementEventsPerApi apiId dec = if (dec.eventsPerApi.lookup apiId).getD 0 = maxU64 then
      .error (.eventStream "per-API event count overflow") dec
    else .ok () (dec.countedApi apiId) := by
  unfold incrementEventsPerApi
  rw [run_bind, run_get]
  dsimp only
  by_cases hmax : (dec.eventsPerApi.lookup apiId).getD 0 = maxU64
  · rw [if_pos hmax, run_bind, failIf_of hmax]
    rfl
  · rw [if_neg hmax, run_bind, failIf_of_not hmax]
    rfl

theorem deliverCounted_eq_ok {counter : Counter} (callback : Callback)
    (h : deliverCounted counter callback dec = .ok () next) :
    next = dec.afterCounted counter callback := by
  obtain ⟨⟨⟩, counted, hcount, hnotify⟩ := run_bind_eq_ok.mp h
  rw [checkedIncrement_eq_ok hcount] at hnotify
  cases hnotify
  rfl

theorem deliverCounted_eq_error {counter : Counter} (callback : Callback)
    (h : deliverCounted counter callback dec = .error e next) : CountOverflow e := by
  rcases run_bind_eq_error.mp h with hcount | ⟨⟨⟩, counted, -, hnotify⟩
  · exact checkedIncrement_eq_error hcount
  · cases hnotify

theorem deliverModule_eq_ok {record : ModuleRecord}
    (h : deliverModule record dec = .ok () next) : next = dec.afterModule record := by
  cases record with
  | load load => exact deliverCounted_eq_ok (.moduleLoad load) h
  | unload unload => exact deliverCounted_eq_ok (.moduleUnload unload) h

theorem deliverModule_eq_error {record : ModuleRecord}
    (h : deliverModule record dec = .error e next) : CountOverflow e := by
  cases record with
  | load load => exact deliverCounted_eq_error (.moduleLoad load) h
  | unload unload => exact deliverCounted_eq_error (.moduleUnload unload) h

theorem deliverStack_eq_ok {definition : StackDefinition}
    (h : deliverStack definition dec = .ok () next) : next = dec.afterStack definition := by
  obtain ⟨⟨⟩, inserted, hinsert, hcount⟩ := run_bind_eq_ok.mp h
  cases hinsert
  exact deliverCounted_eq_ok (.stackDefinition definition) hcount

theorem deliverStack_eq_error {definition : StackDefinition}
    (h : deliverStack definition dec = .error e next) : CountOverflow e := by
  rcases run_bind_eq_error.mp h with hinsert | ⟨⟨⟩, inserted, -, hcount⟩
  · cases hinsert
  · exact deliverCounted_eq_error (.stackDefinition definition) hcount

theorem run_withTracker {f : CompletenessTracker → Except Error CompletenessTracker}
    {tracker : CompletenessTracker} (htracker : dec.completeness = some tracker) :
    withTracker f dec = match f tracker with
      | .ok result => .ok () { dec with completeness := some result }
      | .error e => .error e dec := by
  unfold withTracker
  rw [run_bind, run_get]
  dsimp only
  rw [htracker]
  dsimp only
  rw [run_bind]
  cases f tracker <;> rfl

theorem run_withTracker_none {f : CompletenessTracker → Except Error CompletenessTracker}
    (hnone : dec.completeness = none) : withTracker f dec = .ok () dec := by
  unfold withTracker
  rw [run_bind, run_get]
  dsimp only
  rw [hnone]
  rfl

theorem withTracker_eq_ok {f : CompletenessTracker → Except Error CompletenessTracker}
    {g : CompletenessTracker → CompletenessTracker}
    (hf : ∀ tracker result, f tracker = .ok result → result = g tracker)
    (h : withTracker f dec = .ok () next) : next = dec.tracked g := by
  unfold EventStreamDecoder.tracked
  cases htracker : dec.completeness with
  | some tracker =>
      rw [run_withTracker htracker] at h
      split at h
      · rename_i result hresult
        cases h
        rw [hf tracker result hresult]
        rfl
      · cases h
  | none =>
      rw [run_withTracker_none htracker] at h
      cases h
      show dec = { dec with completeness := none }
      rw [← htracker]

/-- What an event chunk delivers does not meet a tracker that has seen the end. -/
def Open (dec : EventStreamDecoder) : Prop :=
  ∀ tracker ∈ dec.completeness, tracker.sawEndOfTrace = false

theorem deliverEventRecord_eq_ok {record : EventChunkRecord}
    (h : deliverEventRecord record dec = .ok () next) : next = dec.afterEventRecord record := by
  cases record with
  | event event =>
      obtain ⟨⟨⟩, counted, hcount, h⟩ := run_bind_eq_ok.mp h
      rw [checkedIncrement_eq_ok hcount] at h
      obtain ⟨⟨⟩, perApi, happi, hnotify⟩ := run_bind_eq_ok.mp h
      rw [run_incrementEventsPerApi] at happi
      split at happi
      · cases happi
      · cases happi
        cases hnotify
        rfl
  | loss loss =>
      obtain ⟨⟨⟩, counted, hcount, h⟩ := run_bind_eq_ok.mp h
      rw [checkedIncrement_eq_ok hcount] at h
      obtain ⟨⟨⟩, observed, hobserve, hnotify⟩ := run_bind_eq_ok.mp h
      rw [withTracker_eq_ok (fun _ _ => CompletenessTracker.observeLoss_eq_ok) hobserve]
        at hnotify
      cases hnotify
      rfl

theorem deliverEventRecord_eq_error {record : EventChunkRecord} (hopen : Open dec)
    (hvalid : validateEventChunkRecord record = .ok ())
    (h : deliverEventRecord record dec = .error e next) : CountOverflow e := by
  cases record with
  | event event =>
      rcases run_bind_eq_error.mp h with hcount | ⟨⟨⟩, counted, -, h⟩
      · exact checkedIncrement_eq_error hcount
      · rcases run_bind_eq_error.mp h with happi | ⟨⟨⟩, perApi, -, hnotify⟩
        · rw [run_incrementEventsPerApi] at happi
          split at happi
          · cases happi
            exact .inr rfl
          · cases happi
        · cases hnotify
  | loss loss =>
      rcases run_bind_eq_error.mp h with hcount | ⟨⟨⟩, counted, hcount, h⟩
      · exact checkedIncrement_eq_error hcount
      · -- a valid loss is observed
        rw [checkedIncrement_eq_ok hcount] at h
        rcases run_bind_eq_error.mp h with hobserve | ⟨⟨⟩, observed, -, hnotify⟩
        · cases htracker : (dec.counted .loss).completeness with
          | some tracker =>
              rw [run_withTracker htracker,
                CompletenessTracker.observeLoss_of (hopen tracker htracker) hvalid] at hobserve
              cases hobserve
          | none =>
              rw [run_withTracker_none htracker] at hobserve
              cases hobserve
        · cases hnotify

end Deliveries

/-! ## Handlers that ran -/

section Handlers

variable {dec next : EventStreamDecoder} {e : Error} {payload : Bytes}
  {descriptor : ChunkDescriptor}

theorem run_requireCaptureScope (message : String) :
    requireCaptureScope message dec =
      if dec.captureScope = none ∨ dec.completeness = none then .error (.eventStream message) dec
      else .ok () dec := by
  unfold requireCaptureScope
  rw [run_bind, run_get]
  dsimp only
  by_cases hnone : dec.captureScope = none ∨ dec.completeness = none
  · rw [if_pos hnone, failIf_of hnone]
    rfl
  · rw [if_neg hnone, failIf_of_not hnone]
    rfl

/-- The decoder has met the scope. -/
def Scoped (dec : EventStreamDecoder) : Prop :=
  dec.captureScope ≠ none ∧ dec.completeness ≠ none

theorem scoped_mark (issue : CompletenessIssue) : Scoped (dec.mark issue) ↔ Scoped dec := by
  unfold Scoped
  rw [ne_eq, ne_eq, dec.mark_completeness_eq_none, dec.mark_eq]

theorem scoped_markIf (p : Bool) (issue : CompletenessIssue) :
    Scoped (dec.markIf p issue) ↔ Scoped dec := by
  unfold EventStreamDecoder.markIf
  cases p with
  | true => exact scoped_mark issue
  | false => exact Iff.rfl

theorem requireCaptureScope_eq_ok {message : String} :
    requireCaptureScope message dec = .ok () next ↔ Scoped dec ∧ dec = next := by
  rw [run_requireCaptureScope]
  unfold Scoped
  by_cases hnone : dec.captureScope = none ∨ dec.completeness = none
  · rw [if_pos hnone]
    simp
    tauto
  · rw [if_neg hnone]
    simp
    tauto

theorem requireCaptureScope_eq_error {message : String}
    (h : requireCaptureScope message dec = .error e next) : next = dec := by
  rw [run_requireCaptureScope] at h
  split at h
  · cases h
    rfl
  · cases h

theorem run_requireNoStatistics :
    requireNoStatistics dec = if dec.statistics ≠ none then
      .error (.eventStream "trace contains events after CaptureStatistics") dec
    else .ok () dec := by
  unfold requireNoStatistics
  rw [run_bind, run_get]
  dsimp only
  by_cases hnone : dec.statistics ≠ none
  · rw [if_pos hnone, failIf_of hnone]
    rfl
  · rw [if_neg hnone, failIf_of_not hnone]
    rfl

theorem requireNoStatistics_eq_ok :
    requireNoStatistics dec = .ok () next ↔ dec.statistics = none ∧ dec = next := by
  rw [run_requireNoStatistics]
  by_cases hnone : dec.statistics ≠ none
  · rw [if_pos hnone]
    simp
    tauto
  · rw [if_neg hnone]
    simp
    tauto

theorem run_markIf (p : Bool) : onlyIf (p = true) markUnknownRecordSkipped dec =
    .ok () (dec.markIf p .unknownRecordSkipped) := by
  cases p <;> rfl

/-- The scan of `process_metadata`. -/
def scanMetadata (dec : EventStreamDecoder) (payload : Bytes) : Except Error MetadataScan :=
  forRecords dec.maximumRecordSize (MetadataScan.step dec.captureScope)
    { customHookApiIds := dec.customHookApiIds, bufferConfiguration := dec.bufferConfiguration }
    payload

def EventStreamDecoder.afterMetadata (dec : EventStreamDecoder) (scan : MetadataScan) :
    EventStreamDecoder :=
  let dec := { dec with
    customHookApiIds := scan.customHookApiIds
    bufferConfiguration := scan.bufferConfiguration }
  let dec := match scan.scope with
    | some scope => dec.started scope
    | none => dec
  let dec := dec.markIf scan.skippedUnknown .unknownRecordSkipped
  let dec := scan.customHooks.foldl EventStreamDecoder.afterCustomHook dec
  scan.customHookFailures.foldl EventStreamDecoder.afterCustomHookFailure dec

theorem startCaptureScope_eq_ok {scope : CaptureScope}
    (h : startCaptureScope scope dec = .ok () next) :
    validateCaptureScope scope = .ok () ∧ next = dec.started scope := by
  obtain ⟨⟨⟩, _, hcheck, h⟩ := run_bind_eq_ok.mp h
  obtain ⟨hvalid, rfl⟩ := run_check_eq_ok.mp hcheck
  obtain ⟨⟨⟩, _, hmodify, hnotify⟩ := run_bind_eq_ok.mp h
  cases hmodify
  cases hnotify
  exact ⟨hvalid, rfl⟩

theorem processMetadata_eq_ok (h : processMetadata payload dec = .ok () next) :
    ∃ scan, scanMetadata dec payload = .ok scan ∧ next = dec.afterMetadata scan := by
  obtain ⟨_, _, hget, h⟩ := run_bind_eq_ok.mp h
  obtain ⟨rfl, rfl⟩ := run_get_eq_ok.mp hget
  obtain ⟨scan, _, hcheck, h⟩ := run_bind_eq_ok.mp h
  obtain ⟨hscan, rfl⟩ := run_check_eq_ok.mp hcheck
  obtain ⟨⟨⟩, _, hmodify, h⟩ := run_bind_eq_ok.mp h
  cases hmodify
  refine ⟨scan, hscan, ?_⟩
  obtain ⟨⟨⟩, begun, hscope, h⟩ := run_bind_eq_ok.mp h
  obtain ⟨⟨⟩, _, hmark, h⟩ := run_bind_eq_ok.mp h
  rw [run_markIf] at hmark
  cases hmark
  obtain ⟨⟨⟩, hooked, hhooks, hfailures⟩ := run_bind_eq_ok.mp h
  have hhooks := run_forM_eq_ok (g := EventStreamDecoder.afterCustomHook) (by
    intro definition s t h
    cases h
    rfl) hhooks
  have hfailures := run_forM_eq_ok (g := EventStreamDecoder.afterCustomHookFailure) (by
    intro failure s t h
    cases h
    rfl) hfailures
  rw [hfailures, hhooks]
  unfold EventStreamDecoder.afterMetadata
  cases hvalue : scan.scope with
  | none =>
      rw [hvalue] at hscope
      cases hscope
      rfl
  | some scope =>
      rw [hvalue] at hscope
      rw [(startCaptureScope_eq_ok hscope).2]

def scanModules (dec : EventStreamDecoder) (payload : Bytes) :
    Except Error (RecordScan ModuleRecord) :=
  forRecords dec.maximumRecordSize (RecordScan.step decodeModuleRecord) {} payload

def EventStreamDecoder.afterModules (dec : EventStreamDecoder) (scan : RecordScan ModuleRecord)
    (table : ModuleTable) : EventStreamDecoder :=
  scan.records.foldl EventStreamDecoder.afterModule
    ({ dec with
      modules := table
      knownMonotonicEnd := max dec.knownMonotonicEnd table.previousTicks }.markIf
        scan.skippedUnknown .unknownRecordSkipped)

theorem processModules_eq_ok (h : processModules payload dec = .ok () next) :
    Scoped dec ∧ ∃ scan table, scanModules dec payload = .ok scan ∧
      scan.records.foldlM (ModuleTable.step dec.fileHeader.monotonicOrigin) dec.modules =
        .ok table ∧ next = dec.afterModules scan table := by
  obtain ⟨⟨⟩, _, hscope, h⟩ := run_bind_eq_ok.mp h
  obtain ⟨hscoped, rfl⟩ := requireCaptureScope_eq_ok.mp hscope
  obtain ⟨_, _, hget, h⟩ := run_bind_eq_ok.mp h
  obtain ⟨rfl, rfl⟩ := run_get_eq_ok.mp hget
  obtain ⟨scan, _, hcheck, h⟩ := run_bind_eq_ok.mp h
  obtain ⟨hscan, rfl⟩ := run_check_eq_ok.mp hcheck
  obtain ⟨table, _, hcheck, h⟩ := run_bind_eq_ok.mp h
  obtain ⟨htable, rfl⟩ := run_check_eq_ok.mp hcheck
  obtain ⟨⟨⟩, _, hmodify, h⟩ := run_bind_eq_ok.mp h
  cases hmodify
  obtain ⟨⟨⟩, _, hmark, hdeliver⟩ := run_bind_eq_ok.mp h
  rw [run_markIf] at hmark
  cases hmark
  exact ⟨hscoped, scan, table, hscan, htable,
    run_forM_eq_ok (fun _ _ _ => deliverModule_eq_ok) hdeliver⟩

def scanStacks (dec : EventStreamDecoder) (payload : Bytes) : Except Error StackScan :=
  forRecords dec.maximumRecordSize (StackScan.step dec.modules) { ids := dec.stackIds } payload

def EventStreamDecoder.afterStacks (dec : EventStreamDecoder) (scan : StackScan) :
    EventStreamDecoder :=
  scan.definitions.foldl EventStreamDecoder.afterStack
    (dec.markIf scan.skippedUnknown .unknownRecordSkipped)

theorem processStacks_eq_ok (h : processStacks payload dec = .ok () next) :
    Scoped dec ∧ ∃ scan, scanStacks dec payload = .ok scan ∧ next = dec.afterStacks scan := by
  obtain ⟨⟨⟩, _, hscope, h⟩ := run_bind_eq_ok.mp h
  obtain ⟨hscoped, rfl⟩ := requireCaptureScope_eq_ok.mp hscope
  obtain ⟨_, _, hget, h⟩ := run_bind_eq_ok.mp h
  obtain ⟨rfl, rfl⟩ := run_get_eq_ok.mp hget
  obtain ⟨scan, _, hcheck, h⟩ := run_bind_eq_ok.mp h
  obtain ⟨hscan, rfl⟩ := run_check_eq_ok.mp hcheck
  obtain ⟨⟨⟩, _, hmark, hdeliver⟩ := run_bind_eq_ok.mp h
  rw [run_markIf] at hmark
  cases hmark
  exact ⟨hscoped, scan, hscan, run_forM_eq_ok (fun _ _ _ => deliverStack_eq_ok) hdeliver⟩

def scanEvents (dec : EventStreamDecoder) (payload : Bytes) : Except Error EventScan :=
  forRecords dec.maximumRecordSize (EventScan.step dec.fileHeader.monotonicOrigin)
    { order := dec.order } payload

/-- The bounds an event chunk adds to those known. -/
def EventStreamDecoder.withBounds (dec : EventStreamDecoder) (scan : EventScan) :
    EventStreamDecoder :=
  { dec with
    order := scan.order
    knownSequenceEnd := max dec.knownSequenceEnd scan.bounds.sequenceEnd
    knownMonotonicEnd := max dec.knownMonotonicEnd scan.bounds.maximumTicks }

def EventStreamDecoder.afterEvents (dec : EventStreamDecoder) (scan : EventScan) :
    EventStreamDecoder :=
  scan.records.foldl EventStreamDecoder.afterEventRecord
    ((if scan.skippedUnknown then dec.unknownEvents else dec).withBounds scan)

/-- Events may follow: the scope is there, and the statistics are not. -/
def EventsAllowed (dec : EventStreamDecoder) : Prop := Scoped dec ∧ dec.statistics = none

theorem requireEventsAllowed_eq_ok :
    requireEventsAllowed dec = .ok () next ↔ EventsAllowed dec ∧ dec = next := by
  unfold requireEventsAllowed EventsAllowed
  rw [run_bind_eq_ok]
  constructor
  · rintro ⟨⟨⟩, _, hscope, hstatistics⟩
    obtain ⟨hscoped, rfl⟩ := requireCaptureScope_eq_ok.mp hscope
    obtain ⟨hnone, rfl⟩ := requireNoStatistics_eq_ok.mp hstatistics
    exact ⟨⟨hscoped, hnone⟩, rfl⟩
  · rintro ⟨⟨hscoped, hnone⟩, rfl⟩
    exact ⟨(), dec, requireCaptureScope_eq_ok.mpr ⟨hscoped, rfl⟩,
      requireNoStatistics_eq_ok.mpr ⟨hnone, rfl⟩⟩

theorem run_markEvents (p : Bool) : onlyIf (p = true) markUnknownEventData dec =
    .ok () (if p then dec.unknownEvents else dec) := by
  cases p <;> rfl

theorem processEvents_eq_ok (h : processEvents descriptor payload dec = .ok () next) :
    EventsAllowed dec ∧ ∃ scan, scanEvents dec payload = .ok scan ∧
      validateEventSequenceRange descriptor scan.bounds scan.skippedUnknown = .ok () ∧
      next = dec.afterEvents scan := by
  obtain ⟨⟨⟩, _, hrequire, h⟩ := run_bind_eq_ok.mp h
  obtain ⟨hallowed, rfl⟩ := requireEventsAllowed_eq_ok.mp hrequire
  obtain ⟨_, _, hget, h⟩ := run_bind_eq_ok.mp h
  obtain ⟨rfl, rfl⟩ := run_get_eq_ok.mp hget
  obtain ⟨scan, _, hcheck, h⟩ := run_bind_eq_ok.mp h
  obtain ⟨hscan, rfl⟩ := run_check_eq_ok.mp hcheck
  obtain ⟨⟨⟩, _, hcheck, h⟩ := run_bind_eq_ok.mp h
  obtain ⟨hrange, rfl⟩ := run_check_eq_ok.mp hcheck
  obtain ⟨⟨⟩, _, hmark, h⟩ := run_bind_eq_ok.mp h
  rw [run_markEvents] at hmark
  cases hmark
  obtain ⟨⟨⟩, _, hmodify, hdeliver⟩ := run_bind_eq_ok.mp h
  cases hmodify
  exact ⟨hallowed, scan, hscan, hrange,
    run_forM_eq_ok (fun _ _ _ => deliverEventRecord_eq_ok) hdeliver⟩

def scanMemory (dec : EventStreamDecoder) (payload : Bytes) : Except Error MemoryScan :=
  forRecords dec.maximumRecordSize (MemoryScan.step dec.fileHeader.monotonicOrigin)
    { previousTicks := dec.previousMemoryTicks } payload

/-- What a memory chunk delivers, by kinds. -/
def MemoryScan.deliveries (scan : MemoryScan) : List (Counter × Callback) :=
  scan.counters.map (fun counters => (.memoryCounters, .memoryCounters counters)) ++
    scan.maps.map (fun map => (.memoryMap, .memoryMap map)) ++
    scan.samples.map (fun memory => (.agentMemory, .agentMemory memory))

def EventStreamDecoder.afterDelivery (dec : EventStreamDecoder) (delivery : Counter × Callback) :
    EventStreamDecoder :=
  dec.afterCounted delivery.1 delivery.2

def EventStreamDecoder.afterMemory (dec : EventStreamDecoder) (scan : MemoryScan) :
    EventStreamDecoder :=
  scan.deliveries.foldl EventStreamDecoder.afterDelivery
    { dec.markIf scan.skippedUnknown .unknownRecordSkipped with
      previousMemoryTicks := scan.previousTicks }

theorem processMemory_eq_ok (h : processMemory payload dec = .ok () next) :
    Scoped dec ∧ ∃ scan, scanMemory dec payload = .ok scan ∧ next = dec.afterMemory scan := by
  obtain ⟨⟨⟩, _, hscope, h⟩ := run_bind_eq_ok.mp h
  obtain ⟨hscoped, rfl⟩ := requireCaptureScope_eq_ok.mp hscope
  obtain ⟨_, _, hget, h⟩ := run_bind_eq_ok.mp h
  obtain ⟨rfl, rfl⟩ := run_get_eq_ok.mp hget
  obtain ⟨scan, _, hcheck, h⟩ := run_bind_eq_ok.mp h
  obtain ⟨hscan, rfl⟩ := run_check_eq_ok.mp hcheck
  obtain ⟨⟨⟩, _, hmark, h⟩ := run_bind_eq_ok.mp h
  rw [run_markIf] at hmark
  cases hmark
  obtain ⟨⟨⟩, _, hmodify, h⟩ := run_bind_eq_ok.mp h
  cases hmodify
  obtain ⟨⟨⟩, _, hcounters, h⟩ := run_bind_eq_ok.mp h
  obtain ⟨⟨⟩, _, hmaps, hsamples⟩ := run_bind_eq_ok.mp h
  refine ⟨hscoped, scan, hscan, ?_⟩
  rw [run_forM_eq_ok (fun _ _ _ => deliverCounted_eq_ok _) hsamples,
    run_forM_eq_ok (fun _ _ _ => deliverCounted_eq_ok _) hmaps,
    run_forM_eq_ok (fun _ _ _ => deliverCounted_eq_ok _) hcounters]
  unfold EventStreamDecoder.afterMemory MemoryScan.deliveries
  rw [List.foldl_append, List.foldl_append, List.foldl_map, List.foldl_map, List.foldl_map]
  rfl

def scanStatistics (dec : EventStreamDecoder) (payload : Bytes) :
    Except Error (SingleScan CaptureStatistics) :=
  forRecords dec.maximumRecordSize
    (SingleScan.step decodeStatisticsRecord dec.statistics.isSome
      "trace contains more than one CaptureStatistics record") {} payload

def scanEndOfTrace (dec : EventStreamDecoder) (payload : Bytes) :
    Except Error (SingleScan EndOfTrace) :=
  forRecords dec.maximumRecordSize
    (SingleScan.step decodeEndOfTraceRecord dec.endOfTrace.isSome
      "trace contains more than one EndOfTrace record") {} payload

theorem processStatistics_eq_ok (h : processStatistics payload dec = .ok () next) :
    Scoped dec ∧ ∃ scan, scanStatistics dec payload = .ok scan ∧
      ((scan.value = none ∧ next = dec.markIf scan.skippedUnknown .unknownRecordSkipped) ∨
        ∃ statistics, scan.value = some statistics ∧
          checkStatistics (dec.markIf scan.skippedUnknown .unknownRecordSkipped) statistics =
            .ok () ∧
          next = (dec.markIf scan.skippedUnknown .unknownRecordSkipped).afterStatistics
            statistics) := by
  obtain ⟨⟨⟩, _, hscope, h⟩ := run_bind_eq_ok.mp h
  obtain ⟨hscoped, rfl⟩ := requireCaptureScope_eq_ok.mp hscope
  obtain ⟨_, _, hget, h⟩ := run_bind_eq_ok.mp h
  obtain ⟨rfl, rfl⟩ := run_get_eq_ok.mp hget
  obtain ⟨scan, _, hcheck, h⟩ := run_bind_eq_ok.mp h
  obtain ⟨hscan, rfl⟩ := run_check_eq_ok.mp hcheck
  obtain ⟨⟨⟩, _, hmark, h⟩ := run_bind_eq_ok.mp h
  rw [run_markIf] at hmark
  cases hmark
  refine ⟨hscoped, scan, hscan, ?_⟩
  cases hvalue : scan.value with
  | none =>
      rw [hvalue] at h
      cases h
      exact .inl ⟨rfl, rfl⟩
  | some statistics =>
      rw [hvalue] at h
      obtain ⟨_, _, hget, h⟩ := run_bind_eq_ok.mp h
      obtain ⟨rfl, rfl⟩ := run_get_eq_ok.mp hget
      obtain ⟨⟨⟩, _, hcheck, h⟩ := run_bind_eq_ok.mp h
      obtain ⟨hmatch, rfl⟩ := run_check_eq_ok.mp hcheck
      obtain ⟨⟨⟩, _, hmodify, hnotify⟩ := run_bind_eq_ok.mp h
      cases hmodify
      cases hnotify
      exact .inr ⟨statistics, rfl, hmatch, rfl⟩

theorem acceptEndOfTrace_eq_ok {trace : EndOfTrace} (hscoped : Scoped dec)
    (h : acceptEndOfTrace trace dec = .ok () next) :
    validateEndOfTrace trace = .ok () ∧ checkEndOfTrace dec trace = .ok () ∧
      next = dec.afterEndOfTrace trace := by
  obtain ⟨_, _, hget, h⟩ := run_bind_eq_ok.mp h
  obtain ⟨rfl, rfl⟩ := run_get_eq_ok.mp hget
  obtain ⟨⟨⟩, _, hcheck, h⟩ := run_bind_eq_ok.mp h
  obtain ⟨hbounds, rfl⟩ := run_check_eq_ok.mp hcheck
  obtain ⟨⟨⟩, _, hobserve, h⟩ := run_bind_eq_ok.mp h
  obtain ⟨⟨⟩, _, hmodify, hnotify⟩ := run_bind_eq_ok.mp h
  cases hmodify
  cases hnotify
  refine ⟨?_, hbounds, ?_⟩
  · obtain ⟨tracker, htracker⟩ := Option.ne_none_iff_exists'.mp hscoped.2
    rw [run_withTracker htracker] at hobserve
    split at hobserve
    · rename_i result hresult
      exact (CompletenessTracker.observeEndOfTrace_eq_ok hresult).1
    · cases hobserve
  · rw [withTracker_eq_ok (fun _ _ h => (CompletenessTracker.observeEndOfTrace_eq_ok h).2)
      hobserve]
    rfl

theorem processEndOfTrace_eq_ok (h : processEndOfTrace payload dec = .ok () next) :
    Scoped dec ∧ ∃ scan, scanEndOfTrace dec payload = .ok scan ∧
      ((scan.value = none ∧ next = dec.markIf scan.skippedUnknown .unknownRecordSkipped) ∨
        ∃ trace, scan.value = some trace ∧ validateEndOfTrace trace = .ok () ∧
          checkEndOfTrace (dec.markIf scan.skippedUnknown .unknownRecordSkipped) trace = .ok () ∧
          next = (dec.markIf scan.skippedUnknown .unknownRecordSkipped).afterEndOfTrace
            trace) := by
  obtain ⟨⟨⟩, _, hscope, h⟩ := run_bind_eq_ok.mp h
  obtain ⟨hscoped, rfl⟩ := requireCaptureScope_eq_ok.mp hscope
  obtain ⟨_, _, hget, h⟩ := run_bind_eq_ok.mp h
  obtain ⟨rfl, rfl⟩ := run_get_eq_ok.mp hget
  obtain ⟨scan, _, hcheck, h⟩ := run_bind_eq_ok.mp h
  obtain ⟨hscan, rfl⟩ := run_check_eq_ok.mp hcheck
  obtain ⟨⟨⟩, _, hmark, h⟩ := run_bind_eq_ok.mp h
  rw [run_markIf] at hmark
  cases hmark
  refine ⟨hscoped, scan, hscan, ?_⟩
  cases hvalue : scan.value with
  | none =>
      rw [hvalue] at h
      cases h
      exact .inl ⟨rfl, rfl⟩
  | some trace =>
      rw [hvalue] at h
      obtain ⟨hvalid, hbounds, rfl⟩ := acceptEndOfTrace_eq_ok ((scoped_markIf _ _).mpr hscoped) h
      exact .inr ⟨trace, rfl, hvalid, hbounds, rfl⟩

/-! ## Chunks that were accepted -/

/-- What a chunk of the version this decoder knows leaves. -/
inductive Handled (dec : EventStreamDecoder) (descriptor : ChunkDescriptor) (payload : Bytes) :
    ChunkType → EventStreamDecoder → Prop
  | metadata {scan : MetadataScan} (hscan : scanMetadata dec payload = .ok scan) :
      Handled dec descriptor payload .metadata (dec.afterMetadata scan)
  | modules {scan : RecordScan ModuleRecord} {table : ModuleTable} (hscoped : Scoped dec)
      (hscan : scanModules dec payload = .ok scan)
      (htable : scan.records.foldlM (ModuleTable.step dec.fileHeader.monotonicOrigin)
        dec.modules = .ok table) :
      Handled dec descriptor payload .module (dec.afterModules scan table)
  | definitions {scan : StackScan} (hscoped : Scoped dec) (hscan : scanStacks dec payload = .ok scan) :
      Handled dec descriptor payload .stack (dec.afterStacks scan)
  | events {scan : EventScan} (hallowed : EventsAllowed dec)
      (hscan : scanEvents dec payload = .ok scan)
      (hrange : validateEventSequenceRange descriptor scan.bounds scan.skippedUnknown = .ok ()) :
      Handled dec descriptor payload .event (dec.afterEvents scan)
  | memory {scan : MemoryScan} (hscoped : Scoped dec) (hscan : scanMemory dec payload = .ok scan) :
      Handled dec descriptor payload .memory (dec.afterMemory scan)
  | noStatistics {scan : SingleScan CaptureStatistics} (hscoped : Scoped dec)
      (hscan : scanStatistics dec payload = .ok scan) (hvalue : scan.value = none) :
      Handled dec descriptor payload .statistics
        (dec.markIf scan.skippedUnknown .unknownRecordSkipped)
  | statistics {scan : SingleScan CaptureStatistics} {value : CaptureStatistics}
      (hscoped : Scoped dec) (hscan : scanStatistics dec payload = .ok scan)
      (hvalue : scan.value = some value)
      (hmatch : checkStatistics (dec.markIf scan.skippedUnknown .unknownRecordSkipped) value =
        .ok ()) :
      Handled dec descriptor payload .statistics
        ((dec.markIf scan.skippedUnknown .unknownRecordSkipped).afterStatistics value)
  | noEndOfTrace {scan : SingleScan EndOfTrace} (hscoped : Scoped dec)
      (hscan : scanEndOfTrace dec payload = .ok scan) (hvalue : scan.value = none) :
      Handled dec descriptor payload .endOfTrace
        { dec.markIf scan.skippedUnknown .unknownRecordSkipped with sawEndChunk := true }
  | endOfTrace {scan : SingleScan EndOfTrace} {trace : EndOfTrace} (hscoped : Scoped dec)
      (hscan : scanEndOfTrace dec payload = .ok scan) (hvalue : scan.value = some trace)
      (hvalid : validateEndOfTrace trace = .ok ())
      (hbounds : checkEndOfTrace (dec.markIf scan.skippedUnknown .unknownRecordSkipped) trace =
        .ok ()) :
      Handled dec descriptor payload .endOfTrace
        { (dec.markIf scan.skippedUnknown .unknownRecordSkipped).afterEndOfTrace trace with
          sawEndChunk := true }

theorem processKnownChunk_eq_ok (h : processKnownChunk descriptor payload dec = .ok () next) :
    Handled dec descriptor payload descriptor.type next := by
  unfold processKnownChunk at h
  cases htype : descriptor.type with
  | metadata =>
      rw [htype] at h
      obtain ⟨⟨⟩, _, hcheck, h⟩ := run_bind_eq_ok.mp h
      obtain ⟨-, rfl⟩ := run_check_eq_ok.mp hcheck
      obtain ⟨scan, hscan, rfl⟩ := processMetadata_eq_ok h
      exact .metadata hscan
  | module =>
      rw [htype] at h
      obtain ⟨⟨⟩, _, hcheck, h⟩ := run_bind_eq_ok.mp h
      obtain ⟨-, rfl⟩ := run_check_eq_ok.mp hcheck
      obtain ⟨hscoped, scan, table, hscan, htable, rfl⟩ := processModules_eq_ok h
      exact .modules hscoped hscan htable
  | stack =>
      rw [htype] at h
      obtain ⟨⟨⟩, _, hcheck, h⟩ := run_bind_eq_ok.mp h
      obtain ⟨-, rfl⟩ := run_check_eq_ok.mp hcheck
      obtain ⟨hscoped, scan, hscan, rfl⟩ := processStacks_eq_ok h
      exact .definitions hscoped hscan
  | event =>
      rw [htype] at h
      obtain ⟨hallowed, scan, hscan, hrange, rfl⟩ := processEvents_eq_ok h
      exact .events hallowed hscan hrange
  | memory =>
      rw [htype] at h
      obtain ⟨⟨⟩, _, hcheck, h⟩ := run_bind_eq_ok.mp h
      obtain ⟨-, rfl⟩ := run_check_eq_ok.mp hcheck
      obtain ⟨hscoped, scan, hscan, rfl⟩ := processMemory_eq_ok h
      exact .memory hscoped hscan
  | statistics =>
      rw [htype] at h
      obtain ⟨⟨⟩, _, hcheck, h⟩ := run_bind_eq_ok.mp h
      obtain ⟨-, rfl⟩ := run_check_eq_ok.mp hcheck
      obtain ⟨hscoped, scan, hscan, ⟨hvalue, rfl⟩ | ⟨value, hvalue, hmatch, rfl⟩⟩ :=
        processStatistics_eq_ok h
      · exact .noStatistics hscoped hscan hvalue
      · exact .statistics hscoped hscan hvalue hmatch
  | endOfTrace =>
      rw [htype] at h
      obtain ⟨⟨⟩, _, hcheck, h⟩ := run_bind_eq_ok.mp h
      obtain ⟨-, rfl⟩ := run_check_eq_ok.mp hcheck
      obtain ⟨⟨⟩, _, hend, hmark⟩ := run_bind_eq_ok.mp h
      cases hmark
      obtain ⟨hscoped, scan, hscan, ⟨hvalue, rfl⟩ | ⟨trace, hvalue, hvalid, hbounds, rfl⟩⟩ :=
        processEndOfTrace_eq_ok hend
      · exact .noEndOfTrace hscoped hscan hvalue
      · exact .endOfTrace hscoped hscan hvalue hvalid hbounds

/-- The decoder after a chunk of a newer version. -/
def EventStreamDecoder.afterFuture (dec : EventStreamDecoder) (descriptor : ChunkDescriptor) :
    EventStreamDecoder :=
  let dec := dec.mark .partiallyUnderstoodFormat
  if descriptor.type = .event then
    { dec.unknownEvents with
      knownSequenceEnd := max dec.unknownEvents.knownSequenceEnd descriptor.sequenceEnd }
  else
    { dec.mark .unknownRecordSkipped with
      sawEndChunk := (dec.mark .unknownRecordSkipped).sawEndChunk ||
        decide (descriptor.type = .endOfTrace) }

theorem run_skipFutureChunk :
    skipFutureChunk descriptor dec = .ok () (dec.afterFuture descriptor) := by
  obtain ⟨type, version, flags, codec, first, last⟩ := descriptor
  cases type <;> simp [skipFutureChunk, skipFutureData, EventStreamDecoder.afterFuture] <;> rfl

/-- What a chunk leaves that was processed. -/
inductive Accepted (dec : EventStreamDecoder) (chunk : TraceChunk) : EventStreamDecoder → Prop
  | future (hversion : chunk.header.descriptor.version ≠ 1)
      (hevents : chunk.header.descriptor.type = .event → EventsAllowed dec) :
      Accepted dec chunk ((dec.markIf (chunk.header.descriptor.flags ≠ 0)
        .partiallyUnderstoodFormat).afterFuture chunk.header.descriptor)
  | known {next : EventStreamDecoder} (hversion : chunk.header.descriptor.version = 1)
      (hevents : chunk.header.descriptor.type = .event → EventsAllowed dec)
      (hhandled : Handled
        (dec.markIf (chunk.header.descriptor.flags ≠ 0) .partiallyUnderstoodFormat)
        chunk.header.descriptor chunk.payload chunk.header.descriptor.type next) :
      Accepted dec chunk next

theorem eventsAllowed_markIf (p : Bool) (issue : CompletenessIssue) :
    EventsAllowed (dec.markIf p issue) ↔ EventsAllowed dec := by
  unfold EventsAllowed
  rw [scoped_markIf]
  unfold EventStreamDecoder.markIf
  cases p with
  | true => rw [if_pos rfl, dec.mark_eq]
  | false => exact Iff.rfl

theorem run_markFlags (p : Prop) [Decidable p] : onlyIf p markPartiallyUnderstood dec =
    .ok () (dec.markIf p .partiallyUnderstoodFormat) := by
  rw [run_onlyIf]
  by_cases h : p
  · rw [if_pos h, decide_eq_true h]
    rfl
  · rw [if_neg h, decide_eq_false h]
    rfl

theorem processChunk_eq_ok {chunk : TraceChunk} (h : processChunk chunk dec = .ok () next) :
    Accepted dec chunk next := by
  obtain ⟨⟨⟩, _, hflags, h⟩ := run_bind_eq_ok.mp h
  rw [run_markFlags] at hflags
  cases hflags
  obtain ⟨⟨⟩, required, hrequire, h⟩ := run_bind_eq_ok.mp h
  rw [run_onlyIf] at hrequire
  have hallowed : chunk.header.descriptor.type = .event → EventsAllowed dec := by
    intro htype
    rw [if_pos htype] at hrequire
    exact (eventsAllowed_markIf _ _).mp (requireEventsAllowed_eq_ok.mp hrequire).1
  have hsame : dec.markIf (chunk.header.descriptor.flags ≠ 0) .partiallyUnderstoodFormat =
      required := by
    split at hrequire
    · exact (requireEventsAllowed_eq_ok.mp hrequire).2
    · cases hrequire
      rfl
  subst hsame
  rw [run_ite] at h
  split at h
  · rename_i hversion
    rw [run_skipFutureChunk] at h
    cases h
    exact .future hversion hallowed
  · rename_i hversion
    exact .known (not_not.mp hversion) hallowed (processKnownChunk_eq_ok h)

theorem acceptChunk_eq_ok {chunk : TraceChunk} (h : acceptChunk chunk dec = .ok () next) :
    dec.sawEndChunk = false ∧ Accepted dec chunk next := by
  obtain ⟨_, _, hget, h⟩ := run_bind_eq_ok.mp h
  obtain ⟨rfl, rfl⟩ := run_get_eq_ok.mp hget
  obtain ⟨⟨⟩, _, hcheck, h⟩ := run_bind_eq_ok.mp h
  obtain ⟨hend, rfl⟩ := run_check_eq_ok.mp hcheck
  exact ⟨Bool.eq_false_of_not_eq_true (failIf_eq_ok.mp hend), processChunk_eq_ok h⟩

/-! ## What a chunk leaves as it was -/

/-- What no chunk changes. -/
structure StreamFrame where
  fileHeader : FileHeader
  maximumRecordSize : ℕ
  readerPartialMarked : Bool
  truncated : Bool

def EventStreamDecoder.frame (dec : EventStreamDecoder) : StreamFrame where
  fileHeader := dec.fileHeader
  maximumRecordSize := dec.maximumRecordSize
  readerPartialMarked := dec.readerPartialMarked
  truncated := dec.truncated

theorem EventStreamDecoder.frame_mark (dec : EventStreamDecoder) (issue : CompletenessIssue) :
    (dec.mark issue).frame = dec.frame := by
  rw [dec.mark_eq]
  rfl

theorem EventStreamDecoder.frame_markIf (dec : EventStreamDecoder) (p : Bool)
    (issue : CompletenessIssue) : (dec.markIf p issue).frame = dec.frame := by
  unfold EventStreamDecoder.markIf
  cases p with
  | true => exact dec.frame_mark issue
  | false => rfl

theorem frame_afterMetadata (dec : EventStreamDecoder) (scan : MetadataScan) :
    (dec.afterMetadata scan).frame = dec.frame := by
  unfold EventStreamDecoder.afterMetadata
  dsimp only
  rw [foldl_leaves (F := EventStreamDecoder.frame)
      (g := EventStreamDecoder.afterCustomHookFailure) (fun s _ => s.frame_mark _),
    foldl_leaves (F := EventStreamDecoder.frame) (g := EventStreamDecoder.afterCustomHook)
      (fun _ _ => rfl),
    EventStreamDecoder.frame_markIf]
  cases scan.scope <;> rfl

theorem frame_afterEvents (dec : EventStreamDecoder) (scan : EventScan) :
    (dec.afterEvents scan).frame = dec.frame := by
  unfold EventStreamDecoder.afterEvents
  rw [foldl_leaves (F := EventStreamDecoder.frame) (g := EventStreamDecoder.afterEventRecord)
    (fun s record => by cases record <;> rfl)]
  cases scan.skippedUnknown with
  | true => exact EventStreamDecoder.frame_mark { dec with mayHaveUnknownEvents := true } _
  | false => rfl

theorem frame_afterMemory (dec : EventStreamDecoder) (scan : MemoryScan) :
    (dec.afterMemory scan).frame = dec.frame := by
  unfold EventStreamDecoder.afterMemory
  rw [foldl_leaves (F := EventStreamDecoder.frame) (g := EventStreamDecoder.afterDelivery)
    (fun _ _ => rfl)]
  exact dec.frame_markIf _ _

theorem Handled.frame {type : ChunkType} (h : Handled dec descriptor payload type next) :
    next.frame = dec.frame := by
  cases h with
  | metadata hscan => exact frame_afterMetadata dec _
  | modules hscoped hscan htable =>
      unfold EventStreamDecoder.afterModules
      rw [foldl_leaves (F := EventStreamDecoder.frame) (g := EventStreamDecoder.afterModule)
        (fun s record => by cases record <;> rfl), EventStreamDecoder.frame_markIf]
      rfl
  | definitions hscoped hscan =>
      unfold EventStreamDecoder.afterStacks
      rw [foldl_leaves (F := EventStreamDecoder.frame) (g := EventStreamDecoder.afterStack)
        (fun _ _ => rfl), EventStreamDecoder.frame_markIf]
  | events hallowed hscan hrange => exact frame_afterEvents dec _
  | memory hscoped hscan => exact frame_afterMemory dec _
  | noStatistics hscoped hscan hvalue => exact dec.frame_markIf _ _
  | statistics hscoped hscan hvalue hmatch => exact dec.frame_markIf _ _
  | noEndOfTrace hscoped hscan hvalue => exact dec.frame_markIf _ _
  | endOfTrace hscoped hscan hvalue hvalid hbounds => exact dec.frame_markIf _ _

theorem frame_afterFuture (dec : EventStreamDecoder) (descriptor : ChunkDescriptor) :
    (dec.afterFuture descriptor).frame = dec.frame := by
  unfold EventStreamDecoder.afterFuture
  dsimp only
  split
  · show (EventStreamDecoder.unknownEvents _).frame = _
    unfold EventStreamDecoder.unknownEvents
    rw [EventStreamDecoder.frame_mark]
    exact dec.frame_mark _
  · show (EventStreamDecoder.mark _ _).frame = _
    rw [EventStreamDecoder.frame_mark, EventStreamDecoder.frame_mark]

theorem Accepted.frame {chunk : TraceChunk} (h : Accepted dec chunk next) :
    next.frame = dec.frame := by
  cases h with
  | future hversion hevents => rw [frame_afterFuture, EventStreamDecoder.frame_markIf]
  | known hversion hevents hhandled => rw [hhandled.frame, EventStreamDecoder.frame_markIf]

end Handlers

end Noleax.Analyzer
