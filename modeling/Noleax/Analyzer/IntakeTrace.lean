import Noleax.Analyzer.IntakeChunks

/-!
# The traces of an intake (`src/analyzer/event_stream.cpp`)

A trace opens with the metadata, which holds the capture scope. A decoder that has met them
reflects the empty intake, and from there accepts the chunks that are taken, whatever the
codec they are stored with.
-/

namespace Noleax.Analyzer

open Lib Trace

/-! ## Metadata -/

/-- The API id of a custom hook. -/
def hookApiId : MetadataRecord → Option ℕ
  | .customHookDefinition apiId => some apiId
  | _ => none

/-- The records that a trace may open with: the scope, at most one configuration, and
custom hooks of different APIs. -/
structure Opening (scope : CaptureScope) (records : List MetadataRecord) : Prop where
  records : ∃ rest, records = .captureScope scope :: rest ∧ (∀ s, .captureScope s ∉ rest) ∧
    rest.count .bufferConfiguration ≤ 1 ∧ (rest.filterMap hookApiId).Nodup

/-- A record of the metadata, without its bytes. -/
def MetadataScan.take (known : Option CaptureScope) (scan : MetadataScan) :
    MetadataContent → Except Error MetadataScan
  | .scope scope => scan.addScope known scope
  | .configuration configuration => scan.addBufferConfiguration configuration
  | .hook definition => scan.addCustomHook definition
  | .failure failure =>
      .ok { scan with customHookFailures := scan.customHookFailures ++ [failure] }

/-- The decoders are tried one after the other, and one of them knows the record. -/
theorem metadataStep_decoded {known : Option CaptureScope} (scan : MetadataScan)
    (content : MetadataContent) (record : RecordView) (h : content.DecodedFrom record) :
    scan.step known record = scan.take known content := by
  unfold MetadataScan.step
  cases content with
  | scope scope =>
      have hdecode : decodeCaptureScopeRecord record = .ok (some scope) := h
      rw [hdecode]
      rfl
  | hook definition =>
      have hdecode : decodeCustomHookDefinitionRecord record = .ok (some definition) := h
      have htype := decodeRecord_type hdecode
      have hscope : decodeCaptureScopeRecord record = .ok none :=
        decodeRecord_other (by rw [htype]; decide)
      rw [hscope, ok_bind]
      dsimp only
      rw [hdecode]
      rfl
  | failure failure =>
      have hdecode : decodeCustomHookFailureRecord record = .ok (some failure) := h
      have htype := decodeRecord_type hdecode
      have hscope : decodeCaptureScopeRecord record = .ok none :=
        decodeRecord_other (by rw [htype]; decide)
      have hhook : decodeCustomHookDefinitionRecord record = .ok none :=
        decodeRecord_other (by rw [htype]; decide)
      rw [hscope, ok_bind]
      dsimp only
      rw [hhook, ok_bind]
      dsimp only
      rw [hdecode]
      rfl
  | configuration configuration =>
      have hdecode : decodeBufferConfigurationRecord record = .ok (some configuration) := h
      have htype := decodeRecord_type hdecode
      have hscope : decodeCaptureScopeRecord record = .ok none :=
        decodeRecord_other (by rw [htype]; decide)
      have hhook : decodeCustomHookDefinitionRecord record = .ok none :=
        decodeRecord_other (by rw [htype]; decide)
      have hfailure : decodeCustomHookFailureRecord record = .ok none :=
        decodeRecord_other (by rw [htype]; decide)
      rw [hscope, ok_bind]
      dsimp only
      rw [hhook, ok_bind]
      dsimp only
      rw [hfailure, ok_bind]
      dsimp only
      rw [hdecode]
      rfl

/-- What follows the scope is scanned. -/
theorem metadataScan_rest {rest : List MetadataRecord} {contents : List MetadataContent}
    (hcarries : List.Forall₂ MetadataRecord.Carries rest contents)
    (hscopes : ∀ s, .captureScope s ∉ rest)
    (hconfigurations : rest.count .bufferConfiguration ≤ 1)
    (hhooks : (rest.filterMap hookApiId).Nodup) :
    ∀ scan : MetadataScan,
      (scan.bufferConfiguration ≠ none → rest.count .bufferConfiguration = 0) →
      (∀ apiId ∈ rest.filterMap hookApiId, apiId ∉ scan.customHookApiIds) →
      ∃ next, contents.foldlM (MetadataScan.take none) scan = .ok next ∧
        next.scope = scan.scope ∧ next.skippedUnknown = scan.skippedUnknown := by
  -- by induction on the records, from any scan that has room for them
  induction hcarries with
  | nil => exact fun scan _ _ => ⟨scan, rfl, rfl, rfl⟩
  | @cons record content rest contents hcontent hothers ih =>
      intro scan hfree hfresh
      have hrest := ih (fun s hs => hscopes s (List.mem_cons_of_mem _ hs))
        ((List.count_le_count_cons).trans hconfigurations)
        ((List.Sublist.filterMap _ (List.sublist_cons_self _ _)).nodup hhooks)
      cases hcontent with
      | scope scope => exact absurd List.mem_cons_self (hscopes scope)
      | configuration configuration =>
          rw [List.count_cons_self] at hfree hconfigurations
          have hnone : scan.bufferConfiguration = none := by
            by_contra hsome
            exact absurd (hfree hsome) (Nat.succ_ne_zero _)
          obtain ⟨next, hnext, hscope, hskipped⟩ := hrest
            { scan with bufferConfiguration := some configuration } (fun _ => by omega) hfresh
          refine ⟨next, ?_, hscope, hskipped⟩
          have htake : scan.take none (.configuration configuration) =
              .ok { scan with bufferConfiguration := some configuration } :=
            failIf_bind_eq_ok.mpr ⟨not_not.mpr hnone, rfl⟩
          rw [List.foldlM_cons, htake, ok_bind]
          exact hnext
      | hook definition =>
          have hnew : definition.apiId ∉ scan.customHookApiIds := hfresh _ List.mem_cons_self
          obtain ⟨hother, hnodup⟩ := List.nodup_cons.mp hhooks
          obtain ⟨next, hnext, hscope, hskipped⟩ := hrest { scan with
              customHookApiIds := insert definition.apiId scan.customHookApiIds
              customHooks := scan.customHooks ++ [definition] } hfree (by
            intro apiId hapi hmem
            rcases Finset.mem_insert.mp hmem with hsame | hold
            · exact hother (hsame ▸ hapi)
            · exact hfresh apiId (List.mem_cons_of_mem _ hapi) hold)
          refine ⟨next, ?_, hscope, hskipped⟩
          have htake : scan.take none (.hook definition) = .ok { scan with
              customHookApiIds := insert definition.apiId scan.customHookApiIds
              customHooks := scan.customHooks ++ [definition] } :=
            failIf_bind_eq_ok.mpr ⟨hnew, rfl⟩
          rw [List.foldlM_cons, htake, ok_bind]
          exact hnext
      | failure failure =>
          obtain ⟨next, hnext, hscope, hskipped⟩ := hrest
            { scan with customHookFailures := scan.customHookFailures ++ [failure] } hfree hfresh
          refine ⟨next, ?_, hscope, hskipped⟩
          rw [List.foldlM_cons]
          exact hnext

/-- The metadata that a trace may open with are scanned. -/
theorem metadataScan_opening {scope : CaptureScope} {records : List MetadataRecord}
    {contents : List MetadataContent} (h : Opening scope records)
    (hcarries : List.Forall₂ MetadataRecord.Carries records contents) :
    MetadataContent.scope scope ∈ contents ∧ ∃ scan, contents.foldlM (MetadataScan.take none)
        { customHookApiIds := ∅, bufferConfiguration := none } = .ok scan ∧
      scan.scope = some scope ∧ scan.skippedUnknown = false := by
  obtain ⟨rest, rfl, hscopes, hconfigurations, hhooks⟩ := h.records
  obtain ⟨content, contents, hcontent, hothers, rfl⟩ := List.forall₂_cons_left_iff.mp hcarries
  cases hcontent
  refine ⟨List.mem_cons_self, ?_⟩
  exact metadataScan_rest hothers hscopes hconfigurations hhooks
    { scope := some scope, customHookApiIds := ∅, bufferConfiguration := none }
    (fun hsome => absurd rfl hsome) (fun apiId _ => Finset.notMem_empty apiId)

section Beginning

variable {header : FileHeader} {limit maximumRecordSize size : ℕ} {scope : CaptureScope}
  {intake : Intake} {dec : EventStreamDecoder} {payload : Bytes}

/-- A decoder that has met nothing but the file header. -/
structure Fresh (header : FileHeader) (limit : ℕ) (dec : EventStreamDecoder) : Prop
    extends Knows header limit 0 {} dec where
  unscoped : dec.captureScope = none
  untracked : dec.completeness = none
  customHookApiIds : dec.customHookApiIds = ∅
  bufferConfiguration : dec.bufferConfiguration = none

theorem Fresh.synchronize (h : Fresh header limit dec) (partly : Bool) :
    Fresh header limit (dec.synchronize partly) := by
  unfold EventStreamDecoder.synchronize
  split
  · have hmarked : Fresh header limit
        { dec with readerPartialMarked := true, mayHaveUnknownEvents := true } := { h with }
    refine { hmarked.toKnows.mark _ with
      unscoped := ?_
      untracked := ?_
      customHookApiIds := ?_
      bufferConfiguration := ?_ }
    · rw [EventStreamDecoder.mark_eq]
      exact h.unscoped
    · exact (EventStreamDecoder.mark_completeness_eq_none _ _).mpr h.untracked
    · rw [EventStreamDecoder.mark_eq]
      exact h.customHookApiIds
    · rw [EventStreamDecoder.mark_eq]
      exact h.bufferConfiguration
  · exact h

/-- A callback that is no event. -/
theorem Reflects.logged (h : Reflects header limit scope size intake dec) {callback : Callback}
    (hcallback : callback.toEvent = none) :
    Reflects header limit scope size intake (dec.logged callback) := { h with
  events := by
    show loggedEvents (dec.log ++ [callback]) = intake.events
    have hnone : loggedEvents [callback] = [] := by
      unfold loggedEvents
      rw [List.filterMap_cons_none hcallback, List.filterMap_nil]
    rw [loggedEvents_append, hnone, List.append_nil]
    exact h.events }

theorem Reflects.customHooks (h : Reflects header limit scope size intake dec)
    (definitions : List CustomHookDefinition) :
    ∃ after, definitions.forM deliverCustomHook dec = .ok () after ∧
      Reflects header limit scope size intake after := by
  induction definitions generalizing dec with
  | nil => exact ⟨dec, rfl, h⟩
  | cons definition definitions ih =>
      have hkept : Reflects header limit scope size intake
          { dec with customHooks := dec.customHooks ++ [definition] } := { h with }
      have hlogged : Reflects header limit scope size intake (dec.afterCustomHook definition) :=
        hkept.logged rfl
      obtain ⟨after, hrest, hafter⟩ := ih hlogged
      refine ⟨after, ?_, hafter⟩
      rw [run_forM_cons]
      exact run_bind_eq_ok.mpr ⟨⟨⟩, _, rfl, hrest⟩

theorem Reflects.customHookFailures (h : Reflects header limit scope size intake dec)
    (failures : List CustomHookFailure) :
    ∃ after, failures.forM deliverCustomHookFailure dec = .ok () after ∧
      Reflects header limit scope size intake after := by
  induction failures generalizing dec with
  | nil => exact ⟨dec, rfl, h⟩
  | cons failure failures ih =>
      have hmarked := h.mark .customHookInstallFailed
      have hkept : Reflects header limit scope size intake
          { dec.mark .customHookInstallFailed with
            customHookFailures :=
              (dec.mark .customHookInstallFailed).customHookFailures ++ [failure] } :=
        { hmarked with }
      have hlogged : Reflects header limit scope size intake
          (dec.afterCustomHookFailure failure) := hkept.logged rfl
      obtain ⟨after, hrest, hafter⟩ := ih hlogged
      refine ⟨after, ?_, hafter⟩
      rw [run_forM_cons]
      exact run_bind_eq_ok.mpr ⟨⟨⟩, _, rfl, hrest⟩

theorem decodeCaptureScope_valid {record : RecordView}
    (h : decodeCaptureScopeRecord record = .ok (some scope)) : validateCaptureScope scope = .ok () :=
  ((decodes_record (fun _ _ => readsTo_captureScope.runReader_eq_ok) record scope).mp h).1.2

/-- The decoder as the scan of its metadata leaves it. -/
def EventStreamDecoder.noted (dec : EventStreamDecoder) (scan : MetadataScan) :
    EventStreamDecoder :=
  { dec with
    customHookApiIds := scan.customHookApiIds
    bufferConfiguration := scan.bufferConfiguration }

theorem startCaptureScope_of (hvalid : validateCaptureScope scope = .ok ()) :
    startCaptureScope scope dec = .ok () (dec.started scope) := by
  refine run_bind_eq_ok.mpr ⟨⟨⟩, dec, ?_, rfl⟩
  rw [hvalid]
  rfl

/-- The scope starts the tracker. -/
theorem Fresh.started (h : Fresh header limit dec) (scan : MetadataScan) :
    Reflects header limit scope 0 {} ((dec.noted scan).started scope) := { h with
  events := by
    show loggedEvents (dec.log ++ [.captureScope scope]) = []
    rw [loggedEvents_append, h.events]
    rfl
  scope := rfl
  tracker := ⟨_, rfl, fun _ => rfl⟩ }

/-- The metadata that a trace opens with. -/
theorem Fresh.processMetadata (h : Fresh header limit dec)
    (hcovers : Covers limit maximumRecordSize) {records : List MetadataRecord}
    {contents : List MetadataContent} (hopening : Opening scope records)
    (hcarries : List.Forall₂ MetadataRecord.Carries records contents)
    (hrange : ∀ content ∈ contents, content.InRange)
    (happend : appendAll MetadataContent.append maximumRecordSize contents = .ok payload) :
    ∃ after, processMetadata payload dec = .ok () after ∧
      Reflects header limit scope 0 {} after := by
  have hframed : ∀ content ∈ contents,
      Framed MetadataContent.append maximumRecordSize MetadataContent.DecodedFrom content :=
    fun content hcontent => MetadataContent.framed (hrange content hcontent) _
  obtain ⟨hmem, scan, hsteps, hscope, hskipped⟩ := metadataScan_opening hopening hcarries
  have hscan : forRecords limit (MetadataScan.step none)
      { customHookApiIds := ∅, bufferConfiguration := none } payload = .ok scan :=
    forRecords_appended metadataStep_decoded hframed happend hcovers.least hcovers.most hsteps
  have hvalid : validateCaptureScope scope = .ok () := by
    have hall := forall_of_appendAll
      (P := fun content => ∀ s, content = .scope s → validateCaptureScope s = .ok ())
      (fun content record hdecoded s heq => by
        subst heq
        exact decodeCaptureScope_valid hdecoded) hframed happend
    exact hall _ hmem scope rfl
  obtain ⟨hooked, hhooks, hhooked⟩ := (h.started scan).customHooks scan.customHooks
  obtain ⟨after, hfailures, hafter⟩ := hhooked.customHookFailures scan.customHookFailures
  refine ⟨after, ?_, hafter⟩
  refine run_bind_eq_ok.mpr ⟨dec, dec, rfl, ?_⟩
  refine run_bind_eq_ok.mpr ⟨scan, dec, ?_, ?_⟩
  · rw [h.limit, h.unscoped, h.customHookApiIds, h.bufferConfiguration, hscan]
    rfl
  refine run_bind_eq_ok.mpr ⟨⟨⟩, dec.noted scan, rfl, ?_⟩
  refine run_bind_eq_ok.mpr ⟨⟨⟩, (dec.noted scan).started scope, ?_, ?_⟩
  · rw [hscope]
    exact startCaptureScope_of hvalid
  refine run_bind_eq_ok.mpr ⟨⟨⟩, (dec.noted scan).started scope, ?_, ?_⟩
  · rw [run_markIf, hskipped]
    rfl
  · exact run_bind_eq_ok.mpr ⟨⟨⟩, _, hhooks, hfailures⟩

end Beginning

end Noleax.Analyzer
