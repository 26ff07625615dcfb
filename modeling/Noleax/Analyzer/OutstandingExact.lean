import Noleax.Analyzer.EffectiveWindow
import Noleax.Analyzer.StackCounting
import Noleax.Trace.FileRoundTrip

/-!
# Outstanding generations are exact (`src/analyzer/outstanding.cpp`)

The events at or before `c` come first; so that the analysis of an accepted trace lists what
the tracker holds at `c` of the generations created in the window, and those created later.
-/

namespace Noleax.Analyzer

open Lib Trace

/-! ## A history and the tracker -/

/-- The callbacks of a history, one after the other. -/
def notesOf (history : List Observation) : List Notification :=
  history.flatMap Observation.notes

theorem notesOf_cons (o : Observation) (history : List Observation) :
    notesOf (o :: history) = o.notes ++ notesOf history := List.flatMap_cons

theorem notesOf_append (history more : List Observation) :
    notesOf (history ++ more) = notesOf history ++ notesOf more := List.flatMap_append

namespace GenerationTracker

variable {t : GenerationTracker} {events more : List Event} {history : List Observation}

/-- A history of more events goes on with the tracker that the first events left. -/
theorem observeAll_append (h : t.observeAll (events ++ more) = .ok history) :
    ∃ u first last, t.run events = .ok u ∧ t.observeAll events = .ok first ∧
      u.observeAll more = .ok last ∧ history = first ++ last := by
  induction events generalizing t history with
  | nil => exact ⟨t, [], history, rfl, rfl, h, rfl⟩
  | cons event events ih =>
      obtain ⟨⟨next, notes⟩, hobserve, h⟩ := bind_eq_ok.mp h
      obtain ⟨rest, hrest, h⟩ := bind_eq_ok.mp h
      cases h
      obtain ⟨u, first, last, hrun, hfirst, hlast, rfl⟩ := ih hrest
      refine ⟨u, ⟨event, notes⟩ :: first, last, ?_, ?_, hlast, rfl⟩
      · have hstep : t.step event = .ok next := by
          unfold step
          rw [hobserve]
          rfl
        unfold run
        rw [List.foldlM_cons, hstep]
        exact hrun
      · unfold observeAll
        rw [hobserve, ok_bind]
        dsimp only
        rw [hfirst]
        rfl

theorem observeAll_event (h : t.observeAll events = .ok history) :
    history.map Observation.event = events := by
  induction events generalizing t history with
  | nil =>
      cases h
      rfl
  | cons event events ih =>
      obtain ⟨⟨u, notes⟩, -, h⟩ := bind_eq_ok.mp h
      obtain ⟨rest, hrest, h⟩ := bind_eq_ok.mp h
      cases h
      rw [List.map_cons, ih hrest]

end GenerationTracker

/-! ## Over the events -/

namespace OutstandingCollector

variable {window : OutstandingWindow} {header : FileHeader} {event : Event}
  {collector : OutstandingCollector} {chosen : Event → Prop} [DecidablePred chosen]
  {notes later : List Notification} {events : List Event} {history : List Observation}
  {fixed : List MemoryGeneration} {gone : ℕ}

/-- The header is known, and the tracker has called back as noted. -/
structure Following (header : FileHeader) (notes : List Notification)
    (collector : OutstandingCollector) : Prop where
  header : collector.fileHeader = some header
  sound : collector.tracker.Sound
  created : collector.tracker.createdCount = (born notes).length
  below : collector.tracker.createdCount ≤ maxU64

/-- One more event, which the collector takes if it takes the callbacks. -/
theorem Following.observe (window : OutstandingWindow) {u : GenerationTracker}
    {more : List Notification} (h : Following header notes collector) (hrun : collector.tracker.observe event = .ok (u, more))
    {P : OutstandingCollector → Prop}
    (hhear : Tells event collector.tracker.told more u.told →
      (born notes).length + (born more).length ≤ maxU64 →
      ∃ next, more.foldlM (observeNotification window) { collector with tracker := u } =
        .ok next ∧ SameSource { collector with tracker := u } next ∧ P next) :
    ∃ next, OutstandingCollector.observe window collector event = .ok next ∧
      next.tracker = u ∧ Following header (notes ++ more) next ∧ P next := by
  have hreports := GenerationTracker.observe_reports h.sound hrun
  have hcreated : u.createdCount = (born (notes ++ more)).length := by
    rw [hreports.created, h.created, born_append, List.length_append]
  have hbelow := hreports.below h.below
  obtain ⟨next, hnext, hsource, hP⟩ := hhear hreports.tells (by
    rw [born_append, List.length_append] at hcreated
    omega)
  refine ⟨next, ?_, hsource.tracker, ⟨?_, ?_, ?_, ?_⟩, hP⟩
  · unfold OutstandingCollector.observe
    rw [hrun]
    exact hnext
  · exact hsource.fileHeader.trans h.header
  · rw [hsource.tracker]
    exact (GenerationTracker.observe_change hrun).sound h.sound
  · rw [hsource.tracker]
    exact hcreated
  · rw [hsource.tracker]
    exact hbelow

/-- The windows say of each event what is asked. -/
structure Decides (window : OutstandingWindow) (header : FileHeader) (chosen : Event → Prop)
    [DecidablePred chosen] (observed : Bool) (event : Event) : Prop where
  creates : window.creates header event = .ok (decide (chosen event))
  observes : window.observes header event = .ok observed

/-- The events at or before `c`. -/
theorem Collected.run (h : Collected chosen notes collector.tracker.told collector)
    (hfollow : Following header notes collector)
    (htracked : collector.tracker.observeAll events = .ok history)
    (hdecides : ∀ event ∈ events, Decides window header chosen true event) :
    ∃ last, events.foldlM (OutstandingCollector.observe window) collector = .ok last ∧
      collector.tracker.run events = .ok last.tracker ∧
      Following header (notes ++ notesOf history) last ∧
      Collected chosen (notes ++ notesOf history) last.tracker.told last := by
  induction events generalizing collector notes history with
  | nil =>
      cases htracked
      refine ⟨collector, rfl, rfl, ?_⟩
      show Following header (notes ++ []) collector ∧ Collected chosen (notes ++ []) _ collector
      rw [List.append_nil]
      exact ⟨hfollow, h⟩
  | cons event events ih =>
      obtain ⟨⟨u, more⟩, hrun, htracked⟩ := bind_eq_ok.mp htracked
      obtain ⟨rest, hrest, htracked⟩ := bind_eq_ok.mp htracked
      cases htracked
      obtain ⟨hcreates, hobserves⟩ := hdecides event List.mem_cons_self
      have hcount := h.count
      have hle := createdIn_length_le chosen notes
      obtain ⟨next, hnext, htracker, hfollow', hcollected⟩ :=
        hfollow.observe window (P := fun next => Collected chosen (notes ++ more) u.told next) hrun
          fun htells hroom => by
            have hmoved : Collected chosen notes collector.tracker.told
                { collector with tracker := u } := ⟨h.listed, h.count, h.ended, h.numbers, h.fresh,
              h.indexed, h.stored, h.seen⟩
            exact (hmoved.hearAll (keyed_told hfollow.sound) htells hfollow.header
              (show collector.candidateCount + _ ≤ _ by omega) hcreates hobserves).2
      rw [← htracker] at hcollected hrest
      obtain ⟨last, hfold, hlast, hfollowLast, hcollectedLast⟩ := ih hcollected hfollow' hrest
        fun other hother => hdecides other (List.mem_cons_of_mem _ hother)
      rw [notesOf_cons, ← List.append_assoc]
      refine ⟨last, ?_, ?_, hfollowLast, hcollectedLast⟩
      · rw [List.foldlM_cons, hnext]
        exact hfold
      · have hstep : collector.tracker.step event = .ok next.tracker := by
          unfold GenerationTracker.step
          rw [hrun, htracker]
          rfl
        unfold GenerationTracker.run
        rw [List.foldlM_cons, hstep]
        exact hlast

/-- The events after `c`. -/
theorem Settled.run (h : Settled chosen fixed gone later collector.tracker.told collector)
    (hfollow : Following header notes collector)
    (hcount : collector.candidateCount ≤ (born notes).length)
    (htracked : collector.tracker.observeAll events = .ok history)
    (hdecides : ∀ event ∈ events, Decides window header chosen false event) :
    ∃ last, events.foldlM (OutstandingCollector.observe window) collector = .ok last ∧
      Following header (notes ++ notesOf history) last ∧
      Settled chosen fixed gone (later ++ notesOf history) last.tracker.told last := by
  induction events generalizing collector notes later history with
  | nil =>
      cases htracked
      refine ⟨collector, rfl, ?_⟩
      show Following header (notes ++ []) collector ∧
        Settled chosen fixed gone (later ++ []) _ collector
      rw [List.append_nil, List.append_nil]
      exact ⟨hfollow, h⟩
  | cons event events ih =>
      obtain ⟨⟨u, more⟩, hrun, htracked⟩ := bind_eq_ok.mp htracked
      obtain ⟨rest, hrest, htracked⟩ := bind_eq_ok.mp htracked
      cases htracked
      obtain ⟨hcreates, hobserves⟩ := hdecides event List.mem_cons_self
      obtain ⟨next, hnext, htracker, hfollow', hsettled⟩ :=
        hfollow.observe window
          (P := fun next => Settled chosen fixed gone (later ++ more) u.told next) hrun
          fun htells hroom => by
            have hmoved : Settled chosen fixed gone later collector.tracker.told
                { collector with tracker := u } := ⟨h.listed, h.count, h.ended, h.indexed⟩
            exact hmoved.hearAll htells hfollow.header
              (show collector.candidateCount + _ ≤ _ by omega) hcreates hobserves
      have hnextCount := hsettled.count
      have holdCount := h.count
      have hle := createdIn_length_le chosen more
      rw [createdIn_append, List.length_append] at hnextCount
      have hborn : next.candidateCount ≤ (born (notes ++ more)).length := by
        rw [born_append, List.length_append]
        omega
      rw [← htracker] at hsettled hrest
      obtain ⟨last, hfold, hfollowLast, hsettledLast⟩ := ih hsettled hfollow' hborn hrest
        fun other hother => hdecides other (List.mem_cons_of_mem _ hother)
      rw [notesOf_cons, ← List.append_assoc, ← List.append_assoc]
      refine ⟨last, ?_, hfollowLast, hsettledLast⟩
      rw [List.foldlM_cons, hnext]
      exact hfold

end OutstandingCollector

/-! ## Where a generation comes from -/

/-- What is held was born under its key, and of the same event. -/
structure Rooted (notes : List Notification) (s : Told) : Prop where
  born : ∀ key generation, s.held key = some generation → ∃ origin ∈ born notes, origin.key = key
  seen : ∀ origin ∈ Analyzer.born notes, origin.key ∈ s.seen
  same : ∀ origin ∈ Analyzer.born notes, ∀ generation, s.held origin.key = some generation →
    generation.createdBy = origin.createdBy

namespace Rooted

variable {notes more : List Notification} {s u : Told} {event : Event} {note : Notification}

theorem hear (h : Rooted notes s) (hfits : Fits event s note) :
    Rooted (notes ++ [note]) (s.hear note) := by
  cases hfits with
  | created generation hnew hby =>
      have hborn : Analyzer.born (notes ++ [.created generation]) =
          Analyzer.born notes ++ [generation] := born_append _ _
      have hother : ∀ origin ∈ Analyzer.born notes, origin.key ≠ generation.key := by
        intro origin horigin heq
        exact hnew (heq ▸ h.seen origin horigin)
      refine ⟨?_, ?_, ?_⟩
      · intro key held hheld
        rw [hborn]
        by_cases hkey : key = generation.key
        · exact ⟨generation, by simp, hkey.symm⟩
        · have hheld : Function.update s.held generation.key _ key = some held := hheld
          rw [Function.update_of_ne hkey] at hheld
          obtain ⟨origin, horigin, heq⟩ := h.born key held hheld
          exact ⟨origin, List.mem_append_left _ horigin, heq⟩
      · intro origin horigin
        rw [hborn, List.mem_append, List.mem_singleton] at horigin
        rcases horigin with hold | rfl
        · exact .inr (h.seen origin hold)
        · exact .inl rfl
      · intro origin horigin held hheld
        have hheld : Function.update s.held generation.key (some generation) origin.key =
          some held := hheld
        rw [hborn, List.mem_append, List.mem_singleton] at horigin
        rcases horigin with hold | rfl
        · rw [Function.update_of_ne (hother origin hold)] at hheld
          exact h.same origin hold held hheld
        · rw [Function.update_self] at hheld
          rw [← Option.some.inj hheld]
  | ended generation reason hheld =>
      have hborn : Analyzer.born (notes ++ [.ended generation reason event]) =
          Analyzer.born notes := (born_append _ _).trans (List.append_nil _)
      -- nothing is held under the key any more
      have hleft : ∀ key held, (s.hear (.ended generation reason event)).held key = some held →
          s.held key = some held := by
        intro key held hheld
        have hheld : Function.update s.held generation.key none key = some held := hheld
        by_cases hkey : key = generation.key
        · rw [hkey, Function.update_self] at hheld
          cases hheld
        · rwa [Function.update_of_ne hkey] at hheld
      refine ⟨?_, ?_, ?_⟩
      · rw [hborn]
        exact fun key held hheld => h.born key held (hleft key held hheld)
      · rw [hborn]
        exact fun origin horigin => .inr (h.seen origin horigin)
      · rw [hborn]
        exact fun origin horigin held hheld => h.same origin horigin held (hleft _ held hheld)
  | changed generation size hkind hheld =>
      have hborn : Analyzer.born (notes ++ [.changed { generation with size := size } event]) =
          Analyzer.born notes := (born_append _ _).trans (List.append_nil _)
      have hleft : ∀ key held,
          (s.hear (.changed { generation with size := size } event)).held key = some held →
          ∃ old, s.held key = some old ∧ old.createdBy = held.createdBy := by
        intro key held hlater
        have hlater : Function.update s.held generation.key
          (some { generation with size := size }) key = some held := hlater
        by_cases hkey : key = generation.key
        · rw [hkey, Function.update_self] at hlater
          obtain rfl := Option.some.inj hlater
          exact ⟨generation, hkey ▸ hheld, rfl⟩
        · rw [Function.update_of_ne hkey] at hlater
          exact ⟨held, hlater, rfl⟩
      refine ⟨?_, ?_, ?_⟩
      · intro key held hlater
        obtain ⟨old, hold, -⟩ := hleft key held hlater
        rw [hborn]
        exact h.born key old hold
      · rw [hborn]
        exact fun origin horigin => .inr (h.seen origin horigin)
      · intro origin horigin held hlater
        obtain ⟨old, hold, hby⟩ := hleft _ held hlater
        rw [hborn] at horigin
        exact hby.symm.trans (h.same origin horigin old hold)

theorem hearAll (h : Rooted notes s) (htells : Tells event s more u) :
    Rooted (notes ++ more) u := by
  induction htells with
  | refl =>
      rw [List.append_nil]
      exact h
  | step note htells hfits ih =>
      rw [← List.append_assoc]
      exact ih.hear hfits

/-- Over the events that a tracker observes. -/
theorem run {t last : GenerationTracker} {events : List Event} {history : List Observation}
    (h : Rooted notes t.told) (hsound : t.Sound) (htracked : t.observeAll events = .ok history)
    (hrun : t.run events = .ok last) : Rooted (notes ++ notesOf history) last.told := by
  induction events generalizing t notes history with
  | nil =>
      cases htracked
      cases hrun
      show Rooted (notes ++ []) last.told
      rw [List.append_nil]
      exact h
  | cons event events ih =>
      obtain ⟨⟨u, more⟩, hobserve, htracked⟩ := bind_eq_ok.mp htracked
      obtain ⟨rest, hrest, htracked⟩ := bind_eq_ok.mp htracked
      cases htracked
      have hstep : t.step event = .ok u := by
        unfold GenerationTracker.step
        rw [hobserve]
        rfl
      unfold GenerationTracker.run at hrun
      rw [List.foldlM_cons, hstep] at hrun
      rw [notesOf_cons, ← List.append_assoc]
      exact ih (h.hearAll (GenerationTracker.observe_reports hsound hobserve).tells)
        ((GenerationTracker.observe_change hobserve).sound hsound) hrest hrun

end Rooted

theorem mem_liveGenerations {t : GenerationTracker} {generation : MemoryGeneration} :
    generation ∈ t.liveGenerations ↔ ∃ key, t.held key = some generation := by
  unfold GenerationTracker.liveGenerations
  rw [List.mem_append, List.mem_map, List.mem_map]
  constructor
  · rintro (⟨⟨id, held⟩, hmem, rfl⟩ | ⟨⟨id, state⟩, hmem, rfl⟩)
    · exact ⟨.allocation id, Std.ExtTreeMap.mem_toList_iff_getElem?_eq_some.mp hmem⟩
    · exact ⟨.mapping id, Option.map_eq_some_iff.mpr
        ⟨state, Std.ExtTreeMap.mem_toList_iff_getElem?_eq_some.mp hmem, rfl⟩⟩
  · rintro ⟨key, hheld⟩
    cases key with
    | allocation id =>
        exact .inl ⟨(id, generation), Std.ExtTreeMap.mem_toList_iff_getElem?_eq_some.mpr hheld, rfl⟩
    | mapping id =>
        obtain ⟨state, hstate, rfl⟩ := Option.map_eq_some_iff.mp hheld
        exact .inr ⟨(id, state), Std.ExtTreeMap.mem_toList_iff_getElem?_eq_some.mpr hstate, rfl⟩

/-! ## The analysis -/

/-- A part that nothing outside may come before is a prefix. -/
theorem filter_append_filter_not {α : Type} {r : α → α → Prop} {p : α → Prop} [DecidablePred p]
    {as : List α} (h : as.Pairwise r) (hdown : ∀ a b, r a b → p b → p a) :
    as.filter (fun a => p a) ++ as.filter (fun a => ¬p a) = as := by
  induction as with
  | nil => rfl
  | cons a as ih =>
      obtain ⟨hlater, hrest⟩ := List.pairwise_cons.mp h
      by_cases ha : p a
      · rw [List.filter_cons_of_pos (by simpa using ha),
          List.filter_cons_of_neg (by simpa using ha), List.cons_append, ih hrest]
      · have hnone : as.filter (fun a => p a) = [] := by
          refine List.filter_eq_nil_iff.mpr ?_
          intro b hb
          rw [decide_eq_true_eq]
          exact fun hpb => ha (hdown a b (hlater b hb) hpb)
        have hall : as.filter (fun a => ¬p a) = as := by
          rw [hnone, List.nil_append] at ih
          exact ih hrest
        rw [List.filter_cons_of_neg (by simpa using ha), hnone, List.nil_append,
          List.filter_cons_of_pos (by simpa using ha), hall]

/-- The observations of some events. -/
def ofEvents (p : Event → Prop) [DecidablePred p] (history : List Observation) :
    List Observation :=
  history.filter fun o => p o.event

/-- The generations of the window: those created up to `c`, as they are held then, and those
created later, as they were created. -/
def remaining (window : OutstandingWindow) (header : FileHeader) (history : List Observation)
    (t : GenerationTracker) : List MemoryGeneration :=
  (createdIn (window.Creates header)
      (notesOf (ofEvents (window.Observes header) history))).filterMap
      (fun generation => t.held generation.key) ++
    createdIn (window.Creates header)
      (notesOf (ofEvents (fun event => ¬window.Observes header event) history))

abbrev Matched (filter : AnalysisFilter) (resolver : Option EventMetadataResolver)
    (generation : MemoryGeneration) : Bool :=
  filter.matchesGeneration generation (AnalysisFilter.metadataOf resolver generation.createdBy)

/-- What the result must be, where `t` is the tracker at `c`. -/
structure OutstandingExact (window : OutstandingWindow) (matched : MemoryGeneration → Bool)
    (header : FileHeader) (history : List Observation) (t : GenerationTracker)
    (result : OutstandingResult) : Prop where
  outstanding : result.outstanding = (remaining window header history t).filter matched
  filteredOut : result.outstanding.length + result.filteredOutCount =
    (remaining window header history t).length
  candidates : result.candidateCount =
    (createdIn (window.Creates header) (notesOf history)).length
  ended : result.endedByCCount + (remaining window header history t).length =
    result.candidateCount
  live : ∀ generation,
    (∃ created ∈ createdIn (window.Creates header)
      (notesOf (ofEvents (window.Observes header) history)),
      t.held created.key = some generation) ↔
    generation ∈ t.liveGenerations ∧ window.Creates header generation.createdBy

section Analysis

variable {options : EventStreamOptions} {decompressors : Decompressors} {input : Bytes}
  {trace : EventStreamResult} {window : OutstandingWindow} {filter : AnalysisFilter}
  {resolver : Option EventMetadataResolver} {history : List Observation}

/-- After the header, the collector hears the events. -/
theorem OutstandingCollector.hear_events {collector : OutstandingCollector} {log : List Callback}
    (h : ∀ callback ∈ log, ∀ other, callback ≠ .fileHeader other) :
    log.foldlM (OutstandingCollector.hear window) collector =
      (loggedEvents log).foldlM (OutstandingCollector.observe window) collector := by
  induction log generalizing collector with
  | nil => rfl
  | cons callback log ih =>
      have hrest : ∀ next, log.foldlM (OutstandingCollector.hear window) next =
          (loggedEvents log).foldlM (OutstandingCollector.observe window) next :=
        fun next => ih fun c hc => h c (List.mem_cons_of_mem _ hc)
      cases callback with
      | fileHeader other => exact absurd rfl (h _ List.mem_cons_self other)
      | event event =>
          show (OutstandingCollector.observe window collector event >>= fun next =>
            log.foldlM _ next) = OutstandingCollector.observe window collector event >>=
              fun next => (loggedEvents log).foldlM _ next
          simp only [hrest]
      | _ => exact hrest collector

/-- The candidates that the filter matches, and how many it does not. -/
theorem matchAll_ok (hresolver : filter.RequiresMetadata → resolver ≠ none)
    (candidates outstanding : List MemoryGeneration) {filteredOut : ℕ}
    (hroom : filteredOut + candidates.length ≤ maxU64) :
    ∃ rest, candidates.foldlM (matchCandidate filter resolver) (outstanding, filteredOut) =
        .ok (outstanding ++ candidates.filter (Matched filter resolver), filteredOut + rest) ∧
      (candidates.filter (Matched filter resolver)).length + rest = candidates.length := by
  induction candidates generalizing outstanding filteredOut with
  | nil => exact ⟨0, by simp [pure, Except.pure], rfl⟩
  | cons candidate candidates ih =>
      rw [List.length_cons] at hroom
      have hstep : matchCandidate filter resolver (outstanding, filteredOut) candidate =
          .ok (if Matched filter resolver candidate then (outstanding ++ [candidate], filteredOut)
            else (outstanding, filteredOut + 1)) := by
        unfold matchCandidate
        rw [filter.matchesGenerationResolved_eq candidate hresolver]
        show (if (!Matched filter resolver candidate) = true then _ else _) = _
        cases Matched filter resolver candidate with
        | true => rfl
        | false =>
            show (OutstandingError.increment filteredOut _ >>= fun _ => _) = _
            rw [OutstandingCollector.increment_eq_ok (by omega)]
            rfl
      cases hmatched : Matched filter resolver candidate with
      | true =>
          rw [hmatched] at hstep
          obtain ⟨rest, hfold, hlength⟩ := ih (outstanding ++ [candidate])
            (show filteredOut + candidates.length ≤ maxU64 by omega)
          refine ⟨rest, ?_, ?_⟩
          · rw [List.append_assoc] at hfold
            rw [List.foldlM_cons, hstep, List.filter_cons_of_pos hmatched]
            exact hfold
          · rw [List.filter_cons_of_pos hmatched, List.length_cons, List.length_cons]
            omega
      | false =>
          rw [hmatched] at hstep
          obtain ⟨rest, hfold, hlength⟩ := ih outstanding
            (show filteredOut + 1 + candidates.length ≤ maxU64 by omega)
          refine ⟨rest + 1, ?_, ?_⟩
          · rw [List.foldlM_cons, hstep, List.filter_cons_of_neg (by simp [hmatched])]
            rw [Nat.add_right_comm, Nat.add_assoc] at hfold
            exact hfold
          · rw [List.filter_cons_of_neg (by simp [hmatched]), List.length_cons]
            omega

/-- The fields that the trace and the windows decide. -/
theorem result_ok (collector : OutstandingCollector) (hfits : trace.traceEnd.Fits trace.fileHeader)
    (hwindow : window.Positive) {outstanding : List MemoryGeneration} {filteredOut : ℕ}
    (hmatched : (collector.candidates.map Prod.snd).foldlM (matchCandidate filter resolver)
      ([], 0) = .ok (outstanding, filteredOut)) :
    ∃ result, collector.result window filter resolver trace = .ok result ∧
      result.outstanding = outstanding ∧ result.filteredOutCount = filteredOut ∧
      result.candidateCount = collector.candidateCount ∧
      result.endedByCCount = collector.endedByCCount := by
  obtain ⟨inclusive, hinclusive, -⟩ := inclusiveTraceEndBound_ok hfits
  obtain ⟨exclusive, hexclusive, -⟩ := exclusiveTraceEndBound_ok hfits
  obtain ⟨effectiveB, hb, -⟩ := effectiveUpperBound_ok hfits window.b exclusive hwindow.b
  obtain ⟨effectiveC, hc, -⟩ := effectiveUpperBound_ok hfits window.c inclusive hwindow.c
  obtain ⟨uses, huses, -⟩ := observesTraceEnd_ok hfits hwindow.c
  unfold OutstandingCollector.result
  dsimp only
  rw [hinclusive, hexclusive]
  show ∃ result, ((effectiveUpperBound _ _ window.b exclusive).mapError OutstandingError.time >>=
    fun _ => _) = _ ∧ _
  rw [hb, huses]
  show ∃ result, ((effectiveUpperBound _ _ window.c inclusive).mapError OutstandingError.time >>=
    fun _ => _) = _ ∧ _
  rw [hc, hmatched]
  exact ⟨_, rfl, rfl, rfl, rfl, rfl⟩

/-- The collector that has heard nothing but the header. -/
def OutstandingCollector.start (header : FileHeader) : OutstandingCollector :=
  { fileHeader := some header }

theorem OutstandingCollector.following_start (header : FileHeader) :
    Following header [] (start header) :=
  ⟨rfl, GenerationTracker.sound_init, rfl, Nat.zero_le _⟩

theorem OutstandingCollector.collected_start (header : FileHeader) (chosen : Event → Prop)
    [DecidablePred chosen] :
    Collected chosen [] (start header).tracker.told (start header) := by
  refine ⟨rfl, rfl, rfl, List.nodup_nil, List.forall_mem_nil _, List.forall_mem_nil _, ?_,
    List.forall_mem_nil _⟩
  intro key number hindexed
  cases key <;> simp [indexed, byKey, start] at hindexed

theorem rooted_start : Rooted [] ({} : GenerationTracker).told := by
  refine ⟨?_, List.forall_mem_nil _, List.forall_mem_nil _⟩
  intro key generation hheld
  cases key <;> simp [GenerationTracker.told, GenerationTracker.held, byKey] at hheld

/-- The generations that the tracker holds at `c`, and that were created in the window. -/
theorem live_iff {t : GenerationTracker} {events : List Event} {chosen : Event → Prop}
    [DecidablePred chosen] (htracked : ({} : GenerationTracker).observeAll events = .ok history)
    (hrun : ({} : GenerationTracker).run events = .ok t) (generation : MemoryGeneration) :
    (∃ created ∈ createdIn chosen (notesOf history), t.held created.key = some generation) ↔
      generation ∈ t.liveGenerations ∧ chosen generation.createdBy := by
  obtain ⟨hborn, -, hsame⟩ := rooted_start.run GenerationTracker.sound_init htracked hrun
  rw [mem_liveGenerations]
  constructor
  · rintro ⟨created, hcreated, hheld⟩
    obtain ⟨horigin, hchosen⟩ := List.mem_filter.mp hcreated
    refine ⟨⟨created.key, hheld⟩, ?_⟩
    rw [hsame created horigin generation hheld]
    exact of_decide_eq_true hchosen
  · rintro ⟨⟨key, hheld⟩, hchosen⟩
    obtain ⟨created, horigin, rfl⟩ := hborn key generation hheld
    refine ⟨created, List.mem_filter.mpr ⟨horigin, ?_⟩, hheld⟩
    rw [hsame created horigin generation hheld] at hchosen
    exact decide_eq_true hchosen

/-- The events at or before `c`, and those after it, are told apart in a history. -/
theorem ofEvents_split {p : Event → Prop} [DecidablePred p] {first last : List Observation}
    (hfirst : ∀ o ∈ first, p o.event) (hlast : ∀ o ∈ last, ¬p o.event) :
    ofEvents p (first ++ last) = first ∧
      ofEvents (fun event => ¬p event) (first ++ last) = last := by
  unfold ofEvents
  constructor
  · rw [List.filter_append, List.filter_eq_self.mpr (by simpa using hfirst),
      List.filter_eq_nil_iff.mpr (by simpa using hlast), List.append_nil]
  · rw [List.filter_append, List.filter_eq_nil_iff.mpr (by simpa using hfirst),
      List.filter_eq_self.mpr (by simpa using hlast), List.nil_append]

/-- What the collector holds at the end of the events. -/
structure OutstandingCollector.Holds (window : OutstandingWindow) (header : FileHeader)
    (history : List Observation) (t : GenerationTracker) (collector : OutstandingCollector) :
    Prop where
  listed : collector.candidates.map Prod.snd = remaining window header history t
  count : collector.candidateCount =
    (createdIn (window.Creates header) (notesOf history)).length
  ended : collector.endedByCCount + (remaining window header history t).length =
    collector.candidateCount
  below : collector.candidateCount ≤ maxU64

/-- The collector, over events that follow one another: up to `c`, and then to the end. -/
theorem OutstandingCollector.run_holds (window : OutstandingWindow) {header : FileHeader}
    {events : List Event}
    (horder : events.Pairwise Follows) (hfrequency : 0 < header.monotonicFrequency)
    (hdecides : ∀ event ∈ events, Decides window header (window.Creates header)
      (decide (window.Observes header event)) event)
    (htracked : ({} : GenerationTracker).observeAll events = .ok history) :
    ∃ t last,
      ({} : GenerationTracker).run (events.filter fun event => window.Observes header event) =
        .ok t ∧
      ({} : GenerationTracker).observeAll
        (events.filter fun event => window.Observes header event) =
          .ok (ofEvents (window.Observes header) history) ∧
      events.foldlM (OutstandingCollector.observe window) (start header) = .ok last ∧
      last.Holds window header history t := by
  have hsplit := filter_append_filter_not (p := fun event => window.Observes header event)
    horder fun earlier later hfollows => hfollows.observes hfrequency
  have hbefore : ∀ event ∈ events.filter fun event => window.Observes header event,
      event ∈ events ∧ window.Observes header event := by
    intro event hevent
    rwa [List.mem_filter, decide_eq_true_eq] at hevent
  have hafter : ∀ event ∈ events.filter fun event => ¬window.Observes header event,
      event ∈ events ∧ ¬window.Observes header event := by
    intro event hevent
    rwa [List.mem_filter, decide_eq_true_eq] at hevent
  generalize events.filter (fun event => window.Observes header event) = before at *
  generalize events.filter (fun event => ¬window.Observes header event) = after at *
  rw [← hsplit] at htracked
  obtain ⟨t, first, last, hrun, hfirst, hlast, rfl⟩ := GenerationTracker.observeAll_append htracked
  obtain ⟨hobserved, hlater⟩ := @ofEvents_split (window.Observes header) _ first last
    (fun o ho => (hbefore o.event (by
      rw [← GenerationTracker.observeAll_event hfirst]
      exact List.mem_map_of_mem ho)).2)
    (fun o ho => (hafter o.event (by
      rw [← GenerationTracker.observeAll_event hlast]
      exact List.mem_map_of_mem ho)).2)
  obtain ⟨mid, hmid, hmidRun, hfollow, hcollected⟩ :=
    (collected_start header (window.Creates header)).run (following_start header) hfirst
      fun event hevent => by
        have hevent := hbefore event hevent
        have hdecided := hdecides event hevent.1
        rwa [decide_eq_true hevent.2] at hdecided
  obtain rfl : t = mid.tracker := Except.ok.inj (hrun.symm.trans hmidRun)
  have hcount := hcollected.count
  have hended := hcollected.ended
  have hle := createdIn_length_le (window.Creates header) ([] ++ notesOf first)
  obtain ⟨final, hfinal, hfollowFinal, hsettled⟩ :=
    (hcollected.settled (keyed_told hfollow.sound)).run hfollow (by omega) hlast
      fun event hevent => by
        have hevent := hafter event hevent
        have hdecided := hdecides event hevent.1
        rwa [decide_eq_false hevent.2] at hdecided
  have hlisted : final.candidates.map Prod.snd =
      remaining window header (first ++ last) mid.tracker := by
    unfold remaining
    rw [hobserved, hlater, hsettled.listed, hcollected.listed]
    rfl
  have hfinalCount := hsettled.count
  have hfinalEnded := hsettled.ended
  have hcreated : final.candidateCount =
      (createdIn (window.Creates header) (notesOf (first ++ last))).length := by
    rw [notesOf_append, createdIn_append, List.length_append, hfinalCount, List.length_map]
    rw [List.nil_append] at hcount ⊢
    omega
  refine ⟨mid.tracker, final, hrun, hobserved.symm ▸ hfirst, ?_, hlisted, hcreated, ?_, ?_⟩
  · rw [← hsplit, List.foldlM_append, hmid]
    exact hfinal
  · have hlength := congrArg List.length hsettled.listed
    rw [List.length_map, List.length_append] at hlength
    rw [← hlisted, List.length_map, hfinalCount, hfinalEnded]
    omega
  · have hborn := createdIn_length_le (window.Creates header) (notesOf (first ++ last))
    have hbelow := hfollowFinal.below
    rw [hfollowFinal.created, List.nil_append] at hbelow
    rw [notesOf_append] at hborn
    rw [hcreated, notesOf_append]
    exact hborn.trans hbelow

/-- What is outstanding is exact, for every accepted trace whose events the tracker accepts,
and whose end can be told in nanoseconds. -/
theorem outstanding_exact
    (haccepted : (analyzeEventStream options decompressors input).outcome = .ok trace)
    (htracked : ({} : GenerationTracker).observeAll
      (loggedEvents (analyzeEventStream options decompressors input).log) = .ok history)
    (hwindow : window.validate = .ok ())
    (hresolver : filter.RequiresMetadata → resolver ≠ none)
    (hend : ⌊elapsed trace.traceEnd.ticks trace.fileHeader⌋ ≤ (maximumNanoseconds : ℤ)) :
    ∃ t result,
      ({} : GenerationTracker).run
        ((loggedEvents (analyzeEventStream options decompressors input).log).filter
          fun event => window.Observes trace.fileHeader event) = .ok t ∧
      analyzeFilteredOutstanding window filter resolver options decompressors input =
        .ok result ∧
      OutstandingExact window (Matched filter resolver) trace.fileHeader history t result := by
  have hevents := accepted_events haccepted
  have hends := accepted_ends haccepted
  have hpositive := positive_of_validate hwindow
  obtain ⟨rest, hlog, hrest⟩ := hevents.begins
  have hsame : loggedEvents (analyzeEventStream options decompressors input).log =
      loggedEvents rest := by
    rw [hlog]
    rfl
  obtain ⟨t, last, hrun, hobserved, hfold, hholds⟩ :=
    OutstandingCollector.run_holds window (accepted_inOrder haccepted)
      hevents.frequency
      (fun event hevent =>
        ⟨creates_eq hevents.frequency (hevents.since event hevent) hpositive,
          observes_eq hevents.frequency (hevents.since event hevent) hpositive⟩) htracked
  have hended := hholds.ended
  have hbelow := hholds.below
  obtain ⟨filteredOut, hmatched, hlength⟩ := @matchAll_ok filter resolver hresolver
    (remaining window trace.fileHeader history t) [] 0 (by omega)
  rw [← hholds.listed] at hmatched
  obtain ⟨result, hresult, houtstanding, hfiltered, hcount, hendedCount⟩ :=
    result_ok last ⟨hevents.frequency, hends.frequency, hends.origin, hend⟩ hpositive hmatched
  rw [hholds.listed] at houtstanding
  refine ⟨t, result, hrun, ?_, ?_⟩
  · unfold analyzeFilteredOutstanding
    rw [hwindow, ok_bind, failIf_of_not ?_, ok_bind]
    · dsimp only
      rw [hlog, List.foldlM_cons]
      show (rest.foldlM (OutstandingCollector.hear window)
        (OutstandingCollector.start trace.fileHeader) >>= _) = _
      rw [OutstandingCollector.hear_events hrest, ← hsame, hfold, ok_bind, haccepted]
      exact hresult
    · rintro ⟨hrequired, hnone⟩
      exact hresolver hrequired (Option.isNone_iff_eq_none.mp hnone)
  · refine ⟨houtstanding, ?_, hcount.trans hholds.count, ?_, live_iff hobserved hrun⟩
    · rw [houtstanding, hfiltered]
      show _ + (0 + _) = _
      rw [Nat.zero_add]
      exact hlength
    · rw [hendedCount, hcount]
      exact hended

end Analysis

/-! ## An allocation that is observed before it is freed -/

/-- `c` is the allocation. -/
def beforeFree : OutstandingWindow := { c := some { sequence := some 1 } }

/-- The events and the end of a trace that is accepted. -/
def acceptedEnd (analysis : Analysis) : Option (List Event × ℕ × FileHeader) :=
  match analysis.outcome with
  | .ok trace => some (loggedEvents analysis.log, trace.traceEnd.ticks, trace.fileHeader)
  | .error _ => none

theorem acceptedEnd_eq_some {analysis : Analysis} {events : List Event} {ticks : ℕ}
    {header : FileHeader} (h : acceptedEnd analysis = some (events, ticks, header)) :
    ∃ trace, analysis.outcome = .ok trace ∧ loggedEvents analysis.log = events ∧
      trace.traceEnd.ticks = ticks ∧ trace.fileHeader = header := by
  unfold acceptedEnd at h
  split at h
  · rename_i trace haccepted
    cases h
    exact ⟨trace, haccepted, rfl, rfl, rfl⟩
  · cases h

set_option maxRecDepth 20000 in
theorem sampleStacks_end : acceptedEnd (analyzeEventStream {} literalDecompressors sampleStacks) =
    some ([sampleAllocation, sampleFree], 0, sampleHeader) := by
  decide +kernel

theorem outstanding_exact_before_free : ∃ trace history t result,
    (analyzeEventStream {} literalDecompressors sampleStacks).outcome = .ok trace ∧
      analyzeFilteredOutstanding beforeFree {} none {} literalDecompressors sampleStacks =
        .ok result ∧
      OutstandingExact beforeFree (Matched {} none) trace.fileHeader history t result := by
  obtain ⟨trace, haccepted, hevents, hticks, hheader⟩ := acceptedEnd_eq_some sampleStacks_end
  obtain ⟨history, htracked, -, -, -⟩ := trackedTotals_eq_some sampleStacks_totals
  rw [← hevents] at htracked
  have hend : ⌊elapsed trace.traceEnd.ticks trace.fileHeader⌋ ≤ (maximumNanoseconds : ℤ) := by
    rw [hticks, hheader]
    norm_num [elapsed, sampleHeader]
  have hrequired : ({} : AnalysisFilter).RequiresMetadata → (none : Option EventMetadataResolver) ≠
    none := fun hrequired => absurd hrequired (by decide)
  have hwindow : beforeFree.validate = .ok () := rfl
  obtain ⟨t, result, -, hresult, hexact⟩ :=
    outstanding_exact haccepted htracked hwindow hrequired hend
  exact ⟨trace, history, t, result, haccepted, hresult, hexact⟩

end Noleax.Analyzer
