import Noleax.Analyzer.OutstandingCandidates
import Noleax.Analyzer.StackCounting
import Noleax.Analyzer.TraceEnd

/-!
# Effective windows (`src/analyzer/outstanding.cpp`)

A bound that is left out, or later than the trace, is replaced by one at the end of the trace.
It selects the same events.
-/

namespace Noleax.Analyzer

open Lib Trace

section Bounds

variable {header : FileHeader} {traceEnd : TraceEnd} {bound : WindowBound} {event : Event}

/-- The event is not after the end of the trace. -/
structure TraceEnd.Includes (traceEnd : TraceEnd) (event : Event) : Prop where
  ticks : event.header.monotonicTicks ≤ traceEnd.ticks
  sequence : ∃ last ∈ traceEnd.sequence, event.header.sequence ≤ last

theorem TraceEnd.Includes.elapsed_le (h : traceEnd.Includes event)
    (hfrequency : 0 < header.monotonicFrequency) :
    elapsed event.header.monotonicTicks header ≤ elapsed traceEnd.ticks header := by
  unfold elapsed
  have hticks : (event.header.monotonicTicks : ℚ) ≤ traceEnd.ticks := by exact_mod_cast h.ticks
  gcongr

/-- The ticks at the end of the trace can be compared, and rounded down. -/
structure TraceEnd.Fits (header : FileHeader) (traceEnd : TraceEnd) : Prop where
  frequency : 0 < header.monotonicFrequency
  word : header.monotonicFrequency < 2 ^ 64
  origin : header.monotonicOrigin ≤ traceEnd.ticks
  nanoseconds : ⌊elapsed traceEnd.ticks header⌋ ≤ (maximumNanoseconds : ℤ)

theorem floor_nonneg (h : header.monotonicOrigin ≤ traceEnd.ticks) :
    0 ≤ ⌊elapsed traceEnd.ticks header⌋ := by
  rw [elapsed_eq h, Rat.floor_natCast_div_natCast]
  positivity

theorem TraceEnd.Fits.floor (h : traceEnd.Fits header) :
    (traceTimeFloor traceEnd.ticks header).value =
      .ok ⌊elapsed traceEnd.ticks header⌋ := by
  rw [traceTimeFloor_eq h.frequency h.word h.origin, if_pos h.nanoseconds]
  rfl

theorem TraceEnd.Fits.timeHolds (h : traceEnd.Fits header) (htime : ∀ time ∈ bound.time, 0 ≤ time) :
    bound.timeHolds header traceEnd.ticks (· ≠ .lt) =
      .ok (decide (∀ time ∈ bound.time, (time : ℚ) ≤ elapsed traceEnd.ticks header)) := by
  unfold WindowBound.timeHolds
  cases hbound : bound.time with
  | none => simp
  | some time =>
      dsimp only
      rw [compareTraceTime_eq h.frequency h.origin (htime time hbound)]
      simp [compare_lt_iff_lt, ← not_le]

/-- The bound at the end includes it. -/
theorem inclusiveTraceEndBound_ok (h : traceEnd.Fits header) :
    ∃ bound, inclusiveTraceEndBound header traceEnd = .ok bound ∧
      (∀ time ∈ bound.time, elapsed traceEnd.ticks header ≤ (time : ℚ)) ∧
      bound.sequence = traceEnd.sequence := by
  unfold inclusiveTraceEndBound
  rw [h.floor, ok_bind, compareTraceTime_eq h.frequency h.origin (floor_nonneg h.origin), ok_bind]
  refine ⟨_, rfl, ?_, rfl⟩
  intro time htime
  dsimp only at htime
  by_cases hgreater : Ord.compare (elapsed traceEnd.ticks header)
      (⌊elapsed traceEnd.ticks header⌋ : ℚ) = .gt
  · rw [if_pos hgreater] at htime
    split at htime
    · obtain rfl := Option.some.inj htime
      push_cast
      exact (Int.lt_floor_add_one _).le
    · cases htime
  · rw [if_neg hgreater] at htime
    obtain rfl := Option.some.inj htime
    rw [compare_gt_iff_gt, not_lt] at hgreater
    exact hgreater

/-- The bound after the end excludes it. -/
theorem exclusiveTraceEndBound_ok (h : traceEnd.Fits header) :
    ∃ bound, exclusiveTraceEndBound header traceEnd = .ok bound ∧
      (∀ time ∈ bound.time, elapsed traceEnd.ticks header < (time : ℚ)) ∧
      ∀ sequence ∈ bound.sequence, ∀ last ∈ traceEnd.sequence, last < sequence := by
  unfold exclusiveTraceEndBound
  rw [h.floor, ok_bind]
  refine ⟨_, rfl, ?_, ?_⟩
  · intro time htime
    dsimp only at htime
    split at htime
    · obtain rfl := Option.some.inj htime
      push_cast
      exact Int.lt_floor_add_one _
    · cases htime
  · intro sequence hsequence last hlast
    obtain ⟨other, hother, hsequence⟩ := Option.bind_eq_some_iff.mp hsequence
    obtain rfl := Option.mem_unique hother hlast
    split at hsequence
    · obtain rfl := Option.some.inj hsequence
      exact Nat.lt_succ_self _
    · cases hsequence

/-- A bound that exceeds the trace does so in one of its components. -/
theorem windowBoundExceedsTraceEnd_ok (h : traceEnd.Fits header)
    (htime : ∀ time ∈ bound.time, 0 ≤ time) :
    ∃ exceeds, windowBoundExceedsTraceEnd header traceEnd bound = .ok exceeds ∧
      (exceeds = true → (∃ time ∈ bound.time, elapsed traceEnd.ticks header < (time : ℚ)) ∨
        ∃ sequence ∈ bound.sequence, ∀ last ∈ traceEnd.sequence, last < sequence) := by
  unfold windowBoundExceedsTraceEnd
  rw [h.timeHolds htime, ok_bind]
  by_cases hreached : ∀ time ∈ bound.time, (time : ℚ) ≤ elapsed traceEnd.ticks header
  · rw [decide_eq_true hreached, if_neg (by simp)]
    cases hsequence : bound.sequence with
    | none => exact ⟨false, rfl, fun hexceeds => absurd hexceeds Bool.false_ne_true⟩
    | some sequence =>
        cases hlast : traceEnd.sequence with
        | none =>
            refine ⟨decide (0 < sequence), rfl, fun _ => .inr ⟨sequence, rfl, ?_⟩⟩
            intro last hlast
            cases hlast
        | some last =>
            refine ⟨decide (last < sequence), rfl, fun hexceeds => .inr ⟨sequence, rfl, ?_⟩⟩
            intro other hother
            obtain rfl := Option.some.inj hother
            exact of_decide_eq_true hexceeds
  · rw [decide_eq_false hreached]
    refine ⟨true, rfl, fun _ => .inl ?_⟩
    push Not at hreached
    exact hreached

/-! ## The bounds of a window -/

/-- A bound of a time or of a sequence, as the command line makes them. -/
def WindowBound.OneKind (bound : WindowBound) : Prop :=
  bound.time = none ∨ bound.sequence = none

/-- The bound names nothing, or is later than the trace. -/
def WindowBound.Passes (bound : WindowBound) (header : FileHeader) (traceEnd : TraceEnd) : Prop :=
  windowBoundEmpty bound = true ∨
    (∃ time ∈ bound.time, elapsed traceEnd.ticks header < (time : ℚ)) ∨
    ∃ sequence ∈ bound.sequence, ∀ last ∈ traceEnd.sequence, last < sequence

theorem windowBoundEmpty_iff : windowBoundEmpty bound = true ↔
    bound.time = none ∧ bound.sequence = none := by
  unfold windowBoundEmpty
  rw [Bool.and_eq_true, decide_eq_true_eq, decide_eq_true_eq]

/-- The events of the trace are ahead of a bound that is later than it. -/
theorem WindowBound.Passes.ahead (h : bound.Passes header traceEnd) (hone : bound.OneKind)
    (hfrequency : 0 < header.monotonicFrequency) (hincludes : traceEnd.Includes event) :
    bound.Ahead header event := by
  have helapsed := hincludes.elapsed_le hfrequency
  obtain ⟨last, hlast, hsequence⟩ := hincludes.sequence
  rcases h with hempty | ⟨time, htime, hlt⟩ | ⟨sequence, hmem, hlater⟩
  · obtain ⟨htime, hnone⟩ := windowBoundEmpty_iff.mp hempty
    unfold WindowBound.Ahead
    rw [htime, hnone]
    exact ⟨nofun, nofun⟩
  · -- the other component is not there
    have hnone : bound.sequence = none := by
      rcases hone with hone | hone
      · rw [hone] at htime
        cases htime
      · exact hone
    refine ⟨?_, by rw [hnone]; nofun⟩
    intro other hother
    obtain rfl := Option.mem_unique hother htime
    exact lt_of_le_of_lt helapsed hlt
  · have hnone : bound.time = none := by
      rcases hone with hone | hone
      · exact hone
      · rw [hone] at hmem
        cases hmem
    refine ⟨by rw [hnone]; nofun, ?_⟩
    intro other hother
    obtain rfl := Option.mem_unique hother hmem
    exact lt_of_le_of_lt hsequence (hlater last hlast)

theorem WindowBound.Ahead.covers (h : bound.Ahead header event) : bound.Covers header event :=
  ⟨fun time htime => (h.1 time htime).le, fun sequence hsequence => (h.2 sequence hsequence).le⟩

/-- The bound that takes effect is the one that was asked for, or the end of the trace. -/
theorem effectiveUpperBound_ok (h : traceEnd.Fits header) (asked : Option WindowBound)
    (last : WindowBound) (htime : ∀ bound ∈ asked, ∀ time ∈ bound.time, 0 ≤ time) :
    ∃ effective, effectiveUpperBound header traceEnd asked last = .ok effective ∧
      ((∀ bound ∈ asked, bound.OneKind) → asked = some effective ∨
        (effective = last ∧ ∀ bound ∈ asked, bound.Passes header traceEnd)) := by
  cases asked with
  | none => exact ⟨last, rfl, fun _ => .inr ⟨rfl, nofun⟩⟩
  | some bound =>
      have htime := htime bound rfl
      have hpasses : bound.Passes header traceEnd →
          ∀ other ∈ some bound, other.Passes header traceEnd := by
        intro hpasses other hother
        obtain rfl := Option.some.inj hother
        exact hpasses
      unfold effectiveUpperBound
      dsimp only
      by_cases hempty : windowBoundEmpty bound
      · rw [if_pos hempty]
        exact ⟨last, rfl, fun _ => .inr ⟨rfl, hpasses (.inl hempty)⟩⟩
      · rw [if_neg hempty]
        by_cases hmixed : bound.time.isSome && bound.sequence.isSome
        · have hclamp : ∃ time, clampTime header traceEnd bound last = .ok time := by
            unfold clampTime
            rw [h.timeHolds htime, ok_bind]
            split
            · exact ⟨_, rfl⟩
            · exact ⟨_, rfl⟩
          obtain ⟨time, hclamp⟩ := hclamp
          rw [if_pos hmixed, hclamp]
          refine ⟨_, rfl, fun hone => absurd (hone bound rfl) ?_⟩
          rw [Bool.and_eq_true] at hmixed
          rintro (hnone | hnone)
          · rw [hnone] at hmixed
            cases hmixed.1
          · rw [hnone] at hmixed
            cases hmixed.2
        · obtain ⟨exceeds, hexceeds, hlater⟩ := windowBoundExceedsTraceEnd_ok h htime
          rw [if_neg hmixed, hexceeds, ok_bind]
          cases exceeds with
          | true => exact ⟨last, rfl, fun _ => .inr ⟨rfl, hpasses (.inr (hlater rfl))⟩⟩
          | false => exact ⟨bound, rfl, fun _ => .inl rfl⟩

/-- Every event of the trace is observed, where it is said that its end is. -/
theorem observesTraceEnd_ok (h : traceEnd.Fits header) {window : OutstandingWindow}
    (htime : ∀ bound ∈ window.c, ∀ time ∈ bound.time, 0 ≤ time) :
    ∃ uses, window.observesTraceEnd header traceEnd = .ok uses ∧
      (uses = true → ∀ bound ∈ window.c, bound.Passes header traceEnd) := by
  unfold OutstandingWindow.observesTraceEnd
  cases hc : window.c with
  | none => exact ⟨true, rfl, fun _ => nofun⟩
  | some bound =>
      dsimp only
      have hpasses : bound.Passes header traceEnd →
          ∀ other ∈ some bound, other.Passes header traceEnd := by
        intro hpasses other hother
        obtain rfl := Option.some.inj hother
        exact hpasses
      by_cases hempty : windowBoundEmpty bound
      · rw [if_pos hempty]
        exact ⟨true, rfl, fun _ => hpasses (.inl hempty)⟩
      · obtain ⟨exceeds, hexceeds, hlater⟩ := windowBoundExceedsTraceEnd_ok h (htime bound hc)
        rw [if_neg hempty]
        exact ⟨exceeds, hexceeds, fun huses => hpasses (.inr (hlater huses))⟩

end Bounds

/-! ## The analysis -/

section Analysis

variable {options : EventStreamOptions} {decompressors : Decompressors} {input : Bytes}
  {trace : EventStreamResult} {window : OutstandingWindow} {filter : AnalysisFilter}
  {resolver : Option EventMetadataResolver} {result : OutstandingResult}

theorem mapError_eq_ok {ε ε' α : Type} {x : Except ε α} {f : ε → ε'} {a : α} :
    x.mapError f = .ok a ↔ x = .ok a := by
  cases x <;> simp [Except.mapError]

/-- The end of a trace that was rounded down fits. -/
theorem fits_of_inclusive {header : FileHeader} {traceEnd : TraceEnd} {bound : WindowBound}
    (hfrequency : 0 < header.monotonicFrequency) (hword : header.monotonicFrequency < 2 ^ 64)
    (horigin : header.monotonicOrigin ≤ traceEnd.ticks)
    (h : inclusiveTraceEndBound header traceEnd = .ok bound) : traceEnd.Fits header := by
  refine ⟨hfrequency, hword, horigin, ?_⟩
  obtain ⟨floor, hfloor, -⟩ := bind_eq_ok.mp h
  rw [traceTimeFloor_eq hfrequency hword horigin] at hfloor
  have hfloor : (if _ then _ else _ : Except TraceTimeError ℤ) = .ok floor := hfloor
  split at hfloor
  · assumption
  · cases hfloor

/-- What the windows of a result were made of. -/
structure OutstandingResult.Clamped (window : OutstandingWindow) (trace : EventStreamResult)
    (result : OutstandingResult) : Prop where
  fits : trace.traceEnd.Fits trace.fileHeader
  header : result.trace.fileHeader = trace.fileHeader
  b : ∃ last, exclusiveTraceEndBound trace.fileHeader trace.traceEnd = .ok last ∧
    effectiveUpperBound trace.fileHeader trace.traceEnd window.b last = .ok result.effectiveB
  c : ∃ last, inclusiveTraceEndBound trace.fileHeader trace.traceEnd = .ok last ∧
    effectiveUpperBound trace.fileHeader trace.traceEnd window.c last = .ok result.effectiveC
  uses : window.observesTraceEnd trace.fileHeader trace.traceEnd =
    .ok result.observationUsesTraceEnd

theorem clamped_of_result {collector : OutstandingCollector}
    (hfrequency : 0 < trace.fileHeader.monotonicFrequency)
    (hword : trace.fileHeader.monotonicFrequency < 2 ^ 64)
    (horigin : trace.fileHeader.monotonicOrigin ≤ trace.traceEnd.ticks)
    (h : collector.result window filter resolver trace = .ok result) :
    result.Clamped window trace := by
  unfold OutstandingCollector.result at h
  obtain ⟨inclusive, hinclusive, h⟩ := bind_eq_ok.mp h
  obtain ⟨exclusive, hexclusive, h⟩ := bind_eq_ok.mp h
  obtain ⟨effectiveB, hb, h⟩ := bind_eq_ok.mp h
  obtain ⟨uses, huses, h⟩ := bind_eq_ok.mp h
  obtain ⟨effectiveC, hc, h⟩ := bind_eq_ok.mp h
  obtain ⟨⟨outstanding, filteredOut⟩, -, h⟩ := bind_eq_ok.mp h
  cases h
  rw [mapError_eq_ok] at hinclusive hexclusive hb huses hc
  refine ⟨fits_of_inclusive hfrequency hword horigin hinclusive, ?_, ⟨exclusive, hexclusive, hb⟩,
    ⟨inclusive, hinclusive, hc⟩, huses⟩
  show (trace.withOrphans _ _).fileHeader = _
  unfold EventStreamResult.withOrphans
  split <;> rfl

/-- A result was made of an accepted trace. -/
theorem clamped_of_analysis
    (h : analyzeFilteredOutstanding window filter resolver options decompressors input =
      .ok result) :
    window.validate = .ok () ∧
      ∃ trace, (analyzeEventStream options decompressors input).outcome = .ok trace ∧
        result.Clamped window trace := by
  unfold analyzeFilteredOutstanding at h
  obtain ⟨⟨⟩, hwindow, h⟩ := bind_eq_ok.mp h
  obtain ⟨-, h⟩ := failIf_bind_eq_ok.mp h
  obtain ⟨collector, -, h⟩ := bind_eq_ok.mp h
  obtain ⟨trace, haccepted, h⟩ := bind_eq_ok.mp h
  rw [mapError_eq_ok] at haccepted
  have hends := accepted_ends haccepted
  exact ⟨hwindow, trace, haccepted,
    clamped_of_result (accepted_events haccepted).frequency hends.frequency hends.origin h⟩

/-- The bounds that a result says took effect select the events that were asked for. -/
theorem effective_window_selects
    (hanalysis : analyzeFilteredOutstanding window filter resolver options decompressors input =
      .ok result)
    (hb : ∀ bound ∈ window.b, bound.OneKind) (hc : ∀ bound ∈ window.c, bound.OneKind)
    (event : Event)
    (hevent : event ∈ loggedEvents (analyzeEventStream options decompressors input).log) :
    ((∀ bound ∈ window.b, bound.Ahead result.trace.fileHeader event) ↔
        result.effectiveB.Ahead result.trace.fileHeader event) ∧
      (window.Observes result.trace.fileHeader event ↔
        result.effectiveC.Covers result.trace.fileHeader event) ∧
      (result.observationUsesTraceEnd = true →
        window.Observes result.trace.fileHeader event) := by
  obtain ⟨hwindow, trace, haccepted, hclamped⟩ := clamped_of_analysis hanalysis
  have hpositive := positive_of_validate hwindow
  have hfits := hclamped.fits
  have hends := accepted_ends haccepted
  have hincludes : trace.traceEnd.Includes event :=
    ⟨hends.ticks event hevent, hends.sequence event hevent⟩
  have helapsed := hincludes.elapsed_le hfits.frequency
  obtain ⟨last, hlast, hsequence⟩ := hincludes.sequence
  rw [hclamped.header]
  -- what is later than the trace lets every event through
  have hpassesB : (∀ bound ∈ window.b, bound.Passes trace.fileHeader trace.traceEnd) →
      ∀ bound ∈ window.b, bound.Ahead trace.fileHeader event := fun hpasses bound hbound =>
    (hpasses bound hbound).ahead (hb bound hbound) hfits.frequency hincludes
  have hpassesC : (∀ bound ∈ window.c, bound.Passes trace.fileHeader trace.traceEnd) →
      window.Observes trace.fileHeader event := fun hpasses bound hbound =>
    ((hpasses bound hbound).ahead (hc bound hbound) hfits.frequency hincludes).covers
  refine ⟨?_, ?_, ?_⟩
  · obtain ⟨exclusive, hexclusive, heffective⟩ := hclamped.b
    obtain ⟨bound, hbound, htime, hlater⟩ := exclusiveTraceEndBound_ok hfits
    obtain rfl := Except.ok.inj (hexclusive.symm.trans hbound)
    obtain ⟨effective, heq, hcases⟩ := effectiveUpperBound_ok hfits window.b exclusive hpositive.b
    obtain rfl := Except.ok.inj (heffective.symm.trans heq)
    rcases hcases hb with hasked | ⟨hsame, hpasses⟩
    · rw [hasked]
      simp
    · rw [hsame]
      refine iff_of_true (hpassesB hpasses) ⟨?_, ?_⟩
      · exact fun time hmem => lt_of_le_of_lt helapsed (htime time hmem)
      · exact fun sequence hmem => lt_of_le_of_lt hsequence (hlater sequence hmem last hlast)
  · obtain ⟨inclusive, hinclusive, heffective⟩ := hclamped.c
    obtain ⟨bound, hbound, htime, hsame⟩ := inclusiveTraceEndBound_ok hfits
    obtain rfl := Except.ok.inj (hinclusive.symm.trans hbound)
    obtain ⟨effective, heq, hcases⟩ := effectiveUpperBound_ok hfits window.c inclusive hpositive.c
    obtain rfl := Except.ok.inj (heffective.symm.trans heq)
    rcases hcases hc with hasked | ⟨heffectiveSame, hpasses⟩
    · unfold OutstandingWindow.Observes
      rw [hasked]
      simp
    · rw [heffectiveSame]
      refine iff_of_true (hpassesC hpasses) ⟨?_, ?_⟩
      · exact fun time hmem => helapsed.trans (htime time hmem)
      · intro sequence hmem
        rw [hsame] at hmem
        obtain rfl := Option.mem_unique hmem hlast
        exact hsequence
  · intro huses
    obtain ⟨uses, hobserves, hpasses⟩ := observesTraceEnd_ok hfits hpositive.c
    obtain rfl := Except.ok.inj (hclamped.uses.symm.trans hobserves)
    exact hpassesC (hpasses huses)

end Analysis

/-! ## A window beyond the trace -/

/-- The end of the window and `c` are later than the two events. -/
def beyondTrace : OutstandingWindow where
  b := some { sequence := some 7 }
  c := some { sequence := some 9 }

/-- The bounds that took effect, when there is a result. -/
def effectiveBounds : Except OutstandingError OutstandingResult →
    Option (WindowBound × WindowBound × Bool)
  | .ok result => some (result.effectiveB, result.effectiveC, result.observationUsesTraceEnd)
  | .error _ => none

theorem effectiveBounds_eq_some {analysis : Except OutstandingError OutstandingResult}
    {b c : WindowBound} {uses : Bool} (h : effectiveBounds analysis = some (b, c, uses)) :
    ∃ result, analysis = .ok result ∧ result.effectiveB = b ∧ result.effectiveC = c := by
  unfold effectiveBounds at h
  split at h
  · rename_i result
    cases h
    exact ⟨result, rfl, rfl, rfl⟩
  · cases h

set_option maxRecDepth 20000 in
theorem beyondTrace_bounds : effectiveBounds (analyzeFilteredOutstanding beyondTrace {} none {}
    literalDecompressors sampleStacks) =
      some (⟨some 1, some 3⟩, ⟨some 0, some 2⟩, true) := by
  decide +kernel

theorem effective_window_selects_beyond : ∃ result,
    analyzeFilteredOutstanding beyondTrace {} none {} literalDecompressors sampleStacks =
      .ok result ∧ result.effectiveB = ⟨some 1, some 3⟩ ∧ result.effectiveC = ⟨some 0, some 2⟩ ∧
      ∀ event ∈ loggedEvents (analyzeEventStream {} literalDecompressors sampleStacks).log,
        (∀ bound ∈ beyondTrace.b, bound.Ahead result.trace.fileHeader event) ↔
          result.effectiveB.Ahead result.trace.fileHeader event := by
  obtain ⟨result, hresult, hb, hc⟩ := effectiveBounds_eq_some beyondTrace_bounds
  refine ⟨result, hresult, hb, hc, ?_⟩
  intro event hevent
  refine (effective_window_selects hresult ?_ ?_ event hevent).1
  · intro bound hbound
    obtain rfl := Option.some.inj hbound
    exact .inl rfl
  · intro bound hbound
    obtain rfl := Option.some.inj hbound
    exact .inl rfl

end Noleax.Analyzer
