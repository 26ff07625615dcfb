import Noleax.Lifecycle.ExitFinalize

/-!
# The life of a capture (`agent/linux/agent_runtime.cpp`)

The state word of `LinuxCaptureRuntime` over every interleaving of the session, the
duration thread and the exit calls.

`capture_lifecycle`: at most one thread stops the hooks and finishes the writer, and the
writer is finished once; hooks are uninstalled at most once, by the session, after the
writer, and never in an attached target; `kFinalized` says that they are gone, and a
failure of the writer stays visible.
-/

namespace Noleax.Lifecycle

variable {E : Type}

/-! ## What a thread relies on -/

/-- Inside `drain`, behind its compare-exchange. -/
def Place.Drains : Place → Prop
  | .drain _ .stopping | .drain _ .finishing | .drain _ .publishing => True
  | _ => False

/-- Inside `finalize`. -/
def Place.Finalizes : Place → Prop
  | .drain .finalize _ | .testing | .loading | .retaining _ | .claiming _ | .uninstalling _
  | .landing .. => True
  | _ => False

namespace CaptureRuntime

/-- What the state word says of the rest. -/
structure Coherent (runtime : CaptureRuntime) : Prop where
  unfinished : runtime.state = .capturing → runtime.finishReturned = false
  finished : runtime.Settled → runtime.finishReturned = true
  failed : runtime.state = .failed → runtime.writerFailed = true
  intact : runtime.state = .drained ∨ runtime.state = .dormant ∨ runtime.state = .finalized →
    runtime.writerFailed = false
  unpatches : runtime.state = .unpatching ∨ runtime.state = .finalized →
    runtime.retainPatchesOnFinalize = false
  started : runtime.state ≠ .idle ∧ runtime.state ≠ .starting

/-- What a thread at the place relies on. -/
def Allows (runtime : CaptureRuntime) : Place → Prop
  | .drain _ .stopping | .drain _ .finishing =>
      runtime.state = .draining ∧ runtime.finishReturned = false
  | .drain _ .publishing => runtime.state = .draining ∧ runtime.finishReturned = true
  | .retaining failed =>
      runtime.Settled ∧ failed = runtime.writerFailed ∧ runtime.retainPatchesOnFinalize = true
  | .claiming current =>
      runtime.Settled ∧ runtime.retainPatchesOnFinalize = false ∧
        (current = .failed ∧ runtime.writerFailed = true ∨
          current = .drained ∧ runtime.writerFailed = false)
  | .uninstalling failed | .landing failed _ =>
      runtime.Settled ∧ failed = runtime.writerFailed ∧ runtime.retainPatchesOnFinalize = false
  | .parking _ => runtime.Settled ∧ runtime.writerFailed = false
  | _ => True

/-- How far the session has torn the hooks down. -/
def TearsDown (runtime : CaptureRuntime) : Place → Prop
  | .landing _ unpatched => runtime.unpatchIncomplete = !unpatched ∧ runtime.state ≠ .finalized
  | .returned => runtime.state = .finalized → runtime.unpatchIncomplete = false
  | _ => runtime.unpatchIncomplete = false ∧ runtime.state ≠ .finalized

section Allows

variable {runtime next : CaptureRuntime} {place : Place}

/-- Before the capture has settled, only a thread that drains relies on anything. -/
theorem allows_of_open (h : runtime.Allows place) (hopen : ¬ runtime.Settled)
    (hplace : ¬ place.Drains) : next.Allows place := by
  cases place with
  | drain caller stage =>
      cases stage with
      | claiming => trivial
      | stopping | finishing | publishing => exact absurd trivial hplace
  | retaining failed | claiming current | uninstalling failed | landing failed unpatched
  | parking caller => exact absurd h.1 hopen
  | serving | sleeping | outside | testing | loading | retiring caller | entering | original
  | returned => trivial

/-- Once it has settled, nobody drains, and a store of another settled state is nothing
to the other threads. -/
theorem allows_of_settled (h : runtime.Allows place) (hsettled : runtime.Settled)
    (hnext : next.Settled) (hfailed : next.writerFailed = runtime.writerFailed)
    (hretain : next.retainPatchesOnFinalize = runtime.retainPatchesOnFinalize) :
    next.Allows place := by
  cases place with
  | drain caller stage =>
      cases stage with
      | claiming => trivial
      | stopping | finishing | publishing => exact absurd h.1 hsettled.2
  | retaining failed | uninstalling failed | landing failed unpatched =>
      exact ⟨hnext, h.2.1.trans hfailed.symm, hretain.trans h.2.2⟩
  | claiming current =>
      refine ⟨hnext, hretain.trans h.2.1, ?_⟩
      rw [hfailed]
      exact h.2.2
  | parking caller => exact ⟨hnext, hfailed.trans h.2⟩
  | serving | sleeping | outside | testing | loading | retiring caller | entering | original
  | returned => trivial

theorem drains_draining (h : runtime.Allows place) (hplace : place.Drains) :
    runtime.state = .draining := by
  cases place with
  | drain caller stage =>
      cases stage with
      | claiming => exact absurd hplace id
      | stopping | finishing | publishing => exact h.1
  | _ => exact absurd hplace id

end Allows

/-! ## One step -/

/-- A state that says the truth about a capture that is over. -/
def Storable (runtime : CaptureRuntime) : AgentState → Prop
  | .failed => runtime.writerFailed = true
  | .drained | .dormant => runtime.writerFailed = false
  | .unpatching => runtime.retainPatchesOnFinalize = false
  | .finalized => runtime.writerFailed = false ∧ runtime.retainPatchesOnFinalize = false
  | .idle | .starting | .capturing | .draining => False

section Step

variable {runtime : CaptureRuntime} {place : Place}

theorem coherent_store (state : AgentState) (hstate : runtime.Storable state)
    (hfinished : runtime.finishReturned = true) :
    { runtime with state := state }.Coherent := by
  constructor
  case finished => exact fun _ => hfinished
  all_goals cases state <;> simp_all [Storable]

theorem settled_of_storable (state : AgentState) (hstate : runtime.Storable state) :
    { runtime with state := state }.Settled := by
  cases state <;> simp_all [Storable, Settled]

theorem coherent_draining (h : runtime.state = .draining) : runtime.Coherent := by
  constructor <;> simp [h, Settled]

/-- What `drain` leaves behind. -/
theorem storable_publishing (runtime : CaptureRuntime) :
    runtime.Storable (if runtime.writerFailed then .failed else .drained) := by
  cases h : runtime.writerFailed <;> simpa [Storable] using h

theorem storable_retaining {failed : Bool} (h : failed = runtime.writerFailed) :
    runtime.Storable (if failed then .failed else .dormant) := by
  cases failed <;> simpa [Storable] using h.symm

theorem storable_landing {failed unpatched : Bool} (h : failed = runtime.writerFailed)
    (hretain : runtime.retainPatchesOnFinalize = false) :
    runtime.Storable (if failed then .failed else if unpatched then .finalized else .dormant) := by
  cases failed <;> cases unpatched <;> simpa [Storable, hretain] using h.symm

/-- A step keeps the state word true. -/
theorem coherent_placeStep (hcoherent : runtime.Coherent) (hallows : runtime.Allows place)
    (ok : Bool) : (placeStep runtime ok place).1.Coherent := by
  obtain ⟨hunfinished, hfinished, hfailed, hintact, hunpatches, hstarted⟩ := hcoherent
  have hsame : ∀ x y z, CaptureRuntime.Coherent
      { runtime with exitFinalizeStarted := x, drainIncomplete := y, unpatchIncomplete := z } :=
    fun _ _ _ => ⟨hunfinished, hfinished, hfailed, hintact, hunpatches, hstarted⟩
  cases place with
  | drain caller stage =>
      rw [placeStep_drain]
      cases stage with
      | claiming =>
          simp only [drainStep]
          split
          · exact coherent_draining rfl
          · exact hsame _ _ _
      | stopping => exact hsame _ _ _
      | finishing => exact coherent_draining hallows.1
      | publishing => exact coherent_store _ (storable_publishing runtime) hallows.2
  | retaining failed =>
      exact coherent_store _ (storable_retaining hallows.2.1) (hfinished hallows.1)
  | claiming current =>
      simp only [placeStep]
      split
      · exact coherent_store .unpatching hallows.2.1 (hfinished hallows.1)
      · exact hsame _ _ _
  | uninstalling failed => exact hsame _ _ _
  | landing failed unpatched =>
      exact coherent_store _ (storable_landing hallows.2.1 hallows.2.2) (hfinished hallows.1)
  | parking caller => exact coherent_store .dormant hallows.2 (hfinished hallows.1)
  | entering =>
      simp only [placeStep]
      split <;> exact hsame _ _ _
  | serving | sleeping | outside | testing | loading | retiring caller | original | returned =>
      exact hsame _ _ _

/-- A step leaves the other threads what they rely on; only one of them drains. -/
theorem allows_other {other : Place} (hallows : runtime.Allows place) (ok : Bool)
    (hother : runtime.Allows other)
    (halone : place.Drains → ¬ other.Drains) : (placeStep runtime ok place).1.Allows other := by
  have hstore : runtime.Settled → ∀ state, runtime.Storable state →
      { runtime with state := state }.Allows other := fun hsettled state hstate =>
    allows_of_settled hother hsettled (settled_of_storable state hstate) rfl rfl
  have hsame : ∀ x y z, CaptureRuntime.Allows
      { runtime with exitFinalizeStarted := x, drainIncomplete := y, unpatchIncomplete := z }
      other := by
    intro x y z
    cases other with
    | drain caller stage => cases stage <;> exact hother
    | _ => exact hother
  cases place with
  | drain caller stage =>
      rw [placeStep_drain]
      cases stage with
      | claiming =>
          simp only [drainStep]
          split
          · rename_i hcapturing
            refine allows_of_open hother (fun hsettled => hsettled.1 hcapturing) fun hdrains => ?_
            cases hcapturing.symm.trans (drains_draining hother hdrains)
          · exact hother
      | stopping => exact hsame _ _ _
      | finishing | publishing =>
          exact allows_of_open hother (fun hsettled => hsettled.2 hallows.1) (halone trivial)
  | retaining failed => exact hstore hallows.1 _ (storable_retaining hallows.2.1)
  | claiming current =>
      simp only [placeStep]
      split
      · exact hstore hallows.1 .unpatching hallows.2.1
      · exact hother
  | uninstalling failed => exact hsame _ _ _
  | landing failed unpatched =>
      exact hstore hallows.1 _ (storable_landing hallows.2.1 hallows.2.2)
  | parking caller => exact hstore hallows.1 .dormant hallows.2
  | entering =>
      simp only [placeStep]
      split
      · exact hother
      · exact hsame _ _ _
  | serving | sleeping | outside | testing | loading | retiring caller | original | returned =>
      exact hother

theorem allows_drained (caller : DrainCaller) : runtime.Allows caller.drained := by
  cases caller <;> trivial

theorem allows_retired (caller : DrainCaller) : runtime.Allows caller.retired := by
  cases caller <;> trivial

/-- A step takes its thread to a place it may be at. -/
theorem allows_placeStep (hcoherent : runtime.Coherent) (hallows : runtime.Allows place)
    (ok : Bool) : (placeStep runtime ok place).1.Allows (placeStep runtime ok place).2 := by
  cases place with
  | drain caller stage =>
      cases stage with
      | claiming =>
          simp only [placeStep, drainStep]
          by_cases hcapturing : runtime.state = .capturing
          · rw [if_pos hcapturing]
            exact ⟨rfl, hcoherent.unfinished hcapturing⟩
          · rw [if_neg hcapturing]
            exact allows_drained caller
      | stopping => exact hallows
      | finishing => exact ⟨hallows.1, rfl⟩
      | publishing => exact allows_drained caller
  | testing =>
      simp only [placeStep]
      split <;> trivial
  | loading =>
      simp only [placeStep]
      split
      · trivial
      · rename_i hcurrent
        have hstate : runtime.state = .drained ∨ runtime.state = .failed := by
          by_contra hnot
          exact hcurrent (not_or.mp hnot)
        have hsettled : runtime.Settled := by
          rcases hstate with hstate | hstate <;> simp [Settled, hstate]
        split
        · rename_i hretain
          refine ⟨hsettled, ?_, hretain⟩
          rcases hstate with hstate | hstate
          · simp [hstate, hcoherent.intact (.inl hstate)]
          · simp [hstate, hcoherent.failed hstate]
        · rename_i hretain
          refine ⟨hsettled, Bool.not_eq_true _ ▸ hretain, ?_⟩
          rcases hstate with hstate | hstate
          · exact .inr ⟨hstate, hcoherent.intact (.inl hstate)⟩
          · exact .inl ⟨hstate, hcoherent.failed hstate⟩
  | retaining failed => trivial
  | claiming current =>
      simp only [placeStep]
      split
      · refine ⟨settled_of_storable .unpatching hallows.2.1, ?_, hallows.2.1⟩
        rcases hallows.2.2 with ⟨rfl, hfailed⟩ | ⟨rfl, hfailed⟩ <;> simp [hfailed]
      · trivial
  | uninstalling failed => exact hallows
  | landing failed unpatched => trivial
  | retiring caller =>
      simp only [placeStep]
      split
      · rename_i hdrained
        refine ⟨?_, hcoherent.intact (.inl hdrained)⟩
        simp [Settled, hdrained]
      · exact allows_retired caller
  | parking caller => exact allows_retired caller
  | entering =>
      simp only [placeStep]
      split <;> trivial
  | serving | sleeping | outside | original | returned => trivial

/-- Only the compare-exchange of `drain` lets a thread drain. -/
theorem drains_placeStep (ok : Bool) (h : (placeStep runtime ok place).2.Drains) :
    place.Drains ∨ runtime.state = .capturing := by
  cases place with
  | drain caller stage =>
      cases stage with
      | claiming =>
          by_cases hcapturing : runtime.state = .capturing
          · exact .inr hcapturing
          · simp only [placeStep, drainStep, if_neg hcapturing] at h
            cases caller <;> exact absurd h id
      | stopping | finishing | publishing => exact .inl trivial
  | testing | loading | claiming current | retiring caller | entering =>
      simp only [placeStep] at h
      split at h
      all_goals first
        | exact absurd h id
        | (split at h <;> exact absurd h id)
        | (cases caller <;> exact absurd h id)
  | parking caller => cases caller <;> exact absurd h id
  | retaining failed | uninstalling failed | landing failed unpatched | serving | sleeping
  | outside | original | returned => exact absurd h id

/-- A thread outside of `finalize` stays outside. -/
theorem finalizes_placeStep (ok : Bool) (h : (placeStep runtime ok place).2.Finalizes) :
    place.Finalizes := by
  cases place with
  | drain caller stage =>
      cases caller with
      | finalize => exact trivial
      | stopCapture | duration | exit =>
          simp only [placeStep] at h
          split at h <;> exact absurd h id
  | retiring caller =>
      simp only [placeStep] at h
      split at h
      · exact absurd h id
      · cases caller <;> exact absurd h id
  | parking caller => cases caller <;> exact absurd h id
  | entering =>
      simp only [placeStep] at h
      split at h <;> exact absurd h id
  | testing | loading | retaining failed | claiming current | uninstalling failed
  | landing failed unpatched => exact trivial
  | serving | sleeping | outside | original | returned => exact absurd h id

/-- What a thread outside of `finalize` does to the teardown of the session: nothing. -/
theorem tearsDown_other {session : Place} (hplace : ¬ place.Finalizes) (ok : Bool)
    (h : runtime.TearsDown session) : (placeStep runtime ok place).1.TearsDown session := by
  have hflag : (placeStep runtime ok place).1.unpatchIncomplete = runtime.unpatchIncomplete ∧
      ((placeStep runtime ok place).1.state = .finalized → runtime.state = .finalized) := by
    cases place with
    | drain caller stage =>
        rw [placeStep_drain]
        cases stage with
        | claiming =>
            simp only [drainStep]
            split
            · exact ⟨rfl, fun h => by cases h⟩
            · exact ⟨rfl, id⟩
        | stopping | finishing => exact ⟨rfl, id⟩
        | publishing =>
            refine ⟨rfl, fun h => ?_⟩
            cases hfailed : runtime.writerFailed <;> simp [drainStep, hfailed] at h
    | entering =>
        simp only [placeStep]
        split <;> exact ⟨rfl, id⟩
    | parking caller => exact ⟨rfl, fun h => by cases h⟩
    | retiring caller | serving | sleeping | outside | original | returned => exact ⟨rfl, id⟩
    | testing | loading | retaining failed | claiming current | uninstalling failed
    | landing failed unpatched => exact absurd trivial hplace
  cases session with
  | landing failed unpatched => exact ⟨hflag.1.trans h.1, fun hstate => h.2 (hflag.2 hstate)⟩
  | returned => exact fun hstate => hflag.1.trans (h (hflag.2 hstate))
  | _ => exact ⟨hflag.1.trans h.1, fun hstate => h.2 (hflag.2 hstate)⟩

/-- The session's own step. -/
theorem tearsDown_placeStep (ok : Bool) (h : runtime.TearsDown place) :
    (placeStep runtime ok place).1.TearsDown (placeStep runtime ok place).2 := by
  cases place with
  | drain caller stage =>
      cases stage with
      | claiming =>
          by_cases hcapturing : runtime.state = .capturing
          · simp only [placeStep, drainStep, if_pos hcapturing]
            exact ⟨h.1, fun h => by cases h⟩
          · simp only [placeStep, drainStep, if_neg hcapturing]
            cases caller <;> exact h
      | stopping | finishing => exact h
      | publishing =>
          cases hfailed : runtime.writerFailed <;> cases caller <;>
            simpa [placeStep, drainStep, hfailed, TearsDown, DrainCaller.drained] using h.1
  | testing =>
      simp only [placeStep]
      split <;> exact h
  | loading =>
      simp only [placeStep]
      split
      · exact fun _ => h.1
      · split <;> exact h
  | retaining failed => exact fun _ => h.1
  | claiming current =>
      simp only [placeStep]
      split
      · exact ⟨h.1, fun h => by cases h⟩
      · exact fun _ => h.1
  | uninstalling failed =>
      refine ⟨?_, h.2⟩
      show (runtime.unpatchIncomplete || !ok) = !ok
      rw [h.1, Bool.false_or]
  | landing failed unpatched =>
      intro hstate
      cases failed <;> cases unpatched <;> simp [placeStep] at hstate
      exact h.1
  | retiring caller =>
      simp only [placeStep]
      split
      · exact h
      · cases caller with
        | exit => exact h
        | stopCapture | finalize | duration => exact fun _ => h.1
  | parking caller =>
      cases caller with
      | exit => exact ⟨h.1, fun h => by cases h⟩
      | stopCapture | finalize | duration => exact fun _ => h.1
  | entering =>
      simp only [placeStep]
      split <;> exact h
  | serving | sleeping | outside | original | returned => exact h

theorem finishReturned_placeStep (ok : Bool) (h : runtime.finishReturned = true) :
    (placeStep runtime ok place).1.finishReturned = true := by
  cases place with
  | drain caller stage =>
      rw [placeStep_drain]
      cases stage with
      | claiming =>
          simp only [drainStep]
          split <;> exact h
      | finishing => rfl
      | stopping | publishing => exact h
  | claiming current | entering =>
      simp only [placeStep]
      split <;> exact h
  | testing | loading | retaining failed | uninstalling failed | landing failed unpatched
  | retiring caller | parking caller | serving | sleeping | outside | original | returned =>
      exact h

theorem retain_placeStep (ok : Bool) :
    (placeStep runtime ok place).1.retainPatchesOnFinalize = runtime.retainPatchesOnFinalize := by
  cases place with
  | drain caller stage =>
      rw [placeStep_drain]
      cases stage with
      | claiming =>
          simp only [drainStep]
          split <;> rfl
      | stopping | finishing | publishing => rfl
  | claiming current | entering =>
      simp only [placeStep]
      split <;> rfl
  | testing | loading | retaining failed | uninstalling failed | landing failed unpatched
  | retiring caller | parking caller | serving | sleeping | outside | original | returned => rfl

end Step

end CaptureRuntime

/-! ## The invariant -/

namespace RuntimeSystem

structure Lives (s : RuntimeSystem E) : Prop where
  coherent : s.runtime.Coherent
  allows : ∀ t, s.runtime.Allows (s.places t)
  alone : ∀ t t', (s.places t).Drains → (s.places t').Drains → t = t'
  session : ∀ t, (s.places t).Finalizes → t = .session
  tearsDown : s.runtime.TearsDown (s.places .session)

theorem lives_start (retain : Bool) : (start retain : RuntimeSystem E).Lives where
  coherent := by constructor <;> simp [start, CaptureRuntime.Settled]
  allows t := by cases t <;> trivial
  alone t _ h := by cases t <;> exact absurd h id
  session t h := by cases t <;> exact absurd h id
  tearsDown := ⟨rfl, fun h => by cases h⟩

section Steps

variable [DecidableEq E] {s u : RuntimeSystem E} {t : RuntimeThread E} {place : Place}

/-- A thread moves to a place that relies on nothing. -/
theorem Lives.move (h : s.Lives) (hallows : s.runtime.Allows place) (hdrains : ¬ place.Drains)
    (hsession : place.Finalizes → t = .session)
    (htears : t = .session → s.runtime.TearsDown place) : (s.move t place).Lives where
  coherent := h.coherent
  allows t' := by
    show s.runtime.Allows (Function.update s.places t place t')
    by_cases ht : t' = t
    · rw [ht, Function.update_self]
      exact hallows
    · rw [Function.update_of_ne ht]
      exact h.allows t'
  alone t' t'' := by
    show (Function.update s.places t place t').Drains →
      (Function.update s.places t place t'').Drains → _
    intro h' h''
    have hne' : t' ≠ t := by
      rintro rfl
      rw [Function.update_self] at h'
      exact hdrains h'
    have hne'' : t'' ≠ t := by
      rintro rfl
      rw [Function.update_self] at h''
      exact hdrains h''
    rw [Function.update_of_ne hne'] at h'
    rw [Function.update_of_ne hne''] at h''
    exact h.alone t' t'' h' h''
  session t' := by
    show (Function.update s.places t place t').Finalizes → _
    by_cases ht : t' = t
    · rw [ht, Function.update_self]
      exact hsession
    · rw [Function.update_of_ne ht]
      exact h.session t'
  tearsDown := by
    show s.runtime.TearsDown (Function.update s.places t place .session)
    by_cases ht : RuntimeThread.session = t
    · rw [ht, Function.update_self]
      exact htears ht.symm
    · rw [Function.update_of_ne ht]
      exact h.tearsDown

theorem Lives.advance (h : s.Lives) (t : RuntimeThread E) (ok : Bool) : (s.advance t ok).Lives where
  coherent := CaptureRuntime.coherent_placeStep h.coherent (h.allows t) ok
  allows t' := by
    show (placeStep s.runtime ok (s.places t)).1.Allows
      (Function.update s.places t (placeStep s.runtime ok (s.places t)).2 t')
    by_cases ht : t' = t
    · rw [ht, Function.update_self]
      exact CaptureRuntime.allows_placeStep h.coherent (h.allows t) ok
    · rw [Function.update_of_ne ht]
      exact CaptureRuntime.allows_other (h.allows t) ok (h.allows t')
        fun hdrains hother => ht (h.alone t' t hother hdrains)
  alone := by
    -- a thread that drains now drained before, or found nobody else draining
    have hbefore : ∀ t', (Function.update s.places t (placeStep s.runtime ok (s.places t)).2
        t').Drains → (s.places t').Drains ∨ t' = t ∧ s.runtime.state = .capturing := by
      intro t' hdrains
      by_cases ht : t' = t
      · rw [ht, Function.update_self] at hdrains
        rw [ht]
        exact (CaptureRuntime.drains_placeStep ok hdrains).imp id fun hstate => ⟨rfl, hstate⟩
      · rw [Function.update_of_ne ht] at hdrains
        exact .inl hdrains
    have hnobody : s.runtime.state = .capturing → ∀ t', ¬ (s.places t').Drains := by
      intro hstate t' hdrains
      cases hstate.symm.trans (CaptureRuntime.drains_draining (h.allows t') hdrains)
    intro t' t'' h' h''
    rcases hbefore t' h' with hfirst | ⟨hfirst, hstate⟩
    · rcases hbefore t'' h'' with hsecond | ⟨-, hstate⟩
      · exact h.alone t' t'' hfirst hsecond
      · exact absurd hfirst (hnobody hstate t')
    · rcases hbefore t'' h'' with hsecond | ⟨hsecond, -⟩
      · exact absurd hsecond (hnobody hstate t'')
      · exact hfirst.trans hsecond.symm
  session t' := by
    show (Function.update s.places t (placeStep s.runtime ok (s.places t)).2 t').Finalizes → _
    by_cases ht : t' = t
    · rw [ht, Function.update_self]
      exact fun hfinalizes => h.session t (CaptureRuntime.finalizes_placeStep ok hfinalizes)
    · rw [Function.update_of_ne ht]
      exact h.session t'
  tearsDown := by
    show (placeStep s.runtime ok (s.places t)).1.TearsDown
      (Function.update s.places t (placeStep s.runtime ok (s.places t)).2 .session)
    by_cases ht : RuntimeThread.session = t
    · rw [← ht, Function.update_self]
      exact CaptureRuntime.tearsDown_placeStep ok h.tearsDown
    · rw [Function.update_of_ne ht]
      exact CaptureRuntime.tearsDown_other (fun hfinalizes => ht (h.session t hfinalizes).symm) ok
        h.tearsDown

theorem Lives.perform {a : RuntimeAction E} (h : s.Lives) (hstep : s.perform a = some u) :
    u.Lives := by
  have htears := h.tearsDown
  cases a with
  | stopCapture =>
      obtain ⟨hplace, heq⟩ := Option.ite_none_right_eq_some.mp hstep
      cases heq
      rw [hplace] at htears
      exact h.move trivial id (fun h => absurd h id) fun _ => htears
  | finalizeHooks =>
      obtain ⟨hplace, heq⟩ := Option.ite_none_right_eq_some.mp hstep
      cases heq
      rw [hplace] at htears
      exact h.move trivial id (fun _ => rfl) fun _ => htears
  | elapse =>
      obtain ⟨-, heq⟩ := Option.ite_none_right_eq_some.mp hstep
      cases heq
      exact h.move trivial id (fun h => absurd h id) fun h => by cases h
  | callExit e =>
      obtain ⟨-, heq⟩ := Option.ite_none_right_eq_some.mp hstep
      cases heq
      exact h.move trivial id (fun h => absurd h id) fun h => by cases h
  | advance t ok =>
      cases hstep
      exact h.advance t ok

/-- Any interleaving. -/
abbrev Reaches : RuntimeSystem E → RuntimeSystem E → Prop := RuntimeRun fun _ _ => True

theorem Reaches.lives (hrun : Reaches s u) (h : s.Lives) : u.Lives := by
  induction hrun with
  | refl => exact h
  | step a _ _ hstep ih => exact ih.perform hstep

theorem Reaches.trans {v : RuntimeSystem E} (hrun : Reaches s u) (hrest : Reaches u v) :
    Reaches s v := by
  induction hrest with
  | refl => exact hrun
  | step a _ hmeets hstep ih => exact .step a ih hmeets hstep

/-- What a run does not undo. -/
theorem Reaches.keeps {P : RuntimeSystem E → Prop} (hrun : Reaches s u) (h : P s)
    (hstep : ∀ s a u, P s → s.perform a = some u → P u) : P u := by
  induction hrun with
  | refl => exact h
  | step a _ _ hperform ih => exact hstep _ a _ ih hperform

/-- The step calls `writer_->finish()`. -/
def Finishes (s : RuntimeSystem E) (a : RuntimeAction E) : Prop :=
  ∃ t ok caller, a = .advance t ok ∧ s.places t = .drain caller .finishing

/-- The step calls `uninstall` of the hooks and `shutdown` of the backend. -/
def Uninstalls (s : RuntimeSystem E) (a : RuntimeAction E) : Prop :=
  ∃ t ok failed, a = .advance t ok ∧ s.places t = .uninstalling failed

theorem finishReturned_perform {a : RuntimeAction E} (h : s.runtime.finishReturned = true)
    (hstep : s.perform a = some u) : u.runtime.finishReturned = true := by
  cases a with
  | advance t ok =>
      cases hstep
      exact CaptureRuntime.finishReturned_placeStep ok h
  | stopCapture | finalizeHooks | elapse | callExit e =>
      obtain ⟨-, heq⟩ := Option.ite_none_right_eq_some.mp hstep
      cases heq
      exact h

theorem retain_perform {retain : Bool} {a : RuntimeAction E}
    (h : s.runtime.retainPatchesOnFinalize = retain) (hstep : s.perform a = some u) :
    u.runtime.retainPatchesOnFinalize = retain := by
  cases a with
  | advance t ok =>
      cases hstep
      exact (CaptureRuntime.retain_placeStep ok).trans h
  | stopCapture | finalizeHooks | elapse | callExit e =>
      obtain ⟨-, heq⟩ := Option.ite_none_right_eq_some.mp hstep
      cases heq
      exact h

/-- Behind the teardown. -/
def TornDown (s : RuntimeSystem E) : Prop :=
  s.places .session = .returned ∨
    ∃ failed unpatched, s.places .session = .landing failed unpatched

theorem tornDown_perform {a : RuntimeAction E} (h : s.TornDown) (hstep : s.perform a = some u) :
    u.TornDown := by
  cases a with
  | advance t ok =>
      cases hstep
      show Function.update s.places t _ .session = _ ∨
        ∃ _ _, Function.update s.places t _ .session = _
      by_cases ht : RuntimeThread.session = t
      · rw [← ht, Function.update_self]
        rcases h with h | ⟨failed, unpatched, h⟩
        · rw [h]
          exact .inl rfl
        · rw [h]
          exact .inl rfl
      · rw [Function.update_of_ne ht]
        exact h
  | stopCapture | finalizeHooks =>
      obtain ⟨hplace, -⟩ := Option.ite_none_right_eq_some.mp hstep
      rcases h with h | ⟨failed, unpatched, h⟩ <;> cases hplace.symm.trans h
  | elapse | callExit e =>
      obtain ⟨-, heq⟩ := Option.ite_none_right_eq_some.mp hstep
      cases heq
      simpa [TornDown, RuntimeSystem.move, Function.update] using h

end Steps

end RuntimeSystem

/-! ## The life of a capture -/

open RuntimeSystem

variable [DecidableEq E]

/-- In every interleaving of the session, the duration thread and the exit calls: one
thread at most is inside a drain; the hooks are uninstalled by the session, after the
writer has been finished and while nobody drains, and not in an attached target; a
capture that is over has its writer finished, and its state tells a failed writer from
an intact one; `kFinalized` means that the teardown was complete. The writer is finished
at most once, and the hooks are uninstalled at most once. -/
theorem capture_lifecycle (retain : Bool) :
    (∀ s : RuntimeSystem E, Reaches (.start retain) s →
      (∀ t t', (s.places t).Drains → (s.places t').Drains → t = t') ∧
      (∀ t failed, s.places t = .uninstalling failed → t = .session ∧ retain = false ∧
        s.runtime.finishReturned = true ∧ ∀ t', ¬ (s.places t').Drains) ∧
      (s.runtime.Settled → s.runtime.finishReturned = true ∧
        (s.runtime.writerFailed = true →
          s.runtime.state = .failed ∨ s.runtime.state = .unpatching) ∧
        (s.runtime.writerFailed = false → s.runtime.state ≠ .failed)) ∧
      (s.runtime.state = .finalized →
        s.runtime.unpatchIncomplete = false ∧ retain = false)) ∧
    (∀ (s u v : RuntimeSystem E) (a b : RuntimeAction E), Reaches (.start retain) s →
      s.perform a = some u → Reaches u v →
      (s.Finishes a → ¬ v.Finishes b) ∧ (s.Uninstalls a → ¬ v.Uninstalls b)) := by
  have hretain : ∀ s : RuntimeSystem E, Reaches (.start retain) s →
      s.runtime.retainPatchesOnFinalize = retain := fun s hrun =>
    hrun.keeps (P := fun s => s.runtime.retainPatchesOnFinalize = retain) rfl
      fun _ _ _ h hstep => retain_perform h hstep
  constructor
  · intro s hrun
    have h := Reaches.lives hrun (lives_start retain)
    refine ⟨h.alone, ?_, ?_, ?_⟩
    · intro t failed hplace
      have hallows := h.allows t
      rw [hplace] at hallows
      refine ⟨h.session t (by rw [hplace]; trivial), (hretain s hrun).symm.trans hallows.2.2,
        h.coherent.finished hallows.1, fun t' hdrains => ?_⟩
      exact hallows.1.2 (CaptureRuntime.drains_draining (h.allows t') hdrains)
    · intro hsettled
      refine ⟨h.coherent.finished hsettled, fun hfailed => ?_, fun hintact hfailed => ?_⟩
      · cases hstate : s.runtime.state with
        | failed => exact .inl rfl
        | unpatching => exact .inr rfl
        | idle => exact absurd hstate h.coherent.started.1
        | starting => exact absurd hstate h.coherent.started.2
        | capturing => exact absurd hstate hsettled.1
        | draining => exact absurd hstate hsettled.2
        | drained => cases hfailed.symm.trans (h.coherent.intact (.inl hstate))
        | dormant => cases hfailed.symm.trans (h.coherent.intact (.inr (.inl hstate)))
        | finalized => cases hfailed.symm.trans (h.coherent.intact (.inr (.inr hstate)))
      · cases hintact.symm.trans (h.coherent.failed hfailed)
    · intro hstate
      refine ⟨?_, (hretain s hrun).symm.trans (h.coherent.unpatches (.inr hstate))⟩
      have htears := h.tearsDown
      cases hplace : s.places .session with
      | returned =>
          rw [hplace] at htears
          exact htears hstate
      | _ =>
          rw [hplace] at htears
          exact absurd hstate htears.2
  · intro s u v a b hrun hstep hrest
    have hlives := Reaches.lives hrest
      ((Reaches.lives hrun (lives_start retain)).perform hstep)
    constructor
    · rintro ⟨t, ok, caller, rfl, hplace⟩ ⟨t', ok', caller', rfl, hplace'⟩
      -- the first call has returned, so nobody is about to make another one
      have hreturned : v.runtime.finishReturned = true := by
        refine hrest.keeps (P := fun s => s.runtime.finishReturned = true) ?_
          fun _ _ _ h hstep => finishReturned_perform h hstep
        cases hstep
        show (placeStep s.runtime ok (s.places t)).1.finishReturned = true
        rw [hplace]
        rfl
      have hallows := hlives.allows t'
      rw [hplace'] at hallows
      cases hreturned.symm.trans hallows.2
    · rintro ⟨t, ok, failed, rfl, hplace⟩ ⟨t', ok', failed', rfl, hplace'⟩
      have ht : t = .session := by
        refine (Reaches.lives hrun (lives_start retain)).session t ?_
        rw [hplace]
        trivial
      have ht' : t' = .session := by
        refine hlives.session t' ?_
        rw [hplace']
        trivial
      subst ht ht'
      have htorn : v.TornDown := by
        refine hrest.keeps (P := TornDown) ?_ fun _ _ _ h hstep => tornDown_perform h hstep
        cases hstep
        refine .inr ⟨failed, ok, ?_⟩
        show Function.update s.places RuntimeThread.session
          (placeStep s.runtime ok (s.places .session)).2 .session = _
        rw [Function.update_self, hplace]
        rfl
      rcases htorn with htorn | ⟨_, _, htorn⟩ <;> cases hplace'.symm.trans htorn

end Noleax.Lifecycle
