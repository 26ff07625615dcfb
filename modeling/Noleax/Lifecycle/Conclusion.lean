import Noleax.Lifecycle.CaptureLifecycle

/-!
# What the end of `finalize` says (`agent/linux/agent_runtime.cpp`)

A capture that is driven by its session has no duration thread: the session thread meets
the exit calls only. Once `finalize` has returned the state word is neither `kCapturing`
nor `kUnpatching`, and what it says about the writer and the hooks stays true. Without an
exit call it is determined by the writer, the kind of the capture and the teardown.
-/

namespace Noleax.Lifecycle

variable {E : Type}

namespace CaptureRuntime

/-- What `finalize` leaves behind when nobody else acts. -/
def landed (runtime : CaptureRuntime) : AgentState :=
  if runtime.writerFailed then .failed
  else if runtime.retainPatchesOnFinalize || runtime.unpatchIncomplete then .dormant
  else .finalized

/-- How far the session has come. -/
def Behind (runtime : CaptureRuntime) : Place → Prop
  | .serving | .testing | .drain .stopCapture _ | .drain .finalize _ =>
      runtime.state ≠ .unpatching
  | .loading | .retaining _ | .claiming _ | .returned =>
      runtime.state ≠ .capturing ∧ runtime.state ≠ .unpatching
  | .uninstalling _ | .landing .. => runtime.state ≠ .capturing
  | _ => False

/-- How far it has come when nobody else acts. -/
def Alone (runtime : CaptureRuntime) : Place → Prop
  | .serving | .testing | .drain .stopCapture .claiming =>
      runtime.state = .capturing ∨ runtime.state = .drained ∨ runtime.state = .failed
  | .drain .finalize .claiming => runtime.state = .capturing
  | .loading => runtime.state = .drained ∨ runtime.state = .failed
  | .claiming current => runtime.state = current
  | .returned => runtime.state = runtime.landed
  | _ => True

section Step

variable {runtime : CaptureRuntime} {place : Place}

/-- The compare-exchange of `drain` succeeds. -/
theorem placeStep_claiming (ok : Bool) (caller : DrainCaller)
    (hstate : runtime.state = .capturing) : placeStep runtime ok (.drain caller .claiming) =
      ({ runtime with state := .draining }, .drain caller .stopping) := by
  simp only [placeStep, drainStep, hstate, if_true]

/-- Or it fails, and `drain` returns. -/
theorem placeStep_claimed (ok : Bool) (caller : DrainCaller)
    (hstate : runtime.state ≠ .capturing) :
    placeStep runtime ok (.drain caller .claiming) = (runtime, caller.drained) := by
  simp only [placeStep, drainStep, hstate, if_false]

/-- A thread outside `finalize` stores no `kCapturing` and no `kUnpatching`. -/
theorem state_placeStep (runtime : CaptureRuntime) (hplace : ¬ place.Finalizes) (ok : Bool) :
    (placeStep runtime ok place).1.state = runtime.state ∨
      (placeStep runtime ok place).1.state ≠ .capturing ∧
        (placeStep runtime ok place).1.state ≠ .unpatching := by
  cases place with
  | drain caller stage =>
      rw [placeStep_drain]
      cases stage with
      | claiming =>
          simp only [drainStep]
          split
          · exact .inr ⟨by simp, by simp⟩
          · exact .inl rfl
      | stopping | finishing => exact .inl rfl
      | publishing =>
          refine .inr ?_
          simp only [drainStep]
          split <;> exact ⟨by simp, by simp⟩
  | testing | loading | retaining _ | claiming _ | uninstalling _ | landing _ _ =>
      exact absurd trivial hplace
  | parking caller => exact .inr ⟨by simp [placeStep], by simp [placeStep]⟩
  | entering =>
      simp only [placeStep]
      split <;> exact .inl rfl
  | serving | sleeping | outside | retiring caller | original | returned => exact .inl rfl

theorem behind_other {session : Place} (hplace : ¬ place.Finalizes) (ok : Bool)
    (h : runtime.Behind session) : (placeStep runtime ok place).1.Behind session := by
  have hkeep : ∀ state, runtime.state ≠ state → state = .capturing ∨ state = .unpatching →
      (placeStep runtime ok place).1.state ≠ state := by
    intro state hne hstate
    rcases state_placeStep runtime hplace ok with heq | ⟨hcapturing, hunpatching⟩
    · rw [heq]
      exact hne
    · rcases hstate with rfl | rfl
      · exact hcapturing
      · exact hunpatching
  cases session with
  | serving | testing => exact hkeep _ h (.inr rfl)
  | drain caller stage =>
      cases caller with
      | stopCapture | finalize => exact hkeep _ h (.inr rfl)
      | duration | exit => exact h
  | loading | retaining _ | claiming _ | returned =>
      exact ⟨hkeep _ h.1 (.inl rfl), hkeep _ h.2 (.inr rfl)⟩
  | uninstalling _ | landing _ _ => exact hkeep _ h (.inl rfl)
  | sleeping | outside | retiring _ | parking _ | entering | original => exact h

/-- A step of the session itself. -/
theorem behind_placeStep (ok : Bool) (h : runtime.Behind place) :
    (placeStep runtime ok place).1.Behind (placeStep runtime ok place).2 := by
  cases place with
  | serving => exact h
  | drain caller stage =>
      cases caller with
      | duration | exit => exact absurd h id
      | stopCapture =>
          cases stage with
          | claiming =>
              by_cases hstate : runtime.state = .capturing
              · rw [placeStep_claiming ok _ hstate]
                show AgentState.draining ≠ .unpatching
                simp
              · rw [placeStep_claimed ok _ hstate]
                exact h
          | stopping | finishing => exact h
          | publishing =>
              show (if runtime.writerFailed = true then AgentState.failed else .drained) ≠ _
              split <;> simp
      | finalize =>
          cases stage with
          | claiming =>
              by_cases hstate : runtime.state = .capturing
              · rw [placeStep_claiming ok _ hstate]
                show AgentState.draining ≠ .unpatching
                simp
              · rw [placeStep_claimed ok _ hstate]
                exact ⟨hstate, h⟩
          | stopping | finishing => exact h
          | publishing =>
              show (if runtime.writerFailed = true then AgentState.failed else .drained) ≠ _ ∧
                (if runtime.writerFailed = true then AgentState.failed else .drained) ≠ _
              split <;> simp
  | testing =>
      show runtime.Behind (if runtime.state = .capturing then _ else _)
      split
      · exact h
      · rename_i hstate
        exact ⟨hstate, h⟩
  | loading =>
      show runtime.Behind (if runtime.state ≠ .drained ∧ runtime.state ≠ .failed then .returned
        else if runtime.retainPatchesOnFinalize then .retaining _ else .claiming _)
      split
      · exact h
      · split <;> exact h
  | retaining failed =>
      show (if failed = true then AgentState.failed else .dormant) ≠ _ ∧
        (if failed = true then AgentState.failed else .dormant) ≠ _
      split <;> simp
  | claiming current =>
      simp only [placeStep]
      split
      · show AgentState.unpatching ≠ .capturing
        simp
      · exact h
  | uninstalling failed => exact h
  | landing failed unpatched =>
      show (if failed = true then AgentState.failed
          else if unpatched = true then .finalized else .dormant) ≠ _ ∧
        (if failed = true then AgentState.failed
          else if unpatched = true then .finalized else .dormant) ≠ _
      split
      · simp
      · split <;> simp
  | returned => exact h
  | sleeping | outside | retiring _ | parking _ | entering | original => exact absurd h id

/-- A step of the session when nobody else acts. -/
theorem alone_placeStep (ok : Bool) (hallows : runtime.Allows place)
    (hbehind : runtime.Behind place) (htears : runtime.TearsDown place)
    (h : runtime.Alone place) :
    (placeStep runtime ok place).1.Alone (placeStep runtime ok place).2 := by
  have hpublished : (if runtime.writerFailed = true then AgentState.failed else .drained) =
      .drained ∨ (if runtime.writerFailed = true then AgentState.failed else .drained) =
      .failed := by
    split
    · exact .inr rfl
    · exact .inl rfl
  cases place with
  | serving => exact h
  | drain caller stage =>
      cases caller with
      | duration | exit => exact absurd hbehind id
      | stopCapture =>
          cases stage with
          | claiming =>
              by_cases hstate : runtime.state = .capturing
              · rw [placeStep_claiming ok _ hstate]
                trivial
              · rw [placeStep_claimed ok _ hstate]
                exact h
          | stopping | finishing => trivial
          | publishing => exact .inr hpublished
      | finalize =>
          cases stage with
          | claiming =>
              rw [placeStep_claiming ok _ h]
              trivial
          | stopping | finishing => trivial
          | publishing => exact hpublished
  | testing =>
      show runtime.Alone (if runtime.state = .capturing then _ else _)
      split
      · assumption
      · rename_i hstate
        exact h.resolve_left hstate
  | loading =>
      show runtime.Alone (if runtime.state ≠ .drained ∧ runtime.state ≠ .failed then .returned
        else if runtime.retainPatchesOnFinalize then .retaining _ else .claiming _)
      split
      · rename_i hstate
        rcases h with h | h
        · exact absurd h hstate.1
        · exact absurd h hstate.2
      · split
        · trivial
        · rfl
  | retaining failed =>
      show (if failed = true then AgentState.failed else .dormant) = _
      obtain ⟨-, rfl, hretain⟩ := hallows
      simp only [placeStep, landed, hretain, Bool.true_or, if_true]
  | claiming current =>
      simp only [placeStep]
      split
      · trivial
      · rename_i hstate
        exact absurd h hstate
  | uninstalling failed => trivial
  | landing failed unpatched =>
      obtain ⟨-, rfl, hretain⟩ := hallows
      show (if runtime.writerFailed = true then AgentState.failed
          else if unpatched = true then .finalized else .dormant) = _
      cases unpatched <;> simp [placeStep, landed, hretain, htears.1]
  | returned => exact h
  | sleeping | outside | retiring _ | parking _ | entering | original => exact absurd hbehind id

/-- The writer is finished once: its result stays. -/
theorem writerFailed_placeStep (ok : Bool) (hallows : runtime.Allows place)
    (hfinished : runtime.finishReturned = true) :
    (placeStep runtime ok place).1.writerFailed = runtime.writerFailed := by
  cases place with
  | drain caller stage =>
      rw [placeStep_drain]
      cases stage with
      | claiming =>
          simp only [drainStep]
          split <;> rfl
      | stopping | publishing => rfl
      | finishing => cases hfinished.symm.trans hallows.2
  | claiming current =>
      simp only [placeStep]
      split <;> rfl
  | entering =>
      simp only [placeStep]
      split <;> rfl
  | _ => rfl

theorem unpatchIncomplete_placeStep (hplace : ¬ place.Finalizes) (ok : Bool) :
    (placeStep runtime ok place).1.unpatchIncomplete = runtime.unpatchIncomplete := by
  cases place with
  | drain caller stage =>
      rw [placeStep_drain]
      cases stage with
      | claiming =>
          simp only [drainStep]
          split <;> rfl
      | stopping | finishing | publishing => rfl
  | testing | loading | retaining _ | claiming _ | uninstalling _ | landing _ _ =>
      exact absurd trivial hplace
  | entering =>
      simp only [placeStep]
      split <;> rfl
  | serving | sleeping | outside | parking _ | retiring _ | original | returned => rfl

/-- No thread goes back to before its call. -/
theorem outside_placeStep (ok : Bool) (h : (placeStep runtime ok place).2 = .outside) :
    place = .outside := by
  cases place with
  | outside => rfl
  | drain caller stage =>
      rcases hstep : drainStep runtime ok stage with ⟨next, _ | later⟩
      · simp only [placeStep, hstep] at h
        cases caller <;> cases h
      · simp only [placeStep, hstep] at h
        cases h
  | testing | claiming current | entering =>
      simp only [placeStep] at h
      split at h <;> cases h
  | loading =>
      simp only [placeStep] at h
      split at h
      · cases h
      · split at h <;> cases h
  | retiring caller =>
      simp only [placeStep] at h
      split at h
      · cases h
      · cases caller <;> cases h
  | parking caller => cases caller <;> cases h
  | serving | sleeping | retaining _ | uninstalling _ | landing _ _ | original | returned => cases h

end Step

end CaptureRuntime

/-! ## The system -/

/-- A step of a capture whose only threads are the session and the exit calls. -/
def RuntimeAction.InSession : RuntimeAction E → Prop
  | .elapse | .advance .duration _ => False
  | _ => True

namespace RuntimeSystem

structure Serves (s : RuntimeSystem E) : Prop where
  lives : s.Lives
  behind : s.runtime.Behind (s.places .session)
  alone : (∀ e, s.places (.exit e) = .outside) → s.runtime.Alone (s.places .session)

/-- What a state word reported by `finalize` says about the capture. -/
structure Concluded (s : RuntimeSystem E) (state : AgentState) : Prop where
  past : state ≠ .idle ∧ state ≠ .starting ∧ state ≠ .capturing ∧ state ≠ .unpatching
  finished : state ≠ .draining → s.runtime.finishReturned = true ∧
    (s.runtime.writerFailed = true ↔ state = .failed)
  complete : state = .finalized →
    s.runtime.unpatchIncomplete = false ∧ s.runtime.retainPatchesOnFinalize = false
  alone : (∀ e, s.places (.exit e) = .outside) → state = s.runtime.landed

theorem serves_start (retain : Bool) : (start retain : RuntimeSystem E).Serves where
  lives := lives_start retain
  behind := by
    show AgentState.capturing ≠ .unpatching
    simp
  alone _ := .inl rfl

/-- What is reported when the session thread has left `finalize`. -/
theorem Serves.concluded {s : RuntimeSystem E} (h : s.Serves)
    (hplace : s.places .session = .returned) : s.Concluded s.runtime.state := by
  have hcoherent := h.lives.coherent
  have hbehind := h.behind
  have htears := h.lives.tearsDown
  rw [hplace] at hbehind htears
  refine ⟨⟨hcoherent.started.1, hcoherent.started.2, hbehind.1, hbehind.2⟩, ?_, ?_, ?_⟩
  · intro hdraining
    refine ⟨hcoherent.finished ⟨hbehind.1, hdraining⟩, fun hfailed => ?_, hcoherent.failed⟩
    cases hstate : s.runtime.state with
    | failed => rfl
    | idle => exact absurd hstate hcoherent.started.1
    | starting => exact absurd hstate hcoherent.started.2
    | capturing => exact absurd hstate hbehind.1
    | draining => exact absurd hstate hdraining
    | unpatching => exact absurd hstate hbehind.2
    | drained => cases hfailed.symm.trans (hcoherent.intact (.inl hstate))
    | dormant => cases hfailed.symm.trans (hcoherent.intact (.inr (.inl hstate)))
    | finalized => cases hfailed.symm.trans (hcoherent.intact (.inr (.inr hstate)))
  · exact fun hstate => ⟨htears hstate, hcoherent.unpatches (.inr hstate)⟩
  · intro hexits
    have halone := h.alone hexits
    rw [hplace] at halone
    exact halone

/-- Only the session goes through `finalize`. -/
theorem Serves.not_finalizes {s : RuntimeSystem E} (h : s.Serves) {t : RuntimeThread E}
    (ht : t ≠ .session) :
    ¬ (s.places t).Finalizes := fun hfinalizes => ht (h.lives.session t hfinalizes)

section Steps

variable [DecidableEq E] {s u : RuntimeSystem E} {a : RuntimeAction E}

/-- An exit function that has not been called now had not been called before. -/
theorem outside_perform (hstep : s.perform a = some u) {e : E}
    (h : u.places (.exit e) = .outside) : s.places (.exit e) = .outside := by
  cases a with
  | stopCapture | finalizeHooks | elapse =>
      obtain ⟨-, heq⟩ := Option.ite_none_right_eq_some.mp hstep
      cases heq
      exact h
  | callExit e' =>
      obtain ⟨houtside, heq⟩ := Option.ite_none_right_eq_some.mp hstep
      cases heq
      change Function.update s.places (.exit e') _ (.exit e) = _ at h
      by_cases he : RuntimeThread.exit e = .exit e'
      · rw [he, Function.update_self] at h
        cases h
      · rwa [Function.update_of_ne he] at h
  | advance t ok =>
      cases hstep
      change Function.update s.places t _ (.exit e) = _ at h
      by_cases ht : .exit e = t
      · rw [ht, Function.update_self] at h
        rw [ht]
        exact CaptureRuntime.outside_placeStep ok h
      · rwa [Function.update_of_ne ht] at h

theorem Serves.perform (h : s.Serves) (ha : a.InSession) (hstep : s.perform a = some u) :
    u.Serves := by
  have hlives := h.lives.perform hstep
  have hexits : (∀ e, u.places (.exit e) = .outside) → ∀ e, s.places (.exit e) = .outside :=
    fun hall e => outside_perform hstep (hall e)
  cases a with
  | elapse => exact absurd ha id
  | stopCapture | finalizeHooks =>
      obtain ⟨hplace, heq⟩ := Option.ite_none_right_eq_some.mp hstep
      have hbehind := h.behind
      have halone := h.alone
      rw [hplace] at hbehind halone
      cases heq
      refine ⟨hlives, ?_, fun hall => ?_⟩
      · show s.runtime.Behind (Function.update s.places .session _ .session)
        rw [Function.update_self]
        exact hbehind
      · show s.runtime.Alone (Function.update s.places .session _ .session)
        rw [Function.update_self]
        exact halone (hexits hall)
  | callExit e =>
      obtain ⟨-, heq⟩ := Option.ite_none_right_eq_some.mp hstep
      cases heq
      refine ⟨hlives, ?_, fun hall => ?_⟩
      · show s.runtime.Behind (Function.update s.places (.exit e) .entering .session)
        rw [Function.update_of_ne (by simp)]
        exact h.behind
      · have hcalled := hall e
        change Function.update s.places (.exit e) _ (.exit e) = _ at hcalled
        rw [Function.update_self] at hcalled
        cases hcalled
  | advance t ok =>
      cases hstep
      refine ⟨hlives, ?_, fun hall => ?_⟩
      · show (placeStep s.runtime ok (s.places t)).1.Behind
          (Function.update s.places t (placeStep s.runtime ok (s.places t)).2 .session)
        by_cases ht : RuntimeThread.session = t
        · rw [← ht, Function.update_self]
          exact CaptureRuntime.behind_placeStep ok h.behind
        · rw [Function.update_of_ne ht]
          exact CaptureRuntime.behind_other (h.not_finalizes (Ne.symm ht)) ok h.behind
      · show (placeStep s.runtime ok (s.places t)).1.Alone
          (Function.update s.places t (placeStep s.runtime ok (s.places t)).2 .session)
        have halone := h.alone (hexits hall)
        cases t with
        | session =>
            rw [Function.update_self]
            exact CaptureRuntime.alone_placeStep ok (h.lives.allows .session) h.behind
              h.lives.tearsDown halone
        | duration => exact absurd ha id
        | exit e =>
            rw [Function.update_of_ne (by simp), hexits hall e]
            exact halone

/-- What has been reported stays true. -/
theorem Concluded.perform {state : AgentState} (h : s.Concluded state) (hserves : s.Serves)
    (hplace : s.places .session = .returned) (ha : a.InSession) (hstep : s.perform a = some u) :
    u.Concluded state := by
  have hexits : (∀ e, u.places (.exit e) = .outside) → ∀ e, s.places (.exit e) = .outside :=
    fun hall e => outside_perform hstep (hall e)
  cases a with
  | elapse => exact absurd ha id
  | stopCapture | finalizeHooks =>
      obtain ⟨hserving, -⟩ := Option.ite_none_right_eq_some.mp hstep
      cases hplace.symm.trans hserving
  | callExit e =>
      obtain ⟨-, heq⟩ := Option.ite_none_right_eq_some.mp hstep
      cases heq
      exact ⟨h.past, h.finished, h.complete, fun hall => h.alone (hexits hall)⟩
  | advance t ok =>
      have hfinalizes : ¬ (s.places t).Finalizes := by
        intro hfinalizes
        rw [hserves.lives.session t hfinalizes, hplace] at hfinalizes
        exact hfinalizes
      cases hstep
      refine ⟨h.past, fun hdraining => ?_, fun hstate => ?_, fun hall => ?_⟩
      · obtain ⟨hfinished, hfailed⟩ := h.finished hdraining
        refine ⟨CaptureRuntime.finishReturned_placeStep ok hfinished, ?_⟩
        show (placeStep s.runtime ok (s.places t)).1.writerFailed = true ↔ _
        rw [CaptureRuntime.writerFailed_placeStep ok (hserves.lives.allows t) hfinished]
        exact hfailed
      · obtain ⟨hcomplete, hretain⟩ := h.complete hstate
        exact ⟨(CaptureRuntime.unpatchIncomplete_placeStep hfinalizes ok).trans hcomplete,
          (CaptureRuntime.retain_placeStep ok).trans hretain⟩
      · show state = (placeStep s.runtime ok (s.places t)).1.landed
        cases t with
        | session =>
            rw [hplace]
            exact h.alone (hexits hall)
        | duration => exact absurd ha id
        | exit e =>
            rw [hexits hall e]
            exact h.alone (hexits hall)

end Steps

end RuntimeSystem

end Noleax.Lifecycle
