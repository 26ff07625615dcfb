import Mathlib.Logic.Function.Basic

/-!
# Target exit (`agent/linux/agent_runtime.cpp`)

Three kinds of threads race on the state word of the active runtime: the session
thread calls `drain` and `finalize`, the duration thread calls `drain`, and every call
of `replacement_exit` or `replacement_exit_group` goes through `finalize_on_exit`
before it reaches the original function. Steps are the atomic operations on the state
word and on `exit_finalize_started`, and the calls of the hooks and of the writer.

A call that loses the race for `exit_finalize_started`, or the compare-exchange of
`drain`, returns at once. `exit_waits_for_trace`: an exit waits for the trace exactly
when neither race is lost to a drain that still goes on.
-/

namespace Noleax.Lifecycle

/-- `noleax::ipc::AgentState`. -/
inductive AgentState where
  | idle | starting | capturing | drained | finalized | failed | draining | dormant | unpatching
deriving DecidableEq, Repr

/-- What the threads share, from the moment the runtime is active and capturing. -/
structure CaptureRuntime where
  state : AgentState := .capturing
  exitFinalizeStarted : Bool := false
  /-- `writer_result_.status` is `kWriterError` -/
  writerFailed : Bool := false
  /-- `kCaptureStatusFlagDrainIncomplete` -/
  drainIncomplete : Bool := false
  /-- `kCaptureStatusFlagUnpatchIncomplete` -/
  unpatchIncomplete : Bool := false
  retainPatchesOnFinalize : Bool
  /-- `writer_->finish()` has returned -/
  finishReturned : Bool := false
deriving DecidableEq

/-! ## The threads -/

inductive DrainStage where
  /-- compare-exchange of `kCapturing` with `kDraining` -/
  | claiming
  /-- `stop_recording` of the hooks -/
  | stopping
  /-- `writer_->finish()` -/
  | finishing
  /-- store `kFailed` or `kDrained` -/
  | publishing
deriving DecidableEq, Repr

/-- Who called `drain`. -/
inductive DrainCaller where
  | stopCapture | finalize | duration | exit
deriving DecidableEq, Repr

inductive Place where
  /-- the session thread waits for a message -/
  | serving
  /-- the duration thread sleeps -/
  | sleeping
  /-- the exit function has not been called -/
  | outside
  | drain (caller : DrainCaller) (stage : DrainStage)
  /-- `finalize`: is the state `kCapturing`? -/
  | testing
  /-- `finalize`: load `current` -/
  | loading
  /-- `finalize` keeps the patches: store the state -/
  | retaining (writerFailed : Bool)
  /-- compare-exchange of `current` with `kUnpatching` -/
  | claiming (current : AgentState)
  /-- `uninstall` of the hooks and `shutdown` of the backend -/
  | uninstalling (writerFailed : Bool)
  /-- the last store of `finalize` -/
  | landing (writerFailed unpatched : Bool)
  /-- `retire_to_dormant`: is the state `kDrained`? -/
  | retiring (caller : DrainCaller)
  /-- `retire_to_dormant`: store `kDormant` -/
  | parking (caller : DrainCaller)
  /-- `finalize_on_exit`: compare-exchange of `exit_finalize_started` -/
  | entering
  /-- in the original exit function -/
  | original
  | returned
deriving DecidableEq, Repr

def DrainCaller.drained : DrainCaller → Place
  | .stopCapture => .serving
  | .finalize => .loading
  | .duration => .retiring .duration
  | .exit => .retiring .exit

def DrainCaller.retired : DrainCaller → Place
  | .exit => .original
  | _ => .returned

/-- One step of `drain`; `ok` is the answer of the hooks or of the writer. `none` when
it returns. -/
def drainStep (runtime : CaptureRuntime) (ok : Bool) :
    DrainStage → CaptureRuntime × Option DrainStage
  | .claiming =>
      if runtime.state = .capturing then ({ runtime with state := .draining }, some .stopping)
      else (runtime, none)
  | .stopping =>
      ({ runtime with drainIncomplete := runtime.drainIncomplete || !ok }, some .finishing)
  | .finishing => ({ runtime with writerFailed := !ok, finishReturned := true }, some .publishing)
  | .publishing =>
      ({ runtime with state := if runtime.writerFailed then .failed else .drained }, none)

/-- The next step of a thread; `ok` is the answer of what it calls. -/
def placeStep (runtime : CaptureRuntime) (ok : Bool) : Place → CaptureRuntime × Place
  | .drain caller stage =>
      match drainStep runtime ok stage with
      | (runtime', some next) => (runtime', .drain caller next)
      | (runtime', none) => (runtime', caller.drained)
  | .testing =>
      (runtime, if runtime.state = .capturing then .drain .finalize .claiming else .loading)
  | .loading =>
      (runtime,
        if runtime.state ≠ .drained ∧ runtime.state ≠ .failed then .returned
        else if runtime.retainPatchesOnFinalize then .retaining (runtime.state = .failed)
        else .claiming runtime.state)
  | .retaining writerFailed =>
      ({ runtime with state := if writerFailed then .failed else .dormant }, .returned)
  | .claiming current =>
      if runtime.state = current then
        ({ runtime with state := .unpatching }, .uninstalling (current = .failed))
      else (runtime, .returned)
  | .uninstalling writerFailed =>
      ({ runtime with unpatchIncomplete := runtime.unpatchIncomplete || !ok },
        .landing writerFailed ok)
  | .landing writerFailed unpatched =>
      ({ runtime with
          state := if writerFailed then .failed else if unpatched then .finalized else .dormant },
        .returned)
  | .retiring caller =>
      (runtime, if runtime.state = .drained then .parking caller else caller.retired)
  | .parking caller => ({ runtime with state := .dormant }, caller.retired)
  | .entering =>
      if runtime.exitFinalizeStarted then (runtime, .original)
      else ({ runtime with exitFinalizeStarted := true }, .drain .exit .claiming)
  | .serving => (runtime, .serving)
  | .sleeping => (runtime, .sleeping)
  | .outside => (runtime, .outside)
  | .original => (runtime, .original)
  | .returned => (runtime, .returned)

/-! ## Interleavings -/

/-- `E`: the calls of `replacement_exit` and `replacement_exit_group`. -/
inductive RuntimeThread (E : Type) where
  | session
  | duration
  | exit (e : E)
deriving DecidableEq

inductive RuntimeAction (E : Type) where
  /-- the session receives `kStopCapture` -/
  | stopCapture
  /-- the session receives `kFinalizeHooks` -/
  | finalizeHooks
  /-- the duration is over -/
  | elapse
  | callExit (e : E)
  | advance (t : RuntimeThread E) (ok : Bool)

structure RuntimeSystem (E : Type) where
  runtime : CaptureRuntime
  places : RuntimeThread E → Place

variable {E : Type}

/-- The runtime is active and captures; no exit function has been called. -/
def RuntimeSystem.start (retain : Bool) : RuntimeSystem E where
  runtime := { retainPatchesOnFinalize := retain }
  places
    | .session => .serving
    | .duration => .sleeping
    | .exit _ => .outside

section Interleavings

variable [DecidableEq E]

def RuntimeSystem.move (s : RuntimeSystem E) (t : RuntimeThread E) (place : Place) :
    RuntimeSystem E :=
  { s with places := Function.update s.places t place }

def RuntimeSystem.advance (s : RuntimeSystem E) (t : RuntimeThread E) (ok : Bool) :
    RuntimeSystem E :=
  let next := placeStep s.runtime ok (s.places t)
  { runtime := next.1, places := Function.update s.places t next.2 }

def RuntimeSystem.perform (s : RuntimeSystem E) : RuntimeAction E → Option (RuntimeSystem E)
  | .stopCapture =>
      if s.places .session = .serving then some (s.move .session (.drain .stopCapture .claiming))
      else none
  | .finalizeHooks =>
      if s.places .session = .serving then some (s.move .session .testing) else none
  | .elapse =>
      if s.places .duration = .sleeping then some (s.move .duration (.drain .duration .claiming))
      else none
  | .callExit e =>
      if s.places (.exit e) = .outside then some (s.move (.exit e) .entering) else none
  | .advance t ok => some (s.advance t ok)

/-- An interleaving whose steps all meet `P`. -/
inductive RuntimeRun (P : RuntimeSystem E → RuntimeAction E → Prop) :
    RuntimeSystem E → RuntimeSystem E → Prop
  | refl (s) : RuntimeRun P s s
  | step {s t u} (a : RuntimeAction E) (hrun : RuntimeRun P s t) (hmeets : P t a)
      (hstep : t.perform a = some u) : RuntimeRun P s u

end Interleavings

/-- Nobody captures or drains any more. -/
def CaptureRuntime.Settled (runtime : CaptureRuntime) : Prop :=
  runtime.state ≠ .capturing ∧ runtime.state ≠ .draining

/-- A call in the original exit function has waited for the writer. -/
def RuntimeSystem.ExitsWait (s : RuntimeSystem E) : Prop :=
  ∀ e, s.places (.exit e) = .original →
    s.runtime.finishReturned = true ∧ s.runtime.Settled

/-- The step does not let an exit call go past a drain of another thread: it neither
finds the finalize claimed while the runtime is not settled, nor starts its drain while
the state is `kDraining`. -/
def RuntimeSystem.KeepsWaiting (s : RuntimeSystem E) : RuntimeAction E → Prop
  | .advance (.exit e) _ =>
      (s.places (.exit e) = .entering → s.runtime.exitFinalizeStarted = true →
        s.runtime.Settled) ∧
      (s.places (.exit e) = .drain .exit .claiming → s.runtime.state ≠ .draining)
  | _ => True

/-! ## Once settled, settled for good -/

/-- Places a thread reaches only when the runtime has settled. -/
def Place.AfterDrain : Place → Prop
  | .retaining _ | .claiming _ | .uninstalling _ | .landing .. => True
  | .parking _ | .original => True
  | .retiring caller => caller = .exit
  | _ => False

structure CaptureRuntime.Admits (runtime : CaptureRuntime) (place : Place) : Prop where
  settled : place.AfterDrain → runtime.Settled
  finished : ∀ caller, place = .drain caller .publishing → runtime.finishReturned = true

/-- A step that keeps what the other places rely on. -/
structure CaptureRuntime.Grows (runtime next : CaptureRuntime) : Prop where
  settled : runtime.Settled → next.Settled
  finishReturned : runtime.finishReturned = true → next.finishReturned = true
  sound : (runtime.Settled → runtime.finishReturned = true) →
    next.Settled → next.finishReturned = true

section Growth

variable {runtime next : CaptureRuntime} {place : Place}

theorem CaptureRuntime.Admits.grow (h : runtime.Admits place) (hgrows : runtime.Grows next) :
    next.Admits place where
  settled hafter := hgrows.settled (h.settled hafter)
  finished caller hplace := hgrows.finishReturned (h.finished caller hplace)

theorem grows_refl : runtime.Grows runtime := ⟨id, id, id⟩

/-- A store of a settled state by a thread that knows the runtime has settled. -/
theorem grows_store (hsettled : runtime.Settled) (hnext : next.Settled)
    (hfinish : next.finishReturned = runtime.finishReturned) : runtime.Grows next where
  settled _ := hnext
  finishReturned hreturned := hfinish.trans hreturned
  sound hsound _ := hfinish.trans (hsound hsettled)

/-- A step that leaves the state word alone. -/
theorem grows_same (hstate : next.state = runtime.state)
    (hfinish : runtime.finishReturned = true → next.finishReturned = true) :
    runtime.Grows next where
  settled h := by
    show next.state ≠ .capturing ∧ next.state ≠ .draining
    rw [hstate]
    exact h
  finishReturned := hfinish
  sound hsound h := by
    apply hfinish
    apply hsound
    show runtime.state ≠ .capturing ∧ runtime.state ≠ .draining
    rw [← hstate]
    exact h

theorem settled_publishing (runtime : CaptureRuntime) :
    { runtime with state := if runtime.writerFailed then .failed else .drained }.Settled := by
  cases h : runtime.writerFailed <;> constructor <;> intro hstate <;> cases hstate

/-- No step of a drain unsettles the runtime, and the last one settles it. -/
theorem drainStep_grows (ok : Bool) (caller : DrainCaller) (stage : DrainStage)
    (hadmits : runtime.Admits (.drain caller stage)) :
    runtime.Grows (drainStep runtime ok stage).1 := by
  cases stage with
  | claiming =>
      simp only [drainStep]
      split
      · rename_i hcapturing
        exact ⟨fun h => absurd hcapturing h.1, id, fun _ h => absurd rfl h.2⟩
      · exact grows_refl
  | stopping => exact grows_same rfl id
  | finishing => exact grows_same rfl fun _ => rfl
  | publishing =>
      have hreturned : runtime.finishReturned = true := hadmits.finished caller rfl
      exact ⟨fun _ => settled_publishing runtime, id, fun _ _ => hreturned⟩

theorem placeStep_drain (ok : Bool) (caller : DrainCaller) (stage : DrainStage) :
    (placeStep runtime ok (.drain caller stage)).1 = (drainStep runtime ok stage).1 := by
  rcases hstep : drainStep runtime ok stage with ⟨runtime', _ | stage'⟩ <;>
    simp only [placeStep, hstep]

theorem placeStep_grows (ok : Bool) (hadmits : runtime.Admits place) :
    runtime.Grows (placeStep runtime ok place).1 := by
  -- the stores of `finalize` and `retire_to_dormant` come after a drain has ended
  have hstore : ∀ state : AgentState, place.AfterDrain → state ≠ .capturing →
      state ≠ .draining → runtime.Grows { runtime with state := state } := by
    intro state hafter hcapturing hdraining
    exact grows_store (hadmits.settled hafter) ⟨hcapturing, hdraining⟩ rfl
  cases place with
  | drain caller stage =>
      rw [placeStep_drain]
      exact drainStep_grows ok caller stage hadmits
  | testing => exact grows_refl
  | loading => exact grows_refl
  | retaining writerFailed =>
      apply hstore _ trivial
      · cases writerFailed <;> decide
      · cases writerFailed <;> decide
  | claiming current =>
      simp only [placeStep]
      split
      · exact hstore _ trivial (by decide) (by decide)
      · exact grows_refl
  | uninstalling writerFailed => exact grows_same rfl id
  | landing writerFailed unpatched =>
      apply hstore _ trivial
      · cases writerFailed <;> cases unpatched <;> decide
      · cases writerFailed <;> cases unpatched <;> decide
  | retiring caller => exact grows_refl
  | parking caller => exact hstore _ trivial (by decide) (by decide)
  | entering =>
      simp only [placeStep]
      split
      · exact grows_refl
      · exact grows_same rfl id
  | serving => exact grows_refl
  | sleeping => exact grows_refl
  | outside => exact grows_refl
  | original => exact grows_refl
  | returned => exact grows_refl

end Growth

/-! ## Where a step takes its thread -/

/-- The condition on a step, at the place of the thread that takes it. -/
structure CaptureRuntime.Lets (runtime : CaptureRuntime) (place : Place) : Prop where
  entering : place = .entering → runtime.exitFinalizeStarted = true → runtime.Settled
  claiming : place = .drain .exit .claiming → runtime.state ≠ .draining

section Places

variable {runtime : CaptureRuntime} {place : Place}

theorem admits_of_early (hafter : ¬ place.AfterDrain)
    (hplace : ∀ caller, place ≠ .drain caller .publishing) : runtime.Admits place where
  settled h := absurd h hafter
  finished caller h := absurd h (hplace caller)

theorem admits_of_settled (hsettled : runtime.Settled)
    (hplace : ∀ caller, place ≠ .drain caller .publishing) : runtime.Admits place where
  settled _ := hsettled
  finished caller h := absurd h (hplace caller)

theorem drained_ne_publishing (caller : DrainCaller) :
    ∀ c, caller.drained ≠ .drain c .publishing := by
  cases caller <;> exact fun c h => by cases h

theorem retired_ne_publishing (caller : DrainCaller) :
    ∀ c, caller.retired ≠ .drain c .publishing := by
  cases caller <;> exact fun c h => by cases h

/-- Where `drain` returns to, only an exit call relies on the runtime being settled. -/
theorem admits_drained (caller : DrainCaller) (hexit : caller = .exit → runtime.Settled) :
    runtime.Admits caller.drained where
  settled h := by
    cases caller with
    | exit => exact hexit rfl
    | stopCapture => exact absurd h id
    | finalize => exact absurd h id
    | duration => exact absurd h (fun h => by cases h)
  finished c h := absurd h (drained_ne_publishing caller c)

theorem drainStep_admits (ok : Bool) (caller : DrainCaller) (stage : DrainStage)
    (hlets : runtime.Lets (.drain caller stage)) :
    (placeStep runtime ok (.drain caller stage)).1.Admits
      (placeStep runtime ok (.drain caller stage)).2 := by
  cases stage with
  | claiming =>
      simp only [placeStep, drainStep]
      by_cases hcapturing : runtime.state = .capturing
      · rw [if_pos hcapturing]
        exact admits_of_early id fun c h => by cases h
      · rw [if_neg hcapturing]
        apply admits_drained
        rintro rfl
        exact ⟨hcapturing, hlets.claiming rfl⟩
  | stopping => exact admits_of_early id fun c h => by cases h
  | finishing => exact ⟨fun h => absurd h id, fun _ _ => rfl⟩
  | publishing =>
      exact admits_drained caller fun _ => settled_publishing runtime

theorem placeStep_admits (ok : Bool) (hadmits : runtime.Admits place)
    (hlets : runtime.Lets place) :
    (placeStep runtime ok place).1.Admits (placeStep runtime ok place).2 := by
  have hgrows : runtime.Grows (placeStep runtime ok place).1 := placeStep_grows ok hadmits
  cases place with
  | drain caller stage => exact drainStep_admits ok caller stage hlets
  | testing =>
      simp only [placeStep]
      split <;> exact admits_of_early id fun c h => by cases h
  | loading =>
      -- `current` is `kDrained` or `kFailed` wherever `finalize` goes on
      simp only [placeStep]
      split
      · exact admits_of_early id fun c h => by cases h
      · rename_i hcurrent
        have hsettled : runtime.Settled := by
          constructor <;> intro hstate <;> simp [hstate] at hcurrent
        split <;> exact admits_of_settled hsettled fun c h => by cases h
  | retaining writerFailed => exact admits_of_early id fun c h => by cases h
  | claiming current =>
      have hsettled := hgrows.settled (hadmits.settled trivial)
      refine admits_of_settled hsettled ?_
      simp only [placeStep]
      split <;> exact fun c h => by cases h
  | uninstalling writerFailed =>
      exact admits_of_settled (hgrows.settled (hadmits.settled trivial)) fun c h => by cases h
  | landing writerFailed unpatched => exact admits_of_early id fun c h => by cases h
  | retiring caller =>
      simp only [placeStep]
      split
      · rename_i hdrained
        have hsettled : runtime.Settled := by
          constructor <;> rw [hdrained] <;> decide
        exact admits_of_settled hsettled fun c h => by cases h
      · cases caller with
        | exit => exact admits_of_settled (hadmits.settled rfl) fun c h => by cases h
        | stopCapture => exact admits_of_early id fun c h => by cases h
        | finalize => exact admits_of_early id fun c h => by cases h
        | duration => exact admits_of_early id fun c h => by cases h
  | parking caller =>
      exact admits_of_settled (hgrows.settled (hadmits.settled trivial))
        (retired_ne_publishing caller)
  | entering =>
      simp only [placeStep]
      split
      · rename_i hstarted
        exact admits_of_settled (hlets.entering rfl hstarted) fun c h => by cases h
      · exact admits_of_early id fun c h => by cases h
  | serving => exact hadmits
  | sleeping => exact hadmits
  | outside => exact hadmits
  | original => exact hadmits
  | returned => exact hadmits

end Places

/-! ## The invariant -/

/-- The thread is inside an exit call. -/
def Place.Exiting : Place → Prop
  | .drain .exit _ | .entering => True
  | _ => False

structure RuntimeSystem.Inv (s : RuntimeSystem E) : Prop where
  admits : ∀ t, s.runtime.Admits (s.places t)
  sound : s.runtime.Settled → s.runtime.finishReturned = true
  exits : ∀ t, (s.places t).Exiting → ∃ e, t = .exit e

theorem RuntimeSystem.Inv.exitsWait {s : RuntimeSystem E} (h : s.Inv) : s.ExitsWait := by
  intro e horiginal
  have hsettled : s.runtime.Settled := by
    apply (h.admits (.exit e)).settled
    rw [horiginal]
    exact trivial
  exact ⟨h.sound hsettled, hsettled⟩

/-- A step leads into an exit call only from inside it. -/
theorem exiting_placeStep (runtime : CaptureRuntime) (ok : Bool) (place : Place)
    (h : (placeStep runtime ok place).2.Exiting) : place.Exiting := by
  cases place with
  | drain caller stage =>
      simp only [placeStep] at h
      cases caller with
      | exit => exact trivial
      | stopCapture => split at h <;> exact absurd h id
      | finalize => split at h <;> exact absurd h id
      | duration => split at h <;> exact absurd h id
  | testing =>
      simp only [placeStep] at h
      split at h <;> exact absurd h id
  | loading =>
      simp only [placeStep] at h
      split at h
      · exact absurd h id
      · split at h <;> exact absurd h id
  | claiming current =>
      simp only [placeStep] at h
      split at h <;> exact absurd h id
  | retiring caller =>
      simp only [placeStep] at h
      split at h
      · exact absurd h id
      · cases caller <;> exact absurd h id
  | parking caller => cases caller <;> exact absurd h id
  | entering => exact trivial
  | retaining writerFailed => exact absurd h id
  | uninstalling writerFailed => exact absurd h id
  | landing writerFailed unpatched => exact absurd h id
  | serving => exact absurd h id
  | sleeping => exact absurd h id
  | outside => exact absurd h id
  | original => exact absurd h id
  | returned => exact absurd h id

theorem inv_start (retain : Bool) : (RuntimeSystem.start retain : RuntimeSystem E).Inv where
  admits t := by
    cases t with
    | session => exact admits_of_early id fun c h => by cases h
    | duration => exact admits_of_early id fun c h => by cases h
    | exit e => exact admits_of_early id fun c h => by cases h
  sound h := absurd rfl h.1
  exits t h := by
    cases t with
    | session => exact absurd h id
    | duration => exact absurd h id
    | exit e => exact absurd h id

section Steps

variable [DecidableEq E] {s u : RuntimeSystem E}

/-- A thread moves to a place that relies on nothing. -/
theorem RuntimeSystem.Inv.move (h : s.Inv) {t : RuntimeThread E} {place : Place}
    (hafter : ¬ place.AfterDrain) (hplace : ∀ caller, place ≠ .drain caller .publishing)
    (hexits : place.Exiting → ∃ e, t = .exit e) : (s.move t place).Inv where
  admits t' := by
    show s.runtime.Admits (Function.update s.places t place t')
    by_cases ht : t' = t
    · rw [ht, Function.update_self]
      exact admits_of_early hafter hplace
    · rw [Function.update_of_ne ht]
      exact h.admits t'
  sound := h.sound
  exits t' := by
    show (Function.update s.places t place t').Exiting → _
    by_cases ht : t' = t
    · rw [ht, Function.update_self]
      exact hexits
    · rw [Function.update_of_ne ht]
      exact h.exits t'

theorem RuntimeSystem.Inv.advance (h : s.Inv) (t : RuntimeThread E) (ok : Bool)
    (hlets : s.runtime.Lets (s.places t)) : (s.advance t ok).Inv where
  admits t' := by
    have hgrows := placeStep_grows ok (h.admits t)
    show (placeStep s.runtime ok (s.places t)).1.Admits
      (Function.update s.places t (placeStep s.runtime ok (s.places t)).2 t')
    by_cases ht : t' = t
    · rw [ht, Function.update_self]
      exact placeStep_admits ok (h.admits t) hlets
    · rw [Function.update_of_ne ht]
      exact (h.admits t').grow hgrows
  sound := (placeStep_grows ok (h.admits t)).sound h.sound
  exits t' := by
    show (Function.update s.places t (placeStep s.runtime ok (s.places t)).2 t').Exiting → _
    by_cases ht : t' = t
    · rw [ht, Function.update_self]
      exact fun hexiting => h.exits t (exiting_placeStep _ _ _ hexiting)
    · rw [Function.update_of_ne ht]
      exact h.exits t'

omit [DecidableEq E] in
/-- The condition on a step is the condition at the place of its thread. -/
theorem lets_of_keepsWaiting (h : s.Inv) {t : RuntimeThread E} {ok : Bool}
    (hkeeps : s.KeepsWaiting (.advance t ok)) : s.runtime.Lets (s.places t) := by
  have hexit : (s.places t).Exiting → ∃ e, t = .exit e := h.exits t
  constructor
  · intro hplace hstarted
    obtain ⟨e, rfl⟩ := hexit (by rw [hplace]; exact trivial)
    exact hkeeps.1 hplace hstarted
  · intro hplace
    obtain ⟨e, rfl⟩ := hexit (by rw [hplace]; exact trivial)
    exact hkeeps.2 hplace

theorem RuntimeSystem.Inv.step (h : s.Inv) {a : RuntimeAction E} (hkeeps : s.KeepsWaiting a)
    (hstep : s.perform a = some u) : u.Inv := by
  cases a with
  | stopCapture =>
      obtain ⟨-, heq⟩ := Option.ite_none_right_eq_some.mp hstep
      cases heq
      exact h.move id (fun c h => by cases h) fun h => absurd h id
  | finalizeHooks =>
      obtain ⟨-, heq⟩ := Option.ite_none_right_eq_some.mp hstep
      cases heq
      exact h.move id (fun c h => by cases h) fun h => absurd h id
  | elapse =>
      obtain ⟨-, heq⟩ := Option.ite_none_right_eq_some.mp hstep
      cases heq
      exact h.move id (fun c h => by cases h) fun h => absurd h id
  | callExit e =>
      obtain ⟨-, heq⟩ := Option.ite_none_right_eq_some.mp hstep
      cases heq
      exact h.move id (fun c h => by cases h) fun _ => ⟨e, rfl⟩
  | advance t ok =>
      cases hstep
      exact h.advance t ok (lets_of_keepsWaiting h hkeeps)

theorem inv_run (hrun : RuntimeRun RuntimeSystem.KeepsWaiting s u) (h : s.Inv) : u.Inv := by
  induction hrun with
  | refl => exact h
  | step a _ hkeeps hstep ih => exact ih.step hkeeps hstep

end Steps

/-! ## Exit and the trace -/

section Exit

variable [DecidableEq E]

/-- The exit call advances alone. -/
inductive Alone (e : E) : RuntimeSystem E → RuntimeSystem E → Prop
  | refl (s) : Alone e s s
  | step {s t} (ok : Bool) (hrest : Alone e (s.advance (.exit e) ok) t) : Alone e s t

omit [DecidableEq E] in
theorem not_exitsWait {s : RuntimeSystem E} {e : E} (horiginal : s.places (.exit e) = .original)
    (hopen : ¬ s.runtime.Settled) : ¬ s.ExitsWait :=
  fun hwait => hopen (hwait e horiginal).2

/-- A call that finds the finalize claimed is in the original after this step. -/
theorem advance_entering {s : RuntimeSystem E} {e : E} (ok : Bool)
    (hplace : s.places (.exit e) = .entering) (hstarted : s.runtime.exitFinalizeStarted = true) :
    s.advance (.exit e) ok = s.move (.exit e) .original := by
  simp only [RuntimeSystem.advance, hplace, placeStep, hstarted, if_true, RuntimeSystem.move]

theorem advance_claiming {s : RuntimeSystem E} {e : E} (ok : Bool)
    (hplace : s.places (.exit e) = .drain .exit .claiming) (hstate : s.runtime.state = .draining) :
    s.advance (.exit e) ok = s.move (.exit e) (.retiring .exit) := by
  simp [RuntimeSystem.advance, hplace, placeStep, drainStep, hstate, RuntimeSystem.move,
    DrainCaller.drained]

theorem advance_retiring {s : RuntimeSystem E} {e : E} (ok : Bool)
    (hplace : s.places (.exit e) = .retiring .exit) (hstate : s.runtime.state = .draining) :
    s.advance (.exit e) ok = s.move (.exit e) .original := by
  simp [RuntimeSystem.advance, hplace, placeStep, hstate, RuntimeSystem.move, DrainCaller.retired]

/-- An exit call that goes past a drain reaches the original on its own, whatever the
other threads have done so far. -/
theorem exit_overtakes {s : RuntimeSystem E} {a : RuntimeAction E} (hnot : ¬ s.KeepsWaiting a) :
    ∃ e ok, a = .advance (.exit e) ok ∧
      ∃ u, Alone e (s.advance (.exit e) ok) u ∧ ¬ u.ExitsWait := by
  obtain ⟨e, ok, rfl⟩ : ∃ e ok, a = .advance (.exit e) ok := by
    rcases a with _ | _ | _ | _ | ⟨_ | _ | e, ok⟩
    case advance.exit => exact ⟨e, ok, rfl⟩
    all_goals exact absurd trivial hnot
  refine ⟨e, ok, rfl, ?_⟩
  by_cases hentering : s.places (.exit e) = .entering → s.runtime.exitFinalizeStarted = true →
      s.runtime.Settled
  · -- the compare-exchange of `drain` fails
    have hclaiming : ¬ (s.places (.exit e) = .drain .exit .claiming →
        s.runtime.state ≠ .draining) := fun hclaiming => hnot ⟨hentering, hclaiming⟩
    obtain ⟨hplace, hdraining⟩ := Classical.not_imp.mp hclaiming
    have hstate : s.runtime.state = .draining := Decidable.not_not.mp hdraining
    have hgone := advance_retiring (s := s.move (.exit e) (.retiring .exit)) true
      (Function.update_self ..) hstate
    rw [advance_claiming ok hplace hstate]
    refine ⟨_, .step true (.refl _), not_exitsWait (e := e) ?_ ?_⟩
    · rw [hgone]
      exact Function.update_self ..
    · rw [hgone]
      exact fun hsettled => hsettled.2 hstate
  · -- another call has claimed the finalize
    obtain ⟨hplace, hstarts⟩ := Classical.not_imp.mp hentering
    obtain ⟨hstarted, hopen⟩ := Classical.not_imp.mp hstarts
    rw [advance_entering ok hplace hstarted]
    exact ⟨_, .refl _, not_exitsWait (Function.update_self ..) hopen⟩

/-- In a run whose steps let no exit call go past a drain, every call in the original
exit function has waited for the writer; a step that lets one past leads to a call in
the original with the trace unfinished. -/
theorem exit_waits_for_trace (retain : Bool) :
    (∀ s : RuntimeSystem E, RuntimeRun RuntimeSystem.KeepsWaiting (.start retain) s →
      s.ExitsWait) ∧
    (∀ (s : RuntimeSystem E) (a : RuntimeAction E), ¬ s.KeepsWaiting a →
      ∃ e ok, a = .advance (.exit e) ok ∧
        ∃ u, Alone e (s.advance (.exit e) ok) u ∧ ¬ u.ExitsWait) := by
  refine ⟨?_, fun s a hnot => exit_overtakes hnot⟩
  intro s hrun
  exact (inv_run hrun (inv_start retain)).exitsWait

instance (runtime : CaptureRuntime) : Decidable runtime.Settled :=
  inferInstanceAs (Decidable (_ ∧ _))

instance (s : RuntimeSystem E) (a : RuntimeAction E) : Decidable (s.KeepsWaiting a) :=
  match a with
  | .advance (.exit _) _ => inferInstanceAs (Decidable ((_ → _ → _) ∧ (_ → _)))
  | .advance .session _ | .advance .duration _ => .isTrue trivial
  | .stopCapture | .finalizeHooks | .elapse | .callExit _ => .isTrue trivial

theorem runtimeRun_of_foldlM {P : RuntimeSystem E → RuntimeAction E → Prop}
    [∀ s a, Decidable (P s a)] {s t u : RuntimeSystem E} (as : List (RuntimeAction E))
    (hrun : RuntimeRun P s t)
    (hfold : as.foldlM (fun s a => if P s a then s.perform a else none) t = some u) :
    RuntimeRun P s u := by
  induction as generalizing t with
  | nil =>
      cases hfold
      exact hrun
  | cons a as ih =>
      rw [List.foldlM_cons] at hfold
      obtain ⟨v, hguard, hrest⟩ := Option.bind_eq_some_iff.mp hfold
      obtain ⟨hmeets, hstep⟩ := Option.ite_none_right_eq_some.mp hguard
      exact ih (.step a hrun hmeets hstep) hrest

/-- One exit call drains and a second one comes after it. -/
def exitTwice : List (RuntimeAction Bool) :=
  [.callExit false, .callExit true, .advance (.exit false) true, .advance (.exit false) true,
    .stopCapture, .advance .session true, .advance (.exit false) true,
    .advance (.exit false) true, .advance (.exit false) true, .advance (.exit true) true,
    .advance (.exit false) true, .advance (.exit false) true]

theorem exit_waits_for_trace_twice :
    ∃ s : RuntimeSystem Bool, RuntimeRun RuntimeSystem.KeepsWaiting (.start false) s ∧
      s.places (.exit false) = .original ∧ s.places (.exit true) = .original ∧
      s.ExitsWait := by
  obtain ⟨s, hrun, hfirst, hsecond⟩ : ∃ s : RuntimeSystem Bool,
      RuntimeRun RuntimeSystem.KeepsWaiting (.start false) s ∧
      s.places (.exit false) = .original ∧ s.places (.exit true) = .original :=
    ⟨_, runtimeRun_of_foldlM exitTwice (.refl _) rfl, rfl, rfl⟩
  exact ⟨s, hrun, hfirst, hsecond, (exit_waits_for_trace false).1 s hrun⟩

/-- The session has begun to drain when the target exits: the compare-exchange of the
exit call fails, and it goes on to the original while the writer still runs. -/
def exitDuringStop : List (RuntimeAction Unit) :=
  [.stopCapture, .advance .session true, .callExit (), .advance (.exit ()) true,
    .advance (.exit ()) true, .advance (.exit ()) true]

theorem exit_overtakes_stop :
    ¬ ∀ s : RuntimeSystem Unit, RuntimeRun (fun _ _ => True) (.start false) s → s.ExitsWait := by
  intro hall
  obtain ⟨s, hrun, horiginal, hstate⟩ : ∃ s : RuntimeSystem Unit,
      RuntimeRun (fun _ _ => True) (.start false) s ∧ s.places (.exit ()) = .original ∧
      s.runtime.state = .draining :=
    ⟨_, runtimeRun_of_foldlM exitDuringStop (.refl _) rfl, rfl, rfl⟩
  exact (hall s hrun () horiginal).2.2 hstate

end Exit

end Noleax.Lifecycle
