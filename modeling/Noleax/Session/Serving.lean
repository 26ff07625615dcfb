import Noleax.Lifecycle.Conclusion
import Noleax.Session.Session

/-!
# What the agent answers

Whatever the controller sends, the agent takes one request after the other, answers with
the id of the request and the type that goes with it, and reports the end of a capture
only when the session thread has left `finalize`.
-/

namespace Noleax.Session

open Lib Ipc
open Lifecycle (RuntimeSystem RuntimeAction Place placeStep)

variable {E : Type}

/-! ## Requests and answers -/

/-- The answer has the id of the request, and the type that goes with it. -/
def Answers (request answer : Message) : Prop :=
  answer.requestId = request.requestId ∧
    (answer.type = answerType request.type ∨ request.type = startCapture ∧ answer.type = .error)

theorem request_ne_start (call : Call) : call.request ≠ startCapture := by
  cases call <;> decide

theorem wireState_injective : Function.Injective wireState := by
  intro state other h
  cases state <;> cases other <;> first | rfl | cases h

/-! ## The agent -/

/-- The session has left `finalize`, and what it found there is the truth. -/
def Finished (system : Option (RuntimeSystem E)) (state : Lifecycle.AgentState) : Prop :=
  ∃ runtime, system = some runtime ∧ runtime.places .session = .returned ∧
    runtime.Concluded state

/-- The session is in `finalize`, or has left it. -/
def Leaving (system : RuntimeSystem E) : Prop :=
  (system.places .session).Finalizes ∨ system.places .session = .returned

/-- The request in the hands of the agent. -/
def Busy : AgentStage → Option Message → Prop
  | .connected, request | .awaitingStart, request | .serving, request => request = none
  | .starting, request => ∃ start, request = some start ∧ start.type = startCapture
  | .handling, request | .reporting _, request => ∃ q, request = some q ∧
      (q.type = startCapture ∨ q.type = queryStatus ∨ q.type = stopCapture ∨
        q.type = finalizeHooks)
  | .closed, _ => True

/-- The runtime has not been started. -/
def AgentStage.Early : AgentStage → Prop
  | .connected | .awaitingStart | .starting => True
  | _ => False

/-- How far the agent is with a request to finalize. -/
def Leads (system : Option (RuntimeSystem E)) : AgentStage → Prop
  | .handling => ∃ runtime, system = some runtime ∧ Leaving runtime
  | .reporting state => Finished system state
  | _ => True

/-- A status on its way, or an error. -/
structure Faithful (system : Option (RuntimeSystem E)) (answer : Message) : Prop where
  error : answer.type = .error → ∃ error, decodeErrorResponse answer.payload = .ok error
  status : answer.type ≠ .error → ∃ status state,
    decodeCaptureStatus answer.payload = .ok status ∧ status.state = wireState state ∧
      (answer.type = captureFinalized → Finished system state)

structure Served (setup : Setup) (agent : AgentStage) (x : Exchange Message Message)
    (system : Option (RuntimeSystem E)) : Prop where
  order : x.InOrder Answers
  starts : ∀ q ∈ x.asked, q.type = startCapture →
    decodeStartCapture q.payload = .ok setup.start
  busy : Busy agent x.serving
  taken : ∀ q, x.serving = some q → q ∈ x.asked
  early : agent.Early → system = none
  runs : ∀ runtime, system = some runtime → runtime.Serves ∧
    runtime.runtime.retainPatchesOnFinalize = decide (setup.start.captureKind = .attach)
  leads : ∀ q, x.serving = some q → q.type = finalizeHooks → Leads system agent
  faithful : ∀ answer ∈ x.replies, Faithful system answer

theorem Faithful.mono {system next : Option (RuntimeSystem E)} {answer : Message}
    (h : Faithful system answer)
    (hfinished : ∀ state, Finished system state → Finished next state) :
    Faithful next answer where
  error := h.error
  status htype := by
    obtain ⟨status, state, hdecode, hstate, hfinal⟩ := h.status htype
    exact ⟨status, state, hdecode, hstate, fun hfinalized => hfinished state (hfinal hfinalized)⟩

section Serving

variable {setup : Setup} {agent : AgentStage} {x y : Exchange Message Message}
  {system next : Option (RuntimeSystem E)} {q answer : Message}

theorem served_start : Served setup .connected {} (none : Option (RuntimeSystem E)) where
  order := Exchange.inOrder_start
  starts q h := by cases h
  busy := rfl
  taken q h := by cases h
  early _ := rfl
  runs runtime h := by cases h
  leads q h := by cases h
  faithful answer h := by cases h

theorem Served.ask (h : Served setup agent x system)
    (hstart : q.type = startCapture → decodeStartCapture q.payload = .ok setup.start) :
    Served setup agent (x.ask q) system where
  order := h.order.ask q
  starts p hp := by
    rcases List.mem_append.mp hp with hp | hp
    · exact h.starts p hp
    · rw [List.mem_singleton.mp hp]
      exact hstart
  busy := h.busy
  taken p hp := List.mem_append_left _ (h.taken p hp)
  early := h.early
  runs := h.runs
  leads := h.leads
  faithful := h.faithful

theorem Served.hear (h : Served setup agent x system) (hhear : x.hear = some (answer, y)) :
    Served setup agent y system ∧ Faithful system answer := by
  have horder := h.order.hear hhear
  obtain ⟨rest, hreplies, rfl⟩ := Exchange.hear_eq_some.mp hhear
  refine ⟨⟨horder, h.starts, h.busy, h.taken, h.early, h.runs, h.leads, fun other hother => ?_⟩, ?_⟩
  · refine h.faithful other ?_
    rw [hreplies]
    exact List.mem_cons_of_mem _ hother
  · refine h.faithful answer ?_
    rw [hreplies]
    exact List.mem_cons_self

/-- The agent takes a request. -/
theorem Served.take (h : Served setup agent x system) (htake : x.take = some (q, y))
    {later : AgentStage} (hbusy : Busy later (some q)) (hearly : later.Early → next = none)
    (hruns : ∀ runtime, next = some runtime → runtime.Serves ∧
      runtime.runtime.retainPatchesOnFinalize = decide (setup.start.captureKind = .attach))
    (hleads : q.type = finalizeHooks → Leads next later)
    (hfaithful : ∀ answer ∈ x.replies, Faithful next answer) :
    Served setup later y next := by
  have horder := h.order.take htake
  have hlength := h.order
  obtain ⟨hserving, rest, hrequests, rfl⟩ := Exchange.take_eq_some.mp htake
  refine ⟨horder, h.starts, hbusy, ?_, hearly, hruns, ?_, hfaithful⟩
  · intro p hp
    obtain rfl := Option.some.inj hp
    obtain ⟨answered, -, hasked⟩ := hlength
    show q ∈ x.asked
    rw [hasked, hserving, hrequests]
    exact List.mem_append_right _ List.mem_cons_self
  · intro p hp htype
    obtain rfl := Option.some.inj hp
    exact hleads htype

/-- The agent answers. -/
theorem Served.reply (h : Served setup agent x system) (hserving : x.serving = some q)
    (hanswers : Answers q answer) (hfaithful : Faithful system answer) {later : AgentStage}
    (hbusy : Busy later none) (hlate : ¬ later.Early) :
    Served setup later (x.reply answer) system where
  order := h.order.reply hserving hanswers
  starts := h.starts
  busy := hbusy
  taken p hp := by cases hp
  early hearly := absurd hearly hlate
  runs := h.runs
  leads p hp := by cases hp
  faithful other hother := by
    rcases List.mem_append.mp hother with hother | hother
    · exact h.faithful other hother
    · rw [List.mem_singleton.mp hother]
      exact hfaithful

/-- The agent goes on with what it has, or is gone. -/
theorem Served.stage (h : Served setup agent x system) {later : AgentStage}
    (hbusy : Busy later x.serving) (hlate : ¬ later.Early)
    (hleads : ∀ q, x.serving = some q → q.type = finalizeHooks → Leads system later) :
    Served setup later x system :=
  ⟨h.order, h.starts, hbusy, h.taken, fun hearly => absurd hearly hlate, h.runs, hleads, h.faithful⟩

theorem Served.leave (h : Served setup agent x system) : Served setup .closed x system :=
  h.stage trivial id fun _ _ _ => trivial

end Serving

/-! ## Steps of the runtime -/

section Runtime

variable {system next : RuntimeSystem E} {a : RuntimeAction E}

theorem leaving_placeStep {runtime : Lifecycle.CaptureRuntime} {place : Place} (ok : Bool)
    (h : place.Finalizes ∨ place = .returned) :
    (placeStep runtime ok place).2.Finalizes ∨ (placeStep runtime ok place).2 = .returned := by
  rcases h with h | rfl
  · cases place with
    | drain caller stage =>
        cases caller with
        | finalize =>
            rcases hstep : Lifecycle.drainStep runtime ok stage with ⟨later, _ | stage⟩ <;>
              simp only [placeStep, hstep] <;> exact .inl trivial
        | stopCapture | duration | exit => exact absurd h id
    | testing | claiming current =>
        simp only [placeStep]
        split <;> first | exact .inl trivial | exact .inr rfl
    | loading =>
        simp only [placeStep]
        split
        · exact .inr rfl
        · split <;> exact .inl trivial
    | uninstalling failed => exact .inl trivial
    | retaining failed | landing failed unpatched => exact .inr rfl
    | serving | sleeping | outside | retiring _ | parking _ | entering | original | returned =>
        exact absurd h id
  · exact .inr rfl

theorem inSession_of_acts {s : SessionSystem E} (h : s.Acts a) : a.InSession := by
  cases a with
  | advance t ok =>
      cases t with
      | duration => exact absurd h id
      | session | exit e => trivial
  | elapse => exact absurd h id
  | stopCapture | finalizeHooks | callExit e => trivial

/-- The agent reports the truth once the session has left `finalize`. -/
theorem finished_of_rests (hserves : system.Serves) (hleaving : Leaving system)
    (hrests : SessionSystem.Rests system) : Finished (some system) system.runtime.state := by
  rcases hrests with hserving | hreturned
  · unfold Leaving at hleaving
    rw [hserving] at hleaving
    rcases hleaving with hleaving | hleaving
    · exact absurd hleaving id
    · cases hleaving
  · exact ⟨system, rfl, hreturned, hserves.concluded hreturned⟩

variable [DecidableEq E]

/-- The place of the session changes by its own steps only. -/
theorem session_perform {s : SessionSystem E} (h : s.Acts a)
    (hstep : system.perform a = some next) :
    next.places .session = system.places .session ∨
      ∃ ok, next.places .session = (placeStep system.runtime ok (system.places .session)).2 := by
  cases a with
  | stopCapture | finalizeHooks | elapse => exact absurd h id
  | callExit e =>
      obtain ⟨-, heq⟩ := Option.ite_none_right_eq_some.mp hstep
      cases heq
      exact .inl rfl
  | advance t ok =>
      cases hstep
      cases t with
      | session => exact .inr ⟨ok, rfl⟩
      | duration => exact absurd h id
      | exit e => exact .inl rfl

theorem Finished.perform {s : SessionSystem E} {state : Lifecycle.AgentState}
    (h : Finished (some system) state) (hserves : system.Serves) (hacts : s.Acts a)
    (hstep : system.perform a = some next) : Finished (some next) state := by
  obtain ⟨runtime, heq, hplace, hconcluded⟩ := h
  obtain rfl := Option.some.inj heq
  refine ⟨next, rfl, ?_, hconcluded.perform hserves hplace (inSession_of_acts hacts) hstep⟩
  rcases session_perform hacts hstep with hsame | ⟨ok, hmoves⟩
  · exact hsame.trans hplace
  · rw [hmoves, hplace]
    rfl

theorem Leads.perform {s : SessionSystem E} {agent : AgentStage} (h : Leads (some system) agent)
    (hserves : system.Serves) (hacts : s.Acts a) (hstep : system.perform a = some next) :
    Leads (some next) agent := by
  cases agent with
  | handling =>
      obtain ⟨runtime, heq, hleaving⟩ := h
      obtain rfl := Option.some.inj heq
      refine ⟨next, rfl, ?_⟩
      unfold Leaving
      rcases session_perform hacts hstep with hsame | ⟨ok, hmoves⟩
      · rw [hsame]
        exact hleaving
      · rw [hmoves]
        exact leaving_placeStep ok hleaving
  | reporting state => exact Finished.perform h hserves hacts hstep
  | connected | awaitingStart | starting | serving | closed => trivial

end Runtime

end Noleax.Session
