import Noleax.Session.Serving

/-!
# What the controller can rely on

`session_protocol`: answers come in the order of the requests. As long as the controller
has missed none, every answer is the one to the request it has just sent. What `stop`
returns says the truth about the writer and the hooks, also after missed answers.
-/

namespace Noleax.Session

open Lib Ipc
open Lifecycle (RuntimeSystem RuntimeAction Place placeStep)

variable {E : Type}

/-! ## The invariant -/

/-- The controller can start this agent. -/
def Setup.Sound (setup : Setup) : Prop :=
  setup.Accepts setup.hello ∧ setup.clientProcessId = setup.processId ∧
    ∃ payload, encodeStartCapture setup.start = .ok payload ∧ payload.length ≤ maximumPayloadSize

/-- The handshake has got past the hello. -/
def Setup.Greets (setup : Setup) : ControllerStage → Prop
  | .greeting | .rejected _ => True
  | .starting helloId =>
      helloId = 1 ∧ setup.Accepts setup.hello ∧ setup.clientProcessId = setup.processId
  | _ => setup.Accepts setup.hello ∧ setup.clientProcessId = setup.processId

/-- One answer is missing: that to the last request, which is of the type. -/
def Awaits (type : MessageType) (x : Exchange Message Message) : Prop :=
  ∃ earlier q, x.asked = earlier ++ [q] ∧ x.heard.length = earlier.length ∧ q.type = type

/-- The controller has not missed an answer. -/
def InStep (x : Exchange Message Message) : ControllerStage → Prop
  | .preparing => Awaits startCapture x
  | .waiting call => Awaits call.request x
  | _ => x.heard.length = x.asked.length

/-- The state was that of the agent after the controller sent its last request. -/
def Recent (since : List Lifecycle.AgentState) (status : CaptureStatus) : Prop :=
  ∃ state ∈ since, status.state = wireState state

/-- A call of `stop` has sent, or is about to send. -/
def ControllerStage.Stops : ControllerStage → Prop
  | .sending call | .waiting call => call ≠ .queryStatus
  | _ => False

structure Fresh (agent : AgentStage) (replies : List Message)
    (since : List Lifecycle.AgentState) : Prop where
  replies : ∀ answer ∈ replies, answer.type ≠ .error → ∀ status,
    decodeCaptureStatus answer.payload = .ok status → Recent since status
  loaded : ∀ state, agent = .reporting state → state ∈ since

/-- The status says the truth about a capture that is over. -/
def Final (system : Option (RuntimeSystem E)) (status : CaptureStatus) : Prop :=
  ∃ state, status.state = wireState state ∧ Finished system state

namespace SessionSystem

/-- What the end of a call says. -/
def Tells (s : SessionSystem E) : Outcome → Prop
  | .status status => s.lost = false → Recent s.since status
  | .stopped status => Final s.system status
  | .failed .writerError => Finished s.system .failed
  | .failed .protocol => s.lost = false → s.nextRequestId = 0
  | .failed _ => True

structure Keeps (setup : Setup) (s : SessionSystem E) : Prop where
  served : Served setup s.agent s.exchange s.system
  hello : ∀ m, s.hello = some m → m.type = .agentHello ∧ m.requestId = 1 ∧
    decodeAgentHello m.payload = .ok setup.hello
  greets : setup.Greets s.controller
  refused : s.lost = false → s.controller = .rejected .protocol → ¬ setup.Sound
  fresh : s.lost = false → Fresh s.agent s.exchange.replies s.since
  current : ∀ system, s.system = some system → system.runtime.state ∈ s.since
  idle : s.returned ≠ none → s.controller = .idle
  tells : ∀ outcome, s.returned = some outcome → s.Tells outcome
  last : s.stopped = true → ¬ s.controller.Stops ∧
    ∃ status, s.lastStatus = some status ∧ Final s.system status

structure Holds (setup : Setup) (s : SessionSystem E) : Prop extends s.Keeps setup where
  inStep : s.lost = false → InStep s.exchange s.controller

theorem holds_start (setup : Setup) : ({} : SessionSystem E).Holds setup where
  served := served_start
  hello m h := by cases h
  greets := trivial
  inStep _ := rfl
  refused _ h := by cases h
  fresh _ := ⟨fun answer h => (by cases h), fun state h => (by cases h)⟩
  current system h := by cases h
  idle h := absurd rfl h
  tells outcome h := by cases h
  last h := by cases h

section Steps

variable {setup : Setup} {s u : SessionSystem E}

/-- What it says concerns these fields only. -/
theorem tells_same {outcome : Outcome} (h : s.Tells outcome) (hsince : s.since = u.since)
    (hsystem : s.system = u.system) (hlost : s.lost = u.lost)
    (hid : s.nextRequestId = u.nextRequestId) : u.Tells outcome := by
  cases outcome with
  | failed kind =>
      cases kind with
      | writerError =>
          show Finished u.system .failed
          rw [← hsystem]
          exact h
      | protocol => exact fun hnone => hid ▸ h (hlost.trans hnone)
      | agentCrash | hookInstall | targetExit => trivial
  | status status => exact fun hnone => hsince ▸ h (hlost.trans hnone)
  | stopped status =>
      show Final u.system status
      rw [← hsystem]
      exact h

/-! ## Steps of the agent -/

/-- A step that does not concern the controller. -/
structure Beside (s u : SessionSystem E) : Prop where
  controller : u.controller = s.controller
  nextRequestId : u.nextRequestId = s.nextRequestId
  stopped : u.stopped = s.stopped
  lastStatus : u.lastStatus = s.lastStatus
  returned : u.returned = s.returned
  lost : u.lost = s.lost
  asked : u.exchange.asked = s.exchange.asked
  heard : u.exchange.heard = s.exchange.heard
  since : ∀ state ∈ s.since, state ∈ u.since
  finished : ∀ state, Finished s.system state → Finished u.system state

theorem Beside.inStep (h : Beside s u) (hstep : InStep s.exchange s.controller) :
    InStep u.exchange u.controller := by
  rw [h.controller]
  cases hcontroller : s.controller with
  | preparing | waiting call =>
      rw [hcontroller] at hstep
      simpa only [InStep, Awaits, h.asked, h.heard] using hstep
  | greeting | starting helloId | idle | sending call | rejected kind =>
      rw [hcontroller] at hstep
      simpa only [InStep, h.asked, h.heard] using hstep

theorem Beside.recent (h : Beside s u) {status : CaptureStatus} (hrecent : Recent s.since status) :
    Recent u.since status := by
  obtain ⟨state, hmem, hstate⟩ := hrecent
  exact ⟨state, h.since state hmem, hstate⟩

theorem Beside.final (h : Beside s u) {status : CaptureStatus} (hfinal : Final s.system status) :
    Final u.system status := by
  obtain ⟨state, hstate, hfinished⟩ := hfinal
  exact ⟨state, hstate, h.finished state hfinished⟩

theorem Beside.tells (h : Beside s u) {outcome : Outcome} (htells : s.Tells outcome) :
    u.Tells outcome := by
  cases outcome with
  | status status => exact fun hlost => h.recent (htells (h.lost ▸ hlost))
  | stopped status => exact h.final htells
  | failed kind =>
      cases kind with
      | writerError => exact h.finished _ htells
      | protocol => exact fun hlost => h.nextRequestId.trans (htells (h.lost ▸ hlost))
      | agentCrash | hookInstall | targetExit => trivial

theorem Holds.beside (h : s.Holds setup) (hbeside : Beside s u)
    (hserved : Served setup u.agent u.exchange u.system)
    (hhello : ∀ m, u.hello = some m → m.type = .agentHello ∧ m.requestId = 1 ∧
      decodeAgentHello m.payload = .ok setup.hello)
    (hfresh : s.lost = false → Fresh u.agent u.exchange.replies u.since)
    (hcurrent : ∀ system, u.system = some system → system.runtime.state ∈ u.since) :
    u.Holds setup where
  served := hserved
  hello := hhello
  greets := hbeside.controller ▸ h.greets
  inStep hlost := hbeside.inStep (h.inStep (hbeside.lost ▸ hlost))
  refused hlost hrejected :=
    h.refused (hbeside.lost ▸ hlost) (hbeside.controller.symm.trans hrejected)
  fresh hlost := hfresh (hbeside.lost ▸ hlost)
  current := hcurrent
  idle hreturned := hbeside.controller.trans (h.idle (hbeside.returned ▸ hreturned))
  tells outcome hreturned :=
    hbeside.tells (h.tells outcome (hbeside.returned.symm.trans hreturned))
  last hstopped := by
    obtain ⟨hstops, status, hstatus, hfinal⟩ := h.last (hbeside.stopped.symm.trans hstopped)
    rw [hbeside.controller]
    exact ⟨hstops, status, hbeside.lastStatus.trans hstatus, hbeside.final hfinal⟩

/-- The agent changes its stage only. -/
theorem Holds.stage (h : s.Holds setup) {later : AgentStage}
    (hserved : Served setup later s.exchange s.system)
    (hloaded : s.lost = false → ∀ state, later = .reporting state → state ∈ s.since) :
    { s with agent := later }.Holds setup :=
  h.beside ⟨rfl, rfl, rfl, rfl, rfl, rfl, rfl, rfl, fun _ => id, fun _ => id⟩ hserved h.hello
    (fun hlost => ⟨(h.fresh hlost).replies, hloaded hlost⟩) h.current

theorem Holds.leave (h : s.Holds setup) : { s with agent := .closed }.Holds setup :=
  h.stage h.served.leave fun _ state heq => by cases heq

theorem Holds.greet (h : s.Holds setup) (hstep : s.greet setup = some u) : u.Holds setup := by
  unfold SessionSystem.greet at hstep
  split at hstep
  · rename_i hagent
    split at hstep
    · rename_i payload hencode
      cases hstep
      have hbusy := h.served.busy
      have hearly := h.served.early
      rw [hagent] at hbusy hearly
      refine h.beside ⟨rfl, rfl, rfl, rfl, rfl, rfl, rfl, rfl, fun _ => id, fun _ => id⟩ ?_ ?_
        (fun hlost => ⟨(h.fresh hlost).replies, fun state heq => (by cases heq)⟩) h.current
      · exact ⟨h.served.order, h.served.starts, hbusy, h.served.taken, hearly, h.served.runs,
          fun _ _ _ => trivial, h.served.faithful⟩
      · intro m hm
        obtain rfl := Option.some.inj hm
        exact ⟨rfl, rfl, decodeAgentHello_eq_ok.mpr hencode⟩
    · cases hstep
      exact h.leave
  · cases hstep

theorem Holds.load (h : s.Holds setup) (hstep : s.load = some u) : u.Holds setup := by
  unfold SessionSystem.load at hstep
  split at hstep
  · rename_i system hagent hsystem
    obtain ⟨hrests, heq⟩ := Option.ite_none_right_eq_some.mp hstep
    cases heq
    have hbusy := h.served.busy
    rw [hagent] at hbusy
    refine h.stage (h.served.stage hbusy id fun q hserving htype => ?_) ?_
    · obtain ⟨hserves, -⟩ := h.served.runs system hsystem
      have hleads := h.served.leads q hserving htype
      rw [hagent] at hleads
      obtain ⟨runtime, hruntime, hleaving⟩ := hleads
      obtain rfl := Option.some.inj (hsystem.symm.trans hruntime)
      rw [hsystem]
      exact finished_of_rests hserves hleaving hrests
    · rintro - state heq
      cases heq
      exact h.current system hsystem
  · cases hstep

theorem answerType_ne_error (request : MessageType) : answerType request ≠ .error := by
  unfold answerType
  split_ifs <;> decide

/-- Only a request to finalize is answered with `kCaptureFinalized`. -/
theorem finalizeHooks_of_answer {q : Message}
    (hq : q.type = startCapture ∨ q.type = queryStatus ∨ q.type = stopCapture ∨
      q.type = finalizeHooks) (hanswer : answerType q.type = captureFinalized) :
    q.type = finalizeHooks := by
  rcases hq with hq | hq | hq | hq
  · rw [hq] at hanswer
    cases hanswer
  · rw [hq] at hanswer
    cases hanswer
  · rw [hq] at hanswer
    cases hanswer
  · exact hq

theorem Holds.reply (h : s.Holds setup) {status : CaptureStatus} (hstep : s.reply status = some u) :
    u.Holds setup := by
  unfold SessionSystem.reply at hstep
  split at hstep
  · rename_i state system request hagent hsystem hserving
    obtain ⟨hreports, hencoded⟩ := Option.ite_none_right_eq_some.mp hstep
    split at hencoded
    · rename_i payload hencode
      cases hencoded
      have hdecode := decodeCaptureStatus_eq_ok.mpr hencode
      obtain ⟨q, hq, htypes⟩ : Busy (.reporting state) s.exchange.serving :=
        hagent ▸ h.served.busy
      obtain rfl := Option.some.inj (hserving.symm.trans hq)
      have hanswers : Answers request ⟨answerType request.type, request.requestId, payload⟩ :=
        ⟨rfl, .inl rfl⟩
      refine h.beside ⟨rfl, rfl, rfl, rfl, rfl, rfl, rfl, rfl, fun _ => id, fun _ => id⟩ ?_
        h.hello ?_ h.current
      · refine h.served.reply hserving hanswers ⟨?_, fun _ => ?_⟩ ?_ ?_
        · exact fun herror => absurd herror (answerType_ne_error _)
        · refine ⟨status, state, hdecode, hreports.1, fun hfinalized => ?_⟩
          have hleads := h.served.leads request hserving
            (finalizeHooks_of_answer htypes hfinalized)
          rw [hagent] at hleads
          exact hleads
        · show Busy (if request.type = finalizeHooks then AgentStage.closed else .serving) none
          split <;> trivial
        · show ¬ (if request.type = finalizeHooks then AgentStage.closed else .serving).Early
          split <;> exact id
      · intro hlost
        refine ⟨fun answer hanswer herror other hother => ?_, fun later hlater => ?_⟩
        · rcases List.mem_append.mp hanswer with hanswer | hanswer
          · exact (h.fresh hlost).replies answer hanswer herror other hother
          · obtain rfl := List.mem_singleton.mp hanswer
            obtain rfl := Except.ok.inj (hdecode.symm.trans hother)
            exact ⟨state, (h.fresh hlost).loaded state hagent, hreports.1⟩
        · change (if request.type = finalizeHooks then AgentStage.closed else .serving) = _
            at hlater
          split at hlater <;> cases hlater
    · cases hencoded
      exact h.leave
  · cases hstep

/-- `send_error` to a start request. -/
theorem Holds.sendError (h : s.Holds setup) {start : Message} (error : ErrorResponse)
    (hserving : s.exchange.serving = some start) (htype : start.type = startCapture) :
    (s.sendError start error).Holds setup := by
  unfold SessionSystem.sendError
  split
  · rename_i payload hencode
    have hanswers : Answers start ⟨.error, start.requestId, payload⟩ := ⟨rfl, .inr ⟨htype, rfl⟩⟩
    refine h.beside ⟨rfl, rfl, rfl, rfl, rfl, rfl, rfl, rfl, fun _ => id, fun _ => id⟩ ?_
      h.hello ?_ h.current
    · refine h.served.reply hserving hanswers ⟨fun _ => ?_, fun hne => ?_⟩ ?_ ?_
      · exact ⟨error, decodeErrorResponse_eq_ok.mpr hencode⟩
      · exact absurd rfl hne
      · trivial
      · exact id
    · intro hlost
      refine ⟨fun answer hanswer hne => ?_, fun state heq => (by cases heq)⟩
      rcases List.mem_append.mp hanswer with hanswer | hanswer
      · exact (h.fresh hlost).replies answer hanswer hne
      · obtain rfl := List.mem_singleton.mp hanswer
        exact absurd rfl hne
  · exact h.leave

theorem Holds.start (h : s.Holds setup) {outcome : StartOutcome}
    (hstep : s.start outcome = some u) : u.Holds setup := by
  unfold SessionSystem.start at hstep
  split at hstep
  · rename_i start hagent hserving
    cases hstep
    obtain ⟨q, hq, htype⟩ : Busy .starting s.exchange.serving := hagent ▸ h.served.busy
    obtain rfl := Option.some.inj (hserving.symm.trans hq)
    cases outcome with
    | unguarded => exact h.sendError _ hserving htype
    | fails error =>
        simp only [begin]
        split
        · exact h.sendError error hserving htype
        · exact h.leave
    | capturing =>
        simp only [begin]
        split
        · rename_i request hdecode
          have hstart := h.served.starts start (h.served.taken start hserving) htype
          obtain rfl := Except.ok.inj (hdecode.symm.trans hstart)
          have hnone : s.system = none := h.served.early (by rw [hagent]; trivial)
          -- nothing has been finished before
          have hfinished : ∀ state, Finished s.system state →
              Finished (some (RuntimeSystem.start (E := E)
                (setup.start.captureKind = .attach))) state := by
            rintro state ⟨runtime, hruntime, -⟩
            cases hnone.symm.trans hruntime
          refine h.beside ⟨rfl, rfl, rfl, rfl, rfl, rfl, rfl, rfl,
            fun _ => List.mem_append_left _, hfinished⟩ ?_ h.hello ?_ ?_
          · refine ⟨h.served.order, h.served.starts, ⟨start, hserving, .inl htype⟩,
              h.served.taken, fun hearly => absurd hearly id, ?_, ?_, ?_⟩
            · intro runtime hruntime
              cases hruntime
              exact ⟨Lifecycle.RuntimeSystem.serves_start _, rfl⟩
            · intro q hq hfinalize
              obtain rfl := Option.some.inj (hserving.symm.trans hq)
              cases htype.symm.trans hfinalize
            · exact fun answer hanswer => (h.served.faithful answer hanswer).mono hfinished
          · intro hlost
            refine ⟨fun answer hanswer hne status hstatus => ?_, fun state heq => (by cases heq)⟩
            obtain ⟨state, hmem, hstate⟩ :=
              (h.fresh hlost).replies answer hanswer hne status hstatus
            exact ⟨state, List.mem_append_left _ hmem, hstate⟩
          · intro system hsystem
            cases hsystem
            exact List.mem_append_right _ List.mem_cons_self
        · exact h.leave
  · cases hstep

/-- The agent takes a request and goes on with another stage. -/
theorem Holds.takes (h : s.Holds setup) {request : Message} {exchange : Exchange Message Message}
    (htake : s.exchange.take = some (request, exchange)) {later : AgentStage}
    (hbusy : Busy later (some request)) (hearly : later.Early → s.system = none)
    (hleads : request.type = finalizeHooks → Leads s.system later)
    (hloaded : ∀ state, later ≠ .reporting state) :
    { s with exchange := exchange, agent := later }.Holds setup := by
  have hserved := h.served.take htake hbusy hearly h.served.runs hleads h.served.faithful
  obtain ⟨-, rest, -, rfl⟩ := Exchange.take_eq_some.mp htake
  exact h.beside ⟨rfl, rfl, rfl, rfl, rfl, rfl, rfl, rfl, fun _ => id, fun _ => id⟩ hserved
    h.hello (fun hlost => ⟨(h.fresh hlost).replies, fun state heq => absurd heq (hloaded state)⟩)
    h.current

section Threads

variable [DecidableEq E]

/-- The agent takes a request that lets it call a function of the runtime. -/
theorem Holds.enter (h : s.Holds setup) {request : Message} {exchange : Exchange Message Message}
    {a : RuntimeAction E} (htake : s.exchange.take = some (request, exchange))
    (ha : a = .stopCapture ∧ request.type = stopCapture ∨
      a = .finalizeHooks ∧ request.type = finalizeHooks)
    (hstep : { s with exchange := exchange }.enter a = some u) : u.Holds setup := by
  have hheard : exchange.heard = s.exchange.heard ∧ exchange.asked = s.exchange.asked ∧
      exchange.replies = s.exchange.replies := by
    obtain ⟨-, rest, -, rfl⟩ := Exchange.take_eq_some.mp htake
    exact ⟨rfl, rfl, rfl⟩
  unfold SessionSystem.enter at hstep
  split at hstep
  · rename_i system hsystem
    split at hstep
    · rename_i next hperform
      cases hstep
      obtain ⟨hserves, hretain⟩ := h.served.runs system hsystem
      have hserving : system.places .session = .serving ∧ next.runtime = system.runtime ∧
          (request.type = finalizeHooks → Leaving next) := by
        rcases ha with ⟨rfl, htype⟩ | ⟨rfl, -⟩
        · obtain ⟨hplace, heq⟩ := Option.ite_none_right_eq_some.mp hperform
          cases heq
          refine ⟨hplace, rfl, fun hfinalize => ?_⟩
          cases htype.symm.trans hfinalize
        · obtain ⟨hplace, heq⟩ := Option.ite_none_right_eq_some.mp hperform
          cases heq
          exact ⟨hplace, rfl, fun _ => .inl trivial⟩
      have hinSession : a.InSession := by
        rcases ha with ⟨rfl, -⟩ | ⟨rfl, -⟩ <;> trivial
      -- nothing has been finished while the session serves
      have hfinished : ∀ state, Finished s.system state → Finished (some next) state := by
        rintro state ⟨runtime, hruntime, hplace, -⟩
        obtain rfl := Option.some.inj (hsystem.symm.trans hruntime)
        cases hserving.1.symm.trans hplace
      refine h.beside ⟨rfl, rfl, rfl, rfl, rfl, rfl, hheard.2.1, hheard.1, fun _ => id,
        hfinished⟩ ?_ h.hello ?_ ?_
      · refine h.served.take htake ⟨request, rfl, ?_⟩ (fun hearly => absurd hearly id) ?_ ?_ ?_
        · rcases ha with ⟨-, htype⟩ | ⟨-, htype⟩
          · exact .inr (.inr (.inl htype))
          · exact .inr (.inr (.inr htype))
        · intro runtime hruntime
          cases hruntime
          refine ⟨hserves.perform hinSession hperform, ?_⟩
          rw [hserving.2.1]
          exact hretain
        · exact fun hfinalize => ⟨next, rfl, hserving.2.2 hfinalize⟩
        · exact fun answer hanswer => (h.served.faithful answer hanswer).mono hfinished
      · intro hlost
        refine ⟨?_, fun state heq => (by cases heq)⟩
        show ∀ answer ∈ exchange.replies, _
        rw [hheard.2.2]
        exact (h.fresh hlost).replies
      · intro runtime hruntime
        cases hruntime
        rw [hserving.2.1]
        exact h.current system hsystem
    · cases hstep
  · cases hstep

theorem Holds.take (h : s.Holds setup) (hstep : s.take = some u) : u.Holds setup := by
  unfold SessionSystem.take at hstep
  split at hstep
  · cases hstep
  · rename_i request exchange htake
    have hclosed := h.takes htake (show Busy .closed (some request) from trivial)
      (fun hearly => absurd hearly id) (fun _ => trivial) fun state heq => (by cases heq)
    split at hstep
    · rename_i hagent
      cases hstep
      split
      · rename_i htype
        refine h.takes htake ⟨request, rfl, htype⟩ ?_ (fun _ => trivial)
          fun state heq => (by cases heq)
        exact fun _ => h.served.early (by rw [hagent]; trivial)
      · exact hclosed
    · unfold SessionSystem.dispatch at hstep
      split at hstep
      · rename_i htype
        cases hstep
        refine h.takes htake ⟨request, rfl, .inr (.inl htype)⟩ (fun hearly => absurd hearly id) ?_
          fun state heq => (by cases heq)
        intro hfinalize
        cases htype.symm.trans hfinalize
      · split at hstep
        · rename_i htype
          exact h.enter htake (.inl ⟨rfl, htype⟩) hstep
        · split at hstep
          · rename_i htype
            exact h.enter htake (.inr ⟨rfl, htype⟩) hstep
          · cases hstep
            exact hclosed
    · cases hstep

theorem Holds.run (h : s.Holds setup) {a : RuntimeAction E} (hacts : s.Acts a)
    (hstep : s.run a = some u) : u.Holds setup := by
  unfold SessionSystem.run at hstep
  split at hstep
  · rename_i system hsystem
    split at hstep
    · rename_i next hperform
      cases hstep
      obtain ⟨hserves, hretain⟩ := h.served.runs system hsystem
      have hfinished : ∀ state, Finished s.system state → Finished (some next) state := by
        intro state hfinished
        rw [hsystem] at hfinished
        exact hfinished.perform hserves hacts hperform
      refine h.beside ⟨rfl, rfl, rfl, rfl, rfl, rfl, rfl, rfl, fun _ => List.mem_append_left _,
        hfinished⟩ ?_ h.hello ?_ ?_
      · refine ⟨h.served.order, h.served.starts, h.served.busy, h.served.taken, ?_, ?_, ?_, ?_⟩
        · intro hearly
          cases hsystem.symm.trans (h.served.early hearly)
        · intro runtime hruntime
          cases hruntime
          exact ⟨hserves.perform (inSession_of_acts hacts) hperform,
            Lifecycle.RuntimeSystem.retain_perform hretain hperform⟩
        · intro q hq hfinalize
          have hleads := h.served.leads q hq hfinalize
          rw [hsystem] at hleads
          exact hleads.perform hserves hacts hperform
        · exact fun answer hanswer => (h.served.faithful answer hanswer).mono hfinished
      · intro hlost
        refine ⟨fun answer hanswer hne status hstatus => ?_, fun state hagent => ?_⟩
        · obtain ⟨state, hmem, hstate⟩ := (h.fresh hlost).replies answer hanswer hne status hstatus
          exact ⟨state, List.mem_append_left _ hmem, hstate⟩
        · exact List.mem_append_left _ ((h.fresh hlost).loaded state hagent)
      · intro runtime hruntime
        cases hruntime
        exact List.mem_append_right _ List.mem_cons_self
    · cases hstep
  · cases hstep

end Threads

/-! ## Steps of the controller -/

/-- No answer is missing: nothing is on its way. -/
theorem Holds.quiet (h : s.Holds setup)
    (hheard : s.exchange.heard.length = s.exchange.asked.length) :
    s.exchange.replies = [] ∧ ∀ state, s.agent ≠ .reporting state := by
  obtain ⟨-, hserving, hreplies⟩ := h.served.order.quiet hheard
  refine ⟨hreplies, fun state hagent => ?_⟩
  obtain ⟨q, hq, -⟩ : Busy (.reporting state) s.exchange.serving := hagent ▸ h.served.busy
  cases hserving.symm.trans hq

/-- The controller sends a request. -/
theorem Holds.ask (h : s.Holds setup) {stage : ControllerStage} {request : Message}
    (hbusy : s.controller ≠ .idle) (hstart : request.type = startCapture →
      decodeStartCapture request.payload = .ok setup.start) (hgreets : setup.Greets stage)
    (hstops : stage.Stops → s.controller.Stops) (hrejected : ∀ kind, stage ≠ .rejected kind)
    (hheard : s.lost = false → s.exchange.heard.length = s.exchange.asked.length)
    (hstage : ∀ x, Awaits request.type x → InStep x stage) : (s.ask stage request).Holds setup where
  served := h.served.ask hstart
  hello := h.hello
  greets := hgreets
  inStep hlost := hstage _ ⟨s.exchange.asked, request, rfl, hheard hlost, rfl⟩
  refused _ hrefused := absurd hrefused (hrejected _)
  fresh hlost := by
    obtain ⟨hreplies, hreporting⟩ := h.quiet (hheard hlost)
    refine ⟨fun answer hanswer => ?_, fun state hagent => absurd hagent (hreporting state)⟩
    change answer ∈ s.exchange.replies at hanswer
    rw [hreplies] at hanswer
    cases hanswer
  current system hsystem := by
    change s.system = some system at hsystem
    show system.runtime.state ∈ s.current
    unfold SessionSystem.current
    rw [hsystem]
    exact List.mem_cons_self
  idle hreturned := absurd (h.idle hreturned) hbusy
  tells outcome hreturned := by
    change s.returned = some outcome at hreturned
    exact absurd (h.idle (by rw [hreturned]; exact nofun)) hbusy
  last hstopped := by
    obtain ⟨hno, hlast⟩ := h.last hstopped
    exact ⟨fun hstage => hno (hstops hstage), hlast⟩

/-- A call ends. -/
theorem Keeps.returns (h : s.Keeps setup) {outcome : Outcome} (hgreets : setup.Greets .idle)
    (hheard : s.lost = false → s.exchange.heard.length = s.exchange.asked.length)
    (htells : s.Tells outcome) : (s.returns outcome).Holds setup where
  served := h.served
  hello := h.hello
  greets := hgreets
  inStep := hheard
  refused _ hrefused := by cases hrefused
  fresh := h.fresh
  current := h.current
  idle _ := rfl
  tells other hother := by
    obtain rfl := Option.some.inj hother
    exact tells_same htells rfl rfl rfl rfl
  last hstopped := ⟨id, (h.last hstopped).2⟩

/-- A call goes on to send. -/
theorem Keeps.sends (h : s.Keeps setup) {call : Call} (hgreets : setup.Greets .idle)
    (hheard : s.lost = false → s.exchange.heard.length = s.exchange.asked.length)
    (hstops : s.stopped = true → call = .queryStatus) : (s.sends call).Holds setup where
  served := h.served
  hello := h.hello
  greets := hgreets
  inStep := hheard
  refused _ hrefused := by cases hrefused
  fresh := h.fresh
  current := h.current
  idle hreturned := absurd rfl hreturned
  tells outcome hreturned := by cases hreturned
  last hstopped := ⟨fun hne => hne (hstops hstopped), (h.last hstopped).2⟩

theorem Keeps.remembers (h : s.Keeps setup) (status : CaptureStatus)
    (hstopped : s.stopped = false) :
    { s with lastStatus := some status }.Keeps setup where
  served := h.served
  hello := h.hello
  greets := h.greets
  refused := h.refused
  fresh := h.fresh
  current := h.current
  idle := h.idle
  tells outcome hreturned := tells_same (h.tells outcome hreturned) rfl rfl rfl rfl
  last hstop := by cases hstopped.symm.trans hstop

/-- `stop` is through. -/
theorem Holds.concludes (h : s.Holds setup) {status : CaptureStatus} (hidle : s.controller = .idle)
    (hfinal : Final s.system status) :
    { s with stopped := true, lastStatus := some status }.Holds setup where
  served := h.served
  hello := h.hello
  greets := h.greets
  inStep := h.inStep
  refused := h.refused
  fresh := h.fresh
  current := h.current
  idle := h.idle
  tells outcome hreturned := tells_same (h.tells outcome hreturned) rfl rfl rfl rfl
  last _ := by
    refine ⟨?_, status, rfl, hfinal⟩
    show ¬ s.controller.Stops
    rw [hidle]
    exact id

/-- The constructor of the controller throws. -/
theorem Keeps.rejects (h : s.Keeps setup) {kind : FailureKind} (hbusy : s.controller ≠ .idle)
    (hheard : s.lost = false → s.exchange.heard.length = s.exchange.asked.length)
    (hkind : s.lost = false → kind = .protocol → ¬ setup.Sound) :
    { s with controller := .rejected kind }.Holds setup where
  served := h.served
  hello := h.hello
  greets := trivial
  inStep := hheard
  refused hlost hrefused := by
    cases hrefused
    exact hkind hlost rfl
  fresh := h.fresh
  current := h.current
  idle hreturned := absurd (h.idle hreturned) hbusy
  tells outcome hreturned := by
    exact absurd (h.idle (by rw [hreturned]; exact nofun)) hbusy
  last hstopped := ⟨id, (h.last hstopped).2⟩

theorem Holds.send (h : s.Holds setup) (hstep : s.send setup = some u) : u.Holds setup := by
  unfold SessionSystem.send at hstep
  split at hstep
  · rename_i helloId hcontroller
    have hbusy : s.controller ≠ .idle := by
      rw [hcontroller]
      exact nofun
    obtain ⟨hid, hgreets⟩ : setup.Greets (.starting helloId) := hcontroller ▸ h.greets
    have hheard : s.lost = false → s.exchange.heard.length = s.exchange.asked.length := by
      intro hlost
      have hin := h.inStep hlost
      rw [hcontroller] at hin
      exact hin
    split at hstep
    · rename_i payload hencode
      cases hstep
      unfold SessionSystem.submit
      split
      · refine h.ask hbusy (fun _ => decodeStartCapture_encode hencode) hgreets
          (fun hstops => absurd hstops id) (fun _ => nofun) hheard fun x hawaits => hawaits
      · rename_i hframe
        refine h.toKeeps.rejects hbusy hheard fun _ _ hsound => ?_
        obtain ⟨-, -, other, hother, hsize⟩ := hsound
        obtain rfl := Except.ok.inj (hencode.symm.trans hother)
        have hok : encodeFrame ⟨startCapture, helloId, payload⟩ = .ok _ :=
          encodeFrame_eq_ok.mpr ⟨⟨rfl, by rw [hid]; exact nofun, hsize⟩, rfl⟩
        cases hframe.symm.trans hok
    · rename_i hencode
      cases hstep
      refine h.toKeeps.rejects hbusy hheard fun _ _ hsound => ?_
      obtain ⟨-, -, payload, hpayload, -⟩ := hsound
      cases hencode.symm.trans hpayload
  · rename_i call hcontroller
    have hbusy : s.controller ≠ .idle := by
      rw [hcontroller]
      exact nofun
    have hgreets : setup.Greets (.sending call) := hcontroller ▸ h.greets
    have hheard : s.lost = false → s.exchange.heard.length = s.exchange.asked.length := by
      intro hlost
      have hin := h.inStep hlost
      rw [hcontroller] at hin
      exact hin
    cases hstep
    unfold SessionSystem.submit
    split
    · refine h.ask hbusy (fun hstart => absurd hstart (request_ne_start call)) hgreets ?_
        (fun _ => nofun) hheard fun x hawaits => hawaits
      intro hstops
      rw [hcontroller]
      exact hstops
    · rename_i hframe
      refine h.toKeeps.returns hgreets hheard fun _ => ?_
      -- nothing but the id can be refused
      by_contra hid
      have hknown : isKnownMessageType call.request := by cases call <;> rfl
      have hok : encodeFrame ⟨call.request, s.nextRequestId, []⟩ = .ok _ :=
        encodeFrame_eq_ok.mpr ⟨⟨hknown, hid, Nat.zero_le _⟩, rfl⟩
      cases hframe.symm.trans hok
  · cases hstep

/-- The controller has missed an answer. -/
theorem Keeps.loses (h : s.Keeps setup) : { s with lost := true }.Keeps setup where
  served := h.served
  hello := h.hello
  greets := h.greets
  refused hlost := by cases hlost
  fresh hlost := by cases hlost
  current := h.current
  idle := h.idle
  tells outcome hreturned := by
    have htells := h.tells outcome hreturned
    cases outcome with
    | status status => exact nofun
    | stopped status => exact htells
    | failed kind =>
        cases kind with
        | protocol => exact nofun
        | agentCrash | writerError | hookInstall | targetExit => exact htells
  last := h.last

theorem sessionBroken_ne (targetExited : Bool) : sessionBroken targetExited ≠ .protocol := by
  cases targetExited <;> exact nofun

theorem tells_sessionBroken (s : SessionSystem E) (targetExited : Bool) :
    s.Tells (.failed (sessionBroken targetExited)) := by
  cases targetExited <;> trivial

theorem Holds.fail (h : s.Holds setup) {targetExited : Bool}
    (hstep : s.fail targetExited = some u) : u.Holds setup := by
  have hprotocol := sessionBroken_ne targetExited
  have hin := h.inStep
  have hgreets := h.greets
  unfold SessionSystem.fail at hstep
  cases hcontroller : s.controller with
  | greeting | starting helloId =>
      rw [hcontroller] at hstep hin
      obtain rfl := Option.some.inj hstep
      exact h.toKeeps.rejects (by rw [hcontroller]; exact nofun) hin
        fun _ heq => absurd heq hprotocol
  | preparing =>
      rw [hcontroller] at hstep
      obtain rfl := Option.some.inj hstep
      refine h.toKeeps.loses.rejects ?_ (fun hlost => (by cases hlost))
        fun _ heq => absurd heq hprotocol
      show s.controller ≠ .idle
      rw [hcontroller]
      exact nofun
  | sending call =>
      rw [hcontroller] at hstep hin hgreets
      obtain rfl := Option.some.inj hstep
      exact h.toKeeps.returns hgreets hin (tells_sessionBroken s targetExited)
  | waiting call =>
      rw [hcontroller] at hstep hgreets
      obtain rfl := Option.some.inj hstep
      exact h.toKeeps.loses.returns hgreets (fun hlost => (by cases hlost))
        (tells_sessionBroken _ targetExited)
  | idle | rejected kind =>
      rw [hcontroller] at hstep
      cases hstep

/-- What the controller knows about an answer it hears. -/
theorem Holds.hear (h : s.Holds setup) {response : Message} {exchange : Exchange Message Message}
    (hhear : s.exchange.hear = some (response, exchange)) (type : MessageType)
    (hawaits : s.lost = false → Awaits type s.exchange) :
    { s with exchange := exchange }.Keeps setup ∧ Faithful s.system response ∧
      (s.lost = false → exchange.heard.length = exchange.asked.length ∧
        (∃ q, q.type = type ∧ Answers q response) ∧
        (response.type ≠ .error → ∀ status, decodeCaptureStatus response.payload = .ok status →
          Recent s.since status)) := by
  obtain ⟨hserved, hfaithful⟩ := h.served.hear hhear
  have horder := h.served.order
  obtain ⟨rest, hreplies, rfl⟩ := Exchange.hear_eq_some.mp hhear
  have hmem : response ∈ s.exchange.replies := by
    rw [hreplies]
    exact List.mem_cons_self
  refine ⟨?_, hfaithful, fun hlost => ⟨?_, ?_, (h.fresh hlost).replies response hmem⟩⟩
  · refine ⟨hserved, h.hello, h.greets, h.refused, fun hlost => ?_, h.current, h.idle, ?_, h.last⟩
    · refine ⟨fun answer hanswer => ?_, (h.fresh hlost).loaded⟩
      refine (h.fresh hlost).replies answer ?_
      rw [hreplies]
      exact List.mem_cons_of_mem _ hanswer
    · exact fun outcome hreturned => tells_same (h.tells outcome hreturned) rfl rfl rfl rfl
  · obtain ⟨earlier, q, hasked, hheard, -⟩ := hawaits hlost
    show (s.exchange.heard ++ [response]).length = s.exchange.asked.length
    rw [hasked, List.length_append, List.length_append, hheard]
    rfl
  · obtain ⟨earlier, q, hasked, hheard, htype⟩ := hawaits hlost
    exact ⟨q, htype, horder.answers_last hasked hheard hmem⟩

/-- The controller hears the answer to its start request. -/
theorem prepare_of_answers {q ready : Message} {system : Option (RuntimeSystem E)}
    (hq : q.type = startCapture) (hanswers : Answers q ready) (hfaithful : Faithful system ready) :
    prepare ready ≠ .rejected .protocol := by
  unfold prepare
  split
  · rename_i herror
    obtain ⟨error, hdecode⟩ := hfaithful.error herror
    rw [hdecode]
    simp only
    split <;> exact nofun
  · rename_i herror
    rcases hanswers.2 with htype | ⟨-, htype⟩
    · rw [hq] at htype
      rw [if_neg (not_not_intro (show ready.type = captureReady from htype))]
      exact nofun
    · exact absurd htype herror

theorem prepare_cases (ready : Message) :
    prepare ready = .idle ∨ ∃ kind, prepare ready = .rejected kind := by
  unfold prepare
  split
  · split
    · exact .inr ⟨_, rfl⟩
    · split <;> exact .inr ⟨_, rfl⟩
  · split
    · exact .inr ⟨_, rfl⟩
    · exact .inl rfl

/-- The controller hears the answer to a request of a call. -/
theorem Holds.answer (h : s.Holds setup) {response : Message} {call : Call}
    {exchange : Exchange Message Message} (hcontroller : s.controller = .waiting call)
    (hhear : s.exchange.hear = some (response, exchange)) :
    ({ s with exchange := exchange }.answer response call).Holds setup := by
  have hgreets : setup.Greets (.waiting call) := hcontroller ▸ h.greets
  obtain ⟨hkeeps, hfaithful, hlockstep⟩ := h.hear hhear call.request fun hlost => by
    have hin := h.inStep hlost
    rw [hcontroller] at hin
    exact hin
  have hheard := fun hlost => (hlockstep hlost).1
  have hstopped : call ≠ .queryStatus → s.stopped = false := by
    intro hcall
    by_contra hstopped
    refine (h.last (Bool.eq_true_of_not_eq_false hstopped)).1 ?_
    rw [hcontroller]
    exact hcall
  -- the type of the answer is the one expected
  have htype : s.lost = false → response.type = answerType call.request := by
    intro hlost
    obtain ⟨-, ⟨q, hq, hanswers⟩, -⟩ := hlockstep hlost
    rw [← hq]
    refine hanswers.2.resolve_right fun hstart => ?_
    exact request_ne_start call (hq.symm.trans hstart.1)
  have hviolates : ({ s with exchange := exchange } : SessionSystem E).lost = false →
      response.type ≠ answerType call.request → False := fun hlost hne => hne (htype hlost)
  have hdecodes : ∀ type, response.type = type → type ≠ .error →
      ∃ status state, decodeCaptureStatus response.payload = .ok status ∧
        status.state = wireState state ∧
          (response.type = captureFinalized → Finished s.system state) := by
    rintro type rfl hne
    exact hfaithful.status hne
  cases call with
  | queryStatus =>
      show (SessionSystem.answerQuery _ _).Holds setup
      unfold SessionSystem.answerQuery
      split
      · rename_i hne
        exact hkeeps.returns hgreets hheard fun hlost => (hviolates hlost hne).elim
      · rename_i heq
        obtain ⟨status, state, hdecode, -, -⟩ := hdecodes _ (not_not.mp heq) (by decide)
        rw [hdecode]
        refine hkeeps.returns hgreets hheard fun hlost => ?_
        refine (hlockstep hlost).2.2 ?_ status hdecode
        rw [not_not.mp heq]
        decide
  | stop =>
      show (SessionSystem.answerStop _ _).Holds setup
      unfold SessionSystem.answerStop
      split
      · rename_i hne
        exact hkeeps.returns hgreets hheard fun hlost => (hviolates hlost hne).elim
      · rename_i heq
        obtain ⟨status, state, hdecode, -, -⟩ := hdecodes _ (not_not.mp heq) (by decide)
        rw [hdecode]
        have hrunning : s.stopped = false := hstopped (by decide)
        refine (hkeeps.remembers status hrunning).sends hgreets hheard fun hstop => ?_
        cases hrunning.symm.trans hstop
  | finalize =>
      show (SessionSystem.answerFinalize _ _).Holds setup
      unfold SessionSystem.answerFinalize
      split
      · rename_i hne
        exact hkeeps.returns hgreets hheard fun hlost => (hviolates hlost hne).elim
      · rename_i heq
        obtain ⟨status, state, hdecode, hstate, hfinal⟩ := hdecodes _ (not_not.mp heq) (by decide)
        rw [hdecode]
        have hfinished := hfinal (not_not.mp heq)
        refine (hkeeps.returns hgreets hheard ?_).concludes rfl ⟨state, hstate, hfinished⟩
        split
        · rename_i hfailed
          show Finished s.system .failed
          rw [← wireState_injective (hstate.symm.trans hfailed)]
          exact hfinished
        · exact ⟨state, hstate, hfinished⟩

theorem Holds.call (h : s.Holds setup) {stops : Bool} (hstep : s.call stops = some u) :
    u.Holds setup := by
  unfold SessionSystem.call at hstep
  split at hstep
  · rename_i hcontroller
    have hgreets : setup.Greets .idle := hcontroller ▸ h.greets
    have hheard : s.lost = false → s.exchange.heard.length = s.exchange.asked.length := by
      intro hlost
      have hin := h.inStep hlost
      rw [hcontroller] at hin
      exact hin
    split at hstep
    · split at hstep
      · rename_i status hstopped hstatus
        cases hstep
        obtain ⟨-, other, hother, hfinal⟩ := h.last hstopped
        obtain rfl := Option.some.inj (hstatus.symm.trans hother)
        exact h.toKeeps.returns hgreets hheard hfinal
      · rename_i hno
        cases hstep
        refine h.toKeeps.sends hgreets hheard fun hstopped => ?_
        obtain ⟨-, status, hstatus, -⟩ := h.last hstopped
        exact absurd hstatus (hno status hstopped)
    · cases hstep
      exact h.toKeeps.sends hgreets hheard fun _ => rfl
  · cases hstep

theorem greet_cases (hello : Message) : (∃ kind, setup.greet hello = .rejected kind) ∨
    setup.greet hello = .starting hello.requestId := by
  unfold Setup.greet
  split
  · exact .inl ⟨_, rfl⟩
  · split
    · exact .inl ⟨_, rfl⟩
    · split
      · exact .inl ⟨_, rfl⟩
      · split
        · exact .inl ⟨_, rfl⟩
        · exact .inr rfl

/-- The hello of the agent is accepted, or the agent is not the one waited for. -/
theorem greets_greet {hello : Message} (htype : hello.type = .agentHello)
    (hid : hello.requestId = 1) (hdecode : decodeAgentHello hello.payload = .ok setup.hello) :
    setup.Greets (setup.greet hello) ∧
      (setup.greet hello = .rejected .protocol → ¬ setup.Sound) := by
  unfold Setup.greet
  rw [if_neg (not_not_intro htype), hdecode]
  simp only
  split
  · rename_i haccepts
    exact ⟨trivial, fun _ hsound => haccepts hsound.1⟩
  · rename_i haccepts
    split
    · rename_i hclient
      exact ⟨trivial, fun _ hsound => hclient hsound.2.1⟩
    · rename_i hclient
      exact ⟨⟨hid, not_not.mp haccepts, not_not.mp hclient⟩, nofun⟩

theorem Holds.receive (h : s.Holds setup) (hstep : s.receive setup = some u) : u.Holds setup := by
  unfold SessionSystem.receive at hstep
  split at hstep
  · rename_i hcontroller
    have hreturned : s.returned = none := by
      by_contra hreturned
      cases hcontroller.symm.trans (h.idle hreturned)
    split at hstep
    · rename_i hello hhello
      cases hstep
      obtain ⟨htype, hid, hdecode⟩ := h.hello hello hhello
      obtain ⟨hgreets, hrefused⟩ := greets_greet htype hid hdecode
      have hnext : (∃ kind, setup.greet hello = .rejected kind) ∨
          setup.greet hello = .starting hello.requestId := greet_cases hello
      refine ⟨⟨h.served, nofun, hgreets, fun _ => hrefused, h.fresh, h.current, ?_, ?_, ?_⟩, ?_⟩
      · exact fun hne => absurd hreturned hne
      · intro outcome houtcome
        cases hreturned.symm.trans houtcome
      · refine fun hstopped => ⟨?_, (h.last hstopped).2⟩
        rcases hnext with ⟨kind, heq⟩ | heq <;> exact heq ▸ id
      · intro hlost
        have hin := h.inStep hlost
        rw [hcontroller] at hin
        show InStep s.exchange (setup.greet hello)
        rcases hnext with ⟨kind, heq⟩ | heq <;> exact heq ▸ hin
    · cases hstep
  · rename_i hcontroller
    split at hstep
    · rename_i ready exchange hhear
      cases hstep
      have hbusy : s.controller ≠ .idle := by
        rw [hcontroller]
        exact nofun
      have hgreets : setup.Greets .preparing := hcontroller ▸ h.greets
      obtain ⟨hkeeps, hfaithful, hlockstep⟩ := h.hear hhear startCapture fun hlost => by
        have hin := h.inStep hlost
        rw [hcontroller] at hin
        exact hin
      have hheard := fun hlost => (hlockstep hlost).1
      rcases prepare_cases ready with hready | ⟨kind, hready⟩
      · rw [hready]
        refine ⟨⟨hkeeps.served, hkeeps.hello, hgreets, fun _ => nofun, hkeeps.fresh,
          hkeeps.current, fun _ => rfl, ?_, fun hstopped => ⟨id, (h.last hstopped).2⟩⟩, hheard⟩
        intro outcome houtcome
        change s.returned = some outcome at houtcome
        exact absurd (h.idle (by rw [houtcome]; exact nofun)) hbusy
      · rw [hready]
        refine hkeeps.rejects hbusy hheard fun hlost hkind => ?_
        obtain ⟨-, ⟨q, hq, hanswers⟩, -⟩ := hlockstep hlost
        rw [hkind] at hready
        exact absurd hready (prepare_of_answers hq hanswers hfaithful)
    · cases hstep
  · rename_i call hcontroller
    split at hstep
    · rename_i response exchange hhear
      cases hstep
      exact h.answer hcontroller hhear
    · cases hstep
  · cases hstep

/-! ## Runs -/

variable [DecidableEq E]

theorem Holds.perform (h : s.Holds setup) {a : SessionAction E} (horderly : s.Orderly a)
    (hstep : s.perform setup a = some u) : u.Holds setup := by
  cases a with
  | greet => exact h.greet hstep
  | receive => exact h.receive hstep
  | send => exact h.send hstep
  | fail targetExited => exact h.fail hstep
  | call stops => exact h.call hstep
  | take => exact h.take hstep
  | start outcome => exact h.start hstep
  | load => exact h.load hstep
  | reply status => exact h.reply hstep
  | leave =>
      change s.leave = some u at hstep
      unfold SessionSystem.leave at hstep
      split at hstep
      · cases hstep
      · cases hstep
        exact h.leave
  | run a => exact h.run horderly hstep

theorem Run.holds (hrun : Run setup s) : s.Holds setup := by
  induction hrun with
  | start => exact holds_start setup
  | step a _ horderly hstep ih => exact ih.perform horderly hstep

end Steps

end SessionSystem

/-! ## The session -/

open SessionSystem

variable [DecidableEq E]

/-- The steps in this order, as far as they can be made. -/
def replay (setup : Setup) : List (SessionAction E) → SessionSystem E → Option (SessionSystem E)
  | [], s => some s
  | a :: rest, s =>
      if s.Orderly a then (s.perform setup a).bind (replay setup rest) else none

end Noleax.Session
