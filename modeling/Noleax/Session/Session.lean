import Noleax.Ipc.Codec
import Noleax.Lib.Exchange
import Noleax.Lifecycle.CaptureLifecycle

/-!
# The session of a Linux capture

The controller (`CaptureSession::Impl` of `controller/linux/controller.cpp`), the
session thread of the agent (`session_bootstrap` and `serve_session` of
`agent/linux/agent_runtime.cpp`) and the messages between them. The other threads of the
target act on the capture runtime meanwhile. A message is on its way as a whole
(`transport_delivers`): a call of `send` or `receive` that fails has transferred nothing.

The controller does not compare request ids: it goes by the type of an answer.
-/

namespace Noleax.Session

open Lib Ipc
open Lifecycle (RuntimeSystem RuntimeAction)

/-! ## What is agreed upon -/

def startCapture : MessageType := ⟨2⟩
def captureReady : MessageType := ⟨3⟩
def queryStatus : MessageType := ⟨4⟩
def captureStatus : MessageType := ⟨5⟩
def stopCapture : MessageType := ⟨6⟩
def captureDrained : MessageType := ⟨7⟩
def finalizeHooks : MessageType := ⟨8⟩
def captureFinalized : MessageType := ⟨9⟩

def agentAbiVersion : UInt32 := 5

/-- `sizeof(void*)` -/
def sizeofPointer : UInt8 := 8

def x64 : Architecture := ⟨2⟩

def captureStatusFlagDrainIncomplete : UInt32 := 1
def captureStatusFlagUnpatchIncomplete : UInt32 := 2

def agentStartErrorGeneric : UInt32 := 1
def agentStartErrorTraceWriter : UInt32 := 6

/-- The value a state has on the wire. -/
def wireState : Lifecycle.AgentState → AgentState
  | .idle => ⟨0⟩
  | .starting => ⟨1⟩
  | .capturing => ⟨2⟩
  | .drained => ⟨3⟩
  | .finalized => ⟨4⟩
  | .failed => ⟨5⟩
  | .draining => ⟨6⟩
  | .dormant => ⟨7⟩
  | .unpatching => ⟨8⟩

/-! ## The controller -/

/-- `ControllerFailureKind`. -/
inductive FailureKind where
  | agentCrash | writerError | hookInstall | targetExit | protocol
deriving DecidableEq, Repr

/-- The exchanges of `query_status` and of `stop`. -/
inductive Call where
  | queryStatus
  | stop
  /-- the second half of `stop` -/
  | finalize
deriving DecidableEq, Repr

def Call.request : Call → MessageType
  | .queryStatus => Session.queryStatus
  | .stop => stopCapture
  | .finalize => finalizeHooks

inductive ControllerStage where
  /-- `complete_handshake` receives the hello -/
  | greeting
  /-- it sends the start request under the id of the hello -/
  | starting (helloId : UInt64)
  /-- it receives the answer -/
  | preparing
  | idle
  /-- a call sends its request -/
  | sending (call : Call)
  /-- and receives the answer -/
  | waiting (call : Call)
  /-- the constructor threw -/
  | rejected (kind : FailureKind)
deriving DecidableEq, Repr

/-- How the last call ended. -/
inductive Outcome where
  /-- `query_status` returned -/
  | status (status : CaptureStatus)
  /-- `stop` returned -/
  | stopped (status : CaptureStatus)
  | failed (kind : FailureKind)
deriving DecidableEq

/-- What the controller starts from, and who is at the other end of its connection. -/
structure Setup where
  /-- `token_` -/
  token : SessionToken
  /-- `process_id_` -/
  processId : UInt32
  /-- `capture.start` -/
  start : StartCaptureRequest
  /-- what the agent says of itself -/
  hello : AgentHello
  /-- `client_process_id()` -/
  clientProcessId : UInt32

/-- The hello is that of the agent the controller waits for. -/
def Setup.Accepts (setup : Setup) (hello : AgentHello) : Prop :=
  hello.sessionToken = setup.token ∧ hello.agentAbiVersion = agentAbiVersion ∧
    hello.pointerWidth = sizeofPointer ∧ hello.architecture = x64

instance (setup : Setup) (hello : AgentHello) : Decidable (setup.Accepts hello) :=
  inferInstanceAs (Decidable (_ ∧ _))

/-- `complete_handshake` after the hello. -/
def Setup.greet (setup : Setup) (hello : Message) : ControllerStage :=
  if hello.type ≠ .agentHello then .rejected .protocol
  else
    match decodeAgentHello hello.payload with
    | .error _ => .rejected .protocol
    | .ok payload =>
        if ¬ setup.Accepts payload then .rejected .protocol
        else if setup.clientProcessId ≠ setup.processId then .rejected .protocol
        else .starting hello.requestId

/-- `complete_handshake` after the answer to the start request. -/
def prepare (ready : Message) : ControllerStage :=
  if ready.type = .error then
    match decodeErrorResponse ready.payload with
    | .error _ => .rejected .protocol
    | .ok error =>
        if error.errorCode = agentStartErrorTraceWriter then .rejected .writerError
        else .rejected .hookInstall
  else if ready.type ≠ captureReady then .rejected .protocol
  else .idle

/-! ## The agent -/

inductive AgentStage where
  /-- `session_bootstrap` sends the hello -/
  | connected
  /-- it receives the start request -/
  | awaitingStart
  /-- it starts the runtime -/
  | starting
  /-- `serve_session` receives a request -/
  | serving
  /-- `drain`, `finalize` or nothing, and then `status` -/
  | handling
  /-- `status` has loaded the state word -/
  | reporting (state : Lifecycle.AgentState)
  /-- both functions have been left -/
  | closed
deriving DecidableEq, Repr

/-- What `start` comes to. -/
inductive StartOutcome where
  /-- there is no hook guard runtime -/
  | unguarded
  /-- `LinuxCaptureRuntime::start` fails -/
  | fails (error : ErrorResponse)
  | capturing

/-- The type of the answer to a request. -/
def answerType (request : MessageType) : MessageType :=
  if request = startCapture then captureReady
  else if request = queryStatus then captureStatus
  else if request = stopCapture then captureDrained
  else captureFinalized

/-- The fields of a status that come from the state word and from `status_flags_`. -/
def Reports (runtime : Lifecycle.CaptureRuntime) (state : Lifecycle.AgentState)
    (status : CaptureStatus) : Prop :=
  status.state = wireState state ∧
    (status.flags &&& captureStatusFlagDrainIncomplete ≠ 0 ↔ runtime.drainIncomplete = true) ∧
    (status.flags &&& captureStatusFlagUnpatchIncomplete ≠ 0 ↔ runtime.unpatchIncomplete = true)

instance (runtime : Lifecycle.CaptureRuntime) (state : Lifecycle.AgentState)
    (status : CaptureStatus) : Decidable (Reports runtime state status) :=
  inferInstanceAs (Decidable (_ ∧ _ ∧ _))

/-! ## Both -/

structure SessionSystem (E : Type) where
  controller : ControllerStage := .greeting
  agent : AgentStage := .connected
  /-- the hello, on its way -/
  hello : Option Message := none
  exchange : Exchange Message Message := {}
  /-- the runtime of the agent, once it captures -/
  system : Option (RuntimeSystem E) := none
  nextRequestId : UInt64 := 1
  stopped : Bool := false
  lastStatus : Option CaptureStatus := none
  /-- how the last call ended, once it has -/
  returned : Option Outcome := none
  /-- a `receive` of the controller has failed -/
  lost : Bool := false
  /-- the values of the state word since the controller sent its last request -/
  since : List Lifecycle.AgentState := []

inductive SessionAction (E : Type) where
  /-- the agent sends its hello -/
  | greet
  /-- the controller receives -/
  | receive
  /-- the controller sends -/
  | send
  /-- the `send` or `receive` of the controller throws -/
  | fail (targetExited : Bool)
  /-- the caller of the controller calls `query_status` or `stop` -/
  | call (stops : Bool)
  /-- the agent receives -/
  | take
  | start (outcome : StartOutcome)
  /-- `status` loads the state word -/
  | load
  /-- `status` returns and the agent sends it -/
  | reply (status : CaptureStatus)
  /-- the `send` or `receive` of the agent throws -/
  | leave
  /-- a thread of the target -/
  | run (a : RuntimeAction E)

variable {E : Type}

namespace SessionSystem

/-! ### Steps of the controller -/

def returns (s : SessionSystem E) (outcome : Outcome) : SessionSystem E :=
  { s with controller := .idle, returned := some outcome }

/-- `++next_request_id_` -/
def sends (s : SessionSystem E) (call : Call) : SessionSystem E :=
  { s with
      controller := .sending call
      nextRequestId := s.nextRequestId + 1
      returned := none }

/-- The state word as it is now. -/
def current (s : SessionSystem E) : List Lifecycle.AgentState :=
  s.system.toList.map fun system => system.runtime.state

def ask (s : SessionSystem E) (stage : ControllerStage) (request : Message) : SessionSystem E :=
  { s with controller := stage, exchange := s.exchange.ask request, since := s.current }

/-- The message goes out, or `encode_frame` throws. -/
def submit (s : SessionSystem E) (stage : ControllerStage) (request : Message)
    (refused : SessionSystem E) : SessionSystem E :=
  match encodeFrame request with
  | .ok _ => s.ask stage request
  | .error _ => refused

def send (setup : Setup) (s : SessionSystem E) : Option (SessionSystem E) :=
  match s.controller with
  | .starting helloId =>
      let refused := { s with controller := .rejected .protocol }
      match encodeStartCapture setup.start with
      | .ok payload => some (s.submit .preparing ⟨startCapture, helloId, payload⟩ refused)
      | .error _ => some refused
  | .sending call =>
      some (s.submit (.waiting call) ⟨call.request, s.nextRequestId, []⟩
        (s.returns (.failed .protocol)))
  | _ => none

/-- `query_status` after its answer. -/
def answerQuery (s : SessionSystem E) (response : Message) : SessionSystem E :=
  if response.type ≠ captureStatus then s.returns (.failed .protocol)
  else
    match decodeCaptureStatus response.payload with
    | .ok status => s.returns (.status status)
    | .error _ => s.returns (.failed .protocol)

/-- `stop` after its first answer. -/
def answerStop (s : SessionSystem E) (drained : Message) : SessionSystem E :=
  if drained.type ≠ captureDrained then s.returns (.failed .protocol)
  else
    match decodeCaptureStatus drained.payload with
    | .ok status => { s with lastStatus := some status }.sends .finalize
    | .error _ => s.returns (.failed .protocol)

/-- `stop` after its second answer. -/
def answerFinalize (s : SessionSystem E) (finalized : Message) : SessionSystem E :=
  if finalized.type ≠ captureFinalized then s.returns (.failed .protocol)
  else
    match decodeCaptureStatus finalized.payload with
    | .ok status =>
        { s with stopped := true, lastStatus := some status }.returns
          (if status.state = wireState .failed then .failed .writerError else .stopped status)
    | .error _ => s.returns (.failed .protocol)

def answer (s : SessionSystem E) (response : Message) : Call → SessionSystem E
  | .queryStatus => s.answerQuery response
  | .stop => s.answerStop response
  | .finalize => s.answerFinalize response

def receive (setup : Setup) (s : SessionSystem E) : Option (SessionSystem E) :=
  match s.controller with
  | .greeting =>
      match s.hello with
      | some hello => some { s with controller := setup.greet hello, hello := none }
      | none => none
  | .preparing =>
      match s.exchange.hear with
      | some (ready, exchange) => some { s with controller := prepare ready, exchange := exchange }
      | none => none
  | .waiting call =>
      match s.exchange.hear with
      | some (response, exchange) => some ({ s with exchange := exchange }.answer response call)
      | none => none
  | _ => none

/-- A `SocketError`, classified by whether the target is gone. -/
def sessionBroken (targetExited : Bool) : FailureKind :=
  if targetExited then .targetExit else .agentCrash

def fail (s : SessionSystem E) (targetExited : Bool) : Option (SessionSystem E) :=
  let kind := sessionBroken targetExited
  match s.controller with
  | .greeting | .starting _ => some { s with controller := .rejected kind }
  | .preparing => some { s with controller := .rejected kind, lost := true }
  | .sending _ => some (s.returns (.failed kind))
  | .waiting _ => some { s.returns (.failed kind) with lost := true }
  | _ => none

def call (s : SessionSystem E) (stops : Bool) : Option (SessionSystem E) :=
  match s.controller with
  | .idle =>
      if stops then
        match s.stopped, s.lastStatus with
        | true, some status => some (s.returns (.stopped status))
        | _, _ => some (s.sends .stop)
      else some (s.sends .queryStatus)
  | _ => none

/-! ### Steps of the agent -/

def greet (setup : Setup) (s : SessionSystem E) : Option (SessionSystem E) :=
  match s.agent with
  | .connected =>
      match encodeAgentHello setup.hello with
      | .ok payload =>
          some { s with agent := .awaitingStart, hello := some ⟨.agentHello, 1, payload⟩ }
      | .error _ => some { s with agent := .closed }
  | _ => none

def leave (s : SessionSystem E) : Option (SessionSystem E) :=
  match s.agent with
  | .handling => none
  | _ => some { s with agent := .closed }

section Threads

variable [DecidableEq E]

/-- The session thread enters `drain` or `finalize`. -/
def enter (s : SessionSystem E) (a : RuntimeAction E) : Option (SessionSystem E) :=
  match s.system with
  | some system =>
      match system.perform a with
      | some next => some { s with agent := .handling, system := some next }
      | none => none
  | none => none

/-- The `switch` of `serve_session`. -/
def dispatch (s : SessionSystem E) (request : Message) : Option (SessionSystem E) :=
  if request.type = queryStatus then some { s with agent := .handling }
  else if request.type = stopCapture then s.enter .stopCapture
  else if request.type = finalizeHooks then s.enter .finalizeHooks
  else some { s with agent := .closed }

def take (s : SessionSystem E) : Option (SessionSystem E) :=
  match s.exchange.take with
  | none => none
  | some (request, exchange) =>
      match s.agent with
      | .awaitingStart =>
          some { s with
                  exchange := exchange
                  agent := if request.type = startCapture then .starting else .closed }
      | .serving => { s with exchange := exchange }.dispatch request
      | _ => none

/-- `send_error` -/
def sendError (s : SessionSystem E) (start : Message) (error : ErrorResponse) : SessionSystem E :=
  match encodeErrorResponse error with
  | .ok payload =>
      { s with
          agent := .closed
          exchange := s.exchange.reply ⟨.error, start.requestId, payload⟩ }
  | .error _ => { s with agent := .closed }

def guardUnavailable : ErrorResponse :=
  ⟨agentStartErrorGeneric, 0, "hook guard runtime is unavailable".toUTF8.toList⟩

/-- `session_bootstrap` with the start request. -/
def begin (s : SessionSystem E) (start : Message) : StartOutcome → SessionSystem E
  | .unguarded => s.sendError start guardUnavailable
  | .fails error =>
      match decodeStartCapture start.payload with
      | .ok _ => s.sendError start error
      | .error _ => { s with agent := .closed }
  | .capturing =>
      match decodeStartCapture start.payload with
      | .ok request =>
          { s with
              agent := .handling
              system := some (.start (request.captureKind = .attach))
              since := s.since ++ [.capturing] }
      | .error _ => { s with agent := .closed }

def start (s : SessionSystem E) (outcome : StartOutcome) : Option (SessionSystem E) :=
  match s.agent, s.exchange.serving with
  | .starting, some start => some (s.begin start outcome)
  | _, _ => none

/-- The session thread is in none of the functions of the runtime. -/
def Rests (system : RuntimeSystem E) : Prop :=
  system.places .session = .serving ∨ system.places .session = .returned

instance (system : RuntimeSystem E) : Decidable (Rests system) :=
  inferInstanceAs (Decidable (_ ∨ _))

def load (s : SessionSystem E) : Option (SessionSystem E) :=
  match s.agent, s.system with
  | .handling, some system =>
      if Rests system then some { s with agent := .reporting system.runtime.state } else none
  | _, _ => none

def respond (s : SessionSystem E) (request : Message) (payload : Bytes) : SessionSystem E :=
  { s with
      agent := if request.type = finalizeHooks then .closed else .serving
      exchange := s.exchange.reply ⟨answerType request.type, request.requestId, payload⟩ }

def reply (s : SessionSystem E) (status : CaptureStatus) : Option (SessionSystem E) :=
  match s.agent, s.system, s.exchange.serving with
  | .reporting state, some system, some request =>
      if Reports system.runtime state status then
        match encodeCaptureStatus status with
        | .ok payload => some (s.respond request payload)
        | .error _ => some { s with agent := .closed }
      else none
  | _, _, _ => none

/-- The session thread acts within its functions only, the capture of a session has no
duration thread, and the session's own calls are steps of the agent. -/
def Acts (s : SessionSystem E) : RuntimeAction E → Prop
  | .advance .session _ => s.agent = .handling
  | .advance .duration _ | .elapse | .stopCapture | .finalizeHooks => False
  | .advance (.exit _) _ | .callExit _ => True

instance (s : SessionSystem E) (a : RuntimeAction E) : Decidable (s.Acts a) :=
  match a with
  | .advance .session _ => inferInstanceAs (Decidable (s.agent = .handling))
  | .advance .duration _ | .elapse | .stopCapture | .finalizeHooks => isFalse id
  | .advance (.exit _) _ | .callExit _ => isTrue trivial

def run (s : SessionSystem E) (a : RuntimeAction E) : Option (SessionSystem E) :=
  match s.system with
  | some system =>
      match system.perform a with
      | some next =>
          some { s with system := some next, since := s.since ++ [next.runtime.state] }
      | none => none
  | none => none

def perform (setup : Setup) (s : SessionSystem E) : SessionAction E → Option (SessionSystem E)
  | .greet => s.greet setup
  | .receive => s.receive setup
  | .send => s.send setup
  | .fail targetExited => s.fail targetExited
  | .call stops => s.call stops
  | .take => s.take
  | .start outcome => s.start outcome
  | .load => s.load
  | .reply status => s.reply status
  | .leave => s.leave
  | .run a => s.run a

def Orderly (s : SessionSystem E) : SessionAction E → Prop
  | .run a => s.Acts a
  | _ => True

instance (s : SessionSystem E) (a : SessionAction E) : Decidable (s.Orderly a) :=
  match a with
  | .run a => inferInstanceAs (Decidable (s.Acts a))
  | .greet | .receive | .send | .fail _ | .call _ | .take | .start _ | .load | .reply _
  | .leave => isTrue trivial

/-- Any order of the steps of the two parties, of the caller and of the target. -/
inductive Run (setup : Setup) : SessionSystem E → Prop
  | start : Run setup {}
  | step {s u} (a : SessionAction E) (hrun : Run setup s) (horderly : s.Orderly a)
      (hstep : s.perform setup a = some u) : Run setup u

end Threads

end SessionSystem

end Noleax.Session
