import Mathlib.Logic.Function.Basic
import Noleax.Trace.Event

/-!
# Replacement calls and their quiescence (`agent/replacement_lifecycle.hpp`)

Every hooked function runs a replacement, which passes the process-wide gate and
the lifecycle of its hook on the way in and leaves both on the way out. Steps are
the sequentially consistent atomic operations, each named by the state before it.

A thread whose replacement calls another hooked function is inside two calls at
once, so a process here is one call; that allows every schedule of the threads
and more. The two epochs only decide when a sleeper looks again, and a sleeper
here may look again at any time.
-/

namespace Noleax.Lifecycle

inductive ReplacementRoute where
  | target | original | record
deriving DecidableEq, Repr

/-- The counters of the gate, and of each lifecycle `l`. -/
inductive Counter (L : Type) where
  | gateTransitions
  | activeCalls
  | gateWaiters
  | entryTransitions (l : L)
  | inFlight (l : L)
  | recordingInFlight (l : L)
deriving DecidableEq

structure Shared (L : Type) where
  counters : Counter L → ℕ := fun _ => 0
  gateClosed : Bool := false
  route : L → ReplacementRoute := fun _ => .target

variable {L : Type} [DecidableEq L]

/-! ## `enter_unscoped` and `leave_unscoped` -/

inductive Stage where
  /-- `enter_replacement_gate`: an exempt call increments the active calls, any other
  the gate transitions -/
  | approaching
  /-- load `replacement_gate_closed` -/
  | testing
  /-- the gate was open: increment the active calls -/
  | admitting
  /-- decrement the gate transitions -/
  | settling
  /-- the gate was closed: decrement the gate transitions -/
  | refusing
  /-- increment the gate waiters -/
  | queueing
  /-- the parking loop: load `replacement_gate_closed` -/
  | parked
  /-- decrement the gate waiters -/
  | waking
  /-- increment the entry transitions -/
  | entering
  /-- load `route_` -/
  | routing
  /-- increment `in_flight_` -/
  | joining (route : ReplacementRoute)
  /-- increment `recording_in_flight_` -/
  | recording
  /-- decrement the entry transitions -/
  | returning (route : ReplacementRoute)
  /-- between `enter_unscoped` and `leave_unscoped` -/
  | inside (route : ReplacementRoute)
  /-- `leave_unscoped`: decrement `recording_in_flight_` -/
  | unrecording
  /-- decrement `in_flight_` -/
  | departing (route : ReplacementRoute)
  /-- `leave_replacement_gate`: decrement the active calls -/
  | releasing
  /-- about to call `std::terminate` -/
  | terminating
deriving DecidableEq, Repr

/-- A call of a replacement. It is exempt from the gate when its thread has a hook
depth, or an internal depth of the coordinator. -/
structure Call (L : Type) where
  lifecycle : L
  exempt : Bool
  stage : Stage
deriving DecidableEq

def Shared.set (mem : Shared L) (counter : Counter L) (value : ℕ) : Shared L :=
  { mem with counters := Function.update mem.counters counter value }

/-- `fetch_add(1)`; a counter that wraps terminates the process. -/
def Shared.increment (mem : Shared L) (counter : Counter L) (next : Stage) :
    Shared L × Option Stage :=
  if mem.counters counter = maxU64 then (mem.set counter 0, some .terminating)
  else (mem.set counter (mem.counters counter + 1), some next)

/-- `fetch_sub(1)`; a counter that wraps terminates the process. -/
def Shared.decrement (mem : Shared L) (counter : Counter L) (next : Option Stage) :
    Shared L × Option Stage :=
  if mem.counters counter = 0 then (mem.set counter maxU64, some .terminating)
  else (mem.set counter (mem.counters counter - 1), next)

/-- `fetch_sub(1)` without a check, as the entry transitions are decremented. -/
def Shared.withdraw (mem : Shared L) (counter : Counter L) (next : Stage) :
    Shared L × Option Stage :=
  (mem.set counter (if mem.counters counter = 0 then maxU64 else mem.counters counter - 1),
    some next)

/-- The next atomic step of a call; `none` when the replacement has left. -/
def callStep (mem : Shared L) (l : L) (exempt : Bool) : Stage → Shared L × Option Stage
  | .approaching =>
      if exempt then mem.increment .activeCalls .entering
      else mem.increment .gateTransitions .testing
  | .testing => (mem, some (if mem.gateClosed then .refusing else .admitting))
  | .admitting => mem.increment .activeCalls .settling
  | .settling => mem.decrement .gateTransitions (some .entering)
  | .refusing => mem.decrement .gateTransitions (some .queueing)
  | .queueing => mem.increment .gateWaiters .parked
  | .parked => (mem, some (if mem.gateClosed then .parked else .waking))
  | .waking => mem.decrement .gateWaiters (some .approaching)
  | .entering => mem.increment (.entryTransitions l) .routing
  | .routing => (mem, some (.joining (mem.route l)))
  | .joining route =>
      mem.increment (.inFlight l) (if route = .record then .recording else .returning route)
  | .recording => mem.increment (.recordingInFlight l) (.returning .record)
  | .returning route => mem.withdraw (.entryTransitions l) (.inside route)
  | .inside route => (mem, some (if route = .record then .unrecording else .departing route))
  | .unrecording => mem.decrement (.recordingInFlight l) (some (.departing .record))
  | .departing _ => mem.decrement (.inFlight l) (some .releasing)
  | .releasing => mem.decrement .activeCalls none
  | .terminating => (mem, some .terminating)

/-! ## `wait_until_quiescent` -/

inductive WaitKind (L : Type) where
  /-- `close_and_wait` -/
  | gate
  /-- `wait_for_drain` -/
  | drain
  | quiescence (l : L)
  | recordingQuiescence (l : L)
deriving DecidableEq

/-- The counters a condition loads, in order. -/
def WaitKind.watched : WaitKind L → List (Counter L)
  | .gate => [.gateTransitions, .activeCalls]
  | .drain => [.gateWaiters, .gateTransitions, .activeCalls]
  | .quiescence l => [.entryTransitions l, .inFlight l]
  | .recordingQuiescence l => [.entryTransitions l, .recordingInFlight l]

/-- Which evaluation of the condition: before the loop, in it, or past the deadline. -/
inductive Round where
  | first | loop | final
deriving DecidableEq, Repr

inductive Waiter (L : Type) where
  | idle
  /-- evaluate the condition: load the counters `rest` -/
  | checking (kind : WaitKind L) (round : Round) (rest : List (Counter L))
  /-- registered, asleep or about to look again -/
  | sleeping (kind : WaitKind L)
  | finishing (kind : WaitKind L) (result : Bool)
deriving DecidableEq

/-- The condition was false. -/
def Waiter.missed (kind : WaitKind L) (expired : Bool) : Round → Waiter L
  | .first => .sleeping kind
  | .loop => if expired then .checking kind .final kind.watched else .sleeping kind
  | .final => .finishing kind false

/-- One step of a wait; `expired` tells whether the deadline has passed. -/
def waitStep (mem : Shared L) (expired : Bool) : Waiter L → Waiter L
  | .idle => .idle
  | .checking kind _ [] => .finishing kind true
  | .checking kind round (counter :: rest) =>
      if mem.counters counter = 0 then
        if rest = [] then .finishing kind true else .checking kind round rest
      else .missed kind expired round
  | .sleeping kind => .checking kind .loop kind.watched
  | .finishing kind result => .finishing kind result

/-! ## Interleavings -/

structure System (C W L : Type) where
  mem : Shared L := {}
  calls : C → Option (Call L) := fun _ => none
  waiters : W → Waiter L := fun _ => .idle

inductive Action (C W L : Type) where
  /-- a thread calls a replacement of the lifecycle -/
  | call (c : C) (l : L) (exempt : Bool)
  | advance (c : C)
  /-- `start_recording`, `stop_recording` and `route_to_target` -/
  | setRoute (l : L) (route : ReplacementRoute)
  | wait (w : W) (kind : WaitKind L)
  /-- the store of `close_and_wait`, after which it waits -/
  | closeGate (w : W)
  | openGate
  | look (w : W) (expired : Bool)
  | returned (w : W) (kind : WaitKind L) (result : Bool)

variable {C W : Type} [DecidableEq C] [DecidableEq W]

/-- Move a call to its next stage. -/
def System.advance (s : System C W L) (c : C) (call : Call L) : System C W L :=
  let next := callStep s.mem call.lifecycle call.exempt call.stage
  { s with
    mem := next.1
    calls := Function.update s.calls c (next.2.map fun stage => { call with stage := stage }) }

def System.setWaiter (s : System C W L) (w : W) (waiter : Waiter L) : System C W L :=
  { s with waiters := Function.update s.waiters w waiter }

inductive Step : System C W L → Action C W L → System C W L → Prop
  | call {s} (c : C) (l : L) (exempt : Bool) (h : s.calls c = none) :
      Step s (.call c l exempt)
        { s with calls := Function.update s.calls c (some ⟨l, exempt, .approaching⟩) }
  | advance {s} (c : C) (call : Call L) (h : s.calls c = some call) :
      Step s (.advance c) (s.advance c call)
  | setRoute {s} (l : L) (route : ReplacementRoute) :
      Step s (.setRoute l route)
        { s with mem := { s.mem with route := Function.update s.mem.route l route } }
  | wait {s} (w : W) (kind : WaitKind L) (h : s.waiters w = .idle) (hkind : kind ≠ .gate) :
      Step s (.wait w kind) (s.setWaiter w (.checking kind .first kind.watched))
  | closeGate {s} (w : W) (h : s.waiters w = .idle) :
      Step s (.closeGate w)
        ({ s with mem := { s.mem with gateClosed := true } }.setWaiter w
          (.checking .gate .first WaitKind.gate.watched))
  | openGate {s} :
      Step s .openGate { s with mem := { s.mem with gateClosed := false } }
  | look {s} (w : W) (expired : Bool) :
      Step s (.look w expired) (s.setWaiter w (waitStep s.mem expired (s.waiters w)))
  | returned {s} (w : W) (kind : WaitKind L) (result : Bool)
      (h : s.waiters w = .finishing kind result) :
      Step s (.returned w kind result) (s.setWaiter w .idle)

/-- The step an action takes, where it can be taken. -/
def System.perform (s : System C W L) : Action C W L → Option (System C W L)
  | .call c l exempt =>
      match s.calls c with
      | none => some { s with calls := Function.update s.calls c (some ⟨l, exempt, .approaching⟩) }
      | some _ => none
  | .advance c => (s.calls c).map (s.advance c)
  | .setRoute l route =>
      some { s with mem := { s.mem with route := Function.update s.mem.route l route } }
  | .wait w kind =>
      if s.waiters w = .idle ∧ kind ≠ .gate then
        some (s.setWaiter w (.checking kind .first kind.watched))
      else none
  | .closeGate w =>
      if s.waiters w = .idle then
        some ({ s with mem := { s.mem with gateClosed := true } }.setWaiter w
          (.checking .gate .first WaitKind.gate.watched))
      else none
  | .openGate => some { s with mem := { s.mem with gateClosed := false } }
  | .look w expired => some (s.setWaiter w (waitStep s.mem expired (s.waiters w)))
  | .returned w kind result =>
      if s.waiters w = .finishing kind result then some (s.setWaiter w .idle) else none

theorem step_of_perform {s t : System C W L} {a : Action C W L} (h : s.perform a = some t) :
    Step s a t := by
  cases a with
  | call c l exempt =>
      simp only [System.perform] at h
      split at h
      · rename_i hfree
        cases h
        exact .call c l exempt hfree
      · cases h
  | advance c =>
      obtain ⟨call, hcall, rfl⟩ := Option.map_eq_some_iff.mp h
      exact .advance c call hcall
  | setRoute l route =>
      cases h
      exact .setRoute l route
  | wait w kind =>
      obtain ⟨⟨hidle, hkind⟩, heq⟩ := Option.ite_none_right_eq_some.mp h
      cases heq
      exact .wait w kind hidle hkind
  | closeGate w =>
      obtain ⟨hidle, heq⟩ := Option.ite_none_right_eq_some.mp h
      cases heq
      exact .closeGate w hidle
  | openGate =>
      cases h
      exact .openGate
  | look w expired =>
      cases h
      exact .look w expired
  | returned w kind result =>
      obtain ⟨hdone, heq⟩ := Option.ite_none_right_eq_some.mp h
      cases heq
      exact .returned w kind result hdone

/-- Any interleaving, with the actions it takes. -/
inductive Run : System C W L → List (Action C W L) → System C W L → Prop
  | nil {s} : Run s [] s
  | cons {s t u} {a : Action C W L} {as : List (Action C W L)} (hstep : Step s a t)
      (hrest : Run t as u) : Run s (a :: as) u

theorem run_of_perform {s t : System C W L} {as : List (Action C W L)}
    (h : as.foldlM System.perform s = some t) : Run s as t := by
  induction as generalizing s with
  | nil =>
      cases h
      exact .nil
  | cons a as ih =>
      rw [List.foldlM_cons] at h
      obtain ⟨u, hstep, hrest⟩ := Option.bind_eq_some_iff.mp h
      exact .cons (step_of_perform hstep) (ih hrest)

/-- A call has found a counter at its limit; the process is about to end. -/
def System.Terminating (s : System C W L) : Prop :=
  ∃ c call, s.calls c = some call ∧ call.stage = .terminating

/-- A call has returned from `enter_unscoped` with the route and not yet called
`leave_unscoped`. -/
def System.Holds (s : System C W L) (c : C) (l : L) (route : ReplacementRoute) : Prop :=
  ∃ exempt, s.calls c = some ⟨l, exempt, .inside route⟩

/-- Past `enter_replacement_gate` and not yet at `leave_replacement_gate`. -/
def Stage.PastGate : Stage → Prop
  | .entering | .routing | .joining _ | .recording | .returning _ | .inside _ | .unrecording
  | .departing _ => True
  | _ => False

/-- A call that had to pass the gate is between entering and leaving it. -/
def System.PastGate (s : System C W L) (c : C) : Prop :=
  ∃ l stage, s.calls c = some ⟨l, false, stage⟩ ∧ stage.PastGate

end Noleax.Lifecycle
