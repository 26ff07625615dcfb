import Noleax.Agent.ModuleTracker

/-!
# The writer and its module tracker (`agent/linux/trace_writer.cpp`)

`drain_modules_through` with the members it works on, and the steps of `capture_loop`
that poll and drain the tracker, in any order.
-/

namespace Noleax.Agent

open Lib Trace

/-- The members of the writer, with `module_tracker_` and `pending_module_event_`. -/
structure TrackedWriter where
  tracker : ModuleTracker
  writer : LinuxTraceWriter
  pendingModuleEvent : Option RawModuleEvent := none

abbrev TrackedM := EStateM Error TrackedWriter

namespace TrackedWriter

variable (options : WriterOptions)

/-- A member function that leaves the tracker alone. -/
def onWriter {α : Type} (x : WriterM α) : TrackedM α := fun t =>
  match x t.writer with
  | .ok a writer => .ok a { t with writer := writer }
  | .error e writer => .error e { t with writer := writer }

/-! ## `drain_modules_through` -/

/-- The event that waits in `pending_module_event_`, taken from the queue if there is none. -/
def awaitModuleEvent : TrackedM (Option RawModuleEvent) := do
  let t ← get
  match t.pendingModuleEvent with
  | some event => return some event
  | none =>
      match t.tracker.tryDequeue with
      | none => return none
      | some (event, tracker) => do
          set { t with tracker := tracker, pendingModuleEvent := some event }
          return some event

/-- One repetition of the loop; false when it returns. -/
def drainModule (maximumTicks : ℕ) : TrackedM Bool := do
  match ← awaitModuleEvent with
  | none => return false
  | some event =>
      if maximumTicks < event.monotonicTicks then return false
      else do
        onWriter (LinuxTraceWriter.processModuleEvent options event)
        modify fun t => { t with pendingModuleEvent := none }
        return true

def drainRounds (maximumTicks : ℕ) : ℕ → TrackedM Unit
  | 0 => pure ()
  | rounds + 1 => do
      if ← drainModule options maximumTicks then drainRounds maximumTicks rounds

/-- `drain_modules_through`; every repetition but the last takes an event that was
waiting. -/
def drainModulesThrough (maximumTicks : ℕ) : TrackedM Unit := do
  let t ← get
  drainRounds options maximumTicks (t.tracker.pending.count + 2)

/-! ## The capture loop -/

def collectModuleDrops : TrackedM Unit := do
  let t ← get
  let taken := t.tracker.takeDroppedEventCount
  set { t with tracker := taken.2 }
  onWriter (LinuxTraceWriter.collectModuleDrops taken.1)

/-- The modules of the construction, before anything else. -/
def processInitialModules : TrackedM Unit := do
  let t ← get
  t.tracker.initial.forM fun event =>
    onWriter (LinuxTraceWriter.processModuleEvent options event)
  collectModuleDrops

/-- What the capture loop does; `now` are the readings of the clock during a poll. -/
inductive TrackedAction where
  | poll (now : ℕ → ℕ) (infos : List DlPhdrInfo)
  | pollFailed
  | event (raw : LinuxHeapEvent)
  | drain
  | moduleDrops
  | queueDrops (count : ℕ)
  | flushTick
  | memory (now : ℕ) (samples : List (ℕ → MemoryRecord))

def perform (mainExecutablePath : Bytes) : TrackedAction → TrackedM Unit
  | .poll now infos => modify fun t =>
      { t with tracker := t.tracker.poll now (takeSnapshot mainExecutablePath infos) }
  | .pollFailed => modify fun t => { t with tracker := t.tracker.pollFailed }
  | .event raw => do
      drainModulesThrough options raw.monotonicTicks
      onWriter (LinuxTraceWriter.processEvent options raw)
  | .drain => drainModulesThrough options maxU64
  | .moduleDrops => collectModuleDrops
  | .queueDrops count => onWriter (LinuxTraceWriter.collectQueueDrops count)
  | .flushTick => onWriter (LinuxTraceWriter.perform options .flushTick)
  | .memory now samples => onWriter (LinuxTraceWriter.captureMemorySnapshot options now samples)

/-- The constructors of the tracker and of the writer. -/
def start (trackerOrigin queueCapacity : ℕ) (snapshot : List ModuleIdentity) : TrackedWriter where
  tracker := .start trackerOrigin queueCapacity snapshot
  writer := .start options

def capture (mainExecutablePath : Bytes) (baselines : List LinuxTraceWriter.MemoryBaseline)
    (actions : List TrackedAction) : TrackedM Unit := do
  onWriter (LinuxTraceWriter.beginCapture options baselines)
  processInitialModules options
  actions.forM (perform options mainExecutablePath)

/-! ## The drain -/

/-- The events that wait, the oldest first. -/
def waiting (t : TrackedWriter) : List RawModuleEvent :=
  t.pendingModuleEvent.toList ++ t.tracker.pending.contents

variable {options} {t t' : TrackedWriter}

theorem onWriter_ok {α : Type} {x : WriterM α} {a : α} (h : onWriter x t = .ok a t') :
    x t.writer = .ok a t'.writer ∧ t'.tracker = t.tracker ∧
      t'.pendingModuleEvent = t.pendingModuleEvent := by
  unfold onWriter at h
  cases hx : x t.writer with
  | ok b writer =>
      rw [hx] at h
      cases h
      exact ⟨rfl, rfl, rfl⟩
  | error e writer =>
      rw [hx] at h
      cases h

theorem onWriter_error {α : Type} {x : WriterM α} {e : Error} (h : onWriter x t = .error e t') :
    x t.writer = .error e t'.writer := by
  unfold onWriter at h
  cases hx : x t.writer with
  | ok b writer =>
      rw [hx] at h
      cases h
  | error e' writer =>
      rw [hx] at h
      cases h
      rfl

/-- The tracker without its queue. -/
structure SameTracker (t t' : TrackedWriter) : Prop where
  live : t'.tracker.live = t.tracker.live
  dropped : t'.tracker.dropped = t.tracker.dropped

theorem awaitModuleEvent_ok {found : Option RawModuleEvent}
    (h : awaitModuleEvent t = .ok found t') :
    t'.writer = t.writer ∧ SameTracker t t' ∧ t'.waiting = t.waiting ∧
      t'.pendingModuleEvent = found ∧ (found = none → t.waiting = []) := by
  unfold awaitModuleEvent at h
  rw [run_bind_eq_ok] at h
  obtain ⟨_, _, hget, h⟩ := h
  obtain ⟨rfl, rfl⟩ := run_get_eq_ok.mp hget
  cases hpending : t.pendingModuleEvent with
  | some event =>
      rw [hpending] at h
      obtain ⟨rfl, rfl⟩ := run_pure_eq_ok.mp h
      exact ⟨rfl, ⟨rfl, rfl⟩, rfl, hpending, fun hnone => by cases hnone⟩
  | none =>
      rw [hpending] at h
      cases hdequeue : t.tracker.tryDequeue with
      | none =>
          rw [hdequeue] at h
          obtain ⟨rfl, rfl⟩ := run_pure_eq_ok.mp h
          refine ⟨rfl, ⟨rfl, rfl⟩, rfl, hpending, fun _ => ?_⟩
          unfold waiting
          rw [hpending, ModuleTracker.tryDequeue_none hdequeue]
          rfl
      | some taken =>
          rw [hdequeue] at h
          obtain ⟨_, m, hset, h⟩ := run_bind_eq_ok.mp h
          obtain rfl := run_set_eq_ok.mp hset
          obtain ⟨rfl, rfl⟩ := run_pure_eq_ok.mp h
          obtain ⟨hcontents, hlive, -, hdropped⟩ := ModuleTracker.tryDequeue_some hdequeue
          refine ⟨rfl, ⟨hlive, hdropped⟩, ?_, rfl, fun hnone => by cases hnone⟩
          unfold waiting
          rw [hpending, hcontents]
          rfl

/-- Waiting for an event cannot fail. -/
theorem awaitModuleEvent_raises {P : Error → Prop} : Raises P awaitModuleEvent := by
  unfold awaitModuleEvent
  refine raises_get.bind fun t => ?_
  cases t.pendingModuleEvent with
  | some event => exact raises_pure _
  | none =>
      cases t.tracker.tryDequeue with
      | none => exact raises_pure _
      | some taken => exact (raises_set _).bind fun _ => raises_pure _

end TrackedWriter

end Noleax.Agent
