import Mathlib.Data.Nat.Bitwise
import Mathlib.Logic.Function.Basic
import Noleax.Trace.Event

/-!
# `BoundedMpscQueue` (`include/noleax/agent/bounded_mpsc_queue.hpp`)

`producerStep` and `consumerStep` run one atomic access of `try_emplace` and
`try_pop` each; the local computation up to the next access belongs to the same
step. `QueueStep` interleaves any number of producers with one consumer. A slot
whose value is `none` holds no complete event.
-/

namespace Noleax.Queue

open Trace

/-- `validate_capacity`. -/
abbrev ValidCapacity (capacity : ℕ) : Prop :=
  2 ≤ capacity ∧ capacity &&& (capacity - 1) = 0 ∧ capacity ≤ maxU64 / 2

/-- Subtraction of 64-bit words. -/
def subU64 (a b : ℕ) : ℕ := (a + 2 ^ 64 - b) % 2 ^ 64

/-- `position & mask_` -/
def slotIndex (capacity position : ℕ) : ℕ := position &&& (capacity - 1)

variable {α : Type} {P : Type}

structure Slot (α : Type) where
  sequence : ℕ := 0
  value : Option (α × ℕ) := none

/-- The members of the queue. -/
structure Memory (α : Type) where
  enqueue : ℕ := 0
  dequeue : ℕ := 0
  dropped : ℕ := 0
  highWater : ℕ := 0
  touchedWatermark : ℕ := 0
  slots : ℕ → Slot α := fun _ => {}

def Memory.setSequence (mem : Memory α) (i sequence : ℕ) : Memory α :=
  { mem with slots := Function.update mem.slots i { mem.slots i with sequence := sequence } }

def Memory.setValue (mem : Memory α) (i : ℕ) (value : Option (α × ℕ)) : Memory α :=
  { mem with slots := Function.update mem.slots i { mem.slots i with value := value } }

/-! ## `try_emplace` -/

/-- Where a producer is; the name says what it does next. -/
inductive Producer (α : Type) where
  | idle
  /-- load `enqueue_` -/
  | start (payload : α)
  /-- load the slot's sequence -/
  | reading (payload : α) (position : ℕ)
  /-- compare-exchange `enqueue_` -/
  | claiming (payload : α) (position : ℕ)
  /-- `note_touched`: load `touched_watermark_` -/
  | touching (payload : α) (position : ℕ)
  /-- `note_touched`: compare-exchange `touched_watermark_` -/
  | raising (payload : α) (position watermark : ℕ)
  /-- begin to write the event -/
  | filling (payload : α) (position : ℕ)
  /-- finish writing the event -/
  | storing (payload : α) (position : ℕ)
  /-- store the slot's sequence -/
  | publishing (payload : α) (position : ℕ)
  /-- `note_drop`: load `high_water_` -/
  | dropping
  /-- `note_drop`: compare-exchange `high_water_` -/
  | pinning (high : ℕ)
  /-- `note_drop`: load `dropped_` -/
  | counting
  /-- `note_drop`: compare-exchange `dropped_` -/
  | adding (current : ℕ)

/-- What a step of a producer means to its caller. -/
inductive Mark (α : Type) where
  | reserved (payload : α)
  | returnedTrue (position : ℕ)
  | returnedFalse

/-- The top of the loop: an exhausted position space drops the event. -/
def atLoop (payload : α) (position : ℕ) : Producer α :=
  if position = maxU64 then .dropping else .reading payload position

/-- The loop of `note_touched`. -/
def atWatermark (payload : α) (position watermark : ℕ) : Producer α :=
  if watermark < position + 1 then .raising payload position watermark
  else .filling payload position

/-- The first loop of `note_drop`. -/
def atHighWater (capacity high : ℕ) : Producer α :=
  if high < capacity then .pinning high else .counting

/-- The second loop of `note_drop`: a saturated counter stays. -/
def atDropped (current : ℕ) : Producer α × Option (Mark α) :=
  if current = maxU64 then (.idle, some .returnedFalse) else (.adding current, none)

/-- One atomic step of `try_emplace`; a weak compare-exchange may fail for no
reason. -/
def producerStep (capacity : ℕ) (mem : Memory α) (spurious : Bool) :
    Producer α → Memory α × Producer α × Option (Mark α)
  | .idle => (mem, .idle, none)
  | .start payload => (mem, atLoop payload mem.enqueue, none)
  | .reading payload position =>
      let index := slotIndex capacity position
      let distance := subU64 (mem.slots index).sequence (position - index)
      if distance = 0 then (mem, .claiming payload position, none)
      else if maxU64 / 2 < distance then (mem, .dropping, none)
      else (mem, .start payload, none)
  | .claiming payload position =>
      if mem.enqueue = position ∧ spurious = false then
        ({ mem with enqueue := position + 1 },
          if position < capacity then .touching payload position else .filling payload position,
          some (.reserved payload))
      else (mem, atLoop payload mem.enqueue, none)
  | .touching payload position => (mem, atWatermark payload position mem.touchedWatermark, none)
  | .raising payload position watermark =>
      if mem.touchedWatermark = watermark ∧ spurious = false then
        ({ mem with touchedWatermark := position + 1 }, .filling payload position, none)
      else (mem, atWatermark payload position mem.touchedWatermark, none)
  | .filling payload position =>
      (mem.setValue (slotIndex capacity position) none, .storing payload position, none)
  | .storing payload position =>
      (mem.setValue (slotIndex capacity position) (some (payload, position + 1)),
        .publishing payload position, none)
  | .publishing _ position =>
      let index := slotIndex capacity position
      (mem.setSequence index (position + 1 - index), .idle, some (.returnedTrue position))
  | .dropping => (mem, atHighWater capacity mem.highWater, none)
  | .pinning high =>
      if mem.highWater = high ∧ spurious = false then
        ({ mem with highWater := capacity }, .counting, none)
      else (mem, atHighWater capacity mem.highWater, none)
  | .counting => (mem, atDropped mem.dropped)
  | .adding current =>
      if mem.dropped = current ∧ spurious = false then
        ({ mem with dropped := current + 1 }, .idle, some .returnedFalse)
      else (mem, atDropped mem.dropped)

/-! ## `try_pop` -/

inductive Consumer (α : Type) where
  | idle
  /-- load `dequeue_` -/
  | start
  /-- load the slot's sequence -/
  | looking (position : ℕ)
  /-- `note_occupancy_high_water`: load `enqueue_` -/
  | sampling (position : ℕ)
  /-- `note_occupancy_high_water`: load `high_water_` -/
  | comparing (position depth : ℕ)
  /-- `note_occupancy_high_water`: compare-exchange `high_water_` -/
  | raising (position depth high : ℕ)
  /-- copy the event -/
  | copying (position : ℕ)
  /-- store the slot's sequence -/
  | freeing (position : ℕ) (value : Option (α × ℕ))
  /-- store `dequeue_` -/
  | finishing (position : ℕ) (value : Option (α × ℕ))

/-- The loop of `note_occupancy_high_water`. -/
def atOccupancy (position depth high : ℕ) : Consumer α :=
  if high < depth then .raising position depth high else .copying position

/-- One atomic step of `try_pop`; the last component is the value it returns. -/
def consumerStep (capacity : ℕ) (mem : Memory α) (spurious : Bool) :
    Consumer α → Memory α × Consumer α × Option (Option (α × ℕ))
  | .idle => (mem, .idle, none)
  | .start =>
      (mem, if mem.dequeue = maxU64 then .idle else .looking mem.dequeue, none)
  | .looking position =>
      let index := slotIndex capacity position
      (mem, if (mem.slots index).sequence ≠ position + 1 - index then .idle
        else .sampling position, none)
  | .sampling position => (mem, .comparing position (subU64 mem.enqueue position), none)
  | .comparing position depth => (mem, atOccupancy position depth mem.highWater, none)
  | .raising position depth high =>
      if mem.highWater = high ∧ spurious = false then
        ({ mem with highWater := depth }, .copying position, none)
      else (mem, atOccupancy position depth mem.highWater, none)
  | .copying position =>
      (mem, .freeing position (mem.slots (slotIndex capacity position)).value, none)
  | .freeing position value =>
      let index := slotIndex capacity position
      (mem.setSequence index (subU64 ((position + capacity) % 2 ^ 64) index),
        .finishing position value, none)
  | .finishing position value =>
      ({ mem with dequeue := position + 1 }, .idle, some value)

/-! ## `reset_quiescent` -/

def Memory.resetQuiescent (mem : Memory α) : Memory α :=
  { slots := fun i =>
      if i < mem.touchedWatermark then { mem.slots i with sequence := 0 } else mem.slots i }

/-! ## Interleavings -/

/-- The queue, its threads, and what has happened so far: the payloads in
reservation order, the positions of the calls that returned true, the popped
values, and the calls that returned false since the drop counter was last taken. -/
structure System (P α : Type) where
  mem : Memory α := {}
  producers : P → Producer α := fun _ => .idle
  consumer : Consumer α := .idle
  reserved : List α := []
  returned : List ℕ := []
  popped : List (Option (α × ℕ)) := []
  drops : ℕ := 0

variable [DecidableEq P]

/-- Put a producer into another state. -/
def System.setProducer (s : System P α) (p : P) (state : Producer α) : System P α :=
  { s with producers := Function.update s.producers p state }

/-- Write down what the step meant. -/
def System.mark (s : System P α) : Option (Mark α) → System P α
  | none => s
  | some (.reserved payload) => { s with reserved := s.reserved ++ [payload] }
  | some (.returnedTrue position) => { s with returned := s.returned ++ [position] }
  | some .returnedFalse => { s with drops := s.drops + 1 }

def System.runProducer (capacity : ℕ) (s : System P α) (p : P) (spurious : Bool) : System P α :=
  let (mem, state, mark) := producerStep capacity s.mem spurious (s.producers p)
  ({ s with mem := mem }.setProducer p state).mark mark

def System.runConsumer (capacity : ℕ) (s : System P α) (spurious : Bool) : System P α :=
  let (mem, state, value) := consumerStep capacity s.mem spurious s.consumer
  { s with
    mem := mem
    consumer := state
    popped := s.popped ++ value.toList }

/-- No thread is inside the queue. -/
abbrev System.Quiescent (s : System P α) : Prop :=
  (∀ p, s.producers p = .idle) ∧ s.consumer = .idle

inductive QueueStep (capacity : ℕ) : System P α → System P α → Prop
  /-- A producer calls `try_emplace`. -/
  | call {s} (p : P) (payload : α) (h : s.producers p = .idle) :
      QueueStep capacity s (s.setProducer p (.start payload))
  | producer {s} (p : P) (spurious : Bool) : QueueStep capacity s (s.runProducer capacity p spurious)
  /-- The consumer calls `try_pop`. -/
  | pop {s} (h : s.consumer = .idle) : QueueStep capacity s { s with consumer := .start }
  | consumer {s} (spurious : Bool) : QueueStep capacity s (s.runConsumer capacity spurious)
  /-- `take_dropped_count` -/
  | takeDropped {s} :
      QueueStep capacity s { s with mem := { s.mem with dropped := 0 }, drops := 0 }
  | reset {s} (h : s.Quiescent) :
      QueueStep capacity s
        { mem := s.mem.resetQuiescent
          producers := s.producers
          consumer := s.consumer }

/-- The states of the queue in any interleaving. -/
inductive Reachable (capacity : ℕ) : System P α → Prop
  | init : Reachable capacity {}
  | step {s s' : System P α} (h : Reachable capacity s) (hstep : QueueStep capacity s s') :
      Reachable capacity s'

end Noleax.Queue
