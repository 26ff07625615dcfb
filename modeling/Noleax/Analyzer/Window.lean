import Noleax.Analyzer.TraceTime
import Noleax.Trace.Event

/-!
# Analysis windows (`src/analyzer/window.cpp`)

The endpoints of a window: a relative time, an event sequence, or both.
-/

namespace Noleax.Analyzer

open Lib Trace

structure WindowBound where
  time : Option ℤ := none
  sequence : Option ℕ := none
deriving DecidableEq, Repr

/-- Whether the comparison with the time of a bound, if it has one, is as asked. -/
def WindowBound.timeHolds (bound : WindowBound) (header : FileHeader) (ticks : ℕ)
    (asked : Ordering → Bool) : Except TraceTimeError Bool :=
  match bound.time with
  | none => return true
  | some time => do return asked (← compareTraceTime ticks header time)

/-- Whether the sequence of a bound, if it has one, is as asked. -/
def WindowBound.sequenceHolds (bound : WindowBound) (asked : ℕ → Bool) : Bool :=
  match bound.sequence with
  | none => true
  | some sequence => asked sequence

def windowAtOrAfter (bound : WindowBound) (header : FileHeader) (event : Event) :
    Except TraceTimeError Bool := do
  if !(← bound.timeHolds header event.header.monotonicTicks (· ≠ .lt)) then return false
  else return bound.sequenceHolds (· ≤ event.header.sequence)

def windowBefore (bound : WindowBound) (header : FileHeader) (event : Event) :
    Except TraceTimeError Bool := do
  if !(← bound.timeHolds header event.header.monotonicTicks (· = .lt)) then return false
  else return bound.sequenceHolds (event.header.sequence < ·)

def windowAtOrBefore (bound : WindowBound) (header : FileHeader) (event : Event) :
    Except TraceTimeError Bool := do
  if !(← bound.timeHolds header event.header.monotonicTicks (· ≠ .gt)) then return false
  else return bound.sequenceHolds (event.header.sequence ≤ ·)

def windowBoundEmpty (bound : WindowBound) : Bool := bound.time = none && bound.sequence = none

def windowBoundsInOrder (lower upper : WindowBound) : Bool :=
  (match lower.time, upper.time with
    | some first, some last => first ≤ last
    | _, _ => true) &&
  match lower.sequence, upper.sequence with
    | some first, some last => first ≤ last
    | _, _ => true

end Noleax.Analyzer
