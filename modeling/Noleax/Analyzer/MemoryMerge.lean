import Noleax.Analyzer.EventStream
import Noleax.Analyzer.Window

/-!
# Memory snapshots (`src/analyzer/memory.cpp`)

`analyze_memory` collects the counters, the maps and the agent samples of a trace, and merges
them by their ticks. A cursor is an index into its list; dereferencing it at the end, or past
it, is the fault `pastEnd`.
-/

namespace Noleax.Analyzer

open Lib Trace

/-! ## The window -/

/-- `from` and `to`. -/
structure MemoryWindow where
  fromBound : WindowBound := {}
  toBound : Option WindowBound := none
deriving DecidableEq, Repr

def snapshotAtOrAfter (bound : WindowBound) (header : FileHeader) (ticks : ℕ) :
    Except TraceTimeError Bool :=
  bound.timeHolds header ticks (· ≠ .lt)

def snapshotBefore (bound : WindowBound) (header : FileHeader) (ticks : ℕ) :
    Except TraceTimeError Bool :=
  bound.timeHolds header ticks (· = .lt)

def snapshotInWindow (window : MemoryWindow) (header : FileHeader) (ticks : ℕ) :
    Except TraceTimeError Bool := do
  if !(← snapshotAtOrAfter window.fromBound header ticks) then return false
  else match window.toBound with
    | none => return true
    | some bound => snapshotBefore bound header ticks

/-! ## Cursors -/

inductive MemoryFault where
  | pastEnd
  | window (error : TraceTimeError)
deriving DecidableEq, Repr

/-- An iterator over the records of one kind. -/
structure Cursor (α : Type) where
  records : List α
  ticks : α → ℕ
  index : ℕ := 0

namespace Cursor

variable {α : Type} (cursor : Cursor α)

/-- `it == end` -/
abbrev AtEnd : Prop := cursor.index = cursor.records.length

/-- `*it` -/
def read : Except MemoryFault α :=
  match cursor.records[cursor.index]? with
  | some record => .ok record
  | none => .error .pastEnd

/-- `ticks_of`: an exhausted list has the greatest tick. -/
def ticksOf : Except MemoryFault ℕ :=
  if cursor.AtEnd then .ok maxU64 else do return cursor.ticks (← cursor.read)

/-- The record of a snapshot, when one is due. -/
def pick (due : Bool) : Except MemoryFault (Option α) :=
  if due then do return some (← cursor.read) else return none

/-- `++it`, when its record was due. -/
def advance (due : Bool) : Cursor α :=
  if due then { cursor with index := cursor.index + 1 } else cursor

/-- How many records are left. -/
def left : ℕ := cursor.records.length - cursor.index

end Cursor

/-! ## The merge -/

/-- One sampling tick: the records due at that tick. -/
structure MemorySnapshot where
  monotonicTicks : ℕ
  counters : Option MemoryCounters
  map : Option MemoryMap
  agent : Option AgentMemory
deriving DecidableEq, Repr

/-- The records of a trace, by kinds. -/
structure MemoryRecords where
  counters : List MemoryCounters
  maps : List MemoryMap
  agents : List AgentMemory

structure MergeRun where
  counters : Cursor MemoryCounters
  map : Cursor MemoryMap
  agent : Cursor AgentMemory
  snapshots : List MemorySnapshot := []

namespace MergeRun

def start (records : MemoryRecords) : MergeRun where
  counters := ⟨records.counters, MemoryCounters.monotonicTicks, 0⟩
  map := ⟨records.maps, MemoryMap.monotonicTicks, 0⟩
  agent := ⟨records.agents, AgentMemory.monotonicTicks, 0⟩

/-- The loop ends when every cursor is at its end. -/
abbrev AtEnd (run : MergeRun) : Prop := run.counters.AtEnd ∧ run.map.AtEnd ∧ run.agent.AtEnd

def left (run : MergeRun) : ℕ := run.counters.left + run.map.left + run.agent.left

/-- The ticks of the three cursors. -/
structure Ticks where
  counters : ℕ
  map : ℕ
  agent : ℕ

def Ticks.least (ticks : Ticks) : ℕ := min ticks.counters (min ticks.map ticks.agent)

def ticks (run : MergeRun) : Except MemoryFault Ticks := do
  return ⟨← run.counters.ticksOf, ← run.map.ticksOf, ← run.agent.ticksOf⟩

def snapshot (run : MergeRun) (ticks : Ticks) : Except MemoryFault MemorySnapshot := do
  return ⟨ticks.least, ← run.counters.pick (ticks.counters = ticks.least),
    ← run.map.pick (ticks.map = ticks.least), ← run.agent.pick (ticks.agent = ticks.least)⟩

def advance (run : MergeRun) (ticks : Ticks) : MergeRun where
  counters := run.counters.advance (ticks.counters = ticks.least)
  map := run.map.advance (ticks.map = ticks.least)
  agent := run.agent.advance (ticks.agent = ticks.least)
  snapshots := run.snapshots

variable (window : MemoryWindow) (header : FileHeader)

/-- The snapshot of the round, when its tick is in the window. -/
def selected (run : MergeRun) (ticks : Ticks) : Except MemoryFault (List MemorySnapshot) :=
  match snapshotInWindow window header ticks.least with
  | .error e => .error (.window e)
  | .ok false => .ok []
  | .ok true => do return [← run.snapshot ticks]

/-- The body of the loop. -/
def next (run : MergeRun) : Except MemoryFault MergeRun := do
  let ticks ← run.ticks
  let taken ← run.selected window header ticks
  return { run.advance ticks with snapshots := run.snapshots ++ taken }

def round : EStateM MemoryFault MergeRun (Option Unit) := do
  let run ← get
  if run.AtEnd then return some ()
  else do
    set (← check (run.next window header))
    return none

end MergeRun

/-- The loop of `analyze_memory`; every round leaves fewer records. -/
def mergeRecords (window : MemoryWindow) (header : FileHeader) (records : MemoryRecords) :
    Except MemoryFault (List MemorySnapshot) :=
  match loopBy MergeRun.left (MergeRun.round window header) () (MergeRun.start records) with
  | .ok _ run => .ok run.snapshots
  | .error fault _ => .error fault

/-! ## The analysis -/

/-- The records that the callbacks collect. -/
def MemoryRecords.collect (log : List Callback) : MemoryRecords where
  counters := log.filterMap fun callback =>
    match callback with
    | .memoryCounters counters => some counters
    | _ => none
  maps := log.filterMap fun callback =>
    match callback with
    | .memoryMap map => some map
    | _ => none
  agents := log.filterMap fun callback =>
    match callback with
    | .agentMemory memory => some memory
    | _ => none

inductive MemoryAnalysisError where
  | stream (error : Error)
  | merge (fault : MemoryFault)

structure MemoryAnalysisResult where
  trace : EventStreamResult
  window : MemoryWindow
  snapshots : List MemorySnapshot

def analyzeMemory (options : EventStreamOptions) (decompressors : Decompressors) (input : Bytes)
    (window : MemoryWindow) : Except MemoryAnalysisError MemoryAnalysisResult :=
  let analysis := analyzeEventStream options decompressors input
  match analysis.outcome with
  | .error e => .error (.stream e)
  | .ok trace =>
      match mergeRecords window trace.fileHeader (.collect analysis.log) with
      | .error fault => .error (.merge fault)
      | .ok snapshots => .ok ⟨trace, window, snapshots⟩

end Noleax.Analyzer
