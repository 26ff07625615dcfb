import Noleax.Hooks.Snapshot

/-!
# A stop that cuts calls off (`LinuxCaptureRuntime::drain`)

When the drain budget is spent, `drain` reports that the calls still in flight are cut
off from the trace and finishes the writer. But the finalization compares the counters
of these calls with the events it has seen, and a call between two of its updates makes
it throw.
-/

namespace Noleax.Hooks

open Lib Trace Agent Agent.HookState Agent.LinuxTraceWriter Capture

/-! ## The condition -/

/-- The records of an API: what the producer counts, or the popped events where no
channel is read, and the extra records of the writer. -/
def recordsOf (popped : List LinuxHeapEvent) (reads : List (ℕ × CounterReads))
    (w : LinuxTraceWriter) (apiId : ℕ) : ℕ :=
  (match reads.find? fun entry => entry.1 = apiId with
    | some entry => word (callsIn entry.2.recordable entry.1 everywhere +
        callsIn entry.2.paired entry.1 (at_ .paired))
    | none => eventsOf popped apiId (fun _ => true) + eventsOf popped apiId isMove) +
  (w.counters apiId).extraRecords

section Stopped

variable {options : WriterOptions} {baselines : List MemoryBaseline}
  {actions : List WriterAction} {lastSample : Option (ℕ × List (ℕ → MemoryRecord))}
  {hooks : InstalledHooks} {last : HookState} {reads : List (ℕ × CounterReads)}
  {w : LinuxTraceWriter}

/-- The observed calls of the statistics are the records of the API. -/
theorem StoppedCapture.observedCalls
    (h : StoppedCapture options baselines actions lastSample hooks last reads w) {apiId : ℕ}
    (hapi : apiId ∈ options.apiIds) :
    (entryOf options w apiId).observedCalls = recordsOf (eventsAmong actions) reads w apiId := by
  have hcounted := interleaved_counted h.counted h.loads
  unfold entryOf recordsOf
  rw [h.snapshotOf]
  cases hfind : reads.find? fun entry => entry.1 = apiId with
  | none =>
      have haccount := (atFinalize_drained h.writer).account hapi
      have hrecords := atFinalize_records h.writer hapi
      show (w.counters apiId).successful + (w.counters apiId).failed = _
      rw [← haccount]
      exact hrecords
  | some entry =>
      have hloads := hcounted entry (List.mem_of_find?_eq_some hfind)
      show (channelSnapshot entry.1 (entry.2.counters entry.1)).recordableCalls + _ = _
      rw [channelSnapshot_eq hloads]

end Stopped

/-- All loads of all channels happen in one state. -/
def readsIn (s : HookState) (hooks : InstalledHooks) : List (ℕ × CounterReads) :=
  hooks.channels.map fun apiId => (apiId, ⟨s, s, s, s, s, s⟩)

theorem readsIn_channels (s : HookState) (hooks : InstalledHooks) :
    (readsIn s hooks).map Prod.fst = hooks.channels := by
  unfold readsIn
  rw [List.map_map]
  exact List.map_id _

theorem readsIn_interleaved (s : HookState) (hooks : InstalledHooks) :
    Interleaved s (readsIn s hooks) := by
  unfold readsIn
  induction hooks.channels with
  | nil => exact trivial
  | cons apiId rest ih => exact ⟨⟨.refl, .refl, .refl, .refl, .refl, .refl⟩, ih⟩

/-- The heap family alone. -/
def heapHooks : InstalledHooks := ⟨true, false, 0⟩

/-- `malloc(32)` without a size floor. -/
def lateMalloc : RecordedCall := (HeapCall.malloc 32 0x1000 0).recorded 0

def lateEntered : HookState :=
  (heapHooks.start.withCalls [(lateMalloc, .entered)]).count lateMalloc.apiId .noteEntry

theorem late_enters : Steps heapHooks.start lateEntered := by
  have hstep : Step heapHooks.start lateEntered := .enter lateMalloc rfl
  exact .single hstep

/-- The options of the runtime's writer when the counters are loaded in `s`. -/
def countingOptions (s : HookState) : WriterOptions :=
  { sampleOptions with counterSource := some fun _ => counterSnapshot (readsIn s heapHooks) }

end Noleax.Hooks
