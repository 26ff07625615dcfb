import Noleax.Capture.Predictions
import Noleax.Capture.TerminalRecords

/-!
# The counter snapshot (`LinuxCaptureRuntime::counter_snapshot`)

The runtime hands its hooks' counters to the finalization as snapshots, one for each
channel. Whether a snapshot agrees with the drained events comes down to where the
calls were when its counters were loaded.
-/

namespace Noleax.Hooks

open Lib Trace Agent Agent.HookState Agent.LinuxTraceWriter Capture

/-! ## The snapshots -/

/-- `LinuxHookApiGroup::kVirtualMemory` -/
def inVirtualMemoryGroup : LinuxLogicalHookApi → Bool
  | .mmap | .munmap | .mremap => true
  | _ => false

/-- The hook families the runtime holds. -/
structure InstalledHooks where
  heap : Bool
  vm : Bool
  /-- `custom_hooks_->point_count()` -/
  customPoints : ℕ

/-- The channels, in the order in which `counter_snapshot` reads them. -/
def InstalledHooks.channels (hooks : InstalledHooks) : List ℕ :=
  (linuxHookRegistry.filter fun entry =>
      if inVirtualMemoryGroup entry then hooks.vm else hooks.heap).map (·.apiId) ++
    (List.range hooks.customPoints).map (customHookApiIdBase + ·)

/-- Before the first call: the channels of the installed hooks record. -/
def InstalledHooks.start (hooks : InstalledHooks) : HookState where
  recording := fun apiId => apiId ∈ hooks.channels

/-- The counters of the hooks are 64-bit words. -/
def word (n : ℕ) : ℕ := n % 2 ^ 64

/-- The virtual memory channels count in wire space: a moved `mremap` is a record pair. -/
def pairedOf (apiId : ℕ) (counters : ChannelCounters) : ℕ :=
  if (findLinuxHook apiId).any inVirtualMemoryGroup then counters.pairedRecords else 0

def channelSnapshot (apiId : ℕ) (counters : ChannelCounters) : ApiCounterSnapshot where
  apiId := apiId
  recordableCalls := word (counters.recordableCalls + pairedOf apiId counters)
  successfulCalls := word (counters.successfulCalls + pairedOf apiId counters)
  failedCalls := word counters.failedCalls
  filteredCalls := word counters.filteredCalls
  droppedEvents := word counters.droppedEvents

/-- `counter_snapshot`, from the loads of its `counters()` calls. -/
def counterSnapshot (reads : List (ℕ × CounterReads)) : List ApiCounterSnapshot :=
  reads.map fun entry => channelSnapshot entry.1 (entry.2.counters entry.1)

/-- A capture whose writer has come to `finalize_trace`. The calls have come to `last`
when the writer pops for the last time, and go on while the counters are loaded; the
writer has popped a first part of the queue. -/
structure StoppedCapture (options : WriterOptions) (baselines : List MemoryBaseline)
    (actions : List WriterAction) (lastSample : Option (ℕ × List (ℕ → MemoryRecord)))
    (hooks : InstalledHooks) (last : HookState) (reads : List (ℕ × CounterReads))
    (w : LinuxTraceWriter) : Prop where
  calls : Steps hooks.start last
  popped : eventsAmong actions <+: last.enqueued
  channels : reads.map Prod.fst = hooks.channels
  loads : Interleaved last reads
  source : ∃ source, options.counterSource = some source ∧ source false = counterSnapshot reads
  writer : AtFinalize options baselines actions lastSample w

/-! ## The loads -/

/-- Every load finds a state that `Counted` holds in. -/
structure LoadsCounted (reads : CounterReads) : Prop where
  recordable : Counted reads.recordable
  successful : Counted reads.successful
  failed : Counted reads.failed
  filtered : Counted reads.filtered
  dropped : Counted reads.dropped
  paired : Counted reads.paired

theorem follows_counted {s : HookState} {reads : CounterReads} (hs : Counted s)
    (h : reads.Follows s) : LoadsCounted reads := by
  have hrecordable := hs.steps h.recordable
  have hsuccessful := hrecordable.steps h.successful
  have hfailed := hsuccessful.steps h.failed
  have hfiltered := hfailed.steps h.filtered
  have hdropped := hfiltered.steps h.dropped
  exact ⟨hrecordable, hsuccessful, hfailed, hfiltered, hdropped, hdropped.steps h.paired⟩

theorem interleaved_counted {s : HookState} {reads : List (ℕ × CounterReads)} (hs : Counted s)
    (h : Interleaved s reads) : ∀ entry ∈ reads, LoadsCounted entry.2 := by
  induction reads generalizing s with
  | nil =>
      intro entry hentry
      cases hentry
  | cons first rest ih =>
      obtain ⟨hfirst, hrest⟩ := h
      have hcounted := follows_counted hs hfirst
      intro entry hentry
      rcases List.mem_cons.mp hentry with rfl | hmem
      · exact hcounted
      · exact ih hcounted.paired hrest entry hmem

/-- The pairs of a channel are calls of `mremap`, so its group counts them. -/
theorem pairedOf_eq {s : HookState} (hs : Counted s) (apiId : ℕ) :
    pairedOf apiId (s.counters apiId) = callsIn s apiId (at_ .paired) := by
  have hpaired : (s.counters apiId).pairedRecords = _ := hs.paired apiId
  unfold pairedOf
  split
  · exact hpaired
  · rename_i hgroup
    symm
    apply List.countP_eq_zero.mpr
    intro entry hentry
    simp only [decide_eq_true_eq]
    rintro ⟨rfl, hplace⟩
    have hmremap := entry.1.pairs (hs.ofPairs entry hentry (of_decide_eq_true hplace))
    rw [hmremap] at hgroup
    exact hgroup rfl

/-! ## The channel ids -/

section Stopped

variable {options : WriterOptions} {baselines : List MemoryBaseline}
  {actions : List WriterAction} {lastSample : Option (ℕ × List (ℕ → MemoryRecord))}
  {hooks : InstalledHooks} {last : HookState} {reads : List (ℕ × CounterReads)}
  {w : LinuxTraceWriter}

theorem StoppedCapture.counted
    (h : StoppedCapture options baselines actions lastSample hooks last reads w) : Counted last := by
  have hstart : Counted hooks.start := { counted_init with }
  exact hstart.steps h.calls

theorem StoppedCapture.snapshotOf
    (h : StoppedCapture options baselines actions lastSample hooks last reads w) (apiId : ℕ) :
    snapshotOf options false apiId =
      (reads.find? fun entry => entry.1 = apiId).map fun entry =>
        channelSnapshot entry.1 (entry.2.counters entry.1) := by
  obtain ⟨source, hsource, hsnapshot⟩ := h.source
  unfold LinuxTraceWriter.snapshotOf
  rw [hsource]
  show (source false).find? _ = _
  rw [hsnapshot]
  exact List.find?_map ..

theorem StoppedCapture.mem_of_snapshot
    (h : StoppedCapture options baselines actions lastSample hooks last reads w) {apiId : ℕ}
    {snapshot : ApiCounterSnapshot}
    (hsnapshot : snapshot ∈ LinuxTraceWriter.snapshotOf options false apiId) :
    ∃ loads, (apiId, loads) ∈ reads ∧ snapshot = channelSnapshot apiId (loads.counters apiId) := by
  rw [h.snapshotOf] at hsnapshot
  obtain ⟨entry, hfind, rfl⟩ := Option.mem_map.mp hsnapshot
  have hfind := Option.mem_def.mp hfind
  have hid := List.find?_some hfind
  obtain rfl : entry.1 = apiId := of_decide_eq_true hid
  exact ⟨entry.2, List.mem_of_find?_eq_some hfind, rfl⟩

end Stopped

/-! ## Agreement -/

/-- The snapshot, from the places of the calls. -/
theorem channelSnapshot_eq {loads : CounterReads} (h : LoadsCounted loads) (apiId : ℕ) :
    channelSnapshot apiId (loads.counters apiId) =
      { apiId := apiId
        recordableCalls := word (callsIn loads.recordable apiId everywhere +
          callsIn loads.paired apiId (at_ .paired))
        successfulCalls := word (callsIn loads.successful apiId (settledAs false) +
          callsIn loads.paired apiId (at_ .paired))
        failedCalls := word (callsIn loads.failed apiId (settledAs true))
        filteredCalls := word (callsIn loads.filtered apiId (at_ .filtered))
        droppedEvents := word (callsIn loads.dropped apiId (at_ .dropped)) } := by
  have hrecordable : (loads.recordable.counters apiId).recordableCalls = _ :=
    h.recordable.recordable apiId
  have hsuccessful : (loads.successful.counters apiId).successfulCalls = _ :=
    h.successful.successful apiId
  have hfailed : (loads.failed.counters apiId).failedCalls = _ := h.failed.failed apiId
  have hfiltered : (loads.filtered.counters apiId).filteredCalls = _ := h.filtered.filtered apiId
  have hdropped : (loads.dropped.counters apiId).droppedEvents = _ := h.dropped.dropped apiId
  have hpaired : pairedOf apiId (loads.counters apiId) = _ := pairedOf_eq h.paired apiId
  unfold channelSnapshot
  rw [hpaired]
  unfold CounterReads.counters
  dsimp only
  rw [hrecordable, hsuccessful, hfailed, hfiltered, hdropped]

end Noleax.Hooks
