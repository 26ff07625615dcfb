import Noleax.Analyzer.StreamRuns

/-!
# What a chunk delivers (`src/analyzer/event_stream.cpp`)

A chunk that is accepted adds to the log: the records of an event chunk or of a memory chunk,
in the order they were scanned, or callbacks that are neither.
-/

namespace Noleax.Analyzer

open Lib Trace

/-- The callbacks that are about no event, no loss and no memory. -/
def Callback.Plain : Callback → Prop
  | .fileHeader _ | .event _ | .loss _ | .memoryCounters _ | .memoryMap _ | .agentMemory _ => False
  | _ => True

def recordCallback : EventChunkRecord → Callback
  | .event event => .event event
  | .loss loss => .loss loss

/-- The log, and the orders that the records are checked against. -/
structure Delivery where
  log : List Callback
  order : EventOrder
  previousMemoryTicks : ℕ

def Delivery.append (delivery : Delivery) (more : List Callback) : Delivery :=
  { delivery with log := delivery.log ++ more }

theorem Delivery.append_nil (delivery : Delivery) : delivery.append [] = delivery := by
  show Delivery.mk (delivery.log ++ []) _ _ = delivery
  rw [List.append_nil]

theorem Delivery.append_append (delivery : Delivery) (more rest : List Callback) :
    (delivery.append more).append rest = delivery.append (more ++ rest) := by
  show Delivery.mk ((delivery.log ++ more) ++ rest) _ _ = _
  rw [List.append_assoc]
  rfl

namespace EventStreamDecoder

variable {dec next : EventStreamDecoder} {descriptor : ChunkDescriptor} {payload : Bytes}

def delivery (dec : EventStreamDecoder) : Delivery :=
  ⟨dec.log, dec.order, dec.previousMemoryTicks⟩

/-! ## Marks and loops -/

@[simp] theorem delivery_mark (issue : CompletenessIssue) :
    (dec.mark issue).delivery = dec.delivery := by
  rw [dec.mark_eq]
  rfl

@[simp] theorem delivery_markIf (p : Bool) (issue : CompletenessIssue) :
    (dec.markIf p issue).delivery = dec.delivery := by
  unfold markIf
  cases p with
  | true => exact dec.delivery_mark issue
  | false => rfl

/-- A loop that delivers one callback in each repetition. -/
theorem delivery_foldl {α : Type} {g : EventStreamDecoder → α → EventStreamDecoder}
    {c : α → Callback} (h : ∀ dec a, (g dec a).delivery = dec.delivery.append [c a]) (as : List α)
    (dec : EventStreamDecoder) : (as.foldl g dec).delivery = dec.delivery.append (as.map c) := by
  induction as generalizing dec with
  | nil => exact dec.delivery.append_nil.symm
  | cons a as ih =>
      rw [List.foldl_cons, ih, h, Delivery.append_append]
      rfl

/-! ## Chunks -/

/-- What the scan of a metadata chunk delivers. -/
def metadataCallbacks (scan : MetadataScan) : List Callback :=
  scan.scope.toList.map .captureScope ++ scan.customHooks.map .customHookDefinition ++
    scan.customHookFailures.map .customHookFailure

theorem delivery_afterMetadata (scan : MetadataScan) :
    (dec.afterMetadata scan).delivery = dec.delivery.append (metadataCallbacks scan) := by
  unfold afterMetadata metadataCallbacks
  dsimp only
  rw [delivery_foldl (g := afterCustomHookFailure) (c := .customHookFailure),
    delivery_foldl (g := afterCustomHook) (c := .customHookDefinition) (fun _ _ => rfl),
    delivery_markIf]
  · cases scan.scope with
    | some scope =>
        show (Delivery.append (Delivery.append (dec.delivery.append [.captureScope scope]) _) _) = _
        rw [Delivery.append_append, Delivery.append_append]
        rfl
    | none =>
        show (Delivery.append (Delivery.append dec.delivery _) _) = _
        rw [Delivery.append_append]
        rfl
  · intro s failure
    show (s.mark .customHookInstallFailed).delivery.append _ = _
    rw [delivery_mark]

def moduleCallback : ModuleRecord → Callback
  | .load load => .moduleLoad load
  | .unload unload => .moduleUnload unload

theorem delivery_afterModules (scan : RecordScan ModuleRecord) (table : ModuleTable) :
    (dec.afterModules scan table).delivery =
      dec.delivery.append (scan.records.map moduleCallback) := by
  unfold afterModules
  rw [delivery_foldl (g := afterModule) (c := moduleCallback)
    (fun s record => by cases record <;> rfl), delivery_markIf]
  rfl

theorem delivery_afterStacks (scan : StackScan) : (dec.afterStacks scan).delivery =
    dec.delivery.append (scan.definitions.map .stackDefinition) := by
  unfold afterStacks
  rw [delivery_foldl (g := afterStack) (c := .stackDefinition) (fun _ _ => rfl), delivery_markIf]

theorem delivery_afterEvents (scan : EventScan) : (dec.afterEvents scan).delivery =
    { dec.delivery.append (scan.records.map recordCallback) with order := scan.order } := by
  unfold afterEvents
  rw [delivery_foldl (g := afterEventRecord) (c := recordCallback)
    (fun s record => by cases record <;> rfl)]
  cases scan.skippedUnknown with
  | true =>
      show Delivery.append { (mark _ _).delivery with order := scan.order } _ = _
      rw [delivery_mark]
      rfl
  | false => rfl

theorem delivery_afterMemory (scan : MemoryScan) : (dec.afterMemory scan).delivery =
    { dec.delivery.append (scan.deliveries.map Prod.snd) with
      previousMemoryTicks := scan.previousTicks } := by
  unfold afterMemory
  rw [delivery_foldl (g := afterDelivery) (c := Prod.snd) (fun _ _ => rfl)]
  show Delivery.append { (markIf _ _ _).delivery with
    previousMemoryTicks := scan.previousTicks } _ = _
  rw [delivery_markIf]
  rfl

theorem delivery_afterFuture : (dec.afterFuture descriptor).delivery = dec.delivery := by
  unfold afterFuture
  dsimp only
  split
  · exact (delivery_mark .unknownRecordSkipped).trans (delivery_mark .partiallyUnderstoodFormat)
  · exact (delivery_mark .unknownRecordSkipped).trans (delivery_mark .partiallyUnderstoodFormat)

theorem scanEvents_markIf (p : Bool) (issue : CompletenessIssue) :
    scanEvents (dec.markIf p issue) payload = scanEvents dec payload := by
  unfold scanEvents markIf
  cases p with
  | true =>
      rw [if_pos rfl, dec.mark_eq]
  | false => rfl

theorem scanMemory_markIf (p : Bool) (issue : CompletenessIssue) :
    scanMemory (dec.markIf p issue) payload = scanMemory dec payload := by
  unfold scanMemory markIf
  cases p with
  | true =>
      rw [if_pos rfl, dec.mark_eq]
  | false => rfl

/-- What a chunk delivers that was accepted. -/
inductive Delivered (dec : EventStreamDecoder) (payload : Bytes) : Delivery → Prop
  | plain {more : List Callback} (hplain : ∀ callback ∈ more, callback.Plain) :
      Delivered dec payload (dec.delivery.append more)
  | events {scan : EventScan} (hscan : scanEvents dec payload = .ok scan) :
      Delivered dec payload
        { dec.delivery.append (scan.records.map recordCallback) with order := scan.order }
  | memory {scan : MemoryScan} (hscan : scanMemory dec payload = .ok scan) :
      Delivered dec payload
        { dec.delivery.append (scan.deliveries.map Prod.snd) with
          previousMemoryTicks := scan.previousTicks }

theorem Delivered.nothing : Delivered dec payload dec.delivery := by
  rw [← dec.delivery.append_nil]
  exact .plain (by simp)

/-- Callbacks of one kind that is plain. -/
theorem plain_map {α : Type} {c : α → Callback} (h : ∀ a, (c a).Plain) (as : List α) :
    ∀ callback ∈ as.map c, callback.Plain := by
  intro callback hcallback
  obtain ⟨a, -, rfl⟩ := List.mem_map.mp hcallback
  exact h a

theorem metadataCallbacks_plain (scan : MetadataScan) :
    ∀ callback ∈ metadataCallbacks scan, callback.Plain := by
  intro callback hcallback
  rcases List.mem_append.mp hcallback with hcallback | hfailure
  · rcases List.mem_append.mp hcallback with hscope | hhook
    · exact plain_map (c := .captureScope) (fun _ => trivial) _ callback hscope
    · exact plain_map (c := .customHookDefinition) (fun _ => trivial) _ callback hhook
  · exact plain_map (c := .customHookFailure) (fun _ => trivial) _ callback hfailure

theorem delivered_of_handled {type : ChunkType} (h : Handled dec descriptor payload type next) :
    Delivered dec payload next.delivery := by
  cases h with
  | metadata hscan =>
      rw [delivery_afterMetadata]
      exact .plain (metadataCallbacks_plain _)
  | modules hscoped hscan htable =>
      rw [delivery_afterModules]
      exact .plain (plain_map (fun record => by cases record <;> trivial) _)
  | definitions hscoped hscan =>
      rw [delivery_afterStacks]
      exact .plain (plain_map (c := .stackDefinition) (fun _ => trivial) _)
  | events hallowed hscan hrange =>
      rw [delivery_afterEvents]
      exact .events hscan
  | memory hscoped hscan =>
      rw [delivery_afterMemory]
      exact .memory hscan
  | noStatistics hscoped hscan hvalue =>
      rw [delivery_markIf]
      exact .nothing
  | @statistics scan value hscoped hscan hvalue hmatch =>
      show Delivered dec payload (Delivery.append (markIf _ _ _).delivery [.statistics value])
      rw [delivery_markIf]
      exact .plain (plain_map (c := .statistics) (fun _ => trivial) [value])
  | @noEndOfTrace scan hscoped hscan hvalue =>
      show Delivered dec payload (markIf _ _ _).delivery
      rw [delivery_markIf]
      exact .nothing
  | @endOfTrace scan trace hscoped hscan hvalue hvalid hbounds =>
      show Delivered dec payload (Delivery.append (markIf _ _ _).delivery [.endOfTrace trace])
      rw [delivery_markIf]
      exact .plain (plain_map (c := .endOfTrace) (fun _ => trivial) [trace])

theorem delivered_of_accepted {chunk : TraceChunk} (h : Accepted dec chunk next) :
    Delivered dec chunk.payload next.delivery := by
  cases h with
  | future hversion hevents =>
      rw [delivery_afterFuture, delivery_markIf]
      exact .nothing
  | known hversion hevents hhandled =>
      -- the mark of unknown flags delivers nothing, and no scan looks at it
      have hmarked := delivered_of_handled hhandled
      generalize hnext : next.delivery = delivery at hmarked ⊢
      cases hmarked with
      | plain hplain =>
          rw [delivery_markIf]
          exact .plain hplain
      | events hscan =>
          rw [delivery_markIf]
          rw [scanEvents_markIf] at hscan
          exact .events hscan
      | memory hscan =>
          rw [delivery_markIf]
          rw [scanMemory_markIf] at hscan
          exact .memory hscan

end EventStreamDecoder

end Noleax.Analyzer
