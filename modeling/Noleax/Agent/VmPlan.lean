import Std.Data.ExtTreeMap
import Noleax.Agent.HeapEvent
import Noleax.Trace.IntervalSet

/-!
# The VM interval model of the writer (`agent/linux/trace_writer.cpp`)

`plan_vm_event` and everything below it. The three members the planner owns
(`live_mapping_space_`, `live_generations_`, `next_mapping_id_`) are `VmState`;
every function returns the next state and the records it appends to the plan,
in order. A reference into `live_generations_` is its key, read again after
each call that may change the entry.
-/

namespace Noleax.Agent

open Lib Trace

/-- A fragment's generation and the completion sequence that produced it. -/
structure LiveFragmentOwner where
  mappingId : ℕ := 0
  sequence : ℕ := 0
deriving DecidableEq, Repr

structure LiveMappingGeneration where
  mappingId : ℕ
  base : ℕ := 0
  liveBytes : ℕ := 0
  lastSequence : ℕ := 0
  section_ : Bool := false
deriving DecidableEq, Repr

structure VmPlanRecord where
  payload : EventPayload
  status : EventStatus := .success
deriving DecidableEq, Repr

/-- What the planner reads besides its own state. -/
structure VmContext where
  preexistingAllocationsUnknown : Bool
  /-- `getpid()` -/
  processId : ℕ
deriving DecidableEq, Repr

structure VmState where
  space : IntervalSet LiveFragmentOwner := IntervalSet.empty
  generations : Std.ExtTreeMap ℕ LiveMappingGeneration compare := ∅
  nextMappingId : ℕ := 1

abbrev Piece := Fragment LiveFragmentOwner

/-- A planning function's result: the next state and the appended records. -/
abbrev Planned := Except Error (VmState × List VmPlanRecord)

def vmFreeTypeRelease : ℕ := 0x00008000

section Records

variable (ctx : VmContext)

def currentProcessTarget : ProcessTarget :=
  { scope := .currentProcess, processId := ctx.processId }

def makeVmFreeRecord (mappingId base size : ℕ) : VmPlanRecord :=
  { payload := .vmFree
      { target := currentProcessTarget ctx
        base := base
        regionSize := size
        freeType := vmFreeTypeRelease
        mappingId := mappingId } }

def unmatchedStatus (address : ℕ) : EventStatus :=
  if address ≠ 0 ∧ ctx.preexistingAllocationsUnknown = true then .preexisting else .unmatched

def makeUnmatchedFreeRecord (base size : ℕ) : VmPlanRecord :=
  { makeVmFreeRecord ctx 0 base size with status := unmatchedStatus ctx base }

/-- `append_trim_records`. -/
def trimRecords (mappingId : ℕ) (stale : List Piece) : List VmPlanRecord :=
  stale.map fun piece => makeVmFreeRecord ctx mappingId piece.start (piece.stop - piece.start)

end Records

namespace VmState

/-- `next_mapping_id()`. -/
def takeMappingId (st : VmState) : Except Error (VmState × ℕ) :=
  if st.nextMappingId = maxU64 then .error (.overflow "mapping ID space is exhausted")
  else .ok ({ st with nextMappingId := st.nextMappingId + 1 }, st.nextMappingId)

def generationFor (st : VmState) (id : ℕ) : Except Error LiveMappingGeneration :=
  match st.generations[id]? with
  | some generation => .ok generation
  | none => .error (.runtime "live mapping fragment has no generation")

/-! ## `plan_subtract` -/

/-- The variables of the piece loop of one group. -/
structure GroupScan where
  space : IntervalSet LiveFragmentOwner
  liveBytes : ℕ
  runBegin : ℕ := 0
  runEnd : ℕ := 0
  plan : List VmPlanRecord

/-- `flush_run`: the pending run becomes one record. -/
def GroupScan.flushRun (ctx : VmContext) (id : ℕ) (whole : Bool) (scan : GroupScan) : GroupScan :=
  { scan with
    runBegin := 0
    runEnd := 0
    plan :=
      if whole = false ∧ scan.runBegin ≠ scan.runEnd then
        scan.plan ++ [makeVmFreeRecord ctx id scan.runBegin (scan.runEnd - scan.runBegin)]
      else scan.plan }

/-- One turn of the piece loop: a newer piece is skipped and breaks the run, an
older one is removed and extends or restarts it. -/
def GroupScan.step (ctx : VmContext) (id : ℕ) (whole : Bool) (completionSeq : ℕ)
    (scan : GroupScan) (piece : Piece) : GroupScan :=
  if completionSeq ≤ piece.value.sequence then
    scan.flushRun ctx id whole
  else
    let scan := { scan with
      space := (scan.space.subtract piece.start piece.stop).1
      liveBytes := scan.liveBytes - (piece.stop - piece.start) }
    if piece.start = scan.runEnd then
      { scan with runEnd := piece.stop }
    else
      { scan.flushRun ctx id whole with runBegin := piece.start, runEnd := piece.stop }

/-- The bytes of the pieces older than the syscall. -/
def matchedBytes (completionSeq : ℕ) (group : List Piece) : ℕ :=
  totalBytes (group.filter fun piece => piece.value.sequence < completionSeq)

/-- The whole-view `Unmap` of a file-backed generation. -/
def unmapRecord (ctx : VmContext) (state : LiveMappingGeneration) : VmPlanRecord :=
  { payload := .unmap
      { target := currentProcessTarget ctx
        base := state.base
        mappingId := state.mappingId } }

/-- The piece loop of one group, with the trailing `flush_run`. -/
def scanGroup (ctx : VmContext) (completionSeq : ℕ) (whole : Bool) (state : LiveMappingGeneration)
    (space : IntervalSet LiveFragmentOwner) (group : List Piece) : GroupScan :=
  (group.foldl (GroupScan.step ctx state.mappingId whole completionSeq)
    { space := space
      liveBytes := state.liveBytes
      plan := if whole then [unmapRecord ctx state] else [] }).flushRun ctx state.mappingId whole

/-- The state after a group: a generation without bytes is erased. -/
def afterGroup (st : VmState) (id : ℕ) (state : LiveMappingGeneration) (scan : GroupScan) :
    VmState :=
  { st with
    space := scan.space
    generations :=
      if scan.liveBytes = 0 then st.generations.erase id
      else st.generations.insert id { state with liveBytes := scan.liveBytes } }

/-- The release of one maximal run of pieces with the same mapping id. -/
def subtractGroup (ctx : VmContext) (completionSeq : ℕ) (st : VmState) (group : List Piece) :
    Planned :=
  match group with
  | [] => .ok (st, [])
  | first :: _ => do
      let id := first.value.mappingId
      let state ← st.generationFor id
      let matched := matchedBytes completionSeq group
      if matched = 0 then return (st, [])
      else
        let whole := state.section_ && decide (matched = state.liveBytes)
        let scan := scanGroup ctx completionSeq whole state st.space group
        return (st.afterGroup id state scan, scan.plan)

/-- The pieces, cut where the mapping id changes. -/
def idGroups (pieces : List Piece) : List (List Piece) :=
  pieces.splitBy fun p q => p.value.mappingId == q.value.mappingId

/-- Run a planning step over a list, collecting the records. -/
def planEach {α : Type} (step : VmState → α → Planned) : VmState → List α → Planned
  | st, [] => .ok (st, [])
  | st, x :: xs => do
      let (st, records) ← step st x
      let (st, more) ← planEach step st xs
      return (st, records ++ more)

def planSubtract (ctx : VmContext) (st : VmState) (b e completionSeq : ℕ) : Planned :=
  planEach (subtractGroup ctx completionSeq) st (idGroups (st.space.intersections b e))

/-! ## `plan_create_space` -/

/-- Insert the parts of `[cursor, stop)` between the stale pieces; the second
component counts the inserted bytes. -/
def insertOwned (owner : LiveFragmentOwner) (stop : ℕ) :
    ℕ → List Piece → IntervalSet LiveFragmentOwner × ℕ → IntervalSet LiveFragmentOwner × ℕ
  | cursor, [], (space, owned) =>
      if cursor < stop then ((space.insert cursor stop owner).1, owned + (stop - cursor))
      else (space, owned)
  | cursor, piece :: stale, (space, owned) =>
      insertOwned owner stop piece.stop stale
        (if cursor < piece.start then
          ((space.insert cursor piece.start owner).1, owned + (piece.start - cursor))
        else (space, owned))

structure CreateSpace where
  state : VmState
  ownedBytes : ℕ
  stale : List Piece
  records : List VmPlanRecord

def planCreateSpace (ctx : VmContext) (st : VmState) (b e completionSeq newMappingId : ℕ) :
    Except Error CreateSpace := do
  let pieces := st.space.intersections b e
  let (st, records) ← st.planSubtract ctx b e completionSeq
  let stale := pieces.filter fun piece => completionSeq ≤ piece.value.sequence
  let (space, owned) :=
    insertOwned { mappingId := newMappingId, sequence := completionSeq } e b stale (st.space, 0)
  return {
    state := { st with space := space }
    ownedBytes := owned
    stale := stale
    records := records }

/-- `track_generation`: a stillborn generation is not registered. -/
def trackGeneration (st : VmState) (generation : LiveMappingGeneration) : VmState :=
  if generation.liveBytes = 0 then st
  else { st with generations := st.generations.insertIfNew generation.mappingId generation }

/-! ## The operations -/

/-- Create a generation at `[base, base + size)`: take an id, evict and trim, emit
the create record between the evictions and the trims. -/
def planCreate (ctx : VmContext) (st : VmState) (base size completionSeq : ℕ) (isSection : Bool)
    (record : ℕ → VmPlanRecord) : Planned := do
  let (st, id) ← st.takeMappingId
  let space ← st.planCreateSpace ctx base (base + size) completionSeq id
  let st := space.state.trackGeneration
    { mappingId := id
      base := base
      liveBytes := space.ownedBytes
      lastSequence := completionSeq
      section_ := isSection }
  return (st, space.records ++ record id :: trimRecords ctx id space.stale)

def planMmapAnonymous (ctx : VmContext) (st : VmState) (raw : LinuxHeapEvent) : Planned :=
  st.planCreate ctx raw.resultAddress raw.requestedSize raw.completionSequence false fun id =>
    { payload := .vmAllocate
        { target := currentProcessTarget ctx
          requestedBase := raw.requestedAddress
          resultBase := raw.resultAddress
          requestedSize := raw.requestedSize
          resultSize := raw.requestedSize
          allocationType := raw.mapFlags % 2 ^ 32
          protection := raw.protection % 2 ^ 32
          mappingId := id
          mappingBase := raw.resultAddress
          mappingSize := raw.requestedSize } }

def planMmapSection (ctx : VmContext) (st : VmState) (raw : LinuxHeapEvent) : Planned :=
  st.planCreate ctx raw.resultAddress raw.requestedSize raw.completionSequence true fun id =>
    { payload := .map
        { sectionHandle := raw.sectionHandle
          target := currentProcessTarget ctx
          resultBase := raw.resultAddress
          sectionOffset := raw.sectionOffset
          protection := raw.protection % 2 ^ 32
          viewSize := raw.requestedSize
          mappingId := id } }

def planMunmap (ctx : VmContext) (st : VmState) (raw : LinuxHeapEvent) : Planned := do
  let (st, plan) ←
    st.planSubtract ctx raw.address (raw.address + raw.requestedSize) raw.completionSequence
  if plan = [] then
    return (st, [makeUnmatchedFreeRecord ctx raw.address raw.requestedSize])
  else return (st, plan)

/-- `push_resize_record` of `plan_mremap_resize`. -/
def resizeRecord (ctx : VmContext) (raw : LinuxHeapEvent) (mappingId mappingSize : ℕ) :
    VmPlanRecord :=
  { payload := .vmAllocate
      { target := currentProcessTarget ctx
        requestedBase := raw.address
        resultBase := raw.resultAddress
        requestedSize := raw.count
        resultSize := raw.count
        allocationType := raw.mapFlags % 2 ^ 32
        mappingId := mappingId
        mappingBase := raw.address
        mappingSize := mappingSize } }

/-- Change the entry behind the reference `source`. -/
def setSource (st : VmState) (id : ℕ) (source : LiveMappingGeneration) : VmState :=
  { st with generations := st.generations.insert id source }

/-- The grow branch: extend with eviction, then trims. -/
def planMremapGrow (ctx : VmContext) (st : VmState) (raw : LinuxHeapEvent) (id runEnd : ℕ) :
    Planned := do
  let space ← st.planCreateSpace ctx runEnd (raw.address + raw.count) raw.completionSequence id
  let source ← space.state.generationFor id
  let st := space.state.setSource id
    { source with liveBytes := source.liveBytes + space.ownedBytes }
  return (st, space.records ++ resizeRecord ctx raw id raw.count :: trimRecords ctx id space.stale)

/-- The shrink branch: the run's own tail goes silently, anything the old size
covers beyond the run with records. -/
def planMremapShrink (ctx : VmContext) (st : VmState) (raw : LinuxHeapEvent) (id runEnd : ℕ) :
    Planned := do
  let (space, removed) := st.space.subtract (raw.address + raw.count) runEnd
  failIf (∃ piece ∈ removed, piece.value.mappingId ≠ id)
    (.runtime "mremap shrink tail overlaps a foreign fragment")
  let source ← st.generationFor id
  let st := { st with space := space }.setSource id
    { source with liveBytes := source.liveBytes - totalBytes removed }
  let eventTailEnd := raw.address + raw.requestedSize
  let (st, plan) ←
    if runEnd < eventTailEnd then
      st.planSubtract ctx runEnd eventTailEnd raw.completionSequence
    else .ok (st, [])
  return (st, plan ++ [resizeRecord ctx raw id raw.count])

def planMremapResize (ctx : VmContext) (st : VmState) (raw : LinuxHeapEvent)
    (source : LiveMappingGeneration) (fragmentEnd : ℕ) : Planned :=
  let id := source.mappingId
  let runEnd := st.space.runEnd (fun owner => owner.mappingId == id) fragmentEnd
  let extent := runEnd - raw.address
  if raw.completionSequence ≤ source.lastSequence then
    -- stale: a newer create/extend already ran, the record is a no-op update
    .ok (st, [resizeRecord ctx raw id extent])
  else
    let st := st.setSource id { source with lastSequence := raw.completionSequence }
    if extent < raw.count then st.planMremapGrow ctx raw id runEnd
    else if raw.count < extent then st.planMremapShrink ctx raw id runEnd
    else .ok (st, [resizeRecord ctx raw id raw.count])

/-- The status of a record that adopts memory the trace has no creation for. -/
def adoptedStatus (ctx : VmContext) : EventStatus :=
  if ctx.preexistingAllocationsUnknown then .preexisting else .success

/-- The anonymous create record of the pair and adopt branches. -/
def remapRecord (ctx : VmContext) (raw : LinuxHeapEvent) (status : EventStatus) (id : ℕ) :
    VmPlanRecord :=
  { payload := .vmAllocate
      { target := currentProcessTarget ctx
        requestedBase := raw.address
        resultBase := raw.resultAddress
        requestedSize := raw.count
        resultSize := raw.count
        allocationType := raw.mapFlags % 2 ^ 32
        mappingId := id
        mappingBase := raw.resultAddress
        mappingSize := raw.count }
    status := status }

def planMremapPair (ctx : VmContext) (st : VmState) (raw : LinuxHeapEvent)
    (sectionSource : Bool) : Planned := do
  let (st, freed) ←
    st.planSubtract ctx raw.address (raw.address + raw.requestedSize) raw.completionSequence
  let sourceTracked := decide (freed ≠ [])
  let freeHalf :=
    if sourceTracked then freed
    else [makeUnmatchedFreeRecord ctx raw.address raw.requestedSize]
  let createStatus := if sourceTracked then .success else adoptedStatus ctx
  let (st, createHalf) ←
    st.planCreate ctx raw.resultAddress raw.count raw.completionSequence sectionSource fun id =>
      if sectionSource then
        { payload := .map
            { target := currentProcessTarget ctx
              resultBase := raw.resultAddress
              viewSize := raw.count
              mappingId := id }
          status := createStatus }
      else remapRecord ctx raw createStatus id
  return (st, freeHalf ++ createHalf)

def planMremapAdopt (ctx : VmContext) (st : VmState) (raw : LinuxHeapEvent) : Planned :=
  st.planCreate ctx raw.resultAddress raw.count raw.completionSequence false
    (remapRecord ctx raw (adoptedStatus ctx))

def planMremap (ctx : VmContext) (st : VmState) (raw : LinuxHeapEvent) : Planned :=
  match st.space.find raw.address with
  | some fragment => do
      let source ← st.generationFor fragment.value.mappingId
      if source.section_ then st.planMremapPair ctx raw true
      else if raw.resultAddress ≠ raw.address then st.planMremapPair ctx raw false
      else if fragment.start = raw.address then st.planMremapResize ctx raw source fragment.stop
      else st.planMremapAdopt ctx raw
  | none =>
      if raw.resultAddress ≠ raw.address then st.planMremapPair ctx raw false
      else st.planMremapAdopt ctx raw

/-- The record of a failed call, in the operation's shape. -/
def failedRecord (ctx : VmContext) (raw : LinuxHeapEvent) : VmPlanRecord :=
  match raw.operation with
  | .vmUnmap =>
      { makeVmFreeRecord ctx 0 raw.address raw.requestedSize with status := .failure }
  | operation =>
      if operation = .vmAllocate ∧ raw.sectionHandle ≠ maxU64 then
        { payload := .map
            { sectionHandle := raw.sectionHandle
              target := currentProcessTarget ctx
              sectionOffset := raw.sectionOffset
              protection := raw.protection % 2 ^ 32 }
          status := .failure }
      else
        { payload := .vmAllocate
            { target := currentProcessTarget ctx
              requestedBase :=
                if operation = .vmRemap then raw.address else raw.requestedAddress
              requestedSize := if operation = .vmRemap then raw.count else raw.requestedSize
              allocationType := raw.mapFlags % 2 ^ 32
              protection := raw.protection % 2 ^ 32 }
          status := .failure }

def planVmEvent (ctx : VmContext) (st : VmState) (raw : LinuxHeapEvent) : Planned :=
  if raw.Succeeded then
    match raw.operation with
    | .vmAllocate =>
        -- the file descriptor -1 marks an anonymous mapping
        if raw.sectionHandle = maxU64 then st.planMmapAnonymous ctx raw
        else st.planMmapSection ctx raw
    | .vmUnmap => st.planMunmap ctx raw
    | .vmRemap => st.planMremap ctx raw
    | _ => .error (.invalidArgument "raw Linux heap event is not a VM operation")
  else .ok (st, [failedRecord ctx raw])

/-! ## Plans are never empty -/

theorem planCreate_ne_nil {ctx : VmContext} {st st' : VmState} {base size completionSeq : ℕ}
    {isSection : Bool} {record : ℕ → VmPlanRecord} {plan : List VmPlanRecord}
    (h : st.planCreate ctx base size completionSeq isSection record = .ok (st', plan)) :
    plan ≠ [] := by
  unfold planCreate at h
  obtain ⟨⟨st₁, id⟩, -, h⟩ := bind_eq_ok.mp h
  obtain ⟨space, -, h⟩ := bind_eq_ok.mp h
  cases h
  simp

theorem planMunmap_ne_nil {ctx : VmContext} {st st' : VmState} {raw : LinuxHeapEvent}
    {plan : List VmPlanRecord} (h : st.planMunmap ctx raw = .ok (st', plan)) : plan ≠ [] := by
  unfold planMunmap at h
  obtain ⟨⟨st₁, freed⟩, -, h⟩ := bind_eq_ok.mp h
  dsimp only at h
  split at h
  · cases h
    simp
  · cases h
    assumption

theorem planMremapPair_ne_nil {ctx : VmContext} {st st' : VmState} {raw : LinuxHeapEvent}
    {sectionSource : Bool} {plan : List VmPlanRecord}
    (h : st.planMremapPair ctx raw sectionSource = .ok (st', plan)) : plan ≠ [] := by
  unfold planMremapPair at h
  obtain ⟨⟨st₁, freed⟩, -, h⟩ := bind_eq_ok.mp h
  obtain ⟨⟨st₂, created⟩, hcreate, h⟩ := bind_eq_ok.mp h
  cases h
  exact fun hnil => planCreate_ne_nil hcreate (List.append_eq_nil_iff.mp hnil).2

theorem planMremapResize_ne_nil {ctx : VmContext} {st st' : VmState} {raw : LinuxHeapEvent}
    {source : LiveMappingGeneration} {fragmentEnd : ℕ} {plan : List VmPlanRecord}
    (h : st.planMremapResize ctx raw source fragmentEnd = .ok (st', plan)) : plan ≠ [] := by
  unfold planMremapResize at h
  dsimp only at h
  split at h
  · cases h
    simp
  split at h
  · obtain ⟨space, -, h⟩ := bind_eq_ok.mp h
    obtain ⟨source, -, h⟩ := bind_eq_ok.mp h
    cases h
    simp
  split at h
  · unfold planMremapShrink at h
    obtain ⟨_, -, h⟩ := bind_eq_ok.mp h
    obtain ⟨source, -, h⟩ := bind_eq_ok.mp h
    dsimp only at h
    split at h
    · obtain ⟨⟨st₁, tail⟩, -, h⟩ := bind_eq_ok.mp h
      cases h
      simp
    · cases h
      simp
  · cases h
    simp

theorem planMremap_ne_nil {ctx : VmContext} {st st' : VmState} {raw : LinuxHeapEvent}
    {plan : List VmPlanRecord} (h : st.planMremap ctx raw = .ok (st', plan)) : plan ≠ [] := by
  unfold planMremap at h
  split at h
  · obtain ⟨source, -, h⟩ := bind_eq_ok.mp h
    split at h
    · exact planMremapPair_ne_nil h
    split at h
    · exact planMremapPair_ne_nil h
    split at h
    · exact planMremapResize_ne_nil h
    · exact planCreate_ne_nil h
  · split at h
    · exact planMremapPair_ne_nil h
    · exact planCreate_ne_nil h

theorem planVmEvent_ne_nil {ctx : VmContext} {st st' : VmState} {raw : LinuxHeapEvent}
    {plan : List VmPlanRecord} (h : st.planVmEvent ctx raw = .ok (st', plan)) : plan ≠ [] := by
  unfold planVmEvent at h
  split at h
  · split at h
    · split at h
      · exact planCreate_ne_nil h
      · exact planCreate_ne_nil h
    · exact planMunmap_ne_nil h
    · exact planMremap_ne_nil h
    · cases h
  · cases h
    simp

/-- A failed call is one record. -/
theorem planVmEvent_failed {ctx : VmContext} {st st' : VmState} {raw : LinuxHeapEvent}
    {plan : List VmPlanRecord} (hfailed : ¬ raw.Succeeded)
    (h : st.planVmEvent ctx raw = .ok (st', plan)) :
    st' = st ∧ plan = [failedRecord ctx raw] := by
  unfold planVmEvent at h
  rw [if_neg hfailed] at h
  cases h
  exact ⟨rfl, rfl⟩

/-- The model after one event. -/
def planStep (ctx : VmContext) (st : VmState) (raw : LinuxHeapEvent) : Except Error VmState := do
  let (st, _) ← st.planVmEvent ctx raw
  return st

/-- The model after a stream of VM events, in arrival order. -/
def planRun (ctx : VmContext) (st : VmState) (raws : List LinuxHeapEvent) :
    Except Error VmState := raws.foldlM (planStep ctx) st

end VmState

/-! ## Stamping

`process_event` gives every planned record the raw event's header, the next wire
sequence and its own status. -/

def stampPlan (header : EventHeader) : ℕ → List VmPlanRecord → List Event
  | _, [] => []
  | sequence, record :: plan =>
      { header := { header with sequence := sequence, status := record.status }
        payload := record.payload } :: stampPlan header (sequence + 1) plan

theorem stampPlan_append (header : EventHeader) (sequence : ℕ) (rs ss : List VmPlanRecord) :
    stampPlan header sequence (rs ++ ss) =
      stampPlan header sequence rs ++ stampPlan header (sequence + rs.length) ss := by
  induction rs generalizing sequence with
  | nil => simp [stampPlan]
  | cons r rs ih =>
      rw [List.cons_append, stampPlan, stampPlan, ih, List.cons_append, List.length_cons]
      congr 2
      ring_nf

end Noleax.Agent
