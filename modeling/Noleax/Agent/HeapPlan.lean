import Std.Data.ExtTreeMap
import Noleax.Agent.VmPlan

/-!
# Heap pairing of the writer (`agent/linux/trace_writer.cpp`)

The branches of `process_event` for the malloc family, realloc and free: which
generation a record creates and which one it ends. The members they own are
`HeapState`.
-/

namespace Noleax.Agent

open Lib Trace

/-- `live_allocations_` with the two allocation counters. -/
structure HeapState where
  live : Std.ExtTreeMap ℕ ℕ compare := ∅
  nextAllocationId : ℕ := 1
  customCounters : Std.ExtTreeMap ℕ ℕ compare := ∅

namespace HeapState

/-- `make_allocation_id`: built-in hooks share one counter, a custom hook point
counts in its own space. -/
def makeAllocationId (st : HeapState) (apiId : ℕ) : Except Error (HeapState × ℕ) :=
  if apiId < customHookApiIdBase then
    if st.nextAllocationId = maxU64 then .error (.overflow "allocation ID space is exhausted")
    else .ok ({ st with nextAllocationId := st.nextAllocationId + 1 }, st.nextAllocationId)
  else
    let counter := st.customCounters.getD apiId 0
    if 2 ^ 40 ≤ counter then .error (.overflow "custom hook allocation ID space is exhausted")
    else .ok ({ st with customCounters := st.customCounters.insert apiId (counter + 1) },
      (apiId <<< 40) ||| (counter + 1))

/-- A new generation at `address`. -/
def create (st : HeapState) (apiId address : ℕ) : Except Error (HeapState × ℕ) := do
  let (st, id) ← st.makeAllocationId apiId
  return ({ st with live := st.live.insert address id }, id)

def planAllocate (st : HeapState) (raw : LinuxHeapEvent) :
    Except Error (HeapState × EventStatus × AllocationEvent) :=
  if raw.Succeeded then do
    let (st, id) ← st.create raw.apiId raw.resultAddress
    return (st, .success,
      { requestedSize := raw.requestedSize
        resultAddress := raw.resultAddress
        allocationId := id })
  else
    .ok (st, .failure,
      { requestedSize := raw.requestedSize
        resultAddress := raw.resultAddress })

/-- The generation a realloc names as its old one. -/
def oldAllocation (st : HeapState) (raw : LinuxHeapEvent) : Option ℕ :=
  if raw.address ≠ 0 then st.live[raw.address]? else none

def reallocationBase (st : HeapState) (raw : LinuxHeapEvent) : ReallocationEvent where
  oldAddress := raw.address
  requestedSize := raw.requestedSize
  resultAddress := raw.resultAddress
  oldAllocationId := (st.oldAllocation raw).getD 0

def planReallocate (ctx : VmContext) (st : HeapState) (raw : LinuxHeapEvent) :
    Except Error (HeapState × EventStatus × ReallocationEvent) :=
  let base := st.reallocationBase raw
  if raw.Succeeded then
    match st.oldAllocation raw with
    | some _ =>
        let st := { st with live := st.live.erase raw.address }
        if raw.resultAddress = 0 then
          -- realloc(p, 0) frees the old generation and returns NULL
          .ok (st, .success, { base with effect := .freed })
        else do
          let (st, id) ← st.create raw.apiId raw.resultAddress
          return (st, .success, { base with newAllocationId := id, effect := .newGeneration })
    | none =>
        if raw.resultAddress ≠ 0 then do
          -- realloc(NULL, n) allocates a fresh generation with no old one
          let (st, id) ← st.create raw.apiId raw.resultAddress
          return (st, unmatchedStatus ctx raw.address,
            { base with newAllocationId := id, effect := .newGeneration })
        else .ok (st, unmatchedStatus ctx raw.address, base)
  else .ok (st, .failure, base)

def planFree (ctx : VmContext) (st : HeapState) (raw : LinuxHeapEvent) :
    HeapState × EventStatus × FreeEvent :=
  if raw.Succeeded then
    match st.live[raw.address]? with
    | some id =>
        ({ st with live := st.live.erase raw.address }, .success,
          { address := raw.address, allocationId := id })
    | none => (st, unmatchedStatus ctx raw.address, { address := raw.address })
  else (st, .failure, { address := raw.address })

/-- The record of a heap event: its status and its payload. -/
def planHeapEvent (ctx : VmContext) (st : HeapState) (raw : LinuxHeapEvent) :
    Except Error (HeapState × EventStatus × EventPayload) :=
  match raw.operation with
  | .allocate => do
      let (st, status, event) ← st.planAllocate raw
      return (st, status, .allocation event)
  | .reallocate => do
      let (st, status, event) ← st.planReallocate ctx raw
      return (st, status, .reallocation event)
  | .free =>
      let (st, status, event) := st.planFree ctx raw
      .ok (st, status, .free event)
  | _ => .error (.invalidArgument "raw Linux heap event is not a heap operation")

end HeapState

end Noleax.Agent
