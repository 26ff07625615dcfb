import Noleax.Agent.HeapHooks

/-!
# The virtual memory replacements (`agent/linux/virtual_memory_hooks.cpp`)

Which raw event a call of `mmap`, `munmap` or `mremap` enqueues. The completion
sequence is taken after the original returned and before anything is enqueued.
-/

namespace Noleax.Agent

open Trace

structure VmEventFields where
  apiId : ℕ
  operation : LinuxHeapEventOperation
  requestedAddress : UInt64 := 0
  requestedSize : UInt64 := 0
  count : UInt64 := 0
  address : UInt64 := 0
  protection : UInt32 := 0
  mapFlags : UInt32 := 0
  sectionHandle : ℕ := 0
  sectionOffset : UInt64 := 0
  completionSequence : ℕ
  result : UInt64 := 0
  failed : Bool := false
  errorCode : UInt32 := 0

/-- The body of the `try_emplace` lambda; `int` arguments are zero-extended. -/
def emitVmEvent (stamp : EventStamp) (fields : VmEventFields) : LinuxHeapEvent :=
  { queueSequence := stamp.queueSequence
    monotonicTicks := stamp.monotonicTicks
    threadId := stamp.threadId
    requestedAddress := fields.requestedAddress.toNat
    requestedSize := fields.requestedSize.toNat
    count := fields.count.toNat
    address := fields.address.toNat
    protection := fields.protection.toNat
    mapFlags := fields.mapFlags.toNat
    sectionHandle := fields.sectionHandle
    sectionOffset := fields.sectionOffset.toNat
    completionSequence := fields.completionSequence
    operationResult := if fields.failed then fields.errorCode.toNat else 0
    apiId := fields.apiId
    operation := fields.operation
    status := if fields.failed then .failure else .success
    resultAddress := fields.result.toNat
    stack := stamp.stack }

/-- `MAP_FAILED` -/
def mapFailed : UInt64 := UInt64.ofNat maxU64

/-- `MREMAP_FIXED` -/
def mremapFixed : UInt32 := 2

/-- An anonymous mapping carries fd -1, recorded as `UINT64_MAX`. -/
def sectionHandleOf (fd : Int32) : ℕ := if fd = -1 then maxU64 else fd.toInt64.toUInt64.toNat

/-- The size floor is creation-side only. -/
def recordVmAllocate (minimumCaptureSize : UInt64) (stamp : EventStamp) (completionSequence : ℕ)
    (requestedAddress requestedSize : UInt64) (protection flags : UInt32) (fd : Int32)
    (sectionOffset result : UInt64) (errorCode : UInt32) : Option LinuxHeapEvent :=
  let failed := decide (result = mapFailed)
  if requestedSize < minimumCaptureSize then none
  else some (emitVmEvent stamp
    { apiId := LinuxLogicalHookApi.mmap.apiId
      operation := .vmAllocate
      requestedAddress := requestedAddress
      requestedSize := requestedSize
      protection := protection
      mapFlags := flags
      sectionHandle := sectionHandleOf fd
      sectionOffset := sectionOffset
      completionSequence := completionSequence
      result := if failed then 0 else result
      failed := failed
      errorCode := errorCode })

def recordVmUnmap (stamp : EventStamp) (completionSequence : ℕ) (address requestedSize : UInt64)
    (result : Int32) (errorCode : UInt32) : LinuxHeapEvent :=
  emitVmEvent stamp
    { apiId := LinuxLogicalHookApi.munmap.apiId
      operation := .vmUnmap
      requestedSize := requestedSize
      address := address
      completionSequence := completionSequence
      failed := result = -1
      errorCode := errorCode }

def recordVmRemap (stamp : EventStamp) (completionSequence : ℕ)
    (oldAddress oldSize newSize : UInt64) (flags : UInt32) (requestedNewAddress result : UInt64)
    (errorCode : UInt32) : LinuxHeapEvent :=
  let failed := decide (result = mapFailed)
  emitVmEvent stamp
    { apiId := LinuxLogicalHookApi.mremap.apiId
      operation := .vmRemap
      requestedSize := oldSize
      count := newSize
      requestedAddress := requestedNewAddress
      address := oldAddress
      mapFlags := flags
      completionSequence := completionSequence
      result := if failed then 0 else result
      failed := failed
      errorCode := errorCode }

/-- A call of a hooked function: its arguments, its result and the `errno` it left. -/
inductive VmCall where
  | mmap (address length : UInt64) (protection flags : UInt32) (fd : Int32) (offset result : UInt64)
      (errno : UInt32)
  | munmap (address length : UInt64) (result : Int32) (errno : UInt32)
  /-- `newAddress` is the variadic argument, null where the flags do not ask for it. -/
  | mremap (oldAddress oldSize newSize : UInt64) (flags : UInt32) (newAddress result : UInt64)
      (errno : UInt32)
deriving DecidableEq, Repr

namespace VmCall

/-- The event a recorded call enqueues, if any. -/
def event (minimumCaptureSize : UInt64) (stamp : EventStamp) (completionSequence : ℕ) :
    VmCall → Option LinuxHeapEvent
  | mmap address length protection flags fd offset result errno =>
      recordVmAllocate minimumCaptureSize stamp completionSequence address length protection flags
        fd offset result errno
  | munmap address length result errno =>
      some (recordVmUnmap stamp completionSequence address length result errno)
  | mremap oldAddress oldSize newSize flags newAddress result errno =>
      some (recordVmRemap stamp completionSequence oldAddress oldSize newSize flags
        (if flags &&& mremapFixed ≠ 0 then newAddress else 0) result errno)

/-- What `note_call_outcome` counts. -/
def failed : VmCall → Bool
  | mmap _ _ _ _ _ _ result _ => result = mapFailed
  | munmap _ _ result _ => result = -1
  | mremap _ _ _ _ _ result _ => result = mapFailed

/-- A successful move, for which the writer emits two records at least. -/
def paired : VmCall → Bool
  | mremap oldAddress _ _ _ _ result _ => result ≠ mapFailed ∧ result ≠ oldAddress
  | _ => false

def apiId : VmCall → ℕ
  | mmap .. => LinuxLogicalHookApi.mmap.apiId
  | munmap .. => LinuxLogicalHookApi.munmap.apiId
  | mremap .. => LinuxLogicalHookApi.mremap.apiId

end VmCall

end Noleax.Agent
