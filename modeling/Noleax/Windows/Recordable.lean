import Noleax.Windows.MappingAgreement

/-!
# Events whose record can be built

The branches of `process_event` throw where an id space is exhausted or where a creation
meets what the writer still believes live. `Recordable` states those conditions on the
members before the event; without them a branch returns, and its record is valid.
-/

namespace Noleax.Windows

open Lib Trace
open Agent (VmContext)

/-! ## The conditions -/

/-- The id the next generation of an API gets. -/
def LiveState.nextIdOf (live : LiveState) (apiId : ℕ) : ℕ :=
  if apiId = 0 then live.nextAllocationId
  else (apiId <<< 40) ||| (live.customAllocationCounters apiId + 1)

/-- There is an id left for a generation of an API. -/
abbrev LiveState.HasNextId (live : LiveState) (apiId : ℕ) : Prop :=
  if apiId = 0 then live.nextAllocationId ≠ maxU64
  else live.customAllocationCounters apiId < 2 ^ 40

/-- An allocation of the process reaches `create_virtual_mapping`. -/
abbrev StartsReservation (live : LiveState) (raw : RtlHeapEvent) : Prop :=
  (raw.flags &&& memReserve ≠ 0 ∨
    live.findVirtualMapping raw.resultAddress raw.rawResult false = none) ∧
  live.liveVirtualMappings.lookup raw.reservedBase = none

/-- What a successful event needs of the members for its record to be built. -/
structure Recordable (ctx : VmContext) (live : LiveState) (raw : RtlHeapEvent) : Prop where
  create : raw.operation = .create → raw.Succeeded →
    live.nextHeapId ≠ maxU64 ∧ live.liveHeaps raw.resultAddress = none
  generation : raw.operation = .allocate ∨ raw.operation = .reallocate → raw.Succeeded →
    live.HasNextId raw.apiId
  distinct : raw.operation = .reallocate → raw.Succeeded →
    live.liveAllocations ⟨raw.heapHandle, raw.address⟩ ≠ some (live.nextIdOf raw.apiId)
  reservation : raw.operation = .vmAllocate → raw.Succeeded → raw.OnCurrentProcess ctx →
    StartsReservation live raw →
    live.nextMappingId ≠ maxU64 ∧ raw.reservedBase ≠ 0 ∧ raw.reservedSize ≠ 0
  view : raw.operation = .sectionMap → raw.Succeeded → raw.OnCurrentProcess ctx →
    live.nextMappingId ≠ maxU64 ∧ raw.resultAddress ≠ 0 ∧ raw.rawResult ≠ 0 ∧
      ¬ live.liveSectionMappings.Contains raw.resultAddress

set_option synthInstance.maxSize 1024 in
instance (ctx : VmContext) (live : LiveState) (raw : RtlHeapEvent) :
    Decidable (Recordable ctx live raw) :=
  decidable_of_iff (_ ∧ _ ∧ _ ∧ _ ∧ _)
    ⟨fun h => ⟨h.1, h.2.1, h.2.2.1, h.2.2.2.1, h.2.2.2.2⟩,
      fun h => ⟨h.create, h.generation, h.distinct, h.reservation, h.view⟩⟩

section Branches

variable {ctx : VmContext} {live live' : LiveState} {raw : RtlHeapEvent}

/-! ## A branch returns -/

theorem makeAllocationId_run (h : live.HasNextId raw.apiId) :
    ∃ next, live.makeAllocationId raw.apiId = .ok (next, live.nextIdOf raw.apiId) := by
  unfold LiveState.makeAllocationId LiveState.nextIdOf
  unfold LiveState.HasNextId at h
  by_cases hzero : raw.apiId = 0
  · rw [if_pos hzero] at h
    rw [if_pos hzero, if_pos hzero, failIf_of_not h]
    exact ⟨_, rfl⟩
  · rw [if_neg hzero] at h
    rw [if_neg hzero, if_neg hzero]
    dsimp only
    rw [failIf_of_not (Nat.not_le.mpr h)]
    exact ⟨_, rfl⟩

theorem reserveMapping_run {allocation : VmAllocateEvent}
    (h : live.liveVirtualMappings.lookup raw.reservedBase = none →
      live.nextMappingId ≠ maxU64 ∧ raw.reservedBase ≠ 0 ∧ raw.reservedSize ≠ 0) :
    ∃ result, live.reserveMapping raw allocation = .ok result := by
  rw [reserveMapping_eq]
  cases hknown : live.liveVirtualMappings.lookup raw.reservedBase with
  | some mapping => exact ⟨_, rfl⟩
  | none =>
      obtain ⟨hnext, hbase, hsize⟩ := h hknown
      have hnew := SortedMap.lookup_eq_none.mp hknown
      unfold LiveState.createVirtualMapping
      rw [failIf_of_not hnext, ok_bind, failIf_of_not]
      · exact ⟨_, rfl⟩
      · rintro (hzero | hzero | hcontains)
        · exact hbase hzero
        · exact hsize hzero
        · exact hnew hcontains

theorem planEvent_run (h : Recordable ctx live raw) :
    ∃ result, planEvent ctx live raw = .ok result := by
  unfold planEvent
  cases hop : raw.operation with
  | create =>
      dsimp only
      unfold planCreate
      by_cases hsucceeded : raw.Succeeded
      · obtain ⟨hnext, hnew⟩ := h.create hop hsucceeded
        rw [if_pos hsucceeded, failIf_of_not hnext, ok_bind, failIf_of_not (by rw [hnew]; decide)]
        exact ⟨_, rfl⟩
      · rw [if_neg hsucceeded]
        exact ⟨_, rfl⟩
  | allocate =>
      dsimp only
      unfold planAllocate
      by_cases hsucceeded : raw.Succeeded
      · obtain ⟨next, hmake⟩ := makeAllocationId_run (h.generation (.inl hop) hsucceeded)
        rw [if_pos hsucceeded, hmake]
        exact ⟨_, rfl⟩
      · rw [if_neg hsucceeded]
        exact ⟨_, rfl⟩
  | reallocate =>
      dsimp only
      unfold planReallocate
      by_cases hsucceeded : raw.Succeeded
      · have hroom : (live.eraseAllocation ⟨raw.heapHandle, raw.address⟩).HasNextId raw.apiId :=
          h.generation (.inr hop) hsucceeded
        obtain ⟨next, hmake⟩ := makeAllocationId_run hroom
        rw [if_pos hsucceeded, hmake]
        exact ⟨_, rfl⟩
      · rw [if_neg hsucceeded]
        exact ⟨_, rfl⟩
  | free =>
      dsimp only
      unfold planFree
      split
      · split
        · exact ⟨_, rfl⟩
        · exact ⟨_, rfl⟩
      · exact ⟨_, rfl⟩
  | destroy =>
      dsimp only
      unfold planDestroy
      split
      · exact ⟨_, rfl⟩
      · exact ⟨_, rfl⟩
  | vmAllocate =>
      dsimp only
      unfold planVmAllocate
      dsimp only
      by_cases hlocal : raw.Succeeded ∧ raw.OnCurrentProcess ctx
      · rw [if_pos hlocal]
        by_cases hreserve : raw.flags &&& memReserve ≠ 0
        · rw [if_pos hreserve]
          obtain ⟨result, hmapping⟩ := reserveMapping_run fun hnew =>
            h.reservation hop hlocal.1 hlocal.2 ⟨.inl hreserve, hnew⟩
          rw [hmapping]
          exact ⟨_, rfl⟩
        · rw [if_neg hreserve]
          cases hfound : live.findVirtualMapping raw.resultAddress raw.rawResult false with
          | some entry => exact ⟨_, rfl⟩
          | none =>
              obtain ⟨result, hmapping⟩ := reserveMapping_run fun hnew =>
                h.reservation hop hlocal.1 hlocal.2 ⟨.inr hfound, hnew⟩
              dsimp only
              rw [hmapping]
              exact ⟨_, rfl⟩
      · rw [if_neg hlocal]
        exact ⟨_, rfl⟩
  | vmFree =>
      dsimp only
      unfold planVmFree
      dsimp only
      split
      · split
        · exact ⟨_, rfl⟩
        · exact ⟨_, rfl⟩
      · exact ⟨_, rfl⟩
  | sectionMap =>
      dsimp only
      unfold planSectionMap
      dsimp only
      by_cases hlocal : raw.Succeeded ∧ raw.OnCurrentProcess ctx
      · obtain ⟨hnext, hbase, hsize, hnew⟩ := h.view hop hlocal.1 hlocal.2
        rw [if_pos hlocal]
        unfold LiveState.createSectionMapping
        rw [failIf_of_not hnext, ok_bind, failIf_of_not]
        · exact ⟨_, rfl⟩
        · rintro (hzero | hzero | hcontains)
          · exact hbase hzero
          · exact hsize hzero
          · exact hnew hcontains
      · rw [if_neg hlocal]
        exact ⟨_, rfl⟩
  | sectionUnmap =>
      dsimp only
      unfold planSectionUnmap
      dsimp only
      split
      · split
        · exact ⟨_, rfl⟩
        · exact ⟨_, rfl⟩
      · exact ⟨_, rfl⟩

/-! ## The record is valid -/

/-- No id is zero. -/
structure Identified (live : LiveState) : Prop where
  nextAllocation : live.nextAllocationId ≠ 0
  nextHeap : live.nextHeapId ≠ 0
  nextMapping : live.nextMappingId ≠ 0
  allocations : ∀ key id, live.liveAllocations key = some id → id ≠ 0
  heaps : ∀ handle id, live.liveHeaps handle = some id → id ≠ 0
  mappings : ∀ kind base mapping, (base, mapping) ∈ live.mappings kind → mapping.mappingId ≠ 0

theorem identified_empty : Identified {} where
  nextAllocation := Nat.one_ne_zero
  nextHeap := Nat.one_ne_zero
  nextMapping := Nat.one_ne_zero
  allocations := by
    intro key id h
    cases h
  heaps := by
    intro handle id h
    cases h
  mappings := by
    intro kind base mapping h
    cases kind <;> cases h

/-- A successful creation names its result, and no other does. -/
abbrev ResultNamed (raw : RtlHeapEvent) : Prop :=
  raw.operation = .create ∨ raw.operation = .allocate ∨ raw.operation = .reallocate →
    (raw.Succeeded ↔ raw.resultAddress ≠ 0)

theorem Accepted.resultNamed {rawContext : RawEventContext} (h : Accepted rawContext raw) :
    ResultNamed raw := by
  intro hcreation
  by_cases hcustom : raw.Custom
  · obtain ⟨-, hcustom⟩ := h.custom hcustom
    apply hcustom.result
    rintro hfree
    rw [hfree] at hcreation
    revert hcreation
    decide
  · obtain ⟨-, hconsistent⟩ := h.builtin hcustom
    rcases hcreation with hop | hop | hop <;> rw [hop] at hconsistent
    · exact not_not.mp fun hno => hconsistent (.inl hno)
    · exact not_not.mp fun hno => hconsistent (.inl hno)
    · exact not_not.mp fun hno => hconsistent (.inl hno)

/-- What a branch returns: ids that are not zero, and a record that is valid under any
header with its status. -/
def Recorded (live' : LiveState) (status : EventStatus) (payload : EventPayload) : Prop :=
  Identified live' ∧ ∀ header, validateHeader header = .ok () → header.status = status →
    validateEvent ⟨header, payload⟩ = .ok ()

variable {status : EventStatus} {payload : EventPayload}

/-- An id that was just made is not zero. -/
theorem makeAllocationId_identified {next : LiveState} {id : ℕ} (h : Identified live)
    (hmake : live.makeAllocationId raw.apiId = .ok (next, id)) :
    Identified next ∧ id ≠ 0 ∧ id = live.nextIdOf raw.apiId := by
  unfold LiveState.makeAllocationId at hmake
  unfold LiveState.nextIdOf
  by_cases hzero : raw.apiId = 0
  · rw [if_pos hzero, failIf_bind_eq_ok] at hmake
    cases hmake.2
    rw [if_pos hzero]
    exact ⟨⟨Nat.succ_ne_zero _, h.nextHeap, h.nextMapping, h.allocations, h.heaps, h.mappings⟩,
      h.nextAllocation, rfl⟩
  · rw [if_neg hzero] at hmake
    dsimp only at hmake
    rw [failIf_bind_eq_ok] at hmake
    cases hmake.2
    rw [if_neg hzero]
    refine ⟨⟨h.nextAllocation, h.nextHeap, h.nextMapping, h.allocations, h.heaps, h.mappings⟩, ?_,
      rfl⟩
    intro hor
    exact Nat.succ_ne_zero _ (Nat.or_eq_zero_iff.mp hor).2

theorem Identified.assign (h : Identified live) (key : AllocationKey) {id : ℕ} (hid : id ≠ 0) :
    Identified (live.assignAllocation key id) where
  nextAllocation := h.nextAllocation
  nextHeap := h.nextHeap
  nextMapping := h.nextMapping
  allocations := by
    intro other otherId hother
    rcases SortedMap.update_some_cases hother with ⟨-, rfl⟩ | ⟨-, hother⟩
    · exact hid
    · exact h.allocations other otherId hother
  heaps := h.heaps
  mappings := h.mappings

theorem Identified.eraseAllocation (h : Identified live) (key : AllocationKey) :
    Identified (live.eraseAllocation key) where
  nextAllocation := h.nextAllocation
  nextHeap := h.nextHeap
  nextMapping := h.nextMapping
  allocations := by
    intro other otherId hother
    exact h.allocations other otherId (SortedMap.update_none_cases hother).2
  heaps := h.heaps
  mappings := h.mappings

theorem validateEvent_eq {header : EventHeader} (hheader : validateHeader header = .ok ()) :
    validateEvent ⟨header, payload⟩ =
      match payload with
      | .heapCreate create => validateHeapCreate header create
      | .heapDestroy destroy => validateHeapDestroy header destroy
      | .allocation allocation => validateAllocation header allocation
      | .reallocation reallocation => validateReallocation header reallocation
      | .free free => validateFree header free
      | .vmAllocate allocation =>
          validateMappingCreation header allocation.target allocation.mappingId
      | .vmFree free => validateMappingEnd header free.target free.mappingId
      | .map mapping => validateMappingCreation header mapping.target mapping.mappingId
      | .unmap unmap => validateMappingEnd header unmap.target unmap.mappingId := by
  unfold validateEvent
  rw [hheader]
  rfl

theorem planCreate_recorded (h : Identified live) (hresult : raw.Succeeded ↔ raw.resultAddress ≠ 0)
    (hplan : planCreate live raw = .ok (live', status, payload)) :
    Recorded live' status payload := by
  unfold planCreate at hplan
  by_cases hsucceeded : raw.Succeeded
  · rw [if_pos hsucceeded, failIf_bind_eq_ok, failIf_bind_eq_ok] at hplan
    obtain ⟨-, -, hplan⟩ := hplan
    cases hplan
    refine ⟨?_, ?_⟩
    · refine ⟨h.nextAllocation, Nat.succ_ne_zero _, h.nextMapping, h.allocations, ?_, h.mappings⟩
      intro handle id hid
      rcases SortedMap.update_some_cases hid with ⟨-, rfl⟩ | ⟨-, hid⟩
      · exact h.nextHeap
      · exact h.heaps handle id hid
    · intro header hheader hstatus
      rw [callStatus_succeeded hsucceeded] at hstatus
      rw [validateEvent_eq hheader]
      have hnext := h.nextHeap
      have haddress := hresult.mp hsucceeded
      simp [validateHeapCreate, validateCallResultStatus, hstatus, failIf, hnext, haddress]
  · rw [if_neg hsucceeded] at hplan
    cases hplan
    refine ⟨h, ?_⟩
    intro header hheader hstatus
    rw [callStatus_failed hsucceeded] at hstatus
    rw [validateEvent_eq hheader]
    simp [validateHeapCreate, validateCallResultStatus, hstatus, failIf]

theorem planAllocate_recorded (h : Identified live)
    (hresult : raw.Succeeded ↔ raw.resultAddress ≠ 0)
    (hplan : planAllocate live raw = .ok (live', status, payload)) :
    Recorded live' status payload := by
  unfold planAllocate at hplan
  by_cases hsucceeded : raw.Succeeded
  · rw [if_pos hsucceeded] at hplan
    obtain ⟨⟨next, id⟩, hmake, hplan⟩ := bind_eq_ok.mp hplan
    cases hplan
    obtain ⟨hnext, hid, -⟩ := makeAllocationId_identified h hmake
    refine ⟨hnext.assign _ hid, ?_⟩
    intro header hheader hstatus
    rw [callStatus_succeeded hsucceeded] at hstatus
    rw [validateEvent_eq hheader]
    have haddress := hresult.mp hsucceeded
    simp [validateAllocation, validateCallResultStatus, hstatus, failIf, hid, haddress]
  · rw [if_neg hsucceeded] at hplan
    cases hplan
    refine ⟨h, ?_⟩
    intro header hheader hstatus
    rw [callStatus_failed hsucceeded] at hstatus
    rw [validateEvent_eq hheader]
    have haddress : raw.resultAddress = 0 := by
      by_contra hne
      exact hsucceeded (hresult.mpr hne)
    simp [validateAllocation, validateCallResultStatus, hstatus, failIf, haddress]

theorem unmatchedStatus_cases (ctx : VmContext) (known : Prop) [Decidable known] :
    unmatchedStatus ctx known = .preexisting ∨ unmatchedStatus ctx known = .unmatched := by
  unfold unmatchedStatus
  split
  · exact .inl rfl
  · exact .inr rfl

theorem planReallocate_identified (h : Identified live)
    (hplan : planReallocate ctx live raw = .ok (live', status, payload)) : Identified live' := by
  unfold planReallocate at hplan
  by_cases hsucceeded : raw.Succeeded
  · rw [if_pos hsucceeded] at hplan
    obtain ⟨⟨next, id⟩, hmake, hplan⟩ := bind_eq_ok.mp hplan
    cases hplan
    obtain ⟨hnext, hid, -⟩ := makeAllocationId_identified (h.eraseAllocation _) hmake
    exact hnext.assign _ hid
  · rw [if_neg hsucceeded] at hplan
    cases hplan
    exact h

theorem planReallocate_recorded (h : Identified live)
    (hresult : raw.Succeeded ↔ raw.resultAddress ≠ 0)
    (hdistinct : raw.Succeeded →
      live.liveAllocations ⟨raw.heapHandle, raw.address⟩ ≠ some (live.nextIdOf raw.apiId))
    (hplan : planReallocate ctx live raw = .ok (live', status, payload)) :
    Recorded live' status payload := by
  have hidentified := planReallocate_identified h hplan
  unfold planReallocate at hplan
  by_cases hsucceeded : raw.Succeeded
  · rw [if_pos hsucceeded] at hplan
    obtain ⟨⟨next, id⟩, hmake, hplan⟩ := bind_eq_ok.mp hplan
    obtain ⟨-, hid, hmade⟩ := makeAllocationId_identified (h.eraseAllocation _) hmake
    refine ⟨hidentified, ?_⟩
    cases hplan
    intro header hheader hstatus
    rw [validateEvent_eq hheader]
    have haddress := hresult.mp hsucceeded
    have hold := hdistinct hsucceeded
    have hmade : id = live.nextIdOf raw.apiId := hmade
    cases hknown : live.liveAllocations ⟨raw.heapHandle, raw.address⟩ with
    | some old =>
        rw [hknown] at hold
        have hne : old ≠ id := by
          rw [hmade]
          exact fun heq => hold (congrArg some heq)
        rw [hknown, if_pos (show (some old).isSome = true from rfl),
          callStatus_succeeded hsucceeded] at hstatus
        simp [validateReallocation, hstatus, failIf, hid, haddress, hne]
    | none =>
        rw [hknown, if_neg (show ¬ (none : Option ℕ).isSome = true by decide)] at hstatus
        rcases unmatchedStatus_cases ctx (raw.address ≠ 0) with hcase | hcase <;>
          simp [validateReallocation, hstatus, hcase, failIf, hid, haddress]
  · rw [if_neg hsucceeded] at hplan
    cases hplan
    refine ⟨h, ?_⟩
    intro header hheader hstatus
    rw [callStatus_failed hsucceeded] at hstatus
    rw [validateEvent_eq hheader]
    have haddress : raw.resultAddress = 0 := by
      by_contra hne
      exact hsucceeded (hresult.mpr hne)
    simp [validateReallocation, hstatus, failIf, haddress]

theorem planFree_recorded (h : Identified live)
    (hplan : planFree ctx live raw = .ok (live', status, payload)) :
    Recorded live' status payload := by
  unfold planFree at hplan
  by_cases hsucceeded : raw.Succeeded
  · rw [if_pos hsucceeded] at hplan
    cases hknown : live.liveAllocations ⟨raw.heapHandle, raw.address⟩ with
    | some id =>
        rw [hknown] at hplan
        cases hplan
        refine ⟨h.eraseAllocation _, ?_⟩
        intro header hheader hstatus
        rw [callStatus_succeeded hsucceeded] at hstatus
        rw [validateEvent_eq hheader]
        have hid := h.allocations _ id hknown
        simp [validateFree, hstatus, failIf, hid]
    | none =>
        rw [hknown] at hplan
        cases hplan
        refine ⟨h, ?_⟩
        intro header hheader hstatus
        rw [validateEvent_eq hheader]
        rcases unmatchedStatus_cases ctx (raw.address ≠ 0) with hcase | hcase <;>
          simp [validateFree, hstatus, hcase, failIf]
  · rw [if_neg hsucceeded] at hplan
    cases hplan
    refine ⟨h, ?_⟩
    intro header hheader hstatus
    rw [callStatus_failed hsucceeded] at hstatus
    rw [validateEvent_eq hheader]
    simp [validateFree, hstatus, failIf]

theorem planDestroy_recorded (h : Identified live)
    (hplan : planDestroy ctx live raw = .ok (live', status, payload)) :
    Recorded live' status payload := by
  unfold planDestroy at hplan
  cases hknown : live.liveHeaps raw.heapHandle with
  | some id =>
      rw [hknown] at hplan
      cases hplan
      have hid := h.heaps _ id hknown
      refine ⟨?_, ?_⟩
      · split
        · refine ⟨h.nextAllocation, h.nextHeap, h.nextMapping, ?_, ?_, h.mappings⟩
          · intro key other hother
            have hother : (if key.heapHandle = raw.heapHandle then none
              else live.liveAllocations key) = some other := hother
            split at hother
            · cases hother
            · exact h.allocations key other hother
          · intro handle other hother
            exact h.heaps handle other (SortedMap.update_none_cases hother).2
        · exact h
      · intro header hheader hstatus
        rw [validateEvent_eq hheader]
        by_cases hsucceeded : raw.Succeeded
        · rw [callStatus_succeeded hsucceeded] at hstatus
          simp [validateHeapDestroy, hstatus, failIf, hid]
        · rw [callStatus_failed hsucceeded] at hstatus
          simp [validateHeapDestroy, hstatus, failIf]
  | none =>
      rw [hknown] at hplan
      cases hplan
      refine ⟨h, ?_⟩
      intro header hheader hstatus
      rw [validateEvent_eq hheader]
      by_cases hsucceeded : raw.Succeeded
      · rw [if_pos hsucceeded] at hstatus
        rcases unmatchedStatus_cases ctx True with hcase | hcase <;>
          simp [validateHeapDestroy, hstatus, hcase, failIf]
      · rw [if_neg hsucceeded, callStatus_failed hsucceeded] at hstatus
        simp [validateHeapDestroy, hstatus, failIf]

/-- A creating record of a mapping names it exactly when the call succeeded here. -/
theorem validateMappingCreation_none {header : EventHeader} {target : ProcessTarget}
    (hstatus : header.status = .success ∨ header.status = .failure)
    (hother : ¬ (header.status = .success ∧ target.scope = .currentProcess)) :
    validateMappingCreation header target 0 = .ok () := by
  unfold validateMappingCreation
  rcases hstatus with hs | hs
  · have hscope : target.scope ≠ .currentProcess := fun hlocal => hother ⟨hs, hlocal⟩
    simp [failIf, hs, hscope]
  · simp [failIf, hs]

theorem validateMappingEnd_none {header : EventHeader} {target : ProcessTarget}
    (hother : ¬ (header.status = .success ∧ target.scope = .currentProcess)) :
    validateMappingEnd header target 0 = .ok () := by
  unfold validateMappingEnd
  rw [failIf_of_not (by simp), ok_bind, failIf_of_not (by simp), ok_bind, failIf_of_not]
  exact fun hboth => hother ⟨hboth.1, hboth.2.1⟩

theorem callStatus_cases (raw : RtlHeapEvent) :
    callStatus raw = .success ∨ callStatus raw = .failure := by
  unfold callStatus
  split
  · exact .inl rfl
  · exact .inr rfl

theorem callStatus_eq_success : callStatus raw = .success ↔ raw.Succeeded := by
  unfold callStatus
  split
  · rename_i h
    exact ⟨fun _ => h, fun _ => rfl⟩
  · rename_i h
    exact ⟨fun heq => (nomatch heq), fun hs => absurd hs h⟩

/-- The mapping maps after a change of one of them. -/
theorem Identified.mapped (h : Identified live) {next : ℕ} (hnext : next ≠ 0) {kind : Bool}
    {entries : SortedMap VirtualMapping} {virtual sections : SortedMap VirtualMapping}
    (hmappings : ({ live with
      liveVirtualMappings := virtual, liveSectionMappings := sections } : LiveState).mappings =
        Function.update live.mappings kind entries)
    (hentries : ∀ base mapping, (base, mapping) ∈ entries → mapping.mappingId ≠ 0) :
    Identified { live with
      nextMappingId := next, liveVirtualMappings := virtual, liveSectionMappings := sections } where
  nextAllocation := h.nextAllocation
  nextHeap := h.nextHeap
  nextMapping := hnext
  allocations := h.allocations
  heaps := h.heaps
  mappings := by
    intro other base mapping hmem
    have hmem : (base, mapping) ∈ ({ live with
      liveVirtualMappings := virtual, liveSectionMappings := sections } : LiveState).mappings other :=
        hmem
    rw [hmappings] at hmem
    by_cases hother : other = kind
    · subst hother
      rw [Function.update_self] at hmem
      exact hentries base mapping hmem
    · rw [Function.update_of_ne hother] at hmem
      exact h.mappings other base mapping hmem

theorem reserveMapping_recorded (h : Identified live) {allocation recorded : VmAllocateEvent}
    (hmapping : live.reserveMapping raw allocation = .ok (live', recorded)) :
    Identified live' ∧ recorded.mappingId ≠ 0 ∧ recorded.target = allocation.target := by
  rcases reserveMapping_ok hmapping with
    ⟨mapping, hfound, rfl, rfl⟩ | ⟨-, -, -, -, rfl, rfl⟩
  · have hmem : (raw.reservedBase, mapping) ∈ live.mappings false :=
      SortedMap.mem_of_lookup hfound
    refine ⟨h.mapped h.nextMapping (mappings_virtual live _) ?_, h.mappings _ _ _ hmem, rfl⟩
    intro base other hother
    rcases SortedMap.mem_adjust.mp hother with ⟨hother, -⟩ | ⟨-, old, hold, heq⟩
    · exact h.mappings false base other hother
    · have heq : other = { old with size := max mapping.size raw.reservedSize } := heq
      rw [heq]
      exact h.mappings false _ old hold
  · refine ⟨h.mapped (Nat.succ_ne_zero _) (mappings_virtual live _) ?_, h.nextMapping, rfl⟩
    intro base other hother
    rcases SortedMap.mem_insert.mp hother with heq | hother
    · cases heq
      exact h.nextMapping
    · exact h.mappings false base other hother

theorem planVmAllocate_recorded (h : Identified live)
    (hplan : planVmAllocate ctx live raw = .ok (live', status, payload)) :
    Recorded live' status payload := by
  unfold planVmAllocate at hplan
  dsimp only at hplan
  by_cases hlocal : raw.Succeeded ∧ raw.OnCurrentProcess ctx
  · rw [if_pos hlocal, callStatus_succeeded hlocal.1] at hplan
    by_cases hreserve : raw.flags &&& memReserve ≠ 0
    · rw [if_pos hreserve] at hplan
      obtain ⟨⟨next, recorded⟩, hmapping, hplan⟩ := bind_eq_ok.mp hplan
      cases hplan
      obtain ⟨hnext, hid, htarget⟩ := reserveMapping_recorded h hmapping
      refine ⟨hnext, ?_⟩
      intro header hheader hstatus
      rw [validateEvent_eq hheader]
      exact validateMappingCreation_local (by rw [htarget]; exact hlocal.2) hid (.inl hstatus)
    · rw [if_neg hreserve] at hplan
      cases hfound : live.findVirtualMapping raw.resultAddress raw.rawResult false with
      | some entry =>
          obtain ⟨base, mapping⟩ := entry
          rw [hfound] at hplan
          cases hplan
          refine ⟨h, ?_⟩
          intro header hheader hstatus
          rw [validateEvent_eq hheader]
          exact validateMappingCreation_local hlocal.2
            (h.mappings _ _ _ (mem_of_findVirtualMapping hfound)) (.inl hstatus)
      | none =>
          rw [hfound] at hplan
          obtain ⟨⟨next, recorded⟩, hmapping, hplan⟩ := bind_eq_ok.mp hplan
          cases hplan
          obtain ⟨hnext, hid, htarget⟩ := reserveMapping_recorded h hmapping
          refine ⟨hnext, ?_⟩
          intro header hheader hstatus
          rw [validateEvent_eq hheader]
          refine validateMappingCreation_local (by rw [htarget]; exact hlocal.2) hid ?_
          rw [hstatus]
          split
          · exact .inr rfl
          · exact .inl rfl
  · rw [if_neg hlocal] at hplan
    cases hplan
    refine ⟨h, ?_⟩
    intro header hheader hstatus
    rw [validateEvent_eq hheader]
    apply validateMappingCreation_none
    · rw [hstatus]
      exact callStatus_cases raw
    · rw [hstatus, callStatus_eq_success]
      exact hlocal

theorem planVmFree_recorded (h : Identified live)
    (hplan : planVmFree ctx live raw = .ok (live', status, payload)) :
    Recorded live' status payload := by
  unfold planVmFree at hplan
  dsimp only at hplan
  by_cases hlocal : raw.Succeeded ∧ raw.OnCurrentProcess ctx
  · rw [if_pos hlocal, callStatus_succeeded hlocal.1] at hplan
    cases hfound : live.findVirtualMapping raw.address raw.rawResult raw.ReleasesMapping with
    | some entry =>
        obtain ⟨base, mapping⟩ := entry
        rw [hfound] at hplan
        cases hplan
        have hmem := mem_of_findVirtualMapping hfound
        refine ⟨?_, ?_⟩
        · split
          · refine h.mapped h.nextMapping (mappings_virtual live _) ?_
            intro other otherMapping hother
            exact h.mappings false _ _ (SortedMap.mem_erase.mp hother).1
          · exact h
        · intro header hheader hstatus
          rw [validateEvent_eq hheader]
          exact validateMappingEnd_local hlocal.2 (h.mappings _ _ _ hmem) hstatus
    | none =>
        rw [hfound] at hplan
        cases hplan
        refine ⟨h, ?_⟩
        intro header hheader hstatus
        rw [validateEvent_eq hheader]
        apply validateMappingEnd_unmatched
        rw [hstatus]
        rcases unmatchedStatus_cases ctx True with hcase | hcase <;> rw [hcase] <;> decide
  · rw [if_neg hlocal] at hplan
    cases hplan
    refine ⟨h, ?_⟩
    intro header hheader hstatus
    rw [validateEvent_eq hheader]
    apply validateMappingEnd_none
    rw [hstatus, callStatus_eq_success]
    exact hlocal

theorem planSectionMap_recorded (h : Identified live)
    (hplan : planSectionMap ctx live raw = .ok (live', status, payload)) :
    Recorded live' status payload := by
  unfold planSectionMap at hplan
  dsimp only at hplan
  by_cases hlocal : raw.Succeeded ∧ raw.OnCurrentProcess ctx
  · rw [if_pos hlocal, callStatus_succeeded hlocal.1] at hplan
    obtain ⟨⟨next, id⟩, hcreate, hplan⟩ := bind_eq_ok.mp hplan
    cases hplan
    unfold LiveState.createSectionMapping at hcreate
    rw [failIf_bind_eq_ok, failIf_bind_eq_ok] at hcreate
    cases hcreate.2.2
    refine ⟨h.mapped (Nat.succ_ne_zero _) (mappings_section live _) ?_, ?_⟩
    · intro base other hother
      rcases SortedMap.mem_insert.mp hother with heq | hother
      · cases heq
        exact h.nextMapping
      · exact h.mappings true base other hother
    · intro header hheader hstatus
      rw [validateEvent_eq hheader]
      exact validateMappingCreation_local hlocal.2 h.nextMapping (.inl hstatus)
  · rw [if_neg hlocal] at hplan
    cases hplan
    refine ⟨h, ?_⟩
    intro header hheader hstatus
    rw [validateEvent_eq hheader]
    apply validateMappingCreation_none
    · rw [hstatus]
      exact callStatus_cases raw
    · rw [hstatus, callStatus_eq_success]
      exact hlocal

theorem planSectionUnmap_recorded (h : Identified live)
    (hplan : planSectionUnmap ctx live raw = .ok (live', status, payload)) :
    Recorded live' status payload := by
  unfold planSectionUnmap at hplan
  dsimp only at hplan
  by_cases hlocal : raw.Succeeded ∧ raw.OnCurrentProcess ctx
  · rw [if_pos hlocal, callStatus_succeeded hlocal.1] at hplan
    cases hfound : live.findSectionMapping raw.address with
    | some entry =>
        obtain ⟨base, mapping⟩ := entry
        rw [hfound] at hplan
        cases hplan
        have hmem := mem_of_findSectionMapping hfound
        refine ⟨?_, ?_⟩
        · refine h.mapped h.nextMapping (mappings_section live _) ?_
          intro other otherMapping hother
          exact h.mappings true _ _ (SortedMap.mem_erase.mp hother).1
        · intro header hheader hstatus
          rw [validateEvent_eq hheader]
          exact validateMappingEnd_local hlocal.2 (h.mappings _ _ _ hmem) hstatus
    | none =>
        rw [hfound] at hplan
        cases hplan
        refine ⟨h, ?_⟩
        intro header hheader hstatus
        rw [validateEvent_eq hheader]
        apply validateMappingEnd_unmatched
        rw [hstatus]
        rcases unmatchedStatus_cases ctx True with hcase | hcase <;> rw [hcase] <;> decide
  · rw [if_neg hlocal] at hplan
    cases hplan
    refine ⟨h, ?_⟩
    intro header hheader hstatus
    rw [validateEvent_eq hheader]
    apply validateMappingEnd_none
    rw [hstatus, callStatus_eq_success]
    exact hlocal

/-- Every branch keeps the ids from zero. -/
theorem planEvent_identified (h : Identified live) (hresult : ResultNamed raw)
    (hplan : planEvent ctx live raw = .ok (live', status, payload)) : Identified live' := by
  unfold planEvent at hplan
  cases hop : raw.operation <;> rw [hop] at hplan
  case create => exact (planCreate_recorded h (hresult (.inl hop)) hplan).1
  case allocate => exact (planAllocate_recorded h (hresult (.inr (.inl hop))) hplan).1
  case reallocate => exact planReallocate_identified h hplan
  case free => exact (planFree_recorded h hplan).1
  case destroy => exact (planDestroy_recorded h hplan).1
  case vmAllocate => exact (planVmAllocate_recorded h hplan).1
  case vmFree => exact (planVmFree_recorded h hplan).1
  case sectionMap => exact (planSectionMap_recorded h hplan).1
  case sectionUnmap => exact (planSectionUnmap_recorded h hplan).1

/-- Every branch returns a valid record. -/
theorem planEvent_recorded (h : Identified live) (hresult : ResultNamed raw)
    (hdistinct : raw.operation = .reallocate → raw.Succeeded →
      live.liveAllocations ⟨raw.heapHandle, raw.address⟩ ≠ some (live.nextIdOf raw.apiId))
    (hplan : planEvent ctx live raw = .ok (live', status, payload)) :
    Recorded live' status payload := by
  unfold planEvent at hplan
  cases hop : raw.operation <;> rw [hop] at hplan
  case create => exact planCreate_recorded h (hresult (.inl hop)) hplan
  case allocate => exact planAllocate_recorded h (hresult (.inr (.inl hop))) hplan
  case reallocate =>
    exact planReallocate_recorded h (hresult (.inr (.inr hop))) (hdistinct hop) hplan
  case free => exact planFree_recorded h hplan
  case destroy => exact planDestroy_recorded h hplan
  case vmAllocate => exact planVmAllocate_recorded h hplan
  case vmFree => exact planVmFree_recorded h hplan
  case sectionMap => exact planSectionMap_recorded h hplan
  case sectionUnmap => exact planSectionUnmap_recorded h hplan

/-! ## The ids that were given out -/

/-- A branch gives out at most one id of a kind. -/
structure IdsStep (live live' : LiveState) : Prop where
  heap : live'.nextHeapId ≤ live.nextHeapId + 1
  mapping : live'.nextMappingId ≤ live.nextMappingId + 1

theorem IdsStep.refl (live : LiveState) : IdsStep live live := ⟨Nat.le_succ _, Nat.le_succ _⟩

theorem reserveMapping_ids {allocation recorded : VmAllocateEvent}
    (h : live.reserveMapping raw allocation = .ok (live', recorded)) : IdsStep live live' := by
  rcases reserveMapping_ok h with ⟨mapping, -, rfl, -⟩ | ⟨-, -, -, -, rfl, -⟩
  · exact ⟨Nat.le_succ _, Nat.le_succ _⟩
  · exact ⟨Nat.le_succ _, Nat.le_refl _⟩

theorem makeAllocationId_ids {apiId id : ℕ} (h : live.makeAllocationId apiId = .ok (live', id)) :
    live'.nextHeapId = live.nextHeapId ∧ live'.nextMappingId = live.nextMappingId := by
  unfold LiveState.makeAllocationId at h
  split at h
  · cases (failIf_bind_eq_ok.mp h).2
    exact ⟨rfl, rfl⟩
  · dsimp only at h
    cases (failIf_bind_eq_ok.mp h).2
    exact ⟨rfl, rfl⟩

theorem planEvent_ids (hplan : planEvent ctx live raw = .ok (live', status, payload)) :
    IdsStep live live' := by
  unfold planEvent at hplan
  cases hop : raw.operation with
  | create =>
      rw [hop] at hplan
      dsimp only at hplan
      unfold planCreate at hplan
      dsimp only at hplan
      split at hplan
      · cases (failIf_bind_eq_ok.mp (failIf_bind_eq_ok.mp hplan).2).2
        exact ⟨Nat.le_refl _, Nat.le_succ _⟩
      · cases hplan
        exact .refl live
  | allocate =>
      rw [hop] at hplan
      dsimp only at hplan
      unfold planAllocate at hplan
      dsimp only at hplan
      split at hplan
      · obtain ⟨⟨next, id⟩, hmake, hplan⟩ := bind_eq_ok.mp hplan
        cases hplan
        obtain ⟨hheap, hmapping⟩ := makeAllocationId_ids hmake
        exact ⟨hheap.le.trans (Nat.le_succ _), hmapping.le.trans (Nat.le_succ _)⟩
      · cases hplan
        exact .refl live
  | reallocate =>
      rw [hop] at hplan
      dsimp only at hplan
      unfold planReallocate at hplan
      dsimp only at hplan
      split at hplan
      · obtain ⟨⟨next, id⟩, hmake, hplan⟩ := bind_eq_ok.mp hplan
        cases hplan
        obtain ⟨hheap, hmapping⟩ := makeAllocationId_ids hmake
        exact ⟨hheap.le.trans (Nat.le_succ _), hmapping.le.trans (Nat.le_succ _)⟩
      · cases hplan
        exact .refl live
  | free =>
      rw [hop] at hplan
      dsimp only at hplan
      unfold planFree at hplan
      dsimp only at hplan
      split at hplan
      · split at hplan
        · cases hplan
          exact ⟨Nat.le_succ _, Nat.le_succ _⟩
        · cases hplan
          exact .refl live
      · cases hplan
        exact .refl live
  | destroy =>
      rw [hop] at hplan
      dsimp only at hplan
      unfold planDestroy at hplan
      dsimp only at hplan
      split at hplan
      · cases hplan
        split
        · exact ⟨Nat.le_succ _, Nat.le_succ _⟩
        · exact .refl live
      · cases hplan
        exact .refl live
  | vmAllocate =>
      rw [hop] at hplan
      dsimp only at hplan
      unfold planVmAllocate at hplan
      dsimp only at hplan
      split at hplan
      · split at hplan
        · obtain ⟨⟨next, recorded⟩, hmapping, hplan⟩ := bind_eq_ok.mp hplan
          cases hplan
          exact reserveMapping_ids hmapping
        · split at hplan
          · cases hplan
            exact .refl live
          · obtain ⟨⟨next, recorded⟩, hmapping, hplan⟩ := bind_eq_ok.mp hplan
            cases hplan
            exact reserveMapping_ids hmapping
      · cases hplan
        exact .refl live
  | vmFree =>
      rw [hop] at hplan
      dsimp only at hplan
      unfold planVmFree at hplan
      dsimp only at hplan
      split at hplan
      · split at hplan
        · cases hplan
          split
          · exact ⟨Nat.le_succ _, Nat.le_succ _⟩
          · exact .refl live
        · cases hplan
          exact .refl live
      · cases hplan
        exact .refl live
  | sectionMap =>
      rw [hop] at hplan
      dsimp only at hplan
      unfold planSectionMap at hplan
      dsimp only at hplan
      split at hplan
      · obtain ⟨⟨next, id⟩, hcreate, hplan⟩ := bind_eq_ok.mp hplan
        cases hplan
        unfold LiveState.createSectionMapping at hcreate
        cases (failIf_bind_eq_ok.mp (failIf_bind_eq_ok.mp hcreate).2).2
        exact ⟨Nat.le_succ _, Nat.le_refl _⟩
      · cases hplan
        exact .refl live
  | sectionUnmap =>
      rw [hop] at hplan
      dsimp only at hplan
      unfold planSectionUnmap at hplan
      dsimp only at hplan
      split at hplan
      · split at hplan
        · cases hplan
          exact ⟨Nat.le_succ _, Nat.le_succ _⟩
        · cases hplan
          exact .refl live
      · cases hplan
        exact .refl live

end Branches

end Noleax.Windows
