import Noleax.Analyzer.StackTotals

/-!
# The callbacks tell the live generations

Who follows the callbacks of `GenerationTracker` knows the generations it holds, with
their sizes: every creation has a new key, every change replaces the size of a mapping
that is held, and every end is that of a generation as it is held.
-/

namespace Noleax.Analyzer

open Lib Trace

/-! ## Following the callbacks -/

/-- What is known of the generation after the callback. -/
def Notification.left : Notification → Option MemoryGeneration
  | .created generation => some generation
  | .changed generation _ => some generation
  | .ended _ _ _ => none

def Notification.toCreated : Notification → Option MemoryGeneration
  | .created generation => some generation
  | _ => none

/-- The generations created, in their order. -/
def born (notes : List Notification) : List MemoryGeneration :=
  notes.filterMap Notification.toCreated

theorem born_append (notes more : List Notification) :
    born (notes ++ more) = born notes ++ born more := List.filterMap_append

/-- What the callbacks have told. -/
structure Told where
  seen : Set GenerationKey
  held : GenerationKey → Option MemoryGeneration

def Told.hear (s : Told) (note : Notification) : Told where
  seen := insert note.generation.key s.seen
  held := Function.update s.held note.generation.key note.left

/-- A callback that fits what has been told, while the event is observed. -/
inductive Fits (event : Event) (s : Told) : Notification → Prop
  | created (generation : MemoryGeneration) (hnew : generation.key ∉ s.seen)
      (hby : generation.createdBy = event) : Fits event s (.created generation)
  | ended (generation : MemoryGeneration) (reason : GenerationEndReason)
      (hheld : s.held generation.key = some generation) :
      Fits event s (.ended generation reason event)
  | changed (generation : MemoryGeneration) (size : ℕ) (hkind : generation.kind ≠ .heapAllocation)
      (hheld : s.held generation.key = some generation) :
      Fits event s (.changed { generation with size := size } event)

/-- The callbacks of an event, one after the other. -/
inductive Tells (event : Event) : Told → List Notification → Told → Prop
  | refl (s : Told) : Tells event s [] s
  | step {s u : Told} {notes : List Notification} (note : Notification)
      (hnotes : Tells event s notes u) (hfits : Fits event u note) :
      Tells event s (notes ++ [note]) (u.hear note)

section Tells

variable {event : Event} {s u v : Told} {notes more : List Notification} {note : Notification}

theorem Tells.one (hfits : Fits event s note) : Tells event s [note] (s.hear note) :=
  .step note (.refl s) hfits

theorem Tells.trans (h : Tells event s notes u) (hmore : Tells event u more v) :
    Tells event s (notes ++ more) v := by
  induction hmore with
  | refl =>
      rw [List.append_nil]
      exact h
  | step note _ hfits ih =>
      rw [← List.append_assoc]
      exact .step note ih hfits

end Tells

/-! ## What is known of each key -/

section ByKey

variable {α β : Type} (f : β → α) (allocations : IdMap α) (mappings : IdMap β)

/-- The entry of an allocation or of a mapping. -/
def byKey : GenerationKey → Option α
  | .allocation id => allocations[id]?
  | .mapping id => mappings[id]?.map f

theorem byKey_insertAllocation (id : ℕ) (a : α) : byKey f (allocations.insert id a) mappings =
    Function.update (byKey f allocations mappings) (.allocation id) (some a) := by
  funext key
  cases key with
  | allocation other =>
      show (allocations.insert id a)[other]? = _
      rw [Std.ExtTreeMap.getElem?_insert]
      by_cases hid : id = other
      · rw [hid, Function.update_self, if_pos (Nat.compare_eq_eq.mpr rfl)]
      · rw [Function.update_of_ne fun heq => hid (GenerationKey.allocation.inj heq).symm,
          if_neg fun heq => hid (Nat.compare_eq_eq.mp heq)]
        rfl
  | mapping other =>
      rw [Function.update_of_ne (by simp)]
      rfl

theorem byKey_eraseAllocation (id : ℕ) : byKey f (allocations.erase id) mappings =
    Function.update (byKey f allocations mappings) (.allocation id) none := by
  funext key
  cases key with
  | allocation other =>
      show (allocations.erase id)[other]? = _
      rw [Std.ExtTreeMap.getElem?_erase]
      by_cases hid : id = other
      · rw [hid, Function.update_self, if_pos (Nat.compare_eq_eq.mpr rfl)]
      · rw [Function.update_of_ne fun heq => hid (GenerationKey.allocation.inj heq).symm,
          if_neg fun heq => hid (Nat.compare_eq_eq.mp heq)]
        rfl
  | mapping other =>
      rw [Function.update_of_ne (by simp)]
      rfl

theorem byKey_insertMapping (id : ℕ) (b : β) : byKey f allocations (mappings.insert id b) =
    Function.update (byKey f allocations mappings) (.mapping id) (some (f b)) := by
  funext key
  cases key with
  | allocation other =>
      rw [Function.update_of_ne (by simp)]
      rfl
  | mapping other =>
      show (mappings.insert id b)[other]?.map f = _
      rw [Std.ExtTreeMap.getElem?_insert]
      by_cases hid : id = other
      · rw [hid, Function.update_self, if_pos (Nat.compare_eq_eq.mpr rfl)]
        rfl
      · rw [Function.update_of_ne fun heq => hid (GenerationKey.mapping.inj heq).symm,
          if_neg fun heq => hid (Nat.compare_eq_eq.mp heq)]
        rfl

theorem byKey_eraseMapping (id : ℕ) : byKey f allocations (mappings.erase id) =
    Function.update (byKey f allocations mappings) (.mapping id) none := by
  funext key
  cases key with
  | allocation other =>
      rw [Function.update_of_ne (by simp)]
      rfl
  | mapping other =>
      show (mappings.erase id)[other]?.map f = _
      rw [Std.ExtTreeMap.getElem?_erase]
      by_cases hid : id = other
      · rw [hid, Function.update_self, if_pos (Nat.compare_eq_eq.mpr rfl)]
        rfl
      · rw [Function.update_of_ne fun heq => hid (GenerationKey.mapping.inj heq).symm,
          if_neg fun heq => hid (Nat.compare_eq_eq.mp heq)]
        rfl

end ByKey

/-! ## The tracker tells -/

namespace GenerationTracker

/-- The generation that is live under a key. -/
def held (t : GenerationTracker) : GenerationKey → Option MemoryGeneration :=
  byKey MappingState.generation t.liveAllocations t.liveMappings

/-- What a follower of the callbacks knows. -/
def told (t : GenerationTracker) : Told where
  seen := { key | t.Seen key }
  held := t.held

/-- The callbacks tell what has become of the tracker, and every creation is counted. -/
structure Reports (event : Event) (t : GenerationTracker) (notes : List Notification)
    (u : GenerationTracker) : Prop where
  tells : Tells event t.told notes u.told
  created : u.createdCount = t.createdCount + (born notes).length
  below : t.createdCount ≤ maxU64 → u.createdCount ≤ maxU64

section Reports

variable {event : Event} {t u v : GenerationTracker} {notes more : List Notification}

theorem Reports.trans (h : Reports event t notes u) (hmore : Reports event u more v) :
    Reports event t (notes ++ more) v where
  tells := h.tells.trans hmore.tells
  created := by
    rw [hmore.created, h.created]
    rw [born_append, List.length_append]
    omega
  below hle := hmore.below (h.below hle)

theorem reports_refl (t : GenerationTracker) : Reports event t [] t where
  tells := .refl _
  created := rfl
  below := id

/-- One callback. -/
theorem reports_one {note : Notification} (hfits : Fits event t.told note)
    (hseen : ∀ key, u.Seen key ↔ key = note.generation.key ∨ t.Seen key)
    (hheld : u.held = Function.update t.held note.generation.key note.left)
    (hcreated : u.createdCount = t.createdCount + (born [note]).length)
    (hbelow : t.createdCount ≤ maxU64 → u.createdCount ≤ maxU64) :
    Reports event t [note] u := by
  refine ⟨?_, hcreated, hbelow⟩
  have htold : u.told = t.told.hear note := by
    unfold told Told.hear
    congr 1
    ext key
    exact hseen key
  rw [htold]
  exact .one hfits

/-- No callback, and nothing that a follower knows has changed. -/
theorem reports_none (hseen : ∀ key, u.Seen key ↔ t.Seen key) (hheld : u.held = t.held)
    (hcreated : u.createdCount = t.createdCount) : Reports event t [] u := by
  refine ⟨?_, hcreated, fun hle => by rwa [hcreated]⟩
  have htold : u.told = t.told := by
    unfold told
    congr 1
    ext key
    exact hseen key
  rw [htold]
  exact .refl _

/-- A generation that is held was seen. -/
theorem seen_of_known {key : GenerationKey} {generation : MemoryGeneration} (h : t.Sound)
    (hkey : generation.key = key) (hlive : t.Live key)
    (hsame : ∀ other, u.Seen other ↔ t.Seen other) (other : GenerationKey) :
    u.Seen other ↔ other = generation.key ∨ t.Seen other := by
  rw [hsame]
  refine ⟨.inr, ?_⟩
  rintro (rfl | hseen)
  · rw [hkey]
    exact h.seen_of_live hlive
  · exact hseen

theorem checkedIncrement_below {value total : ℕ} {subject : String}
    (h : checkedIncrement value subject = .ok total) :
    total = value + 1 ∧ (value ≤ maxU64 → total ≤ maxU64) := by
  unfold checkedIncrement at h
  split at h
  · cases h
  · cases h
    exact ⟨rfl, fun hle => by omega⟩

theorem addAllocation_reports {generation : MemoryGeneration}
    (hkey : generation.key = .allocation generation.allocationId)
    (hby : generation.createdBy = event)
    (hrun : t.addAllocation generation = .ok (u, notes)) : Reports event t notes u := by
  unfold addAllocation requireNewAllocationId at hrun
  simp only [bind_eq_ok, failIf_eq_ok] at hrun
  obtain ⟨-, ⟨-, -, hnew⟩, -, -, total, htotal, heq⟩ := hrun
  obtain ⟨rfl, hbelow⟩ := checkedIncrement_below htotal
  cases heq
  refine reports_one (.created generation ?_ hby) ?_ ?_ rfl hbelow
  · rw [hkey]
    exact hnew
  · intro key
    show _ ↔ key = generation.key ∨ _
    rw [hkey]
    cases key with
    | allocation id =>
        show id ∈ insert generation.allocationId t.seenAllocationIds ↔ _
        rw [Finset.mem_insert, GenerationKey.allocation.injEq]
        rfl
    | mapping id => simp [Seen]
  · show _ = Function.update t.held generation.key (some generation)
    rw [hkey]
    exact byKey_insertAllocation _ _ _ _ _

theorem addMapping_reports {state : MappingState}
    (hkey : state.generation.key = .mapping state.generation.mappingId)
    (hby : state.generation.createdBy = event)
    (hrun : t.addMapping state = .ok (u, notes)) : Reports event t notes u := by
  unfold addMapping requireNewMappingId at hrun
  simp only [bind_eq_ok, failIf_eq_ok] at hrun
  obtain ⟨-, ⟨-, -, hnew⟩, -, -, total, htotal, heq⟩ := hrun
  obtain ⟨rfl, hbelow⟩ := checkedIncrement_below htotal
  cases heq
  refine reports_one (.created state.generation ?_ hby) ?_ ?_ rfl hbelow
  · rw [hkey]
    exact hnew
  · intro key
    show _ ↔ key = state.generation.key ∨ _
    rw [hkey]
    cases key with
    | mapping id =>
        show id ∈ insert state.generation.mappingId t.seenMappingIds ↔ _
        rw [Finset.mem_insert, GenerationKey.mapping.injEq]
        rfl
    | allocation id => simp [Seen]
  · show _ = Function.update t.held state.generation.key (some state.generation)
    rw [hkey]
    exact byKey_insertMapping _ _ _ _ state

theorem eraseAllocation_reports {id : ℕ} {generation : MemoryGeneration}
    {reason : GenerationEndReason} (hsound : t.Sound)
    (hlive : t.liveAllocations[id]? = some generation)
    (hrun : t.eraseAllocation id generation reason event = .ok (u, notes)) :
    Reports event t notes u := by
  obtain ⟨total, -, heq⟩ := bind_eq_ok.mp hrun
  cases heq
  have hkey := hsound.allocationKeys id generation hlive
  refine reports_one (.ended generation reason ?_) (seen_of_known hsound hkey
    (mem_of_getElem? hlive) fun _ => Iff.rfl) ?_ rfl fun hle => hle
  · show t.held generation.key = _
    rw [hkey]
    exact hlive
  · show _ = Function.update t.held generation.key none
    rw [hkey]
    exact byKey_eraseAllocation _ _ _ _

theorem eraseMapping_reports {id : ℕ} {state : MappingState} {reason : GenerationEndReason}
    (hsound : t.Sound) (hlive : t.liveMappings[id]? = some state)
    (hrun : t.eraseMapping id state.generation reason event = .ok (u, notes)) :
    Reports event t notes u := by
  obtain ⟨total, -, heq⟩ := bind_eq_ok.mp hrun
  cases heq
  have hkey := hsound.mappingKeys id state hlive
  refine reports_one (.ended state.generation reason ?_) (seen_of_known hsound hkey
    (mem_of_getElem? hlive) fun _ => Iff.rfl) ?_ rfl fun hle => hle
  · show t.held state.generation.key = _
    rw [hkey]
    show t.liveMappings[id]?.map _ = _
    rw [hlive]
    rfl
  · show _ = Function.update t.held state.generation.key none
    rw [hkey]
    exact byKey_eraseMapping _ _ _ _

theorem endAllocation_reports {id address heapId : ℕ} {reason : GenerationEndReason}
    (hsound : t.Sound) (hrun : t.endAllocation id address heapId reason event = .ok (u, notes)) :
    Reports event t notes u := by
  unfold endAllocation at hrun
  split at hrun
  · obtain ⟨total, -, heq⟩ := bind_eq_ok.mp hrun
    cases heq
    exact reports_none (fun _ => Iff.rfl) rfl rfl
  · rename_i generation hlive
    rw [failIf_bind_eq_ok, failIf_bind_eq_ok] at hrun
    exact eraseAllocation_reports hsound hlive hrun.2.2

theorem orphanedMappingEnd_reports (hrun : t.orphanedMappingEnd = .ok (u, notes)) :
    Reports event t notes u := by
  obtain ⟨total, -, heq⟩ := bind_eq_ok.mp hrun
  cases heq
  exact reports_none (fun _ => Iff.rfl) rfl rfl

theorem endMapping_reports {id address : ℕ} {kind : GenerationKind}
    {reason : GenerationEndReason} (hsound : t.Sound)
    (hrun : t.endMapping id address kind reason event = .ok (u, notes)) :
    Reports event t notes u := by
  unfold endMapping at hrun
  split at hrun
  · exact orphanedMappingEnd_reports hrun
  · rename_i state hlive
    rw [failIf_bind_eq_ok, failIf_bind_eq_ok] at hrun
    exact eraseMapping_reports hsound hlive hrun.2.2

theorem endReallocated_reports {reallocation : ReallocationEvent} (hsound : t.Sound)
    (hrun : t.endReallocated event reallocation = .ok (u, notes)) : Reports event t notes u := by
  unfold endReallocated at hrun
  split at hrun
  · exact endAllocation_reports hsound hrun
  · cases hrun
    exact reports_refl t

theorem observeReallocation_reports {reallocation : ReallocationEvent} (hsound : t.Sound)
    (hrun : t.observeReallocation event reallocation = .ok (u, notes)) :
    Reports event t notes u := by
  unfold observeReallocation at hrun
  split at hrun
  · obtain ⟨-, -, hrun⟩ := bind_eq_ok.mp hrun
    obtain ⟨⟨mid, ended⟩, hend, hrun⟩ := bind_eq_ok.mp hrun
    obtain ⟨⟨final, created⟩, hadd, heq⟩ := bind_eq_ok.mp hrun
    cases heq
    exact (endReallocated_reports hsound hend).trans (addAllocation_reports rfl rfl hadd)
  · exact endReallocated_reports hsound hrun

theorem destroyFold_reports {heapId : ℕ} {run : GenerationTracker × List Notification}
    {rest : List (ℕ × MemoryGeneration)} (hahead : Ahead run.1.liveAllocations rest)
    (hsound : run.1.Sound) (hreports : Reports event t run.2 run.1)
    (hrun : rest.foldlM (destroyStep event heapId) run = .ok (u, notes)) :
    Reports event t notes u := by
  induction rest generalizing run with
  | nil =>
      cases hrun
      exact hreports
  | cons entry rest ih =>
      rw [List.foldlM_cons, bind_eq_ok] at hrun
      obtain ⟨next, hstep, hrest⟩ := hrun
      unfold destroyStep at hstep
      split at hstep
      · cases hstep
        exact ih hahead.tail hsound hreports hrest
      · obtain ⟨⟨mid, ended⟩, herase, heq⟩ := bind_eq_ok.mp hstep
        cases heq
        have hlive := hahead.live entry List.mem_cons_self
        have hchange : Change (fun _ => True) event run.1 ended mid :=
          eraseAllocation_change hlive herase
        refine ih ?_ (hchange.sound hsound)
          (hreports.trans (eraseAllocation_reports hsound hlive herase)) hrest
        obtain ⟨total, -, heq⟩ := bind_eq_ok.mp herase
        cases heq
        exact hahead.erase

/-! ### Mappings -/

/-- A mapping is stored with its new size. -/
theorem resize_reports {id : ℕ} {state : MappingState} (hsound : t.Sound)
    (hlive : t.liveMappings[id]? = some state) (live : IntervalSet Unit) (size : ℕ) :
    Reports event t [.changed { state.generation with size := size } event]
      { t with
        liveMappings := t.liveMappings.insert id
          ⟨{ state.generation with size := size }, live⟩ } := by
  have hkey := hsound.mappingKeys id state hlive
  have hkind : state.generation.kind ≠ .heapAllocation := by
    intro hheap
    unfold MemoryGeneration.key at hkey
    rw [if_pos hheap] at hkey
    cases hkey
  refine reports_one (.changed state.generation size hkind ?_)
    (seen_of_known hsound hkey (mem_of_getElem? hlive) fun _ => Iff.rfl) ?_ rfl fun hle => hle
  · rw [hkey]
    show t.liveMappings[id]?.map _ = _
    rw [hlive]
    rfl
  · show _ = Function.update t.held state.generation.key _
    rw [hkey]
    exact byKey_insertMapping _ _ _ _ _

theorem updateMapping_reports {id : ℕ} {state : MappingState} {live : IntervalSet Unit}
    (hsound : t.Sound) (hlive : t.liveMappings[id]? = some state)
    (hrun : t.updateMapping id state live event = .ok (u, notes)) : Reports event t notes u := by
  unfold updateMapping at hrun
  dsimp only at hrun
  split at hrun
  · cases hrun
    exact resize_reports hsound hlive live _
  · cases hrun
    refine reports_none (fun _ => Iff.rfl) ?_ rfl
    have hheld : t.held (.mapping id) = some state.generation := by
      show t.liveMappings[id]?.map _ = _
      rw [hlive]
      rfl
    calc byKey _ t.liveAllocations (t.liveMappings.insert id ⟨state.generation, live⟩)
        = Function.update t.held (.mapping id) (some state.generation) :=
          byKey_insertMapping _ _ _ _ _
      _ = t.held := Function.update_eq_self_iff.mpr hheld.symm

theorem observeVmUpdate_reports {id base size : ℕ} {state : MappingState} (hsound : t.Sound)
    (hlive : t.liveMappings[id]? = some state)
    (hrun : t.observeVmUpdate event id state base size = .ok (u, notes)) :
    Reports event t notes u := by
  unfold observeVmUpdate at hrun
  rw [failIf_bind_eq_ok] at hrun
  cases hfind : state.live.find base with
  | none =>
      rw [hfind] at hrun
      cases hrun.2
  | some fragment =>
      rw [hfind] at hrun
      have hrun := hrun.2
      dsimp only at hrun
      split at hrun
      · exact updateMapping_reports hsound hlive hrun
      · rw [failIf_bind_eq_ok] at hrun
        exact updateMapping_reports hsound hlive hrun.2

theorem observeVmAllocate_reports {allocation : VmAllocateEvent} (hsound : t.Sound)
    (hrun : t.observeVmAllocate event allocation = .ok (u, notes)) : Reports event t notes u := by
  unfold observeVmAllocate at hrun
  split at hrun
  · obtain ⟨-, hrun⟩ := failIf_bind_eq_ok.mp hrun
    cases hstate : t.liveMappings[allocation.mappingId]? with
    | none =>
        rw [hstate] at hrun
        exact addMapping_reports rfl rfl hrun
    | some state =>
        rw [hstate] at hrun
        exact observeVmUpdate_reports hsound hstate hrun
  · cases hrun
    exact reports_refl t

theorem observeMap_reports {mapping : MapEvent}
    (hrun : t.observeMap event mapping = .ok (u, notes)) : Reports event t notes u := by
  unfold observeMap at hrun
  split at hrun
  · exact addMapping_reports rfl rfl (failIf_bind_eq_ok.mp hrun).2
  · cases hrun
    exact reports_refl t

theorem observeRangedFree_reports {free : VmFreeEvent} {state : MappingState} (hsound : t.Sound)
    (hlive : t.liveMappings[free.mappingId]? = some state)
    (hrun : t.observeRangedFree event free state = .ok (u, notes)) : Reports event t notes u := by
  unfold observeRangedFree at hrun
  obtain ⟨-, hrun⟩ := failIf_bind_eq_ok.mp hrun
  dsimp only at hrun
  obtain ⟨-, hrun⟩ := failIf_bind_eq_ok.mp hrun
  split at hrun
  · exact eraseMapping_reports hsound hlive hrun
  · cases hrun
    exact resize_reports hsound hlive _ _

theorem observeVmFree_reports {free : VmFreeEvent} (hsound : t.Sound)
    (hrun : t.observeVmFree event free = .ok (u, notes)) : Reports event t notes u := by
  unfold observeVmFree at hrun
  split at hrun
  · split at hrun
    · exact orphanedMappingEnd_reports hrun
    · rename_i state hlive
      split at hrun
      · exact eraseMapping_reports hsound hlive (failIf_bind_eq_ok.mp hrun).2
      · exact observeRangedFree_reports hsound hlive hrun
  · cases hrun
    exact reports_refl t

/-- The callbacks of an accepted event. -/
theorem observe_reports (hsound : t.Sound) (hrun : t.observe event = .ok (u, notes)) :
    Reports event t notes u := by
  unfold observe at hrun
  obtain ⟨⟨⟩, -, hrun⟩ := bind_eq_ok.mp hrun
  unfold dispatch at hrun
  cases hpayload : event.payload with
  | heapCreate payload =>
      rw [hpayload] at hrun
      cases hrun
      exact reports_refl t
  | heapDestroy payload =>
      rw [hpayload] at hrun
      change t.observeHeapDestroy event payload = _ at hrun
      rw [observeHeapDestroy_eq_fold] at hrun
      split at hrun
      · exact destroyFold_reports (ahead_toList _) hsound (reports_refl t) hrun
      · cases hrun
        exact reports_refl t
  | allocation payload =>
      rw [hpayload] at hrun
      change t.observeAllocation event payload = _ at hrun
      unfold observeAllocation at hrun
      split at hrun
      · exact addAllocation_reports rfl rfl hrun
      · cases hrun
        exact reports_refl t
  | reallocation payload =>
      rw [hpayload] at hrun
      exact observeReallocation_reports hsound hrun
  | free payload =>
      rw [hpayload] at hrun
      change t.observeFree event payload = _ at hrun
      unfold observeFree at hrun
      split at hrun
      · exact endAllocation_reports hsound hrun
      · cases hrun
        exact reports_refl t
  | vmAllocate payload =>
      rw [hpayload] at hrun
      exact observeVmAllocate_reports hsound hrun
  | vmFree payload =>
      rw [hpayload] at hrun
      exact observeVmFree_reports hsound hrun
  | map payload =>
      rw [hpayload] at hrun
      exact observeMap_reports hrun
  | unmap payload =>
      rw [hpayload] at hrun
      change t.observeUnmap event payload = _ at hrun
      unfold observeUnmap at hrun
      split at hrun
      · exact endMapping_reports hsound hrun
      · cases hrun
        exact reports_refl t

end Reports

end GenerationTracker

end Noleax.Analyzer
