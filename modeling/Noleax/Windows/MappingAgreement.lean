import Noleax.Lib.Coverage
import Noleax.Vm.TrackerRefinement
import Noleax.Windows.WriterSteps

/-!
# Reservations and views of the current process

The writer keys a reservation by its base and grows it to the largest size it was
reported with; the analyzer keeps its bytes and takes the released ones away. `Mapped`
puts both next to the machine of the VM records: what the writer knows of a mapping is
a generation whose pieces cover exactly the range the writer gives it.
-/

namespace Noleax.Windows

open Lib Trace Analyzer
open Agent (VmContext)
open Vm (Model Represents Stamped CreateStatus resizedFrags)

/-- A key has one value. -/
theorem entry_unique {β : Type} {entries : SortedMap β} (h : entries.Sorted) {key : ℕ}
    {a b : β} (ha : (key, a) ∈ entries) (hb : (key, b) ∈ entries) : a = b := by
  have hfound := (SortedMap.lookup_eq_some h).mpr ha
  rw [(SortedMap.lookup_eq_some h).mpr hb] at hfound
  exact (Option.some.inj hfound).symm

/-- The two maps of mappings, by whether they hold the views of sections. -/
def LiveState.mappings (live : LiveState) (isSection : Bool) : SortedMap VirtualMapping :=
  if isSection then live.liveSectionMappings else live.liveVirtualMappings

/-- The entries of the writer's maps are the live generations of the machine. -/
structure Mapped (mappings : Bool → SortedMap VirtualMapping) (m : Model) : Prop where
  positive : 0 < m.next
  sorted : ∀ kind, (mappings kind).Sorted
  entries : ∀ kind base mapping, (base, mapping) ∈ mappings kind →
    base ≠ 0 ∧ mapping.size ≠ 0 ∧ base + mapping.size ≤ maxU64 ∧
      ∃ frags, Covers base (base + mapping.size) frags ∧
        m.live mapping.mappingId = some ⟨kind, base, frags⟩
  owned : ∀ id g, m.live id = some g → 0 < id ∧ id < m.next ∧
    ∃ mapping : VirtualMapping, mapping.mappingId = id ∧ (g.base, mapping) ∈ mappings g.isSection

namespace Mapped

variable {mappings : Bool → SortedMap VirtualMapping} {m : Model} {kind : Bool} {base : ℕ}
  {mapping : VirtualMapping}

theorem id_ne_next (h : Mapped mappings m) {id : ℕ} {g : Vm.Generation}
    (hlive : m.live id = some g) : id ≠ m.next :=
  Nat.ne_of_lt (h.owned id g hlive).2.1

theorem fresh (h : Mapped mappings m) : m.live m.next = none := by
  cases hlive : m.live m.next with
  | none => rfl
  | some g => exact absurd rfl (h.id_ne_next hlive)

/-- Entries with one id are one entry. -/
theorem same_entry (h : Mapped mappings m) {other : Bool} {otherBase : ℕ}
    {otherMapping : VirtualMapping} (hmem : (base, mapping) ∈ mappings kind)
    (hother : (otherBase, otherMapping) ∈ mappings other)
    (hid : mapping.mappingId = otherMapping.mappingId) : kind = other ∧ base = otherBase := by
  obtain ⟨-, -, -, frags, -, hlive⟩ := h.entries kind base mapping hmem
  obtain ⟨-, -, -, others, -, hotherLive⟩ := h.entries other otherBase otherMapping hother
  rw [hid, hotherLive] at hlive
  cases hlive
  exact ⟨rfl, rfl⟩

/-- A mapping starts at a base its map does not have. -/
theorem create (h : Mapped mappings m) {size : ℕ} (hbase : base ≠ 0) (hsize : size ≠ 0)
    (hrange : base + size ≤ maxU64) (hnew : ¬ (mappings kind).Contains base) :
    Mapped (Function.update mappings kind ((mappings kind).insert base ⟨m.next, size⟩))
      ⟨Function.update m.live m.next (some ⟨kind, base, [⟨base, base + size, ()⟩]⟩),
        m.next + 1⟩ where
  positive := Nat.succ_pos _
  sorted := by
    intro other
    by_cases hother : other = kind
    · subst hother
      rw [Function.update_self]
      exact SortedMap.sorted_insert (h.sorted other) _ hnew
    · rw [Function.update_of_ne hother]
      exact h.sorted other
  entries := by
    have hold : ∀ other otherBase otherMapping, (otherBase, otherMapping) ∈ mappings other →
        otherBase ≠ 0 ∧ otherMapping.size ≠ 0 ∧ otherBase + otherMapping.size ≤ maxU64 ∧
          ∃ frags, Covers otherBase (otherBase + otherMapping.size) frags ∧
            Function.update m.live m.next (some ⟨kind, base, [⟨base, base + size, ()⟩]⟩)
              otherMapping.mappingId = some ⟨other, otherBase, frags⟩ := by
      intro other otherBase otherMapping hmem
      obtain ⟨hpos, hne, hin, frags, hcovers, hlive⟩ := h.entries _ _ _ hmem
      refine ⟨hpos, hne, hin, frags, hcovers, ?_⟩
      rw [Function.update_of_ne (h.id_ne_next hlive)]
      exact hlive
    intro other otherBase otherMapping hmem
    by_cases hother : other = kind
    · subst hother
      rw [Function.update_self] at hmem
      rcases SortedMap.mem_insert.mp hmem with heq | hmem
      · cases heq
        exact ⟨hbase, hsize, hrange, _, covers_single (), Function.update_self ..⟩
      · exact hold other otherBase otherMapping hmem
    · rw [Function.update_of_ne hother] at hmem
      exact hold other otherBase otherMapping hmem
  owned := by
    intro id g hlive
    have hlive : Function.update m.live m.next _ id = some g := hlive
    by_cases hid : id = m.next
    · subst hid
      rw [Function.update_self] at hlive
      cases hlive
      refine ⟨h.positive, Nat.lt_succ_self _, ⟨m.next, size⟩, rfl, ?_⟩
      rw [Function.update_self]
      exact SortedMap.mem_insert.mpr (.inl rfl)
    · rw [Function.update_of_ne hid] at hlive
      obtain ⟨hpos, hlt, mapping, hmapping, hmem⟩ := h.owned id g hlive
      refine ⟨hpos, Nat.lt_succ_of_lt hlt, mapping, hmapping, ?_⟩
      by_cases hkind : g.isSection = kind
      · rw [hkind, Function.update_self]
        rw [hkind] at hmem
        exact SortedMap.mem_insert.mpr (.inr hmem)
      · rw [Function.update_of_ne hkind]
        exact hmem

/-- A known mapping covers a range of another size. -/
theorem resize (h : Mapped mappings m) (hmem : (base, mapping) ∈ mappings kind) {size : ℕ}
    {frags : List (Fragment Unit)} (hsize : size ≠ 0) (hrange : base + size ≤ maxU64)
    (hcovers : Covers base (base + size) frags) :
    Mapped (Function.update mappings kind
        ((mappings kind).adjust base fun mapping => { mapping with size := size }))
      (m.set mapping.mappingId (some ⟨kind, base, frags⟩)) where
  positive := h.positive
  sorted := by
    intro other
    by_cases hother : other = kind
    · subst hother
      rw [Function.update_self]
      exact SortedMap.sorted_adjust (h.sorted other) _ _
    · rw [Function.update_of_ne hother]
      exact h.sorted other
  entries := by
    have hother : ∀ other otherBase otherMapping, (otherBase, otherMapping) ∈ mappings other →
        ¬ (other = kind ∧ otherBase = base) →
        otherBase ≠ 0 ∧ otherMapping.size ≠ 0 ∧ otherBase + otherMapping.size ≤ maxU64 ∧
          ∃ others, Covers otherBase (otherBase + otherMapping.size) others ∧
            Function.update m.live mapping.mappingId (some ⟨kind, base, frags⟩)
              otherMapping.mappingId = some ⟨other, otherBase, others⟩ := by
      intro other otherBase otherMapping hin hdiffers
      obtain ⟨hpos, hne, hlimit, others, hcovered, hlive⟩ := h.entries _ _ _ hin
      refine ⟨hpos, hne, hlimit, others, hcovered, ?_⟩
      rw [Function.update_of_ne fun hid => hdiffers (h.same_entry hin hmem hid)]
      exact hlive
    intro other otherBase otherMapping hin
    by_cases hsame : other = kind
    · subst hsame
      rw [Function.update_self] at hin
      rcases SortedMap.mem_adjust.mp hin with ⟨hin, hne⟩ | ⟨heq, old, hold, hvalue⟩
      · exact hother other otherBase otherMapping hin fun hboth => hne hboth.2
      · obtain rfl : otherBase = base := heq
        obtain rfl := entry_unique (h.sorted other) hmem hold
        obtain rfl : otherMapping = { mapping with size := size } := hvalue
        exact ⟨(h.entries _ _ _ hmem).1, hsize, hrange, frags, hcovers, Function.update_self ..⟩
    · rw [Function.update_of_ne hsame] at hin
      exact hother other otherBase otherMapping hin fun hboth => hsame hboth.1
  owned := by
    intro id g hlive
    have hlive : Function.update m.live mapping.mappingId _ id = some g := hlive
    obtain ⟨-, -, -, old, -, hmapped⟩ := h.entries _ _ _ hmem
    by_cases hid : id = mapping.mappingId
    · subst hid
      rw [Function.update_self] at hlive
      cases hlive
      obtain ⟨hpos, hlt, -⟩ := h.owned _ _ hmapped
      refine ⟨hpos, hlt, { mapping with size := size }, rfl, ?_⟩
      rw [Function.update_self]
      exact SortedMap.mem_adjust.mpr (.inr ⟨rfl, mapping, hmem, rfl⟩)
    · rw [Function.update_of_ne hid] at hlive
      obtain ⟨hpos, hlt, found, hfound, hin⟩ := h.owned id g hlive
      refine ⟨hpos, hlt, found, hfound, ?_⟩
      by_cases hkind : g.isSection = kind
      · rw [hkind, Function.update_self]
        rw [hkind] at hin
        refine SortedMap.mem_adjust.mpr (.inl ⟨hin, fun heq => hid ?_⟩)
        have heq : g.base = base := heq
        rw [heq] at hin
        rw [← hfound, entry_unique (h.sorted kind) hin hmem]
      · rw [Function.update_of_ne hkind]
        exact hin

/-- A mapping ends. -/
theorem release (h : Mapped mappings m) (hmem : (base, mapping) ∈ mappings kind) :
    Mapped (Function.update mappings kind ((mappings kind).erase base))
      (m.set mapping.mappingId none) where
  positive := h.positive
  sorted := by
    intro other
    by_cases hother : other = kind
    · subst hother
      rw [Function.update_self]
      exact SortedMap.sorted_erase (h.sorted other) _
    · rw [Function.update_of_ne hother]
      exact h.sorted other
  entries := by
    intro other otherBase otherMapping hin
    have hkept : (otherBase, otherMapping) ∈ mappings other ∧
        ¬ (other = kind ∧ otherBase = base) := by
      by_cases hsame : other = kind
      · subst hsame
        rw [Function.update_self] at hin
        obtain ⟨hin, hne⟩ := SortedMap.mem_erase.mp hin
        exact ⟨hin, fun hboth => hne hboth.2⟩
      · rw [Function.update_of_ne hsame] at hin
        exact ⟨hin, fun hboth => hsame hboth.1⟩
    obtain ⟨hpos, hne, hlimit, frags, hcovers, hlive⟩ := h.entries _ _ _ hkept.1
    refine ⟨hpos, hne, hlimit, frags, hcovers, ?_⟩
    show Function.update m.live mapping.mappingId none otherMapping.mappingId = _
    rw [Function.update_of_ne fun hid => hkept.2 (h.same_entry hkept.1 hmem hid)]
    exact hlive
  owned := by
    intro id g hlive
    have hlive : Function.update m.live mapping.mappingId none id = some g := hlive
    have hid : id ≠ mapping.mappingId := by
      intro heq
      rw [heq, Function.update_self] at hlive
      cases hlive
    rw [Function.update_of_ne hid] at hlive
    obtain ⟨hpos, hlt, found, hfound, hin⟩ := h.owned id g hlive
    refine ⟨hpos, hlt, found, hfound, ?_⟩
    by_cases hkind : g.isSection = kind
    · rw [hkind, Function.update_self]
      rw [hkind] at hin
      refine SortedMap.mem_erase.mpr ⟨hin, fun heq => hid ?_⟩
      have heq : g.base = base := heq
      rw [heq] at hin
      rw [← hfound, entry_unique (h.sorted kind) hin hmem]
    · rw [Function.update_of_ne hkind]
      exact hin

end Mapped

/-! ## The two sides -/

/-- The writer's mappings and those live in the analyzer are one machine's. -/
def Agrees (live : LiveState) (t : GenerationTracker) : Prop :=
  ∃ m : Model, m.next = live.nextMappingId ∧ Mapped live.mappings m ∧ Represents m t

theorem agrees_empty : Agrees {} {} := by
  refine ⟨⟨fun _ => none, 1⟩, rfl, ⟨Nat.one_pos, ?_, ?_, ?_⟩, ⟨?_, ?_, ?_, ?_, ?_⟩⟩
  · intro kind
    cases kind <;> exact .nil
  · intro kind base mapping hmem
    cases kind <;> cases hmem
  · intro id g hlive
    cases hlive
  · intro id
    show Vm.EntryAgrees none (∅ : IdMap MappingState)[id]?
    rw [show (∅ : IdMap MappingState)[id]? = none by simp]
    exact True.intro
  · simp
  · show 0 + (∅ : IdMap MappingState).size ≤ 0
    simp
  · exact Nat.one_pos
  · decide

/-- The pieces of a live generation are laid out. -/
theorem layout_live {m : Model} {t : GenerationTracker} (h : Represents m t) {id : ℕ}
    {g : Vm.Generation} (hlive : m.live id = some g) : Layout g.frags := by
  obtain ⟨state, -, hagree⟩ := h.lookup hlive
  rw [← hagree.frags]
  exact state.live.layout

/-- Growing a covered range from its first piece covers the larger one. -/
theorem resizedFrags_covers {frags : List (Fragment Unit)} {f : Fragment Unit} {base size : ℕ}
    (hcovers : Covers base (base + size) frags) (hl : Layout frags) (hf : f ∈ frags)
    (hstart : f.start = base) {larger : ℕ} (hle : size ≤ larger) :
    Covers base (base + larger) (resizedFrags frags f larger) := by
  unfold resizedFrags
  rw [hcovers.runFrom hl hf, hstart]
  dsimp only
  split
  · exact hcovers.extend hl (Nat.le_add_right _ _) (Nat.add_le_add_left hle _) ()
  · rename_i hnot
    have hsame : larger = size := by omega
    rw [if_neg (by omega), hsame]
    exact hcovers

/-- The range an allocation reports for its reservation. -/
def RtlHeapEvent.reservedBase (raw : RtlHeapEvent) : ℕ :=
  if raw.mappingBase = 0 then raw.resultAddress else raw.mappingBase

def RtlHeapEvent.reservedSize (raw : RtlHeapEvent) : ℕ :=
  if raw.mappingSize = 0 then raw.rawResult else raw.mappingSize

section Events

variable {ctx : VmContext} {live live' : LiveState} {t : GenerationTracker} {raw : RtlHeapEvent}
  {event : Event} {status : EventStatus}

theorem mappings_virtual (live : LiveState) (entries : SortedMap VirtualMapping) :
    ({ live with liveVirtualMappings := entries } : LiveState).mappings =
      Function.update live.mappings false entries := by
  funext kind
  cases kind with
  | false => rw [Function.update_self]; rfl
  | true => rw [Function.update_of_ne (by decide)]; rfl

theorem mappings_section (live : LiveState) (entries : SortedMap VirtualMapping) :
    ({ live with liveSectionMappings := entries } : LiveState).mappings =
      Function.update live.mappings true entries := by
  funext kind
  cases kind with
  | false => rw [Function.update_of_ne (by decide)]; rfl
  | true => rw [Function.update_self]; rfl

/-- What the analyzer reads of an allocation is what the event reported. -/
structure Reports (raw : RtlHeapEvent) (allocation : VmAllocateEvent) : Prop where
  target : allocation.target.scope = .currentProcess
  base : (if allocation.mappingBase = 0 then allocation.resultBase else allocation.mappingBase) =
    raw.reservedBase
  size : (if allocation.mappingSize = 0 then allocation.resultSize else allocation.mappingSize) =
    raw.reservedSize

/-- The reservation branch in terms of the reported range. -/
theorem reserveMapping_eq (allocation : VmAllocateEvent) :
    live.reserveMapping raw allocation =
      match live.liveVirtualMappings.lookup raw.reservedBase with
      | some mapping =>
          .ok ({ live with
              liveVirtualMappings := live.liveVirtualMappings.adjust raw.reservedBase
                fun old => { old with size := max mapping.size raw.reservedSize } },
            { allocation with
              mappingId := mapping.mappingId
              mappingBase := raw.reservedBase
              mappingSize := max mapping.size raw.reservedSize })
      | none => do
          let (live, id) ← live.createVirtualMapping raw.reservedBase raw.reservedSize
          return (live, { allocation with mappingId := id }) := rfl

/-- What a reservation changes: the mapping at its base grows, or one is created. -/
theorem reserveMapping_ok {allocation recorded : VmAllocateEvent}
    (h : live.reserveMapping raw allocation = .ok (live', recorded)) :
    (∃ mapping, live.liveVirtualMappings.lookup raw.reservedBase = some mapping ∧
      live' = { live with
        liveVirtualMappings := live.liveVirtualMappings.adjust raw.reservedBase
          fun old => { old with size := max mapping.size raw.reservedSize } } ∧
      recorded = { allocation with
        mappingId := mapping.mappingId
        mappingBase := raw.reservedBase
        mappingSize := max mapping.size raw.reservedSize }) ∨
    (live.nextMappingId ≠ maxU64 ∧ raw.reservedBase ≠ 0 ∧ raw.reservedSize ≠ 0 ∧
      ¬ live.liveVirtualMappings.Contains raw.reservedBase ∧
      live' = { live with
        nextMappingId := live.nextMappingId + 1
        liveVirtualMappings := live.liveVirtualMappings.insert raw.reservedBase
          ⟨live.nextMappingId, raw.reservedSize⟩ } ∧
      recorded = { allocation with mappingId := live.nextMappingId }) := by
  rw [reserveMapping_eq] at h
  cases hfound : live.liveVirtualMappings.lookup raw.reservedBase with
  | some mapping =>
      rw [hfound] at h
      cases h
      exact .inl ⟨mapping, rfl, rfl, rfl⟩
  | none =>
      rw [hfound] at h
      obtain ⟨⟨m, id⟩, hcreate, h⟩ := bind_eq_ok.mp h
      cases h
      unfold LiveState.createVirtualMapping at hcreate
      rw [failIf_bind_eq_ok, failIf_bind_eq_ok] at hcreate
      obtain ⟨hnext, hconsistent, hcreate⟩ := hcreate
      cases hcreate
      push Not at hconsistent
      exact .inr ⟨hnext, hconsistent.1, hconsistent.2.1, SortedMap.lookup_eq_none.mp hfound, rfl,
        rfl⟩

/-- A reservation is grown or started on both sides. -/
theorem Agrees.reserveMapping (h : Agrees live t) {allocation recorded : VmAllocateEvent}
    (hreports : Reports raw allocation) (hrange : raw.reservedBase + raw.reservedSize ≤ maxU64)
    (hplan : live.reserveMapping raw allocation = .ok (live', recorded))
    (hstatus : CreateStatus status) (hs : Stamped ⟨.vmAllocate recorded, status⟩ event) :
    ∃ t', t.step event = .ok t' ∧ Agrees live' t' := by
  obtain ⟨m, hnext, hmapped, hrep⟩ := h
  rcases reserveMapping_ok hplan with
    ⟨mapping, hfound, rfl, hrecorded⟩ | ⟨hlast, hpos, hne, hnew, rfl, hrecorded⟩
  · -- the base is known: the reservation grows to the larger size
    have hmem : (raw.reservedBase, mapping) ∈ live.mappings false :=
      SortedMap.mem_of_lookup hfound
    obtain ⟨hpos, hne, hlimit, frags, hcovers, hlive⟩ := hmapped.entries _ _ _ hmem
    have hl := layout_live hrep hlive
    obtain ⟨f, hf, hstart⟩ := hcovers.first hl (by omega)
    have hcovered := resizedFrags_covers hcovers hl hf hstart
      (Nat.le_max_left mapping.size raw.reservedSize)
    have htarget : recorded.target.scope = .currentProcess := by
      rw [hrecorded]
      exact hreports.target
    have hid : recorded.mappingId = mapping.mappingId := by rw [hrecorded]
    have hbase : recorded.mappingBase = f.start := by rw [hrecorded, hstart]
    have hsize : recorded.mappingSize = max mapping.size raw.reservedSize := by rw [hrecorded]
    rw [← hid] at hlive
    obtain ⟨t', hstep, hrep'⟩ := Vm.dispatch_resize hrep hstatus htarget
      (Nat.ne_of_gt (hmapped.owned _ _ hlive).1) hlive rfl hf hbase (Nat.le_of_eq hstart.symm)
      (by rw [hstart]; exact hpos) (by rw [hsize]; omega) (by rw [hstart, hsize]; omega) hs
    rw [hid, hsize] at hrep'
    refine ⟨t', hstep, m.set mapping.mappingId (some _), hnext, ?_, hrep'⟩
    rw [mappings_virtual]
    exact hmapped.resize hmem (by omega) (by omega) hcovered
  · -- a new reservation
    have htarget : recorded.target.scope = .currentProcess := by
      rw [hrecorded]
      exact hreports.target
    have hid : recorded.mappingId = m.next := by rw [hrecorded, hnext]
    have hbound := hrep.bound
    obtain ⟨t', hstep, hrep'⟩ := Vm.dispatch_reserve hrep hstatus htarget
      (Nat.le_of_eq hid.symm) (by omega) (by rw [hid]; exact hmapped.fresh)
      (by rw [hrecorded]; exact hreports.base) (by rw [hrecorded]; exact hreports.size) hne hrange hs
    rw [hid] at hrep'
    refine ⟨t', hstep, _, ?_, ?_, hrep'⟩
    · show m.next + 1 = live.nextMappingId + 1
      rw [hnext]
    · show Mapped ({ live with liveVirtualMappings := _ } : LiveState).mappings _
      rw [mappings_virtual, ← hnext]
      exact hmapped.create hpos hne hrange hnew

/-- A record that starts, grows and ends no mapping. -/
def NamesNothing : EventPayload → Prop
  | .vmAllocate allocation => allocation.mappingId = 0
  | .vmFree free => free.mappingId = 0 ∨ free.freeType &&& GenerationTracker.memRelease = 0
  | .map mapping => mapping.mappingId = 0
  | .unmap unmap => unmap.mappingId = 0
  | _ => False

theorem step_namesNothing (t : GenerationTracker) {payload : EventPayload}
    (h : NamesNothing payload) (hvalid : validateEvent event = .ok ())
    (hs : Stamped ⟨payload, status⟩ event) : t.step event = .ok t := by
  apply GenerationTracker.step_of_dispatch [] hvalid
  unfold GenerationTracker.dispatch
  rw [hs.payload]
  cases payload with
  | vmAllocate allocation => exact if_neg fun hends => hends.2 h
  | vmFree free =>
      refine if_neg fun hends => ?_
      rcases h with hid | hkeeps
      · exact hends.2.1 hid
      · exact hends.2.2 hkeeps
  | map mapping => exact if_neg fun hends => hends.2 h
  | unmap unmap => exact if_neg fun hends => hends.2 h
  | heapCreate | heapDestroy | allocation | reallocation | free => exact h.elim

theorem stamped_of_valid (hvalid : validateEvent event = .ok ()) :
    Stamped ⟨event.payload, event.header.status⟩ event := by
  unfold validateEvent at hvalid
  obtain ⟨⟨⟩, hheader, -⟩ := bind_eq_ok.mp hvalid
  exact ⟨rfl, rfl, hheader⟩

/-- The caller of an NT memory function works on its own process. -/
abbrev RtlHeapEvent.OnCurrentProcess (ctx : VmContext) (raw : RtlHeapEvent) : Prop :=
  (classifyProcessTarget ctx raw.heapHandle raw.targetProcessId).scope = .currentProcess

/-- The ranges of a successful call do not overflow. -/
abbrev RtlHeapEvent.InRange (raw : RtlHeapEvent) : Prop :=
  raw.Succeeded →
    raw.reservedBase + raw.reservedSize ≤ maxU64 ∧ raw.address + raw.rawResult ≤ maxU64 ∧
      raw.resultAddress + raw.rawResult ≤ maxU64

/-- A found mapping is the entry of its base. -/
theorem mem_of_findVirtualMapping {address size base : ℕ} {exactBase : Bool}
    {mapping : VirtualMapping}
    (h : live.findVirtualMapping address size exactBase = some (base, mapping)) :
    (base, mapping) ∈ live.mappings false := by
  unfold LiveState.findVirtualMapping at h
  split at h
  · cases h
  split at h
  · obtain ⟨found, hfound, heq⟩ := Option.map_eq_some_iff.mp h
    cases heq
    exact SortedMap.mem_of_lookup hfound
  · cases hfloor : live.liveVirtualMappings.floor address with
    | none =>
        rw [hfloor] at h
        cases h
    | some entry =>
        rw [hfloor] at h
        dsimp only at h
        split at h
        · cases h
        · cases h
          exact (SortedMap.mem_of_floor hfloor).1

theorem Agrees.nothing (h : Agrees live t) {payload : EventPayload}
    (hpayload : NamesNothing payload) (hvalid : validateEvent event = .ok ())
    (hs : Stamped ⟨payload, status⟩ event) : ∃ t', t.step event = .ok t' ∧ Agrees live t' :=
  ⟨t, step_namesNothing t hpayload hvalid hs, h⟩

variable {payload : EventPayload}

theorem Agrees.vmAllocate (h : Agrees live t) (hlocal : raw.OnCurrentProcess ctx)
    (hrange : raw.InRange) (hplan : planVmAllocate ctx live raw = .ok (live', status, payload))
    (hvalid : validateEvent event = .ok ()) (hs : Stamped ⟨payload, status⟩ event) :
    ∃ t', t.step event = .ok t' ∧ Agrees live' t' := by
  unfold planVmAllocate at hplan
  by_cases hsucceeded : raw.Succeeded
  case neg =>
    rw [if_neg fun hboth => hsucceeded hboth.1] at hplan
    cases hplan
    exact h.nothing (by exact rfl) hvalid hs
  obtain ⟨hreserved, -, -⟩ := hrange hsucceeded
  have hcall : callStatus raw = .success := callStatus_succeeded hsucceeded
  rw [if_pos ⟨hsucceeded, hlocal⟩, hcall] at hplan
  by_cases hreserve : raw.flags &&& memReserve ≠ 0
  · rw [if_pos hreserve] at hplan
    obtain ⟨⟨grown, recorded⟩, hmapping, hplan⟩ := bind_eq_ok.mp hplan
    cases hplan
    exact h.reserveMapping ⟨hlocal, rfl, rfl⟩ hreserved hmapping (.inl rfl) hs
  rw [if_neg hreserve] at hplan
  cases hfound : live.findVirtualMapping raw.resultAddress raw.rawResult false with
  | some entry =>
      -- a commit inside a reservation: the record repeats its range
      obtain ⟨base, mapping⟩ := entry
      rw [hfound] at hplan
      cases hplan
      obtain ⟨m, hnext, hmapped, hrep⟩ := h
      have hmem := mem_of_findVirtualMapping hfound
      obtain ⟨hpos, hne, hlimit, frags, hcovers, hlive⟩ := hmapped.entries _ _ _ hmem
      have hl := layout_live hrep hlive
      obtain ⟨f, hf, hstart⟩ := hcovers.first hl (by omega)
      have hsame : resizedFrags frags f mapping.size = frags := by
        unfold resizedFrags
        rw [hcovers.runFrom hl hf, hstart]
        dsimp only
        rw [if_neg (by omega), if_neg (by omega)]
      obtain ⟨t', hstep, hrep'⟩ := Vm.dispatch_resize hrep (.inl rfl) hlocal
        (Nat.ne_of_gt (hmapped.owned _ _ hlive).1) hlive rfl hf hstart.symm
        (Nat.le_of_eq hstart.symm) (by rw [hstart]; exact hpos) hne (by rw [hstart]; exact hlimit) hs
      refine ⟨t', hstep, m, hnext, hmapped, ?_⟩
      dsimp only at hrep'
      rw [hsame, Model.set_self hlive] at hrep'
      exact hrep'
  | none =>
      rw [hfound] at hplan
      obtain ⟨⟨grown, recorded⟩, hmapping, hplan⟩ := bind_eq_ok.mp hplan
      cases hplan
      refine h.reserveMapping ⟨hlocal, rfl, rfl⟩ hreserved hmapping ?_ hs
      split
      · exact .inr rfl
      · exact .inl rfl

/-- A release reports at least the size the writer has for its reservation, or none. -/
abbrev ReleaseCovers (live : LiveState) (raw : RtlHeapEvent) : Prop :=
  raw.operation = .vmFree → raw.Succeeded → raw.ReleasesMapping →
    ∀ mapping, live.liveVirtualMappings.lookup raw.address = some mapping →
      raw.rawResult = 0 ∨ mapping.size ≤ raw.rawResult

/-- The mappings live in the analyzer are those the writer knows. -/
def MappingsAgree (live : LiveState) (t : GenerationTracker) : Prop :=
  ∀ id, id ∈ t.liveMappings ↔
    ∃ entry ∈ live.liveVirtualMappings ++ live.liveSectionMappings, entry.2.mappingId = id

theorem mem_liveMappings {m : Model} (h : Represents m t) {id : ℕ} :
    id ∈ t.liveMappings ↔ ∃ g, m.live id = some g := by
  constructor
  · intro hmem
    cases hlive : m.live id with
    | none =>
        rw [Std.ExtTreeMap.mem_iff_isSome_getElem?, h.lookup_none hlive] at hmem
        cases hmem
    | some g => exact ⟨g, rfl⟩
  · intro ⟨g, hlive⟩
    obtain ⟨state, hstate, -⟩ := h.lookup hlive
    exact Represents.mem_of_lookup hstate

/-- The ids of a machine's generations are those of the writer's entries. -/
theorem Mapped.ids {m : Model} (h : Mapped live.mappings m) {id : ℕ} :
    (∃ g, m.live id = some g) ↔
      ∃ entry ∈ live.liveVirtualMappings ++ live.liveSectionMappings, entry.2.mappingId = id := by
  constructor
  · intro ⟨g, hlive⟩
    obtain ⟨-, -, mapping, hid, hmem⟩ := h.owned id g hlive
    refine ⟨(g.base, mapping), List.mem_append.mpr ?_, hid⟩
    cases hkind : g.isSection <;> rw [hkind] at hmem
    · exact .inl hmem
    · exact .inr hmem
  · intro ⟨⟨base, mapping⟩, hmem, hid⟩
    subst hid
    rcases List.mem_append.mp hmem with hmem | hmem
    · obtain ⟨-, -, -, frags, -, hlive⟩ := h.entries false base mapping hmem
      exact ⟨_, hlive⟩
    · obtain ⟨-, -, -, frags, -, hlive⟩ := h.entries true base mapping hmem
      exact ⟨_, hlive⟩

theorem Agrees.ids (h : Agrees live t) : MappingsAgree live t := by
  obtain ⟨m, -, hmapped, hrep⟩ := h
  intro id
  rw [mem_liveMappings hrep, hmapped.ids]

/-- A release by its base finds the mapping there. -/
theorem findVirtualMapping_exact {address size : ℕ} (hpos : address ≠ 0) :
    live.findVirtualMapping address size true =
      (live.liveVirtualMappings.lookup address).map fun mapping => (address, mapping) := by
  unfold LiveState.findVirtualMapping
  rw [if_neg hpos, if_pos rfl]

/-- What a release of a known reservation does: both sides end it, or the analyzer keeps
the bytes the release did not name. -/
theorem Agrees.release (h : Agrees live t) {free : VmFreeEvent} {mapping : VirtualMapping}
    (hlocal : free.target.scope = .currentProcess)
    (hrange : free.base + free.regionSize ≤ maxU64)
    (hrelease : free.freeType &&& GenerationTracker.memRelease ≠ 0)
    (hknown : live.liveVirtualMappings.lookup free.base = some mapping)
    (hid : free.mappingId = mapping.mappingId) (hs : Stamped ⟨.vmFree free, .success⟩ event) :
    let live' := { live with liveVirtualMappings := live.liveVirtualMappings.erase free.base }
    ∃ t', t.step event = .ok t' ∧
      (free.regionSize = 0 ∨ mapping.size ≤ free.regionSize → Agrees live' t') ∧
      (¬ (free.regionSize = 0 ∨ mapping.size ≤ free.regionSize) → ¬ MappingsAgree live' t') := by
  obtain ⟨m, hnext, hmapped, hrep⟩ := h
  have hmem : (free.base, mapping) ∈ live.mappings false := SortedMap.mem_of_lookup hknown
  obtain ⟨hpos, hne, hlimit, frags, hcovers, hlive⟩ := hmapped.entries _ _ _ hmem
  have hreleased := hmapped.release hmem
  have hgone : Mapped ({ live with
      liveVirtualMappings := live.liveVirtualMappings.erase free.base } : LiveState).mappings
      (m.set mapping.mappingId none) := by
    rw [mappings_virtual]
    exact hreleased
  rw [← hid] at hlive hgone
  have hpositive := (hmapped.owned _ _ hlive).1
  by_cases hzero : free.regionSize = 0
  · obtain ⟨t', hstep, hrep'⟩ := Vm.dispatch_freeWhole hrep hlocal hlive (Nat.ne_of_gt hpositive)
      hrelease hzero rfl rfl hs
    refine ⟨t', hstep, fun _ => ⟨m.set free.mappingId none, hnext, hgone, hrep'⟩, fun hno => ?_⟩
    exact (hno (.inl hzero)).elim
  have hl := layout_live hrep hlive
  have hclip := hcovers.clipAll_ne_nil hl (by omega)
    (show free.base < free.base + free.regionSize by omega)
  obtain ⟨t', hstep, hrep'⟩ := Vm.dispatch_free hrep hlocal hlive (Nat.ne_of_gt hpositive) hrelease
    hzero hrange hclip hs
  have hempty := hcovers.cutAll_eq_nil_iff hl (by omega) (r := free.base + free.regionSize)
  unfold Vm.Generation.withFrags at hrep'
  refine ⟨t', hstep, ?_, ?_⟩
  · intro hcovered
    have hle : mapping.size ≤ free.regionSize := hcovered.resolve_left hzero
    rw [if_pos (hempty.mpr (by omega))] at hrep'
    exact ⟨m.set free.mappingId none, hnext, hgone, hrep'⟩
  · -- the analyzer still has the tail, and its id
    intro hshort hagree
    have hlt : ¬ mapping.size ≤ free.regionSize := fun hle => hshort (.inr hle)
    rw [if_neg fun hnil => hlt (by have := hempty.mp hnil; omega)] at hrep'
    have hstays : free.mappingId ∈ t'.liveMappings :=
      (mem_liveMappings hrep').mpr ⟨_, Function.update_self ..⟩
    obtain ⟨g, hg⟩ := hgone.ids.mpr ((hagree _).mp hstays)
    rw [Model.set_live, Function.update_self] at hg
    cases hg

theorem Agrees.vmFree (h : Agrees live t) (hlocal : raw.OnCurrentProcess ctx)
    (hrange : raw.InRange) (hop : raw.operation = .vmFree)
    (hplan : planVmFree ctx live raw = .ok (live', status, payload))
    (hvalid : validateEvent event = .ok ()) (hs : Stamped ⟨payload, status⟩ event) :
    ∃ t', t.step event = .ok t' ∧ (ReleaseCovers live raw → Agrees live' t') ∧
      (¬ ReleaseCovers live raw → ¬ MappingsAgree live' t') := by
  -- every other call leaves both sides alone
  have hquiet : NamesNothing payload → live' = live →
      (raw.Succeeded → raw.ReleasesMapping →
        live.liveVirtualMappings.lookup raw.address = none) →
      ∃ t', t.step event = .ok t' ∧ (ReleaseCovers live raw → Agrees live' t') ∧
        (¬ ReleaseCovers live raw → ¬ MappingsAgree live' t') := by
    intro hpayload hsame hunknown
    obtain ⟨t', hstep, hagrees⟩ := h.nothing hpayload hvalid hs
    rw [hsame]
    refine ⟨t', hstep, fun _ => hagrees, fun hshort => (hshort ?_).elim⟩
    intro _ hsucceeded hreleases mapping hknown
    rw [hunknown hsucceeded hreleases] at hknown
    cases hknown
  unfold planVmFree at hplan
  by_cases hsucceeded : raw.Succeeded
  case neg =>
    rw [if_neg fun hboth => hsucceeded hboth.1] at hplan
    cases hplan
    exact hquiet (.inl rfl) rfl fun hdone => absurd hdone hsucceeded
  rw [if_pos ⟨hsucceeded, hlocal⟩, callStatus_succeeded hsucceeded] at hplan
  obtain ⟨-, hlimit, -⟩ := hrange hsucceeded
  by_cases hreleases : raw.ReleasesMapping
  case neg =>
    have hkeeps : raw.flags &&& GenerationTracker.memRelease = 0 := not_not.mp hreleases
    cases hfound : live.findVirtualMapping raw.address raw.rawResult raw.ReleasesMapping with
    | none =>
        rw [hfound] at hplan
        cases hplan
        exact hquiet (.inr hkeeps) rfl fun _ hdoes => absurd hdoes hreleases
    | some entry =>
        rw [hfound] at hplan
        dsimp only at hplan
        rw [if_neg hreleases] at hplan
        cases hplan
        exact hquiet (.inr hkeeps) rfl fun _ hdoes => absurd hdoes hreleases
  rw [decide_eq_true hreleases] at hplan
  cases hknown : live.liveVirtualMappings.lookup raw.address with
  | none =>
      have hfound : live.findVirtualMapping raw.address raw.rawResult true = none := by
        by_cases hpos : raw.address = 0
        · exact if_pos hpos
        · rw [findVirtualMapping_exact hpos, hknown]
          rfl
      rw [hfound] at hplan
      cases hplan
      exact hquiet (.inl rfl) rfl fun _ _ => hknown
  | some mapping =>
      have hpos : raw.address ≠ 0 := by
        obtain ⟨m, -, hmapped, -⟩ := h
        exact (hmapped.entries false raw.address mapping (SortedMap.mem_of_lookup hknown)).1
      rw [findVirtualMapping_exact hpos, hknown] at hplan
      dsimp only [Option.map_some] at hplan
      rw [if_pos hreleases] at hplan
      cases hplan
      obtain ⟨t', hstep, hboth, htail⟩ := h.release hlocal hlimit hreleases hknown rfl hs
      refine ⟨t', hstep, ?_, ?_⟩
      · intro hcovers
        exact hboth (hcovers hop hsucceeded hreleases mapping hknown)
      · intro hshort
        refine htail fun hcovers => hshort ?_
        intro _ _ _ other hother
        rw [hknown] at hother
        cases hother
        exact hcovers

theorem Agrees.sectionMap (h : Agrees live t) (hlocal : raw.OnCurrentProcess ctx)
    (hrange : raw.InRange) (hplan : planSectionMap ctx live raw = .ok (live', status, payload))
    (hvalid : validateEvent event = .ok ()) (hs : Stamped ⟨payload, status⟩ event) :
    ∃ t', t.step event = .ok t' ∧ Agrees live' t' := by
  unfold planSectionMap at hplan
  by_cases hsucceeded : raw.Succeeded
  case neg =>
    rw [if_neg fun hboth => hsucceeded hboth.1] at hplan
    cases hplan
    exact h.nothing (by exact rfl) hvalid hs
  obtain ⟨-, -, hlimit⟩ := hrange hsucceeded
  rw [if_pos ⟨hsucceeded, hlocal⟩, callStatus_succeeded hsucceeded] at hplan
  obtain ⟨⟨grown, id⟩, hcreate, hplan⟩ := bind_eq_ok.mp hplan
  cases hplan
  unfold LiveState.createSectionMapping at hcreate
  rw [failIf_bind_eq_ok, failIf_bind_eq_ok] at hcreate
  obtain ⟨hlast, hconsistent, hcreate⟩ := hcreate
  cases hcreate
  obtain ⟨hpos, hrest⟩ := not_or.mp hconsistent
  obtain ⟨hne, hnew⟩ := not_or.mp hrest
  obtain ⟨m, hnext, hmapped, hrep⟩ := h
  have hbound := hrep.bound
  have hid : live.nextMappingId < maxU64 := by omega
  have hfresh : m.live live.nextMappingId = none := hnext ▸ hmapped.fresh
  obtain ⟨t', hstep, hrep'⟩ := Vm.dispatch_createView hrep (.inl rfl) hlocal (Nat.le_of_eq hnext)
    hid hfresh hne hlimit hs
  refine ⟨t', hstep, _, rfl, ?_, hrep'⟩
  show Mapped ({ live with liveSectionMappings := _ } : LiveState).mappings _
  rw [mappings_section, ← hnext]
  exact hmapped.create hpos hne hlimit hnew

theorem mem_of_findSectionMapping {address base : ℕ} {mapping : VirtualMapping}
    (h : live.findSectionMapping address = some (base, mapping)) :
    (base, mapping) ∈ live.mappings true := by
  unfold LiveState.findSectionMapping at h
  split at h
  · cases h
  cases hfloor : live.liveSectionMappings.floor address with
  | none =>
      rw [hfloor] at h
      cases h
  | some entry =>
      rw [hfloor] at h
      dsimp only at h
      split at h
      · cases h
      · cases h
        exact (SortedMap.mem_of_floor hfloor).1

theorem Agrees.sectionUnmap (h : Agrees live t) (hlocal : raw.OnCurrentProcess ctx)
    (hplan : planSectionUnmap ctx live raw = .ok (live', status, payload))
    (hvalid : validateEvent event = .ok ()) (hs : Stamped ⟨payload, status⟩ event) :
    ∃ t', t.step event = .ok t' ∧ Agrees live' t' := by
  unfold planSectionUnmap at hplan
  by_cases hsucceeded : raw.Succeeded
  case neg =>
    rw [if_neg fun hboth => hsucceeded hboth.1] at hplan
    cases hplan
    exact h.nothing (by exact rfl) hvalid hs
  rw [if_pos ⟨hsucceeded, hlocal⟩, callStatus_succeeded hsucceeded] at hplan
  cases hfound : live.findSectionMapping raw.address with
  | none =>
      rw [hfound] at hplan
      cases hplan
      exact h.nothing (by exact rfl) hvalid hs
  | some entry =>
      obtain ⟨base, mapping⟩ := entry
      rw [hfound] at hplan
      cases hplan
      obtain ⟨m, hnext, hmapped, hrep⟩ := h
      have hmem := mem_of_findSectionMapping hfound
      obtain ⟨-, -, -, frags, -, hlive⟩ := hmapped.entries _ _ _ hmem
      obtain ⟨t', hstep, hrep'⟩ := Vm.dispatch_unmapView hrep hlocal hlive
        (Nat.ne_of_gt (hmapped.owned _ _ hlive).1) rfl rfl hs
      refine ⟨t', hstep, m.set mapping.mappingId none, hnext, ?_, hrep'⟩
      rw [mappings_section]
      exact hmapped.release hmem

/-- An NT memory event of the current process, on both sides. -/
theorem Agrees.ntMemory (h : Agrees live t) (hmemory : raw.IsNtMemory)
    (hlocal : raw.OnCurrentProcess ctx) (hrange : raw.InRange)
    (hplan : planEvent ctx live raw = .ok (live', status, payload))
    (hvalid : validateEvent event = .ok ()) (hs : Stamped ⟨payload, status⟩ event) :
    ∃ t', t.step event = .ok t' ∧ (ReleaseCovers live raw → Agrees live' t') ∧
      (¬ ReleaseCovers live raw → ¬ MappingsAgree live' t') := by
  have hother : raw.operation ≠ .vmFree → (∃ t', t.step event = .ok t' ∧ Agrees live' t') →
      ∃ t', t.step event = .ok t' ∧ (ReleaseCovers live raw → Agrees live' t') ∧
        (¬ ReleaseCovers live raw → ¬ MappingsAgree live' t') := by
    intro hne ⟨t', hstep, hagrees⟩
    refine ⟨t', hstep, fun _ => hagrees, fun hshort => (hshort ?_).elim⟩
    intro hfree
    exact absurd hfree hne
  unfold planEvent at hplan
  unfold RtlHeapEvent.IsNtMemory at hmemory
  cases hop : raw.operation <;> rw [hop] at hplan hmemory hother
  case vmAllocate => exact hother (by decide) (h.vmAllocate hlocal hrange hplan hvalid hs)
  case vmFree => exact h.vmFree hlocal hrange hop hplan hvalid hs
  case sectionMap => exact hother (by decide) (h.sectionMap hlocal hrange hplan hvalid hs)
  case sectionUnmap => exact hother (by decide) (h.sectionUnmap hlocal hplan hvalid hs)
  all_goals exact absurd hmemory (by decide)

end Events

/-! ## Runs -/

open RtlAllocateHeapTraceWriter

section Runs

variable {options : WriterOptions} {file : TraceWriter} {raw : RtlHeapEvent}
  {raws : List RtlHeapEvent} {w w' : RtlAllocateHeapTraceWriter}

/-- The events of the NT memory functions that work on the current process, with ranges
that do not overflow. -/
structure LocalMemory (options : WriterOptions) (raw : RtlHeapEvent) : Prop where
  memory : raw.IsNtMemory
  onCurrentProcess : raw.OnCurrentProcess options.vmContext
  inRange : raw.InRange

instance (options : WriterOptions) (raw : RtlHeapEvent) : Decidable (LocalMemory options raw) :=
  decidable_of_iff
    (raw.IsNtMemory ∧ raw.OnCurrentProcess options.vmContext ∧ raw.InRange)
    ⟨fun ⟨memory, target, range⟩ => ⟨memory, target, range⟩,
      fun h => ⟨h.memory, h.onCurrentProcess, h.inRange⟩⟩

/-- After every event the analyzer has taken the records and agrees on the mappings. -/
def AgreesThroughout (options : WriterOptions) (file : TraceWriter) (raws : List RtlHeapEvent) :
    Prop :=
  ∀ before after w, before ++ after = raws →
    processEvents options before (.start options file) = .ok () w →
    ∃ t, GenerationTracker.run {} w.planned = .ok t ∧ MappingsAgree w.live t

/-- Every recorded release covers the reservation the writer has at its base. -/
def ReleasesCover (options : WriterOptions) (file : TraceWriter) (raws : List RtlHeapEvent) :
    Prop :=
  ∀ before raw after w w', before ++ raw :: after = raws →
    processEvents options before (.start options file) = .ok () w →
    processEvent options raw w = .ok () w' → w'.planned ≠ w.planned → ReleaseCovers w.live raw

/-- The analyzer takes all the records built so far and agrees with the writer. -/
def Followed (w : RtlAllocateHeapTraceWriter) (t : GenerationTracker) : Prop :=
  GenerationTracker.run {} w.planned = .ok t ∧ Agrees w.live t

/-- One event: nothing is recorded, or its record is taken and the two sides agree
exactly when a release covers. -/
theorem Followed.step {t : GenerationTracker} (h : Followed w t)
    (hlocal : LocalMemory options raw) (hrun : processEvent options raw w = .ok () w') :
    (w'.planned = w.planned ∧ Followed w' t) ∨
      (w'.planned ≠ w.planned ∧ ∃ t', GenerationTracker.run {} w'.planned = .ok t' ∧
        (ReleaseCovers w.live raw → Agrees w'.live t') ∧
        (¬ ReleaseCovers w.live raw → ¬ MappingsAgree w'.live t')) := by
  obtain ⟨-, ⟨hlive, hplanned, -⟩ | ⟨event, hbuilt⟩⟩ := processEvent_built hrun
  · refine .inl ⟨hplanned, ?_, ?_⟩
    · rw [hplanned]
      exact h.1
    · rw [hlive]
      exact h.2
  · obtain ⟨t', hstep, hboth⟩ := h.2.ntMemory hlocal.memory hlocal.onCurrentProcess hlocal.inRange
      hbuilt.plan hbuilt.valid (stamped_of_valid hbuilt.valid)
    refine .inr ⟨?_, t', ?_, hboth⟩
    · rw [hbuilt.planned]
      simp
    · unfold GenerationTracker.run
      rw [hbuilt.planned]
      refine foldlM_append_ok h.1 ?_
      rw [List.foldlM_cons, hstep]
      rfl

/-- Up to the first release that falls short the two sides agree. -/
theorem followed_of_covers (hlocal : ∀ raw ∈ raws, LocalMemory options raw)
    (hcovers : ReleasesCover options file raws)
    (hrun : processEvents options raws (.start options file) = .ok () w) :
    ∃ t, Followed w t := by
  induction raws using List.reverseRecOn generalizing w with
  | nil =>
      cases hrun
      exact ⟨{}, rfl, agrees_empty⟩
  | append_singleton before raw ih =>
      obtain ⟨m, hbefore, hlast⟩ := processEvents_append.mp hrun
      have hstep := processEvents_singleton.mp hlast
      have hearlier : ReleasesCover options file before := by
        intro first other rest v v' hsplit
        apply hcovers first other (rest ++ [raw]) v v'
        rw [← hsplit]
        simp
      obtain ⟨t, ht⟩ := ih (fun other hmem => hlocal other (List.mem_append_left _ hmem)) hearlier
        hbefore
      rcases ht.step (hlocal raw (by simp)) hstep with ⟨-, hsame⟩ | ⟨hrecorded, t', hfed, hagrees, -⟩
      · exact ⟨t, hsame⟩
      · exact ⟨t', hfed, hagrees (hcovers before raw [] m w rfl hbefore hstep hrecorded)⟩

/-- A sequence that agrees after every event has no recorded release that falls short. -/
theorem covers_of_agrees (hlocal : ∀ raw ∈ raws, LocalMemory options raw)
    (hagrees : AgreesThroughout options file raws) : ReleasesCover options file raws := by
  induction raws using List.reverseRecOn with
  | nil =>
      intro before raw after w w' hsplit
      simp at hsplit
  | append_singleton earlier last ih =>
      have hearlier : ReleasesCover options file earlier := by
        refine ih (fun other hmem => hlocal other (List.mem_append_left _ hmem)) ?_
        intro first rest v hsplit
        apply hagrees first (rest ++ [last]) v
        rw [← hsplit]
        simp
      intro before raw after w w' hsplit hrun hstep hrecorded
      rcases List.eq_nil_or_concat' after with rfl | ⟨rest, final, rfl⟩
      · -- the release is the last event
        obtain ⟨rfl, hraw⟩ := List.append_inj' hsplit rfl
        cases hraw
        by_contra hshort
        obtain ⟨t, ht⟩ := followed_of_covers
          (fun other hmem => hlocal other (List.mem_append_left _ hmem)) hearlier hrun
        rcases ht.step (hlocal last (by simp)) hstep with ⟨hsame, -⟩ | ⟨-, t', hfed, -, htail⟩
        · exact hrecorded hsame
        · obtain ⟨u, hu, hids⟩ := hagrees (before ++ [last]) [] w' (by simp)
            (processEvents_append.mpr ⟨w, hrun, processEvents_singleton.mpr hstep⟩)
          rw [hfed] at hu
          cases hu
          exact htail hshort hids
      · have hsplit : (before ++ raw :: rest) ++ [final] = earlier ++ [last] := by
          rw [← hsplit]
          simp
        obtain ⟨hbefore, -⟩ := List.append_inj' hsplit rfl
        exact hearlier before raw rest w w' hbefore hrun hstep hrecorded

/-- Writer and analyzer agree on the mappings of the current process after every event
exactly when every recorded release of a known reservation reports at least the size the
writer has for it (or no size). -/
theorem mappings_agree_iff (options : WriterOptions) (file : TraceWriter)
    (raws : List RtlHeapEvent) (hlocal : ∀ raw ∈ raws, LocalMemory options raw) :
    AgreesThroughout options file raws ↔ ReleasesCover options file raws := by
  constructor
  · exact covers_of_agrees hlocal
  · intro hcovers before after v hsplit hbefore
    subst hsplit
    have hearlier : ReleasesCover options file before := by
      intro first other rest u u' hsplit
      apply hcovers first other (rest ++ after) u u'
      rw [← hsplit]
      simp
    obtain ⟨t, hfed, hagrees⟩ := followed_of_covers
      (fun other hmem => hlocal other (List.mem_append_left _ hmem)) hearlier hbefore
    exact ⟨t, hfed, hagrees.ids⟩

end Runs

/-! ### Losing a release -/

/-- The NT memory profile. -/
def memoryHooks : MemoryHooks := { ntMemory := true }

/-- `size` bytes are reserved at `0x10000`. -/
def regionReserved (sequence size : ℕ) : RtlHeapEvent where
  queueSequence := sequence
  monotonicTicks := 10 + sequence
  threadId := 1
  targetProcessId := 42
  requestedSize := size
  resultAddress := 0x10000
  rawResult := size
  mappingBase := 0x10000
  mappingSize := size
  flags := memReserve
  operation := .vmAllocate
  status := .success

/-- The reservation at `0x10000` is released, the kernel reports `size` bytes. -/
def regionReleased (sequence size : ℕ) : RtlHeapEvent where
  queueSequence := sequence
  monotonicTicks := 10 + sequence
  threadId := 1
  targetProcessId := 42
  address := 0x10000
  rawResult := size
  flags := memRelease
  operation := .vmFree
  status := .success

/-- A reservation and its release. -/
theorem mappings_agree_released :
    (AgreesThroughout (smallOptions memoryHooks 1048576) smallFile
        [regionReserved 1 0x2000, regionReleased 2 0x2000] ↔
      ReleasesCover (smallOptions memoryHooks 1048576) smallFile
        [regionReserved 1 0x2000, regionReleased 2 0x2000]) ∧
      ∃ w, processEvents (smallOptions memoryHooks 1048576)
        [regionReserved 1 0x2000, regionReleased 2 0x2000]
        (.start (smallOptions memoryHooks 1048576) smallFile) = .ok () w ∧
        w.live.liveVirtualMappings = [] ∧ w.planned.length = 2 := by
  refine ⟨mappings_agree_iff (smallOptions memoryHooks 1048576) smallFile
    [regionReserved 1 0x2000, regionReleased 2 0x2000] (by decide), ?_⟩
  have hruns : wp (processEvents (smallOptions memoryHooks 1048576)
      [regionReserved 1 0x2000, regionReleased 2 0x2000])
      (fun _ w => w.live.liveVirtualMappings = [] ∧ w.planned.length = 2)
      (fun _ _ => False) (.start (smallOptions memoryHooks 1048576) smallFile) := by
    decide +kernel
  obtain ⟨_, w, hrun, hend⟩ := wp_run hruns
  exact ⟨w, hrun, hend⟩

/-- In a log of the kernel, a release reports the size its base was last reserved with. -/
def ReportsReserved : (ℕ → Option ℕ) → List RtlHeapEvent → Prop
  | _, [] => True
  | reserved, raw :: rest =>
      (raw.operation = .vmFree → raw.Succeeded → raw.ReleasesMapping →
        ∀ size ∈ reserved raw.address, raw.rawResult = size) ∧
      ReportsReserved
        (if raw.operation = .vmAllocate ∧ raw.Succeeded ∧ raw.flags &&& memReserve ≠ 0 then
          Function.update reserved raw.reservedBase (some raw.reservedSize)
        else reserved) rest

instance decidableReportsReserved : (reserved : ℕ → Option ℕ) → (log : List RtlHeapEvent) →
    Decidable (ReportsReserved reserved log)
  | _, [] => .isTrue True.intro
  | _, _ :: rest => @instDecidableAnd _ _ inferInstance (decidableReportsReserved _ rest)

/-- Writer and analyzer agree whatever part of the kernel's events is lost. -/
def AgreeUnderLoss (options : WriterOptions) (file : TraceWriter) : Prop :=
  ∀ log raws w, ReportsReserved (fun _ => none) log → raws.Sublist log →
    (∀ raw ∈ raws, LocalMemory options raw) →
    processEvents options raws (.start options file) = .ok () w →
    AgreesThroughout options file raws

/-- A large reservation whose release was lost keeps its size in the writer: the release
of a smaller one at its base ends it there, and leaves its tail in the analyzer. -/
theorem lost_release_disagrees :
    ¬ AgreeUnderLoss (smallOptions memoryHooks 1048576) smallFile := by
  intro h
  have hruns : wp (processEvents (smallOptions memoryHooks 1048576)
      [regionReserved 1 0x2000, regionReserved 2 0x1000])
      (fun _ w => w.live.liveVirtualMappings.lookup 0x10000 = some ⟨1, 0x2000⟩ ∧
        wp (processEvent (smallOptions memoryHooks 1048576) (regionReleased 3 0x1000))
          (fun _ w' => w'.planned ≠ w.planned) (fun _ _ => False) w)
      (fun _ _ => False) (.start (smallOptions memoryHooks 1048576) smallFile) := by
    decide +kernel
  obtain ⟨_, w, hrun, hknown, hrelease⟩ := wp_run hruns
  obtain ⟨_, w', hstep, hrecorded⟩ := wp_run hrelease
  have hlocal : ∀ raw ∈ [regionReserved 1 0x2000, regionReserved 2 0x1000,
      regionReleased 3 0x1000], LocalMemory (smallOptions memoryHooks 1048576) raw := by
    decide
  have hall : processEvents (smallOptions memoryHooks 1048576)
      ([regionReserved 1 0x2000, regionReserved 2 0x1000] ++ [regionReleased 3 0x1000])
      (.start (smallOptions memoryHooks 1048576) smallFile) = .ok () w' :=
    processEvents_append.mpr ⟨w, hrun, processEvents_singleton.mpr hstep⟩
  have hlog : ReportsReserved (fun _ => none) [regionReserved 1 0x2000, regionReleased 0 0x2000,
      regionReserved 2 0x1000, regionReleased 3 0x1000] := by
    decide
  have hagrees := h [regionReserved 1 0x2000, regionReleased 0 0x2000, regionReserved 2 0x1000,
      regionReleased 3 0x1000]
    [regionReserved 1 0x2000, regionReserved 2 0x1000, regionReleased 3 0x1000] w' hlog
    (by decide) hlocal hall
  have hcovers := covers_of_agrees hlocal hagrees
    [regionReserved 1 0x2000, regionReserved 2 0x1000] (regionReleased 3 0x1000) [] w w' rfl hrun
    hstep hrecorded rfl rfl (by decide) ⟨1, 0x2000⟩ hknown
  revert hcovers
  decide

end Noleax.Windows
