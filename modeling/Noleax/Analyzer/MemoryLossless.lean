import Mathlib.Data.List.Basic
import Noleax.Analyzer.MemoryMerge
import Noleax.Analyzer.StreamSteps

/-!
# The merge loses nothing (`src/analyzer/memory.cpp`)

An exhausted list takes part in the merge with the tick `2 ^ 64 - 1`. As long as no record
bears that tick the merge is total and puts every record of the window into one snapshot.
Records that bear it are merged with the lists that are exhausted, and the merge reads past
their ends unless all three end together.
-/

namespace Noleax.Analyzer

open Lib Trace

/-- A record with this tick is selected. -/
abbrev InWindow (window : MemoryWindow) (header : FileHeader) (ticks : ℕ) : Prop :=
  snapshotInWindow window header ticks = .ok true

/-- The window does not throw at this tick. -/
def Answered (window : MemoryWindow) (header : FileHeader) (ticks : ℕ) : Prop :=
  ∃ selected, snapshotInWindow window header ticks = .ok selected

/-! ## Cursors -/

namespace Cursor

variable {α : Type} {cursor : Cursor α} {window : MemoryWindow} {header : FileHeader}
  {floor last shown least : ℕ} {picked : List α}

/-- The ticks of a list are words, and do not decrease. -/
structure Sorted (cursor : Cursor α) : Prop where
  word : ∀ record ∈ cursor.records, cursor.ticks record ≤ maxU64
  sorted : cursor.records.Pairwise fun first second => cursor.ticks first ≤ cursor.ticks second

/-- What `ticks_of` returns, at the end and on a record. -/
inductive Shows (cursor : Cursor α) : ℕ → Prop
  | done (hend : cursor.AtEnd) : Shows cursor maxU64
  | on {record : α} (hread : cursor.records[cursor.index]? = some record) :
      Shows cursor (cursor.ticks record)

theorem read_of {record : α} (hread : cursor.records[cursor.index]? = some record) :
    cursor.read = .ok record := by
  unfold read
  rw [hread]

theorem read_past (hpast : cursor.records.length ≤ cursor.index) :
    cursor.read = .error .pastEnd := by
  unfold read
  rw [List.getElem?_eq_none hpast]

theorem ticksOf_within (hwithin : cursor.index ≤ cursor.records.length) :
    ∃ shown, cursor.ticksOf = .ok shown ∧ cursor.Shows shown := by
  unfold ticksOf
  by_cases hend : cursor.AtEnd
  · rw [if_pos hend]
    exact ⟨maxU64, rfl, .done hend⟩
  · have hlt := Nat.lt_of_le_of_ne hwithin hend
    have hread := List.getElem?_eq_getElem hlt
    rw [if_neg hend, read_of hread]
    exact ⟨_, rfl, .on hread⟩

theorem ticksOf_astray (hastray : cursor.records.length < cursor.index) :
    cursor.ticksOf = .error .pastEnd := by
  unfold ticksOf
  rw [if_neg (Nat.ne_of_gt hastray), read_past (Nat.le_of_lt hastray)]
  rfl

theorem read_eq_error {fault : MemoryFault} (h : cursor.read = .error fault) :
    fault = .pastEnd := by
  unfold read at h
  split at h
  · cases h
  · cases h
    rfl

theorem ticksOf_eq_error {fault : MemoryFault} (h : cursor.ticksOf = .error fault) :
    fault = .pastEnd := by
  unfold ticksOf at h
  split at h
  · cases h
  · rcases hread : cursor.read with other | record
    · rw [hread] at h
      cases h
      exact read_eq_error hread
    · rw [hread] at h
      cases h

theorem pick_eq_error {due : Bool} {fault : MemoryFault} (h : cursor.pick due = .error fault) :
    fault = .pastEnd := by
  cases due with
  | false => cases h
  | true =>
      rcases hread : cursor.read with other | record
      · change (do return some (← cursor.read)) = _ at h
        rw [hread] at h
        cases h
        exact read_eq_error hread
      · change (do return some (← cursor.read)) = _ at h
        rw [hread] at h
        cases h

theorem pick_atEnd (hend : cursor.AtEnd) : cursor.pick true = .error .pastEnd := by
  show (do return some (← cursor.read)) = _
  rw [read_past (Nat.le_of_eq hend.symm)]
  rfl

theorem Shows.atEnd (hshows : cursor.Shows shown) (hend : cursor.AtEnd) : shown = maxU64 := by
  cases hshows with
  | done => rfl
  | on hread =>
      obtain ⟨hlt, -⟩ := List.getElem?_eq_some_iff.mp hread
      omega

theorem Shows.mem (hshows : cursor.Shows shown) (hon : ¬cursor.AtEnd) :
    shown ∈ cursor.records.map cursor.ticks := by
  cases hshows with
  | done hend => exact absurd hend hon
  | on hread => exact List.mem_map_of_mem (List.mem_of_getElem? hread)

theorem Shows.le_maxU64 (hsorted : cursor.Sorted) (hshows : cursor.Shows shown) :
    shown ≤ maxU64 := by
  cases hshows with
  | done hend => exact Nat.le_refl _
  | on hread => exact hsorted.word _ (List.mem_of_getElem? hread)

/-- The records that are left do not come before the tick that is shown. -/
theorem Shows.le_rest (hsorted : cursor.Sorted) (hshows : cursor.Shows shown) :
    ∀ record ∈ cursor.records.drop cursor.index, shown ≤ cursor.ticks record := by
  intro record hrecord
  cases hshows with
  | done hend =>
      rw [hend, List.drop_length] at hrecord
      cases hrecord
  | on hread =>
      obtain ⟨hlt, rfl⟩ := List.getElem?_eq_some_iff.mp hread
      have hdrop := hsorted.sorted.drop (i := cursor.index)
      rw [List.drop_eq_getElem_cons hlt] at hrecord hdrop
      rcases List.mem_cons.mp hrecord with rfl | htail
      · exact Nat.le_refl _
      · exact (List.pairwise_cons.mp hdrop).1 record htail

/-- Where a cursor is: what was selected of the records before it, how many of them bear the
last tick, and that no record after it comes before `floor`. -/
structure Along (window : MemoryWindow) (header : FileHeader) (cursor : Cursor α) (floor : ℕ)
    (picked : List α) (last : ℕ) : Prop where
  within : cursor.index ≤ cursor.records.length
  picked : picked = (cursor.records.take cursor.index).filter fun record =>
    InWindow window header (cursor.ticks record)
  floor : ∀ record ∈ cursor.records.drop cursor.index, floor ≤ cursor.ticks record
  last : (cursor.records.take cursor.index).countP (cursor.ticks · = maxU64) = last
  answered : ∀ record ∈ cursor.records.take cursor.index,
    Answered window header (cursor.ticks record)

theorem Along.start (hstart : cursor.index = 0) : cursor.Along window header 0 [] 0 := by
  constructor
  · rw [hstart]
    exact Nat.zero_le _
  · rw [hstart, List.take_zero, List.filter_nil]
  · intro record _
    exact Nat.zero_le _
  · rw [hstart, List.take_zero, List.countP_nil]
  · rw [hstart, List.take_zero]
    intro record hrecord
    cases hrecord

theorem Along.floor_le_shown (h : cursor.Along window header floor picked last)
    (hfloor : floor ≤ maxU64) (hshows : cursor.Shows shown) : floor ≤ shown := by
  cases hshows with
  | done hend => exact hfloor
  | on hread =>
      obtain ⟨hlt, rfl⟩ := List.getElem?_eq_some_iff.mp hread
      refine h.floor _ ?_
      rw [List.drop_eq_getElem_cons hlt]
      exact List.mem_cons_self

/-- A round takes the record of a cursor that shows the least tick, and no other. -/
theorem Along.step (h : cursor.Along window header floor picked last) (hsorted : cursor.Sorted)
    (hshows : cursor.Shows shown) (hleast : least ≤ shown)
    (hon : shown = least → ¬cursor.AtEnd) (hanswered : Answered window header least) :
    ∃ record, cursor.pick (shown = least) = .ok record ∧
      (∀ value ∈ record, cursor.ticks value = least) ∧
      (cursor.advance (shown = least)).Along window header least
        (picked ++ if InWindow window header least then record.toList else [])
        (last + if least = maxU64 then 1 else 0) := by
  by_cases hdue : shown = least
  · subst hdue
    cases hshows with
    | done hend => exact absurd hend (hon rfl)
    | @on record hread =>
        have hrest := Shows.le_rest hsorted (.on hread)
        obtain ⟨hlt, heq⟩ := List.getElem?_eq_some_iff.mp hread
        have htake : cursor.records.take (cursor.index + 1) =
            cursor.records.take cursor.index ++ [record] := by
          rw [List.take_succ_eq_append_getElem hlt, heq]
        refine ⟨some record, ?_, ?_, ?_⟩
        · rw [decide_eq_true rfl]
          show (do return some (← cursor.read)) = _
          rw [read_of hread]
          rfl
        · intro value hvalue
          cases hvalue
          rfl
        · rw [decide_eq_true rfl]
          show Along window header { cursor with index := cursor.index + 1 } _ _ _
          constructor
          · exact hlt
          · show _ = (cursor.records.take (cursor.index + 1)).filter _
            rw [htake, List.filter_append, ← h.picked, List.filter_singleton]
            by_cases hin : InWindow window header (cursor.ticks record)
            · rw [if_pos hin, decide_eq_true hin]
              rfl
            · rw [if_neg hin, decide_eq_false hin]
              rfl
          · intro value hvalue
            refine hrest value ?_
            rw [List.drop_eq_getElem_cons hlt]
            exact List.mem_cons_of_mem _ hvalue
          · show (cursor.records.take (cursor.index + 1)).countP _ = _
            rw [htake, List.countP_append, h.last, List.countP_singleton]
            simp only [decide_eq_true_eq]
          · intro value hvalue
            change value ∈ cursor.records.take (cursor.index + 1) at hvalue
            rw [htake] at hvalue
            rcases List.mem_append.mp hvalue with hold | hnew
            · exact h.answered value hold
            · rw [List.mem_singleton.mp hnew]
              exact hanswered
  · -- it shows more than the least tick, which is not the last one then
    have hne : least ≠ maxU64 := by
      have hle := Shows.le_maxU64 hsorted hshows
      omega
    refine ⟨none, ?_, ?_, ?_⟩
    · rw [decide_eq_false hdue]
      rfl
    · intro value hvalue
      cases hvalue
    · rw [decide_eq_false hdue]
      show Along window header cursor _ _ _
      refine ⟨h.within, ?_, ?_, ?_, h.answered⟩
      · rw [h.picked]
        split <;> simp
      · intro value hvalue
        exact Nat.le_trans hleast (Shows.le_rest hsorted hshows value hvalue)
      · rw [if_neg hne, h.last]
        rfl

/-- How many records bear the last tick. -/
def lastCount (cursor : Cursor α) : ℕ := cursor.records.countP (cursor.ticks · = maxU64)

def AllAnswered (window : MemoryWindow) (header : FileHeader) (cursor : Cursor α) : Prop :=
  ∀ record ∈ cursor.records, Answered window header (cursor.ticks record)

/-- The list of a cursor, without its place in it. -/
def source (cursor : Cursor α) : List α × (α → ℕ) := (cursor.records, cursor.ticks)

theorem source_advance (due : Bool) : (cursor.advance due).source = cursor.source := by
  cases due <;> rfl

theorem lastCount_of_source {other : Cursor α} (h : cursor.source = other.source) :
    cursor.lastCount = other.lastCount := by
  obtain ⟨hrecords, hticks⟩ := Prod.mk.inj h
  unfold lastCount
  rw [hrecords, hticks]

theorem Sorted.of_source {other : Cursor α} (h : cursor.source = other.source)
    (hsorted : cursor.Sorted) : other.Sorted := by
  obtain ⟨hrecords, hticks⟩ := Prod.mk.inj h
  obtain ⟨hword, hpairs⟩ := hsorted
  rw [hrecords, hticks] at hword hpairs
  exact ⟨hword, hpairs⟩

theorem AllAnswered.of_source {other : Cursor α} (h : cursor.source = other.source)
    (hall : cursor.AllAnswered window header) : other.AllAnswered window header := by
  obtain ⟨hrecords, hticks⟩ := Prod.mk.inj h
  unfold AllAnswered at hall
  rw [hrecords, hticks] at hall
  exact hall

theorem left_advance_le (due : Bool) : (cursor.advance due).left ≤ cursor.left := by
  cases due with
  | true => exact Nat.sub_le_sub_left (Nat.le_succ _) _
  | false => exact Nat.le_refl _

theorem left_advance_lt (hwithin : cursor.index ≤ cursor.records.length)
    (hon : ¬cursor.AtEnd) : (cursor.advance true).left < cursor.left := by
  have hlt := Nat.lt_of_le_of_ne hwithin hon
  show cursor.records.length - (cursor.index + 1) < cursor.records.length - cursor.index
  omega

theorem Along.lastCount_atEnd (h : cursor.Along window header floor picked last)
    (hend : cursor.AtEnd) : cursor.lastCount = last := by
  have hlast := h.last
  rw [hend, List.take_length] at hlast
  exact hlast

/-- A record with the last tick is still to come. -/
theorem Along.last_lt_lastCount (h : cursor.Along window header floor picked last)
    (hsorted : cursor.Sorted) (hshows : cursor.Shows maxU64) (hon : ¬cursor.AtEnd) :
    last < cursor.lastCount := by
  have hlt := Nat.lt_of_le_of_ne h.within hon
  have hmem : cursor.records[cursor.index] ∈ cursor.records.drop cursor.index := by
    rw [List.drop_eq_getElem_cons hlt]
    exact List.mem_cons_self
  have hmax : cursor.ticks cursor.records[cursor.index] = maxU64 :=
    Nat.le_antisymm (hsorted.word _ (List.getElem_mem hlt))
      (Shows.le_rest hsorted hshows _ hmem)
  have hrest : 0 < (cursor.records.drop cursor.index).countP (cursor.ticks · = maxU64) :=
    List.countP_pos_iff.mpr ⟨_, hmem, decide_eq_true hmax⟩
  unfold lastCount
  rw [← List.take_append_drop cursor.index cursor.records, List.countP_append, h.last]
  omega

/-- When the last tick is shown and answered, every tick is. -/
theorem Along.allAnswered (h : cursor.Along window header floor picked last)
    (hsorted : cursor.Sorted) (hshows : cursor.Shows maxU64)
    (hanswered : Answered window header maxU64) : cursor.AllAnswered window header := by
  intro record hrecord
  rw [← List.take_append_drop cursor.index cursor.records] at hrecord
  rcases List.mem_append.mp hrecord with htake | hdrop
  · exact h.answered record htake
  · have hge := Shows.le_rest hsorted hshows record hdrop
    have hle := hsorted.word record (List.mem_of_mem_drop hdrop)
    rw [Nat.le_antisymm hle hge]
    exact hanswered

end Cursor

/-! ## The merge -/

/-- The records of a snapshot are of its tick. -/
structure MemorySnapshot.Shared (snapshot : MemorySnapshot) : Prop where
  counters : ∀ counters ∈ snapshot.counters, counters.monotonicTicks = snapshot.monotonicTicks
  map : ∀ map ∈ snapshot.map, map.monotonicTicks = snapshot.monotonicTicks
  agent : ∀ agent ∈ snapshot.agent, agent.monotonicTicks = snapshot.monotonicTicks

/-- Every record of the window is in one snapshot, in its order; a snapshot holds records of
its own tick, and the ticks of the snapshots do not decrease. -/
structure Lossless (window : MemoryWindow) (header : FileHeader) (records : MemoryRecords)
    (snapshots : List MemorySnapshot) : Prop where
  counters : snapshots.filterMap (·.counters) =
    records.counters.filter fun counters => InWindow window header counters.monotonicTicks
  maps : snapshots.filterMap (·.map) =
    records.maps.filter fun map => InWindow window header map.monotonicTicks
  agents : snapshots.filterMap (·.agent) =
    records.agents.filter fun agent => InWindow window header agent.monotonicTicks
  shared : ∀ snapshot ∈ snapshots, snapshot.Shared
  ordered : snapshots.Pairwise fun first second => first.monotonicTicks ≤ second.monotonicTicks

namespace MemoryRecords

/-- The ticks of all records. -/
def ticks (records : MemoryRecords) : List ℕ :=
  records.counters.map (·.monotonicTicks) ++ records.maps.map (·.monotonicTicks) ++
    records.agents.map (·.monotonicTicks)

/-- The three kinds have equally many records with the last tick. -/
def Balanced (records : MemoryRecords) : Prop :=
  records.counters.countP (·.monotonicTicks = maxU64) =
      records.maps.countP (·.monotonicTicks = maxU64) ∧
    records.maps.countP (·.monotonicTicks = maxU64) =
      records.agents.countP (·.monotonicTicks = maxU64)

/-- The ticks of every kind are words, and do not decrease. -/
structure Sorted (records : MemoryRecords) : Prop where
  counters : (MergeRun.start records).counters.Sorted
  maps : (MergeRun.start records).map.Sorted
  agents : (MergeRun.start records).agent.Sorted

end MemoryRecords

namespace MergeRun

/-- A run over the lists of `records`. -/
structure Over (records : MemoryRecords) (run : MergeRun) : Prop where
  counters : run.counters.source = (start records).counters.source
  map : run.map.source = (start records).map.source
  agent : run.agent.source = (start records).agent.source

/-- A run of the merge so far: `floor` is the tick of its last round, and every list has
given up `last` records with the last tick. -/
structure Merging (window : MemoryWindow) (header : FileHeader) (records : MemoryRecords)
    (floor last : ℕ) (run : MergeRun) : Prop where
  lists : Over records run
  word : floor ≤ maxU64
  counters : run.counters.Along window header floor (run.snapshots.filterMap (·.counters)) last
  map : run.map.Along window header floor (run.snapshots.filterMap (·.map)) last
  agent : run.agent.Along window header floor (run.snapshots.filterMap (·.agent)) last
  shared : ∀ snapshot ∈ run.snapshots, snapshot.Shared
  below : ∀ snapshot ∈ run.snapshots, snapshot.monotonicTicks ≤ floor
  ordered : run.snapshots.Pairwise fun first second =>
    first.monotonicTicks ≤ second.monotonicTicks

/-- A run with a cursor past its end. -/
def Astray (run : MergeRun) : Prop :=
  run.counters.records.length < run.counters.index ∨ run.map.records.length < run.map.index ∨
    run.agent.records.length < run.agent.index

/-- The merge reached the last tick with lists that do not end together. -/
def Derailed (window : MemoryWindow) (header : FileHeader) (records : MemoryRecords) : Prop :=
  ¬records.Balanced ∧ ∀ ticks ∈ records.ticks, Answered window header ticks

section Rounds

variable {window : MemoryWindow} {header : FileHeader} {records : MemoryRecords}
  {floor last : ℕ} {run : MergeRun} {ticks : Ticks}

/-- The ticks that the three cursors show. -/
structure Shown (run : MergeRun) (ticks : Ticks) : Prop where
  counters : run.counters.Shows ticks.counters
  map : run.map.Shows ticks.map
  agent : run.agent.Shows ticks.agent

theorem Over.balanced_iff (h : Over records run) : records.Balanced ↔
    run.counters.lastCount = run.map.lastCount ∧ run.map.lastCount = run.agent.lastCount := by
  rw [Cursor.lastCount_of_source h.counters, Cursor.lastCount_of_source h.map,
    Cursor.lastCount_of_source h.agent]
  exact Iff.rfl

theorem Over.sorted (h : Over records run) (hsorted : records.Sorted) :
    run.counters.Sorted ∧ run.map.Sorted ∧ run.agent.Sorted :=
  ⟨hsorted.counters.of_source h.counters.symm, hsorted.maps.of_source h.map.symm,
    hsorted.agents.of_source h.agent.symm⟩

theorem Over.allAnswered (h : Over records run) (hcounters : run.counters.AllAnswered window header)
    (hmap : run.map.AllAnswered window header) (hagent : run.agent.AllAnswered window header) :
    ∀ ticks ∈ records.ticks, Answered window header ticks := by
  have hcounters := hcounters.of_source h.counters
  have hmap := hmap.of_source h.map
  have hagent := hagent.of_source h.agent
  intro ticks hticks
  unfold MemoryRecords.ticks at hticks
  rcases List.mem_append.mp hticks with hticks | hticks
  · rcases List.mem_append.mp hticks with hticks | hticks
    · obtain ⟨record, hrecord, rfl⟩ := List.mem_map.mp hticks
      exact hcounters record hrecord
    · obtain ⟨record, hrecord, rfl⟩ := List.mem_map.mp hticks
      exact hmap record hrecord
  · obtain ⟨record, hrecord, rfl⟩ := List.mem_map.mp hticks
    exact hagent record hrecord

theorem Merging.shown (h : Merging window header records floor last run) :
    ∃ ticks, run.ticks = .ok ticks ∧ Shown run ticks := by
  obtain ⟨countersTicks, hcounters, hshowsCounters⟩ := Cursor.ticksOf_within h.counters.within
  obtain ⟨mapTicks, hmap, hshowsMap⟩ := Cursor.ticksOf_within h.map.within
  obtain ⟨agentTicks, hagent, hshowsAgent⟩ := Cursor.ticksOf_within h.agent.within
  refine ⟨⟨countersTicks, mapTicks, agentTicks⟩, ?_, hshowsCounters, hshowsMap, hshowsAgent⟩
  unfold MergeRun.ticks
  rw [hcounters, hmap, hagent]
  rfl

/-- The round after a cursor left its list reads past an end. -/
theorem ticks_astray (h : Astray run) : run.ticks = .error .pastEnd := by
  unfold MergeRun.ticks
  rcases hcounters : run.counters.ticksOf with fault | countersTicks
  · rw [Cursor.ticksOf_eq_error hcounters]
    rfl
  rcases hmap : run.map.ticksOf with fault | mapTicks
  · rw [Cursor.ticksOf_eq_error hmap]
    rfl
  rcases hagent : run.agent.ticksOf with fault | agentTicks
  · rw [Cursor.ticksOf_eq_error hagent]
    rfl
  rcases h with hastray | hastray | hastray
  · rw [Cursor.ticksOf_astray hastray] at hcounters
    cases hcounters
  · rw [Cursor.ticksOf_astray hastray] at hmap
    cases hmap
  · rw [Cursor.ticksOf_astray hastray] at hagent
    cases hagent

/-- As long as the loop goes on, a record has the least tick. -/
theorem Shown.due (h : Shown run ticks) (hcounters : run.counters.Sorted)
    (hmap : run.map.Sorted) (hagent : run.agent.Sorted) (hon : ¬run.AtEnd) :
    (¬run.counters.AtEnd ∧ ticks.counters = ticks.least) ∨
      (¬run.map.AtEnd ∧ ticks.map = ticks.least) ∨
      (¬run.agent.AtEnd ∧ ticks.agent = ticks.least) := by
  have hcountersEnd := h.counters.atEnd
  have hmapEnd := h.map.atEnd
  have hagentEnd := h.agent.atEnd
  have hcountersLe := h.counters.le_maxU64 hcounters
  have hmapLe := h.map.le_maxU64 hmap
  have hagentLe := h.agent.le_maxU64 hagent
  unfold Ticks.least
  unfold MergeRun.AtEnd at hon
  omega

theorem Ticks.least_le (ticks : Ticks) :
    ticks.least ≤ ticks.counters ∧ ticks.least ≤ ticks.map ∧ ticks.least ≤ ticks.agent := by
  unfold Ticks.least
  omega

/-- The least tick is one of a record. -/
theorem Shown.least_mem (h : Shown run ticks) (hlists : Over records run)
    (hsorted : records.Sorted) (hon : ¬run.AtEnd) : ticks.least ∈ records.ticks := by
  obtain ⟨hcounters, hmap, hagent⟩ := hlists.sorted hsorted
  have hsource : ∀ {α : Type} {cursor other : Cursor α}, cursor.source = other.source →
      cursor.records.map cursor.ticks = other.records.map other.ticks := by
    intro α cursor other hsame
    obtain ⟨hrecords, hticks⟩ := Prod.mk.inj hsame
    rw [hrecords, hticks]
  unfold MemoryRecords.ticks
  rcases h.due hcounters hmap hagent hon with ⟨hon, heq⟩ | ⟨hon, heq⟩ | ⟨hon, heq⟩
  · have hmem := h.counters.mem hon
    rw [heq, hsource hlists.counters] at hmem
    exact List.mem_append_left _ (List.mem_append_left _ hmem)
  · have hmem := h.map.mem hon
    rw [heq, hsource hlists.map] at hmem
    exact List.mem_append_left _ (List.mem_append_right _ hmem)
  · have hmem := h.agent.mem hon
    rw [heq, hsource hlists.agent] at hmem
    exact List.mem_append_right _ hmem

theorem next_of (hticks : run.ticks = .ok ticks) {taken : List MemorySnapshot}
    (hselected : run.selected window header ticks = .ok taken) :
    run.next window header =
      .ok { run.advance ticks with snapshots := run.snapshots ++ taken } := by
  unfold next
  rw [hticks]
  show (run.selected window header ticks >>= _) = _
  rw [hselected]
  rfl

theorem next_throws (hticks : run.ticks = .ok ticks) {fault : MemoryFault}
    (hselected : run.selected window header ticks = .error fault) :
    run.next window header = .error fault := by
  unfold next
  rw [hticks]
  show (run.selected window header ticks >>= _) = _
  rw [hselected]
  rfl

/-- A round takes a record from one of the lists. -/
theorem Merging.left_lt (h : Merging window header records floor last run)
    (hsorted : records.Sorted) (hshown : Shown run ticks) (hon : ¬run.AtEnd) :
    (run.advance ticks).left < run.left := by
  obtain ⟨hcounters, hmap, hagent⟩ := h.lists.sorted hsorted
  have hcountersLe := run.counters.left_advance_le (ticks.counters = ticks.least)
  have hmapLe := run.map.left_advance_le (ticks.map = ticks.least)
  have hagentLe := run.agent.left_advance_le (ticks.agent = ticks.least)
  show (run.counters.advance _).left + (run.map.advance _).left + (run.agent.advance _).left <
    run.counters.left + run.map.left + run.agent.left
  rcases hshown.due hcounters hmap hagent hon with ⟨hon, heq⟩ | ⟨hon, heq⟩ | ⟨hon, heq⟩
  · have hlt := Cursor.left_advance_lt h.counters.within hon
    rw [decide_eq_true heq] at hcountersLe ⊢
    omega
  · have hlt := Cursor.left_advance_lt h.map.within hon
    rw [decide_eq_true heq] at hmapLe ⊢
    omega
  · have hlt := Cursor.left_advance_lt h.agent.within hon
    rw [decide_eq_true heq] at hagentLe ⊢
    omega

/-- No cursor at its end is due. -/
structure Fits (run : MergeRun) (ticks : Ticks) : Prop where
  counters : ticks.counters = ticks.least → ¬run.counters.AtEnd
  map : ticks.map = ticks.least → ¬run.map.AtEnd
  agent : ticks.agent = ticks.least → ¬run.agent.AtEnd

/-- A round where no cursor at its end is due takes the records of the least tick. -/
theorem Merging.next (h : Merging window header records floor last run)
    (hsorted : records.Sorted) (hticks : run.ticks = .ok ticks) (hshown : Shown run ticks)
    (hon : ¬run.AtEnd) (hfits : Fits run ticks)
    (hanswered : Answered window header ticks.least) :
    ∃ next last', run.next window header = .ok next ∧
      Merging window header records ticks.least last' next ∧ next.left < run.left := by
  obtain ⟨hcounters, hmap, hagent⟩ := h.lists.sorted hsorted
  obtain ⟨hleCounters, hleMap, hleAgent⟩ := ticks.least_le
  obtain ⟨counters, hpickCounters, hsharedCounters, halongCounters⟩ :=
    h.counters.step hcounters hshown.counters hleCounters hfits.counters hanswered
  obtain ⟨map, hpickMap, hsharedMap, halongMap⟩ :=
    h.map.step hmap hshown.map hleMap hfits.map hanswered
  obtain ⟨agent, hpickAgent, hsharedAgent, halongAgent⟩ :=
    h.agent.step hagent hshown.agent hleAgent hfits.agent hanswered
  have hfloor : floor ≤ ticks.least := by
    have hcounters := h.counters.floor_le_shown h.word hshown.counters
    have hmap := h.map.floor_le_shown h.word hshown.map
    have hagent := h.agent.floor_le_shown h.word hshown.agent
    unfold Ticks.least
    omega
  let snapshot : MemorySnapshot := ⟨ticks.least, counters, map, agent⟩
  let taken := if InWindow window header ticks.least then [snapshot] else []
  have hsnapshot : run.snapshot ticks = .ok snapshot := by
    unfold MergeRun.snapshot
    rw [hpickCounters, hpickMap, hpickAgent]
    rfl
  have hselected : run.selected window header ticks = .ok taken := by
    obtain ⟨answer, hanswer⟩ := hanswered
    unfold MergeRun.selected
    simp only [taken, InWindow, hanswer]
    cases answer with
    | false => rfl
    | true =>
        rw [hsnapshot]
        rfl
  have htaken : ∀ {α : Type} (kind : MemorySnapshot → Option α), taken.filterMap kind =
      if InWindow window header ticks.least then (kind snapshot).toList else [] := by
    intro α kind
    simp only [taken]
    split
    · rw [List.filterMap_cons]
      cases kind snapshot <;> rfl
    · rfl
  have hmem : ∀ taken' ∈ taken, taken' = snapshot := by
    intro taken' hmem
    simp only [taken] at hmem
    split at hmem
    · exact List.mem_singleton.mp hmem
    · cases hmem
  rw [(Prod.mk.inj h.lists.counters).2] at hsharedCounters
  rw [(Prod.mk.inj h.lists.map).2] at hsharedMap
  rw [(Prod.mk.inj h.lists.agent).2] at hsharedAgent
  refine ⟨_, last + if ticks.least = maxU64 then 1 else 0, next_of hticks hselected, ?_,
    h.left_lt hsorted hshown hon⟩
  refine ⟨⟨?_, ?_, ?_⟩, ?_, ?_, ?_, ?_, ?_, ?_, ?_⟩
  · exact (Cursor.source_advance _).trans h.lists.counters
  · exact (Cursor.source_advance _).trans h.lists.map
  · exact (Cursor.source_advance _).trans h.lists.agent
  · exact Nat.le_trans hleCounters (hshown.counters.le_maxU64 hcounters)
  · rw [List.filterMap_append, htaken]
    exact halongCounters
  · rw [List.filterMap_append, htaken]
    exact halongMap
  · rw [List.filterMap_append, htaken]
    exact halongAgent
  · intro other hother
    rcases List.mem_append.mp hother with hold | hnew
    · exact h.shared other hold
    · rw [hmem other hnew]
      exact ⟨hsharedCounters, hsharedMap, hsharedAgent⟩
  · intro other hother
    rcases List.mem_append.mp hother with hold | hnew
    · exact Nat.le_trans (h.below other hold) hfloor
    · rw [hmem other hnew]
  · rw [List.pairwise_append]
    refine ⟨h.ordered, ?_, ?_⟩
    · simp only [taken]
      split <;> simp
    · intro first hfirst second hsecond
      rw [hmem second hsecond]
      exact Nat.le_trans (h.below first hfirst) hfloor

/-- A cursor at its end is due only at the last tick, when all are; what is left of the other
lists unbalances them. -/
theorem Merging.unbalanced (h : Merging window header records floor last run)
    (hsorted : records.Sorted) (hshown : Shown run ticks) (hon : ¬run.AtEnd)
    (hfits : ¬Fits run ticks) :
    (ticks.counters = maxU64 ∧ ticks.map = maxU64 ∧ ticks.agent = maxU64) ∧
      ¬records.Balanced := by
  obtain ⟨hcounters, hmap, hagent⟩ := h.lists.sorted hsorted
  obtain ⟨hleCounters, hleMap, hleAgent⟩ := ticks.least_le
  have hcountersLe := hshown.counters.le_maxU64 hcounters
  have hmapLe := hshown.map.le_maxU64 hmap
  have hagentLe := hshown.agent.le_maxU64 hagent
  have hdone : (run.counters.AtEnd ∨ run.map.AtEnd ∨ run.agent.AtEnd) ∧
      ticks.least = maxU64 := by
    by_contra hnone
    refine hfits ⟨?_, ?_, ?_⟩
    · intro hdue hend
      exact hnone ⟨.inl hend, hdue.symm.trans (hshown.counters.atEnd hend)⟩
    · intro hdue hend
      exact hnone ⟨.inr (.inl hend), hdue.symm.trans (hshown.map.atEnd hend)⟩
    · intro hdue hend
      exact hnone ⟨.inr (.inr hend), hdue.symm.trans (hshown.agent.atEnd hend)⟩
  obtain ⟨hdone, hleast⟩ := hdone
  have hall : ticks.counters = maxU64 ∧ ticks.map = maxU64 ∧ ticks.agent = maxU64 := by omega
  refine ⟨hall, ?_⟩
  have hshowsCounters := hall.1 ▸ hshown.counters
  have hshowsMap := hall.2.1 ▸ hshown.map
  have hshowsAgent := hall.2.2 ▸ hshown.agent
  -- an exhausted list has given up all its last ticks, another has one left
  have hcountersEnd := h.counters.lastCount_atEnd
  have hmapEnd := h.map.lastCount_atEnd
  have hagentEnd := h.agent.lastCount_atEnd
  have hcountersOn := h.counters.last_lt_lastCount hcounters hshowsCounters
  have hmapOn := h.map.last_lt_lastCount hmap hshowsMap
  have hagentOn := h.agent.last_lt_lastCount hagent hshowsAgent
  rw [h.lists.balanced_iff]
  unfold MergeRun.AtEnd at hon
  omega

/-- The snapshot of a round where a cursor at its end is due. -/
theorem snapshot_pastEnd (hfits : ¬Fits run ticks) : run.snapshot ticks = .error .pastEnd := by
  unfold MergeRun.snapshot
  rcases hcounters : run.counters.pick (ticks.counters = ticks.least) with fault | counters
  · rw [Cursor.pick_eq_error hcounters]
    rfl
  rcases hmap : run.map.pick (ticks.map = ticks.least) with fault | map
  · rw [Cursor.pick_eq_error hmap]
    rfl
  rcases hagent : run.agent.pick (ticks.agent = ticks.least) with fault | agent
  · rw [Cursor.pick_eq_error hagent]
    rfl
  refine absurd ⟨?_, ?_, ?_⟩ hfits
  · intro hdue hend
    rw [decide_eq_true hdue, Cursor.pick_atEnd hend] at hcounters
    cases hcounters
  · intro hdue hend
    rw [decide_eq_true hdue, Cursor.pick_atEnd hend] at hmap
    cases hmap
  · intro hdue hend
    rw [decide_eq_true hdue, Cursor.pick_atEnd hend] at hagent
    cases hagent

theorem astray_advance (hfits : ¬Fits run ticks) : Astray (run.advance ticks) := by
  by_contra hastray
  unfold Astray at hastray
  refine hfits ⟨?_, ?_, ?_⟩
  · intro hdue hend
    refine hastray (.inl ?_)
    unfold MergeRun.advance
    rw [decide_eq_true hdue]
    exact Nat.lt_succ_of_le (Nat.le_of_eq hend.symm)
  · intro hdue hend
    refine hastray (.inr (.inl ?_))
    unfold MergeRun.advance
    rw [decide_eq_true hdue]
    exact Nat.lt_succ_of_le (Nat.le_of_eq hend.symm)
  · intro hdue hend
    refine hastray (.inr (.inr ?_))
    unfold MergeRun.advance
    rw [decide_eq_true hdue]
    exact Nat.lt_succ_of_le (Nat.le_of_eq hend.symm)

/-- What a run of the merge is like between two rounds. -/
def Running (window : MemoryWindow) (header : FileHeader) (records : MemoryRecords)
    (run : MergeRun) : Prop :=
  (∃ floor last, Merging window header records floor last run) ∨
    (Astray run ∧ Derailed window header records)

/-- What a round does to such a run. -/
theorem Running.next (h : Running window header records run) (hsorted : records.Sorted)
    (hon : ¬run.AtEnd) :
    (∃ next, run.next window header = .ok next ∧ Running window header records next ∧
      next.left < run.left) ∨
    (run.next window header = .error .pastEnd ∧ Derailed window header records) ∨
    ∃ e, run.next window header = .error (.window e) ∧
      ∃ ticks ∈ records.ticks, snapshotInWindow window header ticks = .error e := by
  rcases h with ⟨floor, last, h⟩ | ⟨hastray, hderailed⟩
  · obtain ⟨ticks, hticks, hshown⟩ := h.shown
    rcases hwindow : snapshotInWindow window header ticks.least with e | answer
    · -- the window throws
      have hselected : run.selected window header ticks = .error (.window e) := by
        unfold MergeRun.selected
        rw [hwindow]
      exact .inr (.inr ⟨e, next_throws hticks hselected, ticks.least,
        hshown.least_mem h.lists hsorted hon, hwindow⟩)
    by_cases hfits : Fits run ticks
    · obtain ⟨next, last', hnext, hmerging, hlt⟩ :=
        h.next hsorted hticks hshown hon hfits ⟨answer, hwindow⟩
      exact .inl ⟨next, hnext, .inl ⟨_, _, hmerging⟩, hlt⟩
    · obtain ⟨⟨hcounters, hmap, hagent⟩, hunbalanced⟩ :=
        h.unbalanced hsorted hshown hon hfits
      have hleast : ticks.least = maxU64 := by
        unfold Ticks.least
        omega
      obtain ⟨hsortedCounters, hsortedMap, hsortedAgent⟩ := h.lists.sorted hsorted
      have hanswered : Answered window header maxU64 := ⟨answer, hleast ▸ hwindow⟩
      have hderailed : Derailed window header records :=
        ⟨hunbalanced, h.lists.allAnswered
          (h.counters.allAnswered hsortedCounters (hcounters ▸ hshown.counters) hanswered)
          (h.map.allAnswered hsortedMap (hmap ▸ hshown.map) hanswered)
          (h.agent.allAnswered hsortedAgent (hagent ▸ hshown.agent) hanswered)⟩
      cases answer with
      | true =>
          have hselected : run.selected window header ticks = .error .pastEnd := by
            unfold MergeRun.selected
            rw [hwindow, snapshot_pastEnd hfits]
            rfl
          exact .inr (.inl ⟨next_throws hticks hselected, hderailed⟩)
      | false =>
          have hselected : run.selected window header ticks = .ok [] := by
            unfold MergeRun.selected
            rw [hwindow]
          exact .inl ⟨_, next_of hticks hselected,
            .inr ⟨astray_advance hfits, hderailed⟩, h.left_lt hsorted hshown hon⟩
  · refine .inr (.inl ⟨?_, hderailed⟩)
    unfold MergeRun.next
    rw [ticks_astray hastray]
    rfl

theorem Merging.start : Merging window header records 0 0 (start records) := by
  refine ⟨⟨rfl, rfl, rfl⟩, Nat.zero_le _, .start rfl, .start rfl, .start rfl, ?_, ?_, .nil⟩
  · intro snapshot h
    cases h
  · intro snapshot h
    cases h

/-- At the end of the loop every record was taken. -/
theorem Merging.finish (h : Merging window header records floor last run) (hend : run.AtEnd) :
    Lossless window header records run.snapshots ∧ records.Balanced := by
  obtain ⟨hcounters, hmap, hagent⟩ := hend
  have hall : ∀ {α : Type} {cursor other : Cursor α} {picked : List α},
      cursor.Along window header floor picked last → cursor.AtEnd →
      cursor.source = other.source →
      picked = other.records.filter fun record => InWindow window header (other.ticks record) := by
    intro α cursor other picked halong hend hsource
    obtain ⟨hrecords, hticks⟩ := Prod.mk.inj hsource
    rw [halong.picked, hend, List.take_length, hrecords, hticks]
  constructor
  · have hcounters := @hall _ _ (MergeRun.start records).counters _ h.counters hcounters
      h.lists.counters
    have hmap := @hall _ _ (MergeRun.start records).map _ h.map hmap h.lists.map
    have hagent := @hall _ _ (MergeRun.start records).agent _ h.agent hagent h.lists.agent
    exact ⟨hcounters, hmap, hagent, h.shared, h.ordered⟩
  · rw [h.lists.balanced_iff, h.counters.lastCount_atEnd hcounters, h.map.lastCount_atEnd hmap,
      h.agent.lastCount_atEnd hagent]
    exact ⟨rfl, rfl⟩

end Rounds

end MergeRun

open MergeRun

section Records

variable {window : MemoryWindow} {header : FileHeader} {records : MemoryRecords}

theorem round_eq (run : MergeRun) : MergeRun.round window header run =
    if run.AtEnd then .ok (some ()) run
    else match run.next window header with
      | .ok next => .ok none next
      | .error fault => .error fault run := by
  show (if run.AtEnd then pure (some ()) else do
    set (← check (run.next window header))
    return none : EStateM MemoryFault MergeRun (Option Unit)) run = _
  rw [run_ite]
  split
  · rfl
  · rw [run_bind]
    unfold check
    cases run.next window header <;> rfl

/-- The merge ends: with all records, past the end of a list, or in the window. -/
theorem mergeRecords_cases (hsorted : records.Sorted) :
    (∃ snapshots, mergeRecords window header records = .ok snapshots ∧
      Lossless window header records snapshots ∧ records.Balanced) ∨
    (mergeRecords window header records = .error .pastEnd ∧ Derailed window header records) ∨
    ∃ e, mergeRecords window header records = .error (.window e) ∧
      ∃ ticks ∈ records.ticks, snapshotInWindow window header ticks = .error e := by
  have hshrinks : ∀ run next, MergeRun.Running window header records run →
      MergeRun.round window header run = .ok none next →
      MergeRun.Running window header records next ∧ next.left < run.left := by
    intro run next hrunning hstep
    rw [round_eq] at hstep
    split at hstep
    · cases hstep
    · rename_i hon
      rcases hrunning.next hsorted hon with ⟨next', hnext, hrunning, hlt⟩ | ⟨hnext, -⟩ | ⟨e, hnext, -⟩
      · rw [hnext] at hstep
        cases hstep
        exact ⟨hrunning, hlt⟩
      · rw [hnext] at hstep
        cases hstep
      · rw [hnext] at hstep
        cases hstep
  obtain ⟨run, hrunning, hend⟩ := @loopBy_ends _ _ _ (MergeRun.round window header) ()
    MergeRun.left (MergeRun.start records) (MergeRun.Running window header records)
    (.inl ⟨0, 0, .start⟩) hshrinks
  unfold mergeRecords
  rcases hend with ⟨answer, last, hstep, hloop⟩ | ⟨fault, last, hstep, hloop⟩
  · rw [hloop]
    rw [round_eq] at hstep
    split at hstep
    · rename_i hatEnd
      cases hstep
      rcases hrunning with ⟨floor, count, h⟩ | ⟨hastray, -⟩
      · exact .inl ⟨_, rfl, h.finish hatEnd⟩
      · unfold MergeRun.Astray at hastray
        unfold MergeRun.AtEnd at hatEnd
        omega
    · split at hstep <;> cases hstep
  · rw [hloop]
    rw [round_eq] at hstep
    split at hstep
    · cases hstep
    · rename_i hon
      rcases hrunning.next hsorted hon with ⟨next', hnext, -⟩ | ⟨hnext, hderailed⟩ | ⟨e, hnext, hthrows⟩
      · rw [hnext] at hstep
        cases hstep
      · rw [hnext] at hstep
        cases hstep
        exact .inr (.inl ⟨rfl, hderailed⟩)
      · rw [hnext] at hstep
        cases hstep
        exact .inr (.inr ⟨e, rfl, hthrows⟩)

end Records

end Noleax.Analyzer
