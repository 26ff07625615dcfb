import Mathlib.Data.List.Sort
import Noleax.Agent.Finalize
import Noleax.Lib.RangeTable
import Noleax.Lib.RingBuffer

/-!
# The module tracker (`agent/linux/module_tracker.cpp`)

`LinuxModuleTracker` compares what `dl_iterate_phdr` reports with what it reported last
and queues the difference as load and unload events, in a ring that drops what does not
fit. The path of the executable and the readings of the clock are parameters.
-/

namespace Noleax.Agent

open Lib

/-! ## Snapshots -/

structure ModuleIdentity where
  base : ℕ
  size : ℕ
  path : Bytes
deriving DecidableEq, Repr

/-- `Elf64_Phdr` -/
structure ProgramHeader where
  type : ℕ
  vaddr : ℕ
  memsz : ℕ

/-- `dl_phdr_info`; the executable has an empty name. -/
structure DlPhdrInfo where
  addr : ℕ
  name : Bytes
  headers : List ProgramHeader

/-- `PT_LOAD` -/
def ptLoad : ℕ := 1

/-- The lowest and the highest address of the loaded segments, before the load bias. -/
def loadedSpan (headers : List ProgramHeader) : ℕ × ℕ :=
  headers.foldl (fun span header =>
    if header.type ≠ ptLoad then span
    else (min span.1 header.vaddr, max span.2 ((header.vaddr + header.memsz) % 2 ^ 64)))
    (maxU64, 0)

def describeModule (mainExecutablePath : Bytes) (info : DlPhdrInfo) : Option ModuleIdentity :=
  let span := loadedSpan info.headers
  if span.1 = maxU64 ∨ span.2 ≤ span.1 then none
  else some {
    base := (info.addr + span.1) % 2 ^ 64
    size := span.2 - span.1
    path := if info.name ≠ [] then info.name else mainExecutablePath }

/-- `take_snapshot` over what `dl_iterate_phdr` reports. -/
def takeSnapshot (mainExecutablePath : Bytes) (infos : List DlPhdrInfo) : List ModuleIdentity :=
  (infos.filterMap (describeModule mainExecutablePath)).insertionSort
    fun left right => left.base ≤ right.base

/-! ## Events -/

def maximumRawModulePathBytes : ℕ := 1024

def makeEvent (image : ModuleIdentity) (type : RawModuleEventType) (ticks : ℕ)
    (initialSnapshot : Bool) : RawModuleEvent where
  monotonicTicks := ticks
  baseAddress := image.base
  imageSize := image.size
  initialSnapshot := initialSnapshot
  pathTruncated := decide (maximumRawModulePathBytes - 1 < image.path.length)
  type := type
  path := image.path.take (maximumRawModulePathBytes - 1)

/-- `std::lower_bound` by base. -/
def lowerBound (images : List ModuleIdentity) (base : ℕ) : Option ModuleIdentity :=
  images.find? fun image => base ≤ image.base

/-- The module at a base, as both loops of `poll_impl` look for it. -/
def atBase (images : List ModuleIdentity) (base : ℕ) : Option ModuleIdentity :=
  match lowerBound images base with
  | none => none
  | some found => if found.base ≠ base then none else some found

/-- What a poll has to tell about one module of the snapshot. -/
def moduleNews (live : List ModuleIdentity) (image : ModuleIdentity) :
    List (RangeChange ModuleIdentity) :=
  match atBase live image.base with
  | none => [.load image]
  | some found =>
      -- the same base with other content is an unload and a load of the generation
      if found.size ≠ image.size ∨ found.path ≠ image.path then [.unload found, .load image]
      else []

/-- The difference of two snapshots, in the order of the loops of `poll_impl`. -/
def moduleChanges (live current : List ModuleIdentity) : List (RangeChange ModuleIdentity) :=
  (live.filter fun image => (atBase current image.base).isNone).map .unload ++
    current.flatMap (moduleNews live)

def changeEvent (ticks : ℕ) : RangeChange ModuleIdentity → RawModuleEvent
  | .load image => makeEvent image .load ticks false
  | .unload image => makeEvent image .unload ticks false

/-! ## `LinuxModuleTracker` -/

structure ModuleTracker where
  live : List ModuleIdentity
  initial : List RawModuleEvent
  pending : RingBuffer RawModuleEvent
  dropped : ℕ := 0

namespace ModuleTracker

/-- The constructor. -/
def start (monotonicOrigin queueCapacity : ℕ) (snapshot : List ModuleIdentity) :
    ModuleTracker where
  live := snapshot
  initial := snapshot.map fun image => makeEvent image .load monotonicOrigin true
  pending := RingBuffer.empty (max queueCapacity 1)
    (Nat.lt_of_lt_of_le Nat.one_pos (le_max_right ..)) {}

def enqueue (tracker : ModuleTracker) (event : RawModuleEvent) : ModuleTracker :=
  if h : tracker.pending.Full then { tracker with dropped := tracker.dropped + 1 }
  else { tracker with pending := tracker.pending.push event h }

/-- `poll_impl`; every event reads the clock, `now` are its readings. -/
def poll (tracker : ModuleTracker) (now : ℕ → ℕ) (current : List ModuleIdentity) :
    ModuleTracker :=
  let events := (moduleChanges tracker.live current).mapIdx fun i change =>
    changeEvent (now i) change
  { events.foldl enqueue tracker with live := current }

/-- `poll` when the snapshot cannot be allocated. -/
def pollFailed (tracker : ModuleTracker) : ModuleTracker :=
  { tracker with dropped := tracker.dropped + 1 }

def tryDequeue (tracker : ModuleTracker) : Option (RawModuleEvent × ModuleTracker) :=
  match tracker.pending.pop with
  | none => none
  | some (event, pending) => some (event, { tracker with pending := pending })

def takeDroppedEventCount (tracker : ModuleTracker) : ℕ × ModuleTracker :=
  (tracker.dropped, { tracker with dropped := 0 })

end ModuleTracker

/-! ## What the loader promises -/

/-- A module at an address of its own, with a path that is a C string. -/
structure ModuleIdentity.Mapped (image : ModuleIdentity) : Prop where
  base : image.base ≠ 0
  size : 0 < image.size
  fits : image.base + image.size ≤ maxU64
  path : image.path ≠ []
  terminated : 0 ∉ image.path

/-- A snapshot of modules that lie side by side. -/
structure Snapshot (images : List ModuleIdentity) : Prop where
  mapped : ∀ image ∈ images, image.Mapped
  apart : RangeTable.Apart ModuleIdentity.base ModuleIdentity.size images

/-- Two modules that share no address. -/
abbrev SideBySide (first second : ModuleIdentity) : Prop :=
  first.base + first.size ≤ second.base ∨ second.base + second.size ≤ first.base

/-- The link map of a process, in any order. -/
structure LinkMap (mainExecutablePath : Bytes) (infos : List DlPhdrInfo) : Prop where
  disjoint : (infos.filterMap (describeModule mainExecutablePath)).Pairwise SideBySide
  mapped : ∀ info ∈ infos, ∀ image, describeModule mainExecutablePath info = some image →
    image.base ≠ 0 ∧ image.base + image.size ≤ maxU64
  executable : mainExecutablePath ≠ [] ∧ 0 ∉ mainExecutablePath
  names : ∀ info ∈ infos, 0 ∉ info.name

theorem describeModule_size {mainExecutablePath : Bytes} {info : DlPhdrInfo}
    {image : ModuleIdentity} (h : describeModule mainExecutablePath info = some image) :
    0 < image.size ∧ image.path = if info.name ≠ [] then info.name else mainExecutablePath := by
  unfold describeModule at h
  dsimp only at h
  split at h
  · cases h
  · rename_i hspan
    obtain rfl := Option.some.inj h
    exact ⟨by show 0 < _ - _; omega, rfl⟩

/-- Whatever the order of the link map, what is taken from it is a snapshot. -/
theorem takeSnapshot_snapshot {mainExecutablePath : Bytes} {infos : List DlPhdrInfo}
    (h : LinkMap mainExecutablePath infos) : Snapshot (takeSnapshot mainExecutablePath infos) := by
  have hperm := List.perm_insertionSort
    (fun left right : ModuleIdentity => left.base ≤ right.base)
    (infos.filterMap (describeModule mainExecutablePath))
  have hmapped : ∀ image ∈ takeSnapshot mainExecutablePath infos, image.Mapped := by
    intro image himage
    obtain ⟨info, hinfo, hdescribe⟩ := List.mem_filterMap.mp (hperm.mem_iff.mp himage)
    obtain ⟨hbase, hfits⟩ := h.mapped info hinfo image hdescribe
    obtain ⟨hsize, hpath⟩ := describeModule_size hdescribe
    refine ⟨hbase, hsize, hfits, ?_, ?_⟩
    · rw [hpath]
      split
      · assumption
      · exact h.executable.1
    · rw [hpath]
      split
      · exact h.names info hinfo
      · exact h.executable.2
  have hsorted : (takeSnapshot mainExecutablePath infos).Pairwise
      fun first second => first.base ≤ second.base := by
    have : Std.Total fun left right : ModuleIdentity => left.base ≤ right.base :=
      ⟨fun left right => Nat.le_total left.base right.base⟩
    have : IsTrans ModuleIdentity fun left right => left.base ≤ right.base :=
      ⟨fun _ _ _ => Nat.le_trans⟩
    exact List.pairwise_insertionSort ..
  have hdisjoint : (takeSnapshot mainExecutablePath infos).Pairwise SideBySide :=
    (hperm.pairwise_iff fun {a b} hab => hab.symm).mpr h.disjoint
  refine ⟨hmapped, ⟨?_, fun image himage => (hmapped image himage).size⟩⟩
  refine (hsorted.and hdisjoint).imp_of_mem fun {a b} _ hb hab => ?_
  have hsize := (hmapped b hb).size
  rcases hab.2 with hbelow | habove
  · exact hbelow
  · have := hab.1
    omega

/-! ## What a poll tells -/

theorem atBase_eq {images : List ModuleIdentity}
    (h : RangeTable.Apart ModuleIdentity.base ModuleIdentity.size images) (base : ℕ) :
    atBase images base = RangeTable.ofList ModuleIdentity.base images base := by
  induction images with
  | nil => rfl
  | cons image images ih =>
      rw [RangeTable.ofList_cons]
      by_cases hbase : base = image.base
      · subst hbase
        rw [Function.update_self]
        simp [atBase, lowerBound]
      · rw [Function.update_of_ne hbase, ← ih h.tail]
        by_cases hle : base ≤ image.base
        · -- the search ends at the first module above, and those behind it are above too
          have hrest : atBase images base = none := by
            rw [ih h.tail, RangeTable.ofList_none]
            intro other hother
            have := (h.head other hother).2
            omega
          rw [hrest]
          simp [atBase, lowerBound, hle, Ne.symm hbase]
        · simp [atBase, lowerBound, hle]

theorem moduleChanges_eq {live current : List ModuleIdentity} (hlive : Snapshot live)
    (hcurrent : Snapshot current) :
    moduleChanges live current = RangeTable.difference ModuleIdentity.base live current := by
  unfold moduleChanges RangeTable.difference
  congr 1
  · congr 1
    apply List.filter_congr
    intro image _
    rw [atBase_eq hcurrent.apart]
  · congr 1
    funext image
    unfold moduleNews
    rw [atBase_eq hlive.apart]
    cases hfound : RangeTable.ofList ModuleIdentity.base live image.base with
    | none => rfl
    | some found =>
        obtain ⟨-, hbase⟩ := RangeTable.ofList_some hfound
        show _ = if found = image then _ else _
        by_cases heq : found = image
        · subst heq
          simp
        · rw [if_neg heq]
          refine if_pos ?_
          by_contra hsame
          push Not at hsame
          apply heq
          cases found
          cases image
          cases hbase
          cases hsame.1
          cases hsame.2
          rfl

/-- The changes of a poll carry the last snapshot into the new one. -/
theorem moduleChanges_carries {live current : List ModuleIdentity} (hlive : Snapshot live)
    (hcurrent : Snapshot current) :
    RangeTable.Carries ModuleIdentity.base ModuleIdentity.size
      (RangeTable.ofList ModuleIdentity.base live) (moduleChanges live current)
      (RangeTable.ofList ModuleIdentity.base current) := by
  rw [moduleChanges_eq hlive hcurrent]
  exact RangeTable.difference_carries hlive.apart hcurrent.apart

/-! ## The queue -/

namespace ModuleTracker

variable {tracker : ModuleTracker}

theorem enqueue_kept {event : RawModuleEvent}
    (h : (tracker.enqueue event).dropped = 0) :
    tracker.dropped = 0 ∧
      (tracker.enqueue event).pending.contents = tracker.pending.contents ++ [event] := by
  unfold enqueue at h ⊢
  split at h
  · cases h
  · rename_i hroom
    rw [dif_neg hroom]
    exact ⟨h, RingBuffer.contents_push _ _ hroom⟩

theorem enqueueAll_kept {events : List RawModuleEvent}
    (h : (events.foldl enqueue tracker).dropped = 0) :
    tracker.dropped = 0 ∧
      (events.foldl enqueue tracker).pending.contents = tracker.pending.contents ++ events := by
  induction events generalizing tracker with
  | nil => exact ⟨h, (List.append_nil _).symm⟩
  | cons event events ih =>
      obtain ⟨hnext, hrest⟩ := ih h
      obtain ⟨hkept, hfirst⟩ := enqueue_kept hnext
      refine ⟨hkept, ?_⟩
      rw [List.foldl_cons, hrest, hfirst, List.append_assoc]
      rfl

/-- A poll that drops nothing queues an event for every change. -/
theorem poll_kept {now : ℕ → ℕ} {current : List ModuleIdentity}
    (h : (tracker.poll now current).dropped = 0) :
    tracker.dropped = 0 ∧
      (tracker.poll now current).pending.contents = tracker.pending.contents ++
        (moduleChanges tracker.live current).mapIdx fun i change => changeEvent (now i) change :=
  enqueueAll_kept h

theorem tryDequeue_none (h : tracker.tryDequeue = none) : tracker.pending.contents = [] := by
  unfold tryDequeue at h
  cases hpop : tracker.pending.pop with
  | none => exact RingBuffer.pop_eq_none.mp hpop
  | some popped =>
      rw [hpop] at h
      cases h

theorem tryDequeue_some {event : RawModuleEvent} {rest : ModuleTracker}
    (h : tracker.tryDequeue = some (event, rest)) :
    tracker.pending.contents = event :: rest.pending.contents ∧ rest.live = tracker.live ∧
      rest.initial = tracker.initial ∧ rest.dropped = tracker.dropped := by
  unfold tryDequeue at h
  cases hpop : tracker.pending.pop with
  | none =>
      rw [hpop] at h
      cases h
  | some popped =>
      rw [hpop] at h
      obtain ⟨rfl, rfl⟩ := Prod.mk.inj (Option.some.inj h)
      exact ⟨RingBuffer.pop_eq_some hpop, rfl, rfl, rfl⟩

end ModuleTracker

end Noleax.Agent
