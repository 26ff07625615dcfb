import Noleax.Agent.HookCounters
import Mathlib.Algebra.BigOperators.Group.List.Basic
import Mathlib.Tactic.Common

/-!
# Counters and calls

Every counter of a channel is the number of its calls that have come to certain
places, in every state of every interleaving; so is the number of its events in the
queue.
-/

namespace Noleax.Hooks

open Lib Agent Agent.HookState

/-! ## Numbers of calls -/

/-- Some of the places of some of the calls. -/
abbrev Region := RecordedCall → CallPlace → Bool

def numberIn (calls : List (RecordedCall × CallPlace)) (apiId : ℕ) (region : Region) : ℕ :=
  calls.countP fun entry => entry.1.apiId = apiId ∧ region entry.1 entry.2 = true

/-- The calls of the channel in the region. -/
def callsIn (s : HookState) (apiId : ℕ) (region : Region) : ℕ := numberIn s.calls apiId region

def everywhere : Region := fun _ _ => true

/-- The outcome is counted. -/
def settledAs (failed : Bool) : Region := fun call place =>
  place ≠ .entered ∧ call.failed = failed

def at_ (place : CallPlace) : Region := fun _ p => p = place

/-- The event went into the queue. -/
def inQueue : Region := fun _ place => place = .queued ∨ place = .paired

/-- The event went into the queue and is a move. -/
def pairInQueue : Region := fun call place => (place = .queued ∨ place = .paired) ∧ call.paired

section Numbers

variable {before after : List (RecordedCall × CallPlace)} {call : RecordedCall}
  {old new : CallPlace} {apiId : ℕ} {region : Region}

theorem numberIn_append (calls calls' : List (RecordedCall × CallPlace)) :
    numberIn (calls ++ calls') apiId region =
      numberIn calls apiId region + numberIn calls' apiId region :=
  List.countP_append ..

/-- One call, in the region or not. -/
def inside (region : Region) (call : RecordedCall) (place : CallPlace) : ℕ :=
  if region call place = true then 1 else 0

theorem numberIn_singleton :
    numberIn [(call, new)] apiId region = if call.apiId = apiId then inside region call new else 0 := by
  unfold numberIn inside
  rw [List.countP_singleton]
  by_cases happi : call.apiId = apiId
  · simp [happi]
  · simp [happi]

theorem numberIn_moved (before after : List (RecordedCall × CallPlace)) (call : RecordedCall)
    (old new : CallPlace) (apiId : ℕ) (region : Region) :
    numberIn (before ++ (call, new) :: after) apiId region +
        (if call.apiId = apiId then inside region call old else 0) =
      numberIn (before ++ (call, old) :: after) apiId region +
        (if call.apiId = apiId then inside region call new else 0) := by
  have hsplit : ∀ place, (call, place) :: after = [(call, place)] ++ after := fun _ => rfl
  rw [hsplit new, hsplit old, numberIn_append, numberIn_append, numberIn_append, numberIn_append,
    numberIn_singleton, numberIn_singleton]
  omega

end Numbers

/-! ## Counters -/

/-- The counter is the number of the calls in the region, on every channel. -/
def Tally (counter : ChannelCounters → ℕ) (region : Region) (s : HookState) : Prop :=
  ∀ apiId, counter (s.counters apiId) = callsIn s apiId region

section Tally

variable {counter : ChannelCounters → ℕ} {region : Region} {s : HookState}
  {before after : List (RecordedCall × CallPlace)} {call : RecordedCall} {old new : CallPlace}

theorem Tally.enter (h : Tally counter region s) {f : ChannelCounters → ChannelCounters}
    (hf : ∀ c, counter (f c) = counter c + inside region call new) :
    Tally counter region
      ((s.withCalls (s.calls ++ [(call, new)])).count call.apiId f) := by
  intro apiId
  have hcounter := h apiId
  show counter (Function.update s.counters call.apiId _ apiId) =
    numberIn (s.calls ++ [(call, new)]) apiId region
  rw [numberIn_append, numberIn_singleton]
  by_cases heq : call.apiId = apiId
  · subst heq
    rw [Function.update_self, if_pos rfl]
    show counter (f (s.counters call.apiId)) = _
    rw [hf, hcounter]
    rfl
  · rw [Function.update_of_ne (Ne.symm heq), if_neg heq]
    exact hcounter

/-- A call moves, and the counter with it. -/
theorem Tally.move (h : Tally counter region s) (hcalls : s.calls = before ++ (call, old) :: after)
    {f : ChannelCounters → ChannelCounters}
    (hf : ∀ c, counter (f c) + inside region call old = counter c + inside region call new) :
    Tally counter region
      ((s.withCalls (before ++ (call, new) :: after)).count call.apiId f) := by
  intro apiId
  have hcounter := h apiId
  unfold callsIn at hcounter
  rw [hcalls] at hcounter
  have hmoved := numberIn_moved before after call old new apiId region
  show counter (Function.update s.counters call.apiId _ apiId) =
    numberIn (before ++ (call, new) :: after) apiId region
  by_cases heq : call.apiId = apiId
  · subst heq
    have hf := hf (s.counters call.apiId)
    rw [if_pos rfl, if_pos rfl] at hmoved
    rw [Function.update_self]
    show counter (f (s.counters call.apiId)) = _
    omega
  · rw [if_neg heq, if_neg heq] at hmoved
    rw [Function.update_of_ne (Ne.symm heq)]
    show counter (s.counters apiId) = _
    omega

/-- A call moves without a counter. -/
theorem Tally.shift (h : Tally counter region s)
    (hcalls : s.calls = before ++ (call, old) :: after)
    (hsame : inside region call old = inside region call new) :
    Tally counter region (s.withCalls (before ++ (call, new) :: after)) := by
  intro apiId
  have hcounter := h apiId
  unfold callsIn at hcounter
  rw [hcalls] at hcounter
  have hmoved := numberIn_moved before after call old new apiId region
  rw [hsame] at hmoved
  show counter (s.counters apiId) = numberIn (before ++ (call, new) :: after) apiId region
  omega

theorem Tally.emplace (h : Tally counter region s)
    (hcalls : s.calls = before ++ (call, old) :: after)
    (hsame : inside region call old = inside region call new) {e : LinuxHeapEvent} :
    Tally counter region ((s.withCalls (before ++ (call, new) :: after)).enqueue e) :=
  h.shift hcalls hsame

end Tally

/-! ## Events -/

/-- The events of a channel, or those of them that satisfy `p`. -/
def eventsOf (events : List LinuxHeapEvent) (apiId : ℕ) (p : LinuxHeapEvent → Bool) : ℕ :=
  events.countP fun e => e.apiId = apiId ∧ p e = true

theorem eventsOf_append (events events' : List LinuxHeapEvent) (apiId : ℕ)
    (p : LinuxHeapEvent → Bool) :
    eventsOf (events ++ events') apiId p = eventsOf events apiId p + eventsOf events' apiId p :=
  List.countP_append ..

theorem eventsOf_singleton (e : LinuxHeapEvent) (apiId : ℕ) (p : LinuxHeapEvent → Bool) :
    eventsOf [e] apiId p = if e.apiId = apiId then (if p e = true then 1 else 0) else 0 := by
  unfold eventsOf
  rw [List.countP_singleton]
  by_cases happi : e.apiId = apiId
  · simp [happi]
  · simp [happi]

/-- A move, for which the writer predicts two records. -/
def isMove (e : LinuxHeapEvent) : Bool :=
  e.operation = .vmRemap ∧ e.Succeeded ∧ e.resultAddress ≠ e.address

/-- The events in the queue, or those of them that satisfy `p`, are the calls in the region. -/
def Queued (p : LinuxHeapEvent → Bool) (region : Region) (s : HookState) : Prop :=
  ∀ apiId, eventsOf s.enqueued apiId p = callsIn s apiId region

section Queued

variable {p : LinuxHeapEvent → Bool} {region : Region} {s : HookState}
  {before after : List (RecordedCall × CallPlace)} {call : RecordedCall} {old new : CallPlace}

theorem Queued.enter (h : Queued p region s) (hout : inside region call new = 0)
    (f : ChannelCounters → ChannelCounters) :
    Queued p region ((s.withCalls (s.calls ++ [(call, new)])).count call.apiId f) := by
  intro apiId
  show eventsOf s.enqueued apiId p = numberIn (s.calls ++ [(call, new)]) apiId region
  rw [numberIn_append, numberIn_singleton, hout, ite_self, Nat.add_zero]
  exact h apiId

theorem Queued.shift (h : Queued p region s) (hcalls : s.calls = before ++ (call, old) :: after)
    (hsame : inside region call old = inside region call new) :
    Queued p region (s.withCalls (before ++ (call, new) :: after)) := by
  intro apiId
  have hnumber := h apiId
  unfold callsIn at hnumber
  rw [hcalls] at hnumber
  have hmoved := numberIn_moved before after call old new apiId region
  rw [hsame] at hmoved
  show eventsOf s.enqueued apiId p = numberIn (before ++ (call, new) :: after) apiId region
  omega

theorem Queued.emplace (h : Queued p region s)
    (hcalls : s.calls = before ++ (call, old) :: after) {e : LinuxHeapEvent}
    (hapi : e.apiId = call.apiId)
    (hmoves : inside region call new = inside region call old + if p e = true then 1 else 0) :
    Queued p region ((s.withCalls (before ++ (call, new) :: after)).enqueue e) := by
  intro apiId
  have hnumber := h apiId
  unfold callsIn at hnumber
  rw [hcalls] at hnumber
  have hmoved := numberIn_moved before after call old new apiId region
  show eventsOf (s.enqueued ++ [e]) apiId p = numberIn (before ++ (call, new) :: after) apiId region
  rw [eventsOf_append, eventsOf_singleton, hapi]
  by_cases heq : call.apiId = apiId
  · rw [if_pos heq, if_pos heq] at hmoved
    rw [if_pos heq]
    omega
  · rw [if_neg heq, if_neg heq] at hmoved
    rw [if_neg heq]
    omega

theorem Queued.move (h : Queued p region s) (hcalls : s.calls = before ++ (call, old) :: after)
    (hsame : inside region call old = inside region call new) {apiId : ℕ}
    {f : ChannelCounters → ChannelCounters} :
    Queued p region ((s.withCalls (before ++ (call, new) :: after)).count apiId f) :=
  h.shift hcalls hsame

end Queued

/-! ## The invariant -/

/-- Counters and queue tell where the calls are. -/
structure Counted (s : HookState) : Prop where
  recordable : Tally (·.recordableCalls) everywhere s
  successful : Tally (·.successfulCalls) (settledAs false) s
  failed : Tally (·.failedCalls) (settledAs true) s
  filtered : Tally (·.filteredCalls) (at_ .filtered) s
  dropped : Tally (·.droppedEvents) (at_ .dropped) s
  paired : Tally (·.pairedRecords) (at_ .paired) s
  queued : Queued (fun _ => true) inQueue s
  moves : Queued isMove pairInQueue s
  /-- only moves are counted as pairs -/
  ofPairs : ∀ entry ∈ s.calls, entry.2 = .paired → entry.1.paired = true

theorem counted_init : Counted {} where
  recordable _ := rfl
  successful _ := rfl
  failed _ := rfl
  filtered _ := rfl
  dropped _ := rfl
  paired _ := rfl
  queued _ := rfl
  moves _ := rfl
  ofPairs := by simp

section Step

variable {s t : HookState} {before after : List (RecordedCall × CallPlace)} {call : RecordedCall}
  {old new : CallPlace}

/-- Moving a call keeps the others' pairs. -/
theorem ofPairs_move (h : ∀ entry ∈ s.calls, entry.2 = .paired → entry.1.paired = true)
    (hcalls : s.calls = before ++ (call, old) :: after)
    (hnew : new = .paired → call.paired = true) :
    ∀ entry ∈ before ++ (call, new) :: after, entry.2 = .paired → entry.1.paired = true := by
  rw [hcalls] at h
  intro entry hentry
  rcases List.mem_append.mp hentry with hbefore | hrest
  · exact h entry (List.mem_append_left _ hbefore)
  rcases List.mem_cons.mp hrest with rfl | hafter
  · exact hnew
  · exact h entry (by simp [hafter])

theorem Counted.enter (h : Counted s) :
    Counted ((s.withCalls (s.calls ++ [(call, .entered)])).count call.apiId .noteEntry) where
  recordable := h.recordable.enter fun _ => rfl
  successful := h.successful.enter fun _ => by simp [inside, settledAs, ChannelCounters.noteEntry]
  failed := h.failed.enter fun _ => by simp [inside, settledAs, ChannelCounters.noteEntry]
  filtered := h.filtered.enter fun _ => rfl
  dropped := h.dropped.enter fun _ => rfl
  paired := h.paired.enter fun _ => rfl
  queued := h.queued.enter rfl _
  moves := h.moves.enter (by simp [inside, pairInQueue]) _
  ofPairs := by
    intro entry hentry hplace
    rcases List.mem_append.mp hentry with hin | hin
    · exact h.ofPairs entry hin hplace
    · obtain rfl := List.mem_singleton.mp hin
      cases hplace

theorem Counted.outcome (h : Counted s) (hcalls : s.calls = before ++ (call, .entered) :: after) :
    Counted ((s.withCalls (before ++ (call, .settled) :: after)).count call.apiId
      (.noteCallOutcome · call.failed)) where
  recordable := h.recordable.move hcalls fun _ => by
    unfold ChannelCounters.noteCallOutcome
    cases call.failed <;> rfl
  successful := h.successful.move hcalls fun _ => by
    unfold ChannelCounters.noteCallOutcome inside settledAs
    cases call.failed <;> simp
  failed := h.failed.move hcalls fun _ => by
    unfold ChannelCounters.noteCallOutcome inside settledAs
    cases call.failed <;> simp
  filtered := h.filtered.move hcalls fun _ => by
    unfold ChannelCounters.noteCallOutcome
    cases call.failed <;> rfl
  dropped := h.dropped.move hcalls fun _ => by
    unfold ChannelCounters.noteCallOutcome
    cases call.failed <;> rfl
  paired := h.paired.move hcalls fun _ => by
    unfold ChannelCounters.noteCallOutcome
    cases call.failed <;> rfl
  queued := h.queued.move hcalls (by rfl)
  moves := h.moves.move hcalls (by simp [inside, pairInQueue])
  ofPairs := ofPairs_move h.ofPairs hcalls nofun

/-- A counter of a place is raised as a call comes to it. -/
theorem Counted.filter (h : Counted s) (hcalls : s.calls = before ++ (call, .settled) :: after) :
    Counted ((s.withCalls (before ++ (call, .filtered) :: after)).count call.apiId
      .noteFiltered) where
  recordable := h.recordable.move hcalls fun _ => rfl
  successful := h.successful.move hcalls fun _ => by
    simp [inside, settledAs, ChannelCounters.noteFiltered]
  failed := h.failed.move hcalls fun _ => by
    simp [inside, settledAs, ChannelCounters.noteFiltered]
  filtered := h.filtered.move hcalls fun _ => rfl
  dropped := h.dropped.move hcalls fun _ => rfl
  paired := h.paired.move hcalls fun _ => rfl
  queued := h.queued.move hcalls (by rfl)
  moves := h.moves.move hcalls (by simp [inside, pairInQueue])
  ofPairs := ofPairs_move h.ofPairs hcalls nofun

theorem Counted.emplace (h : Counted s) (hcalls : s.calls = before ++ (call, .settled) :: after)
    {stamp : EventStamp} {e : LinuxHeapEvent} (hevent : e ∈ call.event stamp) :
    Counted ((s.withCalls (before ++ (call, .queued) :: after)).enqueue e) := by
  have htells := call.tells stamp e hevent
  have hmove : isMove e = call.paired := by
    rw [Bool.eq_iff_iff, htells.pairs]
    exact decide_eq_true_iff
  exact {
    recordable := h.recordable.emplace hcalls (by rfl)
    successful := h.successful.emplace hcalls (by simp [inside, settledAs])
    failed := h.failed.emplace hcalls (by simp [inside, settledAs])
    filtered := h.filtered.emplace hcalls (by rfl)
    dropped := h.dropped.emplace hcalls (by rfl)
    paired := h.paired.emplace hcalls (by rfl)
    queued := h.queued.emplace hcalls htells.api rfl
    moves := h.moves.emplace hcalls htells.api (by rw [hmove]; simp [inside, pairInQueue])
    ofPairs := ofPairs_move h.ofPairs hcalls nofun }

theorem Counted.refuse (h : Counted s) (hcalls : s.calls = before ++ (call, .settled) :: after) :
    Counted (s.withCalls (before ++ (call, .refused) :: after)) where
  recordable := h.recordable.shift hcalls rfl
  successful := h.successful.shift hcalls (by simp [inside, settledAs])
  failed := h.failed.shift hcalls (by simp [inside, settledAs])
  filtered := h.filtered.shift hcalls rfl
  dropped := h.dropped.shift hcalls rfl
  paired := h.paired.shift hcalls rfl
  queued := h.queued.shift hcalls rfl
  moves := h.moves.shift hcalls (by simp [inside, pairInQueue])
  ofPairs := ofPairs_move h.ofPairs hcalls nofun

theorem Counted.drop (h : Counted s) (hcalls : s.calls = before ++ (call, .refused) :: after) :
    Counted ((s.withCalls (before ++ (call, .dropped) :: after)).count call.apiId
      .noteDropped) where
  recordable := h.recordable.move hcalls fun _ => rfl
  successful := h.successful.move hcalls fun _ => by
    simp [inside, settledAs, ChannelCounters.noteDropped]
  failed := h.failed.move hcalls fun _ => by
    simp [inside, settledAs, ChannelCounters.noteDropped]
  filtered := h.filtered.move hcalls fun _ => rfl
  dropped := h.dropped.move hcalls fun _ => rfl
  paired := h.paired.move hcalls fun _ => rfl
  queued := h.queued.move hcalls (by rfl)
  moves := h.moves.move hcalls (by simp [inside, pairInQueue])
  ofPairs := ofPairs_move h.ofPairs hcalls nofun

theorem Counted.pair (h : Counted s) (hcalls : s.calls = before ++ (call, .queued) :: after)
    (hpaired : call.paired = true) :
    Counted ((s.withCalls (before ++ (call, .paired) :: after)).count call.apiId .notePaired) where
  recordable := h.recordable.move hcalls fun _ => rfl
  successful := h.successful.move hcalls fun _ => by
    simp [inside, settledAs, ChannelCounters.notePaired]
  failed := h.failed.move hcalls fun _ => by
    simp [inside, settledAs, ChannelCounters.notePaired]
  filtered := h.filtered.move hcalls fun _ => rfl
  dropped := h.dropped.move hcalls fun _ => rfl
  paired := h.paired.move hcalls fun _ => rfl
  queued := h.queued.move hcalls (by rfl)
  moves := h.moves.move hcalls (by simp [inside, pairInQueue])
  ofPairs := ofPairs_move h.ofPairs hcalls fun _ => hpaired

theorem Counted.step (h : Counted s) (hstep : s.Step t) : Counted t := by
  cases hstep with
  | enter call hrecording => exact h.enter
  | outcome hcalls => exact h.outcome hcalls
  | filter hcalls hfiltered => exact h.filter hcalls
  | emplace hcalls stamp hsequence event hevent => exact h.emplace hcalls hevent
  | refuse hcalls hrecorded => exact h.refuse hcalls
  | drop hcalls => exact h.drop hcalls
  | pair hcalls hpaired => exact h.pair hcalls hpaired
  | stop apiId => exact { h with }

theorem Counted.steps (h : Counted s) (hsteps : s.Steps t) : Counted t := by
  induction hsteps with
  | refl => exact h
  | tail _ hstep ih => exact ih.step hstep

end Step

/-! ## Counters only grow -/

/-- No counter of a channel has gone back. -/
structure Behind (c c' : ChannelCounters) : Prop where
  recordable : c.recordableCalls ≤ c'.recordableCalls
  successful : c.successfulCalls ≤ c'.successfulCalls
  failed : c.failedCalls ≤ c'.failedCalls
  filtered : c.filteredCalls ≤ c'.filteredCalls
  dropped : c.droppedEvents ≤ c'.droppedEvents
  paired : c.pairedRecords ≤ c'.pairedRecords

theorem Behind.refl (c : ChannelCounters) : Behind c c :=
  ⟨le_rfl, le_rfl, le_rfl, le_rfl, le_rfl, le_rfl⟩

theorem Behind.trans {a b c : ChannelCounters} (h : Behind a b) (h' : Behind b c) : Behind a c :=
  ⟨h.recordable.trans h'.recordable, h.successful.trans h'.successful, h.failed.trans h'.failed,
    h.filtered.trans h'.filtered, h.dropped.trans h'.dropped, h.paired.trans h'.paired⟩

theorem behind_count (s : HookState) (apiId : ℕ) {f : ChannelCounters → ChannelCounters}
    (hf : ∀ c, Behind c (f c)) (id : ℕ) :
    Behind (s.counters id) ((s.count apiId f).counters id) := by
  show Behind _ (Function.update s.counters apiId _ id)
  by_cases heq : id = apiId
  · subst heq
    rw [Function.update_self]
    exact hf _
  · rw [Function.update_of_ne heq]
    exact .refl _

theorem behind_noteCallOutcome (c : ChannelCounters) (failed : Bool) :
    Behind c (c.noteCallOutcome failed) := by
  unfold ChannelCounters.noteCallOutcome
  cases failed with
  | true => exact ⟨le_rfl, le_rfl, Nat.le_succ _, le_rfl, le_rfl, le_rfl⟩
  | false => exact ⟨le_rfl, Nat.le_succ _, le_rfl, le_rfl, le_rfl, le_rfl⟩

theorem behind_step {s t : HookState} (hstep : s.Step t) (apiId : ℕ) :
    Behind (s.counters apiId) (t.counters apiId) := by
  cases hstep with
  | enter call hrecording =>
      exact behind_count (f := .noteEntry) _ _ (fun _ => ⟨Nat.le_succ _, le_rfl, le_rfl, le_rfl, le_rfl, le_rfl⟩) _
  | outcome hcalls => exact behind_count _ _ (fun c => behind_noteCallOutcome c _) _
  | filter hcalls hfiltered =>
      exact behind_count (f := .noteFiltered) _ _ (fun _ => ⟨le_rfl, le_rfl, le_rfl, Nat.le_succ _, le_rfl, le_rfl⟩) _
  | emplace hcalls stamp hsequence event hevent => exact .refl _
  | refuse hcalls hrecorded => exact .refl _
  | drop hcalls =>
      exact behind_count (f := .noteDropped) _ _ (fun _ => ⟨le_rfl, le_rfl, le_rfl, le_rfl, Nat.le_succ _, le_rfl⟩) _
  | pair hcalls hpaired =>
      exact behind_count (f := .notePaired) _ _ (fun _ => ⟨le_rfl, le_rfl, le_rfl, le_rfl, le_rfl, Nat.le_succ _⟩) _
  | stop _ => exact .refl _

theorem behind_steps {s t : HookState} (hsteps : s.Steps t) (apiId : ℕ) :
    Behind (s.counters apiId) (t.counters apiId) := by
  induction hsteps with
  | refl => exact .refl _
  | tail _ hstep ih => exact ih.trans (behind_step hstep apiId)

end Noleax.Hooks
