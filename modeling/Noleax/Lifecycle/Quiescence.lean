import Noleax.Lib.Census
import Noleax.Lifecycle.Replacement

/-!
# A wait that returns true has emptied the replacements

Every counter is the number of the calls in its region (`Exact`). The gate and the
routes are turnstiles (`Turnstile`): an entering call announces itself in a first
counter, looks whether the turnstile is shut, moves to a second counter and
withdraws from the first. A wait loads the first counter and then the second: at
the first load every call that still saw the turnstile open has moved on, and from
then on the second counter can only fall.
-/

namespace Noleax.Lifecycle

open Lib

variable {C W L : Type} [DecidableEq C] [DecidableEq W] [DecidableEq L]

/-! ## The counters are exact -/

/-- The counters a call at this stage has incremented. -/
def Stage.held (l : L) : Stage → List (Counter L)
  | .testing | .admitting | .refusing => [.gateTransitions]
  | .settling => [.gateTransitions, .activeCalls]
  | .parked | .waking => [.gateWaiters]
  | .entering | .releasing => [.activeCalls]
  | .routing | .joining _ => [.activeCalls, .entryTransitions l]
  | .recording => [.activeCalls, .entryTransitions l, .inFlight l]
  | .returning .record =>
      [.activeCalls, .entryTransitions l, .inFlight l, .recordingInFlight l]
  | .returning _ => [.activeCalls, .entryTransitions l, .inFlight l]
  | .inside .record | .unrecording => [.activeCalls, .inFlight l, .recordingInFlight l]
  | .inside _ | .departing _ => [.activeCalls, .inFlight l]
  | .approaching | .queueing | .terminating => []

def Call.held (call : Call L) : List (Counter L) := call.stage.held call.lifecycle

/-- A place of the call table holds a counter. -/
def Counted (k : Counter L) : Option (Call L) → Prop
  | none => False
  | some call => k ∈ call.held

def System.Exact (s : System C W L) : Prop :=
  ∀ k, Census (s.mem.counters k) s.calls (Counted k)

def heldNext (l : L) : Option Stage → List (Counter L)
  | none => []
  | some stage => stage.held l

/-- What one step does to the counters held and to their values. -/
inductive Moves (mem : Shared L) (l : L) (held : List (Counter L)) :
    Shared L × Option Stage → Prop
  | terminate (m : Shared L) : Moves mem l held (m, some .terminating)
  | add (k : Counter L) (next : Stage) (hnot : k ∉ held)
      (hheld : ∀ j, j ∈ next.held l ↔ j = k ∨ j ∈ held) :
      Moves mem l held (mem.set k (mem.counters k + 1), some next)
  | sub (k : Counter L) (next : Option Stage) (hin : k ∈ held)
      (hheld : ∀ j, j ∈ heldNext l next ↔ j ≠ k ∧ j ∈ held) :
      Moves mem l held (mem.set k (mem.counters k - 1), next)
  | load (next : Stage) (hheld : ∀ j, j ∈ next.held l ↔ j ∈ held) :
      Moves mem l held (mem, some next)

section Moves

variable {mem : Shared L} {l : L} {held : List (Counter L)} {k : Counter L}

theorem moves_increment {next : Stage} (hnot : k ∉ held)
    (hheld : ∀ j, j ∈ next.held l ↔ j = k ∨ j ∈ held) :
    Moves mem l held (mem.increment k next) := by
  unfold Shared.increment
  split
  · exact .terminate _
  · exact .add k next hnot hheld

theorem moves_decrement {next : Option Stage} (hin : k ∈ held)
    (hheld : ∀ j, j ∈ heldNext l next ↔ j ≠ k ∧ j ∈ held) :
    Moves mem l held (mem.decrement k next) := by
  unfold Shared.decrement
  split
  · exact .terminate _
  · exact .sub k next hin hheld

/-- The unchecked decrement cannot wrap while its caller is counted. -/
theorem moves_withdraw {next : Stage} (hpos : mem.counters k ≠ 0) (hin : k ∈ held)
    (hheld : ∀ j, j ∈ heldNext l (some next) ↔ j ≠ k ∧ j ∈ held) :
    Moves mem l held (mem.withdraw k next) := by
  unfold Shared.withdraw
  rw [if_neg hpos]
  exact .sub k (some next) hin hheld

theorem callStep_moves (exempt : Bool) (stage : Stage)
    (hpos : ∀ k ∈ stage.held l, mem.counters k ≠ 0) :
    Moves mem l (stage.held l) (callStep mem l exempt stage) := by
  cases stage with
  | approaching =>
      cases exempt with
      | false => exact moves_increment (by simp [Stage.held]) (by simp [Stage.held])
      | true => exact moves_increment (by simp [Stage.held]) (by simp [Stage.held])
  | testing =>
      refine .load _ ?_
      intro j
      split <;> simp [Stage.held]
  | admitting =>
      exact moves_increment (by simp [Stage.held]) (by intro j; simp [Stage.held, or_comm])
  | settling =>
      refine moves_decrement (by simp [Stage.held]) ?_
      intro j
      cases j <;> simp [heldNext, Stage.held]
  | refusing =>
      refine moves_decrement (by simp [Stage.held]) ?_
      intro j
      cases j <;> simp [heldNext, Stage.held]
  | queueing => exact moves_increment (by simp [Stage.held]) (by simp [Stage.held])
  | parked =>
      refine .load _ ?_
      intro j
      split <;> simp [Stage.held]
  | waking =>
      refine moves_decrement (by simp [Stage.held]) ?_
      intro j
      cases j <;> simp [heldNext, Stage.held]
  | entering =>
      exact moves_increment (by simp [Stage.held]) (by intro j; simp [Stage.held, or_comm])
  | routing => exact .load _ (by simp [Stage.held])
  | joining route =>
      refine moves_increment (by simp [Stage.held]) ?_
      intro j
      cases route <;> cases j <;> simp [Stage.held]
  | recording =>
      refine moves_increment (by simp [Stage.held]) ?_
      intro j
      cases j <;> simp [Stage.held]
  | returning route =>
      refine moves_withdraw (hpos _ ?_) ?_ ?_
      · cases route <;> simp [Stage.held]
      · cases route <;> simp [Stage.held]
      · intro j
        cases route <;> cases j <;> simp [heldNext, Stage.held]
  | inside route =>
      refine .load _ ?_
      intro j
      cases route <;> simp [Stage.held]
  | unrecording =>
      refine moves_decrement (by simp [Stage.held]) ?_
      intro j
      cases j <;> simp [heldNext, Stage.held]
  | departing route =>
      refine moves_decrement (by simp [Stage.held]) ?_
      intro j
      cases j <;> simp [heldNext, Stage.held]
  | releasing =>
      refine moves_decrement (by simp [Stage.held]) ?_
      intro j
      cases j <;> simp [heldNext, Stage.held]
  | terminating => exact .terminate _

end Moves

section Exact

variable {s t : System C W L} {c : C} {call : Call L}

omit [DecidableEq C] [DecidableEq W] [DecidableEq L] in
theorem exact_init : ({} : System C W L).Exact := fun _ => Census.empty fun _ => id

omit [DecidableEq W] in
/-- The counters keep up with a move of one call. -/
theorem System.Exact.moved (h : s.Exact) (hcall : s.calls c = some call)
    {mem : Shared L} {next : Option Stage}
    (hmoves : Moves s.mem call.lifecycle call.held (mem, next)) (hsafe : next ≠ some .terminating) :
    System.Exact { s with
      mem := mem
      calls := Function.update s.calls c (next.map fun stage => { call with stage := stage }) } := by
  intro k
  have hk := h k
  have hold : Counted k (s.calls c) ↔ k ∈ call.held := by rw [hcall]; rfl
  have hnew : Counted k (next.map fun stage => { call with stage := stage }) ↔
      k ∈ heldNext call.lifecycle next := by
    cases next with
    | none => simp [Counted, heldNext]
    | some stage => exact Iff.rfl
  cases hmoves with
  | terminate => exact absurd rfl hsafe
  | add j stage hnot hheld =>
      rcases eq_or_ne k j with rfl | hne
      · simp only [Shared.set, Function.update_self]
        refine hk.enter (fun hin => hnot (hold.mp hin)) (hnew.mpr ((hheld k).mpr (.inl rfl)))
      · simp only [Shared.set, Function.update_of_ne hne]
        refine hk.stay ?_
        rw [hold, hnew]
        exact ⟨fun hin => (hheld k).mpr (.inr hin), fun hin => ((hheld k).mp hin).resolve_left hne⟩
  | sub j _ hin hheld =>
      rcases eq_or_ne k j with rfl | hne
      · simp only [Shared.set, Function.update_self]
        have hpos : 0 < s.mem.counters k := hk.pos (hold.mpr hin)
        have hk' : Census (s.mem.counters k - 1 + 1) s.calls (Counted k) := by
          rwa [Nat.sub_add_cancel hpos]
        exact hk'.exit (hold.mpr hin) fun hstill => ((hheld k).mp (hnew.mp hstill)).1 rfl
      · simp only [Shared.set, Function.update_of_ne hne]
        refine hk.stay ?_
        rw [hold, hnew, hheld]
        exact ⟨fun hin => ⟨hne, hin⟩, And.right⟩
  | load stage hheld =>
      refine hk.stay ?_
      rw [hold, hnew]
      exact (hheld k).symm

theorem exact_step (h : s.Exact) {a : Action C W L} (hstep : Step s a t) (hsafe : ¬ t.Terminating) :
    t.Exact := by
  cases hstep with
  | call c l exempt hfree =>
      intro k
      refine (h k).stay ?_
      rw [hfree]
      simp [Counted, Call.held, Stage.held]
  | advance c call hcall =>
      have hpos : ∀ k ∈ call.stage.held call.lifecycle, s.mem.counters k ≠ 0 := by
        intro k hk
        refine ((h k).pos (i := c) ?_).ne'
        rw [hcall]
        exact hk
      have hmoves := callStep_moves call.exempt call.stage hpos
      refine h.moved hcall hmoves ?_
      intro hterm
      exact hsafe ⟨c, { call with stage := .terminating }, by simp [System.advance, hterm], rfl⟩
  | setRoute l route => exact h
  | wait w kind _ _ => exact h
  | closeGate w _ => exact h
  | openGate => exact h
  | look w expired => exact h
  | returned w kind result _ => exact h

/-- Nobody calls the process back from `std::terminate`. -/
theorem terminating_step {a : Action C W L} (hstep : Step s a t) (h : s.Terminating) :
    t.Terminating := by
  obtain ⟨d, stuck, hd, hstage⟩ := h
  cases hstep with
  | call c l exempt hfree =>
      have hne : d ≠ c := by
        rintro rfl
        rw [hfree] at hd
        cases hd
      exact ⟨d, stuck, by rw [← hd]; exact Function.update_of_ne hne _ _, hstage⟩
  | advance c call hcall =>
      rcases eq_or_ne d c with rfl | hne
      · rw [hcall] at hd
        cases hd
        refine ⟨d, stuck, ?_, hstage⟩
        simp only [System.advance, Function.update_self, hstage, callStep, Option.map_some]
        rw [← hstage]
      · exact ⟨d, stuck, by rw [← hd]; exact Function.update_of_ne hne _ _, hstage⟩
  | setRoute l route => exact ⟨d, stuck, hd, hstage⟩
  | wait w kind _ _ => exact ⟨d, stuck, hd, hstage⟩
  | closeGate w _ => exact ⟨d, stuck, hd, hstage⟩
  | openGate => exact ⟨d, stuck, hd, hstage⟩
  | look w expired => exact ⟨d, stuck, hd, hstage⟩
  | returned w kind result _ => exact ⟨d, stuck, hd, hstage⟩

theorem terminating_run {as : List (Action C W L)} (hrun : Run s as t) (h : s.Terminating) :
    t.Terminating := by
  induction hrun with
  | nil => exact h
  | cons hstep _ ih => exact ih (terminating_step hstep h)

theorem exact_run {as : List (Action C W L)} (hrun : Run s as t) (h : s.Exact)
    (hsafe : ¬ t.Terminating) : t.Exact := by
  induction hrun with
  | nil => exact h
  | cons hstep hrest ih =>
      have hmid := fun hterm => hsafe (terminating_run hrest hterm)
      exact ih (exact_step h hstep hmid) hsafe

theorem run_append {u : System C W L} {as bs : List (Action C W L)} :
    Run s (as ++ bs) u ↔ ∃ t, Run s as t ∧ Run t bs u := by
  constructor
  · intro hrun
    induction as generalizing s with
    | nil => exact ⟨s, .nil, hrun⟩
    | cons a as ih =>
        cases hrun with
        | cons hstep hrest =>
            obtain ⟨t, hleft, hright⟩ := ih hrest
            exact ⟨t, .cons hstep hleft, hright⟩
  · rintro ⟨t, hleft, hright⟩
    induction hleft with
    | nil => exact hright
    | cons hstep _ ih => exact .cons hstep (ih hright)

end Exact

/-! ## Turnstiles -/

/-- A flag that entering calls look at. `Stale` calls have seen it open and still
announce themselves in `first`; `Holding` calls went through and are counted in
`second`. -/
structure Turnstile (L : Type) [DecidableEq L] where
  Shut : Shared L → Prop
  Stale : Call L → Prop
  Holding : Call L → Prop
  kind : WaitKind L
  first : Counter L
  second : Counter L
  watched : kind.watched = [first, second]
  stale_counted : ∀ call, Stale call → first ∈ call.held
  holding_counted : ∀ call, Holding call → second ∈ call.held
  fresh : ∀ l exempt, ¬ Stale ⟨l, exempt, .approaching⟩ ∧ ¬ Holding ⟨l, exempt, .approaching⟩
  stale_step : ∀ mem call next, Shut mem → ¬ Stale call →
    (callStep mem call.lifecycle call.exempt call.stage).2 = some next → ¬ Stale { call with stage := next }
  holding_step : ∀ mem call next, ¬ Stale call → ¬ Holding call →
    (callStep mem call.lifecycle call.exempt call.stage).2 = some next → ¬ Holding { call with stage := next }

namespace Turnstile

variable (T : Turnstile L) {s t u : System C W L}

/-- An action that may open the turnstile. -/
def Opens (a : Action C W L) : Prop :=
  ∃ s t, Step s a t ∧ T.Shut s.mem ∧ ¬ T.Shut t.mem

def NoneStale (s : System C W L) : Prop := ∀ c call, s.calls c = some call → ¬ T.Stale call

def NoneHolding (s : System C W L) : Prop := ∀ c call, s.calls c = some call → ¬ T.Holding call

/-- Both counters have been seen at zero. -/
structure Empty (s : System C W L) : Prop where
  shut : T.Shut s.mem
  noneStale : T.NoneStale s
  noneHolding : T.NoneHolding s

/-- How far a wait that began after the turnstile was shut has got. -/
structure Waiting (w : W) (s : System C W L) : Prop where
  shut : T.Shut s.mem
  shape : ∀ round rest, s.waiters w = .checking T.kind round rest →
    rest = [T.first, T.second] ∨ rest = [T.second]
  halfway : ∀ round, s.waiters w = .checking T.kind round [T.second] → T.NoneStale s
  complete : s.waiters w = .finishing T.kind true → T.Empty s

theorem shut_step {a : Action C W L} (hstep : Step s a t) (ha : ¬ T.Opens a) (h : T.Shut s.mem) :
    T.Shut t.mem := by
  by_contra hopen
  exact ha ⟨s, t, hstep, h, hopen⟩

/-- Whatever a step does to a call: it is left alone, it is new, or it moves. -/
theorem calls_step {a : Action C W L} (hstep : Step s a t) {c : C} {call : Call L}
    (hcall : t.calls c = some call) :
    s.calls c = some call ∨
      (∃ l exempt, call = ⟨l, exempt, .approaching⟩) ∨
      ∃ old next, s.calls c = some old ∧
        (callStep s.mem old.lifecycle old.exempt old.stage).2 = some next ∧
        call = { old with stage := next } := by
  cases hstep with
  | call d l exempt hfree =>
      dsimp only at hcall
      rcases eq_or_ne c d with rfl | hne
      · rw [Function.update_self] at hcall
        cases hcall
        exact .inr (.inl ⟨l, exempt, rfl⟩)
      · rw [Function.update_of_ne hne] at hcall
        exact .inl hcall
  | advance d old hold =>
      simp only [System.advance] at hcall
      rcases eq_or_ne c d with rfl | hne
      · rw [Function.update_self] at hcall
        obtain ⟨next, hnext, rfl⟩ := Option.map_eq_some_iff.mp hcall
        exact .inr (.inr ⟨old, next, hold, hnext, rfl⟩)
      · rw [Function.update_of_ne hne] at hcall
        exact .inl hcall
  | setRoute l route => exact .inl hcall
  | wait w kind _ _ => exact .inl hcall
  | closeGate w _ => exact .inl hcall
  | openGate => exact .inl hcall
  | look w expired => exact .inl hcall
  | returned w kind result _ => exact .inl hcall

theorem shut_run {as : List (Action C W L)} (hrun : Run s as t) (has : ∀ a ∈ as, ¬ T.Opens a)
    (h : T.Shut s.mem) : T.Shut t.mem := by
  induction hrun with
  | nil => exact h
  | cons hstep _ ih =>
      refine ih (fun a ha => has a (List.mem_cons_of_mem _ ha)) ?_
      exact T.shut_step hstep (has _ List.mem_cons_self) h

theorem noneStale_step {a : Action C W L} (hstep : Step s a t) (hshut : T.Shut s.mem)
    (h : T.NoneStale s) : T.NoneStale t := by
  intro c call hcall
  obtain hsame | ⟨l, exempt, rfl⟩ | ⟨old, next, hold, hnext, rfl⟩ :=
    calls_step hstep hcall
  · exact h c call hsame
  · exact (T.fresh l exempt).1
  · exact T.stale_step s.mem old next hshut (h c old hold) hnext

theorem empty_step {a : Action C W L} (hstep : Step s a t) (ha : ¬ T.Opens a) (h : T.Empty s) :
    T.Empty t := by
  refine ⟨T.shut_step hstep ha h.shut, T.noneStale_step hstep h.shut h.noneStale, ?_⟩
  intro c call hcall
  obtain hsame | ⟨l, exempt, rfl⟩ | ⟨old, next, hold, hnext, rfl⟩ :=
    calls_step hstep hcall
  · exact h.noneHolding c call hsame
  · exact (T.fresh l exempt).2
  · exact T.holding_step s.mem old next (h.noneStale c old hold) (h.noneHolding c old hold) hnext

theorem empty_run {as : List (Action C W L)} (hrun : Run s as t) (has : ∀ a ∈ as, ¬ T.Opens a)
    (h : T.Empty s) : T.Empty t := by
  induction hrun with
  | nil => exact h
  | cons hstep _ ih =>
      refine ih (fun a ha => has a (List.mem_cons_of_mem _ ha)) ?_
      exact T.empty_step hstep (has _ List.mem_cons_self) h

omit [DecidableEq C] [DecidableEq W] in
/-- A first counter at zero: nobody is stale. -/
theorem noneStale_of_zero (hexact : s.Exact) (hzero : s.mem.counters T.first = 0) :
    T.NoneStale s := by
  intro c call hcall hstale
  have hcensus := hexact T.first
  rw [hzero] at hcensus
  refine hcensus.none_inside c ?_
  rw [hcall]
  exact T.stale_counted call hstale

omit [DecidableEq C] [DecidableEq W] in
theorem noneHolding_of_zero (hexact : s.Exact) (hzero : s.mem.counters T.second = 0) :
    T.NoneHolding s := by
  intro c call hcall hholding
  have hcensus := hexact T.second
  rw [hzero] at hcensus
  refine hcensus.none_inside c ?_
  rw [hcall]
  exact T.holding_counted call hholding

theorem missed_ne_finishing {kind : WaitKind L} {expired : Bool} {round : Round} :
    Waiter.missed kind expired round ≠ .finishing T.kind true := by
  intro h
  cases round with
  | first => cases h
  | loop => cases expired <;> cases h
  | final => simp [Waiter.missed] at h

/-- A wait that missed starts over with both counters. -/
theorem missed_checking {kind : WaitKind L} {expired : Bool} {round round' : Round}
    {rest : List (Counter L)}
    (h : Waiter.missed kind expired round = .checking T.kind round' rest) :
    rest = [T.first, T.second] := by
  cases round with
  | first => cases h
  | loop =>
      cases expired with
      | false => cases h
      | true =>
          simp only [Waiter.missed, if_true, Waiter.checking.injEq] at h
          obtain ⟨rfl, -, rfl⟩ := h
          exact T.watched
  | final => cases h

theorem shape_look {waiter : Waiter L} {mem : Shared L} {expired : Bool} {round : Round}
    {rest : List (Counter L)}
    (h : ∀ round rest, waiter = .checking T.kind round rest →
      rest = [T.first, T.second] ∨ rest = [T.second])
    (hnow : waitStep mem expired waiter = .checking T.kind round rest) :
    rest = [T.first, T.second] ∨ rest = [T.second] := by
  cases waiter with
  | idle => cases hnow
  | checking kind round₀ rest₀ =>
      cases rest₀ with
      | nil => cases hnow
      | cons k rest₁ =>
          simp only [waitStep] at hnow
          split at hnow
          · split at hnow
            · cases hnow
            · rename_i hrest
              cases hnow
              rcases h round _ rfl with heq | heq
              · cases heq
                exact .inr rfl
              · cases heq
                exact absurd rfl hrest
          · exact .inl (T.missed_checking hnow)
  | sleeping kind =>
      simp only [waitStep, Waiter.checking.injEq] at hnow
      obtain ⟨rfl, -, rfl⟩ := hnow
      exact .inl T.watched
  | finishing kind result => cases hnow

omit [DecidableEq C] [DecidableEq W] in
theorem halfway_look {w : W} (hexact : s.Exact) (h : T.Waiting w s) {expired : Bool}
    {round : Round} (hnow : waitStep s.mem expired (s.waiters w) =
      .checking T.kind round [T.second]) : T.NoneStale s := by
  cases hwaiter : s.waiters w with
  | idle => rw [hwaiter] at hnow; cases hnow
  | checking kind round₀ rest₀ =>
      rw [hwaiter] at hnow
      cases rest₀ with
      | nil => cases hnow
      | cons k rest₁ =>
          simp only [waitStep] at hnow
          split at hnow
          · rename_i hzero
            split at hnow
            · cases hnow
            · cases hnow
              -- the counter that was just loaded is the first one
              rcases h.shape round _ hwaiter with heq | heq
              · cases heq
                exact T.noneStale_of_zero hexact hzero
              · cases heq
          · have hrest := T.missed_checking hnow
            simp at hrest
  | sleeping kind =>
      rw [hwaiter] at hnow
      simp only [waitStep, Waiter.checking.injEq] at hnow
      obtain ⟨rfl, -, hrest⟩ := hnow
      rw [T.watched] at hrest
      simp at hrest
  | finishing kind result => rw [hwaiter] at hnow; cases hnow

omit [DecidableEq C] [DecidableEq W] in
theorem complete_look {w : W} (hexact : s.Exact) (h : T.Waiting w s) {expired : Bool}
    (hnow : waitStep s.mem expired (s.waiters w) = .finishing T.kind true) : T.Empty s := by
  cases hwaiter : s.waiters w with
  | idle => rw [hwaiter] at hnow; cases hnow
  | checking kind round rest =>
      rw [hwaiter] at hnow
      cases rest with
      | nil =>
          cases hnow
          rcases h.shape round _ hwaiter with heq | heq <;> cases heq
      | cons k rest =>
          simp only [waitStep] at hnow
          split at hnow
          · rename_i hzero
            split at hnow
            · rename_i hrest
              cases hnow
              subst hrest
              rcases h.shape round _ hwaiter with heq | heq
              · cases heq
              · cases heq
                exact ⟨h.shut, h.halfway round hwaiter, T.noneHolding_of_zero hexact hzero⟩
            · cases hnow
          · exact absurd hnow T.missed_ne_finishing
  | sleeping kind => rw [hwaiter] at hnow; cases hnow
  | finishing kind result =>
      rw [hwaiter] at hnow
      exact h.complete (hwaiter.trans hnow)

omit [DecidableEq C] in
/-- The wait itself looks again. -/
theorem waiting_look {w : W} (hexact : s.Exact) (h : T.Waiting w s) (expired : Bool) :
    T.Waiting w (s.setWaiter w (waitStep s.mem expired (s.waiters w))) := by
  have hself : (s.setWaiter w (waitStep s.mem expired (s.waiters w))).waiters w =
      waitStep s.mem expired (s.waiters w) := Function.update_self ..
  refine ⟨h.shut, ?_, ?_, ?_⟩
  · intro round rest hnow
    rw [hself] at hnow
    exact T.shape_look h.shape hnow
  · intro round hnow
    rw [hself] at hnow
    have hstale : T.NoneStale s := T.halfway_look hexact h hnow
    exact hstale
  · intro hnow
    rw [hself] at hnow
    have hempty : T.Empty s := T.complete_look hexact h hnow
    exact ⟨hempty.shut, hempty.noneStale, hempty.noneHolding⟩

omit [DecidableEq C] in
/-- A wait of any kind begins. -/
theorem waiting_begin {w : W} {mem : Shared L} (kind : WaitKind L) (hshut : T.Shut mem) :
    T.Waiting w ({ s with mem := mem }.setWaiter w (.checking kind .first kind.watched)) := by
  have hself : ({ s with mem := mem }.setWaiter w
      (Waiter.checking kind .first kind.watched)).waiters w =
      .checking kind .first kind.watched := Function.update_self ..
  refine ⟨hshut, ?_, ?_, ?_⟩
  · intro round rest hnow
    rw [hself] at hnow
    cases hnow
    exact .inl T.watched
  · intro round hnow
    rw [hself] at hnow
    simp only [Waiter.checking.injEq] at hnow
    obtain ⟨rfl, -, hrest⟩ := hnow
    rw [T.watched] at hrest
    simp at hrest
  · intro hnow
    rw [hself] at hnow
    cases hnow

/-- A step that leaves the waiter alone. -/
theorem waiting_other {w : W} {a : Action C W L} (hstep : Step s a t) (ha : ¬ T.Opens a)
    (h : T.Waiting w s) (hsame : t.waiters w = s.waiters w) : T.Waiting w t where
  shut := T.shut_step hstep ha h.shut
  shape := by
    rw [hsame]
    exact h.shape
  halfway := by
    rw [hsame]
    exact fun round hnow => T.noneStale_step hstep h.shut (h.halfway round hnow)
  complete := by
    rw [hsame]
    exact fun hnow => T.empty_step hstep ha (h.complete hnow)

theorem waiting_step {w : W} {a : Action C W L} (hexact : s.Exact) (hstep : Step s a t)
    (ha : ¬ T.Opens a) (h : T.Waiting w s) : T.Waiting w t := by
  have hother := T.waiting_other hstep ha h
  have hshut := T.shut_step hstep ha h.shut
  cases hstep with
  | call c l exempt _ => exact hother rfl
  | advance c call _ => exact hother rfl
  | setRoute l route => exact hother rfl
  | wait v kind _ _ =>
      rcases eq_or_ne w v with rfl | hne
      · exact T.waiting_begin (s := s) kind hshut
      · exact hother (Function.update_of_ne hne _ _)
  | closeGate v _ =>
      rcases eq_or_ne w v with rfl | hne
      · exact T.waiting_begin (s := s) .gate hshut
      · exact hother (Function.update_of_ne hne _ _)
  | openGate => exact hother rfl
  | look v expired =>
      rcases eq_or_ne w v with rfl | hne
      · exact T.waiting_look hexact h expired
      · exact hother (Function.update_of_ne hne _ _)
  | returned v kind result _ =>
      rcases eq_or_ne w v with rfl | hne
      · have hself : (s.setWaiter w Waiter.idle).waiters w = .idle := Function.update_self ..
        refine ⟨hshut, ?_, ?_, ?_⟩ <;> rw [hself]
        · exact fun _ _ hnow => nomatch hnow
        · exact fun _ hnow => nomatch hnow
        · exact fun hnow => nomatch hnow
      · exact hother (Function.update_of_ne hne _ _)

theorem waiting_run {w : W} {as : List (Action C W L)} (hrun : Run s as t) (hexact : s.Exact)
    (hsafe : ¬ t.Terminating) (has : ∀ a ∈ as, ¬ T.Opens a) (h : T.Waiting w s) :
    T.Waiting w t := by
  induction hrun with
  | nil => exact h
  | cons hstep hrest ih =>
      have hmid := fun hterm => hsafe (terminating_run hrest hterm)
      have hopen := has _ List.mem_cons_self
      exact ih (exact_step hexact hstep hmid) hsafe
        (fun a ha => has a (List.mem_cons_of_mem _ ha)) (T.waiting_step hexact hstep hopen h)

/-- From the beginning of a wait at a shut turnstile through its return on: nobody
holds. -/
theorem sound {w : W} {during after : List (Action C W L)} (hexact : s.Exact)
    (h : T.Waiting w s) (hrun : Run s (during ++ .returned w T.kind true :: after) u)
    (hopen : ∀ a ∈ during ++ after, ¬ T.Opens a) (hsafe : ¬ u.Terminating) : T.NoneHolding u := by
  obtain ⟨t, hduring, hrest⟩ := run_append.mp hrun
  cases hrest with
  | cons hreturn hafter =>
      have hmid : ¬ t.Terminating := fun hterm =>
        hsafe (terminating_run hafter (terminating_step hreturn hterm))
      have hopenDuring : ∀ a ∈ during, ¬ T.Opens a := fun a ha =>
        hopen a (List.mem_append_left _ ha)
      have hopenAfter : ∀ a ∈ after, ¬ T.Opens a := fun a ha =>
        hopen a (List.mem_append_right _ ha)
      have hwaiting := T.waiting_run hduring hexact hmid hopenDuring h
      cases hreturn with
      | returned _ _ _ hdone =>
          have hempty := hwaiting.complete hdone
          exact (T.empty_run hafter hopenAfter
            ⟨hempty.shut, hempty.noneStale, hempty.noneHolding⟩).noneHolding

end Turnstile

/-! ## The gate and the routes -/

section Frame

variable (mem : Shared L) (l : L) (exempt : Bool) (stage : Stage)

theorem increment_frame (k : Counter L) (next : Stage) :
    ∃ counters, (mem.increment k next).1 = { mem with counters := counters } := by
  unfold Shared.increment Shared.set
  split <;> exact ⟨_, rfl⟩

theorem decrement_frame (k : Counter L) (next : Option Stage) :
    ∃ counters, (mem.decrement k next).1 = { mem with counters := counters } := by
  unfold Shared.decrement Shared.set
  split <;> exact ⟨_, rfl⟩

/-- A call changes counters only. -/
theorem callStep_frame :
    ∃ counters, (callStep mem l exempt stage).1 = { mem with counters := counters } := by
  cases stage with
  | approaching =>
      cases exempt with
      | false => exact increment_frame ..
      | true => exact increment_frame ..
  | admitting | queueing | entering | joining _ | recording => exact increment_frame ..
  | settling | refusing | waking | unrecording | departing _ | releasing =>
      exact decrement_frame ..
  | returning _ => exact ⟨_, rfl⟩
  | testing | parked | routing | inside _ | terminating => exact ⟨mem.counters, rfl⟩

end Frame

def gateTurnstile : Turnstile L where
  Shut mem := mem.gateClosed = true
  Stale call := call.exempt = false ∧ call.stage = .admitting
  Holding call := call.exempt = false ∧ (call.stage = .settling ∨ call.stage.PastGate)
  kind := .gate
  first := .gateTransitions
  second := .activeCalls
  watched := rfl
  stale_counted := by
    rintro ⟨l, exempt, stage⟩ ⟨-, rfl⟩
    simp [Call.held, Stage.held]
  holding_counted := by
    rintro ⟨l, exempt, stage⟩ ⟨-, rfl | hpast⟩
    · simp [Call.held, Stage.held]
    · cases stage with
      | returning route => cases route <;> simp [Call.held, Stage.held]
      | inside route => cases route <;> simp [Call.held, Stage.held]
      | entering | routing | joining _ | recording | unrecording | departing _ =>
          simp [Call.held, Stage.held]
      | _ => cases hpast
  fresh := by simp [Stage.PastGate]
  stale_step := by
    rintro mem ⟨l, exempt, stage⟩ next hshut - hnext ⟨rfl, rfl⟩
    -- only `testing` leads to `admitting`, and it sees the gate closed
    cases stage <;> simp [callStep, Shared.increment, Shared.decrement, Shared.withdraw] at hnext
    all_goals grind
  holding_step := by
    rintro mem ⟨l, exempt, stage⟩ next hstale hholding hnext ⟨rfl, hpast⟩
    cases stage <;>
      simp_all [callStep, Shared.increment, Shared.decrement, Stage.PastGate]
    all_goals grind [Stage.PastGate]

/-- A call of the lifecycle has read a route and not yet withdrawn its announcement. -/
def StaleRoute (l : L) (banned : ReplacementRoute → Prop) (call : Call L) : Prop :=
  call.lifecycle = l ∧ ∃ route, banned route ∧
    (call.stage = .joining route ∨ call.stage = .returning route ∨
      (call.stage = .recording ∧ route = .record))

def HoldsRoute (l : L) (banned : ReplacementRoute → Prop) (call : Call L) : Prop :=
  call.lifecycle = l ∧ ∃ route, banned route ∧ call.stage = .inside route

omit [DecidableEq L] in
theorem staleRoute_counted {l : L} {banned : ReplacementRoute → Prop} {call : Call L}
    (h : StaleRoute l banned call) : .entryTransitions l ∈ call.held := by
  obtain ⟨l', exempt, stage⟩ := call
  obtain ⟨rfl, route, -, rfl | rfl | ⟨rfl, -⟩⟩ := h
  · simp [Call.held, Stage.held]
  · cases route <;> simp [Call.held, Stage.held]
  · simp [Call.held, Stage.held]

/-- A call gets a banned route only by reading it. -/
theorem staleRoute_step {l : L} {banned : ReplacementRoute → Prop} {mem : Shared L} {call : Call L}
    {next : Stage} (hshut : ¬ banned (mem.route l)) (h : ¬ StaleRoute l banned call)
    (hnext : (callStep mem call.lifecycle call.exempt call.stage).2 = some next) :
    ¬ StaleRoute l banned { call with stage := next } := by
  obtain ⟨l', exempt, stage⟩ := call
  rintro ⟨rfl, route, hbanned, hstage⟩
  cases stage <;> simp [callStep, Shared.increment, Shared.decrement, Shared.withdraw] at hnext
  all_goals grind [StaleRoute]

theorem holdsRoute_step {l : L} {banned : ReplacementRoute → Prop} {mem : Shared L}
    {call : Call L} {next : Stage} (h : ¬ StaleRoute l banned call)
    (hnext : (callStep mem call.lifecycle call.exempt call.stage).2 = some next) :
    ¬ HoldsRoute l banned { call with stage := next } := by
  obtain ⟨l', exempt, stage⟩ := call
  rintro ⟨rfl, route, hbanned, hstage⟩
  cases stage <;> simp [callStep, Shared.increment, Shared.decrement, Shared.withdraw] at hnext
  all_goals grind [StaleRoute]

/-- The route of a lifecycle, shut for the banned routes. -/
def routeTurnstile (l : L) (banned : ReplacementRoute → Prop) (kind : WaitKind L)
    (second : Counter L) (hwatched : kind.watched = [.entryTransitions l, second])
    (hcounted : ∀ route, banned route → second ∈ Stage.held l (.inside route)) : Turnstile L where
  Shut mem := ¬ banned (mem.route l)
  Stale := StaleRoute l banned
  Holding := HoldsRoute l banned
  kind := kind
  first := .entryTransitions l
  second := second
  watched := hwatched
  stale_counted _ := staleRoute_counted
  holding_counted := by
    rintro ⟨l', exempt, stage⟩ ⟨rfl, route, hbanned, rfl⟩
    exact hcounted route hbanned
  fresh := by simp [StaleRoute, HoldsRoute]
  stale_step _ _ _ := staleRoute_step
  holding_step _ _ _ hstale _ := holdsRoute_step hstale

section Opens

variable {banned : ReplacementRoute → Prop}

/-- Only a banned route opens a route. -/
theorem not_opens_route {l : L} {kind : WaitKind L} {second : Counter L} (hwatched) (hcounted)
    {a : Action C W L} (h : ∀ route, banned route → a ≠ .setRoute l route) :
    ¬ (routeTurnstile l banned kind second hwatched hcounted).Opens a := by
  rintro ⟨s, t, hstep, hshut, hopen⟩
  cases hstep with
  | setRoute l' route =>
      refine hopen fun hbanned => ?_
      change banned (Function.update s.mem.route l' route l) at hbanned
      rcases eq_or_ne l' l with rfl | hne
      · rw [Function.update_self] at hbanned
        exact h route hbanned rfl
      · rw [Function.update_of_ne hne.symm] at hbanned
        exact hshut hbanned
  | advance c call _ =>
      obtain ⟨counters, hframe⟩ := callStep_frame s.mem call.lifecycle call.exempt call.stage
      refine hopen ?_
      simp only [System.advance, hframe]
      exact hshut
  | _ => exact hopen hshut

/-- Only opening the gate opens the gate. -/
theorem not_opens_gate {a : Action C W L} (h : a ≠ .openGate) : ¬ gateTurnstile.Opens a := by
  rintro ⟨s, t, hstep, hshut, hopen⟩
  cases hstep with
  | openGate => exact h rfl
  | advance c call _ =>
      obtain ⟨counters, hframe⟩ := callStep_frame s.mem call.lifecycle call.exempt call.stage
      refine hopen ?_
      simp only [System.advance, hframe]
      exact hshut
  | closeGate w _ => exact hopen rfl
  | _ => exact hopen hshut

end Opens

/-! ## Quiescence -/

/-- A route that is shut, a wait that begins later and returns true: nobody holds a
banned route any more, nor can get one. -/
theorem route_quiescence {l : L} (banned : ReplacementRoute → Prop) {kind : WaitKind L}
    (second : Counter L) (hwatched) (hcounted) {w : W} {s : System C W L}
    {before between during after : List (Action C W L)} {route : ReplacementRoute}
    (hroute : ¬ banned route)
    (hrun : Run {} (before ++ .setRoute l route :: (between ++ .wait w kind ::
      (during ++ .returned w kind true :: after))) s)
    (hopen : ∀ a ∈ between ++ during ++ after, ∀ r, banned r → a ≠ .setRoute l r)
    (hsafe : ¬ s.Terminating) :
    (routeTurnstile l banned kind second hwatched hcounted).NoneHolding s := by
  generalize hT : routeTurnstile l banned kind second hwatched hcounted = T
  have hnot : ∀ a ∈ between ++ during ++ after, ¬ T.Opens a := fun a ha => by
    rw [← hT]
    exact not_opens_route hwatched hcounted (hopen a ha)
  have hkind : T.kind = kind := by rw [← hT]; rfl
  obtain ⟨s₀, hbefore, hrest⟩ := run_append.mp hrun
  cases hrest with
  | @cons _ s₁ _ _ _ hset hrest =>
    obtain ⟨s₂, hbetween, hrest⟩ := run_append.mp hrest
    cases hrest with
    | @cons _ s₃ _ _ _ hwait hrest =>
      have hsafe₃ : ¬ s₃.Terminating := fun hterm => hsafe (terminating_run hrest hterm)
      have hbegin : Run {} (before ++ .setRoute l route :: (between ++ [.wait w kind])) s₃ :=
        run_append.mpr ⟨s₀, hbefore, .cons hset (run_append.mpr
          ⟨s₂, hbetween, .cons hwait .nil⟩)⟩
      have hexact : s₃.Exact := exact_run hbegin exact_init hsafe₃
      have hshut₁ : T.Shut s₁.mem := by
        cases hset
        rw [← hT]
        change ¬ banned (Function.update s₀.mem.route l route l)
        rwa [Function.update_self]
      have hshut₂ : T.Shut s₂.mem := T.shut_run hbetween (fun a ha =>
        hnot a (List.mem_append_left _ (List.mem_append_left _ ha))) hshut₁
      have hwaiting : T.Waiting w s₃ := by
        cases hwait
        exact T.waiting_begin (s := s₂) kind hshut₂
      rw [← hkind] at hrest
      refine T.sound hexact hwaiting hrest (fun a ha => hnot a ?_) hsafe
      rw [List.append_assoc]
      exact List.mem_append_right _ ha

/-- The gate, closed by the wait itself. -/
theorem gate_quiescence {w : W} {s : System C W L} {before during after : List (Action C W L)}
    (hrun : Run {} (before ++ .closeGate w :: (during ++ .returned w .gate true :: after)) s)
    (hopen : ∀ a ∈ during ++ after, a ≠ .openGate) (hsafe : ¬ s.Terminating) :
    gateTurnstile.NoneHolding s := by
  obtain ⟨s₀, hbefore, hrest⟩ := run_append.mp hrun
  cases hrest with
  | @cons _ s₁ _ _ _ hclose hrest =>
    have hsafe₁ : ¬ s₁.Terminating := fun hterm => hsafe (terminating_run hrest hterm)
    have hexact : s₁.Exact :=
      exact_run (run_append.mpr ⟨s₀, hbefore, .cons hclose .nil⟩) exact_init hsafe₁
    have hbegin : gateTurnstile.Waiting w s₁ := by
      cases hclose
      exact gateTurnstile.waiting_begin (s := s₀) .gate rfl
    exact gateTurnstile.sound hexact hbegin hrest (fun a ha => not_opens_gate (hopen a ha)) hsafe

/-- The waits are sound: after `stop_recording` and a `wait_for_recording_quiescence`
that returned true nobody records until `start_recording`; after `route_to_target`
and `wait_for_quiescence` nobody is on another route until the route changes; and
after `close_and_wait` nobody who has to pass the gate is past it until it opens.
A process about to terminate is left out. -/
theorem replacement_quiescence (l : L) (w : W) (before between during after : List (Action C W L))
    (s : System C W L) (hsafe : ¬ s.Terminating) :
    (Run {} (before ++ .setRoute l .original :: (between ++ .wait w (.recordingQuiescence l) ::
        (during ++ .returned w (.recordingQuiescence l) true :: after))) s →
      (∀ a ∈ between ++ during ++ after, a ≠ .setRoute l .record) →
      ∀ c, ¬ s.Holds c l .record) ∧
    (Run {} (before ++ .setRoute l .target :: (between ++ .wait w (.quiescence l) ::
        (during ++ .returned w (.quiescence l) true :: after))) s →
      (∀ a ∈ between ++ during ++ after, ∀ route, route ≠ .target → a ≠ .setRoute l route) →
      ∀ c route, route ≠ .target → ¬ s.Holds c l route) ∧
    (Run {} (before ++ .closeGate w :: (during ++ .returned w .gate true :: after)) s →
      (∀ a ∈ during ++ after, a ≠ .openGate) →
      ∀ c, ¬ s.PastGate c) := by
  refine ⟨?_, ?_, ?_⟩
  · rintro hrun hopen c ⟨exempt, hcall⟩
    have hnone := route_quiescence (· = .record) (.recordingInFlight l) rfl
      (by rintro route rfl; simp [Stage.held]) (by simp) hrun
      (by rintro a ha route rfl; exact hopen a ha) hsafe
    exact hnone c _ hcall ⟨rfl, .record, rfl, rfl⟩
  · rintro hrun hopen c route hroute ⟨exempt, hcall⟩
    have hnone := route_quiescence (· ≠ .target) (.inFlight l) rfl
      (by intro route _; cases route <;> simp [Stage.held]) (by simp) hrun hopen hsafe
    exact hnone c _ hcall ⟨rfl, route, hroute, rfl⟩
  · rintro hrun hopen c ⟨l', stage, hcall, hpast⟩
    have hnone := gate_quiescence hrun hopen hsafe
    exact hnone c _ hcall ⟨rfl, .inr hpast⟩

/-- A call enters while recording is on, and leaves after `stop_recording`. -/
def stoppedRecorder : List (Action Unit Unit Unit) :=
  [.setRoute () .record, .call () () true, .advance (), .advance (), .advance (),
    .advance (), .advance (), .advance ()] ++ .setRoute () .original ::
    ([.advance (), .advance (), .advance (), .advance ()] ++
    .wait () (.recordingQuiescence ()) :: ([.look () false, .look () false] ++
    .returned () (.recordingQuiescence ()) true :: []))

theorem replacement_quiescence_recorder :
    ∃ s, Run {} stoppedRecorder s ∧ ¬ s.Terminating ∧ ∀ c, ¬ s.Holds c () .record := by
  obtain ⟨s, hrun, hleft⟩ : ∃ s, Run {} stoppedRecorder s ∧ s.calls () = none :=
    ⟨_, run_of_perform rfl, rfl⟩
  have hsafe : ¬ s.Terminating := by
    rintro ⟨c, call, hcall, -⟩
    rw [hleft] at hcall
    cases hcall
  exact ⟨s, hrun, hsafe, (replacement_quiescence () () _ _ _ _ s hsafe).1 hrun (by simp)⟩

end Noleax.Lifecycle
