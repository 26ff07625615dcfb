import Noleax.Lifecycle.InstallPoint
import Noleax.Lifecycle.Quiescence

/-!
# A hook point whose installation fails

The catch block of `install_point` takes the installed roles back in the order of
`uninstall`, and differs from it in two places: it releases the leases without
waiting for the calls in flight, and it stores the restored-target route before
`stop_recording`, which stores `kOriginal` over it.

An interleaving that installs the alloc role, lets a call in and then fails releases
the lease under that call. Whatever the interleaving, the route left behind is
`kOriginal`, so that a late call runs a trampoline without a lease.
-/

namespace Noleax.Lifecycle

variable {C W L : Type} [DecidableEq L]
variable {point : Point} {slot : L} {s t : Installation C W L}

/-! ## Where the installer can be -/

/-- The roles before `role` are installed. -/
def Point.Behind (point : Point) : Role → Prop
  | .alloc => True
  | .realloc => point.Installs .alloc
  | .free => point.Installs .alloc ∧ (point.reallocates = true → point.Installs .realloc)

/-- What holds of a point whose installation has come to `progress`. -/
def Point.Attains (point : Point) : Progress → Prop
  | .preparing => True
  | .starting => point.prepared = true
  | .acquiring role => point.prepared = true ∧ point.Has role ∧ point.Behind role
  | .publishing role | .patching role =>
      point.prepared = true ∧ point.Has role ∧ point.Behind role ∧ point.grants role = true
  | .withdrawing role | .clearing role =>
      point.prepared = true ∧ point.Has role ∧ point.Behind role ∧ ¬ point.Installs role
  | .reverting _ | .releasing _ | .retargeting | .stopping =>
      point.prepared = true ∧ ¬ point.Succeeds
  | .thrown => point.prepared = true → ¬ point.Succeeds
  | .returned => point.prepared = true ∧ point.Succeeds

theorem Point.not_succeeds {role : Role} (hhas : point.Has role) (h : ¬ point.Installs role) :
    ¬ point.Succeeds :=
  fun hall => h (hall role hhas)

/-- The role of a step of `install_role` has the roles before it behind it, and they
include the alloc role. -/
theorem Point.Behind.alloc {role : Role} (h : point.Behind role) (hne : role ≠ .alloc) :
    point.Installs .alloc := by
  cases role with
  | alloc => exact absurd rfl hne
  | realloc => exact h
  | free => exact h.1

/-- An installed role leaves the next one, or none, to install. -/
theorem Point.attains_after {role : Role} (hprepared : point.prepared = true)
    (hbehind : point.Behind role) (hrole : point.Installs role) :
    point.Attains (point.after role) := by
  cases role with
  | alloc =>
      show point.Attains (if point.reallocates then .acquiring .realloc else .acquiring .free)
      cases hreallocates : point.reallocates with
      | true => exact ⟨hprepared, fun _ => hreallocates, hrole⟩
      | false =>
          refine ⟨hprepared, (fun h => nomatch h), hrole, fun h => ?_⟩
          rw [hreallocates] at h
          cases h
  | realloc => exact ⟨hprepared, (fun h => nomatch h), hbehind, fun _ => hrole⟩
  | free =>
      refine ⟨hprepared, fun other hhas => ?_⟩
      cases other with
      | alloc => exact hbehind.1
      | realloc => exact hbehind.2 (hhas rfl)
      | free => exact hrole

theorem attains_install (slot : L) (h : point.Attains s.progress) :
    point.Attains (s.install point slot).progress := by
  unfold Installation.install
  cases hprogress : s.progress with
  | preparing =>
      show point.Attains (if point.prepared then .starting else .thrown)
      cases hprepared : point.prepared with
      | true => exact hprepared
      | false =>
          intro h
          cases hprepared.symm.trans h
  | starting =>
      rw [hprogress] at h
      exact ⟨h, (fun h => nomatch h), trivial⟩
  | acquiring role =>
      rw [hprogress] at h
      obtain ⟨hprepared, hhas, hbehind⟩ := h
      dsimp only
      split
      · rename_i hgrants
        exact ⟨hprepared, hhas, hbehind, hgrants⟩
      · rename_i hgrants
        exact ⟨hprepared, Point.not_succeeds hhas fun hrole => hgrants hrole.1⟩
  | publishing role =>
      rw [hprogress] at h
      exact h
  | patching role =>
      rw [hprogress] at h
      obtain ⟨hprepared, hhas, hbehind, hgrants⟩ := h
      cases hfast : point.fastHook role with
      | installed =>
          simp only [hfast]
          exact Point.attains_after hprepared hbehind ⟨hgrants, hfast⟩
      | refused =>
          simp only [hfast]
          refine ⟨hprepared, hhas, hbehind, fun hrole => ?_⟩
          cases hfast.symm.trans hrole.2
      | threw =>
          simp only [hfast]
          refine ⟨hprepared, Point.not_succeeds hhas fun hrole => ?_⟩
          cases hfast.symm.trans hrole.2
  | withdrawing role =>
      rw [hprogress] at h
      exact h
  | clearing role =>
      rw [hprogress] at h
      exact ⟨h.1, Point.not_succeeds h.2.1 h.2.2.2⟩
  | reverting role =>
      rw [hprogress] at h
      exact h
  | releasing role =>
      rw [hprogress] at h
      cases role with
      | alloc | realloc | free => exact h
  | retargeting =>
      rw [hprogress] at h
      exact h
  | stopping =>
      rw [hprogress] at h
      exact fun _ => h.2
  | thrown | returned =>
      rw [hprogress] at h
      simp only [hprogress]
      exact h

/-! ## The route of the slot -/

/-- The route while the installer is at `progress`. -/
def Point.routeAt (point : Point) : Progress → ReplacementRoute
  | .preparing | .starting | .stopping => .target
  | .thrown => if point.prepared then .original else .target
  | _ => .record

theorem install_route (h : point.Attains s.progress)
    (hroute : s.process.mem.route slot = point.routeAt s.progress) :
    (s.install point slot).process.mem.route slot =
      point.routeAt (s.install point slot).progress := by
  unfold Installation.install
  cases hprogress : s.progress with
  | preparing =>
      rw [hprogress] at hroute
      show s.process.mem.route slot = point.routeAt (if point.prepared then .starting else .thrown)
      rw [hroute]
      cases hprepared : point.prepared with
      | true => rfl
      | false => simp [Point.routeAt, hprepared]
  | starting => exact Function.update_self ..
  | acquiring role =>
      rw [hprogress] at hroute
      dsimp only
      split <;> exact hroute
  | patching role =>
      rw [hprogress] at hroute
      dsimp only
      split
      · cases role with
        | alloc =>
            show _ = point.routeAt (if point.reallocates then _ else _)
            split <;> exact hroute
        | realloc | free => exact hroute
      · exact hroute
      · exact hroute
  | releasing role =>
      rw [hprogress] at hroute
      cases role with
      | alloc | realloc | free => exact hroute
  | retargeting => exact Function.update_self ..
  | stopping =>
      rw [hprogress] at h
      show Function.update _ slot _ slot = if point.prepared then _ else _
      rw [if_pos h.1]
      exact Function.update_self ..
  | publishing role | withdrawing role | clearing role | reverting role =>
      rw [hprogress] at hroute
      exact hroute
  | thrown | returned =>
      simp only [hprogress]
      rw [hprogress] at hroute
      exact hroute

/-! ## The calls of the slot -/

/-- The role has no lease while the installer is at `progress`. -/
def Role.Unleased (role : Role) : Progress → Prop
  | .preparing | .starting | .retargeting | .stopping | .thrown => True
  | .reverting .realloc | .releasing .realloc => role = .alloc
  | .reverting .free | .releasing .free => role ≠ .free
  | _ => False

/-- What holds in every state of an interleaving. -/
structure Point.Invariant (point : Point) (slot : L) (s : Installation C W L) : Prop where
  attains : point.Attains s.progress
  route : s.process.mem.route slot = point.routeAt s.progress
  /-- nothing is patched before the alloc role -/
  patched : ∀ role, s.patched role = true → point.Installs .alloc
  /-- so nobody calls the slot before that -/
  called : ∀ c call, s.process.calls c = some call → call.lifecycle = slot →
    point.Installs .alloc
  unleased : ∀ role, role.Unleased s.progress → (s.roles role).leaseAcquired = false

theorem leaseAcquired_update {roles : Role → RoleState} {role other : Role} {state : RoleState}
    {b : Bool} (h : other = role → state.leaseAcquired = b)
    (h' : other ≠ role → (roles other).leaseAcquired = b) :
    (Function.update roles role state other).leaseAcquired = b := by
  rcases eq_or_ne other role with heq | hne
  · rw [heq, Function.update_self]
    exact h heq
  · rw [Function.update_of_ne hne]
    exact h' hne

theorem install_unleased
    (h : ∀ role, role.Unleased s.progress → (s.roles role).leaseAcquired = false) (role : Role)
    (hrole : role.Unleased (s.install point slot).progress) :
    ((s.install point slot).roles role).leaseAcquired = false := by
  revert hrole
  unfold Installation.install
  cases hprogress : s.progress with
  | preparing | starting | retargeting | stopping =>
      rw [hprogress] at h
      exact fun _ => h role trivial
  | thrown | returned =>
      simp only [hprogress]
      rw [hprogress] at h
      exact h role
  | acquiring other =>
      dsimp only
      split <;> exact nofun
  | publishing other | withdrawing other | clearing other => exact nofun
  | patching other =>
      dsimp only
      split
      · cases other with
        | alloc =>
            show role.Unleased (if point.reallocates then _ else _) → _
            split <;> exact nofun
        | realloc | free => exact nofun
      · exact nofun
      · exact nofun
  | reverting other =>
      rw [hprogress] at h
      intro hrole
      have hlease : (s.roles role).leaseAcquired = false := by
        cases other with
        | alloc => exact absurd hrole id
        | realloc | free => exact h role hrole
      exact leaseAcquired_update (fun heq => heq ▸ hlease) fun _ => hlease
  | releasing other =>
      rw [hprogress] at h
      intro hrole
      refine leaseAcquired_update (fun _ => rfl) fun hne => h role ?_
      cases other with
      | alloc => exact absurd hrole hne
      | realloc =>
          cases role with
          | alloc => rfl
          | realloc => exact absurd rfl hne
          | free => exact absurd rfl hrole
      | free => exact hne

theorem install_patched (h : point.Attains s.progress)
    (hpatched : ∀ role, s.patched role = true → point.Installs .alloc) (role : Role)
    (hrole : (s.install point slot).patched role = true) : point.Installs .alloc := by
  revert hrole
  unfold Installation.install
  cases hprogress : s.progress with
  | acquiring other =>
      dsimp only
      split <;> exact hpatched role
  | patching other =>
      rw [hprogress] at h
      obtain ⟨-, -, hbehind, hgrants⟩ := h
      cases hfast : point.fastHook other with
      | installed =>
          intro _
          rcases eq_or_ne other .alloc with rfl | hne
          · exact ⟨hgrants, hfast⟩
          · exact hbehind.alloc hne
      | refused | threw =>
          simp only [hfast]
          exact hpatched role
  | reverting other =>
      dsimp only
      split
      · intro hrole
        rcases eq_or_ne role other with rfl | hne
        · rw [Function.update_self] at hrole
          cases hrole
        · rw [Function.update_of_ne hne] at hrole
          exact hpatched role hrole
      · exact hpatched role
  | preparing | starting | publishing _ | withdrawing _ | clearing _ | releasing _ | retargeting
  | stopping | thrown | returned => exact hpatched role

theorem install_calls : (s.install point slot).process.calls = s.process.calls := by
  unfold Installation.install
  split <;> (try split) <;> rfl

omit [DecidableEq L] in
theorem not_succeeds_of_releasing (hattains : point.Attains s.progress) (h : s.Releasing) :
    point.prepared = true ∧ ¬ point.Succeeds := by
  obtain ⟨role, hprogress | ⟨hprogress, -⟩⟩ := h
  · rw [hprogress] at hattains
    exact ⟨hattains.1, Point.not_succeeds hattains.2.1 hattains.2.2.2⟩
  · rw [hprogress] at hattains
    exact hattains

omit [DecidableEq L] in
/-- Without an installed alloc role nobody uses the slot. -/
theorem unused_of_not_installs (hinv : point.Invariant slot s) (h : ¬ point.Installs .alloc) :
    s.Unused slot := by
  intro c route ⟨exempt, hcall⟩
  exact absurd (hinv.called c _ hcall rfl) h

/-! ## What the installer comes to on its own -/

/-- Steps the installer has left at most before the first of a role, counted from the
catch block on. -/
def Role.stepsLeft : Role → ℕ
  | .alloc => 14
  | .realloc => 11
  | .free => 8

def Progress.stepsLeft : Progress → ℕ
  | .preparing => 21
  | .starting => 20
  | .acquiring role => role.stepsLeft + 5
  | .publishing role => role.stepsLeft + 4
  | .patching role => role.stepsLeft + 3
  | .withdrawing role => role.stepsLeft + 2
  | .clearing role => role.stepsLeft + 1
  | .reverting .alloc => 8
  | .releasing .alloc => 7
  | .reverting .realloc => 6
  | .releasing .realloc => 5
  | .reverting .free => 4
  | .releasing .free => 3
  | .retargeting => 2
  | .stopping => 1
  | .thrown | .returned => 0

theorem Role.eight_le_stepsLeft (role : Role) : 8 ≤ role.stepsLeft := by
  cases role <;> decide

theorem Point.stepsLeft_after (role : Role) :
    (point.after role).stepsLeft < (Progress.patching role).stepsLeft := by
  cases role with
  | alloc =>
      show (if point.reallocates then _ else _ : Progress).stepsLeft < _
      split <;> decide
  | realloc => exact Nat.lt_succ_self 13
  | free => exact Nat.succ_pos 10

theorem install_stepsLeft (point : Point) (slot : L) (h : s.progress.stepsLeft ≠ 0) :
    (s.install point slot).progress.stepsLeft < s.progress.stepsLeft := by
  unfold Installation.install
  cases hprogress : s.progress with
  | preparing =>
      show (if point.prepared then _ else _ : Progress).stepsLeft < _
      split <;> decide
  | acquiring role =>
      have hrole := role.eight_le_stepsLeft
      dsimp only
      split
      · exact Nat.lt_succ_self _
      · show 8 < role.stepsLeft + 5
        omega
  | patching role =>
      have hrole := role.eight_le_stepsLeft
      dsimp only
      split
      · exact Point.stepsLeft_after role
      · exact Nat.lt_succ_self _
      · show 8 < role.stepsLeft + 3
        omega
  | clearing role => exact Nat.lt_succ_of_le role.eight_le_stepsLeft
  | reverting role =>
      cases role <;> exact Nat.lt_succ_self _
  | releasing role =>
      cases role <;> exact Nat.lt_succ_self _
  | starting | publishing _ | withdrawing _ | retargeting | stopping =>
      exact Nat.lt_succ_self _
  | thrown | returned =>
      rw [hprogress] at h
      exact absurd rfl h

/-- The installer comes to an end. -/
theorem exists_ended (point : Point) (slot : L) (s : Installation C W L) :
    ∃ n, ((Installation.install point slot)^[n] s).progress.stepsLeft = 0 := by
  induction hleft : s.progress.stepsLeft using Nat.strongRecOn generalizing s with
  | ind left ih =>
      rcases Nat.eq_zero_or_pos left with hzero | hpos
      · exact ⟨0, hleft.trans hzero⟩
      · have hless := install_stepsLeft point slot (s := s) (by omega)
        obtain ⟨n, hn⟩ := ih _ (hleft ▸ hless) _ rfl
        exact ⟨n + 1, hn⟩

/-- The alloc role has a lease, and the catch block has not come to it. -/
structure Installation.HoldsLease (s : Installation C W L) : Prop where
  lease : (s.roles .alloc).leaseAcquired = true
  before : 7 ≤ s.progress.stepsLeft

theorem holdsLease_install (hprepared : point.prepared = true) (hfails : ¬ point.Succeeds)
    (hattains : point.Attains s.progress) (h : s.HoldsLease) (hidle : ¬ s.Releasing) :
    (s.install point slot).HoldsLease := by
  obtain ⟨hlease, hbefore⟩ := h
  have hnext := attains_install slot hattains
  revert hnext
  unfold Installation.install
  cases hprogress : s.progress with
  | preparing =>
      intro _
      refine ⟨hlease, ?_⟩
      show 7 ≤ (if point.prepared then _ else _ : Progress).stepsLeft
      rw [if_pos hprepared]
      decide
  | starting => exact fun _ => ⟨hlease, Nat.le_add_left 7 12⟩
  | acquiring role =>
      have hrole := role.eight_le_stepsLeft
      dsimp only
      split
      · intro _
        refine ⟨leaseAcquired_update (fun _ => rfl) fun _ => hlease, ?_⟩
        show 7 ≤ role.stepsLeft + 4
        omega
      · exact fun _ => ⟨hlease, Nat.le_succ 7⟩
  | publishing role =>
      have hrole := role.eight_le_stepsLeft
      exact fun _ => ⟨hlease, by show 7 ≤ role.stepsLeft + 3; omega⟩
  | patching role =>
      have hrole := role.eight_le_stepsLeft
      dsimp only
      split
      · intro hnext
        refine ⟨leaseAcquired_update (fun heq => heq ▸ hlease) fun _ => hlease, ?_⟩
        cases role with
        | alloc =>
            show 7 ≤ (if point.reallocates then _ else _ : Progress).stepsLeft
            split <;> decide
        | realloc => exact Nat.le_add_left 7 6
        | free => exact absurd hnext.2 hfails
      · exact fun _ => ⟨hlease, by show 7 ≤ role.stepsLeft + 2; omega⟩
      · exact fun _ => ⟨hlease, Nat.le_succ 7⟩
  | withdrawing role => exact absurd ⟨role, .inl hprogress⟩ hidle
  | clearing role => exact fun _ => ⟨hlease, Nat.le_succ 7⟩
  | reverting role =>
      rw [hprogress] at hbefore
      cases role with
      | alloc =>
          exact fun _ => ⟨leaseAcquired_update (fun _ => hlease) fun _ => hlease, Nat.le_refl 7⟩
      | realloc | free => exact absurd hbefore (by decide)
  | releasing role =>
      rw [hprogress] at hbefore
      cases role with
      | alloc => exact absurd ⟨.alloc, .inr ⟨hprogress, hlease⟩⟩ hidle
      | realloc | free => exact absurd hbefore (by decide)
  | retargeting | stopping | thrown | returned =>
      rw [hprogress] at hbefore
      exact absurd hbefore (by decide)

/-- An installer that fails with a lease in hand comes to release one. -/
theorem exists_releasing (slot : L) (hprepared : point.prepared = true) (hfails : ¬ point.Succeeds)
    (s : Installation C W L) (hattains : point.Attains s.progress) (h : s.HoldsLease) :
    ∃ n, ((Installation.install point slot)^[n] s).Releasing := by
  induction hleft : s.progress.stepsLeft using Nat.strongRecOn generalizing s with
  | ind left ih =>
      by_cases hreleasing : s.Releasing
      · exact ⟨0, hreleasing⟩
      · have hbefore := h.before
        have hless := install_stepsLeft point slot (s := s) (by omega)
        obtain ⟨n, hn⟩ := ih _ (hleft ▸ hless) _ (attains_install slot hattains)
          (holdsLease_install hprepared hfails hattains h hreleasing) rfl
        exact ⟨n + 1, hn⟩

theorem iterate_calls (n : ℕ) (s : Installation C W L) :
    ((Installation.install point slot)^[n] s).process.calls = s.process.calls := by
  induction n generalizing s with
  | zero => rfl
  | succ n ih => exact (ih _).trans install_calls

variable [DecidableEq C] [DecidableEq W]

/-! ## The steps of the others -/

theorem perform_process {a : InstallAction C W L} (ha : a ≠ .install)
    (h : s.perform point slot a = some t) :
    t.progress = s.progress ∧ t.roles = s.roles ∧ t.patched = s.patched := by
  cases a with
  | install => exact absurd rfl ha
  | enter c role exempt =>
      obtain ⟨-, h⟩ := Option.ite_none_right_eq_some.mp h
      obtain ⟨process, -, rfl⟩ := Option.map_eq_some_iff.mp h
      exact ⟨rfl, rfl, rfl⟩
  | body c =>
      simp only [Installation.perform] at h
      split at h
      · obtain ⟨-, h⟩ := Option.ite_none_right_eq_some.mp h
        cases h
        exact ⟨rfl, rfl, rfl⟩
      · cases h
  | process a =>
      obtain ⟨-, h⟩ := Option.ite_none_right_eq_some.mp h
      obtain ⟨process, -, rfl⟩ := Option.map_eq_some_iff.mp h
      exact ⟨rfl, rfl, rfl⟩

/-- Only `setRoute` changes a route. -/
theorem route_step {p q : System C W L} {a : Action C W L} (hstep : Step p a q)
    (ha : ∀ route, a ≠ .setRoute slot route) : q.mem.route slot = p.mem.route slot := by
  cases hstep with
  | call c l exempt _ => rfl
  | advance c call _ =>
      show (callStep p.mem call.lifecycle call.exempt call.stage).1.route slot = _
      obtain ⟨counters, hmem⟩ := callStep_frame p.mem call.lifecycle call.exempt call.stage
      rw [hmem]
  | setRoute l route =>
      rcases eq_or_ne slot l with rfl | hne
      · exact absurd rfl (ha route)
      · exact Function.update_of_ne hne ..
  | wait w kind _ _ => rfl
  | closeGate w _ => rfl
  | openGate => rfl
  | look w expired => rfl
  | returned w kind result _ => rfl

theorem perform_route {a : InstallAction C W L} (ha : a ≠ .install)
    (h : s.perform point slot a = some t) :
    t.process.mem.route slot = s.process.mem.route slot := by
  cases a with
  | install => exact absurd rfl ha
  | enter c role exempt =>
      obtain ⟨-, h⟩ := Option.ite_none_right_eq_some.mp h
      obtain ⟨process, hprocess, rfl⟩ := Option.map_eq_some_iff.mp h
      exact route_step (step_of_perform hprocess) fun _ => nofun
  | body c =>
      simp only [Installation.perform] at h
      split at h
      · obtain ⟨-, h⟩ := Option.ite_none_right_eq_some.mp h
        cases h
        rfl
      · cases h
  | process a =>
      obtain ⟨hpermits, h⟩ := Option.ite_none_right_eq_some.mp h
      obtain ⟨process, hprocess, rfl⟩ := Option.map_eq_some_iff.mp h
      refine route_step (step_of_perform hprocess) ?_
      rintro route rfl
      exact absurd rfl (of_decide_eq_true hpermits)

/-- Calls of the slot come from patched entries only. -/
theorem slot_call_step {p q : System C W L} {a : Action C W L} (hstep : Step p a q)
    (ha : ∀ c exempt, a ≠ .call c slot exempt) {c : C} {call : Call L}
    (hcall : q.calls c = some call) (hslot : call.lifecycle = slot) :
    ∃ old, p.calls c = some old ∧ old.lifecycle = slot := by
  cases hstep with
  | call d l exempt _ =>
      dsimp only at hcall
      rcases eq_or_ne c d with rfl | hne
      · rw [Function.update_self] at hcall
        cases hcall
        subst hslot
        exact absurd rfl (ha c exempt)
      · rw [Function.update_of_ne hne] at hcall
        exact ⟨call, hcall, hslot⟩
  | advance d old hold =>
      simp only [System.advance] at hcall
      rcases eq_or_ne c d with rfl | hne
      · rw [Function.update_self] at hcall
        obtain ⟨next, -, rfl⟩ := Option.map_eq_some_iff.mp hcall
        exact ⟨old, hold, hslot⟩
      · rw [Function.update_of_ne hne] at hcall
        exact ⟨call, hcall, hslot⟩
  | setRoute l route => exact ⟨call, hcall, hslot⟩
  | wait w kind _ _ => exact ⟨call, hcall, hslot⟩
  | closeGate w _ => exact ⟨call, hcall, hslot⟩
  | openGate => exact ⟨call, hcall, hslot⟩
  | look w expired => exact ⟨call, hcall, hslot⟩
  | returned w kind result _ => exact ⟨call, hcall, hslot⟩

/-! ## Runs -/

theorem called_perform {a : InstallAction C W L} (hinv : point.Invariant slot s)
    (h : s.perform point slot a = some t) {c : C} {call : Call L}
    (hcall : t.process.calls c = some call) (hslot : call.lifecycle = slot) :
    point.Installs .alloc := by
  cases a with
  | install =>
      cases h
      rw [install_calls] at hcall
      exact hinv.called c call hcall hslot
  | enter d role exempt =>
      obtain ⟨hrole, -⟩ := Option.ite_none_right_eq_some.mp h
      exact hinv.patched role hrole
  | body d =>
      simp only [Installation.perform] at h
      split at h
      · obtain ⟨-, h⟩ := Option.ite_none_right_eq_some.mp h
        cases h
        exact hinv.called c call hcall hslot
      · cases h
  | process a =>
      obtain ⟨hpermits, h⟩ := Option.ite_none_right_eq_some.mp h
      obtain ⟨process, hprocess, rfl⟩ := Option.map_eq_some_iff.mp h
      obtain ⟨old, hold, hslot⟩ := slot_call_step (step_of_perform hprocess) (by
        rintro d exempt rfl
        exact absurd rfl (of_decide_eq_true hpermits)) hcall hslot
      exact hinv.called c old hold hslot

theorem invariant_perform {a : InstallAction C W L} (hinv : point.Invariant slot s)
    (h : s.perform point slot a = some t) : point.Invariant slot t := by
  have hcalled : ∀ c call, t.process.calls c = some call → call.lifecycle = slot →
      point.Installs .alloc := fun c call => called_perform hinv h
  by_cases ha : a = .install
  · subst ha
    cases h
    exact ⟨attains_install slot hinv.attains, install_route hinv.attains hinv.route,
      install_patched hinv.attains hinv.patched, hcalled, install_unleased hinv.unleased⟩
  · obtain ⟨hprogress, hroles, hpatched⟩ := perform_process ha h
    have hroute := perform_route ha h
    refine ⟨?_, ?_, ?_, hcalled, ?_⟩
    · rw [hprogress]
      exact hinv.attains
    · rw [hroute, hprogress]
      exact hinv.route
    · rw [hpatched]
      exact hinv.patched
    · rw [hprogress, hroles]
      exact hinv.unleased

omit [DecidableEq L] [DecidableEq C] [DecidableEq W] in
theorem invariant_start : point.Invariant slot ({} : Installation C W L) where
  attains := trivial
  route := rfl
  patched := fun _ h => nomatch h
  called := fun _ _ h => nomatch h
  unleased := fun _ _ => rfl

theorem invariant_run {as : List (InstallAction C W L)} (hrun : point.run slot as = some s) :
    point.Invariant slot s := by
  suffices h : ∀ {s₀ : Installation C W L}, point.Invariant slot s₀ →
      as.foldlM (Installation.perform point slot) s₀ = some s → point.Invariant slot s from
    h invariant_start hrun
  clear hrun
  induction as with
  | nil =>
      intro s₀ hinv hrun
      cases hrun
      exact hinv
  | cons a as ih =>
      intro s₀ hinv hrun
      rw [List.foldlM_cons] at hrun
      obtain ⟨next, hnext, hrest⟩ := Option.bind_eq_some_iff.mp hrun
      exact ih (invariant_perform hinv hnext) hrest

theorem Point.run_append (as bs : List (InstallAction C W L)) :
    point.run slot (as ++ bs) =
      (point.run slot as).bind (bs.foldlM (Installation.perform point slot)) :=
  List.foldlM_append ..

theorem Point.run_installs (point : Point) (slot : L) (n : ℕ) (s : Installation C W L) :
    (List.replicate n .install).foldlM (Installation.perform point slot) s =
      some ((Installation.install point slot)^[n] s) := by
  induction n generalizing s with
  | zero => rfl
  | succ n ih => exact ih _

/-! ## A call in flight -/

/-- The first five steps of an installer install the alloc role. -/
theorem alloc_installed (slot : L) (hprepared : point.prepared = true) (h : point.Installs .alloc) :
    ∃ s : Installation C W L, point.run slot (List.replicate 5 .install) = some s ∧
      s.progress = point.after .alloc ∧ s.patched .alloc = true ∧
      (s.roles .alloc).leaseAcquired = true ∧ s.process.calls = (fun _ => none) ∧
      s.process.mem.counters = (fun _ => 0) ∧ s.process.mem.route slot = .record := by
  obtain ⟨hgrants, hfast⟩ := h
  simp [Point.run, List.replicate, Installation.perform, Installation.install, hprepared, hgrants,
    hfast, Installation.setRoute]

/-- A thread passes the entry of the alloc role and returns from `enter_unscoped`. -/
def entering (c : C) : List (InstallAction C W L) :=
  .enter c .alloc true :: List.replicate 6 (.process (.advance c))

theorem call_enters (point : Point) {c : C} (hpatched : s.patched .alloc = true)
    (hcalls : s.process.calls = fun _ => none) (hcounters : s.process.mem.counters = fun _ => 0)
    (hroute : s.process.mem.route slot = .record) :
    ∃ t, (entering c).foldlM (Installation.perform point slot) s = some t ∧
      t.process.Holds c slot .record ∧ t.progress = s.progress ∧ t.roles = s.roles := by
  simp [entering, List.replicate, Installation.perform, hpatched, System.perform, hcalls,
    Installation.permits, System.advance, callStep, Shared.increment, Shared.set, hcounters,
    maxU64, hroute, Shared.withdraw, System.Holds]

/-- A point that installs its alloc role and fails has an interleaving that releases a
lease under a call. -/
theorem exists_unsafe_release (slot : L) (c : C) (hprepared : point.prepared = true)
    (halloc : point.Installs .alloc) (hfails : ¬ point.Succeeds) :
    ∃ as : List (InstallAction C W L), (point.run slot as).isSome ∧ ¬ point.LeaseSafe slot as := by
  obtain ⟨s, hs, hprogress, hpatched, hlease, hcalls, hcounters, hroute⟩ :=
    alloc_installed (W := W) (C := C) slot hprepared halloc
  obtain ⟨t, ht, hholds, hprogress', hroles⟩ :=
    call_enters (c := c) point hpatched hcalls hcounters hroute
  have hrun : point.run slot (List.replicate 5 .install ++ entering c) = some t := by
    rw [Point.run_append, hs]
    exact ht
  have hhas : t.HoldsLease := by
    refine ⟨by rw [hroles]; exact hlease, ?_⟩
    rw [hprogress', hprogress]
    show 7 ≤ (if point.reallocates then _ else _ : Progress).stepsLeft
    split <;> decide
  obtain ⟨n, hreleasing⟩ :=
    exists_releasing slot hprepared hfails t (invariant_run hrun).attains hhas
  have hbefore : point.run slot
      (List.replicate 5 .install ++ entering c ++ List.replicate n .install) =
      some ((Installation.install point slot)^[n] t) := by
    rw [Point.run_append, hrun]
    exact Point.run_installs point slot n t
  refine ⟨List.replicate 5 .install ++ entering c ++ List.replicate n .install ++ [.install],
    ?_, ?_⟩
  · rw [Point.run_append, hbefore]
    rfl
  · intro hsafe
    obtain ⟨exempt, hinside⟩ := hholds
    have hroute := hsafe _ [] _ rfl hbefore hreleasing c .record
      ⟨exempt, by rw [iterate_calls]; exact hinside⟩
    cases hroute

/-! ## What the catch block gets wrong, and when -/

/-- Under every interleaving the leases outlive the calls and the thrown point routes to
the restored target. -/
def Point.RevertedSafely (C W : Type) [DecidableEq C] [DecidableEq W] (point : Point) (slot : L) :
    Prop :=
  ∀ as : List (InstallAction C W L), point.LeaseSafe slot as ∧ point.RouteSafe slot as

theorem leaseSafe_iff [Nonempty C] :
    (∀ as : List (InstallAction C W L), point.LeaseSafe slot as) ↔
      (point.prepared = true → point.Installs .alloc → point.Succeeds) := by
  constructor
  · intro hsafe hprepared halloc
    by_contra hfails
    obtain ⟨as, -, hunsafe⟩ := exists_unsafe_release (W := W) slot
      (Classical.arbitrary C) hprepared halloc hfails
    exact hunsafe (hsafe as)
  · intro h as before after s _ hrun hreleasing
    have hinv := invariant_run hrun
    obtain ⟨hprepared, hfails⟩ := not_succeeds_of_releasing hinv.attains hreleasing
    exact unused_of_not_installs hinv fun halloc => hfails (h hprepared halloc)

/-- A run that throws out of the catch block leaves the route `kOriginal`. -/
theorem original_of_thrown {as : List (InstallAction C W L)} (hrun : point.run slot as = some s)
    (hthrown : s.progress = .thrown) (hprepared : point.prepared = true) :
    s.process.mem.route slot = .original := by
  rw [(invariant_run hrun).route, hthrown]
  exact if_pos hprepared

theorem exists_thrown (slot : L) (hfails : ¬ point.Succeeds) :
    ∃ (as : List (InstallAction C W L)) (s : Installation C W L),
      point.run slot as = some s ∧ s.progress = .thrown := by
  obtain ⟨n, hended⟩ := exists_ended point slot ({} : Installation C W L)
  have hrun := Point.run_installs point slot n ({} : Installation C W L)
  refine ⟨_, _, hrun, ?_⟩
  have hattains := (invariant_run hrun).attains
  revert hended hattains
  cases ((Installation.install point slot)^[n] ({} : Installation C W L)).progress with
  | thrown => exact fun _ _ => rfl
  | returned => exact fun _ hattains => absurd hattains.2 hfails
  | preparing | starting | acquiring _ | publishing _ | patching _ | withdrawing _ | clearing _
  | retargeting | stopping => exact nofun
  | reverting role | releasing role => cases role <;> exact nofun

/-- A failed point is reverted safely under every interleaving only when it fails before
`start_recording`. Its leases alone are safe also when the alloc role fails, as no call
is in flight then; the route is wrong in every run that throws later. -/
theorem failed_install_reverted [Inhabited C] (point : Point) (slot : L) :
    (point.RevertedSafely C W slot ↔ (point.prepared = true → point.Succeeds)) ∧
    ((∀ as : List (InstallAction C W L), point.LeaseSafe slot as) ↔
      (point.prepared = true → point.Installs .alloc → point.Succeeds)) ∧
    ∀ (as : List (InstallAction C W L)) (s : Installation C W L), point.run slot as = some s →
      s.progress = .thrown → point.prepared = true →
      ¬ point.RouteSafe slot as ∧ ∀ role, (s.roles role).leaseAcquired = false := by
  have hroute {as : List (InstallAction C W L)} {s : Installation C W L}
      (hrun : point.run slot as = some s) (hthrown : s.progress = .thrown)
      (hprepared : point.prepared = true) : ¬ point.RouteSafe slot as := by
    intro hsafe
    have htarget := hsafe as [] s (List.append_nil as).symm hrun hthrown
    rw [original_of_thrown hrun hthrown hprepared] at htarget
    cases htarget
  refine ⟨⟨?_, ?_⟩, leaseSafe_iff, ?_⟩
  · intro hsafe hprepared
    by_contra hfails
    obtain ⟨as, s, hrun, hthrown⟩ := exists_thrown (C := C) (W := W) slot hfails
    exact hroute hrun hthrown hprepared (hsafe as).2
  · intro h as
    refine ⟨leaseSafe_iff.mpr (fun hprepared _ => h hprepared) as, ?_⟩
    intro before after s _ hrun hthrown
    have hinv := invariant_run hrun
    have hattains := hinv.attains
    rw [hthrown] at hattains
    rw [hinv.route, hthrown]
    exact if_neg fun hprepared => hattains hprepared (h hprepared)
  · intro as s hrun hthrown hprepared
    refine ⟨hroute hrun hthrown hprepared, fun role => (invariant_run hrun).unleased role ?_⟩
    rw [hthrown]
    trivial

/-- A point without a realloc role whose free role has a prologue that is not supported. -/
def refusedFree : Point where
  prepared := true
  reallocates := false
  grants := fun _ => true
  fastHook := fun role => if role = .free then .refused else .installed

/-- A call enters the alloc role and is still there when the catch block comes to the
lease of the role. -/
def caughtInside : List (InstallAction Unit Unit Unit) :=
  List.replicate 5 .install ++ entering () ++ List.replicate 6 .install

/-- The call loads the trampoline after `install_point` has thrown. -/
def lateLoad : List (InstallAction Unit Unit Unit) :=
  caughtInside ++ .install :: (List.replicate 6 .install ++ [.body ()])

theorem failed_install_abandons :
    (∃ s, refusedFree.run () lateLoad = some s ∧ s.progress = .thrown ∧
      s.bodies () = .callingTrampoline .alloc ∧ ∀ role, (s.roles role).leaseAcquired = false) ∧
    ¬ refusedFree.LeaseSafe () lateLoad ∧ ¬ refusedFree.RouteSafe () lateLoad := by
  refine ⟨⟨_, rfl, rfl, rfl, ?_⟩, ?_, ?_⟩
  · intro role
    cases role <;> rfl
  · intro hsafe
    have hroute := hsafe caughtInside _ _ rfl rfl ⟨.alloc, .inr ⟨rfl, rfl⟩⟩ () .record ⟨true, rfl⟩
    cases hroute
  · intro hsafe
    have hroute := hsafe lateLoad [] _ (List.append_nil _).symm rfl rfl
    cases hroute

end Noleax.Lifecycle
