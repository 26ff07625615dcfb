import Noleax.Lifecycle.Replacement

/-!
# Installing a custom hook point (`agent/linux/custom_symbol_hooks.cpp`)

`install_point` takes a trampoline lease and patches the target of each role while
the threads of the process already call the roles patched so far. An exception of a
role is caught by a block that takes the installed roles back and rethrows.

A step of the installer is one call of the backend or one store that other threads
see. A replacement is entered and left as every replacement is; in between it loads a
function pointer and calls it.
-/

namespace Noleax.Lifecycle

inductive Role where
  | alloc | realloc | free
deriving DecidableEq, Repr

/-- What `install_fast` or `install_fast_forced` does with a target. -/
inductive FastHook where
  | installed
  /-- any other status; the target is left as it was -/
  | refused
  /-- an exception; the target is left as it was -/
  | threw
deriving DecidableEq, Repr

/-- A hook point, with what the calls of `install_point` answer for it. -/
structure Point where
  /-- `validate_point_spec`, `wait_for_module` and the resolution of the targets return -/
  prepared : Bool
  /-- the locator of the realloc role is not `kNone` -/
  reallocates : Bool
  /-- `acquire_trampoline_lifetime_lease` -/
  grants : Role → Bool
  fastHook : Role → FastHook

/-! ## The installer -/

/-- The next step of `install_point`. -/
inductive Progress where
  | preparing
  /-- `start_recording` -/
  | starting
  /-- `install_role`: acquire a lease -/
  | acquiring (role : Role)
  /-- store the restored target -/
  | publishing (role : Role)
  /-- `install_fast` -/
  | patching (role : Role)
  /-- the role was refused: release its lease -/
  | withdrawing (role : Role)
  /-- clear the restored target, then throw -/
  | clearing (role : Role)
  /-- the catch block: uninstall the role if it is installed -/
  | reverting (role : Role)
  /-- release the lease of the role if it has one -/
  | releasing (role : Role)
  /-- `route_to_target` -/
  | retargeting
  /-- `stop_recording`, then rethrow -/
  | stopping
  | thrown
  /-- returned, with `point.installed` set -/
  | returned
deriving DecidableEq, Repr

structure RoleState where
  installed : Bool := false
  leaseAcquired : Bool := false
deriving DecidableEq, Repr

/-- What the step between an entry and its exit has come to. -/
inductive Body where
  /-- load the function pointer of the role -/
  | loading (role : Role)
  /-- call the restored target of the role -/
  | callingTarget (role : Role)
  /-- call the trampoline of the role -/
  | callingTrampoline (role : Role)
  /-- the called function has returned -/
  | done
deriving DecidableEq, Repr

/-- The process while a point is installed; `bodies` tells what a call of its
replacements does between entry and exit. -/
structure Installation (C W L : Type) where
  process : System C W L := {}
  bodies : C → Body := fun _ => .done
  progress : Progress := .preparing
  roles : Role → RoleState := fun _ => {}
  /-- the entry of the target jumps to the thunk of the role -/
  patched : Role → Bool := fun _ => false
  /-- the restored target is stored -/
  restored : Role → Bool := fun _ => false

/-- The role after `role` in `install_point`. -/
def Point.after (point : Point) : Role → Progress
  | .alloc => if point.reallocates then .acquiring .realloc else .acquiring .free
  | .realloc => .acquiring .free
  | .free => .returned

/-- The role after `role` in the catch block. -/
def Role.afterReleasing : Role → Progress
  | .alloc => .reverting .realloc
  | .realloc => .reverting .free
  | .free => .retargeting

variable {C W L : Type} [DecidableEq C] [DecidableEq W] [DecidableEq L]

def Installation.setRoute (s : Installation C W L) (slot : L) (route : ReplacementRoute) :
    Installation C W L :=
  { s with
    process := { s.process with
      mem := { s.process.mem with route := Function.update s.process.mem.route slot route } } }

/-- The next step of the thread that installs the point of `slot`. -/
def Installation.install (point : Point) (slot : L) (s : Installation C W L) :
    Installation C W L :=
  match s.progress with
  | .preparing => { s with progress := if point.prepared then .starting else .thrown }
  | .starting => { s.setRoute slot .record with progress := .acquiring .alloc }
  | .acquiring role =>
      if point.grants role then
        { s with
          roles := Function.update s.roles role { s.roles role with leaseAcquired := true }
          progress := .publishing role }
      else { s with progress := .reverting .alloc }
  | .publishing role =>
      { s with restored := Function.update s.restored role true, progress := .patching role }
  | .patching role =>
      match point.fastHook role with
      | .installed =>
          { s with
            patched := Function.update s.patched role true
            roles := Function.update s.roles role { s.roles role with installed := true }
            progress := point.after role }
      | .refused => { s with progress := .withdrawing role }
      | .threw => { s with progress := .reverting .alloc }
  | .withdrawing role =>
      { s with
        roles := Function.update s.roles role { s.roles role with leaseAcquired := false }
        progress := .clearing role }
  | .clearing role =>
      { s with
        restored := Function.update s.restored role false
        progress := .reverting .alloc }
  | .reverting role =>
      { s with
        patched :=
          if (s.roles role).installed then Function.update s.patched role false else s.patched
        roles := Function.update s.roles role { s.roles role with installed := false }
        progress := .releasing role }
  | .releasing role =>
      { s with
        roles := Function.update s.roles role { s.roles role with leaseAcquired := false }
        progress := role.afterReleasing }
  | .retargeting => { s.setRoute slot .target with progress := .stopping }
  | .stopping => { s.setRoute slot .original with progress := .thrown }
  | .thrown | .returned => s

/-! ## The replacements -/

/-- The load of `custom_alloc_impl` and its two siblings: the pointer that the route
returned by `enter_unscoped` asks for. -/
def ReplacementRoute.load (role : Role) : ReplacementRoute → Body
  | .target => .callingTarget role
  | .original | .record => .callingTrampoline role

/-- The next step of a replacement between entry and exit. -/
def Body.next (route : ReplacementRoute) : Body → Body
  | .loading role => route.load role
  | .callingTarget _ | .callingTrampoline _ | .done => .done

inductive InstallAction (C W L : Type) where
  /-- a step of `install_point` -/
  | install
  /-- a thread passes the patched entry of a role -/
  | enter (c : C) (role : Role) (exempt : Bool)
  /-- a call takes a step between `enter_unscoped` and `leave_unscoped` -/
  | body (c : C)
  /-- any other step of the process -/
  | process (a : Action C W L)

/-- Nobody but the installer routes the slot, its replacements are entered through a
patched target, and a call leaves after the function it called has returned. -/
def Installation.permits (s : Installation C W L) (slot : L) : Action C W L → Bool
  | .call _ l _ => l ≠ slot
  | .setRoute l _ => l ≠ slot
  | .advance c =>
      match s.process.calls c with
      | some ⟨l, _, .inside _⟩ => l ≠ slot || s.bodies c = .done
      | _ => true
  | _ => true

/-- The step an action takes, where it can be taken. -/
def Installation.perform (point : Point) (slot : L) (s : Installation C W L) :
    InstallAction C W L → Option (Installation C W L)
  | .install => some (s.install point slot)
  | .enter c role exempt =>
      if s.patched role then
        (s.process.perform (.call c slot exempt)).map fun process =>
          { s with process := process, bodies := Function.update s.bodies c (.loading role) }
      else none
  | .body c =>
      match s.process.calls c with
      | some ⟨l, _, .inside route⟩ =>
          if l = slot then
            some { s with bodies := Function.update s.bodies c ((s.bodies c).next route) }
          else none
      | _ => none
  | .process a =>
      if s.permits slot a then
        (s.process.perform a).map fun process => { s with process := process }
      else none

/-- An interleaving, from a process in which the slot was never used. -/
def Point.run (point : Point) (slot : L) (as : List (InstallAction C W L)) :
    Option (Installation C W L) :=
  as.foldlM (Installation.perform point slot) {}

/-! ## What a failed installation owes -/

/-- The next step of the installer releases a lease. -/
def Installation.Releasing (s : Installation C W L) : Prop :=
  ∃ role, s.progress = .withdrawing role ∨
    s.progress = .releasing role ∧ (s.roles role).leaseAcquired

/-- No call is between an `enter_unscoped` of the slot that returned `kOriginal` or
`kRecord` and its `leave_unscoped`. -/
def Installation.Unused (s : Installation C W L) (slot : L) : Prop :=
  ∀ c route, s.process.Holds c slot route → route = .target

/-- The run releases a lease only when nobody can be on a trampoline of the slot. -/
def Point.LeaseSafe (point : Point) (slot : L) (as : List (InstallAction C W L)) : Prop :=
  ∀ before after s, as = before ++ .install :: after → point.run slot before = some s →
    s.Releasing → s.Unused slot

/-- Once `install_point` has thrown, the route of the slot is `kTarget`. -/
def Point.RouteSafe (point : Point) (slot : L) (as : List (InstallAction C W L)) : Prop :=
  ∀ before after s, as = before ++ after → point.run slot before = some s →
    s.progress = .thrown → s.process.mem.route slot = .target

/-- The role gets its lease and its target is patched. -/
def Point.Installs (point : Point) (role : Role) : Prop :=
  point.grants role = true ∧ point.fastHook role = .installed

/-- The point has the role. -/
def Point.Has (point : Point) (role : Role) : Prop := role = .realloc → point.reallocates = true

/-- Every role of the point is installed. -/
def Point.Succeeds (point : Point) : Prop := ∀ role, point.Has role → point.Installs role

end Noleax.Lifecycle
