import Noleax.Agent.VmPlan

/-!
# What the VM records of a trace mean

The abstract machine both sides implement: a partial map from mapping ids to
generations, each with its live address ranges. `Step` says what one planned
record does to it. The writer's plan is a run of this machine from the state
before the syscall to the state after it (`Vm.WriterRefinement`), and the
analyzer's tracker follows every run (`Vm.TrackerRefinement`).
-/

namespace Noleax.Vm

open Lib Trace Agent

/-- A live generation: its kind, its creation base and its live ranges. -/
structure Generation where
  isSection : Bool
  base : ℕ
  frags : List (Fragment Unit)

/-- The generation with other ranges; without any it has ended. -/
def Generation.withFrags (g : Generation) (frags : List (Fragment Unit)) : Option Generation :=
  if frags = [] then none else some { g with frags := frags }

/-- The live generations, and the first mapping id not yet given out. -/
structure Model where
  live : ℕ → Option Generation
  next : ℕ

def Model.set (m : Model) (id : ℕ) (g : Option Generation) : Model :=
  { m with live := Function.update m.live id g }

/-- The ranges of a generation whose run from the fragment `f` is resized to
`[f.start, f.start + size)`. -/
def resizedFrags (frags : List (Fragment Unit)) (f : Fragment Unit) (size : ℕ) :
    List (Fragment Unit) :=
  let r := runFrom f.stop frags
  if r - f.start < size then
    place ⟨r, f.start + size, ()⟩ (cutAll r (f.start + size) frags)
  else if size < r - f.start then cutAll (f.start + size) r frags
  else frags

/-- A record that names no generation changes none. -/
inductive Silent : VmPlanRecord → Prop
  | free {event : VmFreeEvent} {status} (hid : event.mappingId = 0) (hstatus : status ≠ .success) :
      Silent ⟨.vmFree event, status⟩
  | allocate {event : VmAllocateEvent} (hid : event.mappingId = 0) :
      Silent ⟨.vmAllocate event, .failure⟩
  | map {event : MapEvent} (hid : event.mappingId = 0) : Silent ⟨.map event, .failure⟩

/-- The status of a creating record. -/
abbrev CreateStatus (status : EventStatus) : Prop := status = .success ∨ status = .preexisting

/-- One record of the machine. -/
inductive Step : Model → VmPlanRecord → Model → Prop
  | silent {m r} (h : Silent r) : Step m r m
  /-- A ranged release hits the generation; the last range ends it. -/
  | release {m : Model} {ctx : VmContext} {id b e : ℕ} {g : Generation} (hg : m.live id = some g)
      (hid : id ≠ 0) (hbe : b < e) (he : e ≤ maxU64) (hclip : clipAll b e g.frags ≠ []) :
      Step m (makeVmFreeRecord ctx id b (e - b)) (m.set id (g.withFrags (cutAll b e g.frags)))
  /-- A whole file-backed view ends at once. -/
  | unmap {m : Model} {ctx : VmContext} {id : ℕ} {g : Generation} (hg : m.live id = some g)
      (hid : id ≠ 0) (hsection : g.isSection = true) :
      Step m ⟨.unmap ⟨currentProcessTarget ctx, g.base, id⟩, .success⟩ (m.set id none)
  | createAnonymous {m : Model} {event : VmAllocateEvent} {status : EventStatus}
      (hstatus : CreateStatus status) (hlocal : event.target.scope = .currentProcess)
      (hfresh : m.next ≤ event.mappingId) (hid : event.mappingId < maxU64)
      (hnone : m.live event.mappingId = none)
      (hbase : event.mappingBase ≠ 0) (hsize : event.mappingSize ≠ 0)
      (hrange : event.mappingBase + event.mappingSize ≤ maxU64) :
      Step m ⟨.vmAllocate event, status⟩
        ⟨Function.update m.live event.mappingId (some ⟨false, event.mappingBase,
          [⟨event.mappingBase, event.mappingBase + event.mappingSize, ()⟩]⟩),
          event.mappingId + 1⟩
  | createView {m : Model} {event : MapEvent} {status : EventStatus}
      (hstatus : CreateStatus status) (hlocal : event.target.scope = .currentProcess)
      (hfresh : m.next ≤ event.mappingId) (hid : event.mappingId < maxU64)
      (hnone : m.live event.mappingId = none)
      (hsize : event.viewSize ≠ 0) (hrange : event.resultBase + event.viewSize ≤ maxU64) :
      Step m ⟨.map event, status⟩
        ⟨Function.update m.live event.mappingId (some ⟨true, event.resultBase,
          [⟨event.resultBase, event.resultBase + event.viewSize, ()⟩]⟩),
          event.mappingId + 1⟩
  /-- A same-id update of an anonymous generation at one of its fragments. -/
  | resize {m : Model} {event : VmAllocateEvent} {g : Generation} {f : Fragment Unit}
      (hlocal : event.target.scope = .currentProcess) (hid : event.mappingId ≠ 0)
      (hg : m.live event.mappingId = some g) (hanon : g.isSection = false)
      (hf : f ∈ g.frags) (hbase : event.mappingBase = f.start) (hlow : g.base ≤ f.start)
      (hpos : f.start ≠ 0) (hsize : event.mappingSize ≠ 0)
      (hrange : f.start + event.mappingSize ≤ maxU64) :
      Step m ⟨.vmAllocate event, .success⟩
        (m.set event.mappingId (some { g with frags := resizedFrags g.frags f event.mappingSize }))

/-- A sequence of records. -/
inductive Steps : Model → List VmPlanRecord → Model → Prop
  | nil {m} : Steps m [] m
  | cons {m m' m'' r rs} (h : Step m r m') (hrest : Steps m' rs m'') : Steps m (r :: rs) m''

namespace Steps

theorem single {m m' : Model} {r : VmPlanRecord} (h : Step m r m') : Steps m [r] m' :=
  .cons h .nil

theorem append {m m' m'' : Model} {rs ss : List VmPlanRecord} (h : Steps m rs m')
    (h' : Steps m' ss m'') : Steps m (rs ++ ss) m'' := by
  induction h with
  | nil => exact h'
  | cons hstep _ ih => exact .cons hstep (ih h')

end Steps

@[simp] theorem Model.set_live (m : Model) (id : ℕ) (g : Option Generation) :
    (m.set id g).live = Function.update m.live id g := rfl

@[simp] theorem Model.set_next (m : Model) (id : ℕ) (g : Option Generation) :
    (m.set id g).next = m.next := rfl

theorem Model.set_set (m : Model) (id : ℕ) (g g' : Option Generation) :
    (m.set id g).set id g' = m.set id g' := by
  simp [Model.set]

theorem Model.set_self {m : Model} {id : ℕ} {g : Option Generation} (h : m.live id = g) :
    m.set id g = m := by
  subst h
  simp [Model.set]

/-- Releasing pieces that lie inside the generation, one after the other: none
of them but the last can end it. -/
theorem Steps.releases {β : Type} {m : Model} (ctx : VmContext) (id : ℕ) {g : Generation}
    (ps : List (Fragment β)) (hg : m.live id = some g) (hid : id ≠ 0) (hlay : Layout g.frags)
    (hne : g.frags ≠ []) (hps : Layout ps)
    (hin : ∀ p ∈ ps, Inside (p.map fun _ => ()) g.frags) (hmax : ∀ p ∈ ps, p.stop ≤ maxU64) :
    Steps m (ps.map fun p => makeVmFreeRecord ctx id p.start (p.stop - p.start))
      (m.set id (g.withFrags (eraseAll ps g.frags))) := by
  induction ps generalizing m g with
  | nil =>
      rw [eraseAll_nil, Generation.withFrags, if_neg hne, Model.set_self hg]
      exact .nil
  | cons p ps ih =>
      obtain ⟨hplt, hnext, hlrest⟩ := Layout.cons_iff.mp hps
      have hpin := hin p (by simp)
      have hclip : clipAll p.start p.stop g.frags ≠ [] := by
        have := hpin.clipAll_eq hlay
        simp only [Fragment.map_start, Fragment.map_stop] at this
        rw [this]
        simp
      have hstep : Step m (makeVmFreeRecord ctx id p.start (p.stop - p.start)) _ :=
        .release hg hid hplt (hmax p (by simp)) hclip
      rw [List.map_cons, eraseAll_cons]
      refine .cons hstep ?_
      have hrest : ∀ q ∈ ps, Inside (q.map fun _ => ()) (cutAll p.start p.stop g.frags) := by
        intro q hq
        refine (hin q (by simp [hq])).cutAll (.inr ?_)
        exact hnext q hq
      cases ps with
      | nil =>
          rw [List.map_nil, eraseAll_nil]
          exact .nil
      | cons q ps =>
          have hne' : cutAll p.start p.stop g.frags ≠ [] := (hrest q (by simp)).ne_nil
          have hlive : (m.set id (g.withFrags (cutAll p.start p.stop g.frags))).live id =
              some { g with frags := cutAll p.start p.stop g.frags } := by
            rw [Model.set_live, Function.update_self, Generation.withFrags, if_neg hne']
          have := ih (m := m.set id (g.withFrags (cutAll p.start p.stop g.frags))) hlive
            (hlay.cutAll _ _) hne' hlrest hrest fun k hk => hmax k (by simp [hk])
          rw [Model.set_set] at this
          exact this

end Noleax.Vm
