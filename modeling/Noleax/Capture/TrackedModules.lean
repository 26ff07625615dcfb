import Noleax.Capture.Conservation
import Noleax.Capture.ModuleAgreement

/-!
# The modules of a capture

The tracker polls, the writer drains, and events, flushes and samples come in between, in
any order. While no notification is dropped, no drain fails but where the output does, and
once the queue is drained the analyzer's live modules are those of the last poll.
-/

namespace Noleax.Capture

open Lib Trace Agent Agent.LinuxTraceWriter Agent.TrackedWriter Analyzer

variable {options : WriterOptions} {w w' : LinuxTraceWriter} {t t' : TrackedWriter}
  {layout target : RangeTable ModuleIdentity} {mainExecutablePath : Bytes}

/-! ## An event that fits cannot be refused -/

/-- A check that passes leaves the rest of a program. -/
theorem run_check_bind {α β : Type} {x : Except Error β} {b : β} (h : x = .ok b)
    (f : β → WriterM α) (w : LinuxTraceWriter) : (check x >>= f) w = f b w := by
  rw [h, run_bind, run_check_ok]

/-- The load of a module that is clear of the others fails where the output does. -/
theorem ModuleBooks.loadModule_fault (h : ModuleBooks options layout w) {raw : RawModuleEvent}
    {time : ℕ} (hsize : raw.imageSize ≠ 0) (hfree : ¬ w.liveModules.Contains raw.baseAddress)
    (hvalid : ∀ id, id ≠ 0 → validateModuleLoad (moduleLoad raw id time) = .ok ()) {e : Error}
    (hrun : loadModule options raw time w = .error e w') : FileFault e := by
  unfold loadModule at hrun
  simp only [WriterM.lift_eq_check] at hrun
  rcases run_bind_eq_error.mp hrun with hget | ⟨_, _, hget, hrun⟩
  · cases hget
  obtain ⟨rfl, rfl⟩ := run_get_eq_ok.mp hget
  rw [run_check_bind (failIf_of_not hsize), run_check_bind (failIf_of_not hfree)] at hrun
  rcases run_bind_eq_error.mp hrun with hid | ⟨_, _, hid, hrun⟩
  · have hthrows : ThrowsOnly FileFault
        (failIf (w.nextModuleId = maxU64) (.overflow "module ID space is exhausted")) :=
      throwsOnly_failIf fun _ => trivial
    exact raises_check hthrows w e w' hid
  obtain ⟨-, rfl⟩ := run_check_eq_ok.mp hid
  rcases run_bind_eq_error.mp hrun with hflush | ⟨_, k, hflush, hrun⟩
  · exact flushBeforeModule_faults w e w' hflush
  have hkept := flushBeforeModule_modulesKept hflush
  rcases run_bind_eq_error.mp hrun with hget | ⟨_, _, hget, hrun⟩
  · cases hget
  obtain ⟨rfl, rfl⟩ := run_get_eq_ok.mp hget
  rcases run_bind_eq_error.mp hrun with hset | ⟨_, m, -, hrun⟩
  · cases hset
  rw [run_check_bind (hvalid k.nextModuleId (h.kept hkept).next)] at hrun
  cases hrun

/-- The unload of a live module fails where the output does. -/
theorem ModuleBooks.unloadModule_fault (h : ModuleBooks options layout w) {raw : RawModuleEvent}
    {existing : LiveModule} {time : ℕ}
    (hlookup : w.liveModules.lookup raw.baseAddress = some existing) {e : Error}
    (hrun : unloadModule options raw existing time w = .error e w') : FileFault e := by
  unfold unloadModule at hrun
  simp only [WriterM.lift_eq_check] at hrun
  have hvalid : validateModuleUnload ⟨existing.moduleId, time⟩ = .ok () :=
    failIf_of_not (h.identified _ (SortedMap.mem_of_lookup hlookup))
  rcases run_bind_eq_error.mp hrun with hflush | ⟨_, k, hflush, hrun⟩
  · exact flushBeforeModule_faults w e w' hflush
  rw [run_check_bind hvalid] at hrun
  cases hrun

theorem ModuleBooks.fault (h : ModuleBooks options layout w)
    {change : RangeChange ModuleIdentity} {raw : RawModuleEvent} (htells : Tells options change raw)
    (hfits : RangeTable.Fits ModuleIdentity.base ModuleIdentity.size layout change) {e : Error}
    (hrun : processModuleEvent options raw w = .error e w') : FileFault e := by
  obtain ⟨time, htime, -, -⟩ := moduleTicks_tells (w := w) htells
  have hbase : ¬ raw.baseAddress = 0 := by
    cases htells with
    | load image stamp initialSnapshot hmapped hstamp => exact hmapped.base
    | unload image stamp hstamp => exact (h.mapped _ _ hfits).2.base
  unfold processModuleEvent at hrun
  simp only [WriterM.lift_eq_check] at hrun
  rw [run_check_bind (failIf_of_not hbase)] at hrun
  rcases run_bind_eq_error.mp hrun with hget | ⟨_, _, hget, hrun⟩
  · cases hget
  obtain ⟨rfl, rfl⟩ := run_get_eq_ok.mp hget
  rw [run_check_bind htime] at hrun
  cases htells with
  | load image stamp initialSnapshot hmapped hstamp =>
      rcases run_bind_eq_error.mp hrun with hload | ⟨_, m, -, hsettle⟩
      · exact h.loadModule_fault (Nat.ne_of_gt hmapped.size) (h.free hfits.1)
          (fun id hid => moduleLoad_valid hmapped stamp time initialSnapshot hid) hload
      · exact settleModule_faults time m e w' hsettle
  | unload image stamp hstamp =>
      obtain ⟨existing, hexisting⟩ := h.lookup.mpr ⟨image, hfits⟩
      have hlookup : w.liveModules.lookup (makeEvent image .unload stamp false).baseAddress =
        some existing := hexisting
      simp only [hlookup] at hrun
      rcases run_bind_eq_error.mp hrun with hunload | ⟨_, m, -, hsettle⟩
      · exact h.unloadModule_fault hlookup hunload
      · exact settleModule_faults time m e w' hsettle

/-! ## Events in line -/

/-- The events of the changes of a poll, each at its reading of the clock. -/
theorem moduleChanges_tells {live current : List ModuleIdentity} (hcurrent : Snapshot current)
    {now : ℕ → ℕ} (hnow : ∀ i, options.monotonicOrigin ≤ now i) :
    List.Forall₂ (Tells options) (moduleChanges live current)
      ((moduleChanges live current).mapIdx fun i change => changeEvent (now i) change) := by
  have hloads : ∀ change ∈ moduleChanges live current, ∀ image, change = .load image →
      image.Mapped := by
    rintro _ hmem image rfl
    unfold moduleChanges at hmem
    rcases List.mem_append.mp hmem with hmem | hmem
    · obtain ⟨_, -, heq⟩ := List.mem_map.mp hmem
      cases heq
    · obtain ⟨other, hother, hmem⟩ := List.mem_flatMap.mp hmem
      have himage : image = other := by
        unfold moduleNews at hmem
        split at hmem
        · simpa using hmem
        · split at hmem
          · simpa using hmem
          · cases hmem
      rw [himage]
      exact hcurrent.mapped other hother
  generalize moduleChanges live current = changes at hloads ⊢
  induction changes generalizing now with
  | nil => exact .nil
  | cons change changes ih =>
      rw [List.mapIdx_cons]
      refine .cons ?_ (ih (fun i => hnow (i + 1))
        fun other hother => hloads other (List.mem_cons_of_mem _ hother))
      cases change with
      | load image =>
          exact .load image (now 0) false (hloads _ List.mem_cons_self image rfl) fun _ => hnow 0
      | unload image => exact .unload image (now 0) (hnow 0)

/-- No notification was dropped, in the tracker or by the time of its last report. -/
def NothingDropped (t : TrackedWriter) : Prop :=
  t.tracker.dropped = 0 ∧ t.writer.moduleNotificationDrops = 0

/-- The events that wait carry the writer's modules into those of the last poll. -/
structure Following (options : WriterOptions) (t : TrackedWriter) : Prop where
  snapshot : Snapshot t.tracker.live
  words : ∀ event ∈ t.waiting, event.monotonicTicks ≤ maxU64
  carried : ∃ layout changes, ModuleBooks options layout t.writer ∧
    List.Forall₂ (Tells options) changes t.waiting ∧
    RangeTable.Carries ModuleIdentity.base ModuleIdentity.size layout changes
      (RangeTable.ofList ModuleIdentity.base t.tracker.live)

/-- A step of the writer that adds no module record. -/
theorem Following.kept (h : Following options t) (hkept : ModulesKept t.writer t'.writer)
    (hlive : t'.tracker.live = t.tracker.live) (hwaiting : t'.waiting = t.waiting) :
    Following options t' where
  snapshot := hlive ▸ h.snapshot
  words := hwaiting ▸ h.words
  carried := by
    obtain ⟨layout, changes, hbooks, htells, hcarries⟩ := h.carried
    rw [hlive, hwaiting]
    exact ⟨layout, changes, hbooks.kept hkept, htells, hcarries⟩

/-! ## The drain -/

/-- What a drain leaves alone. -/
structure SameNotices (t t' : TrackedWriter) : Prop where
  live : t'.tracker.live = t.tracker.live
  dropped : t'.tracker.dropped = t.tracker.dropped
  drops : t'.writer.moduleNotificationDrops = t.writer.moduleNotificationDrops

theorem SameNotices.trans {a b c : TrackedWriter} (hab : SameNotices a b) (hbc : SameNotices b c) :
    SameNotices a c :=
  ⟨hbc.live.trans hab.live, hbc.dropped.trans hab.dropped, hbc.drops.trans hab.drops⟩

theorem processModuleEvent_drops {raw : RawModuleEvent} {u : Unit}
    (h : processModuleEvent options raw w = .ok u w') :
    w'.moduleNotificationDrops = w.moduleNotificationDrops := by
  have hsettled : ∀ ticks m, settleModule options ticks m = .ok () w' →
      w'.moduleNotificationDrops = m.moduleNotificationDrops := by
    intro ticks m hsettle
    rcases settleModule_ok hsettle with rfl | hflush
    · rfl
    · exact (flushModulePayload_modulesKept hflush).drops
  obtain ⟨-, ticks, -, hprocessed⟩ := processModuleEvent_ok h
  cases hprocessed with
  | load m htype hload hsettle =>
      obtain ⟨-, -, -, k, hflush, -, rfl⟩ := loadModule_ok hload
      exact (hsettled _ _ hsettle).trans (flushBeforeModule_modulesKept hflush).drops
  | unload existing m htype hlive hunload hsettle =>
      obtain ⟨k, hflush, -, rfl⟩ := unloadModule_ok hunload
      exact (hsettled _ _ hsettle).trans (flushBeforeModule_modulesKept hflush).drops
  | unknown htype hlive hstate => rw [hstate]

/-- A repetition of the drain, whatever waits. -/
theorem drainModule_same {maximumTicks : ℕ} {more : Bool}
    (hrun : drainModule options maximumTicks t = .ok more t') : SameNotices t t' := by
  obtain ⟨found, m, hawait, hrun⟩ := run_bind_eq_ok.mp hrun
  obtain ⟨hwriter, hsame, -⟩ := awaitModuleEvent_ok hawait
  have hm : SameNotices t m := ⟨hsame.live, hsame.dropped, by rw [hwriter]⟩
  cases found with
  | none =>
      obtain ⟨-, rfl⟩ := run_pure_eq_ok.mp hrun
      exact hm
  | some event =>
      dsimp only at hrun
      rw [run_ite] at hrun
      split at hrun
      · obtain ⟨-, rfl⟩ := run_pure_eq_ok.mp hrun
        exact hm
      obtain ⟨_, k, hprocess, hrun⟩ := run_bind_eq_ok.mp hrun
      obtain ⟨_, n, hmodify, hrun⟩ := run_bind_eq_ok.mp hrun
      obtain rfl := run_modify_eq_ok.mp hmodify
      obtain ⟨-, rfl⟩ := run_pure_eq_ok.mp hrun
      obtain ⟨hprocess, htracker, -⟩ := onWriter_ok hprocess
      exact hm.trans ⟨congrArg (·.live) htracker, congrArg (·.dropped) htracker,
        processModuleEvent_drops hprocess⟩

theorem drainRounds_same {maximumTicks rounds : ℕ} {u : Unit}
    (hrun : drainRounds options maximumTicks rounds t = .ok u t') : SameNotices t t' := by
  induction rounds generalizing t with
  | zero =>
      obtain ⟨-, rfl⟩ := run_pure_eq_ok.mp hrun
      exact ⟨rfl, rfl, rfl⟩
  | succ rounds ih =>
      obtain ⟨more, m, hdrain, hrest⟩ := run_bind_eq_ok.mp hrun
      have hm := drainModule_same hdrain
      cases more with
      | false =>
          obtain ⟨-, rfl⟩ := run_pure_eq_ok.mp hrest
          exact hm
      | true => exact hm.trans (ih hrest)

theorem drainModulesThrough_same {maximumTicks : ℕ} {u : Unit}
    (hrun : drainModulesThrough options maximumTicks t = .ok u t') : SameNotices t t' := by
  obtain ⟨_, _, hget, hrun⟩ := run_bind_eq_ok.mp hrun
  obtain ⟨rfl, rfl⟩ := run_get_eq_ok.mp hget
  exact drainRounds_same hrun

/-- Everything that waits is later than `maximumTicks`. -/
def Later (maximumTicks : ℕ) (t : TrackedWriter) : Prop :=
  ∀ event ∈ t.waiting.head?, maximumTicks < event.monotonicTicks

/-- One repetition of the drain takes the oldest event, or nothing that is due is left. -/
theorem drainModule_ok (h : Following options t) {maximumTicks : ℕ} {more : Bool}
    (hrun : drainModule options maximumTicks t = .ok more t') :
    Following options t' ∧
      (more = true → t'.waiting.length + 1 = t.waiting.length) ∧
      (more = false → Later maximumTicks t') := by
  obtain ⟨found, m, hawait, hrun⟩ := run_bind_eq_ok.mp hrun
  obtain ⟨hwriter, hsame, hwaiting, hpending, hnone⟩ := awaitModuleEvent_ok hawait
  have hm : Following options m := h.kept (hwriter ▸ .refl _) hsame.live hwaiting
  cases found with
  | none =>
      obtain ⟨rfl, rfl⟩ := run_pure_eq_ok.mp hrun
      refine ⟨hm, fun hmore => absurd hmore Bool.false_ne_true, fun _ event hevent => ?_⟩
      rw [hwaiting, hnone rfl] at hevent
      cases hevent
  | some event =>
      have hline : m.waiting = event :: m.tracker.pending.contents := by
        unfold waiting
        rw [hpending]
        rfl
      dsimp only at hrun
      rw [run_ite] at hrun
      by_cases hlater : maximumTicks < event.monotonicTicks
      · rw [if_pos hlater] at hrun
        obtain ⟨rfl, rfl⟩ := run_pure_eq_ok.mp hrun
        refine ⟨hm, fun hmore => absurd hmore Bool.false_ne_true, fun _ other hother => ?_⟩
        rw [hline] at hother
        obtain rfl := Option.some.inj hother
        exact hlater
      rw [if_neg hlater] at hrun
      obtain ⟨_, k, hprocess, hrun⟩ := run_bind_eq_ok.mp hrun
      obtain ⟨_, n, hmodify, hrun⟩ := run_bind_eq_ok.mp hrun
      obtain rfl := run_modify_eq_ok.mp hmodify
      obtain ⟨rfl, rfl⟩ := run_pure_eq_ok.mp hrun
      obtain ⟨hprocess, htracker, -⟩ := onWriter_ok hprocess
      obtain ⟨layout, changes, hbooks, htells, hcarries⟩ := hm.carried
      rw [hline] at htells
      cases htells with
      | @cons change _ changes _ htell htells =>
          obtain ⟨hfits, hcarries⟩ := hcarries
          have hrest : ({ k with pendingModuleEvent := none } : TrackedWriter).waiting =
              m.tracker.pending.contents := congrArg (·.pending.contents) htracker
          have hlive : k.tracker.live = m.tracker.live := congrArg (·.live) htracker
          refine ⟨⟨hlive ▸ hm.snapshot, ?_, ?_⟩, fun _ => ?_, fun hmore => by cases hmore⟩
          · rw [hrest]
            intro other hother
            exact hm.words other (hline ▸ List.mem_cons_of_mem _ hother)
          · refine ⟨_, changes, hbooks.processed htell hfits hprocess, ?_, ?_⟩
            · rw [hrest]
              exact htells
            · show RangeTable.Carries _ _ _ changes (RangeTable.ofList _ k.tracker.live)
              rw [hlive]
              exact hcarries
          · rw [hrest, ← hwaiting, hline]
            rfl

theorem drainModule_fault (h : Following options t) {maximumTicks : ℕ} {e : Error}
    (hrun : drainModule options maximumTicks t = .error e t') : FileFault e := by
  rcases run_bind_eq_error.mp hrun with hawait | ⟨found, m, hawait, hrun⟩
  · exact awaitModuleEvent_raises t e t' hawait
  obtain ⟨hwriter, hsame, hwaiting, hpending, hnone⟩ := awaitModuleEvent_ok hawait
  have hm : Following options m := h.kept (hwriter ▸ .refl _) hsame.live hwaiting
  cases found with
  | none => cases hrun
  | some event =>
      dsimp only at hrun
      rw [run_ite] at hrun
      split at hrun
      · cases hrun
      rcases run_bind_eq_error.mp hrun with hprocess | ⟨_, k, -, hrun⟩
      · obtain ⟨layout, changes, hbooks, htells, hcarries⟩ := hm.carried
        have hline : m.waiting = event :: m.tracker.pending.contents := by
          unfold waiting
          rw [hpending]
          rfl
        rw [hline] at htells
        cases htells with
        | @cons change _ changes _ htell htells =>
            exact hbooks.fault htell hcarries.1 (onWriter_error hprocess)
      · cases hrun

/-- A drain with repetitions for everything that waits ends with what is not due. -/
theorem drainRounds_ok {maximumTicks rounds : ℕ} (h : Following options t)
    (hrounds : t.waiting.length < rounds) {u : Unit}
    (hrun : drainRounds options maximumTicks rounds t = .ok u t') :
    Following options t' ∧ Later maximumTicks t' := by
  induction rounds generalizing t with
  | zero => omega
  | succ rounds ih =>
      obtain ⟨more, m, hdrain, hrest⟩ := run_bind_eq_ok.mp hrun
      obtain ⟨hm, hless, hdone⟩ := drainModule_ok h hdrain
      cases more with
      | false =>
          obtain ⟨-, rfl⟩ := run_pure_eq_ok.mp hrest
          exact ⟨hm, hdone rfl⟩
      | true =>
          have hlength := hless rfl
          exact ih hm (by omega) hrest

theorem drainRounds_fault {maximumTicks rounds : ℕ} (h : Following options t) {e : Error}
    (hrun : drainRounds options maximumTicks rounds t = .error e t') : FileFault e := by
  induction rounds generalizing t with
  | zero => cases hrun
  | succ rounds ih =>
      rcases run_bind_eq_error.mp hrun with hdrain | ⟨more, m, hdrain, hrest⟩
      · exact drainModule_fault h hdrain
      · cases more with
        | false => cases hrest
        | true => exact ih (drainModule_ok h hdrain).1 hrest

/-- The waiting events are the queued ones and at most one more. -/
theorem waiting_length (t : TrackedWriter) : t.waiting.length < t.tracker.pending.count + 2 := by
  unfold waiting
  rw [List.length_append, RingBuffer.length_contents]
  cases t.pendingModuleEvent with
  | none =>
      show 0 + _ < _
      omega
  | some event =>
      show 1 + _ < _
      omega

theorem drainModulesThrough_ok (h : Following options t) {maximumTicks : ℕ} {u : Unit}
    (hrun : drainModulesThrough options maximumTicks t = .ok u t') :
    Following options t' ∧ Later maximumTicks t' := by
  obtain ⟨_, _, hget, hrun⟩ := run_bind_eq_ok.mp hrun
  obtain ⟨rfl, rfl⟩ := run_get_eq_ok.mp hget
  exact drainRounds_ok h (waiting_length t) hrun

theorem drainModulesThrough_fault (h : Following options t) {maximumTicks : ℕ} {e : Error}
    (hrun : drainModulesThrough options maximumTicks t = .error e t') : FileFault e := by
  rcases run_bind_eq_error.mp hrun with hget | ⟨_, _, hget, hrun⟩
  · cases hget
  obtain ⟨rfl, rfl⟩ := run_get_eq_ok.mp hget
  exact drainRounds_fault h hrun

/-! ## The capture loop -/

/-- What a poll may bring: a link map, and readings of the clock. -/
def Allowed (options : WriterOptions) (mainExecutablePath : Bytes) : TrackedAction → Prop
  | .poll now infos => LinkMap mainExecutablePath infos ∧
      ∀ i, options.monotonicOrigin ≤ now i ∧ now i ≤ maxU64
  | _ => True

/-- The link map of the last poll. -/
def lastPolled (infos : List DlPhdrInfo) : List TrackedAction → List DlPhdrInfo
  | [] => infos
  | .poll _ polled :: actions => lastPolled polled actions
  | _ :: actions => lastPolled infos actions

/-- As long as nothing is dropped, the writer follows the tracker. -/
def Followed (options : WriterOptions) (images : List ModuleIdentity) (t : TrackedWriter) : Prop :=
  NothingDropped t → Following options t ∧ t.tracker.live = images

variable {images : List ModuleIdentity}

/-- A step of the writer that adds no module record. -/
theorem Followed.onWriter (h : Followed options images t) {x : WriterM Unit}
    (hkept : ∀ w w', x w = .ok () w' → ModulesKept w w')
    (hrun : onWriter x t = .ok () t') : Followed options images t' := by
  obtain ⟨hx, htracker, hpending⟩ := onWriter_ok hrun
  have hkept := hkept _ _ hx
  intro hnothing
  have hbefore : NothingDropped t := ⟨htracker ▸ hnothing.1, hkept.drops ▸ hnothing.2⟩
  obtain ⟨hfollowing, hlive⟩ := h hbefore
  refine ⟨hfollowing.kept hkept (by rw [htracker]) ?_, by rw [htracker, hlive]⟩
  unfold waiting
  rw [htracker, hpending]

theorem Followed.drain (h : Followed options images t) {maximumTicks : ℕ} {u : Unit}
    (hrun : drainModulesThrough options maximumTicks t = .ok u t') :
    Followed options images t' := by
  have hsame := drainModulesThrough_same hrun
  intro hnothing
  obtain ⟨hfollowing, hlive⟩ := h ⟨hsame.dropped ▸ hnothing.1, hsame.drops ▸ hnothing.2⟩
  exact ⟨(drainModulesThrough_ok hfollowing hrun).1, hsame.live.trans hlive⟩

/-- A report of the drops: there were none. -/
theorem Followed.moduleDrops (h : Followed options images t) {u : Unit}
    (hrun : collectModuleDrops t = .ok u t') : Followed options images t' := by
  obtain ⟨_, _, hget, hrun⟩ := run_bind_eq_ok.mp hrun
  obtain ⟨rfl, rfl⟩ := run_get_eq_ok.mp hget
  obtain ⟨_, m, hset, hrun⟩ := run_bind_eq_ok.mp hrun
  obtain rfl := run_set_eq_ok.mp hset
  obtain ⟨hcollect, htracker, hpending⟩ := onWriter_ok hrun
  have hwriter := collectModuleDrops_ok hcollect
  change t'.writer = { t.writer with
    moduleNotificationDrops := t.writer.moduleNotificationDrops + t.tracker.dropped } at hwriter
  intro hnothing
  have hsum : t.writer.moduleNotificationDrops + t.tracker.dropped = 0 := by
    have := hnothing.2
    rw [hwriter] at this
    exact this
  obtain ⟨hfollowing, hlive⟩ := h ⟨by omega, by omega⟩
  have hkept : ModulesKept t.writer t'.writer := by
    rw [hwriter]
    exact .same rfl rfl rfl (show _ + _ = _ by omega) rfl rfl rfl
  refine ⟨hfollowing.kept hkept (congrArg (·.live) htracker) ?_,
    (congrArg (·.live) htracker).trans hlive⟩
  unfold waiting
  rw [htracker, hpending]
  rfl

/-- A poll that drops nothing puts the changes behind what waits. -/
theorem Followed.poll (h : Followed options images t) {now : ℕ → ℕ} {infos : List DlPhdrInfo}
    (hinfos : LinkMap mainExecutablePath infos)
    (hnow : ∀ i, options.monotonicOrigin ≤ now i ∧ now i ≤ maxU64) :
    Followed options (takeSnapshot mainExecutablePath infos)
      { t with tracker := t.tracker.poll now (takeSnapshot mainExecutablePath infos) } := by
  intro hnothing
  obtain ⟨hdropped, hcontents⟩ := ModuleTracker.poll_kept hnothing.1
  obtain ⟨hfollowing, -⟩ := h ⟨hdropped, hnothing.2⟩
  have hcurrent := takeSnapshot_snapshot hinfos
  obtain ⟨layout, changes, hbooks, htells, hcarries⟩ := hfollowing.carried
  have hwaiting : ({ t with
      tracker := t.tracker.poll now (takeSnapshot mainExecutablePath infos) } :
        TrackedWriter).waiting = t.waiting ++
        (moduleChanges t.tracker.live (takeSnapshot mainExecutablePath infos)).mapIdx
          fun i change => changeEvent (now i) change := by
    unfold waiting
    rw [hcontents, List.append_assoc]
  refine ⟨⟨hcurrent, ?_, ?_⟩, rfl⟩
  · intro event hevent
    rw [hwaiting] at hevent
    rcases List.mem_append.mp hevent with hevent | hevent
    · exact hfollowing.words event hevent
    · obtain ⟨i, hi, rfl⟩ := List.mem_mapIdx.mp hevent
      cases (moduleChanges t.tracker.live (takeSnapshot mainExecutablePath infos))[i] with
      | load image => exact (hnow i).2
      | unload image => exact (hnow i).2
  · refine ⟨layout, changes ++ moduleChanges t.tracker.live _, hbooks, ?_,
      RangeTable.carries_append.mpr
        ⟨_, hcarries, moduleChanges_carries hfollowing.snapshot hcurrent⟩⟩
    rw [hwaiting]
    exact List.rel_append htells (moduleChanges_tells hcurrent fun i => (hnow i).1)

theorem Followed.perform {infos : List DlPhdrInfo}
    (h : Followed options (takeSnapshot mainExecutablePath infos) t) {action : TrackedAction}
    (hallowed : Allowed options mainExecutablePath action)
    (hrun : TrackedWriter.perform options mainExecutablePath action t = .ok () t') :
    Followed options (takeSnapshot mainExecutablePath (lastPolled infos [action])) t' := by
  cases action with
  | poll now polled =>
      obtain rfl := run_modify_eq_ok.mp hrun
      exact h.poll hallowed.1 hallowed.2
  | pollFailed =>
      obtain rfl := run_modify_eq_ok.mp hrun
      intro hnothing
      cases hnothing.1
  | event raw =>
      obtain ⟨_, m, hdrain, hprocess⟩ := run_bind_eq_ok.mp hrun
      exact (h.drain hdrain).onWriter (fun _ _ hx => processEvent_modulesKept hx) hprocess
  | drain => exact h.drain hrun
  | moduleDrops => exact h.moduleDrops hrun
  | queueDrops count =>
      refine h.onWriter (fun _ _ hx => ?_) hrun
      rw [collectQueueDrops_ok hx]
      exact .same rfl rfl rfl rfl rfl rfl rfl
  | flushTick => exact h.onWriter (fun _ _ hx => flushTick_modulesKept hx) hrun
  | memory now samples =>
      exact h.onWriter (fun _ _ hx => captureMemorySnapshot_modulesKept hx) hrun

theorem lastPolled_cons (infos : List DlPhdrInfo) (action : TrackedAction)
    (actions : List TrackedAction) :
    lastPolled infos (action :: actions) = lastPolled (lastPolled infos [action]) actions := by
  cases action <;> rfl

theorem Followed.performAll {infos : List DlPhdrInfo}
    (h : Followed options (takeSnapshot mainExecutablePath infos) t) {actions : List TrackedAction}
    (hallowed : ∀ action ∈ actions, Allowed options mainExecutablePath action) {u : Unit}
    (hrun : actions.forM (TrackedWriter.perform options mainExecutablePath) t = .ok u t') :
    Followed options (takeSnapshot mainExecutablePath (lastPolled infos actions)) t' := by
  induction actions generalizing infos t with
  | nil =>
      obtain ⟨-, rfl⟩ := run_pure_eq_ok.mp hrun
      exact h
  | cons action actions ih =>
      obtain ⟨_, m, hperform, hrest⟩ := run_bind_eq_ok.mp hrun
      rw [lastPolled_cons]
      exact ih (h.perform (hallowed action List.mem_cons_self) hperform)
        (fun other hother => hallowed other (List.mem_cons_of_mem _ hother)) hrest

/-! ## The beginning -/

/-- A writer that has recorded nothing. -/
theorem start_moduleBooks (options : WriterOptions) :
    ModuleBooks options (fun _ => none) (.start options) where
  sorted := .nil
  live := fun _ => rfl
  mapped := by
    intro base image himage
    cases himage
  identified := by
    intro entry hentry
    cases hentry
  next := Nat.one_ne_zero
  written := ⟨{}, rfl⟩
  buffered := by
    intro _
    refine ⟨{}, rfl, rfl, ?_, fun _ _ => rfl, Nat.le_refl _⟩
    intro entry hentry
    cases hentry

/-- Events in line, recorded one after the other. -/
theorem ModuleBooks.processedAll {events : List RawModuleEvent}
    {changes : List (RangeChange ModuleIdentity)} (h : ModuleBooks options layout t.writer)
    (htells : List.Forall₂ (Tells options) changes events)
    (hcarries : RangeTable.Carries ModuleIdentity.base ModuleIdentity.size layout changes target)
    {u : Unit}
    (hrun : events.forM (fun event => onWriter (processModuleEvent options event)) t = .ok u t') :
    ModuleBooks options target t'.writer ∧ t'.tracker = t.tracker ∧
      t'.pendingModuleEvent = t.pendingModuleEvent := by
  induction htells generalizing layout t with
  | nil =>
      obtain ⟨-, rfl⟩ := run_pure_eq_ok.mp hrun
      exact ⟨hcarries ▸ h, rfl, rfl⟩
  | cons htell htells ih =>
      obtain ⟨_, m, hprocess, hrest⟩ := run_bind_eq_ok.mp hrun
      obtain ⟨hprocess, htracker, hpending⟩ := onWriter_ok hprocess
      obtain ⟨hbooks, htrackers, hpendings⟩ :=
        ih (h.processed htell hcarries.1 hprocess) hcarries.2 hrest
      exact ⟨hbooks, htrackers.trans htracker, hpendings.trans hpending⟩

/-- The first snapshot is told by loads alone. -/
theorem first_carries (hsnapshot : Snapshot images) :
    RangeTable.Carries ModuleIdentity.base ModuleIdentity.size (fun _ => none)
      (images.map .load) (RangeTable.ofList ModuleIdentity.base images) := by
  have hnone : RangeTable.Apart ModuleIdentity.base ModuleIdentity.size [] :=
    ⟨.nil, fun range hrange => by cases hrange⟩
  have hcarries := RangeTable.difference_carries hnone hsnapshot.apart
  have hloads : RangeTable.difference ModuleIdentity.base [] images = images.map .load := by
    show [] ++ images.flatMap (fun image => [RangeChange.load image]) = images.map RangeChange.load
    rw [List.nil_append, List.map_eq_flatMap]
  rwa [hloads] at hcarries

/-- A capture that has begun follows the first snapshot. -/
theorem begun_follows {trackerOrigin queueCapacity : ℕ} {baselines : List MemoryBaseline}
    (hsnapshot : Snapshot images)
    (hrun : (do
      onWriter (beginCapture options baselines)
      processInitialModules options : TrackedM Unit)
        (TrackedWriter.start options trackerOrigin queueCapacity images) = .ok () t) :
    Followed options images t := by
  obtain ⟨_, m, hbegin, hrun⟩ := run_bind_eq_ok.mp hrun
  obtain ⟨hbegin, hmtracker, hmpending⟩ := onWriter_ok hbegin
  obtain ⟨_, _, hget, hrun⟩ := run_bind_eq_ok.mp hrun
  obtain ⟨rfl, rfl⟩ := run_get_eq_ok.mp hget
  obtain ⟨_, k, hevents, hdrops⟩ := run_bind_eq_ok.mp hrun
  have hbooks : ModuleBooks options (fun _ => none) m.writer :=
    (start_moduleBooks options).kept (beginCapture_modulesKept hbegin)
  have htells : List.Forall₂ (Tells options) (images.map .load) m.tracker.initial := by
    rw [hmtracker]
    refine List.forall₂_map_left_iff.mpr (List.forall₂_map_right_iff.mpr ?_)
    refine List.forall₂_same.mpr fun image himage => ?_
    exact .load image trackerOrigin true (hsnapshot.mapped image himage)
      fun hinitial => absurd hinitial (Bool.noConfusion)
  obtain ⟨hbooks, hktracker, hkpending⟩ :=
    hbooks.processedAll htells (first_carries hsnapshot) hevents
  have hlive : k.tracker.live = images := by
    rw [hktracker, hmtracker]
    rfl
  have hwaiting : k.waiting = [] := by
    unfold waiting
    rw [hkpending, hmpending, hktracker, hmtracker]
    rfl
  have hfollowed : Followed options images k := by
    refine fun _ => ⟨⟨hlive ▸ hsnapshot, ?_, ?_⟩, hlive⟩
    · rw [hwaiting]
      intro event hevent
      cases hevent
    · rw [hwaiting, hlive]
      exact ⟨_, [], hbooks, .nil, rfl⟩
  exact hfollowed.moduleDrops hdrops

/-! ## What the analyzer sees -/

/-- The analyzer's live modules are the modules of a snapshot, and the writer's frames
point into them. -/
structure ShowsModules (images : List ModuleIdentity) (w : LinuxTraceWriter)
    (table : ModuleTable) : Prop where
  known : ∀ entry ∈ table.live, ∃ image ∈ images, image.base = entry.1
  recorded : ∀ image ∈ images, ∃ id load, (image.base, id) ∈ table.live ∧
    table.states id = some { load := load } ∧ Records image load
  frames : ∀ address, checkFrame table (w.normalizeFrame address) = .ok ()
  inside : ∀ image ∈ images, ∀ address, image.base ≤ address → address < image.base + image.size →
    ∃ load, table.states (w.normalizeFrame address).moduleId = some { load := load } ∧
      Records image load ∧ (w.normalizeFrame address).moduleOffset = address - image.base
  outside : ∀ address, (∀ image ∈ images, ¬ (image.base ≤ address ∧
    address < image.base + image.size)) → w.normalizeFrame address = { absoluteAddress := address }

/-- The frame of an address: in a live module that holds it, or in none. -/
theorem normalizeFrame_cases (address : ℕ) :
    (∃ entry ∈ w.liveModules, (entry.1 ≤ address ∧ address < entry.1 + entry.2.size) ∧
      w.normalizeFrame address =
        { moduleId := entry.2.moduleId
          moduleOffset := address - entry.1
          absoluteAddress := address }) ∨
    ((∀ entry ∈ w.liveModules.floor address, address ≥ entry.1 + entry.2.size) ∧
      w.normalizeFrame address = { absoluteAddress := address }) := by
  unfold normalizeFrame
  cases hfloor : w.liveModules.floor address with
  | none => exact .inr ⟨fun entry hentry => (by cases hentry), rfl⟩
  | some entry =>
      obtain ⟨hmem, hle⟩ := SortedMap.mem_of_floor hfloor
      by_cases hinside : entry.1 ≤ address ∧ address - entry.1 < entry.2.size
      · exact .inl ⟨entry, hmem, ⟨hle, by omega⟩, if_pos hinside⟩
      · refine .inr ⟨?_, if_neg hinside⟩
        intro other hother
        obtain rfl := Option.some.inj hother
        omega

/-- Once nothing waits, the writer's modules are those of the last poll, and the analyzer
makes them of the file and the buffer. -/
theorem Following.shows (h : Following options t) (hwaiting : t.waiting = [])
    (hbelow : t.writer.fileLimitReached = false) :
    ∃ table, replay options (fileModules t.writer ++ t.writer.modulePayload) = .ok table ∧
      ShowsModules t.tracker.live t.writer table := by
  obtain ⟨layout, changes, hbooks, htells, hcarries⟩ := h.carried
  rw [hwaiting] at htells
  cases htells
  obtain rfl : layout = RangeTable.ofList ModuleIdentity.base t.tracker.live := hcarries
  obtain ⟨table, hreplay, hmirrors⟩ := hbooks.buffered hbelow
  have hentry : ∀ entry ∈ t.writer.liveModules, ∃ image ∈ t.tracker.live, ∃ load,
      image.base = entry.1 ∧ image.size = entry.2.size ∧
      table.states entry.2.moduleId = some { load := load } ∧ Records image load := by
    intro entry hentry
    obtain ⟨load, image, hstate, himage, hrecord, -⟩ := hmirrors.states entry hentry
    obtain ⟨hmem, hbase⟩ := RangeTable.ofList_some himage
    have hsize := hbooks.live entry.1
    rw [SortedMap.lookup_of_mem hbooks.sorted hentry, himage] at hsize
    exact ⟨image, hmem, load, hbase, (Option.some.inj hsize).symm, hstate, hrecord⟩
  have himage : ∀ image ∈ t.tracker.live,
      ∃ existing, (image.base, existing) ∈ t.writer.liveModules := by
    intro image hmem
    obtain ⟨existing, hexisting⟩ :=
      hbooks.lookup.mpr ⟨image, h.snapshot.apart.ofList_mem hmem⟩
    exact ⟨existing, SortedMap.mem_of_lookup hexisting⟩
  have hsame : ∀ first ∈ t.tracker.live, ∀ second ∈ t.tracker.live, first.base = second.base →
      first = second := by
    intro first hfirst second hsecond hbase
    have hfound := h.snapshot.apart.ofList_mem hfirst
    rw [hbase, h.snapshot.apart.ofList_mem hsecond] at hfound
    exact (Option.some.inj hfound).symm
  refine ⟨table, hreplay, ?_, ?_, ?_, ?_, ?_⟩
  · intro entry hmem
    rw [hmirrors.live] at hmem
    obtain ⟨existing, hexisting, -⟩ := SortedMap.mem_mapValues.mp hmem
    obtain ⟨image, himage, -, hbase, -⟩ := hentry _ hexisting
    exact ⟨image, himage, hbase⟩
  · intro image hmem
    obtain ⟨existing, hexisting⟩ := himage image hmem
    obtain ⟨other, hother, load, hbase, -, hstate, hrecord⟩ := hentry _ hexisting
    obtain rfl := hsame other hother image hmem hbase
    refine ⟨existing.moduleId, load, ?_, hstate, hrecord⟩
    rw [hmirrors.live]
    exact SortedMap.mem_mapValues.mpr ⟨existing, hexisting, rfl⟩
  · intro address
    rcases normalizeFrame_cases (w := t.writer) address with ⟨entry, hmem, hinside, hframe⟩ |
      ⟨-, hframe⟩
    · obtain ⟨image, -, load, hbase, hsize, hstate, hrecord⟩ := hentry entry hmem
      rw [hframe]
      unfold checkFrame
      rw [if_neg (hbooks.identified entry hmem), hstate]
      refine failIf_of_not ?_
      show ¬ (load.imageSize ≤ address - entry.1 ∨
        load.baseAddress + (address - entry.1) ≠ address)
      rw [hrecord.base, hrecord.size, hbase, hsize]
      omega
    · rw [hframe]
      rfl
  · intro image hmem address hle hlt
    obtain ⟨existing, hexisting⟩ := himage image hmem
    obtain ⟨other, hother, load, hbase, hsize, hstate, hrecord⟩ := hentry _ hexisting
    obtain rfl := hsame other hother image hmem hbase
    -- another live module up to the address would begin inside this one
    have hfloor : t.writer.liveModules.floor address = some (other.base, existing) := by
      refine SortedMap.floor_eq hbooks.sorted hexisting hle fun found hfound hfoundle => ?_
      obtain ⟨held, hheld, -, hheldbase, -⟩ := hentry found hfound
      by_contra habove
      have hbelow := h.snapshot.apart.below hother hheld (by omega)
      omega
    have hframe : t.writer.normalizeFrame address =
        { moduleId := existing.moduleId
          moduleOffset := address - other.base
          absoluteAddress := address } := by
      have hinside : other.base ≤ address ∧ address - other.base < existing.size := by
        rw [← show other.size = existing.size from hsize]
        omega
      unfold normalizeFrame
      rw [hfloor]
      exact if_pos hinside
    rw [hframe]
    exact ⟨load, hstate, hrecord, rfl⟩
  · intro address houtside
    rcases normalizeFrame_cases (w := t.writer) address with ⟨entry, hmem, hinside, hframe⟩ |
      ⟨-, hframe⟩
    · obtain ⟨image, himage, load, hbase, hsize, -⟩ := hentry entry hmem
      rw [← hbase, ← hsize] at hinside
      exact absurd hinside (houtside image himage)
    · exact hframe

/-- Events whose times are words are all due at the end of time. -/
theorem Following.nothing_waits (h : Following options t) (hlater : Later maxU64 t) :
    t.waiting = [] := by
  cases hwaiting : t.waiting with
  | nil => rfl
  | cons event events =>
      have hlate : maxU64 < event.monotonicTicks := hlater event (by rw [hwaiting]; rfl)
      have hword := h.words event (by rw [hwaiting]; exact List.mem_cons_self)
      omega

/-- The modules of a capture, for every order of polls, drains, events, flushes and samples
without a dropped notification: the module records in the file are accepted by the analyzer;
a drain fails only where the output or a counter does, never on an event of the tracker; and
after a drain below the file limit the analyzer's live modules are those of the last poll,
and every address is resolved to the module that holds it. -/
theorem modules_follow_the_process {trackerOrigin queueCapacity : ℕ} {infos : List DlPhdrInfo}
    {baselines : List MemoryBaseline} {actions : List TrackedAction}
    (hinfos : LinkMap mainExecutablePath infos)
    (hallowed : ∀ action ∈ actions, Allowed options mainExecutablePath action)
    (hrun : TrackedWriter.capture options mainExecutablePath baselines actions
      (.start options trackerOrigin queueCapacity (takeSnapshot mainExecutablePath infos)) =
        .ok () t)
    (hnothing : NothingDropped t) :
    (∃ table, replay options (fileModules t.writer) = .ok table) ∧
      (∀ e t', drainModulesThrough options maxU64 t = .error e t' → FileFault e) ∧
      ∀ t', drainModulesThrough options maxU64 t = .ok () t' →
        t'.writer.fileLimitReached = false →
        ∃ table, replay options (fileModules t'.writer ++ t'.writer.modulePayload) = .ok table ∧
          ShowsModules (takeSnapshot mainExecutablePath (lastPolled infos actions)) t'.writer
            table := by
  obtain ⟨_, m, hbegin, hrest⟩ := run_bind_eq_ok.mp hrun
  obtain ⟨_, k, hinitial, hactions⟩ := run_bind_eq_ok.mp hrest
  have hk : Followed options (takeSnapshot mainExecutablePath infos) k :=
    begun_follows (takeSnapshot_snapshot hinfos) (run_bind_eq_ok.mpr ⟨_, m, hbegin, hinitial⟩)
  obtain ⟨hfollowing, hlive⟩ := hk.performAll hallowed hactions hnothing
  refine ⟨?_, fun e t' hdrain => drainModulesThrough_fault hfollowing hdrain, ?_⟩
  · obtain ⟨layout, changes, hbooks, -⟩ := hfollowing.carried
    exact hbooks.written
  · intro t' hdrain hbelow
    obtain ⟨hend, hlater⟩ := drainModulesThrough_ok hfollowing hdrain
    obtain ⟨table, hreplay, hshows⟩ := hend.shows (hend.nothing_waits hlater) hbelow
    rw [(drainModulesThrough_same hdrain).live, hlive] at hshows
    exact ⟨table, hreplay, hshows⟩

/-- A module of one segment. -/
def sampleInfo (addr memsz : ℕ) (name : Bytes) : DlPhdrInfo where
  addr := addr
  name := name
  headers := [⟨ptLoad, 0, memsz⟩]

/-- An executable and a library. -/
def sampleInfos : List DlPhdrInfo := [sampleInfo 8192 4096 [97], sampleInfo 4096 4096 []]

/-- The library makes room for a larger one. -/
def laterInfos : List DlPhdrInfo := [sampleInfo 4096 4096 [], sampleInfo 8192 8192 [98]]

theorem sampleInfos_linkMap : LinkMap [47] sampleInfos where
  disjoint := by decide
  mapped := by decide
  executable := by decide
  names := by decide

theorem laterInfos_linkMap : LinkMap [47] laterInfos where
  disjoint := by decide
  mapped := by decide
  executable := by decide
  names := by decide

/-- A library is replaced between two allocations. -/
def sampleActions : List TrackedAction :=
  [.poll (fun _ => 11) sampleInfos, .event (sampleAllocation 1), .drain,
    .poll (fun i => 12 + i % 2) laterInfos, .event (sampleAllocation 2)]

theorem modules_follow_the_process_replaced :
    ∃ t, TrackedWriter.capture sampleOptions [47] [] sampleActions
        (.start sampleOptions 9 4 (takeSnapshot [47] sampleInfos)) = .ok () t ∧
      (t.waiting.length = 1 ∧ t.writer.pendingEventCount = 1) ∧
      (∃ table, replay sampleOptions (fileModules t.writer) = .ok table) ∧
      (∀ e t', drainModulesThrough sampleOptions maxU64 t = .error e t' → FileFault e) ∧
      ∀ t', drainModulesThrough sampleOptions maxU64 t = .ok () t' →
        t'.writer.fileLimitReached = false →
        ∃ table, replay sampleOptions (fileModules t'.writer ++ t'.writer.modulePayload) =
            .ok table ∧
          ShowsModules (takeSnapshot [47] laterInfos) t'.writer table := by
  have hrun : wp (TrackedWriter.capture sampleOptions [47] [] sampleActions)
      (fun _ t => (t.tracker.dropped = 0 ∧ t.writer.moduleNotificationDrops = 0) ∧
        t.waiting.length = 1 ∧ t.writer.pendingEventCount = 1)
      (fun _ _ => False) (.start sampleOptions 9 4 (takeSnapshot [47] sampleInfos)) := by
    decide +kernel
  obtain ⟨_, t, hrun, hnothing, hwaiting⟩ := wp_run hrun
  refine ⟨t, hrun, hwaiting, modules_follow_the_process sampleInfos_linkMap ?_ hrun hnothing⟩
  intro action haction
  have hnow : ∀ i, 10 ≤ 12 + i % 2 ∧ 12 + i % 2 ≤ maxU64 := fun i =>
    ⟨by omega, Nat.le_trans (by omega : 12 + i % 2 ≤ 13) (by decide)⟩
  unfold sampleActions at haction
  simp only [List.mem_cons, List.not_mem_nil, or_false] at haction
  rcases haction with rfl | rfl | rfl | rfl | rfl
  · have hsecond : 10 ≤ 11 ∧ 11 ≤ maxU64 := by decide
    exact ⟨sampleInfos_linkMap, fun _ => hsecond⟩
  · trivial
  · trivial
  · exact ⟨laterInfos_linkMap, hnow⟩
  · trivial

end Noleax.Capture
