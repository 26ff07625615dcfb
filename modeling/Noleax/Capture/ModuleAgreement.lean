import Noleax.Capture.ModuleLedger

/-!
# The writer's modules and the analyzer's

One event that fits the modules of the process is recorded by the writer, the analyzer
accepts the record, and the three tables agree again.
-/

namespace Noleax.Capture

open Lib Trace Agent Agent.LinuxTraceWriter Analyzer

variable {options : WriterOptions} {w w' : LinuxTraceWriter}
  {layout : RangeTable ModuleIdentity}

/-! ## The analyzer's table -/

/-- What the analyzer makes of module records. -/
def replay (options : WriterOptions) (records : List ModuleRecord) : Except Error ModuleTable :=
  records.foldlM (ModuleTable.step options.monotonicOrigin) {}

/-- The analyzer's table after one more record. -/
theorem replay_snoc {records : List ModuleRecord} {table table' : ModuleTable}
    {record : ModuleRecord} (h : replay options records = .ok table)
    (hstep : table.step options.monotonicOrigin record = .ok table') :
    replay options (records ++ [record]) = .ok table' := by
  unfold replay at h ⊢
  rw [List.foldlM_append, h, ok_bind, List.foldlM_cons, hstep]
  rfl

def loadedTable (table : ModuleTable) (load : ModuleLoad) : ModuleTable where
  states := Function.update table.states load.moduleId (some { load := load })
  live := table.live.insert load.baseAddress load.moduleId
  previousTicks := load.monotonicTicks

def unloadedTable (table : ModuleTable) (load : ModuleLoad) (unload : ModuleUnload) :
    ModuleTable where
  states := Function.update table.states unload.moduleId (some { load := load, live := false })
  live := table.live.erase load.baseAddress
  previousTicks := unload.monotonicTicks

/-- A load of a fresh module next to the live ones. -/
theorem step_load {table : ModuleTable} {load : ModuleLoad} {origin : ℕ}
    (horigin : origin ≤ load.monotonicTicks) (hprevious : table.previousTicks ≤ load.monotonicTicks)
    (hfresh : table.states load.moduleId = none) (hsize : 0 < load.imageSize)
    (hclear : ∀ entry ∈ table.live, ∃ state, table.states entry.2 = some state ∧
      state.load.baseAddress = entry.1 ∧ 0 < state.load.imageSize ∧
      (entry.1 + state.load.imageSize ≤ load.baseAddress ∨
        load.baseAddress + load.imageSize ≤ entry.1)) :
    table.step origin (.load load) = .ok (loadedTable table load) := by
  have hnext : ¬ ∃ next ∈ table.live.lowerBound load.baseAddress,
      ∀ state ∈ table.states next.2,
        state.load.baseAddress < load.baseAddress + load.imageSize := by
    intro hoverlap
    obtain ⟨next, hlower, hoverlap⟩ := hoverlap
    obtain ⟨hmem, hle⟩ := SortedMap.mem_of_lowerBound hlower
    obtain ⟨state, hstate, hbase, hfilled, happart⟩ := hclear next hmem
    have := hoverlap state hstate
    omega
  have hbefore : ¬ ∃ previous ∈ table.live.before load.baseAddress,
      ∀ state ∈ table.states previous.2,
        load.baseAddress < state.load.baseAddress + state.load.imageSize := by
    intro hoverlap
    obtain ⟨previous, hlower, hoverlap⟩ := hoverlap
    obtain ⟨hmem, hlt⟩ := SortedMap.mem_of_before hlower
    obtain ⟨state, hstate, hbase, hfilled, happart⟩ := hclear previous hmem
    have := hoverlap state hstate
    omega
  have hbase : ¬ table.live.Contains load.baseAddress := by
    intro hlive
    obtain ⟨entry, hmem, heq⟩ := hlive
    obtain ⟨state, -, -, hfilled, happart⟩ := hclear entry hmem
    omega
  show (do
    failIf (load.monotonicTicks < origin) _
    failIf (load.monotonicTicks < table.previousTicks) _
    ModuleTable.loadModule { table with previousTicks := load.monotonicTicks } load) = _
  rw [failIf_of_not (Nat.not_lt.mpr horigin), ok_bind, failIf_of_not (Nat.not_lt.mpr hprevious),
    ok_bind]
  unfold ModuleTable.loadModule ModuleTable.validateModuleRange
  dsimp only
  rw [hfresh, failIf_of_not (by simp), ok_bind, failIf_of_not hnext, ok_bind,
    failIf_of_not hbefore, ok_bind, failIf_of_not hbase]
  rfl

/-- An unload of a live module. -/
theorem step_unload {table : ModuleTable} {load : ModuleLoad} {unload : ModuleUnload} {origin : ℕ}
    (horigin : origin ≤ unload.monotonicTicks)
    (hprevious : table.previousTicks ≤ unload.monotonicTicks)
    (hstate : table.states unload.moduleId = some { load := load })
    (hload : load.monotonicTicks ≤ unload.monotonicTicks) :
    table.step origin (.unload unload) = .ok (unloadedTable table load unload) := by
  show (do
    failIf (unload.monotonicTicks < origin) _
    failIf (unload.monotonicTicks < table.previousTicks) _
    ModuleTable.unloadModule { table with previousTicks := unload.monotonicTicks } unload) = _
  rw [failIf_of_not (Nat.not_lt.mpr horigin), ok_bind, failIf_of_not (Nat.not_lt.mpr hprevious),
    ok_bind]
  unfold ModuleTable.unloadModule
  dsimp only
  rw [hstate]
  show (failIf (unload.monotonicTicks < load.monotonicTicks) _ >>= fun _ => _) = _
  rw [failIf_of_not (Nat.not_lt.mpr hload)]
  rfl

/-! ## The three tables -/

/-- The record of a module holds its range and what an event can carry of its path. -/
structure Records (image : ModuleIdentity) (load : ModuleLoad) : Prop where
  base : load.baseAddress = image.base
  size : load.imageSize = image.size
  path : load.imagePath = image.path.take (maximumRawModulePathBytes - 1)

/-- The analyzer's table is the writer's, and its records tell of the process's modules. -/
structure Mirrors (layout : RangeTable ModuleIdentity) (w : LinuxTraceWriter)
    (table : ModuleTable) : Prop where
  live : table.live = w.liveModules.mapValues LiveModule.moduleId
  states : ∀ entry ∈ w.liveModules, ∃ load image,
    table.states entry.2.moduleId = some { load := load } ∧ layout entry.1 = some image ∧
      Records image load ∧ load.monotonicTicks ≤ w.lastModuleTicks
  fresh : ∀ id, w.nextModuleId ≤ id → table.states id = none
  ticks : table.previousTicks ≤ w.lastModuleTicks

/-- The writer's table is the process's, the file is accepted, and below the limit file
and buffer make the analyzer's table. -/
structure ModuleBooks (options : WriterOptions) (layout : RangeTable ModuleIdentity)
    (w : LinuxTraceWriter) : Prop where
  sorted : w.liveModules.Sorted
  live : ∀ base, (w.liveModules.lookup base).map LiveModule.size =
    (layout base).map ModuleIdentity.size
  mapped : ∀ base image, layout base = some image → image.base = base ∧ image.Mapped
  identified : ∀ entry ∈ w.liveModules, entry.2.moduleId ≠ 0
  next : w.nextModuleId ≠ 0
  written : ∃ table, replay options (fileModules w) = .ok table
  buffered : w.fileLimitReached = false →
    ∃ table, replay options (fileModules w ++ w.modulePayload) = .ok table ∧
      Mirrors layout w table

theorem Mirrors.kept {table : ModuleTable} (h : Mirrors layout w table) (hkept : ModulesKept w w') :
    Mirrors layout w' table where
  live := by
    rw [hkept.liveModules]
    exact h.live
  states := by
    rw [hkept.liveModules, hkept.lastModuleTicks]
    exact h.states
  fresh := by
    rw [hkept.nextModuleId]
    exact h.fresh
  ticks := by
    rw [hkept.lastModuleTicks]
    exact h.ticks

theorem ModuleBooks.kept (h : ModuleBooks options layout w) (hkept : ModulesKept w w') :
    ModuleBooks options layout w' where
  sorted := by
    rw [hkept.liveModules]
    exact h.sorted
  live := by
    rw [hkept.liveModules]
    exact h.live
  mapped := h.mapped
  identified := by
    rw [hkept.liveModules]
    exact h.identified
  next := by
    rw [hkept.nextModuleId]
    exact h.next
  written := by
    rcases hkept.written with hsame | ⟨hbelow, hall⟩
    · rw [hsame]
      exact h.written
    · rw [hall]
      obtain ⟨table, hreplay, -⟩ := h.buffered hbelow
      exact ⟨table, hreplay⟩
  buffered := by
    intro hbelow
    obtain ⟨table, hreplay, hmirrors⟩ := h.buffered (hkept.below hbelow)
    rw [hkept.buffered hbelow]
    exact ⟨table, hreplay, hmirrors.kept hkept⟩

/-- A live module of the process is live for the writer, and the other way round. -/
theorem ModuleBooks.lookup (h : ModuleBooks options layout w) {base : ℕ} :
    (∃ existing, w.liveModules.lookup base = some existing) ↔
      ∃ image, layout base = some image := by
  have hlive := h.live base
  constructor
  · intro hfound
    obtain ⟨existing, hfound⟩ := hfound
    rw [hfound] at hlive
    obtain ⟨image, himage, -⟩ := Option.map_eq_some_iff.mp hlive.symm
    exact ⟨image, himage⟩
  · intro himage
    obtain ⟨image, himage⟩ := himage
    rw [himage] at hlive
    obtain ⟨existing, hfound, -⟩ := Option.map_eq_some_iff.mp hlive
    exact ⟨existing, hfound⟩

/-- A base without a module of the process is free for the writer. -/
theorem ModuleBooks.free (h : ModuleBooks options layout w) {base : ℕ}
    (hfree : layout base = none) : ¬ w.liveModules.Contains base := by
  intro hlive
  obtain ⟨entry, hmem, rfl⟩ := hlive
  obtain ⟨image, himage⟩ := h.lookup.mp ⟨_, SortedMap.lookup_of_mem h.sorted hmem⟩
  rw [hfree] at himage
  cases himage

/-! ## The events of the tracker -/

/-- The event that tells of a change, at a time the file can hold. -/
inductive Tells (options : WriterOptions) : RangeChange ModuleIdentity → RawModuleEvent → Prop
  | load (image : ModuleIdentity) (ticks : ℕ) (initialSnapshot : Bool) (hmapped : image.Mapped)
      (hticks : initialSnapshot = false → options.monotonicOrigin ≤ ticks) :
      Tells options (.load image) (makeEvent image .load ticks initialSnapshot)
  | unload (image : ModuleIdentity) (ticks : ℕ) (hticks : options.monotonicOrigin ≤ ticks) :
      Tells options (.unload image) (makeEvent image .unload ticks false)

/-- The record of an event is at or after the origin and the record before. -/
theorem moduleTicks_tells {change : RangeChange ModuleIdentity} {raw : RawModuleEvent}
    (h : Tells options change raw) :
    ∃ ticks, w.moduleTicks options raw = .ok ticks ∧ options.monotonicOrigin ≤ ticks ∧
      w.lastModuleTicks ≤ ticks := by
  have hinitial : raw.initialSnapshot = false → options.monotonicOrigin ≤ raw.monotonicTicks := by
    cases h with
    | load image ticks initialSnapshot hmapped hticks => exact hticks
    | unload image ticks hticks => exact fun _ => hticks
  unfold moduleTicks
  rw [failIf_of_not (by
    intro hearly
    have := hinitial hearly.1
    omega), ok_bind]
  refine ⟨_, rfl, ?_, le_max_right ..⟩
  cases hsnapshot : raw.initialSnapshot with
  | true => exact le_max_of_le_left (le_max_right ..)
  | false => exact le_max_of_le_left (hinitial hsnapshot)

/-- What the writer makes of the load of a module. -/
theorem moduleLoad_records {image : ModuleIdentity} (h : image.Mapped) (ticks id time : ℕ)
    (initialSnapshot : Bool) :
    Records image (moduleLoad (makeEvent image .load ticks initialSnapshot) id time) := by
  have hpath : image.path.take (maximumRawModulePathBytes - 1) ≠ [] := by
    intro hnil
    rcases List.take_eq_nil_iff.mp hnil with hzero | hnil
    · cases hzero
    · exact h.path hnil
  exact ⟨rfl, rfl, if_neg hpath⟩

/-- A load without identities that the codec takes. -/
theorem validateModuleLoad_ok {load : ModuleLoad} (hid : load.moduleId ≠ 0)
    (hbase : load.baseAddress ≠ 0) (hsize : 0 < load.imageSize)
    (hfits : load.baseAddress + load.imageSize ≤ maxU64) (hpath : load.imagePath ≠ [])
    (hterminated : 0 ∉ load.imagePath) (hflags : load.flags ≤ knownModuleLoadFlags)
    (hidentity : load.imageIdentity = none) (hpdb : load.pdbPath = []) :
    validateModuleLoad load = .ok () := by
  unfold validateModuleLoad validateModuleString
  rw [hpdb, hidentity, failIf_of_not hid, ok_bind, failIf_of_not (by omega), ok_bind,
    failIf_of_not (fun hnil => hpath hnil.2), ok_bind, failIf_of_not hterminated, ok_bind,
    failIf_of_not (fun hnil => Bool.false_ne_true hnil.1), ok_bind,
    failIf_of_not List.not_mem_nil, ok_bind, failIf_of_not (Nat.not_lt.mpr hflags), ok_bind,
    failIf_of_not (by simp), ok_bind, failIf_of_not (fun hpath => hpath.2 rfl)]

theorem moduleLoad_valid {image : ModuleIdentity} (h : image.Mapped) (ticks time : ℕ) {id : ℕ}
    (initialSnapshot : Bool) (hid : id ≠ 0) :
    validateModuleLoad (moduleLoad (makeEvent image .load ticks initialSnapshot) id time) =
      .ok () := by
  have hrecords := moduleLoad_records h ticks id time initialSnapshot
  refine validateModuleLoad_ok hid h.base h.size h.fits ?_ ?_ ?_ rfl rfl
  · rw [hrecords.path]
    intro hnil
    rcases List.take_eq_nil_iff.mp hnil with hzero | hnil
    · cases hzero
    · exact h.path hnil
  · rw [hrecords.path]
    exact fun hmem => h.terminated (List.mem_of_mem_take hmem)
  · show (if _ then pathTruncatedFlag else 0) ≤ knownModuleLoadFlags
    split
    · decide
    · decide

/-! ## One event -/

/-- The load of a module that is clear of the others. -/
theorem ModuleBooks.loaded (h : ModuleBooks options layout w) {image : ModuleIdentity}
    {ticks time : ℕ} {initialSnapshot : Bool} (hmapped : image.Mapped)
    (hfits : RangeTable.Fits ModuleIdentity.base ModuleIdentity.size layout (.load image))
    (horigin : options.monotonicOrigin ≤ time) (hlast : w.lastModuleTicks ≤ time) :
    ModuleBooks options (RangeTable.apply ModuleIdentity.base layout (.load image))
      { w.loadedModule (makeEvent image .load ticks initialSnapshot) time with
        lastModuleTicks := time } where
  sorted := SortedMap.sorted_insert h.sorted _ (h.free hfits.1)
  live := by
    intro base
    show ((w.liveModules.insert image.base ⟨w.nextModuleId, image.size⟩).lookup base).map
      LiveModule.size = (Function.update layout image.base (some image) base).map _
    by_cases hbase : base = image.base
    · subst hbase
      rw [SortedMap.lookup_insert_self h.sorted _ (h.free hfits.1), Function.update_self]
      rfl
    · rw [SortedMap.lookup_insert_of_ne h.sorted _ (h.free hfits.1) hbase,
        Function.update_of_ne hbase]
      exact h.live base
  mapped := by
    intro base other hother
    rcases SortedMap.update_some_cases hother with ⟨rfl, rfl⟩ | ⟨-, hother⟩
    · exact ⟨rfl, hmapped⟩
    · exact h.mapped base other hother
  identified := by
    intro entry hentry
    rcases SortedMap.mem_insert.mp hentry with rfl | hentry
    · exact h.next
    · exact h.identified entry hentry
  next := Nat.succ_ne_zero _
  written := h.written
  buffered := by
    intro hbelow
    obtain ⟨table, hreplay, hmirrors⟩ := h.buffered hbelow
    have hrecords := moduleLoad_records hmapped ticks w.nextModuleId time initialSnapshot
    -- the analyzer finds the load clear of its live modules, as the process did
    have hclear : ∀ entry ∈ table.live, ∃ state, table.states entry.2 = some state ∧
        state.load.baseAddress = entry.1 ∧ 0 < state.load.imageSize ∧
        (entry.1 + state.load.imageSize ≤ image.base ∨ image.base + image.size ≤ entry.1) := by
      intro entry hentry
      rw [hmirrors.live] at hentry
      obtain ⟨existing, hexisting, hid⟩ := SortedMap.mem_mapValues.mp hentry
      obtain ⟨load, other, hstate, hother, hrecord, -⟩ := hmirrors.states _ hexisting
      obtain ⟨hbase, hmapped⟩ := h.mapped _ _ hother
      have hapart := hfits.2 _ _ hother
      rw [hid] at hstate
      rw [hbase] at hapart
      refine ⟨_, hstate, hrecord.base.trans hbase, ?_, ?_⟩
      · show 0 < load.imageSize
        rw [hrecord.size]
        exact hmapped.size
      · show entry.1 + load.imageSize ≤ image.base ∨ _
        rw [hrecord.size]
        exact hapart
    refine ⟨loadedTable table (moduleLoad (makeEvent image .load ticks initialSnapshot)
      w.nextModuleId time), ?_, ?_⟩
    · show replay options (fileModules w ++ (w.modulePayload ++ [_])) = _
      rw [← List.append_assoc]
      exact replay_snoc hreplay (step_load horigin (hmirrors.ticks.trans hlast)
        (hmirrors.fresh _ (Nat.le_refl _)) hmapped.size hclear)
    refine ⟨?_, ?_, ?_, Nat.le_refl _⟩
    · show table.live.insert image.base w.nextModuleId =
        (w.liveModules.insert image.base _).mapValues LiveModule.moduleId
      rw [SortedMap.mapValues_insert, hmirrors.live]
    · intro entry hentry
      rcases SortedMap.mem_insert.mp hentry with rfl | hentry
      · exact ⟨_, image, Function.update_self .., Function.update_self .., hrecords, Nat.le_refl _⟩
      · obtain ⟨load, other, hstate, hother, hrecord, hticks⟩ := hmirrors.states entry hentry
        refine ⟨load, other, ?_, ?_, hrecord, hticks.trans hlast⟩
        · show Function.update table.states w.nextModuleId _ entry.2.moduleId = _
          rw [Function.update_of_ne, hstate]
          intro heq
          rw [heq, hmirrors.fresh _ (Nat.le_refl _)] at hstate
          cases hstate
        · show Function.update layout image.base _ entry.1 = _
          rw [Function.update_of_ne, hother]
          intro heq
          exact h.free hfits.1 ⟨entry, hentry, heq⟩
    · intro id hid
      show Function.update table.states w.nextModuleId _ id = none
      rw [Function.update_of_ne (Nat.ne_of_gt hid)]
      exact hmirrors.fresh id (Nat.le_of_succ_le hid)

/-- The unload of a live module. -/
theorem ModuleBooks.unloaded (h : ModuleBooks options layout w) {image : ModuleIdentity}
    {existing : LiveModule} {time : ℕ} (hheld : layout image.base = some image)
    (hlookup : w.liveModules.lookup image.base = some existing)
    (horigin : options.monotonicOrigin ≤ time) (hlast : w.lastModuleTicks ≤ time) :
    ModuleBooks options (RangeTable.apply ModuleIdentity.base layout (.unload image))
      { w.unloadedModule image.base existing.moduleId time with lastModuleTicks := time } where
  sorted := SortedMap.sorted_erase h.sorted _
  live := by
    intro base
    show ((w.liveModules.erase image.base).lookup base).map LiveModule.size =
      (Function.update layout image.base none base).map _
    by_cases hbase : base = image.base
    · subst hbase
      rw [SortedMap.lookup_erase_self, Function.update_self]
      rfl
    · rw [SortedMap.lookup_erase_of_ne h.sorted hbase, Function.update_of_ne hbase]
      exact h.live base
  mapped := by
    intro base other hother
    obtain ⟨-, hother⟩ := SortedMap.update_none_cases hother
    exact h.mapped base other hother
  identified := fun entry hentry => h.identified entry (SortedMap.mem_erase.mp hentry).1
  next := h.next
  written := h.written
  buffered := by
    intro hbelow
    obtain ⟨table, hreplay, hmirrors⟩ := h.buffered hbelow
    have hexisting := SortedMap.mem_of_lookup hlookup
    obtain ⟨load, other, hstate, hother, hrecord, hticks⟩ := hmirrors.states _ hexisting
    rw [show layout image.base = some image from hheld] at hother
    obtain rfl := Option.some.inj hother
    refine ⟨unloadedTable table load ⟨existing.moduleId, time⟩, ?_, ?_⟩
    · show replay options (fileModules w ++ (w.modulePayload ++ [_])) = _
      rw [← List.append_assoc]
      exact replay_snoc hreplay (step_unload horigin (hmirrors.ticks.trans hlast) hstate
        (hticks.trans hlast))
    refine ⟨?_, ?_, ?_, Nat.le_refl _⟩
    · show table.live.erase load.baseAddress =
        (w.liveModules.erase image.base).mapValues LiveModule.moduleId
      rw [SortedMap.mapValues_erase, hmirrors.live, hrecord.base]
    · intro entry hentry
      obtain ⟨hentry, hne⟩ := SortedMap.mem_erase.mp hentry
      obtain ⟨found, other, hfound, hother, hrecord', hticks'⟩ := hmirrors.states entry hentry
      refine ⟨found, other, ?_, ?_, hrecord', hticks'.trans hlast⟩
      · show Function.update table.states existing.moduleId _ entry.2.moduleId = _
        rw [Function.update_of_ne, hfound]
        -- two live modules with one ID would have one record, and so one base
        intro heq
        rw [heq, hstate] at hfound
        obtain rfl := ModuleState.mk.inj (Option.some.inj hfound) |>.1
        apply hne
        rw [← (h.mapped _ _ hother).1, ← hrecord'.base, hrecord.base]
      · show Function.update layout image.base none entry.1 = _
        rw [Function.update_of_ne hne, hother]
    · intro id hid
      show Function.update table.states existing.moduleId _ id = none
      rw [Function.update_of_ne]
      · exact hmirrors.fresh id hid
      · rintro rfl
        rw [hmirrors.fresh _ hid] at hstate
        cases hstate

/-- `settle_module`: the time, and a full buffer goes into the file. -/
theorem ModuleBooks.settled {time : ℕ} {u : Unit}
    (h : ModuleBooks options layout { w with lastModuleTicks := time })
    (hrun : settleModule options time w = .ok u w') : ModuleBooks options layout w' := by
  rcases settleModule_ok hrun with rfl | hflush
  · exact h
  · exact h.kept (flushModulePayload_modulesKept hflush)

/-- An event that fits is recorded. -/
theorem ModuleBooks.processed (h : ModuleBooks options layout w)
    {change : RangeChange ModuleIdentity} {raw : RawModuleEvent} (htells : Tells options change raw)
    (hfits : RangeTable.Fits ModuleIdentity.base ModuleIdentity.size layout change) {u : Unit}
    (hrun : processModuleEvent options raw w = .ok u w') :
    ModuleBooks options (RangeTable.apply ModuleIdentity.base layout change) w' := by
  obtain ⟨-, ticks, hticks, hprocessed⟩ := processModuleEvent_ok hrun
  obtain ⟨time, htime, horigin, hlast⟩ := moduleTicks_tells (w := w) htells
  obtain rfl := Except.ok.inj (hticks.symm.trans htime)
  cases htells with
  | load image stamp initialSnapshot hmapped hstamp =>
      cases hprocessed with
      | load m htype hload hsettle =>
          obtain ⟨-, -, -, k, hflush, -, rfl⟩ := loadModule_ok hload
          have hkept := flushBeforeModule_modulesKept hflush
          rw [← hkept.lastModuleTicks] at hlast
          exact ((h.kept hkept).loaded hmapped hfits horigin hlast).settled hsettle
      | unload existing m htype hlive hunload hsettle => cases htype
      | unknown htype hlive hstate => cases htype
  | unload image stamp hstamp =>
      cases hprocessed with
      | load m htype hload hsettle => cases htype
      | unload existing m htype hlive hunload hsettle =>
          obtain ⟨k, hflush, -, rfl⟩ := unloadModule_ok hunload
          have hkept := flushBeforeModule_modulesKept hflush
          rw [← hkept.lastModuleTicks] at hlast
          rw [← hkept.liveModules] at hlive
          exact ((h.kept hkept).unloaded hfits hlive horigin hlast).settled hsettle
      | unknown htype hlive hstate =>
          obtain ⟨existing, hexisting⟩ := h.lookup.mpr ⟨image, hfits⟩
          rw [show w.liveModules.lookup image.base = none from hlive] at hexisting
          cases hexisting

end Noleax.Capture
