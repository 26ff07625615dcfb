import Noleax.Agent.ModuleDrain
import Noleax.Analyzer.EventStream
import Noleax.Capture.Statistics

/-!
# The module records of a capture

The writer and the analyzer each keep a table of the live modules. As long as the events
fit the table of the process, the records in the file and in the module buffer make the
analyzer's table the writer's, through flushes and the file limit.
-/

namespace Noleax.Capture

open Lib Trace Agent Agent.LinuxTraceWriter Analyzer

variable {options : WriterOptions} {w w' : LinuxTraceWriter}

/-! ## What a step does to the module records -/

/-- The module records of a chunk. -/
def chunkModules (chunk : Chunk) : List ModuleRecord :=
  match chunk.payload with
  | .modules records => records
  | _ => []

/-- The module records in the file. -/
def fileModules (w : LinuxTraceWriter) : List ModuleRecord := w.file.chunks.flatMap chunkModules

/-- A step that adds no module record: it may move the buffer into the file, or lose it
at the limit. -/
structure ModulesKept (w w' : LinuxTraceWriter) : Prop where
  liveModules : w'.liveModules = w.liveModules
  nextModuleId : w'.nextModuleId = w.nextModuleId
  lastModuleTicks : w'.lastModuleTicks = w.lastModuleTicks
  drops : w'.moduleNotificationDrops = w.moduleNotificationDrops
  limit : w.fileLimitReached = true → w'.fileLimitReached = true
  buffered : w'.fileLimitReached = false →
    fileModules w' ++ w'.modulePayload = fileModules w ++ w.modulePayload
  written : fileModules w' = fileModules w ∨
    (w.fileLimitReached = false ∧ fileModules w' = fileModules w ++ w.modulePayload)

theorem ModulesKept.refl (w : LinuxTraceWriter) : ModulesKept w w :=
  ⟨rfl, rfl, rfl, rfl, id, fun _ => rfl, .inl rfl⟩

/-- A limit that is not reached was not reached before. -/
theorem ModulesKept.below (h : ModulesKept w w') (hbelow : w'.fileLimitReached = false) :
    w.fileLimitReached = false := by
  cases hw : w.fileLimitReached with
  | false => rfl
  | true =>
      rw [h.limit hw] at hbelow
      cases hbelow

theorem ModulesKept.trans {a b c : LinuxTraceWriter} (hab : ModulesKept a b)
    (hbc : ModulesKept b c) : ModulesKept a c where
  liveModules := hbc.liveModules.trans hab.liveModules
  nextModuleId := hbc.nextModuleId.trans hab.nextModuleId
  lastModuleTicks := hbc.lastModuleTicks.trans hab.lastModuleTicks
  drops := hbc.drops.trans hab.drops
  limit := fun h => hbc.limit (hab.limit h)
  buffered := fun h => (hbc.buffered h).trans (hab.buffered (hbc.below h))
  written := by
    rcases hbc.written with hsame | ⟨hbelow, hall⟩
    · rw [hsame]
      exact hab.written
    · rw [hall]
      exact .inr ⟨hab.below hbelow, hab.buffered hbelow⟩

/-- A step that leaves these members alone. -/
theorem ModulesKept.same (hlive : w'.liveModules = w.liveModules)
    (hnext : w'.nextModuleId = w.nextModuleId)
    (hticks : w'.lastModuleTicks = w.lastModuleTicks)
    (hdrops : w'.moduleNotificationDrops = w.moduleNotificationDrops)
    (hlimit : w'.fileLimitReached = w.fileLimitReached)
    (hfile : w'.file.chunks = w.file.chunks) (hpayload : w'.modulePayload = w.modulePayload) :
    ModulesKept w w' := by
  have hmodules : fileModules w' = fileModules w := by
    unfold fileModules
    rw [hfile]
  refine ⟨hlive, hnext, hticks, hdrops, fun h => hlimit.trans h, fun _ => ?_, .inl hmodules⟩
  rw [hmodules, hpayload]

/-- A chunk of anything else. -/
theorem writeChunk_modulesKept {chunk : Chunk} {compress written : Bool}
    (hchunk : chunkModules chunk = [])
    (h : writeChunk options chunk compress w = .ok written w') : ModulesKept w w' := by
  rcases writeChunk_ok h with ⟨-, file, hwrite, rfl⟩ | ⟨-, -, rfl⟩
  · obtain ⟨-, rfl⟩ := TraceWriter.writeChunk_eq_some.mp hwrite
    have hmodules : (w.file.chunks ++ [chunk]).flatMap chunkModules = fileModules w := by
      rw [List.flatMap_append, List.flatMap_singleton, hchunk, List.append_nil]
      rfl
    refine ⟨rfl, rfl, rfl, rfl, id, fun _ => ?_, .inl hmodules⟩
    exact congrArg (· ++ w.modulePayload) hmodules
  · refine ⟨rfl, rfl, rfl, rfl, fun _ => rfl, fun hbelow => ?_, .inl rfl⟩
    cases hbelow

/-- The module buffer, into the file or away. -/
theorem flushModulePayload_modulesKept {u : Unit}
    (h : flushModulePayload options w = .ok u w') : ModulesKept w w' := by
  rcases flushModulePayload_ok h with ⟨-, rfl⟩ | ⟨-, hlimit, rfl⟩ |
    ⟨-, hbelow, written, m, hwrite, rfl⟩
  · exact .refl w'
  · refine ⟨rfl, rfl, rfl, rfl, id, fun hbelow => ?_, .inl rfl⟩
    change w.fileLimitReached = false at hbelow
    rw [hlimit] at hbelow
    cases hbelow
  · rcases writeChunk_ok hwrite with ⟨-, file, hfile, rfl⟩ | ⟨-, -, rfl⟩
    · obtain ⟨-, rfl⟩ := TraceWriter.writeChunk_eq_some.mp hfile
      have hmodules : (w.file.chunks ++
            [({ payload := .modules w.modulePayload } : Chunk)]).flatMap chunkModules =
          fileModules w ++ w.modulePayload := by
        rw [List.flatMap_append, List.flatMap_singleton]
        rfl
      refine ⟨rfl, rfl, rfl, rfl, id, fun _ => ?_, .inr ⟨hbelow, hmodules⟩⟩
      exact (List.append_nil _).trans hmodules
    · refine ⟨rfl, rfl, rfl, rfl, fun _ => rfl, fun hbelow => ?_, .inl rfl⟩
      cases hbelow

theorem flushStackPayload_modulesKept {written : Bool}
    (h : flushStackPayload options w = .ok written w') : ModulesKept w w' := by
  rcases flushStackPayload_ok h with ⟨-, -, rfl⟩ | ⟨-, hwrite⟩
  · exact .refl w'
  · exact writeChunk_modulesKept rfl hwrite

theorem dropPendingEvents_modulesKept {u : Unit} (h : dropPendingEvents options w = .ok u w') :
    ModulesKept w w' := by
  rcases dropPendingEvents_ok h with ⟨-, rfl⟩ | ⟨-, rfl⟩
  · exact .same rfl rfl rfl rfl rfl rfl rfl
  · exact .same rfl rfl rfl rfl rfl rfl rfl

theorem notePendingWritten_modulesKept {u : Unit} (h : notePendingWritten options w = .ok u w') :
    ModulesKept w w' := by
  obtain rfl := notePendingWritten_ok h
  exact .same rfl rfl rfl rfl rfl rfl rfl

theorem flushPending_modulesKept {u : Unit} (h : flushPending options w = .ok u w') :
    ModulesKept w w' := by
  rcases flushPending_ok h with ⟨-, hmodules⟩ | ⟨-, m, hmodules, hevents⟩
  · exact flushModulePayload_modulesKept hmodules
  refine (flushModulePayload_modulesKept hmodules).trans ?_
  cases hevents with
  | limit hlimit hdrop => exact dropPendingEvents_modulesKept hdrop
  | stackLimit k hlimit hwrite hdrop =>
      exact (flushStackPayload_modulesKept hwrite).trans (dropPendingEvents_modulesKept hdrop)
  | eventLimit k n hlimit hstacks hwrite hdrop =>
      exact (flushStackPayload_modulesKept hstacks).trans
        ((writeChunk_modulesKept rfl hwrite).trans (dropPendingEvents_modulesKept hdrop))
  | written k n hlimit hstacks hwrite hnote =>
      exact (flushStackPayload_modulesKept hstacks).trans
        ((writeChunk_modulesKept rfl hwrite).trans (notePendingWritten_modulesKept hnote))

theorem ensurePendingCapacity_modulesKept {n : ℕ} {u : Unit}
    (h : ensurePendingCapacity options n w = .ok u w') : ModulesKept w w' := by
  rcases ensurePendingCapacity_ok h with rfl | ⟨-, hflush⟩
  · exact .refl w'
  · exact flushPending_modulesKept hflush

theorem flushBeforeModule_modulesKept {u : Unit} (h : flushBeforeModule options w = .ok u w') :
    ModulesKept w w' := by
  rcases flushBeforeModule_ok h with ⟨-, rfl⟩ | ⟨-, hflush⟩
  · exact .refl w'
  · exact flushPending_modulesKept hflush

theorem processEvent_modulesKept {raw : LinuxHeapEvent} {u : Unit}
    (h : processEvent options raw w = .ok u w') : ModulesKept w w' := by
  obtain ⟨m, entry, hsettled⟩ := processEvent_ok h
  have hentered : ModulesKept w m := by
    rw [entry.state_eq]
    exact .same rfl rfl rfl rfl rfl rfl rfl
  refine hentered.trans ?_
  cases hsettled with
  | past hlimit hdrop =>
      rw [hdrop]
      exact .same rfl rfl rfl rfl rfl rfl rfl
  | reached k hlimit hensure hreached hdrop =>
      refine (ensurePendingCapacity_modulesKept hensure).trans ?_
      rw [hdrop]
      exact .same rfl rfl rfl rfl rfl rfl rfl
  | buffered k hlimit hensure hbelow hbuffer =>
      refine (ensurePendingCapacity_modulesKept hensure).trans ?_
      obtain ⟨n, happend, hend⟩ := bufferEvent_ok hbuffer
      obtain ⟨happend⟩ := appendEvent_ok happend
      have hn : ModulesKept k n := by
        rw [happend.state_eq]
        exact .same rfl rfl rfl rfl rfl rfl rfl
      rcases hend with rfl | hflush
      · exact hn
      · exact hn.trans (flushPending_modulesKept hflush)

/-- The time of a sample is no business of the modules. -/
theorem ModulesKept.sampled (w : LinuxTraceWriter) (ticks : ℕ) :
    ModulesKept w { w with lastMemoryTicks := ticks } := .same rfl rfl rfl rfl rfl rfl rfl

theorem captureMemorySnapshot_modulesKept {now : ℕ} {samples : List (ℕ → MemoryRecord)} {u : Unit}
    (h : captureMemorySnapshot options now samples w = .ok u w') : ModulesKept w w' := by
  rcases captureMemorySnapshot_ok h with ⟨-, rfl⟩ | ⟨-, ticks, -, ⟨-, rfl⟩ | ⟨-, written, hwrite⟩⟩
  · exact .refl w'
  · exact .sampled w ticks
  · exact (ModulesKept.sampled w ticks).trans (writeChunk_modulesKept rfl hwrite)

theorem flushTick_modulesKept {u : Unit}
    (h : perform options .flushTick w = .ok u w') : ModulesKept w w' := by
  obtain ⟨_, m, hflush, hstream⟩ := run_bind_eq_ok.mp h
  refine (flushPending_modulesKept hflush).trans ?_
  rw [flushStream_ok hstream]
  exact .same rfl rfl rfl rfl rfl rfl rfl

theorem beginCapture_modulesKept {baselines : List MemoryBaseline} {u : Unit}
    (h : beginCapture options baselines w = .ok u w') : ModulesKept w w' := by
  obtain ⟨_, m, hmetadata, h⟩ := run_bind_eq_ok.mp h
  obtain ⟨_, n, hstream, hbaselines⟩ := run_bind_eq_ok.mp h
  have hm : ModulesKept w m := by
    rcases writeMetadata_ok hmetadata with ⟨-, rfl⟩ | ⟨-, file, hwrite, rfl⟩
    · exact .refl m
    · obtain ⟨-, rfl⟩ := TraceWriter.writeChunk_eq_some.mp hwrite
      have hmodules : (w.file.chunks ++ [({ payload := .metadata (metadataRecords options) } :
          Chunk)]).flatMap chunkModules = fileModules w := by
        rw [List.flatMap_append, List.flatMap_singleton]
        exact List.append_nil _
      refine ⟨rfl, rfl, rfl, rfl, id, fun _ => ?_, .inl hmodules⟩
      exact congrArg (· ++ w.modulePayload) hmodules
  have hn : ModulesKept m n := by
    rw [flushStream_ok hstream]
    exact .same rfl rfl rfl rfl rfl rfl rfl
  refine (hm.trans hn).trans ?_
  rcases writeMemoryBaselines_ok hbaselines with ⟨-, rfl⟩ | ⟨-, written, hwrite⟩
  · exact .refl w'
  · exact (ModulesKept.sampled n _).trans (writeChunk_modulesKept rfl hwrite)

/-! ## The failures that are left -/

/-- A failure of the output, or of a counter at its end. -/
def FileFault : Error → Prop
  | .traceWrite _ => True
  | .wireFormat _ => True
  | .overflow _ => True
  | _ => False

theorem FileFault.of_overflow {e : Error} (h : Overflow e) : FileFault e := by
  cases e <;> trivial

theorem checkedAdd_fault (value addition : ℕ) (subject : String) :
    ThrowsOnly FileFault (checkedAdd value addition subject) := fun e h =>
  .of_overflow (checkedAdd_throws value addition subject e h)

theorem writeChunk_faults (chunk : Chunk) (compress : Bool) :
    Raises FileFault (writeChunk options chunk compress) := by
  unfold writeChunk streamOperation
  simp only [WriterM.lift_eq_check]
  refine Raises.bind (raises_get.bind fun w => (raises_set _).bind fun _ =>
    raises_ite (fun _ => raises_throw trivial) fun _ => raises_pure _) fun _ => ?_
  refine raises_get.bind fun w => (raises_check ?_).bind fun result => ?_
  · unfold TraceWriter.writeChunk
    refine (throwsOnly_failIf fun _ => trivial).bind fun _ _ =>
      (throwsOnly_failIf fun _ => trivial).bind fun _ _ => ?_
    refine ThrowsOnly.bind ?_ fun _ _ => throwsOnly_ite (fun _ => throwsOnly_pure _) fun _ =>
      (throwsOnly_failIf fun _ => trivial).bind fun _ _ => throwsOnly_pure _
    unfold validateChunkHeader
    exact (throwsOnly_failIf fun _ => trivial).bind fun _ _ => throwsOnly_failIf fun _ => trivial
  · cases result with
    | none => exact (raises_set _).bind fun _ => raises_pure _
    | some file => exact (raises_set _).bind fun _ => raises_pure _

theorem flushModulePayload_faults : Raises FileFault (flushModulePayload options) := by
  unfold flushModulePayload writeDataChunk
  exact raises_get.bind fun w => raises_ite (fun _ => raises_pure _) fun _ =>
    raises_ite (fun _ => (writeChunk_faults _ _).bind fun _ => raises_modify _) fun _ =>
      raises_modify _

theorem dropPendingEvents_faults : Raises FileFault (dropPendingEvents options) := by
  unfold dropPendingEvents
  simp only [WriterM.lift_eq_check]
  refine raises_get.bind fun w => raises_ite (fun _ => ?_) fun _ => raises_modify _
  refine (raises_set _).bind fun _ => (raises_check (checkedAdd_fault _ _ _)).bind fun _ =>
    (raises_modify _).bind fun _ => ?_
  exact (raises_check (throwsOnly_failIf fun _ => trivial)).bind fun _ =>
    (raises_modify _).bind fun _ => raises_modify _

theorem notePendingWritten_faults : Raises FileFault (notePendingWritten options) := by
  unfold notePendingWritten
  simp only [WriterM.lift_eq_check]
  refine raises_get.bind fun w => (raises_check (checkedAdd_fault _ _ _)).bind fun _ =>
    (raises_set _).bind fun _ => ?_
  refine (raises_check (throwsOnly_failIf fun _ => trivial)).bind fun _ =>
    (raises_modify _).bind fun _ => ?_
  exact (raises_check (checkedAdd_fault _ _ _)).bind fun _ =>
    (raises_check (checkedAdd_fault _ _ _)).bind fun _ => (raises_modify _).bind fun _ =>
    raises_modify _

theorem flushPending_faults : Raises FileFault (flushPending options) := by
  unfold flushPending flushStackPayload flushEventPayload writeDataChunk
  refine raises_get.bind fun w => raises_ite (fun _ => flushModulePayload_faults) fun _ =>
    flushModulePayload_faults.bind fun _ => raises_get.bind fun w =>
    raises_ite (fun _ => dropPendingEvents_faults) fun _ => Raises.bind ?_ fun wrote => ?_
  · exact raises_get.bind fun w => raises_ite (fun _ => raises_pure _) fun _ =>
      writeChunk_faults _ _
  · refine raises_ite (fun _ => Raises.bind ?_ fun wrote => ?_) fun _ => dropPendingEvents_faults
    · exact raises_get.bind fun w => writeChunk_faults _ _
    · exact raises_ite (fun _ => notePendingWritten_faults) fun _ => dropPendingEvents_faults

theorem flushBeforeModule_faults : Raises FileFault (flushBeforeModule options) := by
  unfold flushBeforeModule
  exact raises_get.bind fun w => raises_ite (fun _ => flushPending_faults) fun _ => raises_pure _

theorem settleModule_faults (ticks : ℕ) : Raises FileFault (settleModule options ticks) := by
  unfold settleModule
  exact (raises_modify _).bind fun _ => raises_get.bind fun w =>
    raises_ite (fun _ => flushModulePayload_faults) fun _ => raises_pure _

end Noleax.Capture
