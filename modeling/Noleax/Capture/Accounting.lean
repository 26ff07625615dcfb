import Noleax.Capture.Steps

/-!
# Per-API conservation

Every record the writer has counted is pending, written or dropped. The `Ledger`
is what the members say about that; each step of the writer is one posting to it,
and a posting keeps the books balanced up to the records still `owed`: counted,
but not yet buffered or dropped.
-/

namespace Noleax.Capture

open Lib Trace Agent Agent.LinuxTraceWriter

/-! ## The ledger -/

structure Ledger where
  counters : ℕ → ApiCounters
  pendingEvents : ℕ
  pendingStacks : ℕ
  writtenEvents : ℕ
  writtenStacks : ℕ
  droppedEvents : ℕ

def ledger (w : LinuxTraceWriter) : Ledger where
  counters := w.counters
  pendingEvents := w.pendingEventCount
  pendingStacks := w.pendingUniqueStacks + w.pendingReusedStacks
  writtenEvents := w.writtenEvents
  writtenStacks := w.uniqueStacks + w.reusedStacks
  droppedEvents := w.traceDroppedEvents

namespace Ledger

def total (apis : List ℕ) (l : Ledger) (field : ApiCounters → ℕ) : ℕ :=
  (apis.map fun api => field (l.counters api)).sum

/-- The books of the given APIs, with the records owed by each. -/
structure Balanced (apis : List ℕ) (owed : ℕ → ℕ) (l : Ledger) : Prop where
  account : ∀ api ∈ apis, (l.counters api).successful + (l.counters api).failed =
    (l.counters api).pending + (l.counters api).written + (l.counters api).traceDropped + owed api
  pending : l.total apis ApiCounters.pending = l.pendingEvents
  written : l.total apis ApiCounters.written = l.writtenEvents
  dropped : l.total apis ApiCounters.traceDropped = l.droppedEvents
  pendingStacks : l.pendingStacks ≤ l.pendingEvents
  writtenStacks : l.writtenStacks ≤ l.writtenEvents

variable {apis : List ℕ} {owed : ℕ → ℕ} {l : Ledger}

/-- Only the changed API moves its sum. -/
theorem sum_map_update {xs : List ℕ} (hnodup : xs.Nodup) {x : ℕ} (hx : x ∈ xs) {f g : ℕ → ℕ}
    {n : ℕ} (hat : g x = f x + n) (hoff : ∀ y, y ≠ x → g y = f y) :
    (xs.map g).sum = (xs.map f).sum + n := by
  induction xs with
  | nil => cases hx
  | cons y ys ih =>
      obtain ⟨hy, hys⟩ := List.nodup_cons.mp hnodup
      rw [List.map_cons, List.map_cons, List.sum_cons, List.sum_cons]
      rcases List.mem_cons.mp hx with rfl | hmem
      · have htail : ys.map g = ys.map f := List.map_congr_left fun z hz =>
          hoff z fun heq => hy (heq ▸ hz)
        rw [hat, htail]
        omega
      · have hne : y ≠ x := fun heq => hy (heq ▸ hmem)
        rw [hoff y hne, ih hys hmem]
        omega

/-- Post new counters for one API. -/
def post (l : Ledger) (api : ℕ) (counters : ApiCounters) : Ledger :=
  { l with counters := Function.update l.counters api counters }

theorem total_post (hnodup : apis.Nodup) {api : ℕ} (hapi : api ∈ apis) {counters : ApiCounters}
    {field : ApiCounters → ℕ} {n : ℕ} (hfield : field counters = field (l.counters api) + n) :
    (l.post api counters).total apis field = l.total apis field + n := by
  refine sum_map_update hnodup hapi ?_ ?_
  · change field (Function.update l.counters api counters api) = _
    rw [Function.update_self, hfield]
  · intro y hy
    change field (Function.update l.counters api counters y) = _
    rw [Function.update_of_ne hy]

/-- The records one API owes. -/
def owing (api n : ℕ) : ℕ → ℕ := fun other => if other = api then n else 0

/-- Count `n` records of an API. -/
theorem Balanced.observe (h : l.Balanced apis fun _ => 0) (hnodup : apis.Nodup) {api n : ℕ}
    (hapi : api ∈ apis) {counters : ApiCounters}
    (hcount : counters.successful + counters.failed =
      (l.counters api).successful + (l.counters api).failed + n)
    (hpending : counters.pending = (l.counters api).pending)
    (hwritten : counters.written = (l.counters api).written)
    (hdropped : counters.traceDropped = (l.counters api).traceDropped) :
    (l.post api counters).Balanced apis (owing api n) where
  account := by
    intro other hother
    change (Function.update l.counters api counters other).successful +
      (Function.update l.counters api counters other).failed =
      (Function.update l.counters api counters other).pending +
      (Function.update l.counters api counters other).written +
      (Function.update l.counters api counters other).traceDropped + if other = api then n else 0
    have haccount := h.account other hother
    by_cases hother : other = api
    · subst hother
      rw [Function.update_self, if_pos rfl, hcount, hpending, hwritten, hdropped]
      omega
    · rw [Function.update_of_ne hother, if_neg hother]
      exact haccount
  pending := by
    rw [total_post hnodup hapi (n := 0) hpending]
    exact h.pending
  written := by
    rw [total_post hnodup hapi (n := 0) hwritten]
    exact h.written
  dropped := by
    rw [total_post hnodup hapi (n := 0) hdropped]
    exact h.dropped
  pendingStacks := h.pendingStacks
  writtenStacks := h.writtenStacks

/-- Settle what an API owes: its records are buffered or dropped. -/
theorem Balanced.settle (hnodup : apis.Nodup) {api n : ℕ} (h : l.Balanced apis (owing api n))
    (hapi : api ∈ apis) (counters : ApiCounters) {buffered dropped added : ℕ}
    (hsplit : buffered + dropped = n) (hstacks : added ≤ buffered)
    (hcount : counters.successful + counters.failed =
      (l.counters api).successful + (l.counters api).failed)
    (hpending : counters.pending = (l.counters api).pending + buffered)
    (hwritten : counters.written = (l.counters api).written)
    (hdropped : counters.traceDropped = (l.counters api).traceDropped + dropped) :
    { l.post api counters with
      pendingEvents := l.pendingEvents + buffered
      pendingStacks := l.pendingStacks + added
      droppedEvents := l.droppedEvents + dropped : Ledger }.Balanced apis fun _ => 0 where
  account := by
    intro other hother
    change (Function.update l.counters api counters other).successful +
      (Function.update l.counters api counters other).failed =
      (Function.update l.counters api counters other).pending +
      (Function.update l.counters api counters other).written +
      (Function.update l.counters api counters other).traceDropped + 0
    have haccount := h.account other hother
    by_cases hother : other = api
    · subst hother
      rw [owing, if_pos rfl] at haccount
      rw [Function.update_self, hcount, hpending, hwritten, hdropped]
      omega
    · rw [owing, if_neg hother] at haccount
      rw [Function.update_of_ne hother]
      exact haccount
  pending := by
    change (l.post api counters).total apis ApiCounters.pending = _
    rw [total_post hnodup hapi hpending, h.pending]
  written := by
    change (l.post api counters).total apis ApiCounters.written = _
    rw [total_post hnodup hapi (n := 0) hwritten]
    exact h.written
  dropped := by
    change (l.post api counters).total apis ApiCounters.traceDropped = _
    rw [total_post hnodup hapi hdropped, h.dropped]
  pendingStacks := Nat.add_le_add h.pendingStacks hstacks
  writtenStacks := h.writtenStacks

/-- Everything pending leaves the buffers: into the file, or dropped. -/
def clear (l : Ledger) (toFile : Bool) : Ledger where
  counters := fun api =>
    { l.counters api with
      pending := 0
      written := (l.counters api).written + if toFile then (l.counters api).pending else 0
      traceDropped := (l.counters api).traceDropped + if toFile then 0 else (l.counters api).pending }
  pendingEvents := 0
  pendingStacks := 0
  writtenEvents := l.writtenEvents + if toFile then l.pendingEvents else 0
  writtenStacks := l.writtenStacks + if toFile then l.pendingStacks else 0
  droppedEvents := l.droppedEvents + if toFile then 0 else l.pendingEvents

theorem Balanced.clear (h : l.Balanced apis owed) (toFile : Bool) :
    (l.clear toFile).Balanced apis owed where
  account := by
    intro api hapi
    have haccount := h.account api hapi
    cases toFile with
    | true =>
        change (l.counters api).successful + (l.counters api).failed =
          0 + ((l.counters api).written + (l.counters api).pending) +
            ((l.counters api).traceDropped + 0) + owed api
        omega
    | false =>
        change (l.counters api).successful + (l.counters api).failed =
          0 + ((l.counters api).written + 0) +
            ((l.counters api).traceDropped + (l.counters api).pending) + owed api
        omega
  pending := by
    change (apis.map fun _ => 0).sum = 0
    simp
  written := by
    change (apis.map fun api => (l.counters api).written + _).sum = l.writtenEvents + _
    rw [List.sum_map_add, ← h.written, ← h.pending]
    cases toFile with
    | true => rfl
    | false => simp [total]
  dropped := by
    change (apis.map fun api => (l.counters api).traceDropped + _).sum = l.droppedEvents + _
    rw [List.sum_map_add, ← h.dropped, ← h.pending]
    cases toFile with
    | true => simp [total]
    | false => rfl
  pendingStacks := le_refl 0
  writtenStacks := by
    have hstacks := h.writtenStacks
    have hpending := h.pendingStacks
    cases toFile with
    | true => exact Nat.add_le_add hstacks hpending
    | false => exact hstacks

end Ledger

/-! ## The ids -/

variable {options : WriterOptions} {w w' : LinuxTraceWriter}

theorem apiIds_nodup (options : WriterOptions) : options.apiIds.Nodup := by
  unfold WriterOptions.apiIds
  refine List.Nodup.append (by decide) ?_ ?_
  · exact List.nodup_range.map fun a b h => Nat.add_left_cancel h
  · intro id hregistry hcustom
    obtain ⟨api, -, rfl⟩ := List.mem_map.mp hregistry
    obtain ⟨index, -, heq⟩ := List.mem_map.mp hcustom
    have hsmall : api.apiId ≤ 20 := by cases api <;> decide
    simp only [customHookApiIdBase] at heq
    omega

theorem apiIds_ne_zero {id : ℕ} (h : id ∈ options.apiIds) : id ≠ 0 := by
  rcases List.mem_append.mp h with hregistry | hcustom
  · obtain ⟨api, -, rfl⟩ := List.mem_map.mp hregistry
    cases api <;> decide
  · obtain ⟨index, -, rfl⟩ := List.mem_map.mp hcustom
    simp only [customHookApiIdBase]
    omega

/-! ## Flushing -/

theorem writeChunk_ledger {chunk : Chunk} {compress written : Bool}
    (h : writeChunk options chunk compress w = .ok written w') : ledger w' = ledger w := by
  rcases writeChunk_ok h with ⟨-, file, -, rfl⟩ | ⟨-, -, rfl⟩
  · rfl
  · rfl

theorem flushModulePayload_ledger {u : Unit} (h : flushModulePayload options w = .ok u w') :
    ledger w' = ledger w := by
  rcases flushModulePayload_ok h with ⟨-, rfl⟩ | ⟨-, -, rfl⟩ | ⟨-, -, written, m, hwrite, rfl⟩
  · rfl
  · rfl
  · have hm := writeChunk_ledger hwrite
    exact hm

theorem flushStackPayload_ledger {written : Bool}
    (h : flushStackPayload options w = .ok written w') : ledger w' = ledger w := by
  rcases flushStackPayload_ok h with ⟨-, -, rfl⟩ | ⟨-, hwrite⟩
  · rfl
  · exact writeChunk_ledger hwrite

theorem dropPendingEvents_ledger {u : Unit} (hpending : (ledger w).pendingEvents ≠ 0)
    (h : dropPendingEvents options w = .ok u w') : ledger w' = (ledger w).clear false := by
  rcases dropPendingEvents_ok h with ⟨hnone, -⟩ | ⟨-, rfl⟩
  · exact absurd hnone hpending
  · rfl

theorem notePendingWritten_ledger {u : Unit} (h : notePendingWritten options w = .ok u w') :
    ledger w' = (ledger w).clear true := by
  obtain rfl := notePendingWritten_ok h
  have hstacks : w.uniqueStacks + w.pendingUniqueStacks + (w.reusedStacks + w.pendingReusedStacks) =
      w.uniqueStacks + w.reusedStacks + (w.pendingUniqueStacks + w.pendingReusedStacks) := by
    omega
  change Ledger.mk _ _ _ _ (w.uniqueStacks + w.pendingUniqueStacks +
    (w.reusedStacks + w.pendingReusedStacks)) _ = _
  rw [hstacks]
  rfl

/-- A flush empties the buffers, if there was anything in them. -/
theorem flushPending_ledger {u : Unit} (h : flushPending options w = .ok u w') :
    ((ledger w).pendingEvents = 0 ∧ ledger w' = ledger w) ∨
    ∃ toFile, ledger w' = (ledger w).clear toFile := by
  rcases flushPending_ok h with ⟨hnone, hmodules⟩ | ⟨hpending, m, hmodules, hevents⟩
  · exact .inl ⟨hnone, flushModulePayload_ledger hmodules⟩
  refine .inr ?_
  have hm := flushModulePayload_ledger hmodules
  have hpending : (ledger w).pendingEvents ≠ 0 := hpending
  cases hevents with
  | limit hlimit hdrop =>
      refine ⟨false, ?_⟩
      rw [dropPendingEvents_ledger (by rwa [hm]) hdrop, hm]
  | stackLimit k hlimit hwrite hdrop =>
      have hk := flushStackPayload_ledger hwrite
      refine ⟨false, ?_⟩
      rw [dropPendingEvents_ledger (by rwa [hk, hm]) hdrop, hk, hm]
  | eventLimit k n hlimit hstacks hwrite hdrop =>
      have hk := flushStackPayload_ledger hstacks
      have hn := writeChunk_ledger hwrite
      refine ⟨false, ?_⟩
      rw [dropPendingEvents_ledger (by rwa [hn, hk, hm]) hdrop, hn, hk, hm]
  | written k n hlimit hstacks hwrite hnote =>
      refine ⟨true, ?_⟩
      rw [notePendingWritten_ledger hnote, writeChunk_ledger hwrite,
        flushStackPayload_ledger hstacks, hm]

/-- The books of a state of the writer. -/
abbrev Books (options : WriterOptions) (owed : ℕ → ℕ) (w : LinuxTraceWriter) : Prop :=
  (ledger w).Balanced options.apiIds owed

variable {owed : ℕ → ℕ}

theorem flushPending_books (h : Books options owed w) {u : Unit}
    (hrun : flushPending options w = .ok u w') : Books options owed w' := by
  rcases flushPending_ledger hrun with ⟨-, heq⟩ | ⟨toFile, heq⟩
  · unfold Books
    rwa [heq]
  · unfold Books
    rw [heq]
    exact h.clear toFile

theorem flushPending_none {u : Unit} (hrun : flushPending options w = .ok u w') :
    w'.pendingEventCount = 0 := by
  rcases flushPending_ledger hrun with ⟨hnone, heq⟩ | ⟨toFile, heq⟩
  · exact (congrArg Ledger.pendingEvents heq).trans hnone
  · exact congrArg Ledger.pendingEvents heq

theorem ensurePendingCapacity_books (h : Books options owed w) {n : ℕ} {u : Unit}
    (hrun : ensurePendingCapacity options n w = .ok u w') : Books options owed w' := by
  rcases ensurePendingCapacity_ok hrun with rfl | ⟨-, hflush⟩
  · exact h
  · exact flushPending_books h hflush

/-! ## Events -/

/-- An event of the entered state is at least one record, and one if its call failed. -/
theorem eventRecordCount_pos {raw : LinuxHeapEvent} {m : LinuxTraceWriter}
    (entry : Entered options raw w m) : 1 ≤ eventRecordCount raw entry.plan := by
  unfold eventRecordCount
  rcases entry.planned with ⟨hvm, hplan⟩ | ⟨hvm, -, -⟩
  · rw [if_pos hvm]
    exact List.length_pos_of_ne_nil (VmState.planVmEvent_ne_nil hplan)
  · rw [if_neg hvm]

theorem eventRecordCount_failed {raw : LinuxHeapEvent} {m : LinuxTraceWriter}
    (entry : Entered options raw w m) (hfailed : ¬ raw.Succeeded) :
    eventRecordCount raw entry.plan = 1 := by
  unfold eventRecordCount
  rcases entry.planned with ⟨hvm, hplan⟩ | ⟨hvm, -, -⟩
  · rw [if_pos hvm, (VmState.planVmEvent_failed hfailed hplan).2]
    rfl
  · rw [if_neg hvm]

/-- Counting an event makes its records owed. -/
theorem entered_books (h : Books options (fun _ => 0) w) {raw : LinuxHeapEvent}
    {m : LinuxTraceWriter} (entry : Entered options raw w m) :
    Books options (Ledger.owing raw.apiId (eventRecordCount raw entry.plan)) m := by
  have hledger : ledger m = (ledger w).post raw.apiId
      (countedOperations (w.counters raw.apiId) raw (eventRecordCount raw entry.plan)) := by
    exact congrArg ledger entry.state_eq
  unfold Books
  rw [hledger]
  refine h.observe (apiIds_nodup options) entry.known ?_ rfl rfl rfl
  unfold countedOperations
  dsimp only
  by_cases hsucceeded : raw.Succeeded
  · rw [if_pos hsucceeded, if_pos hsucceeded]
    change _ = (w.counters raw.apiId).successful + (w.counters raw.apiId).failed + _
    omega
  · rw [if_neg hsucceeded, if_neg hsucceeded, eventRecordCount_failed entry hsucceeded]
    rfl

theorem notedEventDrop_books {api n ticks wireBegin : ℕ} (hapi : api ∈ options.apiIds)
    (h : Books options (Ledger.owing api n) w) :
    Books options (fun _ => 0) (w.notedEventDrop api ticks wireBegin n) :=
  h.settle (apiIds_nodup options) hapi _ (Nat.zero_add n) (le_refl 0) rfl rfl rfl rfl

/-- An event adds one stack at most. -/
theorem addStack_count {raw : LinuxHeapEvent} {loss : Option LossRecord} {addition : EventAddition}
    (h : w.addStack raw loss = .ok addition) : addition.unique + addition.reused ≤ 1 := by
  unfold addStack at h
  split at h
  · obtain ⟨⟨dictionary, id, inserted⟩, -, h⟩ := bind_eq_ok.mp h
    dsimp only at h
    split at h
    · obtain ⟨_, -, h⟩ := bind_eq_ok.mp h
      cases h
      exact le_refl 1
    · cases h
      exact le_refl 1
  · split at h
    · obtain ⟨_, -, h⟩ := bind_eq_ok.mp h
      cases h
      exact Nat.zero_le 1
    · cases h
      exact Nat.zero_le 1

theorem appended_books {raw : LinuxHeapEvent} {plan : List VmPlanRecord}
    {loss : Option LossRecord} {ticks wireBegin n : ℕ} (hapi : raw.apiId ∈ options.apiIds)
    (hn : 1 ≤ n) (h : Books options (Ledger.owing raw.apiId n) w)
    (happend : Appended options raw plan loss ticks wireBegin n w w') :
    Books options (fun _ => 0) w' := by
  have hone := addStack_count happend.stack_eq
  have hsettled := h.settle (apiIds_nodup options) hapi { w.counters raw.apiId with
    pending := (w.counters raw.apiId).pending + n } (Nat.add_zero n) (le_trans hone hn)
    rfl rfl rfl rfl
  have hstacks : w.pendingUniqueStacks + happend.addition.unique +
      (w.pendingReusedStacks + happend.addition.reused) =
      w.pendingUniqueStacks + w.pendingReusedStacks +
        (happend.addition.unique + happend.addition.reused) := by
    omega
  have hledger : ledger w' = { (ledger w).post raw.apiId { w.counters raw.apiId with
        pending := (w.counters raw.apiId).pending + n } with
      pendingEvents := (ledger w).pendingEvents + n
      pendingStacks := (ledger w).pendingStacks +
        (happend.addition.unique + happend.addition.reused)
      droppedEvents := (ledger w).droppedEvents + 0 } := by
    refine (congrArg ledger happend.state_eq).trans ?_
    change Ledger.mk _ _ (w.pendingUniqueStacks + happend.addition.unique +
      (w.pendingReusedStacks + happend.addition.reused)) _ _ _ = _
    rw [hstacks]
    rfl
  unfold Books
  rw [hledger]
  exact hsettled

/-- One raw event leaves the books balanced, however it ended. -/
theorem processEvent_books (h : Books options (fun _ => 0) w) {raw : LinuxHeapEvent} {u : Unit}
    (hrun : processEvent options raw w = .ok u w') : Books options (fun _ => 0) w' := by
  obtain ⟨m, entry, hsettled⟩ := processEvent_ok hrun
  have hentered := entered_books h entry
  cases hsettled with
  | past hlimit hdrop =>
      rw [hdrop]
      exact notedEventDrop_books entry.known hentered
  | reached k hlimit hensure hreached hdrop =>
      rw [hdrop]
      exact notedEventDrop_books entry.known (ensurePendingCapacity_books hentered hensure)
  | buffered k hlimit hensure hbelow hbuffer =>
      obtain ⟨n, happend, hend⟩ := bufferEvent_ok hbuffer
      obtain ⟨happend⟩ := appendEvent_ok happend
      have hn := appended_books entry.known (eventRecordCount_pos entry)
        (ensurePendingCapacity_books hentered hensure) happend
      rcases hend with rfl | hflush
      · exact hn
      · exact flushPending_books hn hflush

end Noleax.Capture
