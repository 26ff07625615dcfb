import Noleax.Trace.Wire

/-!
# The record cursor (`trace/trace_reader.cpp`)

`RecordCursor` walks over a chunk payload by offsets. A call of `next` that yields a
record moves the cursor behind it and stays inside of the payload, so a walk ends, and
what it went over is the payload up to its end or up to the error.
-/

namespace Noleax.Trace

open Lib

/-! ## The cursor -/

inductive CursorFailure where
  /-- A `TraceReadError`. -/
  | traceRead (message : String)
  /-- An access outside of the payload. -/
  | outside
deriving DecidableEq, Repr

/-- `read_u16`, `read_u32` -/
def wordAt (width : ℕ) (input : Bytes) (offset : ℕ) : Except CursorFailure ℕ := do
  failIf (input.length < offset + width) .outside
  return ofLittleEndian ((input.drop offset).take width)

/-- A `RecordView` by the place of its payload. -/
structure RecordSpan where
  type : ℕ
  version : ℕ
  offset : ℕ
  size : ℕ
deriving DecidableEq, Repr

/-- The view of a span of `chunkPayload`. -/
def RecordSpan.view (chunkPayload : Bytes) (span : RecordSpan) : RecordView :=
  ⟨span.type, span.version, (chunkPayload.drop span.offset).take span.size⟩

/-- `RecordCursor`; the offset never passes the end. -/
structure RecordCursor where
  chunkPayload : Bytes
  offset : ℕ
  maximumRecordSize : ℕ
  inside : offset ≤ chunkPayload.length

namespace RecordCursor

/-- The constructor. -/
def create (chunkPayload : Bytes) (maximumRecordSize : ℕ) : Except CursorFailure RecordCursor := do
  failIf (maximumRecordSize < 8)
    (.traceRead "maximum record size is smaller than the record header")
  return ⟨chunkPayload, 0, maximumRecordSize, Nat.zero_le _⟩

/-- `done` -/
def Done (cursor : RecordCursor) : Prop := cursor.offset = cursor.chunkPayload.length

instance (cursor : RecordCursor) : Decidable cursor.Done := inferInstanceAs (Decidable (_ = _))

def remaining (cursor : RecordCursor) : ℕ := cursor.chunkPayload.length - cursor.offset

/-- The end of `next`: the offset moves behind a record of `size` bytes, and the payload of
the record is the part of it behind the header. -/
def advance (cursor : RecordCursor) (type version size : ℕ) :
    Except CursorFailure (RecordSpan × RecordCursor) :=
  if h : size < 8 ∨ cursor.maximumRecordSize < size ∨ cursor.remaining < size then
    .error (.traceRead "record size is invalid")
  else
    .ok (⟨type, version, cursor.offset + 8, size - 8⟩,
      { cursor with
        offset := cursor.offset + size
        inside := by
          have hinside := cursor.inside
          unfold remaining at h
          omega })

/-- `next` -/
def next (cursor : RecordCursor) : Except CursorFailure (Option (RecordSpan × RecordCursor)) :=
  if cursor.Done then .ok none
  else do
    failIf (cursor.remaining < 8) (.traceRead "record header is truncated")
    let type ← wordAt 2 cursor.chunkPayload cursor.offset
    let version ← wordAt 2 cursor.chunkPayload (cursor.offset + 2)
    let size ← wordAt 4 cursor.chunkPayload (cursor.offset + 4)
    failIf (type = 0 ∨ version = 0) (.traceRead "record type and version must not be zero")
    return some (← cursor.advance type version size)

/-! ## One step -/

section Step

variable {cursor after : RecordCursor} {span : RecordSpan} {type version size : ℕ}

theorem wordAt_eq_ok {width offset n : ℕ} {input : Bytes} : wordAt width input offset = .ok n ↔
    offset + width ≤ input.length ∧ ofLittleEndian ((input.drop offset).take width) = n := by
  unfold wordAt
  rw [failIf_bind_eq_ok, pure_eq_ok, Except.ok.injEq, not_lt]

/-- A record starts at the offset and ends inside of the payload. -/
structure Step (cursor after : RecordCursor) (span : RecordSpan) : Prop where
  payload : after.chunkPayload = cursor.chunkPayload
  limit : after.maximumRecordSize = cursor.maximumRecordSize
  start : span.offset = cursor.offset + 8
  stop : after.offset = span.offset + span.size

theorem advance_eq_ok : cursor.advance type version size = .ok (span, after) ↔
    (8 ≤ size ∧ size ≤ cursor.maximumRecordSize ∧ size ≤ cursor.remaining) ∧
      ⟨type, version, cursor.offset + 8, size - 8⟩ = span ∧
      after.chunkPayload = cursor.chunkPayload ∧ after.offset = cursor.offset + size ∧
      after.maximumRecordSize = cursor.maximumRecordSize := by
  unfold advance
  split
  · rename_i hinvalid
    constructor
    · intro h
      cases h
    · intro h
      omega
  · rename_i hvalid
    rw [Except.ok.injEq, Prod.mk.injEq]
    constructor
    · intro ⟨hspan, hafter⟩
      subst hafter
      exact ⟨by omega, hspan, rfl, rfl, rfl⟩
    · intro ⟨_, hspan, hpayload, hoffset, hlimit⟩
      refine ⟨hspan, ?_⟩
      cases after
      cases hpayload
      cases hoffset
      cases hlimit
      rfl

theorem step_of_next (h : cursor.next = .ok (some (span, after))) : Step cursor after span := by
  unfold next at h
  split at h
  · cases h
  · obtain ⟨_, -, h⟩ := bind_eq_ok.mp h
    obtain ⟨type, -, h⟩ := bind_eq_ok.mp h
    obtain ⟨version, -, h⟩ := bind_eq_ok.mp h
    obtain ⟨size, -, h⟩ := bind_eq_ok.mp h
    obtain ⟨_, -, h⟩ := bind_eq_ok.mp h
    obtain ⟨pair, hadvance, h⟩ := bind_eq_ok.mp h
    cases h
    obtain ⟨⟨hheader, -, -⟩, rfl, hpayload, hoffset, hlimit⟩ := advance_eq_ok.mp hadvance
    exact {
      payload := hpayload
      limit := hlimit
      start := rfl
      stop := by
        show after.offset = cursor.offset + 8 + (size - 8)
        omega }

/-- A record moves the cursor on. -/
theorem remaining_lt (h : cursor.next = .ok (some (span, after))) :
    after.remaining < cursor.remaining := by
  have hstep := step_of_next h
  have hinside := after.inside
  have hstart := hstep.start
  have hstop := hstep.stop
  rw [hstep.payload] at hinside
  unfold remaining
  rw [hstep.payload]
  omega

theorem next_eq_none : cursor.next = .ok none ↔ cursor.Done := by
  unfold next
  split
  · rename_i hdone
    exact iff_of_true rfl hdone
  · rename_i hopen
    refine iff_of_false (fun h => ?_) hopen
    obtain ⟨_, -, h⟩ := bind_eq_ok.mp h
    obtain ⟨type, -, h⟩ := bind_eq_ok.mp h
    obtain ⟨version, -, h⟩ := bind_eq_ok.mp h
    obtain ⟨size, -, h⟩ := bind_eq_ok.mp h
    obtain ⟨_, -, h⟩ := bind_eq_ok.mp h
    obtain ⟨pair, -, h⟩ := bind_eq_ok.mp h
    cases h

/-- `next` reads the header after it has seen that it is there. -/
theorem next_throws : ThrowsOnly (· ≠ .outside) cursor.next := by
  have hinside := cursor.inside
  have hword {width offset : ℕ} (hroom : offset + width ≤ cursor.chunkPayload.length) :
      ThrowsOnly (· ≠ .outside) (wordAt width cursor.chunkPayload offset) := by
    intro e he
    rw [wordAt_eq_ok.mpr ⟨hroom, rfl⟩] at he
    cases he
  unfold next
  refine throwsOnly_ite (fun _ => throwsOnly_ok _) fun _ => ?_
  refine (throwsOnly_failIf fun _ h => nomatch h).bind fun _ hheader => ?_
  have hheader := failIf_eq_ok.mp hheader
  unfold remaining at hheader
  refine (hword (by omega)).bind fun type _ => (hword (by omega)).bind fun version _ =>
    (hword (by omega)).bind fun size _ => ?_
  refine (throwsOnly_failIf fun _ h => nomatch h).bind fun _ _ => ?_
  refine ThrowsOnly.bind ?_ fun _ _ => throwsOnly_pure _
  unfold advance
  split
  · exact throwsOnly_error fun h => nomatch h
  · exact throwsOnly_ok _

/-- At the frame of a record the cursor yields that record. -/
theorem next_frame {record : RecordView} {rest : Bytes} (hrange : record.InRange)
    (hlimit : record.payload.length + 8 ≤ cursor.maximumRecordSize)
    (hframe : cursor.chunkPayload.drop cursor.offset = record.frame ++ rest) :
    ∃ span after, cursor.next = .ok (some (span, after)) ∧
      span.view cursor.chunkPayload = record ∧
      after.chunkPayload.drop after.offset = rest ∧
      after.chunkPayload = cursor.chunkPayload ∧
      after.maximumRecordSize = cursor.maximumRecordSize := by
  obtain ⟨⟨htype, htypeWord⟩, ⟨hversion, hversionWord⟩, hsizeWord⟩ := hrange
  have hinside := cursor.inside
  have hlength := congrArg List.length hframe
  rw [List.length_drop, List.length_append, record.frame_length] at hlength
  -- what follows the offset, field by field
  have hdrop (n : ℕ) : cursor.chunkPayload.drop (cursor.offset + n) =
      (record.frame ++ rest).drop n := by
    rw [← List.drop_drop, hframe]
  have htypeRead : wordAt 2 cursor.chunkPayload cursor.offset = .ok record.type := by
    refine wordAt_eq_ok.mpr ⟨by omega, ?_⟩
    rw [hframe]
    exact ofLittleEndian_littleEndian htypeWord
  have hversionRead : wordAt 2 cursor.chunkPayload (cursor.offset + 2) = .ok record.version := by
    refine wordAt_eq_ok.mpr ⟨by omega, ?_⟩
    rw [hdrop]
    exact ofLittleEndian_littleEndian hversionWord
  have hsizeRead : wordAt 4 cursor.chunkPayload (cursor.offset + 4) =
      .ok (record.payload.length + 8) := by
    refine wordAt_eq_ok.mpr ⟨by omega, ?_⟩
    rw [hdrop]
    exact ofLittleEndian_littleEndian hsizeWord
  have hsize : record.payload.length + 8 ≤ cursor.remaining := by
    unfold remaining
    omega
  have hmove : cursor.offset + (record.payload.length + 8) ≤ cursor.chunkPayload.length := by
    omega
  let span : RecordSpan :=
    ⟨record.type, record.version, cursor.offset + 8, record.payload.length + 8 - 8⟩
  let after : RecordCursor := ⟨cursor.chunkPayload, cursor.offset + (record.payload.length + 8),
    cursor.maximumRecordSize, hmove⟩
  have hadvance : cursor.advance record.type record.version (record.payload.length + 8) =
      .ok (span, after) :=
    advance_eq_ok.mpr ⟨⟨by omega, hlimit, hsize⟩, rfl, rfl, rfl, rfl⟩
  have hopen : ¬ cursor.Done := by
    unfold Done
    omega
  have hheader : ¬ cursor.remaining < 8 := by omega
  refine ⟨span, after, ?_, ?_, ?_, rfl, rfl⟩
  · unfold next
    rw [if_neg hopen, failIf_of_not hheader, ok_bind, htypeRead, ok_bind, hversionRead, ok_bind,
      hsizeRead, ok_bind, failIf_of_not (not_or.mpr ⟨htype, hversion⟩), ok_bind, hadvance]
    rfl
  · show RecordView.mk record.type record.version
      ((cursor.chunkPayload.drop (cursor.offset + 8)).take (record.payload.length + 8 - 8)) = record
    rw [hdrop, Nat.add_sub_cancel]
    have hpayload : (record.frame ++ rest).drop 8 = record.payload ++ rest := rfl
    rw [hpayload, List.take_left]
  · show cursor.chunkPayload.drop (cursor.offset + (record.payload.length + 8)) = rest
    rw [hdrop, ← record.frame_length, List.drop_left]

end Step

/-! ## A walk -/

/-- What a cursor yields until it is done or throws, and where it then is. -/
structure Walk where
  spans : List RecordSpan
  failure : Option CursorFailure
  stop : ℕ

/-- The loop over `next`. -/
def walk (cursor : RecordCursor) : Walk :=
  match _ : cursor.next with
  | .error e => ⟨[], some e, cursor.offset⟩
  | .ok none => ⟨[], none, cursor.offset⟩
  | .ok (some (span, after)) =>
      let rest := after.walk
      ⟨span :: rest.spans, rest.failure, rest.stop⟩
termination_by cursor.remaining
decreasing_by exact remaining_lt ‹_›

section Walks

variable {cursor after : RecordCursor} {span : RecordSpan}

theorem walk_of_done (h : cursor.Done) : cursor.walk = ⟨[], none, cursor.offset⟩ := by
  have hnext := next_eq_none.mpr h
  rw [walk]
  split
  · rename_i he
    cases hnext.symm.trans he
  · rfl
  · rename_i hsome
    cases hnext.symm.trans hsome

theorem walk_of_next (h : cursor.next = .ok (some (span, after))) :
    cursor.walk = ⟨span :: after.walk.spans, after.walk.failure, after.walk.stop⟩ := by
  rw [walk]
  split
  · rename_i he
    cases h.symm.trans he
  · rename_i hnone
    cases h.symm.trans hnone
  · rename_i hsome
    cases h.symm.trans hsome
    rfl

/-- Records one behind the other from `start` to `stop`, each with its header in front. -/
def Adjacent : ℕ → List RecordSpan → ℕ → Prop
  | start, [], stop => start = stop
  | start, span :: spans, stop =>
      span.offset = start + 8 ∧ Adjacent (span.offset + span.size) spans stop

/-- What a walk from `cursor` goes over. -/
structure Covers (cursor : RecordCursor) (result : Walk) : Prop where
  adjacent : Adjacent cursor.offset result.spans result.stop
  spans : ∀ span ∈ result.spans, span.offset + span.size ≤ cursor.chunkPayload.length
  stop : result.stop ≤ cursor.chunkPayload.length
  complete : result.failure = none → result.stop = cursor.chunkPayload.length
  access : result.failure ≠ some .outside

/-- A walk covers what lies before the place where it ends. -/
theorem covers_walk (cursor : RecordCursor) : Covers cursor cursor.walk := by
  induction hleft : cursor.remaining using Nat.strongRecOn generalizing cursor with
  | ind left ih =>
      have hinside := cursor.inside
      cases hnext : cursor.next with
      | error e =>
          have hwalk : cursor.walk = ⟨[], some e, cursor.offset⟩ := by
            rw [walk]
            split
            · rename_i he
              cases hnext.symm.trans he
              rfl
            · rename_i hnone
              cases hnext.symm.trans hnone
            · rename_i hsome
              cases hnext.symm.trans hsome
          rw [hwalk]
          exact {
            adjacent := rfl
            spans := fun _ h => nomatch h
            stop := hinside
            complete := fun h => nomatch h
            access := fun h => next_throws e hnext (Option.some.inj h) }
      | ok result =>
          cases result with
          | none =>
              have hdone := next_eq_none.mp hnext
              rw [walk_of_done hdone]
              exact {
                adjacent := rfl
                spans := fun _ h => nomatch h
                stop := hinside
                complete := fun _ => hdone
                access := fun h => nomatch h }
          | some pair =>
              obtain ⟨span, after⟩ := pair
              have hstep := step_of_next hnext
              have hafter := after.inside
              have hrest := ih after.remaining (hleft ▸ remaining_lt hnext) after rfl
              rw [walk_of_next hnext]
              rw [hstep.stop, hstep.payload] at hafter
              exact {
                adjacent := ⟨hstep.start, hstep.stop ▸ hrest.adjacent⟩
                spans := by
                  intro s hs
                  cases List.mem_cons.mp hs with
                  | inl heq => exact heq ▸ hafter
                  | inr hmem => exact hstep.payload ▸ hrest.spans s hmem
                stop := hstep.payload ▸ hrest.stop
                complete := fun h => hstep.payload ▸ hrest.complete h
                access := hrest.access }

/-- Over frames a walk yields the records and ends. -/
theorem walk_frames {records : List RecordView} (hrange : ∀ record ∈ records, record.InRange)
    (hlimit : ∀ record ∈ records, record.payload.length + 8 ≤ cursor.maximumRecordSize)
    (hframes : cursor.chunkPayload.drop cursor.offset = records.flatMap RecordView.frame) :
    cursor.walk.spans.map (·.view cursor.chunkPayload) = records ∧ cursor.walk.failure = none := by
  induction records generalizing cursor with
  | nil =>
      have hinside := cursor.inside
      have hlength := List.drop_eq_nil_iff.mp hframes
      have hdone : cursor.Done := le_antisymm hinside hlength
      rw [walk_of_done hdone]
      exact ⟨rfl, rfl⟩
  | cons record records ih =>
      obtain ⟨hrecord, hranges⟩ := List.forall_mem_cons.mp hrange
      obtain ⟨hsize, hlimits⟩ := List.forall_mem_cons.mp hlimit
      obtain ⟨span, after, hnext, hview, hrest, hpayload, hmaximum⟩ :=
        next_frame hrecord hsize hframes
      rw [← hmaximum] at hlimits
      obtain ⟨hspans, hfailure⟩ := ih hranges hlimits hrest
      rw [hpayload] at hspans
      rw [walk_of_next hnext]
      refine ⟨?_, hfailure⟩
      rw [List.map_cons, hview, hspans]

end Walks

end RecordCursor

/-! ## Framing -/

/-- Successive calls of `append_record`. -/
def appendRecords (maximumRecordSize : ℕ) (records : List RecordView) (chunkPayload : Bytes) :
    Except Error Bytes :=
  records.foldlM (fun payload record => appendRecord payload record maximumRecordSize) chunkPayload

theorem appendRecords_eq_ok {maximumRecordSize : ℕ} {records : List RecordView}
    {chunkPayload output : Bytes}
    (h : appendRecords maximumRecordSize records chunkPayload = .ok output) :
    output = chunkPayload ++ records.flatMap RecordView.frame ∧ ∀ record ∈ records,
      record.type ≠ 0 ∧ record.version ≠ 0 ∧ record.payload.length + 8 ≤ maximumRecordSize ∧
        IsWord 4 (record.payload.length + 8) := by
  induction records generalizing chunkPayload with
  | nil =>
      cases h
      exact ⟨(List.append_nil _).symm, fun _ h => nomatch h⟩
  | cons record records ih =>
      obtain ⟨middle, hrecord, h⟩ := bind_eq_ok.mp h
      obtain ⟨⟨htype, hversion, hlimit, hword, -⟩, rfl⟩ := appendRecord_eq_ok.mp hrecord
      obtain ⟨houtput, hrecords⟩ := ih h
      refine ⟨?_, List.forall_mem_cons.mpr ⟨⟨htype, hversion, hlimit, hword⟩, hrecords⟩⟩
      rw [houtput, List.flatMap_cons, List.append_assoc]

/-- A cursor over what `append_record` wrote yields the records and ends; over any bytes it
yields records that lie one behind the other inside of them, up to the end or an error. -/
theorem record_framing_exact :
    (∀ maximumRecordSize records payload,
      (∀ record ∈ records, IsWord 2 record.type ∧ IsWord 2 record.version) →
      appendRecords maximumRecordSize records [] = .ok payload →
      (records ≠ [] ∨ 8 ≤ maximumRecordSize) →
      ∃ cursor, RecordCursor.create payload maximumRecordSize = .ok cursor ∧
        cursor.walk.spans.map (·.view payload) = records ∧ cursor.walk.failure = none) ∧
    ∀ payload maximumRecordSize cursor,
      RecordCursor.create payload maximumRecordSize = .ok cursor →
        cursor.chunkPayload = payload ∧ cursor.offset = 0 ∧ cursor.Covers cursor.walk := by
  constructor
  · intro maximumRecordSize records payload hwords happend hlimit
    obtain ⟨hpayload, hrecords⟩ := appendRecords_eq_ok happend
    rw [List.nil_append] at hpayload
    have hheader : 8 ≤ maximumRecordSize := by
      cases hlimit with
      | inl hne =>
          obtain ⟨record, hmem⟩ := List.exists_mem_of_ne_nil records hne
          have hsize := (hrecords record hmem).2.2.1
          omega
      | inr hle => exact hle
    refine ⟨⟨payload, 0, maximumRecordSize, Nat.zero_le _⟩, ?_, ?_⟩
    · unfold RecordCursor.create
      rw [failIf_of_not (not_lt.mpr hheader)]
      rfl
    · refine @RecordCursor.walk_frames ⟨payload, 0, maximumRecordSize, Nat.zero_le _⟩ records
        ?_ ?_ hpayload
      · intro record hmem
        obtain ⟨htype, hversion, -, hword⟩ := hrecords record hmem
        exact ⟨⟨htype, (hwords record hmem).1⟩, ⟨hversion, (hwords record hmem).2⟩, hword⟩
      · intro record hmem
        exact (hrecords record hmem).2.2.1
  · intro payload maximumRecordSize cursor hcreate
    unfold RecordCursor.create at hcreate
    obtain ⟨_, -, hcursor⟩ := bind_eq_ok.mp hcreate
    cases hcursor
    exact ⟨rfl, rfl, RecordCursor.covers_walk _⟩

/-- Two records of one and of no bytes, and their ten and eight bytes. -/
theorem record_framing_exact_two : ∃ payload cursor,
    appendRecords 64 [⟨7, 1, [0xAA]⟩, ⟨9, 2, []⟩] [] = .ok payload ∧
      RecordCursor.create payload 64 = .ok cursor ∧
      cursor.walk.spans.map (·.view payload) = [⟨7, 1, [0xAA]⟩, ⟨9, 2, []⟩] ∧
      cursor.walk.failure = none ∧ cursor.Covers cursor.walk := by
  have happend : appendRecords 64 [⟨7, 1, [0xAA]⟩, ⟨9, 2, []⟩] [] = .ok _ := rfl
  obtain ⟨cursor, hcreate, hspans, hfailure⟩ := record_framing_exact.1 64 _ _
    (by decide) happend (.inl (List.cons_ne_nil _ _))
  exact ⟨_, cursor, happend, hcreate, hspans, hfailure,
    (record_framing_exact.2 _ _ cursor hcreate).2.2⟩

end Noleax.Trace
