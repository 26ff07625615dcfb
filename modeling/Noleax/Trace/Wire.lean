import Noleax.Lib.Bytes
import Noleax.Trace.Event

/-!
# Records in a chunk payload (`trace/wire_format.cpp`, `trace/trace_reader.cpp`, `trace/record_codec.cpp`)

The fields of a payload and the reader that takes them apart, the frame of a record,
and the cursor over the records of a chunk. A reader's state is what is left of its
input.
-/

namespace Noleax.Trace

open Lib

/-! ## Sizes -/

def fileHeaderSize : ℕ := 68
def chunkHeaderSize : ℕ := 56
def recordHeaderSize : ℕ := 8

/-! ## Fields -/

def appendU8 (value : ℕ) : Bytes := littleEndian 1 value
def appendU16 (value : ℕ) : Bytes := littleEndian 2 value
def appendU32 (value : ℕ) : Bytes := littleEndian 4 value
def appendU64 (value : ℕ) : Bytes := littleEndian 8 value
def appendZeros (count : ℕ) : Bytes := List.replicate count 0

@[simp] theorem appendU16_zero : appendU16 0 = appendZeros 2 := rfl

@[simp] theorem appendU32_zero : appendU32 0 = appendZeros 4 := rfl

/-- The two's complement of an `int32`. -/
def appendI32 (value : ℤ) : Bytes := appendU32 (value % 2 ^ 32).toNat

/-- The two's complement of an `int64`. -/
def appendI64 (value : ℤ) : Bytes := appendU64 (value % 2 ^ 64).toNat

def appendBool (value : Bool) : Bytes := appendU8 (if value then 1 else 0)

/-- `PayloadReader` -/
abbrev PayloadReader := EStateM Error Bytes

def payloadTruncated : Error := .recordCodec "record payload is truncated"

def readU8 : PayloadReader ℕ := readWord payloadTruncated 1
def readU16 : PayloadReader ℕ := readWord payloadTruncated 2
def readU32 : PayloadReader ℕ := readWord payloadTruncated 4
def readU64 : PayloadReader ℕ := readWord payloadTruncated 8

def readString (size : ℕ) : PayloadReader Bytes := takeBytes payloadTruncated size

def readGuid : PayloadReader Bytes := takeBytes payloadTruncated 16

def expectZeros (count : ℕ) : PayloadReader Unit := do
  let bytes ← takeBytes payloadTruncated count
  check (failIf (bytes ≠ appendZeros count)
    (.recordCodec "record reserved bytes must be zero"))

def expectDone : PayloadReader Unit := do
  check (failIf ((← get) ≠ []) (.recordCodec "record payload has trailing bytes"))

/-- `std::bit_cast<std::int32_t>` -/
def signed32 (value : ℕ) : ℤ := if value < 2 ^ 31 then value else (value : ℤ) - 2 ^ 32

/-- `std::bit_cast<std::int64_t>` -/
def signed64 (value : ℕ) : ℤ := if value < 2 ^ 63 then value else (value : ℤ) - 2 ^ 64

def readI32 : PayloadReader ℤ := do return signed32 (← readU32)

def readI64 : PayloadReader ℤ := do return signed64 (← readU64)

def decodeFlag (field : String) (value : ℕ) : Except Error Bool := do
  failIf (1 < value) (.recordCodec field)
  return value ≠ 0

def decodeBool (field : String) : PayloadReader Bool := do
  check (decodeFlag field (← readU8))

/-- An optional field; `blank` says that its bytes are those of an absent one. -/
def decodeOptional {α : Type} (present : Bool) (value : α) (blank : Prop) [Decidable blank]
    (what : String) : Except Error (Option α) :=
  if present then .ok (some value)
  else do
    failIf (¬ blank) (.recordCodec what)
    return none

/-- An enumeration with the byte that stands for each of its values. -/
structure Coding (α : Type) where
  values : List α
  code : α → ℕ
  complete : ∀ v, v ∈ values
  injective : ∀ v w, code v = code w → v = w
  byte : ∀ v, IsWord 1 (code v)

/-- The value of a code. -/
def Coding.find {α : Type} (coding : Coding α) (n : ℕ) : Option α :=
  coding.values.find? fun v => coding.code v = n

/-- The value whose code was read. -/
def Coding.decode {α : Type} (coding : Coding α) (e : Error) (n : ℕ) : Except Error α :=
  match coding.find n with
  | some v => .ok v
  | none => .error e

def Coding.append {α : Type} (coding : Coding α) (v : α) : Bytes := appendU8 (coding.code v)

def Coding.read {α : Type} (coding : Coding α) (what : String) : PayloadReader α := do
  check (coding.decode (.recordCodec what) (← readU8))

/-! ### What the readers accept -/

theorem reads_u8 : Reads (IsWord 1) appendU8 readU8 := reads_readWord _ _
theorem reads_u16 : Reads (IsWord 2) appendU16 readU16 := reads_readWord _ _
theorem reads_u32 : Reads (IsWord 4) appendU32 readU32 := reads_readWord _ _
theorem reads_u64 : Reads (IsWord 8) appendU64 readU64 := reads_readWord _ _

theorem reads_string (size : ℕ) :
    Reads (fun bytes => bytes.length = size) id (readString size) :=
  reads_takeBytes _ _

theorem reads_guid : Reads (fun bytes => bytes.length = 16) id readGuid := reads_takeBytes _ _

theorem reads_zeros (count : ℕ) :
    Reads (fun _ => True) (fun _ => appendZeros count) (expectZeros count) := by
  intro input u rest
  unfold expectZeros
  rw [(reads_takeBytes payloadTruncated count).bind_iff]
  constructor
  · rintro ⟨bytes, -, middle, rfl, hcheck⟩
    obtain ⟨hzeros, rfl⟩ := run_check_eq_ok.mp hcheck
    rw [failIf_eq_ok, not_not] at hzeros
    exact ⟨trivial, by rw [hzeros]; rfl⟩
  · rintro ⟨-, rfl⟩
    refine ⟨appendZeros count, List.length_replicate, rest, rfl, ?_⟩
    rw [failIf_of_not (by simp)]
    rfl

/-- The values of an `int32`. -/
def IsInt32 (value : ℤ) : Prop := -2 ^ 31 ≤ value ∧ value < 2 ^ 31

/-- The values of an `int64`. -/
def IsInt64 (value : ℤ) : Prop := -2 ^ 63 ≤ value ∧ value < 2 ^ 63

theorem reads_i32 : Reads IsInt32 appendI32 readI32 := by
  refine reads_u32.mapped (fun value : ℤ => (value % 2 ^ 32).toNat) ?_ ?_
  · intro n hn
    unfold IsWord at hn
    unfold IsInt32 signed32
    split <;> omega
  · rintro value ⟨hlow, hhigh⟩
    unfold IsWord signed32
    split <;> omega

theorem reads_i64 : Reads IsInt64 appendI64 readI64 := by
  refine reads_u64.mapped (fun value : ℤ => (value % 2 ^ 64).toNat) ?_ ?_
  · intro n hn
    unfold IsWord at hn
    unfold IsInt64 signed64
    split <;> omega
  · rintro value ⟨hlow, hhigh⟩
    unfold IsWord signed64
    split <;> omega

theorem decodeFlag_eq_ok {field : String} {value : ℕ} {flag : Bool} :
    decodeFlag field value = .ok flag ↔ value = if flag then 1 else 0 := by
  unfold decodeFlag
  rw [failIf_bind_eq_ok]
  constructor
  · rintro ⟨hle, h⟩
    cases h
    by_cases hzero : value = 0
    · simp [hzero]
    · simp [hzero]
      omega
  · rintro rfl
    cases flag <;> exact ⟨by decide, rfl⟩

theorem reads_bool (field : String) : Reads (fun _ => True) appendBool (decodeBool field) := by
  refine Reads.congr (reads_u8.decoded fun n flag => decodeFlag_eq_ok) ?_ fun _ => rfl
  intro flag
  cases flag <;> simp [IsWord]

theorem decodeOptional_eq_ok {α : Type} {present : Bool} {value : α} {blank : Prop}
    [Decidable blank] {what : String} {result : Option α} :
    decodeOptional present value blank what = .ok result ↔
      result.isSome = present ∧ (∀ v ∈ result, v = value) ∧ (result = none → blank) := by
  unfold decodeOptional
  cases present with
  | true => cases result <;> simp [eq_comm]
  | false =>
      rw [if_neg Bool.false_ne_true, failIf_bind_eq_ok, not_not]
      cases result <;> simp

/-- A component of an optional field that is zero when the field is absent. -/
theorem decodeOptional_elim {α β : Type} {present : Bool} {value : α} {blank : Prop}
    [Decidable blank] {what : String} {result : Option α}
    (h : decodeOptional present value blank what = .ok result) (f : α → β) {zero : β}
    (hblank : blank → f value = zero) : result.elim zero f = f value := by
  obtain ⟨-, hvalue, hnone⟩ := decodeOptional_eq_ok.mp h
  cases result with
  | none => exact (hblank (hnone rfl)).symm
  | some v =>
      show f v = f value
      rw [hvalue v rfl]

section Codings

variable {α : Type} (coding : Coding α)

theorem Coding.find_eq_some {n : ℕ} {v : α} : coding.find n = some v ↔ n = coding.code v := by
  unfold Coding.find
  constructor
  · intro hfind
    have hcode : coding.code v = n := by simpa using List.find?_some hfind
    exact hcode.symm
  · rintro rfl
    cases hfound : coding.values.find? (fun w => coding.code w = coding.code v) with
    | none => simpa using List.find?_eq_none.mp hfound v (coding.complete v)
    | some w =>
        have hcode : coding.code w = coding.code v := by simpa using List.find?_some hfound
        rw [coding.injective w v hcode]

theorem Coding.decode_eq_ok (e : Error) {n : ℕ} {v : α} :
    coding.decode e n = .ok v ↔ n = coding.code v := by
  rw [← coding.find_eq_some]
  unfold Coding.decode
  cases coding.find n <;> simp

theorem Coding.reads (what : String) :
    Reads (fun _ => True) coding.append (coding.read what) := by
  refine Reads.congr (reads_u8.decoded fun n v => coding.decode_eq_ok (.recordCodec what)) ?_
    fun _ => rfl
  intro v
  simp [coding.byte v]

end Codings

/-! ## Frames -/

structure RecordView where
  type : ℕ
  version : ℕ
  payload : Bytes
deriving DecidableEq, Repr

/-- The fields of a view that were read from a frame. -/
def RecordView.InRange (record : RecordView) : Prop :=
  (record.type ≠ 0 ∧ IsWord 2 record.type) ∧ (record.version ≠ 0 ∧ IsWord 2 record.version) ∧
    IsWord 4 (record.payload.length + 8)

def RecordView.frame (record : RecordView) : Bytes :=
  appendU16 record.type ++ appendU16 record.version ++ appendU32 (record.payload.length + 8) ++
    record.payload

/-- `append_record` -/
def appendRecord (chunkPayload : Bytes) (record : RecordView) (maximumRecordSize : ℕ) :
    Except Error Bytes := do
  failIf (record.type = 0) (.wireFormat "record type must not be zero")
  failIf (record.version = 0) (.wireFormat "record version must not be zero")
  failIf (maximumRecordSize < 8 ∨ maximumRecordSize - 8 < record.payload.length)
    (.wireFormat "record exceeds the configured size limit")
  failIf (2 ^ 32 - 1 - 8 < record.payload.length) (.wireFormat "record size does not fit uint32")
  failIf (maxU64 - (record.payload.length + 8) < chunkPayload.length)
    (.wireFormat "chunk payload size overflow")
  return chunkPayload ++ record.frame

/-- `RecordCursor::next`, where a record is left. -/
def nextRecord (maximumRecordSize : ℕ) : PayloadReader RecordView := do
  let remaining := (← get).length
  check (failIf (remaining < 8) (.traceRead "record header is truncated"))
  let type ← readU16
  let version ← readU16
  let size ← readU32
  check (failIf (type = 0 ∨ version = 0) (.traceRead "record type and version must not be zero"))
  check (failIf (size < 8 ∨ maximumRecordSize < size ∨ remaining < size)
    (.traceRead "record size is invalid"))
  let payload ← takeBytes payloadTruncated (size - 8)
  return ⟨type, version, payload⟩

/-- Two strings and what is fixed do not fit a record of `maximumRecordSize`. -/
abbrev stringsExceed (first second : Bytes) (fixed maximumRecordSize : ℕ) : Prop :=
  2 ^ 32 - 1 < first.length ∨ 2 ^ 32 - 1 < second.length ∨ maximumRecordSize < 8 + fixed ∨
    maximumRecordSize - 8 - fixed < first.length + second.length

theorem appendRecord_eq_ok {chunkPayload output : Bytes} {record : RecordView}
    {maximumRecordSize : ℕ} :
    appendRecord chunkPayload record maximumRecordSize = .ok output ↔
      (record.type ≠ 0 ∧ record.version ≠ 0 ∧ record.payload.length + 8 ≤ maximumRecordSize ∧
        record.payload.length + 8 < 2 ^ 32 ∧
        chunkPayload.length + (record.payload.length + 8) ≤ maxU64) ∧
      output = chunkPayload ++ record.frame := by
  have hmax : maxU64 = 2 ^ 64 - 1 := rfl
  unfold appendRecord
  simp only [failIf_bind_eq_ok, pure_eq_ok]
  constructor
  · rintro ⟨htype, hversion, hsize, hword, htotal, h⟩
    cases h
    exact ⟨⟨htype, hversion, by omega, by omega, by omega⟩, rfl⟩
  · rintro ⟨⟨htype, hversion, hsize, hword, htotal⟩, rfl⟩
    exact ⟨htype, hversion, by omega, by omega, by omega, rfl⟩

theorem RecordView.frame_length (record : RecordView) :
    record.frame.length = record.payload.length + 8 := by
  simp [RecordView.frame, appendU16, appendU32]
  omega

/-- The cursor accepts exactly the frames within its limit. -/
theorem reads_record (maximumRecordSize : ℕ) :
    Reads (fun record => record.InRange ∧ record.payload.length + 8 ≤ maximumRecordSize)
      RecordView.frame (nextRecord maximumRecordSize) := by
  intro input record rest
  unfold nextRecord
  simp only [run_bind_eq_ok, run_get_eq_ok, run_check_eq_ok, failIf_eq_ok, run_pure_eq_ok,
    reads_u16 _ _ _, reads_u32 _ _ _, reads_takeBytes payloadTruncated _ _ _ _]
  constructor
  · rintro ⟨_, _, ⟨rfl, rfl⟩, _, _, ⟨-, rfl⟩, type, afterType, ⟨htype, rfl⟩, version, afterVersion,
      ⟨hversion, rfl⟩, size, afterSize, ⟨hsize, rfl⟩, _, _, ⟨hzero, rfl⟩, _, _, ⟨hlimits, rfl⟩,
      payload, _, ⟨hpayload, rfl⟩, rfl, rfl⟩
    have heq : payload.length + 8 = size := by omega
    refine ⟨⟨⟨⟨by tauto, htype⟩, ⟨by tauto, hversion⟩, by rw [heq]; exact hsize⟩, by
      dsimp only; omega⟩, ?_⟩
    simp [RecordView.frame, heq]
  · rintro ⟨⟨⟨⟨htype, htypeWord⟩, ⟨hversion, hversionWord⟩, hsize⟩, hlimit⟩, rfl⟩
    have hlength := record.frame_length
    refine ⟨_, _, ⟨rfl, rfl⟩, (), _, ⟨?_, rfl⟩, record.type, _, ⟨htypeWord, ?_⟩, record.version, _,
      ⟨hversionWord, rfl⟩, record.payload.length + 8, _, ⟨hsize, rfl⟩, (), _, ⟨?_, rfl⟩, (), _,
      ⟨?_, rfl⟩, record.payload, rest, ⟨by simp, rfl⟩, rfl, rfl⟩
    · rw [List.length_append]
      omega
    · simp [RecordView.frame]
    · tauto
    · rw [List.length_append]
      omega

/-! ## All records of a chunk -/

section Records

variable {σ : Type}

/-- The loop over `RecordCursor::next`. A record is longer than its header, so that the
length of the payload is fuel enough. -/
def recordLoop (maximumRecordSize : ℕ) (step : σ → RecordView → Except Error σ) :
    ℕ → σ → Bytes → Except Error σ
  | _, s, [] => .ok s
  | 0, s, _ :: _ => .ok s
  | fuel + 1, s, byte :: bytes =>
      match nextRecord maximumRecordSize (byte :: bytes) with
      | .ok record rest => do recordLoop maximumRecordSize step fuel (← step s record) rest
      | .error e _ => .error e

def forRecords (maximumRecordSize : ℕ) (step : σ → RecordView → Except Error σ) (s : σ)
    (payload : Bytes) : Except Error σ := do
  failIf (maximumRecordSize < 8)
    (.traceRead "maximum record size is smaller than the record header")
  recordLoop maximumRecordSize step payload.length s payload

/-- The records of a payload that is cut into frames. -/
structure Frames (maximumRecordSize : ℕ) (records : List RecordView) (payload : Bytes) :
    Prop where
  inRange : ∀ record ∈ records, record.InRange
  limit : ∀ record ∈ records, record.payload.length + 8 ≤ maximumRecordSize
  payload : payload = records.flatMap RecordView.frame

variable {maximumRecordSize : ℕ} {step : σ → RecordView → Except Error σ} {payload : Bytes}

theorem frames_nil : Frames maximumRecordSize [] payload ↔ payload = [] :=
  ⟨fun h => h.payload, fun h => ⟨by simp, by simp, h⟩⟩

theorem frames_cons {record : RecordView} {records : List RecordView} :
    Frames maximumRecordSize (record :: records) payload ↔
      (record.InRange ∧ record.payload.length + 8 ≤ maximumRecordSize) ∧
        ∃ rest, payload = record.frame ++ rest ∧ Frames maximumRecordSize records rest := by
  constructor
  · rintro ⟨hrange, hlimit, rfl⟩
    refine ⟨⟨hrange record (by simp), hlimit record (by simp)⟩, _, by simp,
      fun r hr => hrange r (by simp [hr]), fun r hr => hlimit r (by simp [hr]), rfl⟩
  · rintro ⟨⟨hrange, hlimit⟩, _, rfl, hranges, hlimits, rfl⟩
    refine ⟨?_, ?_, by simp⟩
    · intro r hr
      rcases List.mem_cons.mp hr with rfl | hr
      · exact hrange
      · exact hranges r hr
    · intro r hr
      rcases List.mem_cons.mp hr with rfl | hr
      · exact hlimit
      · exact hlimits r hr

/-- A frame is longer than what is left after it. -/
theorem rest_length {record : RecordView} {rest : Bytes} (h : payload = record.frame ++ rest) :
    rest.length < payload.length := by
  rw [h, List.length_append, record.frame_length]
  omega

theorem recordLoop_nil {fuel : ℕ} {s t : σ} :
    recordLoop maximumRecordSize step fuel s [] = .ok t ↔
      ∃ records, Frames maximumRecordSize records [] ∧ records.foldlM step s = .ok t := by
  constructor
  · intro h
    refine ⟨[], frames_nil.mpr rfl, ?_⟩
    cases fuel <;> exact h
  · rintro ⟨records, hframes, hfold⟩
    cases records with
    | nil => cases fuel <;> exact hfold
    | cons record records =>
        obtain ⟨-, rest, hinput, -⟩ := frames_cons.mp hframes
        exact absurd (rest_length hinput) (Nat.not_lt_zero _)

/-- The loop goes through exactly the frames of its payload. -/
theorem recordLoop_eq_ok {fuel : ℕ} (hfuel : payload.length ≤ fuel) {s t : σ} :
    recordLoop maximumRecordSize step fuel s payload = .ok t ↔
      ∃ records, Frames maximumRecordSize records payload ∧ records.foldlM step s = .ok t := by
  induction fuel generalizing s payload with
  | zero =>
      obtain rfl : payload = [] := List.length_eq_zero_iff.mp (by omega)
      exact recordLoop_nil
  | succ fuel ih =>
      cases payload with
      | nil => exact recordLoop_nil
      | cons byte bytes =>
          unfold recordLoop
          constructor
          · intro h
            split at h
            · rename_i record rest hnext
              obtain ⟨hrecord, hinput⟩ := (reads_record _ _ _ _).mp hnext
              have hlength : rest.length ≤ fuel := by
                have := rest_length hinput
                omega
              obtain ⟨s', hstep, hrest⟩ := bind_eq_ok.mp h
              obtain ⟨records, hframes, hfold⟩ := (ih hlength).mp hrest
              refine ⟨record :: records, frames_cons.mpr ⟨hrecord, rest, hinput, hframes⟩, ?_⟩
              rw [List.foldlM_cons, hstep]
              exact hfold
            · cases h
          · rintro ⟨records, hframes, hfold⟩
            cases records with
            | nil => cases frames_nil.mp hframes
            | cons record records =>
                obtain ⟨hrecord, rest, hinput, hframes⟩ := frames_cons.mp hframes
                have hlength : rest.length ≤ fuel := by
                  have := rest_length hinput
                  omega
                rw [(reads_record _ _ _ _).mpr ⟨hrecord, hinput⟩]
                rw [List.foldlM_cons] at hfold
                obtain ⟨s', hstep, hfold⟩ := bind_eq_ok.mp hfold
                exact bind_eq_ok.mpr ⟨s', hstep, (ih hlength).mpr ⟨records, hframes, hfold⟩⟩

theorem forRecords_eq_ok {s t : σ} :
    forRecords maximumRecordSize step s payload = .ok t ↔ 8 ≤ maximumRecordSize ∧
      ∃ records, Frames maximumRecordSize records payload ∧ records.foldlM step s = .ok t := by
  unfold forRecords
  rw [failIf_bind_eq_ok, Nat.not_lt, recordLoop_eq_ok (Nat.le_refl _)]

end Records

/-! ## Codecs of one kind of record -/

section Codecs

variable {α : Type}

/-- `kRecordVersion` -/
def recordVersion : ℕ := 1

/-- How a decoder reports what a validator threw. -/
def asInvalid (subject : String) : Except Error Unit → Except Error Unit
  | .ok () => .ok ()
  | .error e => .error (.recordCodec ("invalid " ++ subject ++ " record: " ++ e.what))

theorem asInvalid_eq_ok {subject : String} {result : Except Error Unit} :
    asInvalid subject result = .ok () ↔ result = .ok () := by
  cases result with
  | ok u => exact iff_of_true rfl rfl
  | error e =>
      constructor <;>
      · intro h
        cases h

/-- A decoder of one type of record; the reader knows the size of the payload. -/
def decodeRecord (type : ℕ) (read : ℕ → PayloadReader α) (record : RecordView) :
    Except Error (Option α) :=
  if record.type ≠ type ∨ record.version ≠ recordVersion then .ok none
  else do return some (← runReader (read record.payload.length) record.payload)

/-- The decoder accepts exactly the records that carry a value of `P`. -/
def Decodes (P : α → Prop) (type : α → ℕ) (write : α → Bytes)
    (decode : RecordView → Except Error (Option α)) : Prop :=
  ∀ record v, decode record = .ok (some v) ↔ P v ∧ record = ⟨type v, recordVersion, write v⟩

theorem decodes_record {P : α → Prop} {type : ℕ} {write : α → Bytes} {read : ℕ → PayloadReader α}
    (hread : ∀ payload v, runReader (read payload.length) payload = .ok v ↔
      P v ∧ payload = write v) :
    Decodes P (fun _ => type) write (decodeRecord type read) := by
  rintro ⟨recordType, version, payload⟩ v
  unfold decodeRecord
  split
  · rename_i hother
    constructor
    · intro h
      cases h
    · rintro ⟨-, heq⟩
      cases heq
      exact absurd hother (by simp)
  · rename_i hsame
    obtain ⟨rfl, rfl⟩ : recordType = type ∧ version = recordVersion := by
      simpa [not_or] using hsame
    rw [bind_eq_ok]
    constructor
    · rintro ⟨w, hrun, hpure⟩
      cases hpure
      obtain ⟨hv, hpayload⟩ := (hread _ _).mp hrun
      exact ⟨hv, congrArg (RecordView.mk recordType recordVersion) hpayload⟩
    · rintro ⟨hv, heq⟩
      cases heq
      exact ⟨v, (hread _ _).mpr ⟨hv, rfl⟩, rfl⟩

/-- A codec whose decoder returns exactly what was appended, and accepts nothing but what
the values it returns are appended as. -/
structure RoundTrip (P : α → Prop) (append : Bytes → α → ℕ → Except Error Bytes)
    (decode : RecordView → Except Error (Option α)) : Prop where
  decodes : ∀ chunkPayload v maximumRecordSize output, P v →
    append chunkPayload v maximumRecordSize = .ok output →
    ∃ record, output = chunkPayload ++ record.frame ∧
      (∀ rest, nextRecord maximumRecordSize (record.frame ++ rest) = .ok record rest) ∧
      decode record = .ok (some v)
  canonical : ∀ record v, record.InRange → decode record = .ok (some v) →
    P v ∧ ∀ chunkPayload maximumRecordSize, record.payload.length + 8 ≤ maximumRecordSize →
      chunkPayload.length + (record.payload.length + 8) ≤ maxU64 →
      append chunkPayload v maximumRecordSize = .ok (chunkPayload ++ record.frame)

/-- An append function without a limit of its own. -/
theorem validated_bind_eq_ok {valid : Except Error Unit} {append : Except Error Bytes}
    {output : Bytes} :
    (valid >>= fun _ => append) = .ok output ↔ valid = .ok () ∧ True ∧ append = .ok output := by
  rw [bind_eq_ok]
  constructor
  · rintro ⟨⟨⟩, hvalid, happend⟩
    exact ⟨hvalid, trivial, happend⟩
  · rintro ⟨hvalid, -, happend⟩
    exact ⟨(), hvalid, happend⟩

/-- An append function that also knows its own limit. -/
theorem limited_bind_eq_ok {valid : Except Error Unit} {exceeds : Prop} [Decidable exceeds]
    {e : Error} {append : Except Error Bytes} {output : Bytes} :
    (do valid; failIf exceeds e; append) = .ok output ↔
      valid = .ok () ∧ ¬ exceeds ∧ append = .ok output := by
  rw [bind_eq_ok]
  simp only [failIf_bind_eq_ok]
  constructor
  · rintro ⟨⟨⟩, hvalid, happend⟩
    exact ⟨hvalid, happend⟩
  · rintro ⟨hvalid, happend⟩
    exact ⟨(), hvalid, happend⟩

theorem versionFits : recordVersion ≠ 0 ∧ IsWord 2 recordVersion := by decide

/-- From a decoder's equivalence and the checks of the append function. -/
theorem roundTrip_of {P valid : α → Prop} {fits : α → ℕ → Prop} {type : α → ℕ}
    {write : α → Bytes} {append : Bytes → α → ℕ → Except Error Bytes}
    {decode : RecordView → Except Error (Option α)}
    (hdecode : Decodes (fun v => P v ∧ valid v) type write decode)
    (happend : ∀ chunkPayload v maximumRecordSize output,
      append chunkPayload v maximumRecordSize = .ok output ↔ valid v ∧
        fits v maximumRecordSize ∧
        appendRecord chunkPayload ⟨type v, recordVersion, write v⟩ maximumRecordSize =
          .ok output)
    (hfits : ∀ v maximumRecordSize, P v → (write v).length + 8 < 2 ^ 32 →
      (write v).length + 8 ≤ maximumRecordSize → fits v maximumRecordSize)
    (htype : ∀ v, IsWord 2 (type v)) : RoundTrip P append decode where
  decodes chunkPayload v maximumRecordSize output hv h := by
    obtain ⟨hvalid, -, hrecord⟩ := (happend _ _ _ _).mp h
    obtain ⟨⟨hnonzero, -, hlimit, hword, -⟩, rfl⟩ := appendRecord_eq_ok.mp hrecord
    refine ⟨_, rfl, ?_, (hdecode _ _).mpr ⟨⟨hv, hvalid⟩, rfl⟩⟩
    intro rest
    refine (reads_record _ _ _ _).mpr ⟨⟨⟨⟨hnonzero, htype v⟩, versionFits, ?_⟩, hlimit⟩, rfl⟩
    unfold IsWord
    exact hword
  canonical record v hrange h := by
    obtain ⟨⟨hv, hvalid⟩, rfl⟩ := (hdecode _ _).mp h
    obtain ⟨⟨hnonzero, -⟩, -, hword⟩ := hrange
    have hsize : (write v).length + 8 < 2 ^ 32 := hword
    refine ⟨hv, fun chunkPayload maximumRecordSize hlimit htotal => ?_⟩
    refine (happend _ _ _ _).mpr ⟨hvalid, hfits v _ hv hsize hlimit, appendRecord_eq_ok.mpr ?_⟩
    exact ⟨⟨hnonzero, versionFits.1, hlimit, hsize, htotal⟩, rfl⟩

end Codecs

end Noleax.Trace
