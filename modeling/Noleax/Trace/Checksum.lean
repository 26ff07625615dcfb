import Noleax.Lib.Remainder
import Noleax.Trace.FileRoundTrip

/-!
# The checksum of a chunk (`trace/wire_format.cpp`)

The table of `crc32c` does for a byte what eight single bits do, so the checksum is the
remainder of the bits of the payload. Payloads that differ within four consecutive bytes
differ within one word of bits, and a chunk that was stored as it is and damaged there is not
returned.
-/

namespace Noleax.Trace

open Lib
open Lib.Remainder

/-! ## Bit by bit -/

/-- The reflected polynomial of CRC-32C. -/
def castagnoli : BitVec 32 := 0x82F63B78

/-- The bits of a byte, the lowest first. -/
def byteBits (byte : UInt8) : List Bool := (List.range 8).map fun i => byte.toBitVec.getLsbD i

/-- CRC-32C, bit by bit. -/
def serialCrc32c (bytes : Bytes) : ℕ :=
  (serial castagnoli 0xFFFFFFFF (bytes.flatMap byteBits) ^^^ 0xFFFFFFFF).toNat

theorem castagnoli_msb : castagnoli.msb = true := by decide

@[simp] theorem byteBits_length (byte : UInt8) : (byteBits byte).length = 8 := rfl

theorem bits_length (bytes : Bytes) : (bytes.flatMap byteBits).length = 8 * bytes.length := by
  induction bytes with
  | nil => rfl
  | cons byte bytes ih =>
      rw [List.flatMap_cons, List.length_append, ih, byteBits_length, List.length_cons]
      omega

theorem getD_byteBits (byte : UInt8) (i : ℕ) :
    (byteBits byte).getD i false = byte.toBitVec.getLsbD i := by
  unfold byteBits
  by_cases hbyte : i < 8
  · simp [hbyte]
  · rw [List.getD_eq_default _ _ (by simp; omega), BitVec.getLsbD_of_ge _ _ (by omega)]

theorem ofBits_byteBits (byte : UInt8) : ofBits (byteBits byte) = byte.toUInt32.toBitVec := by
  apply BitVec.eq_of_getLsbD_eq
  intro i hi
  rw [getLsbD_ofBits hi, getD_byteBits, UInt8.toBitVec_toUInt32, BitVec.getLsbD_setWidth]
  simp [hi]

theorem byteBits_injective {byte other : UInt8} (h : byteBits byte = byteBits other) :
    byte = other := by
  apply UInt8.toBitVec_inj.mp
  apply BitVec.eq_of_getLsbD_eq
  intro i _
  rw [← getD_byteBits, h, getD_byteBits]

/-! ## The table -/

/-- The code tests the lowest bit by a mask. -/
theorem low_bit (value : UInt32) : value &&& 1 ≠ 0 ↔ value.toBitVec.getLsbD 0 = true := by
  have hmask : (value &&& 1).toBitVec =
      BitVec.setWidth 32 (BitVec.ofBool (value.toBitVec.getLsbD 0)) :=
    BitVec.and_one_eq_setWidth_ofBool_getLsbD
  have hzero : value &&& 1 = 0 ↔ (value &&& 1).toBitVec = 0#32 := UInt32.toBitVec_inj.symm
  rw [ne_eq, hzero, hmask]
  cases value.toBitVec.getLsbD 0 <;> decide

theorem crc32cBit_toBitVec (value : UInt32) :
    (crc32cBit value).toBitVec = divide castagnoli value.toBitVec := by
  have hshift : (value >>> 1).toBitVec = value.toBitVec >>> 1 := by
    rw [UInt32.toBitVec_shiftRight]
    rfl
  unfold crc32cBit divide
  by_cases hlow : value.toBitVec.getLsbD 0 = true
  · rw [if_pos ((low_bit value).mpr hlow), if_pos hlow, UInt32.toBitVec_xor, hshift]
    rfl
  · rw [if_neg fun h => hlow ((low_bit value).mp h), if_neg hlow, hshift]

theorem crc32cEntry_toBitVec (index : UInt32) :
    (crc32cEntry index).toBitVec = divides castagnoli 8 index.toBitVec := by
  show (crc32cBit (crc32cBit (crc32cBit (crc32cBit (crc32cBit (crc32cBit (crc32cBit
    (crc32cBit index)))))))).toBitVec = _
  simp only [crc32cBit_toBitVec, divides]

theorem low_byte (value : UInt32) : (value &&& 0xFF).toBitVec =
    value.toBitVec ^^^ (value.toBitVec >>> 8 <<< 8) := by
  apply BitVec.eq_of_getLsbD_eq
  intro i hi
  have hmask : (0xFF : UInt32).toBitVec.getLsbD i = decide (i < 8) := by
    show (BitVec.ofNat 32 (2 ^ 8 - 1)).getLsbD i = _
    rw [BitVec.getLsbD_ofNat, Nat.testBit_two_pow_sub_one, decide_eq_true hi, Bool.true_and]
  rw [UInt32.toBitVec_and, BitVec.getLsbD_and, hmask, BitVec.getLsbD_xor, BitVec.getLsbD_shiftLeft,
    BitVec.getLsbD_ushiftRight]
  by_cases hlow : i < 8
  · simp [hlow]
  · have hindex : 8 + (i - 8) = i := by omega
    simp [hlow, hi, hindex]

/-- A byte by the table is eight bits. -/
theorem crc32cStep_toBitVec (crc : UInt32) (byte : UInt8) :
    (crc32cStep crc byte).toBitVec = serial castagnoli crc.toBitVec (byteBits byte) := by
  rw [serial_eq (by rw [byteBits_length]; decide), ofBits_byteBits, byteBits_length,
    ← UInt32.toBitVec_xor, divides_split]
  unfold crc32cStep
  rw [UInt32.toBitVec_xor, crc32cEntry_toBitVec]
  have hhigh : (crc ^^^ byte.toUInt32).toBitVec >>> 8 = (crc >>> 8).toBitVec := by
    have hbyte : byte.toUInt32.toBitVec >>> 8 = 0#32 := by
      apply BitVec.eq_of_getLsbD_eq
      intro i _
      rw [BitVec.getLsbD_ushiftRight, UInt8.toBitVec_toUInt32, BitVec.getLsbD_setWidth,
        BitVec.getLsbD_of_ge _ _ (by omega), Bool.and_false, BitVec.getLsbD_zero]
    rw [UInt32.toBitVec_xor, BitVec.ushiftRight_xor_distrib, hbyte, BitVec.xor_zero,
      UInt32.toBitVec_shiftRight]
    rfl
  have hlow : ((crc ^^^ byte.toUInt32) &&& 0xFF).toBitVec = (crc ^^^ byte.toUInt32).toBitVec ^^^
      ((crc ^^^ byte.toUInt32).toBitVec >>> 8 <<< 8) := low_byte _
  rw [hlow, hhigh]

theorem fold_crc32cStep (crc : UInt32) (bytes : Bytes) : (bytes.foldl crc32cStep crc).toBitVec =
    serial castagnoli crc.toBitVec (bytes.flatMap byteBits) := by
  induction bytes generalizing crc with
  | nil => rfl
  | cons byte bytes ih =>
      rw [List.foldl_cons, ih, crc32cStep_toBitVec, List.flatMap_cons, serial_append]

theorem crc32c_eq_serial (bytes : Bytes) : crc32c bytes = serialCrc32c bytes := by
  unfold crc32c serialCrc32c
  show (~~~ (bytes.foldl crc32cStep 0xFFFFFFFF)).toBitVec.toNat = _
  have hnot (x : BitVec 32) : ~~~ x = x ^^^ 0xFFFFFFFF := (BitVec.xor_allOnes).symm
  rw [UInt32.toBitVec_not, fold_crc32cStep, hnot]
  rfl

/-! ## Damage -/

/-- The bytes differ at most at the four places from `start` on. -/
def DamagedWithin (start : ℕ) (payload damaged : Bytes) : Prop :=
  damaged.length = payload.length ∧
    ∀ i, i < start ∨ start + 4 ≤ i → damaged[i]? = payload[i]?

section Damage

variable {start : ℕ} {payload damaged : Bytes}

theorem bits_injective {bytes other : Bytes}
    (h : bytes.flatMap byteBits = other.flatMap byteBits) : bytes = other := by
  induction bytes generalizing other with
  | nil =>
      have hlength := congrArg List.length h
      rw [bits_length, bits_length, List.length_nil] at hlength
      exact (List.length_eq_zero_iff.mp (by omega)).symm
  | cons byte bytes ih =>
      cases other with
      | nil =>
          have hlength := congrArg List.length h
          rw [bits_length, bits_length, List.length_cons, List.length_nil] at hlength
          omega
      | cons byte' other =>
          rw [List.flatMap_cons, List.flatMap_cons] at h
          obtain ⟨hbyte, hbytes⟩ := List.append_inj h rfl
          rw [byteBits_injective hbyte, ih hbytes]

/-- What is around the damage, and the damage. -/
theorem DamagedWithin.split (h : DamagedWithin start payload damaged) :
    ∃ before window window' after, payload = before ++ window ++ after ∧
      damaged = before ++ window' ++ after ∧ window.length = window'.length ∧
      window.length ≤ 4 := by
  obtain ⟨hlength, hsame⟩ := h
  have hbefore : damaged.take start = payload.take start := by
    apply List.ext_getElem?
    intro i
    rw [List.getElem?_take, List.getElem?_take]
    split
    · rename_i hi
      exact hsame i (.inl hi)
    · rfl
  have hafter : damaged.drop (start + 4) = payload.drop (start + 4) := by
    apply List.ext_getElem?
    intro i
    rw [List.getElem?_drop, List.getElem?_drop]
    exact hsame (start + 4 + i) (.inr (Nat.le_add_right _ _))
  have hsplit (bytes : Bytes) :
      bytes = bytes.take start ++ (bytes.drop start).take 4 ++ bytes.drop (start + 4) := by
    rw [List.append_assoc, ← List.drop_drop, List.take_append_drop, List.take_append_drop]
  refine ⟨payload.take start, (payload.drop start).take 4, (damaged.drop start).take 4,
    payload.drop (start + 4), hsplit payload, ?_, ?_, ?_⟩
  · rw [← hbefore, ← hafter]
    exact hsplit damaged
  · rw [List.length_take, List.length_take, List.length_drop, List.length_drop, hlength]
  · exact List.length_take_le _ _

/-- The checksum of a damaged payload is another one. -/
theorem DamagedWithin.crc32c_ne (h : DamagedWithin start payload damaged)
    (hne : damaged ≠ payload) : crc32c damaged ≠ crc32c payload := by
  obtain ⟨before, window, window', after, rfl, rfl, hlength, hword⟩ := h.split
  have hwindow : window'.flatMap byteBits ≠ window.flatMap byteBits :=
    fun hbits => hne (congrArg (before ++ · ++ after) (bits_injective hbits))
  rw [crc32c_eq_serial, crc32c_eq_serial]
  intro hsum
  have hremainder := (BitVec.xor_left_inj _).mp (BitVec.eq_of_toNat_eq hsum)
  rw [List.flatMap_append, List.flatMap_append, List.flatMap_append, List.flatMap_append]
    at hremainder
  refine serial_ne castagnoli_msb ?_ ?_ hwindow hremainder
  · rw [bits_length, bits_length, hlength]
  · rw [bits_length]
    omega

end Damage

/-! ## Damage in a file -/

section Files

variable {options : TraceReaderOptions} {decompressors : Decompressors}
  {reader after : TraceReader}

/-- The fields of a header fit their bytes. -/
structure RawChunkHeader.InRange (raw : RawChunkHeader) : Prop where
  type : IsWord 2 raw.type
  version : IsWord 2 raw.version
  headerSize : IsWord 2 raw.headerSize
  flags : IsWord 2 raw.flags
  codec : IsWord 1 raw.codec
  sequences : IsWord 8 raw.sequenceBegin ∧ IsWord 8 raw.sequenceEnd
  sizes : IsWord 8 raw.uncompressedSize ∧ IsWord 8 raw.storedSize
  checksum : IsWord 4 raw.crc32c

theorem RawChunkHeader.Accepted.inRange {raw : RawChunkHeader} (h : raw.Accepted options) :
    raw.InRange :=
  ⟨h.type, h.version.2, h.headerSize, h.flags, h.codec, h.sequences, h.words, h.checksum⟩

theorem littleEndian_inj {width m n : ℕ} (hm : IsWord width m) (hn : IsWord width n)
    (h : littleEndian width m = littleEndian width n) : m = n := by
  rw [← ofLittleEndian_littleEndian hm, h, ofLittleEndian_littleEndian hn]

theorem appendChunkHeader_injective {raw other : RawChunkHeader} (hraw : raw.InRange)
    (hother : other.InRange) (h : appendChunkHeader raw = appendChunkHeader other) :
    raw = other := by
  unfold appendChunkHeader at h
  obtain ⟨h, -⟩ := List.append_inj' h rfl
  obtain ⟨h, hchecksum⟩ := List.append_inj' h (by simp [appendU32])
  obtain ⟨h, hstored⟩ := List.append_inj' h (by simp [appendU64])
  obtain ⟨h, huncompressed⟩ := List.append_inj' h (by simp [appendU64])
  obtain ⟨h, hend⟩ := List.append_inj' h (by simp [appendU64])
  obtain ⟨h, hbegin⟩ := List.append_inj' h (by simp [appendU64])
  obtain ⟨h, -⟩ := List.append_inj' h rfl
  obtain ⟨h, hcodec⟩ := List.append_inj' h (by simp [appendU8])
  obtain ⟨h, hflags⟩ := List.append_inj' h (by simp [appendU16])
  obtain ⟨h, hsize⟩ := List.append_inj' h (by simp [appendU16])
  obtain ⟨htype, hversion⟩ := List.append_inj' h (by simp [appendU16])
  cases raw
  cases other
  simp only [RawChunkHeader.mk.injEq]
  exact ⟨littleEndian_inj hraw.type hother.type htype,
    littleEndian_inj hraw.version hother.version hversion,
    littleEndian_inj hraw.headerSize hother.headerSize hsize,
    littleEndian_inj hraw.flags hother.flags hflags,
    littleEndian_inj hraw.codec hother.codec hcodec,
    littleEndian_inj hraw.sequences.1 hother.sequences.1 hbegin,
    littleEndian_inj hraw.sequences.2 hother.sequences.2 hend,
    littleEndian_inj hraw.sizes.1 hother.sizes.1 huncompressed,
    littleEndian_inj hraw.sizes.2 hother.sizes.2 hstored,
    littleEndian_inj hraw.checksum hother.checksum hchecksum⟩

/-- The header that the writer wrote for a payload. -/
theorem StoredChunk.header_inRange {chunk : StoredChunk} (hrange : chunk.descriptor.InRange)
    (hpayload : chunk.payload.length ≤ maxU64) (hstored : chunk.stored.length ≤ maxU64) :
    chunk.header.raw.InRange where
  type := Nat.lt_trans (ChunkType.coding.byte chunk.descriptor.type) (by decide)
  version := hrange.1
  headerSize := (by decide : IsWord 2 chunkHeaderSize)
  flags := hrange.2.1
  codec := CompressionCodec.coding.byte chunk.descriptor.codec
  sequences := hrange.2.2
  sizes := ⟨Nat.lt_of_le_of_lt hpayload (by decide), Nat.lt_of_le_of_lt hstored (by decide)⟩
  checksum := crc32c_isWord chunk.payload

theorem finish_ended {status : ChunkReadStatus} {result : Option ChunkReadResult}
    (h : finish status reader = .ok result after) : ∃ status, result = some (.ended status) := by
  cases h
  exact ⟨status, rfl⟩

/-- A payload that fails its checksum is no chunk. -/
theorem readStored_damaged {raw : RawChunkHeader} {type : ChunkType} {damaged rest : Bytes}
    {result : Option ChunkReadResult} (hinput : reader.input = damaged ++ rest)
    (hsize : raw.storedSize = damaged.length) (hsum : crc32c damaged ≠ raw.crc32c)
    (h : readStored decompressors raw type .none reader = .ok result after) :
    ∃ status, result = some (.ended status) := by
  unfold readStored at h
  rw [run_bind, noteVersion_run] at h
  obtain ⟨_, middle, hcheck, h⟩ := run_bind_eq_ok.mp h
  obtain ⟨-, rfl⟩ := run_check_eq_ok.mp hcheck
  obtain ⟨exact, middle, hread, h⟩ := run_bind_eq_ok.mp h
  cases exact with
  | complete stored =>
      obtain ⟨hlength, hsplit, -⟩ := readExact_eq_complete hread
      have hstored : stored = damaged := by
        have hsame : stored ++ middle.input = damaged ++ rest := hsplit.symm.trans hinput
        exact (List.append_inj hsame (hlength.trans hsize)).1
      subst hstored
      obtain ⟨chunk, _, hdecode, -⟩ := run_bind_eq_ok.mp h
      obtain ⟨hdecode, -⟩ := run_check_eq_ok.mp hdecode
      exact absurd hsum (failIf_bind_eq_ok.mp hdecode).1
  | noBytes => exact finish_ended h
  | cutShort => exact finish_ended h

/-- A round at a damaged chunk ends the file or throws. -/
theorem readChunk_damaged {chunk : StoredChunk} {damaged rest : Bytes}
    {result : Option ChunkReadResult} (hrange : chunk.header.raw.InRange)
    (hcodec : chunk.descriptor.codec = .none) (hlength : damaged.length = chunk.stored.length)
    (hsum : crc32c damaged ≠ crc32c chunk.payload)
    (hinput : reader.input = appendChunkHeader chunk.header.raw ++ (damaged ++ rest))
    (h : readChunk options decompressors reader = .ok result after) :
    ∃ status, result = some (.ended status) := by
  unfold readChunk at h
  obtain ⟨exact, middle, hread, h⟩ := run_bind_eq_ok.mp h
  cases exact with
  | complete encoded =>
      obtain ⟨hsize, hsplit, -⟩ := readExact_eq_complete hread
      have hsame := hsplit.symm.trans hinput
      obtain ⟨hencoded, hbody⟩ :=
        List.append_inj hsame (hsize.trans (appendChunkHeader_length _).symm)
      obtain ⟨raw, middle', hcheck, h⟩ := run_bind_eq_ok.mp h
      obtain ⟨hparse, rfl⟩ := run_check_eq_ok.mp hcheck
      obtain ⟨tail, htail⟩ := runReader_eq_ok.mp hparse
      obtain ⟨haccepted, htail⟩ := (reads_chunkHeader options _ _ _).mp htail
      have hheader : appendChunkHeader chunk.header.raw = appendChunkHeader raw := by
        refine (List.append_inj (?_ : _ ++ [] = _ ++ tail) ?_).1
        · rw [List.append_nil, ← hencoded, htail]
        · rw [appendChunkHeader_length, appendChunkHeader_length]
      cases appendChunkHeader_injective hrange haccepted.inRange hheader
      rw [readBody_known, hcodec] at h
      exact readStored_damaged hbody hlength.symm hsum h
  | noBytes => exact finish_ended h
  | cutShort => exact finish_ended h

end Files

/-- CRC-32C by the table is CRC-32C bit by bit; it tells payloads apart that differ within
four consecutive bytes, and the reader does not return a chunk of codec none that is damaged
there. -/
theorem crc32c_detects_damage : (∀ bytes, crc32c bytes = serialCrc32c bytes) ∧
    (∀ start payload damaged, DamagedWithin start payload damaged → damaged ≠ payload →
      crc32c damaged ≠ crc32c payload) ∧
    ∀ options decompressors reader (chunk : StoredChunk) start damaged rest,
      chunk.descriptor.InRange → chunk.payload.length ≤ maxU64 →
      chunk.descriptor.codec = .none → chunk.stored = chunk.payload →
      DamagedWithin start chunk.payload damaged → damaged ≠ chunk.payload →
      reader.input = appendChunkHeader chunk.header.raw ++ (damaged ++ rest) →
      ∀ result after, readNextChunk options decompressors reader = .ok result after →
        ∃ status, result = .ended status := by
  refine ⟨crc32c_eq_serial, fun _ _ _ h => h.crc32c_ne, ?_⟩
  intro options decompressors reader chunk start damaged rest hrange hpayload hcodec hstored
    hdamage hne hinput result after hread
  have hround {result : Option ChunkReadResult} {after : TraceReader}
      (h : readChunk options decompressors reader = .ok result after) :
      ∃ status, result = some (.ended status) :=
    readChunk_damaged (StoredChunk.header_inRange hrange hpayload (hstored ▸ hpayload)) hcodec
      (hstored ▸ hdamage.1) (hdamage.crc32c_ne hne) hinput h
  cases hstatus : reader.terminalStatus with
  | some status =>
      unfold readNextChunk at hread
      rw [run_bind, run_get] at hread
      dsimp only at hread
      rw [hstatus] at hread
      cases hread
      exact ⟨status, rfl⟩
  | none =>
      rw [readNextChunk_of_open _ _ hstatus] at hread
      unfold readRounds at hread
      cases hrun : readChunk options decompressors reader with
      | error e t =>
          rw [loopBy_error hrun] at hread
          cases hread
      | ok round t =>
          obtain ⟨status, rfl⟩ := hround hrun
          rw [loopBy_some hrun] at hread
          cases hread
          exact ⟨status, rfl⟩

/-- Three bytes of which the second is damaged. -/
theorem crc32c_detects_damage_three :
    let chunk : StoredChunk := ⟨⟨.event, 1, 0, .none, 0, 0⟩, [1, 2, 3], [1, 2, 3]⟩
    let input := appendChunkHeader chunk.header.raw ++ ([1, 0xFF, 3] ++ [])
    crc32c [1, 0xFF, 3] ≠ crc32c [1, 2, 3] ∧
      ∀ result after, readNextChunk {} literalDecompressors { input := input } = .ok result after →
        ∃ status, result = .ended status := by
  intro chunk input
  have hdamage : DamagedWithin 0 [1, 2, 3] [1, 0xFF, 3] := by
    refine ⟨rfl, fun i hi => ?_⟩
    have hend : 3 ≤ i := by omega
    rw [List.getElem?_eq_none hend, List.getElem?_eq_none hend]
  exact ⟨crc32c_detects_damage.2.1 0 _ _ hdamage (by decide),
    crc32c_detects_damage.2.2 {} literalDecompressors { input := input } chunk 0 [1, 0xFF, 3] []
      ⟨by decide, by decide, by decide, by decide⟩ (by decide) rfl rfl hdamage (by decide) rfl⟩

end Noleax.Trace
