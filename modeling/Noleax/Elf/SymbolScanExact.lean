import Noleax.Elf.SymbolScan

/-!
# The symbol scan finds what the whole table holds

Whatever was read before, the valid part of the window is a part of the string table, so a
comparison says whether the name in the file is the wanted one. A chunk is a part of the symbol
table, and the loops go over its entries in their order.
-/

namespace Noleax.Elf

open Lib

section Accepted

variable {file buffer : Buffer} {offset count : ℕ}

theorem addU64_of_lt {left right : ℕ} (h : left + right < 2 ^ 64) :
    addU64 left right = .ok (left + right) := by
  unfold addU64
  rw [failIf_of_not (not_le.mpr h), ok_bind]
  rfl

theorem mulU64_of_lt {left right : ℕ} (h : left * right < 2 ^ 64) :
    mulU64 left right = .ok (left * right) := by
  unfold mulU64
  rw [failIf_of_not (not_le.mpr h), ok_bind]
  rfl

theorem fetch_of_le (h : offset + count ≤ buffer.size) :
    fetch buffer offset count = .ok (buffer.slice offset count) := by
  unfold fetch
  rw [failIf_of_not (not_lt.mpr h), ok_bind]
  rfl

theorem SpanInside.le (h : SpanInside file offset count) : offset + count ≤ file.size := by
  obtain ⟨hcount, hoffset⟩ := h
  omega

theorem spanInside_of_le (h : offset + count ≤ file.size) : SpanInside file offset count :=
  ⟨by omega, by omega⟩

/-- A read inside of the file fills the front of the buffer. -/
theorem readAt_of_le (hfile : offset + count ≤ file.size) (hbuffer : count ≤ buffer.size) :
    readAt file offset buffer count = .ok (some (buffer.put 0 (file.slice offset count))) := by
  unfold readAt
  rw [if_pos (spanInside_of_le hfile), failIf_of_not (not_lt.mpr hbuffer), ok_bind,
    fetch_of_le hfile, ok_bind]
  rfl

theorem slice_put_front {bytes : Bytes} (h : bytes.length = count) :
    (buffer.put 0 bytes).slice 0 count = bytes := by
  subst h
  exact Buffer.slice_put

/-- What `symbol_table_span` accepts. -/
structure SymbolTableSpan.Accepted (file : Buffer) (span : SymbolTableSpan) : Prop where
  entryLow : symbolSize ≤ span.entrySize
  entryHigh : span.entrySize ≤ maximumSymbolEntrySize
  table : span.offset + span.size ≤ file.size
  strings : span.stringsOffset + span.stringsSize ≤ file.size

theorem accepted_of_span {sections : List Elf64Shdr} {table : Elf64Shdr} {span : SymbolTableSpan}
    (h : symbolTableSpan file sections table = some span) : span.Accepted file := by
  unfold symbolTableSpan at h
  split at h
  · cases h
  · rename_i htable
    split at h
    · cases h
    · rename_i strings _
      split at h
      · cases h
      · rename_i hstrings
        cases h
        simp only [not_or, not_not, not_lt] at htable hstrings
        exact {
          entryLow := htable.2.1
          entryHigh := htable.2.2.1
          table := htable.2.2.2.le
          strings := hstrings.2.le }

end Accepted

/-! ## Names -/

section Names

variable {file : Buffer} {span : SymbolTableSpan} {wanted : Bytes} {nameOffset : ℕ}
  {matcher : StringTableMatcher}

/-- The wanted name and its zero lie in the string table. -/
theorem nameAt_eq_wanted (hwanted : 0 ∉ wanted) : nameAt file span nameOffset = some wanted ↔
    nameOffset + (wanted.length + 1) ≤ span.stringsSize ∧
      file.slice (span.stringsOffset + nameOffset) wanted.length = wanted ∧
      file.slice (span.stringsOffset + nameOffset + wanted.length) 1 = [0] := by
  unfold nameAt
  rw [terminated_eq_some]
  constructor
  · intro ⟨_, rest, htail⟩
    have hlength := congrArg List.length htail
    rw [Buffer.slice_length, List.length_append, List.length_cons] at hlength
    have hsplit : span.stringsSize - nameOffset = wanted.length + (1 + rest.length) := by omega
    rw [hsplit, Buffer.slice_add, Buffer.slice_add] at htail
    obtain ⟨hname, hrest⟩ := List.append_inj htail Buffer.slice_length
    obtain ⟨hzero, -⟩ := @List.append_inj _ _ [0] _ rest hrest Buffer.slice_length
    exact ⟨by omega, hname, hzero⟩
  · intro ⟨hroom, hname, hzero⟩
    obtain ⟨more, hsplit⟩ : ∃ more, span.stringsSize - nameOffset = wanted.length + (1 + more) :=
      ⟨span.stringsSize - nameOffset - wanted.length - 1, by omega⟩
    refine ⟨hwanted, file.slice (span.stringsOffset + nameOffset + wanted.length + 1) more, ?_⟩
    rw [hsplit, Buffer.slice_add, Buffer.slice_add, hname, hzero]
    rfl

/-- The valid part of the window is a part of the string table. -/
structure WindowOf (file : Buffer) (span : SymbolTableSpan) (matcher : StringTableMatcher) :
    Prop where
  size : matcher.window.size = stringWindowBytes
  inside : matcher.windowStart + matcher.windowValid ≤ span.stringsSize
  capacity : matcher.windowValid ≤ stringWindowBytes
  bytes : matcher.window.slice 0 matcher.windowValid =
    file.slice (span.stringsOffset + matcher.windowStart) matcher.windowValid

theorem compareAt_eq (h : WindowOf file span matcher) (hstart : matcher.windowStart ≤ nameOffset)
    (hend : nameOffset + (wanted.length + 1) ≤ matcher.windowStart + matcher.windowValid) :
    compareAt wanted matcher nameOffset =
      .ok (decide (file.slice (span.stringsOffset + nameOffset) wanted.length = wanted ∧
        file.slice (span.stringsOffset + nameOffset + wanted.length) 1 = [0])) := by
  have hcapacity := h.capacity
  have hsize := h.size
  have hpart {start part : ℕ} (hpart : start + part ≤ matcher.windowValid) :
      matcher.window.slice (0 + start) part =
        file.slice (span.stringsOffset + matcher.windowStart + start) part :=
    Buffer.slice_of_slice_eq h.bytes hpart
  have hname := @hpart (nameOffset - matcher.windowStart) wanted.length (by omega)
  have hzero := @hpart (nameOffset - matcher.windowStart + wanted.length) 1 (by omega)
  have hplace : span.stringsOffset + matcher.windowStart + (nameOffset - matcher.windowStart) =
      span.stringsOffset + nameOffset := by omega
  rw [Nat.zero_add, hplace] at hname
  rw [Nat.zero_add, ← Nat.add_assoc (span.stringsOffset + matcher.windowStart), hplace] at hzero
  show (fetch matcher.window (nameOffset - matcher.windowStart) wanted.length >>= fun _ =>
    fetch matcher.window (nameOffset - matcher.windowStart + wanted.length) 1 >>= fun _ => _) = _
  rw [fetch_of_le (by omega), ok_bind, fetch_of_le (by omega), ok_bind, hname, hzero]
  rfl

/-- The window says what the file holds. -/
theorem nameMatches_eq (h : WindowOf file span matcher) (haccepted : span.Accepted file)
    (hfile : file.size < 2 ^ 63) (hlength : wanted.length ≤ maximumSymbolNameSize)
    (hwanted : 0 ∉ wanted) : ∃ after,
    nameMatches file span wanted matcher nameOffset =
        .ok (decide (nameAt file span nameOffset = some wanted), after) ∧
      WindowOf file span after := by
  have hname : maximumSymbolNameSize = 4096 := rfl
  have hstrings := haccepted.strings
  have hinside := h.inside
  unfold nameMatches
  rw [addU64_of_lt (by omega), ok_bind]
  split
  · rename_i hshort
    refine ⟨matcher, ?_, h⟩
    have hno : nameAt file span nameOffset ≠ some wanted := by
      intro hat
      have hroom := ((nameAt_eq_wanted hwanted).mp hat).1
      omega
    rw [decide_eq_false hno]
    rfl
  · rename_i hroom
    have hdecide : decide (nameAt file span nameOffset = some wanted) =
        decide (file.slice (span.stringsOffset + nameOffset) wanted.length = wanted ∧
          file.slice (span.stringsOffset + nameOffset + wanted.length) 1 = [0]) := by
      rw [decide_eq_decide, nameAt_eq_wanted hwanted]
      exact and_iff_right (by omega)
    rw [addU64_of_lt (by omega), ok_bind, addU64_of_lt (by omega), ok_bind, hdecide]
    split
    · -- the window moves to the name
      have hwindow := h.size
      have hbytes : stringWindowBytes = 262144 := rfl
      have hvalid : min (span.stringsSize - nameOffset) matcher.window.size ≤
          matcher.window.size := Nat.min_le_right _ _
      rw [addU64_of_lt (by omega), ok_bind, readAt_of_le (by omega) hvalid, ok_bind]
      have hmoved : WindowOf file span ⟨matcher.window.put 0 (file.slice
          (span.stringsOffset + nameOffset) (min (span.stringsSize - nameOffset)
            matcher.window.size)), nameOffset, min (span.stringsSize - nameOffset)
              matcher.window.size⟩ := {
        size := hwindow
        inside := by
          show nameOffset + min (span.stringsSize - nameOffset) matcher.window.size ≤ _
          omega
        capacity := hwindow ▸ hvalid
        bytes := slice_put_front Buffer.slice_length }
      refine ⟨_, ?_, hmoved⟩
      have hvalidEnd : nameOffset + (wanted.length + 1) ≤
          nameOffset + min (span.stringsSize - nameOffset) matcher.window.size := by omega
      have hcompare := compareAt_eq hmoved (le_refl nameOffset) hvalidEnd
      show (compareAt wanted _ nameOffset >>= fun found => _) = _
      rw [hcompare]
      rfl
    · rename_i hstay
      refine ⟨matcher, ?_, h⟩
      rw [compareAt_eq h (by omega) (by omega)]
      rfl

end Names

/-! ## Entries -/

section Entries

variable {file : Buffer} {span : SymbolTableSpan} {wanted : Bytes}

theorem firstHit_succ (first count : ℕ) : firstHit file span wanted first (count + 1) =
    if Hit file span wanted (entryAt file span first) then some (entryAt file span first).stValue
    else firstHit file span wanted (first + 1) count := by
  unfold firstHit
  rw [List.range'_succ, List.map_cons, List.find?_cons]
  split
  · rename_i hhit
    rw [if_pos (of_decide_eq_true hhit)]
    rfl
  · rename_i hmiss
    rw [if_neg (of_decide_eq_false hmiss)]

theorem firstHit_add (first count more : ℕ) : firstHit file span wanted first (count + more) =
    (firstHit file span wanted first count).or
      (firstHit file span wanted (first + count) more) := by
  induction count generalizing first with
  | zero =>
      rw [Nat.zero_add]
      rfl
  | succ count ih =>
      rw [Nat.succ_add, firstHit_succ, firstHit_succ]
      split
      · rfl
      · rw [ih, Nat.succ_add_eq_add_succ]

/-- The entries of a chunk that holds those of the table from `base` on. -/
theorem scanEntries_eq (haccepted : span.Accepted file) (hfile : file.size < 2 ^ 63)
    (hlength : wanted.length ≤ maximumSymbolNameSize) (hwanted : 0 ∉ wanted)
    {chunk : Buffer} {base total index entries : ℕ} (hsum : index + entries = total)
    (hroom : total * span.entrySize ≤ chunk.size) (hsmall : chunk.size < 2 ^ 63)
    (hchunk : chunk.slice 0 (total * span.entrySize) =
      file.slice (span.offset + base * span.entrySize) (total * span.entrySize))
    {matcher : StringTableMatcher} (hwindow : WindowOf file span matcher) : ∃ after,
    scanEntries file span wanted chunk matcher index entries =
        .ok (firstHit file span wanted (base + index) entries, after) ∧
      WindowOf file span after := by
  induction entries generalizing index matcher with
  | zero => exact ⟨matcher, rfl, hwindow⟩
  | succ entries ih =>
      have hentry := haccepted.entryLow
      have hplace : index * span.entrySize + span.entrySize ≤ total * span.entrySize := by
        rw [← Nat.succ_mul]
        exact Nat.mul_le_mul_right _ (by omega)
      have hsymbol :
          symbolAt chunk (index * span.entrySize) = entryAt file span (base + index) := by
        have hpart := @Buffer.slice_of_slice_eq _ _ _ _ _ hchunk (index * span.entrySize)
          symbolSize (by omega)
        rw [Nat.zero_add, Nat.add_assoc, ← Nat.add_mul] at hpart
        exact symbolAt_congr hpart
      obtain ⟨after, hmatches, hafter⟩ :=
        @nameMatches_eq file span wanted (entryAt file span (base + index)).stName matcher hwindow
          haccepted hfile hlength hwanted
      rw [scanEntries, mulU64_of_lt (by omega), ok_bind, fetch_of_le (by omega), ok_bind,
        firstHit_succ]
      simp only [hsymbol]
      split
      · rename_i hskip
        have hmiss : ¬ Hit file span wanted (entryAt file span (base + index)) :=
          fun hhit => hskip.elim hhit.1 hhit.2.1
        rw [if_neg hmiss]
        exact ih (by omega) hwindow
      · rename_i hdefined
        rw [not_or] at hdefined
        rw [hmatches, ok_bind]
        by_cases hname : nameAt file span (entryAt file span (base + index)).stName = some wanted
        · have hhit : Hit file span wanted (entryAt file span (base + index)) :=
            ⟨hdefined.1, hdefined.2, hname⟩
          rw [if_pos hhit]
          simp only [decide_eq_true hname]
          exact ⟨after, rfl, hafter⟩
        · have hmiss : ¬ Hit file span wanted (entryAt file span (base + index)) :=
            fun hhit => hname hhit.2.2
          rw [if_neg hmiss]
          simp only [decide_eq_false hname]
          exact ih (by omega) hafter

/-- The chunks from `base` on. -/
theorem scanChunks_eq (haccepted : span.Accepted file) (hfile : file.size < 2 ^ 63)
    (hlength : wanted.length ≤ maximumSymbolNameSize) (hwanted : 0 ∉ wanted)
    {count entriesPerChunk : ℕ} (hpositive : 0 < entriesPerChunk)
    (hcount : count * span.entrySize ≤ span.size)
    {chunk : Buffer} (hchunk : chunk.size = entriesPerChunk * span.entrySize)
    (hsmall : chunk.size < 2 ^ 63) {matcher : StringTableMatcher}
    (hwindow : WindowOf file span matcher) (base : ℕ) :
    scanChunks file span wanted count entriesPerChunk hpositive chunk matcher base =
      .ok (firstHit file span wanted base (count - base)) := by
  induction hleft : count - base using Nat.strongRecOn generalizing base chunk matcher with
  | ind left ih =>
      rw [scanChunks]
      split
      · rename_i hbase
        have hentry : 1 ≤ span.entrySize := le_trans (by decide) haccepted.entryLow
        have htable := haccepted.table
        -- the entries of this chunk, and those behind it
        obtain ⟨entries, hentries⟩ : ∃ entries, min (count - base) entriesPerChunk = entries :=
          ⟨_, rfl⟩
        have hpart : base * span.entrySize + entries * span.entrySize ≤ span.size := by
          rw [← Nat.add_mul]
          exact (Nat.mul_le_mul_right _ (by omega)).trans hcount
        have hroom : entries * span.entrySize ≤ chunk.size :=
          hchunk ▸ Nat.mul_le_mul_right _ (hentries ▸ Nat.min_le_right _ _)
        have hbaseSmall : base ≤ base * span.entrySize := Nat.le_mul_of_pos_right _ hentry
        have hchunkSmall : entriesPerChunk ≤ chunk.size :=
          hchunk ▸ Nat.le_mul_of_pos_right _ hentry
        simp only [hentries]
        rw [mulU64_of_lt (by omega), ok_bind, mulU64_of_lt (by omega), ok_bind,
          addU64_of_lt (by omega), ok_bind, readAt_of_le (by omega) hroom, ok_bind]
        obtain ⟨after, hscan, hafter⟩ := @scanEntries_eq file span wanted haccepted hfile hlength
          hwanted (chunk.put 0 (file.slice (span.offset + base * span.entrySize)
            (entries * span.entrySize))) base entries 0 entries (Nat.zero_add _) hroom hsmall
          (slice_put_front Buffer.slice_length) matcher hwindow
        show (scanEntries _ _ _ _ _ 0 entries >>= _) = _
        rw [hscan, ok_bind, Nat.add_zero]
        have hsplit : left = entries + (left - entries) := by omega
        rw [hsplit, firstHit_add]
        cases hfirst : firstHit file span wanted base entries with
        | some value => rfl
        | none =>
            show (addU64 base entriesPerChunk >>= fun _ => scanChunks _ _ _ _ _ _ _ _ _) = _
            rw [addU64_of_lt (by omega), ok_bind, Option.none_or]
            refine (@ih (count - (base + entriesPerChunk)) (by omega) (chunk.put 0 _) hchunk hsmall
              after hafter (base + entriesPerChunk) rfl).trans (congrArg Except.ok ?_)
            -- the last chunk may be shorter, and nothing is left behind it
            by_cases hlast : count - base ≤ entriesPerChunk
            · have hnone : left - entries = 0 := by omega
              have hdone : count - (base + entriesPerChunk) = 0 := by omega
              rw [hnone, hdone]
              rfl
            · have hfull : entries = entriesPerChunk := by omega
              have hrest : count - (base + entriesPerChunk) = left - entries := by omega
              rw [hrest, hfull]
      · rename_i hend
        have hnone : left = 0 := by omega
        rw [hnone]
        rfl

end Entries

/-- The scan of an accepted table is the scan of the whole table. -/
theorem scanSymbolTable_eq {file : Buffer} {span : SymbolTableSpan} (haccepted : span.Accepted file)
    (hfile : file.size < 2 ^ 63) {wanted : Bytes}
    (hlength : wanted.length ≤ maximumSymbolNameSize) (hwanted : 0 ∉ wanted) :
    scanSymbolTable file span wanted = .ok (wholeTableScan file span wanted) := by
  have hlow : 24 ≤ span.entrySize := haccepted.entryLow
  have hhigh : span.entrySize ≤ 4096 := haccepted.entryHigh
  have hbytes : symbolChunkBytes = 131072 := rfl
  have hchunk : max 1 (symbolChunkBytes / span.entrySize) * span.entrySize < 2 ^ 63 := by
    have hdiv : symbolChunkBytes / span.entrySize ≤ symbolChunkBytes := Nat.div_le_self _ _
    have hmax : max 1 (symbolChunkBytes / span.entrySize) ≤ 131072 := by omega
    exact (Nat.mul_le_mul hmax hhigh).trans_lt (by decide)
  have hwindow : WindowOf file span ⟨.zeros stringWindowBytes, 0, 0⟩ := {
    size := rfl
    inside := Nat.zero_le _
    capacity := Nat.zero_le _
    bytes := rfl }
  show (mulU64 (max 1 (symbolChunkBytes / span.entrySize)) span.entrySize >>= fun chunk =>
    scanChunks file span wanted _ _ _ (.zeros chunk) _ 0) = _
  rw [mulU64_of_lt (by omega), ok_bind]
  exact scanChunks_eq haccepted hfile hlength hwanted _ (Nat.div_mul_le_self _ _) rfl hchunk
    hwindow 0

/-- On every file, and for every table that `symbol_table_span` accepts, the scan ends without
an access outside of the file or its buffers and without a sum that wraps; it returns the value
of the first defined entry of the table with the wanted name. -/
theorem scan_symbol_table_exact {file : Buffer} (hfile : file.size < 2 ^ 63)
    {sections : List Elf64Shdr} {table : Elf64Shdr} {span : SymbolTableSpan}
    (hspan : symbolTableSpan file sections table = some span) {wanted : Bytes}
    (hlength : wanted.length ≤ maximumSymbolNameSize) (hwanted : 0 ∉ wanted) :
    scanSymbolTable file span wanted = .ok (wholeTableScan file span wanted) :=
  scanSymbolTable_eq (accepted_of_span hspan) hfile hlength hwanted

/-- A string table with the name `f`, and a symbol table with an undefined and a defined entry
of that name. -/
def sampleFile : Buffer where
  size := 56
  byte i := ([0, 0x66, 0, 0, 0, 0, 0, 0] ++
    [1, 0, 0, 0, 0x12, 0, 0, 0] ++ littleEndian 8 7 ++ littleEndian 8 0 ++
    [1, 0, 0, 0, 0x12, 0, 1, 0] ++ littleEndian 8 16 ++ littleEndian 8 4).getD i 0

theorem scan_symbol_table_exact_sample :
    symbolTableSpan sampleFile [⟨0, 3, 0, 3, 0, 0, 0⟩] ⟨0, 2, 8, 48, 0, 0, 24⟩ =
        some ⟨8, 48, 24, 0, 3⟩ ∧
      scanSymbolTable sampleFile ⟨8, 48, 24, 0, 3⟩ [0x66] = .ok (some 16) := by
  have hspan : symbolTableSpan sampleFile [⟨0, 3, 0, 3, 0, 0, 0⟩] ⟨0, 2, 8, 48, 0, 0, 24⟩ =
      some ⟨8, 48, 24, 0, 3⟩ := by decide
  have hscan : wholeTableScan sampleFile ⟨8, 48, 24, 0, 3⟩ [0x66] = some 16 := by
    decide +kernel
  refine ⟨hspan, ?_⟩
  rw [scan_symbol_table_exact (by decide) hspan (by decide) (by decide), hscan]

end Noleax.Elf
