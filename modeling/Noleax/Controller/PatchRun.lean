import Noleax.Controller.PePatch

/-!
# A patch that gets through (`controller/windows/pe_patch.cpp`)

`PatchRun` holds what `patch_pe_image` has computed and checked when nothing was
rejected, and `output` the file that it then writes. No write leaves a buffer, so a
patch ends in a rejection or as such a run.
-/

namespace Noleax.Controller

open Lib

/-! ## Bounds -/

section Bounds

variable {image : PeImage} {s : Section} {fileSize : ℕ}

theorem le_foldl_max (sections : List Section) (f : Section → ℕ) (start : ℕ) :
    start ≤ sections.foldl (fun m s => max m (f s)) start ∧
      ∀ s ∈ sections, f s ≤ sections.foldl (fun m s => max m (f s)) start := by
  induction sections generalizing start with
  | nil => exact ⟨le_refl _, fun _ h => nomatch h⟩
  | cons s sections ih =>
      obtain ⟨hstart, hall⟩ := ih (max start (f s))
      exact ⟨le_trans (le_max_left _ _) hstart,
        List.forall_mem_cons.mpr ⟨le_trans (le_max_right _ _) hstart, hall⟩⟩

theorem sizeOfHeaders_le_rawEnd : image.sizeOfHeaders ≤ image.rawEnd :=
  (le_foldl_max image.sections Section.rawEnd image.sizeOfHeaders).1

theorem rawEnd_le (hs : s ∈ image.sections) : s.rawEnd ≤ image.rawEnd :=
  (le_foldl_max image.sections Section.rawEnd image.sizeOfHeaders).2 s hs

theorem foldl_min_le (sections : List Section) (start : ℕ) :
    (sections.foldl (fun m s => if s.rawSize ≠ 0 then min m s.rawOffset else m) start ≤ start) ∧
      ∀ s ∈ sections, s.rawSize ≠ 0 →
        sections.foldl (fun m s => if s.rawSize ≠ 0 then min m s.rawOffset else m) start ≤
          s.rawOffset := by
  induction sections generalizing start with
  | nil => exact ⟨le_refl _, fun _ h => nomatch h⟩
  | cons s sections ih =>
      rw [List.foldl_cons, List.forall_mem_cons]
      obtain ⟨hstart, hall⟩ := ih (if s.rawSize ≠ 0 then min start s.rawOffset else start)
      refine ⟨le_trans hstart ?_, fun hs => le_trans hstart ?_, hall⟩
      · split
        · exact min_le_left _ _
        · exact le_refl _
      · rw [if_pos hs]
        exact min_le_right _ _

theorem firstRaw_le_fileSize : image.firstRaw fileSize ≤ fileSize :=
  (foldl_min_le image.sections fileSize).1

theorem firstRaw_le (hs : s ∈ image.sections) (hraw : s.rawSize ≠ 0) :
    image.firstRaw fileSize ≤ s.rawOffset :=
  (foldl_min_le image.sections fileSize).2 s hs hraw

theorem entrySection_eq_ok : entrySection image = .ok s ↔
    image.sections.find? (·.Holds image.entryRva) = some s := by
  unfold entrySection
  split
  · rename_i found hfound
    rw [hfound, Except.ok.injEq, Option.some.injEq]
  · rename_i hnone
    simp [hnone]

theorem entrySection_mem (h : entrySection image = .ok s) :
    s ∈ image.sections ∧ s.Holds image.entryRva := by
  have hfound := entrySection_eq_ok.mp h
  exact ⟨List.mem_of_find?_eq_some hfound, by simpa using List.find?_some hfound⟩

theorem word4_lt (data : Buffer) (offset : ℕ) : data.word 4 offset < 2 ^ 32 := by
  have hword : IsWord 4 (data.word 4 offset) := Buffer.word_isWord
  exact hword

/-- The words of a header fit 32 bits. -/
theorem sectionAt_isWord (data : Buffer) (offset : ℕ) :
    (sectionAt data offset).virtualEnd < 2 ^ 63 ∧ (sectionAt data offset).rawEnd < 2 ^ 63 := by
  have hva := word4_lt data (offset + 12)
  have hvs := word4_lt data (offset + 8)
  have hrs := word4_lt data (offset + 16)
  have hro := word4_lt data (offset + 20)
  show data.word 4 (offset + 12) + max (data.word 4 (offset + 8)) (data.word 4 (offset + 16)) < _ ∧
    data.word 4 (offset + 20) + data.word 4 (offset + 16) < _
  omega

end Bounds

/-! ## The addresses and the plan -/

section Planning

variable {data : Buffer} {image : PeImage} {entry : Section} {plan : EntryPatchPlan}
  {sectionRva : ℕ}

/-- The new section starts after the headers and after every section. -/
theorem highestAddress_bounds (hends : ∀ s ∈ image.sections, s.virtualEnd < 2 ^ 63)
    (hheaders : image.sizeOfHeaders < 2 ^ 32) (halignment : image.sectionAlignment < 2 ^ 32)
    (h : highestAddress image = .ok sectionRva) :
    image.sizeOfHeaders ≤ sectionRva ∧ sectionRva < 2 ^ 32 ∧
      ∀ s ∈ image.sections, s.virtualEnd ≤ sectionRva := by
  unfold highestAddress at h
  generalize image.sizeOfHeaders = start at h hheaders ⊢
  generalize image.sections = sections at h hends ⊢
  induction sections generalizing start with
  | nil =>
      cases h
      exact ⟨le_refl _, hheaders, fun _ h => nomatch h⟩
  | cons s sections ih =>
      obtain ⟨hs, hrest⟩ := List.forall_mem_cons.mp hends
      rw [List.foldlM_cons, bind_eq_ok] at h
      obtain ⟨middle, hmiddle, h⟩ := h
      rw [bind_eq_ok] at hmiddle
      obtain ⟨aligned, haligned, hmax⟩ := hmiddle
      cases hmax
      obtain ⟨hle, hsmall⟩ := alignUp_bounds hs halignment haligned
      obtain ⟨hstart, hword, hall⟩ := ih _ (max_lt hheaders hsmall) h hrest
      exact ⟨le_trans (le_max_left _ _) hstart, hword,
        List.forall_mem_cons.mpr ⟨le_trans hle (le_trans (le_max_right _ _) hstart), hall⟩⟩

/-- How far behind the entry the jump is written. -/
def patchOffsetOf (data : Buffer) (entryRaw : ℕ) : ℕ :=
  if data.word 4 entryRaw = endbr64 then 4 else 0

theorem patchOffsetOf_le (data : Buffer) (entryRaw : ℕ) : patchOffsetOf data entryRaw ≤ 4 := by
  unfold patchOffsetOf
  split <;> omega

/-- The plan that the section of the entry gives. -/
def planOf (image : PeImage) (data : Buffer) (entry : Section) (sectionRva : ℕ) :
    EntryPatchPlan :=
  let entryRaw := entryRawOffset image entry
  let patchRva : ℕ := (image.entryRva + patchOffsetOf data entryRaw) % 2 ^ 32
  let patchRawOffset := (entryRaw + patchOffsetOf data entryRaw) % 2 ^ 32
  { patchRva
    patchRawOffset
    originalBytes := data.slice patchRawOffset entryPatchSize
    jumpOffset := sectionRva - patchRva - entryPatchSize }

theorem planEntryPatch_eq_ok (hentry : entrySection image = .ok entry) :
    planEntryPatch image data sectionRva = .ok plan ↔
      entryRawOffset image entry + 4 ≤ data.size ∧
      (planOf image data entry sectionRva).patchRawOffset + entryPatchSize ≤ data.size ∧
      ¬ ((planOf image data entry sectionRva).jumpOffset < -2 ^ 31 ∨
        2 ^ 31 - 1 < (planOf image data entry sectionRva).jumpOffset) ∧
      planOf image data entry sectionRva = plan := by
  unfold planEntryPatch
  rw [hentry, ok_bind]
  simp only [bind_eq_ok, failIf_eq_ok, fetch_eq_ok, fetchWord_eq_ok, pure_eq_ok, Except.ok.injEq,
    and_assoc, exists_eq_left', exists_and_left, exists_const]
  exact Iff.rfl

theorem validateAgentName_length {name : Bytes} {agentName : List ℕ}
    (h : validateAgentName name = .ok agentName) : agentName.length < 64 := by
  unfold validateAgentName at h
  obtain ⟨hname, h⟩ := failIf_bind_eq_ok.mp h
  have hwide : ∀ c ∈ name, ∀ wide, wideCharacter c = .ok wide ↔
      ¬ (c.toNat < 0x20 ∨ 0x7E < c.toNat) ∧ c.toNat = wide := by
    intro c _ wide
    unfold wideCharacter
    rw [failIf_bind_eq_ok, pure_eq_ok, Except.ok.injEq]
  obtain ⟨_, rfl⟩ := (mapM_eq_ok hwide).mp h
  rw [List.length_map]
  have hlength := (not_or.mp (not_or.mp hname).2).1
  unfold agentNameCapacity at hlength
  omega

end Planning

/-- Writes that fit succeed. -/
theorem storeAll_eq_ok {data data' : Buffer} {writes : List (ℕ × Bytes)} :
    storeAll data writes = .ok data' ↔
      (∀ w ∈ writes, w.1 + w.2.length ≤ data.size) ∧ data.putAll writes = data' := by
  unfold storeAll
  induction writes generalizing data with
  | nil => simp [Buffer.putAll]
  | cons w writes ih =>
      rw [List.foldlM_cons, bind_eq_ok, List.forall_mem_cons, Buffer.putAll_cons]
      constructor
      · intro ⟨middle, hw, hrest⟩
        obtain ⟨hroom, rfl⟩ := store_eq_ok.mp hw
        obtain ⟨hall, h⟩ := ih.mp hrest
        exact ⟨⟨hroom, hall⟩, h⟩
      · intro ⟨⟨hroom, hall⟩, h⟩
        exact ⟨_, store_eq_ok.mpr ⟨hroom, rfl⟩, ih.mpr ⟨hall, h⟩⟩

@[simp] theorem wideBytes_length (text : List ℕ) : (wideBytes text).length = text.length * 2 :=
  flatMap_length _ 2 (littleEndian_length 2) text

@[simp] theorem int32Bytes_length (value : ℤ) : (int32Bytes value).length = 4 :=
  littleEndian_length 4 _

/-! ## The content of the section -/

section Content

variable {stub : Vector UInt8 staticStubSize} {sectionRva entryRva patchRva : ℕ}
  {originalBytes : Bytes} {agentName : List ℕ} {standalone : Bool}

/-- What `build_section_content` returns. -/
def contentOf (stub : Vector UInt8 staticStubSize) (sectionRva entryRva patchRva : ℕ)
    (originalBytes : Bytes) (agentName : List ℕ) (standalone : Bool) : Buffer :=
  ((Buffer.zeros contentSize).put 0 stub.toList).putAll
    (contentWrites sectionRva entryRva patchRva originalBytes agentName standalone)

theorem standaloneParameters_length : standaloneParameters.length = 288 := by
  have hsentinel : standaloneSentinel.length = 22 := rfl
  have hmagic : standaloneMagic.length = 16 := rfl
  unfold standaloneParameters
  simp only [List.length_append, List.length_replicate, littleEndian_length, hsentinel, hmagic]

/-- Every part of the content has its place. -/
theorem contentWrites_fit (hsaved : originalBytes.length = 5) (hname : agentName.length < 64) :
    ∀ w ∈ contentWrites sectionRva entryRva patchRva originalBytes agentName standalone,
      w.1 + w.2.length ≤ contentSize := by
  have hmarker : marker.length = 10 := rfl
  have hbootstrap : bootstrapSymbol.length = 23 := rfl
  have hready : readySymbol.length = 30 := rfl
  unfold contentWrites contentFields
  rw [List.forall_mem_append]
  constructor
  · split
    · simp only [List.forall_mem_cons, List.not_mem_nil, false_imp_iff, implies_true, and_true,
        standaloneParameters_length, paramsOffset, contentSize]
      omega
    · exact fun _ h => nomatch h
  · simp only [List.forall_mem_cons, List.not_mem_nil, false_imp_iff, implies_true, and_true,
      littleEndian_length, wideBytes_length,
      List.length_append, List.length_singleton, hmarker, hbootstrap, hready, hsaved,
      fixupSectionRvaOffset, fixupEntryRvaOffset, markerOffset, agentNameOffset,
      bootstrapSymbolOffset, readySymbolOffset, hashKernelbaseOffset, hashLoadLibraryOffset,
      hashGetProcAddressOffset, hashSleepOffset, hashNtdllOffset, hashVirtualProtectOffset,
      hashNtFlushOffset, originalBytesOffset, patchRvaOffset, contentSize]
    omega

/-- What is written over the stub does not overlap. -/
theorem contentFields_apart (hsaved : originalBytes.length = 5) (hname : agentName.length < 64) :
    (contentFields sectionRva entryRva patchRva originalBytes agentName).Pairwise fun v w =>
      Buffer.Apart w v.1 v.2.length := by
  have hmarker : marker.length = 10 := rfl
  have hbootstrap : bootstrapSymbol.length = 23 := rfl
  have hready : readySymbol.length = 30 := rfl
  unfold contentFields
  simp only [List.pairwise_cons, List.forall_mem_cons, List.not_mem_nil, false_imp_iff,
    implies_true, and_true, List.Pairwise.nil, littleEndian_length, wideBytes_length,
    List.length_append, List.length_singleton, hmarker, hbootstrap, hready, hsaved,
    fixupSectionRvaOffset, fixupEntryRvaOffset, markerOffset, agentNameOffset,
    bootstrapSymbolOffset, readySymbolOffset, hashKernelbaseOffset, hashLoadLibraryOffset,
    hashGetProcAddressOffset, hashSleepOffset, hashNtdllOffset, hashVirtualProtectOffset,
    hashNtFlushOffset, originalBytesOffset, patchRvaOffset, Buffer.Apart]
  omega

/-- Each field is in the content. -/
theorem contentOf_field (hsaved : originalBytes.length = 5) (hname : agentName.length < 64)
    {w : ℕ × Bytes}
    (hw : w ∈ contentFields sectionRva entryRva patchRva originalBytes agentName) :
    (contentOf stub sectionRva entryRva patchRva originalBytes agentName standalone).slice
      w.1 w.2.length = w.2 := by
  unfold contentOf contentWrites
  rw [Buffer.putAll_append]
  exact Buffer.slice_putAll hw (contentFields_apart hsaved hname)

theorem buildSectionContent_eq (hsaved : originalBytes.length = 5) (hname : agentName.length < 64) :
    buildSectionContent stub sectionRva entryRva patchRva originalBytes agentName standalone =
      .ok (contentOf stub sectionRva entryRva patchRva originalBytes agentName standalone) := by
  have hstub : store (.zeros contentSize) 0 stub.toList =
      .ok ((Buffer.zeros contentSize).put 0 stub.toList) := by
    rw [store_eq_ok, Vector.length_toList]
    exact ⟨by decide, rfl⟩
  unfold buildSectionContent
  rw [hstub, ok_bind]
  exact storeAll_eq_ok.mpr ⟨contentWrites_fit hsaved hname, rfl⟩

end Content

/-! ## Runs -/

/-- Where the file is cut off: at the certificate, which is at the end, or not at all. -/
def keptSize (input : Buffer) : ℕ :=
  if ((imageOf input).directory directorySecurity).rva ≠ 0 then
    ((imageOf input).directory directorySecurity).rva
  else input.size

/-- What `patch_pe_image` has computed when nothing was rejected. -/
structure PatchRun (options : PePatchOptions) (input : Buffer) where
  agentName : List ℕ
  entry : Section
  sectionRva : ℕ
  newRawOffset : ℕ
  newRawSize : ℕ
  sizeOfImage : ℕ
  size : input.size ≤ maxImageSize
  parsable : Parsable input
  patchable : Patchable (imageOf input) input.size options.allowBreakSignature
  agentName_ok : validateAgentName options.agentName = .ok agentName
  sectionRva_ok : highestAddress (imageOf input) = .ok sectionRva
  entry_ok : entrySection (imageOf input) = .ok entry
  inRange : ¬ ((planOf (imageOf input) input entry sectionRva).jumpOffset < -2 ^ 31 ∨
    2 ^ 31 - 1 < (planOf (imageOf input) input entry sectionRva).jumpOffset)
  newRawOffset_ok :
    alignUp (keptSize input) (imageOf input).fileAlignment "the raw size" = .ok newRawOffset
  newRawSize_ok :
    alignUp contentSize (imageOf input).fileAlignment "the raw size" = .ok newRawSize
  sizeOfImage_ok : alignUp (sectionRva + contentSize) (imageOf input).sectionAlignment
    "SizeOfImage" = .ok sizeOfImage

namespace PatchRun

variable {options : PePatchOptions} {input : Buffer} (run : PatchRun options input)
  (stub : Vector UInt8 staticStubSize)

def plan : EntryPatchPlan := planOf (imageOf input) input run.entry run.sectionRva

def bootstrap : Section := bootstrapSection run.sectionRva run.newRawOffset run.newRawSize

/-- The content of the new section. -/
def content : Buffer :=
  contentOf stub run.sectionRva (imageOf input).entryRva run.plan.patchRva
    run.plan.originalBytes run.agentName options.standalone

def headerWrites : List (ℕ × Bytes) :=
  Controller.headerWrites (imageOf input) run.plan run.sizeOfImage run.bootstrap

/-- The file up to the new section. -/
def headed : Buffer :=
  ((input.resize (keptSize input)).resize run.newRawOffset).putAll run.headerWrites

/-- The file that is written. -/
def output : Buffer :=
  (run.headed.resize (run.newRawOffset + run.newRawSize)).put run.newRawOffset
    (run.content stub).toBytes

def result : PePatchResult where
  entryRva := (imageOf input).entryRva
  sectionRva := run.sectionRva
  patchRva := run.plan.patchRva
  outputSize := run.newRawOffset + run.newRawSize
  signatureRemoved := ((imageOf input).directory directorySecurity).rva ≠ 0

/-! ### Where things are -/

section Places

include run

theorem mem_sections {s : Section} (hs : s ∈ (imageOf input).sections) :
    s.InFile input.size ∧ s.virtualEnd < 2 ^ 63 := by
  obtain ⟨index, hindex, rfl⟩ := List.mem_map.mp hs
  exact ⟨run.parsable.sections index (List.mem_range.mp hindex), (sectionAt_isWord _ _).1⟩

/-- The section table follows the optional header. -/
theorem table_eq : sectionTableOf input = optionalOf input + optionalSizeOf input := by
  have hroom := run.parsable.optional
  have hsize := run.size
  unfold maxImageSize at hsize
  exact Nat.mod_eq_of_lt (by omega)

/-- The new header follows the directories and the other section headers. -/
theorem newHeader_after : optionalOf input + 0xF0 ≤ slotOf input 0 ∧
    slotOf input 0 ≤ (imageOf input).newHeaderOffset := by
  have htable := run.table_eq
  have hoptional := run.parsable.optionalSize
  unfold slotOf
  show _ ∧ _ ≤ sectionTableOf input + sectionCountOf input * sectionHeaderSize
  constructor
  · omega
  · omega

/-- The file is cut off behind the headers and behind the raw data of all sections. -/
theorem keptSize_bounds : (imageOf input).headersEnd ≤ keptSize input ∧
    keptSize input ≤ input.size ∧
    ∀ s ∈ (imageOf input).sections, s.rawSize ≠ 0 → s.rawEnd ≤ keptSize input := by
  have hspace := run.patchable.headerSpace
  have hfirst : (imageOf input).firstRaw input.size ≤ input.size := firstRaw_le_fileSize
  have hheaders : (imageOf input).sizeOfHeaders ≤ (imageOf input).rawEnd := sizeOfHeaders_le_rawEnd
  have hpos : 0 < (imageOf input).headersEnd := Nat.add_pos_right _ (by decide)
  unfold keptSize
  rcases run.patchable.overlay with ⟨hrva, -, -⟩ | ⟨-, hrva, hsize⟩
  · rw [hrva, if_neg (fun h => h rfl)]
    refine ⟨by omega, le_refl _, ?_⟩
    intro s hs hraw
    exact (run.mem_sections hs).1 hraw
  · rw [hrva, if_pos (by omega)]
    refine ⟨by omega, by omega, ?_⟩
    intro s hs _
    exact rawEnd_le hs

theorem newRaw_bounds : keptSize input ≤ run.newRawOffset ∧ run.newRawOffset < 2 ^ 32 ∧
    contentSize ≤ run.newRawSize ∧ run.newRawSize < 2 ^ 32 := by
  have hsize := run.size
  have hkept := run.keptSize_bounds.2.1
  unfold maxImageSize at hsize
  have hoffset := alignUp_bounds (by omega) (word4_lt _ _) run.newRawOffset_ok
  have hcontent := alignUp_bounds (by decide) (word4_lt _ _) run.newRawSize_ok
  exact ⟨hoffset.1, hoffset.2, hcontent.1, hcontent.2⟩

theorem sectionRva_bounds : (imageOf input).sizeOfHeaders ≤ run.sectionRva ∧
    run.sectionRva + contentSize ≤ run.sizeOfImage ∧ run.sizeOfImage < 2 ^ 32 ∧
    ∀ s ∈ (imageOf input).sections, s.virtualEnd ≤ run.sectionRva := by
  obtain ⟨hheaders, hword, hall⟩ := highestAddress_bounds (fun _ hs => (run.mem_sections hs).2)
    (word4_lt _ _) (word4_lt _ _) run.sectionRva_ok
  have hcontent : contentSize = 0x890 := rfl
  have hend := alignUp_bounds (by omega) (word4_lt _ _) run.sizeOfImage_ok
  exact ⟨hheaders, hend.1, hend.2, hall⟩

/-- The entry section, and the room that it has behind the entry. -/
theorem entry_room : run.entry ∈ (imageOf input).sections ∧ run.entry.rawSize ≠ 0 ∧
    run.entry.virtualAddress ≤ (imageOf input).entryRva ∧
    (imageOf input).entryRva - run.entry.virtualAddress + 9 ≤ run.entry.rawSize := by
  obtain ⟨entry, hentry, hraw, ⟨hinside, hroom⟩, -⟩ := run.patchable.entry
  obtain rfl := Except.ok.inj (hentry.symm.trans run.entry_ok)
  obtain ⟨hmem, hholds⟩ := entrySection_mem hentry
  unfold entryPatchSize at hroom
  exact ⟨hmem, hraw, hholds.1, by omega⟩

/-- The patch lies in the raw data of the entry section. -/
theorem patch_place :
    run.plan.patchRva = (imageOf input).entryRva +
      patchOffsetOf input (entryRawOffset (imageOf input) run.entry) ∧
    run.plan.patchRawOffset = entryRawOffset (imageOf input) run.entry +
      patchOffsetOf input (entryRawOffset (imageOf input) run.entry) ∧
    run.plan.patchRawOffset + entryPatchSize ≤ run.entry.rawEnd := by
  obtain ⟨hmem, hraw, hva, hroom⟩ := run.entry_room
  have hoffset := patchOffsetOf_le input (entryRawOffset (imageOf input) run.entry)
  have hsize := run.size
  unfold maxImageSize at hsize
  have hfile : run.entry.rawOffset + run.entry.rawSize ≤ input.size :=
    (run.mem_sections hmem).1 hraw
  -- the address of the patch lies below the new section
  have hend := run.sectionRva_bounds.2.2.2 run.entry hmem
  have hword := run.sectionRva_bounds
  unfold Section.virtualEnd at hend
  have hmax := le_max_right run.entry.virtualSize run.entry.rawSize
  unfold plan planOf Section.rawEnd entryPatchSize entryRawOffset at *
  simp only
  rw [Nat.mod_eq_of_lt (by omega), Nat.mod_eq_of_lt (by omega)]
  exact ⟨rfl, rfl, by omega⟩

/-- The raw data of the entry section follows the headers. -/
theorem headersEnd_le_patch : (imageOf input).headersEnd ≤ run.plan.patchRawOffset := by
  obtain ⟨hmem, hraw, -, -⟩ := run.entry_room
  have hplace := run.patch_place.2.1
  have hspace := run.patchable.headerSpace.1
  have hfirst : (imageOf input).firstRaw input.size ≤ run.entry.rawOffset := firstRaw_le hmem hraw
  unfold entryRawOffset at hplace
  omega

end Places

/-! ### The writes stay in their buffers -/

section Fit

theorem originalBytes_length : run.plan.originalBytes.length = 5 := Buffer.slice_length

theorem content_size : (run.content stub).size = contentSize := Buffer.putAll_size

/-- Every write into the headers and the entry lies in what is kept of the file. -/
theorem headerWrites_fit : ∀ w ∈ run.headerWrites, w.1 + w.2.length ≤ keptSize input := by
  obtain ⟨hend, -, hraw⟩ := run.keptSize_bounds
  obtain ⟨hmem, hne, -, -⟩ := run.entry_room
  have hentry := hraw run.entry hmem hne
  have hpatch := run.patch_place.2.2
  obtain ⟨hheader, hslot⟩ := run.newHeader_after
  unfold entryPatchSize at hpatch
  unfold PeImage.headersEnd sectionHeaderSize at hend
  have hname : bootstrapSectionName.length = 8 := rfl
  have hoptional : optionalOf input = (imageOf input).peOffset + 24 := rfl
  unfold headerWrites Controller.headerWrites
  simp only [List.forall_mem_cons, List.not_mem_nil, false_imp_iff, implies_true, and_true,
    littleEndian_length, int32Bytes_length, List.length_singleton, bootstrap, bootstrapSection,
    hname, directorySecurity]
  omega

theorem headed_ok :
    storeAll ((input.resize (keptSize input)).resize run.newRawOffset)
      (Controller.headerWrites (imageOf input) run.plan run.sizeOfImage run.bootstrap) =
        .ok run.headed := by
  refine storeAll_eq_ok.mpr ⟨?_, rfl⟩
  intro w hw
  exact le_trans (run.headerWrites_fit w hw) run.newRaw_bounds.1

theorem toBytes_length : (run.content stub).toBytes.length = contentSize := by
  unfold Buffer.toBytes
  rw [Buffer.slice_length, content_size]

theorem output_ok :
    store (run.headed.resize (run.newRawOffset + run.newRawSize)) run.newRawOffset
      (run.content stub).toBytes = .ok (run.output stub) := by
  refine store_eq_ok.mpr ⟨?_, rfl⟩
  rw [toBytes_length, Buffer.resize_size]
  exact Nat.add_le_add_left run.newRaw_bounds.2.2.1 _

end Fit

end PatchRun

/-! ## A patch is rejected or gets through -/

section Rejections

variable {data : Buffer} {image : PeImage}

/-- Only exceptions of the source are thrown. -/
abbrev Rejects {α : Type} (x : Except PatchFailure α) : Prop :=
  ThrowsOnly PatchFailure.IsRejection x

theorem failIf_rejects {p : Prop} [Decidable p] {code : PePatchError} {message : String} :
    Rejects (failIf p (.rejected code message)) :=
  throwsOnly_failIf fun _ h => nomatch h

theorem readAt_rejects {width offset : ℕ} {subject : String} :
    Rejects (readAt width data offset subject) :=
  failIf_rejects.bind fun _ _ => throwsOnly_pure _

theorem readFile_rejects {subject : String} : Rejects (readFile data subject) :=
  failIf_rejects.bind fun _ _ => throwsOnly_pure _

theorem alignUp_rejects {value alignment : ℕ} {subject : String} :
    Rejects (alignUp value alignment subject) :=
  failIf_rejects.bind fun _ _ => failIf_rejects.bind fun _ _ => throwsOnly_pure _

theorem readFile_eq_ok {content : Buffer} {subject : String} :
    readFile content subject = .ok data ↔ content.size ≤ maxImageSize ∧ content = data := by
  unfold readFile
  rw [failIf_bind_eq_ok, not_lt, pure_eq_ok, Except.ok.injEq]

theorem readDirectory_rejects {optional index : ℕ} :
    Rejects (readDirectory data optional index) :=
  readAt_rejects.bind fun _ _ => readAt_rejects.bind fun _ _ => throwsOnly_pure _

/-- The name of a section is copied after the check that its header is there. -/
theorem readSection_rejects {offset : ℕ} : Rejects (readSection data offset) := by
  refine failIf_rejects.bind fun _ hroom => ?_
  have hroom := failIf_eq_ok.mp hroom
  unfold sectionHeaderSize at hroom
  have hname : fetch data offset 8 = .ok (data.slice offset 8) :=
    fetch_eq_ok.mpr ⟨by omega, rfl⟩
  rw [hname, ok_bind]
  exact readAt_rejects.bind fun _ _ => readAt_rejects.bind fun _ _ => readAt_rejects.bind fun _ _ =>
    readAt_rejects.bind fun _ _ => readAt_rejects.bind fun _ _ => failIf_rejects.bind fun _ _ =>
      throwsOnly_pure _

theorem parsePe_rejects : Rejects (parsePe data) := by
  have hdirectories (optional : ℕ) : Rejects ((List.range 16).mapM (readDirectory data optional)) :=
    .mapM fun _ _ => readDirectory_rejects
  have hsections (table count : ℕ) : Rejects ((List.range count).mapM fun index =>
      readSection data (table + index * sectionHeaderSize)) :=
    .mapM fun _ _ => readSection_rejects
  unfold parsePe
  repeat' first
    | exact readAt_rejects
    | exact failIf_rejects
    | exact hdirectories _
    | exact hsections _ _
    | exact throwsOnly_pure _
    | refine ThrowsOnly.bind ?_ fun _ _ => ?_

theorem entrySection_rejects : Rejects (entrySection image) := by
  unfold entrySection
  split
  · exact throwsOnly_ok _
  · exact throwsOnly_error fun h => nomatch h

theorem validatePatchable_rejects {fileSize : ℕ} {allow : Bool} :
    Rejects (validatePatchable image fileSize allow) := by
  have hnames : Rejects (image.sections.forM checkSectionName) :=
    .forM fun _ _ => failIf_rejects.bind fun _ _ => failIf_rejects
  have hentry : Rejects (checkEntry image) :=
    entrySection_rejects.bind fun _ _ => failIf_rejects.bind fun _ _ =>
      failIf_rejects.bind fun _ _ => failIf_rejects
  have hoverlay : Rejects (checkOverlay image fileSize allow) :=
    throwsOnly_ite (fun _ => failIf_rejects.bind fun _ _ => failIf_rejects)
      fun _ => failIf_rejects
  exact failIf_rejects.bind fun _ _ => failIf_rejects.bind fun _ _ => failIf_rejects.bind fun _ _ =>
    failIf_rejects.bind fun _ _ => failIf_rejects.bind fun _ _ => hnames.bind fun _ _ =>
      hentry.bind fun _ _ => hoverlay.bind fun _ _ => failIf_rejects.bind fun _ _ => failIf_rejects

theorem validateAgentName_rejects {name : Bytes} : Rejects (validateAgentName name) :=
  failIf_rejects.bind fun _ _ => .mapM fun _ _ => failIf_rejects.bind fun _ _ => throwsOnly_pure _

theorem highestAddress_rejects : Rejects (highestAddress image) :=
  .foldlM (fun _ _ _ => alignUp_rejects.bind fun _ _ => throwsOnly_pure _) _

/-- The entry is probed and saved inside of the raw data of its section. -/
theorem planEntryPatch_rejects {fileSize sectionRva : ℕ} {allow : Bool}
    (hparsable : Parsable data) (hsize : data.size ≤ maxImageSize)
    (h : Patchable (imageOf data) fileSize allow) :
    Rejects (planEntryPatch (imageOf data) data sectionRva) := by
  obtain ⟨entry, hentry, hraw, ⟨hinside, hroom⟩, -⟩ := h.entry
  obtain ⟨hmem, hholds⟩ := entrySection_mem hentry
  obtain ⟨index, hindex, rfl⟩ := List.mem_map.mp hmem
  have hfile := hparsable.sections index (List.mem_range.mp hindex) hraw
  generalize sectionAt data (slotOf data index) = entry at *
  have hoffset := patchOffsetOf_le data (entryRawOffset (imageOf data) entry)
  unfold entryPatchSize at hroom
  unfold maxImageSize at hsize
  have hfirst : fetchWord 4 data (entryRawOffset (imageOf data) entry) =
      .ok (data.word 4 (entryRawOffset (imageOf data) entry)) :=
    fetchWord_eq_ok.mpr ⟨by unfold entryRawOffset; omega, rfl⟩
  have hsaved : fetch data ((entryRawOffset (imageOf data) entry +
      patchOffsetOf data (entryRawOffset (imageOf data) entry)) % 2 ^ 32) entryPatchSize =
        .ok (planOf (imageOf data) data entry sectionRva).originalBytes := by
    refine fetch_eq_ok.mpr ⟨?_, rfl⟩
    unfold entryRawOffset entryPatchSize at *
    rw [Nat.mod_eq_of_lt (by omega)]
    omega
  unfold patchOffsetOf at hsaved
  unfold planEntryPatch
  simp only [hentry, ok_bind, hfirst, hsaved]
  exact failIf_rejects.bind fun _ _ => throwsOnly_pure _

end Rejections

/-- A patch is rejected, or runs to its output, which may still be checked. -/
theorem patchPeImage_cases (stub : Vector UInt8 staticStubSize) (options : PePatchOptions)
    (input : Buffer) :
    ThrowsOr PatchFailure.IsRejection (fun x => ∃ run : PatchRun options input,
      x = (if options.verify then verifyPatchedImage (run.output stub) run.result run.plan
        else .ok ()) >>= fun _ => .ok (run.result, run.output stub))
      (patchPeImage stub options input) := by
  unfold patchPeImage
  refine .bind readFile_rejects fun data hdata => ?_
  obtain ⟨hsize, rfl⟩ := readFile_eq_ok.mp hdata
  refine .bind parsePe_rejects fun image himage => ?_
  obtain ⟨hparsable, rfl⟩ := parsePe_eq_ok.mp himage
  refine .bind validatePatchable_rejects fun _ hpatchable => ?_
  have hpatchable := validatePatchable_eq_ok.mp hpatchable
  refine .bind validateAgentName_rejects fun agentName hname => ?_
  refine .bind highestAddress_rejects fun sectionRva hva => ?_
  refine .bind (planEntryPatch_rejects hparsable hsize hpatchable) fun plan hplan => ?_
  obtain ⟨entry, hentry, -⟩ := hpatchable.entry
  obtain ⟨-, -, hrange, rfl⟩ := (planEntryPatch_eq_ok hentry).mp hplan
  refine .bind alignUp_rejects fun newRawOffset hoffset => ?_
  refine .bind alignUp_rejects fun newRawSize hcontent => ?_
  have hsaved : (planOf (imageOf input) input entry sectionRva).originalBytes.length = 5 :=
    Buffer.slice_length
  rw [buildSectionContent_eq hsaved (validateAgentName_length hname), ok_bind]
  refine .bind alignUp_rejects fun sizeOfImage himage => ?_
  let run : PatchRun options input := {
    agentName, entry, sectionRva, newRawOffset, newRawSize, sizeOfImage
    size := hsize
    parsable := hparsable
    patchable := hpatchable
    agentName_ok := hname
    sectionRva_ok := hva
    entry_ok := hentry
    inRange := hrange
    newRawOffset_ok := hoffset
    newRawSize_ok := hcontent
    sizeOfImage_ok := himage }
  -- no write can fail
  refine .bind (fun e he => nomatch run.headed_ok.symm.trans he) fun data hdata => ?_
  obtain rfl := Except.ok.inj (run.headed_ok.symm.trans hdata)
  refine .bind (fun e he => nomatch (run.output_ok stub).symm.trans he) fun data hdata => ?_
  obtain rfl := Except.ok.inj ((run.output_ok stub).symm.trans hdata)
  refine .inr ⟨run, ?_⟩
  cases options.verify <;> rfl

end Noleax.Controller
