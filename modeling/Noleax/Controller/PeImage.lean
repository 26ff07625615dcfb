import Noleax.Lib.Buffers

/-!
# PE images (`controller/windows/pe_patch.cpp`)

The parser of the static patcher and its checks on what may be patched. A copy
that would leave its buffer is the failure `outOfBounds`; every other failure is
an exception of the source.
-/

namespace Noleax.Controller

open Lib

/-! ## Failures and accesses -/

inductive PePatchError where
  | io | truncated | notPe | notX64 | notExecutable | managed | packed | malformed | signed
  | noHeaderSpace | overlay | outputExists
deriving DecidableEq, Repr

inductive PatchFailure where
  /-- A `PePatchException`. -/
  | rejected (code : PePatchError) (message : String)
  /-- An access outside of a buffer. -/
  | outOfBounds
deriving DecidableEq, Repr

/-- What an image can be refused with. -/
def PatchFailure.IsRejection (failure : PatchFailure) : Prop := failure ≠ .outOfBounds

/-- `read_at` -/
def readAt (width : ℕ) (data : Buffer) (offset : ℕ) (subject : String) :
    Except PatchFailure ℕ := do
  failIf (data.size < offset ∨ data.size - offset < width)
    (.rejected .truncated ("image ends inside " ++ subject))
  return data.word width offset

/-- `memcpy` out of a buffer. -/
def fetch (data : Buffer) (offset count : ℕ) : Except PatchFailure Bytes := do
  failIf (data.size < offset + count) .outOfBounds
  return data.slice offset count

/-- `memcpy` of a little-endian word out of a buffer. -/
def fetchWord (width : ℕ) (data : Buffer) (offset : ℕ) : Except PatchFailure ℕ := do
  return ofLittleEndian (← fetch data offset width)

/-- `memcpy` into a buffer. -/
def store (data : Buffer) (offset : ℕ) (bytes : Bytes) : Except PatchFailure Buffer := do
  failIf (data.size < offset + bytes.length) .outOfBounds
  return data.put offset bytes

/-- `write_at` -/
def writeAt (width : ℕ) (data : Buffer) (offset value : ℕ) : Except PatchFailure Buffer :=
  store data offset (littleEndian width value)

/-! ## Constants -/

def maxImageSize : ℕ := 512 * 1024 * 1024
def machineAmd64 : ℕ := 0x8664
def pe32PlusMagic : ℕ := 0x20B
def imageFileExecutableImage : ℕ := 0x0002
def imageFileDll : ℕ := 0x2000
def subsystemNative : ℕ := 1
def subsystemEfiApplication : ℕ := 10
def subsystemEfiRom : ℕ := 13
def directorySecurity : ℕ := 4
def directoryClr : ℕ := 14
def scnMemExecute : ℕ := 0x20000000
def maxSections : ℕ := 96
def sectionHeaderSize : ℕ := 40
/-- `kEntryPatchSize`, a direct `jmp rel32`. -/
def entryPatchSize : ℕ := 5

/-- The bytes of a text. -/
def asciiBytes (text : List Char) : Bytes := text.map fun c => UInt8.ofNat c.toNat

/-- `kBootstrapSectionName` -/
def bootstrapSectionName : Bytes := asciiBytes ['.', 'n', 'l', 'x', 'b', 'o', 'o', 't']

/-! ## Images -/

structure Directory where
  rva : ℕ
  size : ℕ
deriving DecidableEq, Repr

structure Section where
  name : Bytes
  virtualSize : ℕ
  virtualAddress : ℕ
  rawSize : ℕ
  rawOffset : ℕ
  characteristics : ℕ
deriving DecidableEq, Repr

/-- `name_view`: up to the first zero. -/
def Section.nameView (s : Section) : Bytes := s.name.takeWhile (· ≠ 0)

structure PeImage where
  peOffset : ℕ
  machine : ℕ
  numberOfSections : ℕ
  characteristics : ℕ
  entryRva : ℕ
  sectionAlignment : ℕ
  fileAlignment : ℕ
  sizeOfImage : ℕ
  sizeOfHeaders : ℕ
  checksum : ℕ
  subsystem : ℕ
  directories : List Directory
  sections : List Section
  sectionTableOffset : ℕ
deriving DecidableEq, Repr

/-- `directories[index]` -/
def PeImage.directory (image : PeImage) (index : ℕ) : Directory :=
  image.directories.getD index ⟨0, 0⟩

/-! ## Parsing -/

/-- The part of `read_file` that looks at the content. -/
def readFile (content : Buffer) (subject : String) : Except PatchFailure Buffer := do
  failIf (maxImageSize < content.size)
    (.rejected .io ("cannot inspect " ++ subject ++ " file size"))
  return content

/-- One round of the directory loop of `parse_pe`. -/
def readDirectory (data : Buffer) (optional index : ℕ) : Except PatchFailure Directory := do
  let rva ← readAt 4 data (optional + 112 + index * 8) "a data directory"
  let size ← readAt 4 data (optional + 116 + index * 8) "a data directory"
  return { rva, size }

/-- One round of the section loop of `parse_pe`. -/
def readSection (data : Buffer) (offset : ℕ) : Except PatchFailure Section := do
  failIf (data.size < offset + sectionHeaderSize)
    (.rejected .truncated "image ends inside a section header")
  let name ← fetch data offset 8
  let virtualSize ← readAt 4 data (offset + 8) "a section header"
  let virtualAddress ← readAt 4 data (offset + 12) "a section header"
  let rawSize ← readAt 4 data (offset + 16) "a section header"
  let rawOffset ← readAt 4 data (offset + 20) "a section header"
  let characteristics ← readAt 4 data (offset + 36) "a section header"
  failIf (rawSize ≠ 0 ∧ (data.size < rawOffset ∨ data.size - rawOffset < rawSize))
    (.rejected .malformed "a section's raw data exceeds the image")
  return { name, virtualSize, virtualAddress, rawSize, rawOffset, characteristics }

/-- `parse_pe` -/
def parsePe (data : Buffer) : Except PatchFailure PeImage := do
  let magic ← readAt 2 data 0 "the DOS header"
  failIf (magic ≠ 0x5A4D) (.rejected .notPe "missing the MZ signature")
  let peOffset ← readAt 4 data 0x3C "the PE header offset"
  failIf (peOffset < 0x40 ∨ data.size < peOffset)
    (.rejected .malformed "the PE header offset is out of bounds")
  let signature ← readAt 4 data peOffset "the PE signature"
  failIf (signature ≠ 0x00004550) (.rejected .notPe "missing the PE signature")
  let coff := peOffset + 4
  let machine ← readAt 2 data coff "the COFF header"
  let numberOfSections ← readAt 2 data (coff + 2) "the COFF header"
  failIf (numberOfSections = 0 ∨ maxSections < numberOfSections)
    (.rejected .malformed "the section count is implausible")
  let optionalSize ← readAt 2 data (coff + 16) "the COFF header"
  failIf (optionalSize < 0xF0) (.rejected .notPe "the optional header is not PE32+")
  let characteristics ← readAt 2 data (coff + 18) "the COFF header"
  let optional := coff + 20
  failIf (data.size < optional + optionalSize)
    (.rejected .truncated "image ends inside the optional header")
  let optionalMagic ← readAt 2 data optional "the optional header"
  failIf (optionalMagic ≠ pe32PlusMagic) (.rejected .notX64 "the image is not a PE32+ binary")
  let entryRva ← readAt 4 data (optional + 16) "the entry point"
  let sectionAlignment ← readAt 4 data (optional + 32) "SectionAlignment"
  let fileAlignment ← readAt 4 data (optional + 36) "FileAlignment"
  let sizeOfImage ← readAt 4 data (optional + 56) "SizeOfImage"
  let sizeOfHeaders ← readAt 4 data (optional + 60) "SizeOfHeaders"
  let checksum ← readAt 4 data (optional + 64) "CheckSum"
  let subsystem ← readAt 2 data (optional + 68) "Subsystem"
  let directoryCount ← readAt 4 data (optional + 108) "NumberOfRvaAndSizes"
  failIf (directoryCount < 15) (.rejected .malformed "the image has too few data directories")
  let directories ← (List.range 16).mapM (readDirectory data optional)
  -- the offset is cut down to 32 bits
  let sectionTableOffset := (optional + optionalSize) % 2 ^ 32
  let sections ← (List.range numberOfSections).mapM fun index =>
    readSection data (sectionTableOffset + index * sectionHeaderSize)
  return {
    peOffset, machine, numberOfSections, characteristics, entryRva, sectionAlignment,
    fileAlignment, sizeOfImage, sizeOfHeaders, checksum, subsystem, directories, sections,
    sectionTableOffset }

/-! ## What a parse reads -/

section Accesses

variable {data : Buffer} {width offset count value : ℕ} {subject : String} {bytes : Bytes}

theorem readAt_eq_ok : readAt width data offset subject = .ok value ↔
    offset + width ≤ data.size ∧ data.word width offset = value := by
  unfold readAt
  rw [failIf_bind_eq_ok, pure_eq_ok, Except.ok.injEq]
  have hroom : ¬ (data.size < offset ∨ data.size - offset < width) ↔
      offset + width ≤ data.size := by omega
  rw [hroom]

theorem fetch_eq_ok : fetch data offset count = .ok bytes ↔
    offset + count ≤ data.size ∧ data.slice offset count = bytes := by
  unfold fetch
  rw [failIf_bind_eq_ok, pure_eq_ok, Except.ok.injEq, not_lt]

theorem fetchWord_eq_ok : fetchWord width data offset = .ok value ↔
    offset + width ≤ data.size ∧ data.word width offset = value := by
  unfold fetchWord
  rw [bind_eq_ok]
  simp only [fetch_eq_ok, pure_eq_ok, Except.ok.injEq]
  constructor
  · rintro ⟨_, ⟨hroom, rfl⟩, h⟩
    exact ⟨hroom, h⟩
  · rintro ⟨hroom, h⟩
    exact ⟨_, ⟨hroom, rfl⟩, h⟩

theorem store_eq_ok {data' : Buffer} : store data offset bytes = .ok data' ↔
    offset + bytes.length ≤ data.size ∧ data.put offset bytes = data' := by
  unfold store
  rw [failIf_bind_eq_ok, pure_eq_ok, Except.ok.injEq, not_lt]

theorem writeAt_eq_ok {data' : Buffer} : writeAt width data offset value = .ok data' ↔
    offset + width ≤ data.size ∧ data.put offset (littleEndian width value) = data' := by
  unfold writeAt
  rw [store_eq_ok, littleEndian_length]

end Accesses

/-! ## What `parse_pe` accepts -/

section Layout

variable (data : Buffer)

def peOffsetOf : ℕ := data.word 4 0x3C

/-- The file offset of the optional header. -/
def optionalOf : ℕ := peOffsetOf data + 24

def sectionCountOf : ℕ := data.word 2 (peOffsetOf data + 6)

def optionalSizeOf : ℕ := data.word 2 (peOffsetOf data + 20)

def sectionTableOf : ℕ := (optionalOf data + optionalSizeOf data) % 2 ^ 32

/-- The file offset of the section header `index`. -/
def slotOf (index : ℕ) : ℕ := sectionTableOf data + index * sectionHeaderSize

def directoryAt (index : ℕ) : Directory where
  rva := data.word 4 (optionalOf data + 112 + index * 8)
  size := data.word 4 (optionalOf data + 116 + index * 8)

def sectionAt (offset : ℕ) : Section where
  name := data.slice offset 8
  virtualSize := data.word 4 (offset + 8)
  virtualAddress := data.word 4 (offset + 12)
  rawSize := data.word 4 (offset + 16)
  rawOffset := data.word 4 (offset + 20)
  characteristics := data.word 4 (offset + 36)

/-- What the headers of `data` say, at the places where `parse_pe` looks. -/
def imageOf : PeImage where
  peOffset := peOffsetOf data
  machine := data.word 2 (peOffsetOf data + 4)
  numberOfSections := sectionCountOf data
  characteristics := data.word 2 (peOffsetOf data + 22)
  entryRva := data.word 4 (optionalOf data + 16)
  sectionAlignment := data.word 4 (optionalOf data + 32)
  fileAlignment := data.word 4 (optionalOf data + 36)
  sizeOfImage := data.word 4 (optionalOf data + 56)
  sizeOfHeaders := data.word 4 (optionalOf data + 60)
  checksum := data.word 4 (optionalOf data + 64)
  subsystem := data.word 2 (optionalOf data + 68)
  directories := (List.range 16).map (directoryAt data)
  sections := (List.range (sectionCountOf data)).map fun index => sectionAt data (slotOf data index)
  sectionTableOffset := sectionTableOf data

/-- The raw data of a section is part of the file. -/
def Section.InFile (s : Section) (fileSize : ℕ) : Prop :=
  s.rawSize ≠ 0 → s.rawOffset + s.rawSize ≤ fileSize

/-- What `parse_pe` asks of a file. -/
structure Parsable : Prop where
  mz : data.word 2 0 = 0x5A4D
  peOffset : 0x40 ≤ peOffsetOf data
  signature : data.word 4 (peOffsetOf data) = 0x00004550
  sectionCount : sectionCountOf data ≠ 0 ∧ sectionCountOf data ≤ maxSections
  optionalSize : 0xF0 ≤ optionalSizeOf data
  optional : optionalOf data + optionalSizeOf data ≤ data.size
  magic : data.word 2 (optionalOf data) = pe32PlusMagic
  directoryCount : 15 ≤ data.word 4 (optionalOf data + 108)
  slots : ∀ index < sectionCountOf data, slotOf data index + sectionHeaderSize ≤ data.size
  sections : ∀ index < sectionCountOf data,
    (sectionAt data (slotOf data index)).InFile data.size

end Layout

theorem readSection_eq_ok {data : Buffer} {offset : ℕ} {s : Section} :
    readSection data offset = .ok s ↔
      (offset + sectionHeaderSize ≤ data.size ∧ (sectionAt data offset).InFile data.size) ∧
        sectionAt data offset = s := by
  unfold readSection Section.InFile sectionHeaderSize
  simp only [bind_eq_ok, failIf_eq_ok, readAt_eq_ok, fetch_eq_ok, pure_eq_ok, Except.ok.injEq,
    and_assoc, exists_eq_left', exists_and_left, exists_const]
  constructor
  · rintro ⟨hroom, -, -, -, -, -, -, hraw, rfl⟩
    refine ⟨by omega, ?_, rfl⟩
    intro hne
    show data.word 4 (offset + 20) + data.word 4 (offset + 16) ≤ data.size
    have hne : data.word 4 (offset + 16) ≠ 0 := hne
    omega
  · rintro ⟨hroom, hraw, rfl⟩
    refine ⟨by omega, by omega, by omega, by omega, by omega, by omega, by omega, ?_, rfl⟩
    rintro ⟨hne, hout⟩
    have hraw : data.word 4 (offset + 20) + data.word 4 (offset + 16) ≤ data.size := hraw hne
    omega

theorem readDirectory_eq_ok {data : Buffer} {optional index : ℕ} {directory : Directory} :
    readDirectory data optional index = .ok directory ↔
      optional + 120 + index * 8 ≤ data.size ∧
        ⟨data.word 4 (optional + 112 + index * 8), data.word 4 (optional + 116 + index * 8)⟩ =
          directory := by
  unfold readDirectory
  simp only [bind_eq_ok, readAt_eq_ok, pure_eq_ok, Except.ok.injEq, and_assoc, exists_eq_left',
    exists_and_left]
  constructor
  · rintro ⟨-, hroom, rfl⟩
    exact ⟨by omega, rfl⟩
  · rintro ⟨hroom, rfl⟩
    exact ⟨by omega, by omega, rfl⟩

theorem readDirectories_eq_ok {data : Buffer} {optional count : ℕ} {directories : List Directory} :
    (List.range count).mapM (readDirectory data optional) = .ok directories ↔
      (∀ index ∈ List.range count, optional + 120 + index * 8 ≤ data.size) ∧
        (List.range count).map (fun index => ⟨data.word 4 (optional + 112 + index * 8),
          data.word 4 (optional + 116 + index * 8)⟩) = directories :=
  mapM_eq_ok fun _ _ _ => readDirectory_eq_ok

theorem readSections_eq_ok {data : Buffer} {table count : ℕ} {sections : List Section} :
    ((List.range count).mapM fun index => readSection data (table + index * sectionHeaderSize)) =
        .ok sections ↔
      (∀ index ∈ List.range count,
        table + index * sectionHeaderSize + sectionHeaderSize ≤ data.size ∧
        (sectionAt data (table + index * sectionHeaderSize)).InFile data.size) ∧
        (List.range count).map (fun index => sectionAt data (table + index * sectionHeaderSize)) =
          sections :=
  mapM_eq_ok fun _ _ _ => readSection_eq_ok

/-- `parse_pe` accepts the parsable files, and reads what their headers say. -/
theorem parsePe_eq_ok {data : Buffer} {image : PeImage} :
    parsePe data = .ok image ↔ Parsable data ∧ imageOf data = image := by
  unfold parsePe
  simp only [bind_eq_ok, failIf_eq_ok, readAt_eq_ok, readDirectories_eq_ok, readSections_eq_ok,
    pure_eq_ok, Except.ok.injEq, and_assoc, exists_eq_left', exists_and_left, exists_const]
  constructor
  · rintro ⟨_, hmz, _, hpe, _, hsignature, _, _, hcount, _, hoptional, _, hroom, _, hmagic, _, _, _,
      _, _, _, _, _, hdirectories, _, hsections, himage⟩
    refine ⟨?_, himage⟩
    exact {
      mz := not_not.mp hmz
      peOffset := not_lt.mp (not_or.mp hpe).1
      signature := not_not.mp hsignature
      sectionCount := ⟨(not_or.mp hcount).1, not_lt.mp (not_or.mp hcount).2⟩
      optionalSize := not_lt.mp hoptional
      optional := not_lt.mp hroom
      magic := not_not.mp hmagic
      directoryCount := not_lt.mp hdirectories
      slots := fun index hi => (hsections index (List.mem_range.mpr hi)).1
      sections := fun index hi => (hsections index (List.mem_range.mpr hi)).2 }
  · rintro ⟨h, himage⟩
    -- the headers lie before the end of the optional header
    have hpe : 0x40 ≤ data.word 4 60 := h.peOffset
    have hoptional : 0xF0 ≤ data.word 2 (data.word 4 60 + 20) := h.optionalSize
    have hroom : data.word 4 60 + 24 + data.word 2 (data.word 4 60 + 20) ≤ data.size := h.optional
    refine ⟨by omega, not_not.mpr h.mz, by omega, by omega, by omega, not_not.mpr h.signature,
      by omega, by omega, not_or.mpr ⟨h.sectionCount.1, not_lt.mpr h.sectionCount.2⟩, by omega,
      not_lt.mpr hoptional, by omega, not_lt.mpr hroom, by omega, not_not.mpr h.magic, by omega,
      by omega, by omega, by omega, by omega, by omega, by omega, by omega,
      not_lt.mpr h.directoryCount, ?_, ?_, himage⟩
    · intro index hi
      have hi := List.mem_range.mp hi
      omega
    · intro index hi
      have hi := List.mem_range.mp hi
      exact ⟨h.slots index hi, h.sections index hi⟩

end Noleax.Controller
