import Noleax.Elf.Format
import Noleax.Elf.Symbols
import Noleax.Lib.Checked

/-!
# ELF images (`analyzer/elf_image.cpp`)

The construction of an `ElfImage`: headers, load segments, section names, symbol tables, the
build ID note and the debug link. A read outside of the file is a failure of the model.
-/

namespace Noleax.Elf

open Lib

inductive ElfFault where
  /-- A read outside of the file. -/
  | outside
  /-- `ElfImageError`, with its text. -/
  | image (message : String)
deriving DecidableEq, Repr

/-! ## Reading -/

/-- `pread` of `count` bytes. -/
def pread (file : Buffer) (offset count : ℕ) : Except ElfFault Bytes := do
  failIf (file.size < offset + count) .outside
  return file.slice offset count

/-- `FileReader::read_exact` -/
def readExact (file : Buffer) (offset count : ℕ) : Except ElfFault Bytes := do
  failIf (file.size < count ∨ file.size - count < offset) (.image "the ELF image is truncated")
  pread file offset count

/-- `FileReader::read` -/
def readBytes (file : Buffer) (offset count : ℕ) : Except ElfFault Bytes := do
  failIf (file.size < count) (.image "the ELF image is truncated")
  readExact file offset count

/-- `read_struct<Elf64_Shdr>` -/
def readSection (file : Buffer) (offset : ℕ) : Except ElfFault Elf64Shdr := do
  let _ ← readExact file offset sectionHeaderSize
  return sectionHeaderAt file offset

/-- `ensure_table_span` -/
def ensureTableSpan (fileSize offset entrySize minimumEntrySize count : ℕ) :
    Except ElfFault Unit :=
  if count = 0 then .ok ()
  else do
    failIf (entrySize < minimumEntrySize) (.image "an ELF table has an invalid entry size")
    failIf (fileSize < offset ∨ (fileSize - offset) / entrySize < count)
      (.image "an ELF table escapes the image")

def align4 (value : ℕ) : ℕ := (value + 3) / 4 * 4

/-! ## Symbol tables -/

/-- `read_symbol_name` -/
def readSymbolName (strings : Bytes) (nameOffset : ℕ) : Except ElfFault Bytes :=
  if nameOffset = 0 then .ok []
  else do
    failIf (strings.length ≤ nameOffset) (.image "a symbol name escapes the string table")
    match terminated (strings.drop nameOffset) with
    | none => .error (.image "a symbol name is not terminated")
    | some name => return name

/-- The entry at an offset of the symbol table that was read. -/
def readSymbol (strings : Bytes) (entries : Bytes) (offset : ℕ) (origin : SymbolTable) :
    Except ElfFault ElfSymbol := do
  let entry := symbolAt (.ofBytes entries) offset
  let name ← readSymbolName strings entry.stName
  return {
    name
    value := entry.stValue
    size := entry.stSize
    sectionIndex := entry.stShndx
    type := entry.stInfo % 16
    binding := entry.stInfo / 16
    table := origin }

/-- `parse_symbol_table` -/
def parseSymbolTable (file : Buffer) (table : Elf64Shdr)
    (sectionOffset sectionEntrySize sectionCount : ℕ) (origin : SymbolTable) :
    Except ElfFault (List ElfSymbol) :=
  if table.shSize = 0 then .ok []
  else do
    failIf (table.shEntsize < symbolSize) (.image "a symbol table has an invalid entry size")
    let count := table.shSize / table.shEntsize
    ensureTableSpan file.size table.shOffset table.shEntsize symbolSize count
    failIf (sectionCount ≤ table.shLink) (.image "a symbol table links an invalid string table")
    let stringsHeader ← readSection file (sectionOffset + table.shLink * sectionEntrySize)
    failIf (stringsHeader.shType ≠ shtStrtab) (.image "a symbol table links a non-string table")
    let strings ← readBytes file stringsHeader.shOffset stringsHeader.shSize
    let entries ← readBytes file table.shOffset table.shSize
    (List.range count).mapM fun index =>
      readSymbol strings entries (index * table.shEntsize) origin

/-- A table that the image may not have. -/
def parseOptional (file : Buffer) (table : Option Elf64Shdr)
    (sectionOffset sectionEntrySize sectionCount : ℕ) (origin : SymbolTable) :
    Except ElfFault (List ElfSymbol) :=
  match table with
  | none => .ok []
  | some table => parseSymbolTable file table sectionOffset sectionEntrySize sectionCount origin

/-! ## The build ID -/

def ntGnuBuildId : ℕ := 3

/-- `sizeof(Elf64_Nhdr)` -/
def noteHeaderSize : ℕ := 12

/-- The loop of `read_build_id_note` from `cursor` on: the descriptor of the first build ID. -/
def scanNotes (bytes : Bytes) (cursor : ℕ) : Option Bytes :=
  if h : cursor + noteHeaderSize ≤ bytes.length then
    let nameSize := (Buffer.ofBytes bytes).word 4 cursor
    let descriptorSize := (Buffer.ofBytes bytes).word 4 (cursor + 4)
    let type := (Buffer.ofBytes bytes).word 4 (cursor + 8)
    let name := cursor + noteHeaderSize
    if bytes.length - name < nameSize then none
    else
      let gnuName : Bool :=
        nameSize = 4 && (Buffer.ofBytes bytes).slice name 3 = [0x47, 0x4e, 0x55]
      let descriptor := align4 (name + nameSize)
      if bytes.length < descriptor ∨ bytes.length - descriptor < descriptorSize then none
      else if gnuName && type = ntGnuBuildId then
        some ((bytes.drop descriptor).take descriptorSize)
      else
        have : bytes.length - align4 (descriptor + descriptorSize) < bytes.length - cursor := by
          unfold noteHeaderSize at h
          simp only [descriptor, name, align4, noteHeaderSize]
          omega
        scanNotes bytes (align4 (descriptor + descriptorSize))
  else none
termination_by bytes.length - cursor

/-- `read_build_id_note` -/
def readBuildIdNote (file : Buffer) (buildId : Bytes) (note : Elf64Shdr) : Except ElfFault Bytes :=
  if buildId ≠ [] ∨ note.shSize = 0 then .ok buildId
  else do
    let bytes ← readBytes file note.shOffset note.shSize
    return (scanNotes bytes 0).getD buildId

/-! ## The debug link -/

/-- `.gnu_debuglink` with its terminator. -/
def debuglinkSection : Bytes :=
  [0x2e, 0x67, 0x6e, 0x75, 0x5f, 0x64, 0x65, 0x62, 0x75, 0x67, 0x6c, 0x69, 0x6e, 0x6b, 0x00]

/-- A plain file name: no `/`, no `\`, neither `.` nor `..`. -/
def PlainName (name : Bytes) : Prop :=
  0x2f ∉ name ∧ 0x5c ∉ name ∧ name ≠ [0x2e] ∧ name ≠ [0x2e, 0x2e]

instance (name : Bytes) : Decidable (PlainName name) :=
  inferInstanceAs (Decidable (_ ∧ _ ∧ _ ∧ _))

/-- What `parse_debuglink` makes of the section's bytes. -/
def debuglinkOf (bytes : Bytes) : Option (Bytes × ℕ) :=
  match terminated bytes with
  | none => none
  | some name =>
      let crcOffset := align4 (name.length + 1)
      if name = [] ∨ ¬ PlainName name ∨ bytes.length < crcOffset ∨
          bytes.length - crcOffset < 4 then none
      else some (name, (Buffer.ofBytes bytes).word 4 crcOffset)

/-- `parse_debuglink`; the sum of its check is of 64 bits. -/
def parseDebuglink (file : Buffer) (debuglink : Elf64Shdr) :
    Except ElfFault (Option (Bytes × ℕ)) :=
  if debuglink.shSize = 0 ∨
      file.size < (debuglink.shOffset + debuglink.shSize) % 2 ^ 64 then .ok none
  else do
    let bytes ← readBytes file debuglink.shOffset debuglink.shSize
    return debuglinkOf bytes

/-- The debug link of an image, when a section is called so. -/
def readDebuglink (file : Buffer) (debuglink : Option Elf64Shdr) :
    Except ElfFault (Option (Bytes × ℕ)) :=
  match debuglink with
  | none => .ok none
  | some debuglink => parseDebuglink file debuglink

/-! ## The layout -/

/-- The header checks of the constructor. -/
def checkHeader (header : Elf64Ehdr) : Except ElfFault Unit := do
  failIf (header.eIdent.take 4 ≠ [0x7f, 0x45, 0x4c, 0x46]) (.image "the image is not an ELF file")
  failIf (header.eIdent.getD 4 0 ≠ 2) (.image "the ELF image is not 64-bit")
  failIf (header.eIdent.getD 5 0 ≠ 1) (.image "the ELF image is not little-endian")
  failIf (header.eIdent.getD 6 0 ≠ 1 ∨ header.eVersion ≠ 1)
    (.image "the ELF image has an unsupported version")
  failIf (header.eMachine ≠ emX8664) (.image "the ELF image is not an x86-64 image")
  failIf (header.eType ≠ etExec ∧ header.eType ≠ etDyn)
    (.image "the ELF image is not a loadable executable or shared object")

structure TableCounts where
  sectionCount : ℕ
  programCount : ℕ
  sectionNamesIndex : ℕ
deriving DecidableEq, Repr

/-- Section header 0 is asked for counts that 16 bits do not hold. -/
def Elf64Ehdr.Extended (header : Elf64Ehdr) : Prop :=
  header.eShoff ≠ 0 ∧
    (header.eShnum = 0 ∨ header.ePhnum = pnXnum ∨ header.eShstrndx = shnXindex)

instance (header : Elf64Ehdr) : Decidable header.Extended :=
  inferInstanceAs (Decidable (_ ∧ _))

/-- The counts that extended numbering takes from section header 0. -/
def extendedCounts (header : Elf64Ehdr) (first : Elf64Shdr) : TableCounts where
  sectionCount := if header.eShnum = 0 then first.shSize else header.eShnum
  programCount := if header.ePhnum = pnXnum then first.shInfo else header.ePhnum
  sectionNamesIndex := if header.eShstrndx = shnXindex then first.shLink else header.eShstrndx

def tableCounts (file : Buffer) (header : Elf64Ehdr) : Except ElfFault TableCounts :=
  if header.Extended then do
    return extendedCounts header (← readSection file header.eShoff)
  else .ok ⟨header.eShnum, header.ePhnum, header.eShstrndx⟩

/-- One round of the segment loop: the lowest address of a load segment so far. -/
def loadSegment (file : Buffer) (header : Elf64Ehdr) (minimum : Option ℕ) (index : ℕ) :
    Except ElfFault (Option ℕ) := do
  let offset := header.ePhoff + index * header.ePhentsize
  let _ ← readExact file offset programHeaderSize
  let segment := programHeaderAt file offset
  if segment.pType ≠ ptLoad then return minimum
  else return some (match minimum with
    | none => segment.pVaddr
    | some lowest => if segment.pVaddr < lowest then segment.pVaddr else lowest)

/-- Where a section header lies. -/
def Elf64Ehdr.sectionOffset (header : Elf64Ehdr) (index : ℕ) : ℕ :=
  header.eShoff + index * header.eShentsize

/-- The section name table, when there is one; the sum of its check is of 64 bits. -/
def sectionNames (file : Buffer) (header : Elf64Ehdr) (counts : TableCounts) :
    Except ElfFault Bytes :=
  if counts.sectionNamesIndex ≠ shnUndef ∧ counts.sectionNamesIndex < counts.sectionCount then do
    let names ← readSection file (header.sectionOffset counts.sectionNamesIndex)
    if names.shType = shtStrtab ∧ names.shSize ≠ 0 ∧
        (names.shOffset + names.shSize) % 2 ^ 64 ≤ file.size then
      readBytes file names.shOffset names.shSize
    else return []
  else return []

/-- The section is called `.gnu_debuglink`. -/
def namedDebuglink (names : Bytes) (header : Elf64Shdr) : Bool :=
  header.shName + debuglinkSection.length ≤ names.length &&
    (names.drop header.shName).take debuglinkSection.length = debuglinkSection

/-- What the section loop has found. -/
structure SectionScan where
  symtab : Option Elf64Shdr := none
  dynsym : Option Elf64Shdr := none
  debuglink : Option Elf64Shdr := none
  notes : List Elf64Shdr := []
deriving DecidableEq, Repr

/-- What a section header changes. -/
def SectionScan.step (names : Bytes) (scan : SectionScan) (header : Elf64Shdr) : SectionScan :=
  if header.shType = shtSymtab ∧ scan.symtab = none then { scan with symtab := some header }
  else if header.shType = shtDynsym ∧ scan.dynsym = none then { scan with dynsym := some header }
  else if header.shType = shtNote then { scan with notes := scan.notes ++ [header] }
  else if namedDebuglink names header then { scan with debuglink := some header }
  else scan

/-- What the first half of the constructor finds. -/
structure ElfLayout where
  header : Elf64Ehdr
  counts : TableCounts
  minimumLoadVaddr : ℕ
  names : Bytes
  scan : SectionScan
deriving DecidableEq, Repr

/-- The section header at an index. -/
def ElfLayout.sectionAt (layout : ElfLayout) (file : Buffer) (index : ℕ) : Elf64Shdr :=
  sectionHeaderAt file (layout.header.sectionOffset index)

/-- One round of the section loop. -/
def scanSection (file : Buffer) (header : Elf64Ehdr) (names : Bytes) (scan : SectionScan)
    (index : ℕ) : Except ElfFault SectionScan := do
  return scan.step names (← readSection file (header.sectionOffset index))

/-- The section loop. -/
def scanSections (file : Buffer) (header : Elf64Ehdr) (names : Bytes) (count : ℕ) :
    Except ElfFault SectionScan :=
  (List.range count).foldlM (scanSection file header names) {}

/-- The constructor up to the end of the section loop. -/
def elfLayout (file : Buffer) : Except ElfFault ElfLayout := do
  let _ ← readExact file 0 headerSize
  let header := headerAt file
  checkHeader header
  let counts ← tableCounts file header
  ensureTableSpan file.size header.ePhoff header.ePhentsize programHeaderSize counts.programCount
  let minimum ← (List.range counts.programCount).foldlM (loadSegment file header) none
  match minimum with
  | none => .error (.image "the ELF image has no loadable segments")
  | some minimumLoadVaddr => do
      ensureTableSpan file.size header.eShoff header.eShentsize sectionHeaderSize
        counts.sectionCount
      let names ← sectionNames file header counts
      let scan ← scanSections file header names counts.sectionCount
      return { header, counts, minimumLoadVaddr, names, scan }

/-! ## The image -/

/-- `ElfImage`, less its function indices. -/
structure ElfImage where
  minimumLoadVaddr : ℕ
  debuglink : Option (Bytes × ℕ)
  symtab : List ElfSymbol
  dynsym : List ElfSymbol
  buildId : Bytes
deriving DecidableEq, Repr

/-- The `ElfImage` constructor. -/
def elfImage (file : Buffer) : Except ElfFault ElfImage := do
  let layout ← elfLayout file
  let debuglink ← readDebuglink file layout.scan.debuglink
  let symtab ← parseOptional file layout.scan.symtab layout.header.eShoff
    layout.header.eShentsize layout.counts.sectionCount .symtab
  let dynsym ← parseOptional file layout.scan.dynsym layout.header.eShoff
    layout.header.eShentsize layout.counts.sectionCount .dynsym
  let buildId ← layout.scan.notes.foldlM (readBuildIdNote file) []
  return { minimumLoadVaddr := layout.minimumLoadVaddr, debuglink, symtab, dynsym, buildId }

end Noleax.Elf
