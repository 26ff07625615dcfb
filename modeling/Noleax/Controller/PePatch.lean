import Noleax.Controller.Patchable

/-!
# The static PE patch (`controller/windows/pe_patch.cpp`, `static_pe_patch_layout.hpp`)

`patch_pe_image` on the content of the input file, the check of its output, and
`read_static_patch_info`, which recognises a patched image. The bytes of the stub are
a parameter.
-/

namespace Noleax.Controller

open Lib

/-! ## Layout of the added section -/

def staticStubSize : ℕ := 1203
def paramsOffset : ℕ := 0x500
def markerOffset : ℕ := 0x620
def agentNameOffset : ℕ := 0x630
def bootstrapSymbolOffset : ℕ := 0x6B0
def readySymbolOffset : ℕ := 0x6F0
def hashKernelbaseOffset : ℕ := 0x730
def hashLoadLibraryOffset : ℕ := 0x734
def hashGetProcAddressOffset : ℕ := 0x738
def hashSleepOffset : ℕ := 0x73C
def hashNtdllOffset : ℕ := 0x740
def hashVirtualProtectOffset : ℕ := 0x744
def hashNtFlushOffset : ℕ := 0x748
def originalBytesOffset : ℕ := 0x750
def patchRvaOffset : ℕ := 0x768
def contentSize : ℕ := 0x890
def fixupSectionRvaOffset : ℕ := 733
def fixupEntryRvaOffset : ℕ := 1041

/-- `kMarker` -/
def marker : Bytes := asciiBytes ['N', 'L', 'X', 'P', 'A', 'T', 'C', 'H', '0', '1']

/-- `kBootstrapSymbol`, with its final zero. -/
def bootstrapSymbol : Bytes :=
  asciiBytes ['n', 'o', 'l', 'e', 'a', 'x', '_', 'a', 'g', 'e', 'n', 't', '_', 'b', 'o', 'o', 't',
    's', 't', 'r', 'a', 'p'] ++ [0]

/-- `kReadySymbol`, with its final zero. -/
def readySymbol : Bytes :=
  asciiBytes ['n', 'o', 'l', 'e', 'a', 'x', '_', 'a', 'g', 'e', 'n', 't', '_', 'c', 'a', 'p', 't',
    'u', 'r', 'e', '_', 'i', 's', '_', 'r', 'e', 'a', 'd', 'y'] ++ [0]

def ror13 (value : ℕ) : ℕ := (value >>> 13 ||| value <<< 19) % 2 ^ 32

def exportNameHash (name : List Char) : ℕ :=
  name.foldl (fun hash character => (ror13 hash + character.toNat) % 2 ^ 32) 0

def moduleNameHash (name : List Char) : ℕ :=
  exportNameHash (name.map Char.toLower)

def kernelbaseHash : ℕ :=
  moduleNameHash ['k', 'e', 'r', 'n', 'e', 'l', 'b', 'a', 's', 'e', '.', 'd', 'l', 'l']
def ntdllHash : ℕ := moduleNameHash ['n', 't', 'd', 'l', 'l', '.', 'd', 'l', 'l']
def loadLibraryHash : ℕ :=
  exportNameHash ['L', 'o', 'a', 'd', 'L', 'i', 'b', 'r', 'a', 'r', 'y', 'W']
def getProcAddressHash : ℕ :=
  exportNameHash ['G', 'e', 't', 'P', 'r', 'o', 'c', 'A', 'd', 'd', 'r', 'e', 's', 's']
def sleepHash : ℕ := exportNameHash ['S', 'l', 'e', 'e', 'p']
def virtualProtectHash : ℕ :=
  exportNameHash ['V', 'i', 'r', 't', 'u', 'a', 'l', 'P', 'r', 'o', 't', 'e', 'c', 't']
def ntFlushInstructionCacheHash : ℕ :=
  exportNameHash ['N', 't', 'F', 'l', 'u', 's', 'h', 'I', 'n', 's', 't', 'r', 'u', 'c', 't', 'i',
    'o', 'n', 'C', 'a', 'c', 'h', 'e']

/-- Characters of two bytes. -/
def wideBytes (text : List ℕ) : Bytes := text.flatMap (littleEndian 2)

/-- `kStandaloneSentinel`, with its final zero. -/
def standaloneSentinel : Bytes :=
  wideBytes ((['s', 't', 'a', 'n', 'd', 'a', 'l', 'o', 'n', 'e'].map Char.toNat) ++ [0])

/-- `kStandaloneMagic` -/
def standaloneMagic : Bytes :=
  asciiBytes ['N', 'L', 'X', '-', 'S', 'T', 'A', 'N', 'D', 'A', 'L', 'O', 'N', 'E', '-', '1']

/-- The bytes of the `BootstrapParameters` that activate a standalone capture: size and
version, the pipe name of 128 characters, the token, no timeout and no controller. -/
def standaloneParameters : Bytes :=
  littleEndian 4 0x120 ++ littleEndian 4 2 ++ standaloneSentinel ++
    List.replicate (256 - standaloneSentinel.length) 0 ++ standaloneMagic ++
      littleEndian 4 0 ++ littleEndian 4 0

/-! ## Writing -/

/-- Writes in the order of the list. -/
def storeAll (data : Buffer) (writes : List (ℕ × Bytes)) : Except PatchFailure Buffer :=
  writes.foldlM (fun data w => store data w.1 w.2) data

structure PePatchOptions where
  agentName : Bytes
  allowBreakSignature : Bool := false
  verify : Bool := true
  standalone : Bool := false

structure PePatchResult where
  entryRva : ℕ
  sectionRva : ℕ
  patchRva : ℕ
  outputSize : ℕ
  signatureRemoved : Bool
deriving DecidableEq, Repr

structure EntryPatchPlan where
  patchRva : ℕ
  patchRawOffset : ℕ
  originalBytes : Bytes
  jumpOffset : ℤ
deriving DecidableEq, Repr

/-- The first bytes of a function that starts with `endbr64`. -/
def endbr64 : ℕ := 0xFA1E0FF3

/-- The bytes of an `int32_t`. -/
def int32Bytes (value : ℤ) : Bytes := littleEndian 4 (value % 2 ^ 32).toNat

/-- The `int32_t` of a 32-bit word. -/
def int32Of (word : ℕ) : ℤ := if word < 2 ^ 31 then word else word - 2 ^ 32

/-- `entry_raw_offset`, of a section that holds the entry. -/
def entryRawOffset (image : PeImage) (entry : Section) : ℕ :=
  entry.rawOffset + (image.entryRva - entry.virtualAddress)

/-- `plan_entry_patch` -/
def planEntryPatch (image : PeImage) (data : Buffer) (sectionRva : ℕ) :
    Except PatchFailure EntryPatchPlan := do
  let entry ← entrySection image
  let entryRaw := entryRawOffset image entry
  let firstBytes ← fetchWord 4 data entryRaw
  let patchOffset : ℕ := if firstBytes = endbr64 then 4 else 0
  let patchRva : ℕ := (image.entryRva + patchOffset) % 2 ^ 32
  let patchRawOffset := (entryRaw + patchOffset) % 2 ^ 32
  let originalBytes ← fetch data patchRawOffset entryPatchSize
  let distance : ℤ := sectionRva - patchRva - entryPatchSize
  failIf (distance < -2 ^ 31 ∨ 2 ^ 31 - 1 < distance)
    (.rejected .malformed "the bootstrap section is out of direct-jump range")
  return { patchRva, patchRawOffset, originalBytes, jumpOffset := distance }

/-- The writes of `build_section_content` over the stub, from the fixups on. -/
def contentFields (sectionRva entryRva patchRva : ℕ) (originalBytes : Bytes)
    (agentName : List ℕ) : List (ℕ × Bytes) :=
  [(fixupSectionRvaOffset, littleEndian 4 sectionRva),
    (fixupEntryRvaOffset, littleEndian 4 entryRva),
    (markerOffset, marker),
    (agentNameOffset, wideBytes (agentName ++ [0])),
    (bootstrapSymbolOffset, bootstrapSymbol),
    (readySymbolOffset, readySymbol),
    (hashKernelbaseOffset, littleEndian 4 kernelbaseHash),
    (hashLoadLibraryOffset, littleEndian 4 loadLibraryHash),
    (hashGetProcAddressOffset, littleEndian 4 getProcAddressHash),
    (hashSleepOffset, littleEndian 4 sleepHash),
    (hashNtdllOffset, littleEndian 4 ntdllHash),
    (hashVirtualProtectOffset, littleEndian 4 virtualProtectHash),
    (hashNtFlushOffset, littleEndian 4 ntFlushInstructionCacheHash),
    (originalBytesOffset, originalBytes),
    (patchRvaOffset, littleEndian 8 patchRva)]

/-- All writes of `build_section_content` over the stub. -/
def contentWrites (sectionRva entryRva patchRva : ℕ) (originalBytes : Bytes)
    (agentName : List ℕ) (standalone : Bool) : List (ℕ × Bytes) :=
  (if standalone then [(paramsOffset, standaloneParameters)] else []) ++
    contentFields sectionRva entryRva patchRva originalBytes agentName

/-- `build_section_content` -/
def buildSectionContent (stub : Vector UInt8 staticStubSize) (sectionRva entryRva patchRva : ℕ)
    (originalBytes : Bytes) (agentName : List ℕ) (standalone : Bool) :
    Except PatchFailure Buffer := do
  let content ← store (.zeros contentSize) 0 stub.toList
  storeAll content
    (contentWrites sectionRva entryRva patchRva originalBytes agentName standalone)

def scnCntCode : ℕ := 0x00000020
def scnCntInitializedData : ℕ := 0x00000040
def scnMemRead : ℕ := 0x40000000
def scnMemWrite : ℕ := 0x80000000

/-- The section that `patch_pe_image` adds. -/
def bootstrapSection (sectionRva newRawOffset newRawSize : ℕ) : Section where
  name := bootstrapSectionName
  virtualSize := contentSize
  virtualAddress := sectionRva
  rawSize := newRawSize
  rawOffset := newRawOffset
  characteristics :=
    scnCntCode ||| scnCntInitializedData ||| scnMemExecute ||| scnMemRead ||| scnMemWrite

/-- The writes of `patch_pe_image` into the headers and the entry. -/
def headerWrites (image : PeImage) (plan : EntryPatchPlan) (sizeOfImage : ℕ)
    (bootstrap : Section) : List (ℕ × Bytes) :=
  let optional := image.peOffset + 4 + 20
  let newHeaderOffset := image.newHeaderOffset
  [(image.peOffset + 4 + 2, littleEndian 2 ((image.numberOfSections + 1) % 2 ^ 16)),
    (optional + 56, littleEndian 4 sizeOfImage),
    (optional + 64, littleEndian 4 0),
    (optional + 112 + directorySecurity * 8, littleEndian 4 0),
    (optional + 116 + directorySecurity * 8, littleEndian 4 0),
    (plan.patchRawOffset, [0xE9]),
    (plan.patchRawOffset + 1, int32Bytes plan.jumpOffset),
    (newHeaderOffset + 8, littleEndian 4 bootstrap.virtualSize),
    (newHeaderOffset + 12, littleEndian 4 bootstrap.virtualAddress),
    (newHeaderOffset + 16, littleEndian 4 bootstrap.rawSize),
    (newHeaderOffset + 20, littleEndian 4 bootstrap.rawOffset),
    (newHeaderOffset + 36, littleEndian 4 bootstrap.characteristics),
    (newHeaderOffset, bootstrap.name)]

/-- The loop of `patch_pe_image` over the sections: where the addresses of the image end. -/
def highestAddress (image : PeImage) : Except PatchFailure ℕ :=
  image.sections.foldlM (fun highestVa s => do
    return max highestVa (← alignUp s.virtualEnd image.sectionAlignment "SizeOfImage"))
    image.sizeOfHeaders

/-- `verify_patched_image`, on the content of the file that was written. -/
def verifyPatchedImage (content : Buffer) (expected : PePatchResult) (plan : EntryPatchPlan) :
    Except PatchFailure Unit := do
  let data ← readFile content "the patched output"
  let image ← parsePe data
  failIf (image.entryRva ≠ expected.entryRva ∨ image.numberOfSections = 0)
    (.rejected .malformed "the patched output changed the entry point RVA")
  match image.sections.getLast? with
  | none => .error .outOfBounds
  | some s => do
      failIf (s.nameView ≠ bootstrapSectionName ∨ s.virtualAddress ≠ expected.sectionRva ∨
          s.characteristics &&& scnMemExecute = 0 ∨ s.characteristics &&& scnMemWrite = 0)
        (.rejected .malformed "the patched output is missing its bootstrap section")
      let found ← fetch data (s.rawOffset + markerOffset) marker.length
      failIf (found ≠ marker) (.rejected .malformed "the patched output is missing its marker")
      let sectionFixup ← readAt 4 data (s.rawOffset + fixupSectionRvaOffset) "a stub fixup"
      let entryFixup ← readAt 4 data (s.rawOffset + fixupEntryRvaOffset) "a stub fixup"
      let patchRva ← readAt 8 data (s.rawOffset + patchRvaOffset) "the patch RVA"
      failIf (sectionFixup ≠ expected.sectionRva ∨ entryFixup ≠ expected.entryRva ∨
          patchRva ≠ expected.patchRva)
        (.rejected .malformed "the patched output has inconsistent stub fixups")
      let saved ← fetch data (s.rawOffset + originalBytesOffset) entryPatchSize
      failIf (saved ≠ plan.originalBytes)
        (.rejected .malformed "the patched output lost the original entry bytes")
      let opcode ← fetch data plan.patchRawOffset 1
      failIf (opcode ≠ [0xE9]) (.rejected .malformed "the patched output is missing the entry jump")
      let jumpOffset ← fetchWord 4 data (plan.patchRawOffset + 1)
      failIf (int32Of jumpOffset ≠ plan.jumpOffset)
        (.rejected .malformed "the patched entry jump offset is inconsistent")

/-- `patch_pe_image` from the content of its input file to that of its output file. -/
def patchPeImage (stub : Vector UInt8 staticStubSize) (options : PePatchOptions)
    (input : Buffer) : Except PatchFailure (PePatchResult × Buffer) := do
  let data ← readFile input "the patch input"
  let image ← parsePe data
  validatePatchable image data.size options.allowBreakSignature
  let agentName ← validateAgentName options.agentName
  let sectionRva ← highestAddress image
  let certificate := image.directory directorySecurity
  let plan ← planEntryPatch image data sectionRva
  -- the certificate is cut off
  let data := data.resize (if certificate.rva ≠ 0 then certificate.rva else data.size)
  let newRawOffset ← alignUp data.size image.fileAlignment "the raw size"
  let newRawSize ← alignUp contentSize image.fileAlignment "the raw size"
  let content ← buildSectionContent stub sectionRva image.entryRva plan.patchRva
    plan.originalBytes agentName options.standalone
  let bootstrap := bootstrapSection sectionRva newRawOffset newRawSize
  let sizeOfImage ← alignUp (sectionRva + contentSize) image.sectionAlignment "SizeOfImage"
  let data ← storeAll (data.resize newRawOffset) (headerWrites image plan sizeOfImage bootstrap)
  let data ← store (data.resize (newRawOffset + newRawSize)) newRawOffset content.toBytes
  let result : PePatchResult := {
    entryRva := image.entryRva
    sectionRva
    patchRva := plan.patchRva
    outputSize := data.size
    signatureRemoved := certificate.rva ≠ 0 }
  if options.verify then
    verifyPatchedImage data result plan
  return (result, data)

/-! ## Recognising -/

structure StaticPatchInfo where
  entryRva : ℕ
  sectionRva : ℕ
  paramsRva : ℕ
deriving DecidableEq, Repr

/-- The loop body of `read_static_patch_info` on the section of the right name. -/
def patchInfoAt (data : Buffer) (image : PeImage) (s : Section) :
    Except PatchFailure (Option StaticPatchInfo) := do
  if s.rawSize < contentSize then return none
  else
    let found ← fetch data (s.rawOffset + markerOffset) marker.length
    if found ≠ marker then return none
    else
      let entry ← entrySection image
      if ¬ entryHasRawRoom entry image.entryRva then return none
      else
        let entryRaw := entryRawOffset image entry
        let firstBytes ← fetchWord 4 data entryRaw
        let patchOffset : ℕ := if firstBytes = endbr64 then 4 else 0
        let patchRaw := entryRaw + patchOffset
        let opcode ← fetch data patchRaw 1
        if opcode ≠ [0xE9] then return none
        else
          let jumpOffset ← fetchWord 4 data (patchRaw + 1)
          let target : ℤ := image.entryRva + patchOffset + entryPatchSize + int32Of jumpOffset
          if target ≠ s.virtualAddress then return none
          else
            return some {
              entryRva := image.entryRva
              sectionRva := s.virtualAddress
              paramsRva := (s.virtualAddress + paramsOffset) % 2 ^ 32 }

/-- The body of the `try` block of `read_static_patch_info`. -/
def findPatchInfo (content : Buffer) : Except PatchFailure (Option StaticPatchInfo) := do
  let data ← readFile content "the target image"
  let image ← parsePe data
  match image.sections.find? (·.nameView = bootstrapSectionName) with
  | none => return none
  | some s => patchInfoAt data image s

/-- `read_static_patch_info`: an exception of the source means that there is nothing. -/
def readStaticPatchInfo (content : Buffer) : Except PatchFailure (Option StaticPatchInfo) :=
  match findPatchInfo content with
  | .error (.rejected _ _) => .ok none
  | found => found

end Noleax.Controller
