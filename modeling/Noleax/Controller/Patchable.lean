import Noleax.Controller.PeImage
import Noleax.Lib.Words

/-!
# What may be patched (`controller/windows/pe_patch.cpp`)

The checks of the patcher on a parsed image and on its options, and what they leave
of the images that `parse_pe` accepts.
-/

namespace Noleax.Controller

open Lib

/-! ## Checks -/

/-- `align_up` -/
def alignUp (value alignment : ℕ) (subject : String) : Except PatchFailure ℕ := do
  failIf (alignment = 0 ∨ alignment &&& (alignment - 1) ≠ 0)
    (.rejected .malformed (subject ++ " is not a power of two"))
  let aligned := (value + alignment - 1) % 2 ^ 64 &&& (2 ^ 64 - 1 - (alignment - 1))
  failIf (2 ^ 32 - 1 < aligned) (.rejected .malformed (subject ++ " overflows 32 bits"))
  return aligned

/-- The end of the addresses of a section, in memory or in its raw data. -/
def Section.virtualEnd (s : Section) : ℕ := s.virtualAddress + max s.virtualSize s.rawSize

def Section.rawEnd (s : Section) : ℕ := s.rawOffset + s.rawSize

/-- The test of `entry_section`. -/
def Section.Holds (s : Section) (rva : ℕ) : Prop := s.virtualAddress ≤ rva ∧ rva < s.virtualEnd

instance (s : Section) (rva : ℕ) : Decidable (s.Holds rva) := inferInstanceAs (Decidable (_ ∧ _))

/-- `entry_section` -/
def entrySection (image : PeImage) : Except PatchFailure Section :=
  match image.sections.find? (·.Holds image.entryRva) with
  | some s => .ok s
  | none => .error (.rejected .malformed "the entry point is not inside any section")

/-- `entry_has_raw_room`, of a section that starts at the entry or before it. -/
def entryHasRawRoom (entry : Section) (entryRva : ℕ) : Prop :=
  entryRva - entry.virtualAddress ≤ entry.rawSize ∧
    4 + entryPatchSize ≤ entry.rawSize - (entryRva - entry.virtualAddress)

instance (entry : Section) (entryRva : ℕ) : Decidable (entryHasRawRoom entry entryRva) :=
  inferInstanceAs (Decidable (_ ∧ _))

def upxSectionNames : List Bytes :=
  [asciiBytes ['U', 'P', 'X', '0'], asciiBytes ['U', 'P', 'X', '1'],
    asciiBytes ['U', 'P', 'X', '2']]

/-- One round of the name loop of `validate_patchable`. -/
def checkSectionName (s : Section) : Except PatchFailure Unit := do
  failIf (s.nameView ∈ upxSectionNames)
    (.rejected .packed "UPX-packed images are not supported")
  failIf (s.nameView = bootstrapSectionName)
    (.rejected .malformed "the image already contains a noleax bootstrap section")

/-- Where the headers and the raw data of all sections end. -/
def PeImage.rawEnd (image : PeImage) : ℕ :=
  image.sections.foldl (fun rawEnd s => max rawEnd s.rawEnd) image.sizeOfHeaders

/-- The file offset of the section header that a patch adds. -/
def PeImage.newHeaderOffset (image : PeImage) : ℕ :=
  image.sectionTableOffset + image.numberOfSections * sectionHeaderSize

def PeImage.headersEnd (image : PeImage) : ℕ := image.newHeaderOffset + sectionHeaderSize

/-- Where the first raw data starts. -/
def PeImage.firstRaw (image : PeImage) (fileSize : ℕ) : ℕ :=
  image.sections.foldl (fun firstRaw s =>
    if s.rawSize ≠ 0 then min firstRaw s.rawOffset else firstRaw) fileSize

/-- The checks of `validate_patchable` on the section of the entry. -/
def checkEntry (image : PeImage) : Except PatchFailure Unit := do
  let entry ← entrySection image
  failIf (entry.rawSize = 0)
    (.rejected .packed "the entry section has no raw data (packed image?)")
  failIf (¬ entryHasRawRoom entry image.entryRva)
    (.rejected .malformed "the entry point is outside the entry section's raw data")
  failIf (entry.characteristics &&& scnMemExecute = 0)
    (.rejected .malformed "the entry section is not executable")

/-- The checks of `validate_patchable` on what follows the sections. -/
def checkOverlay (image : PeImage) (fileSize : ℕ) (allowBreakSignature : Bool) :
    Except PatchFailure Unit :=
  let certificate := image.directory directorySecurity
  if certificate.rva ≠ 0 ∨ certificate.size ≠ 0 then do
    failIf (¬ allowBreakSignature) (.rejected .signed
      "the image is Authenticode-signed; pass --allow-break-signature to patch anyway")
    failIf (certificate.rva ≠ image.rawEnd ∨ certificate.rva + certificate.size ≠ fileSize)
      (.rejected .overlay "the signature is not the only overlay; refusing to guess its layout")
  else
    failIf (image.rawEnd < fileSize)
      (.rejected .overlay "the image has data appended after its sections")

/-- `validate_patchable` -/
def validatePatchable (image : PeImage) (fileSize : ℕ) (allowBreakSignature : Bool) :
    Except PatchFailure Unit := do
  failIf (image.machine ≠ machineAmd64)
    (.rejected .notX64 "only native x64 (AMD64) images are supported")
  failIf (image.characteristics &&& imageFileExecutableImage = 0)
    (.rejected .notPe "the image is not an executable")
  failIf (image.characteristics &&& imageFileDll ≠ 0)
    (.rejected .notExecutable "only executables are supported, not DLLs")
  failIf (image.subsystem = subsystemNative ∨
      subsystemEfiApplication ≤ image.subsystem ∧ image.subsystem ≤ subsystemEfiRom)
    (.rejected .notExecutable "drivers and EFI images are not supported")
  failIf ((image.directory directoryClr).rva ≠ 0)
    (.rejected .managed "managed (.NET) images are not supported")
  image.sections.forM checkSectionName
  checkEntry image
  checkOverlay image fileSize allowBreakSignature
  failIf (image.firstRaw fileSize < image.headersEnd ∨ image.sizeOfHeaders < image.headersEnd)
    (.rejected .noHeaderSpace "no room for one more section header")
  failIf (image.sectionAlignment < 0x1000 ∨ image.fileAlignment < 0x200 ∨
      image.sectionAlignment < image.fileAlignment)
    (.rejected .malformed "implausible alignment values")

/-- `kAgentNameCapacity` -/
def agentNameCapacity : ℕ := 0x80

def forbiddenCharacters : Bytes :=
  asciiBytes ['\\', '/', ':', '*', '?', '"', '<', '>', '|']

/-- One round of the loop of `validate_agent_name`. -/
def wideCharacter (character : UInt8) : Except PatchFailure ℕ := do
  failIf (character.toNat < 0x20 ∨ 0x7E < character.toNat)
    (.rejected .malformed "patch.agent_name must be printable ASCII")
  return character.toNat

/-- `validate_agent_name` -/
def validateAgentName (agentName : Bytes) : Except PatchFailure (List ℕ) := do
  failIf (agentName = [] ∨ agentNameCapacity / 2 - 1 < agentName.length ∨
      agentName.any (· ∈ forbiddenCharacters))
    (.rejected .malformed "patch.agent_name must be a bare file name of at most 63 characters")
  agentName.mapM wideCharacter

/-! ## What the checks establish -/

/-- Rounding up to a power of two is rounding down what lies just below the next one. -/
theorem alignUp_eq_ok {value alignment aligned : ℕ} {subject : String}
    (hvalue : value < 2 ^ 63) (halignment : alignment < 2 ^ 32) :
    alignUp value alignment subject = .ok aligned ↔
      alignment.isPowerOfTwo ∧ (value + alignment - 1) / alignment * alignment = aligned ∧
        aligned < 2 ^ 32 := by
  have hpower : ¬ (alignment = 0 ∨ alignment &&& (alignment - 1) ≠ 0) ↔
      alignment.isPowerOfTwo := by
    rw [← Nat.ne_zero_and_sub_one_eq_zero_iff_isPowerOfTwo, not_or, not_not]
  unfold alignUp
  rw [failIf_bind_eq_ok, failIf_bind_eq_ok, hpower]
  refine and_congr_right fun hp => ?_
  obtain ⟨k, rfl⟩ := hp
  have hk : k < 32 := (Nat.pow_lt_pow_iff_right (by decide)).mp halignment
  rw [Nat.mod_eq_of_lt (by omega), and_complement_low (by omega) (by omega), pure_eq_ok,
    Except.ok.injEq]
  constructor
  · rintro ⟨hsmall, h⟩
    exact ⟨h, by omega⟩
  · rintro ⟨h, hsmall⟩
    exact ⟨by omega, h⟩

/-- What is rounded up is not below, and fits 32 bits. -/
theorem alignUp_bounds {value alignment aligned : ℕ} {subject : String}
    (hvalue : value < 2 ^ 63) (halignment : alignment < 2 ^ 32)
    (h : alignUp value alignment subject = .ok aligned) : value ≤ aligned ∧ aligned < 2 ^ 32 := by
  obtain ⟨hpower, rfl, hsmall⟩ := (alignUp_eq_ok hvalue halignment).mp h
  have hpos : 0 < alignment := Nat.pos_of_isPowerOfTwo hpower
  have hdiv := Nat.div_add_mod (value + alignment - 1) alignment
  have hmod := Nat.mod_lt (value + alignment - 1) hpos
  rw [Nat.mul_comm] at hdiv
  exact ⟨by omega, hsmall⟩

/-- What `validate_patchable` asks of an image. -/
structure Patchable (image : PeImage) (fileSize : ℕ) (allowBreakSignature : Bool) : Prop where
  machine : image.machine = machineAmd64
  executable : image.characteristics &&& imageFileExecutableImage ≠ 0
  notDll : image.characteristics &&& imageFileDll = 0
  subsystem : image.subsystem ≠ subsystemNative ∧
    ¬ (subsystemEfiApplication ≤ image.subsystem ∧ image.subsystem ≤ subsystemEfiRom)
  native : (image.directory directoryClr).rva = 0
  names : ∀ s ∈ image.sections, s.nameView ∉ upxSectionNames ∧ s.nameView ≠ bootstrapSectionName
  entry : ∃ entry, entrySection image = .ok entry ∧ entry.rawSize ≠ 0 ∧
    entryHasRawRoom entry image.entryRva ∧ entry.characteristics &&& scnMemExecute ≠ 0
  overlay : (image.directory directorySecurity).rva = 0 ∧
      (image.directory directorySecurity).size = 0 ∧ fileSize ≤ image.rawEnd ∨
    allowBreakSignature ∧ (image.directory directorySecurity).rva = image.rawEnd ∧
      image.rawEnd + (image.directory directorySecurity).size = fileSize
  headerSpace : image.headersEnd ≤ image.firstRaw fileSize ∧
    image.headersEnd ≤ image.sizeOfHeaders
  alignments : 0x1000 ≤ image.sectionAlignment ∧ 0x200 ≤ image.fileAlignment ∧
    image.fileAlignment ≤ image.sectionAlignment

theorem checkSectionName_eq_ok {s : Section} {u : Unit} : checkSectionName s = .ok u ↔
    s.nameView ∉ upxSectionNames ∧ s.nameView ≠ bootstrapSectionName := by
  unfold checkSectionName
  rw [failIf_bind_eq_ok, failIf_eq_ok]

theorem checkEntry_eq_ok {image : PeImage} {u : Unit} : checkEntry image = .ok u ↔
    ∃ entry, entrySection image = .ok entry ∧ entry.rawSize ≠ 0 ∧
      entryHasRawRoom entry image.entryRva ∧ entry.characteristics &&& scnMemExecute ≠ 0 := by
  unfold checkEntry
  rw [bind_eq_ok]
  simp only [failIf_bind_eq_ok, failIf_eq_ok, not_not, ne_eq]

theorem checkOverlay_eq_ok {image : PeImage} {fileSize : ℕ} {allow : Bool} {u : Unit} :
    checkOverlay image fileSize allow = .ok u ↔
      (image.directory directorySecurity).rva = 0 ∧
          (image.directory directorySecurity).size = 0 ∧ fileSize ≤ image.rawEnd ∨
        allow ∧ (image.directory directorySecurity).rva = image.rawEnd ∧
          image.rawEnd + (image.directory directorySecurity).size = fileSize := by
  unfold checkOverlay
  simp only
  split
  · rename_i hsigned
    rw [failIf_bind_eq_ok, failIf_eq_ok, not_not]
    constructor
    · rintro ⟨hallow, hlayout⟩
      exact .inr ⟨hallow, by omega, by omega⟩
    · rintro (⟨hrva, hsize, -⟩ | ⟨hallow, hrva, hsize⟩)
      · omega
      · exact ⟨hallow, by omega⟩
  · rw [failIf_eq_ok]
    constructor
    · intro hoverlay
      exact .inl ⟨by omega, by omega, by omega⟩
    · rintro (⟨-, -, hsize⟩ | ⟨-, hrva, hsize⟩)
      · omega
      · omega

theorem validatePatchable_eq_ok {image : PeImage} {fileSize : ℕ} {allow : Bool} {u : Unit} :
    validatePatchable image fileSize allow = .ok u ↔ Patchable image fileSize allow := by
  unfold validatePatchable
  simp only [bind_eq_ok, failIf_eq_ok, exists_and_left, exists_const, checkEntry_eq_ok,
    checkOverlay_eq_ok, forM_eq_ok fun _ _ => checkSectionName_eq_ok]
  constructor
  · rintro ⟨hmachine, hexecutable, hdll, hsubsystem, hnative, hnames, hentry, hoverlay, hspace,
      halignments⟩
    exact {
      machine := not_not.mp hmachine
      executable := hexecutable
      notDll := not_not.mp hdll
      subsystem := not_or.mp hsubsystem
      native := not_not.mp hnative
      names := hnames
      entry := hentry
      overlay := hoverlay
      headerSpace := by omega
      alignments := by omega }
  · intro h
    have hspace := h.headerSpace
    have halignments := h.alignments
    exact ⟨not_not.mpr h.machine, h.executable, not_not.mpr h.notDll, not_or.mpr h.subsystem,
      not_not.mpr h.native, h.names, h.entry, h.overlay, by omega, by omega⟩

end Noleax.Controller
