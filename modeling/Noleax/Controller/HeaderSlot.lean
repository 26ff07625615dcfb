import Noleax.Controller.PatchSoundness

/-!
# The slot of the new section header (`controller/windows/pe_patch.cpp`)

The patcher looks for 40 bytes between the section table and the first raw data, inside
of the headers. It does not ask whether a data directory refers to them, and it leaves
the relocation and line-number fields of the new header as it finds them.
-/

namespace Noleax.Controller

open Lib

/-! ## What the slot is for -/

/-- The data directories that the headers have, of those that the parser reads. -/
def directoryCountOf (input : Buffer) : ℕ := min 16 (input.word 4 (optionalOf input + 108))

/-- A data directory refers to the byte `i` of the headers, where addresses are offsets. -/
def DirectoryRefers (input : Buffer) (i : ℕ) : Prop :=
  i < (imageOf input).sizeOfHeaders ∧ ∃ index < directoryCountOf input,
    Within i ((imageOf input).directory index).rva ((imageOf input).directory index).size

/-- No data directory refers to the slot. -/
def SlotFree (input : Buffer) : Prop :=
  ∀ i, Within i (imageOf input).newHeaderOffset sectionHeaderSize → ¬ DirectoryRefers input i

/-- Every field of the section header at `offset` has the value that is meant for it: the
section has neither relocations nor line numbers. -/
structure HeaderIntended (output : Buffer) (offset : ℕ) (s : Section) : Prop where
  fields : sectionAt output offset = s
  pointerToRelocations : output.word 4 (offset + 24) = 0
  pointerToLinenumbers : output.word 4 (offset + 28) = 0
  numberOfRelocations : output.word 2 (offset + 32) = 0
  numberOfLinenumbers : output.word 2 (offset + 34) = 0

/-- The section header that a patch of `input` is meant to add. -/
def intendedSection (input : Buffer) (result : PePatchResult) : Section :=
  bootstrapSection result.sectionRva (roundedUp (keptSize input) (imageOf input).fileAlignment)
    (roundedUp contentSize (imageOf input).fileAlignment)

/-! ## When the slot is free -/

/-- Every data directory is empty, or ends before the slot, or starts behind it. -/
def DirectoriesApart (input : Buffer) : Prop :=
  ∀ index < directoryCountOf input,
    ((imageOf input).directory index).size = 0 ∨
      ((imageOf input).directory index).rva + ((imageOf input).directory index).size ≤
        (imageOf input).newHeaderOffset ∨
      (imageOf input).headersEnd ≤ ((imageOf input).directory index).rva

instance (input : Buffer) : Decidable (DirectoriesApart input) :=
  inferInstanceAs (Decidable (∀ index < directoryCountOf input, _))

/-- The twelve bytes of the slot that are not written are zero. -/
def SlotZero (input : Buffer) : Prop :=
  ∀ i, Within i ((imageOf input).newHeaderOffset + 24) 12 → input.byte i = 0

namespace PatchRun

variable {options : PePatchOptions} {input : Buffer} (run : PatchRun options input)
  (stub : Vector UInt8 staticStubSize)

include run in
theorem slotFree_iff : SlotFree input ↔ DirectoriesApart input := by
  have hheaders := run.patchable.headerSpace.2
  have hend : (imageOf input).headersEnd =
    (imageOf input).newHeaderOffset + sectionHeaderSize := rfl
  unfold sectionHeaderSize at hend
  constructor
  · intro hfree index hindex
    by_contra hoverlap
    -- the later of the two starts is in both ranges
    refine hfree (max (imageOf input).newHeaderOffset ((imageOf input).directory index).rva) ?_
      ⟨by omega, index, hindex, ?_⟩
    · unfold Within sectionHeaderSize
      omega
    · unfold Within
      omega
  · intro hapart i hslot ⟨_, index, hindex, hrefers⟩
    have hindex := hapart index hindex
    unfold Within at hslot hrefers
    unfold sectionHeaderSize at hslot
    omega

/-- The bytes between the raw offset and the flags of the new header stay. -/
theorem output_slotRest {i : ℕ} (hi : Within i ((imageOf input).newHeaderOffset + 24) 12) :
    (run.output stub).byte i = input.byte i := by
  have hkept := run.keptSize_bounds.1
  have hpatch := run.headersEnd_le_patch
  obtain ⟨hpe, hoptional, hend⟩ := run.header_order
  have hpeOffset : (imageOf input).peOffset = peOffsetOf input := rfl
  have hname : bootstrapSectionName.length = 8 := rfl
  unfold Within PeImage.headersEnd sectionHeaderSize at *
  apply run.output_kept stub (by omega)
  unfold headerWrites Controller.headerWrites
  simp only [List.forall_mem_cons, List.not_mem_nil, false_imp_iff, implies_true, and_true,
    littleEndian_length, int32Bytes_length, List.length_singleton, PatchRun.bootstrap,
    bootstrapSection, hname, directorySecurity, Buffer.Apart]
  omega

theorem bootstrap_eq : run.bootstrap = intendedSection input run.result := by
  unfold bootstrap intendedSection
  rw [run.newRaw_eq.1, run.newRaw_eq.2]
  rfl

theorem headerIntended_iff :
    HeaderIntended (run.output stub) (imageOf input).newHeaderOffset
      (intendedSection input run.result) ↔ SlotZero input := by
  constructor
  · intro h i hi
    rw [← run.output_slotRest stub hi]
    obtain ⟨k, rfl⟩ := Nat.exists_eq_add_of_le hi.1
    have hk : k < 12 := by
      unfold Within at hi
      omega
    have hfield (width offset : ℕ) (hlow : offset ≤ 24 + k) (hhigh : 24 + k < offset + width)
        (hzero : (run.output stub).word width ((imageOf input).newHeaderOffset + offset) = 0) :
        (run.output stub).byte ((imageOf input).newHeaderOffset + 24 + k) = 0 := by
      have hbyte := Buffer.byte_zero hzero (i := 24 + k - offset) (by omega)
      rwa [Nat.add_assoc, Nat.add_sub_cancel' hlow, ← Nat.add_assoc] at hbyte
    -- the byte belongs to one of the four fields
    by_cases hrelocations : k < 4
    · exact hfield 4 24 (by omega) (by omega) h.pointerToRelocations
    by_cases hlines : k < 8
    · exact hfield 4 28 (by omega) (by omega) h.pointerToLinenumbers
    by_cases hcount : k < 10
    · exact hfield 2 32 (by omega) (by omega) h.numberOfRelocations
    · exact hfield 2 34 (by omega) (by omega) h.numberOfLinenumbers
  · intro hzero
    have hbyte (k : ℕ) (hlow : 24 ≤ k) (hhigh : k < 36) :
        (run.output stub).byte ((imageOf input).newHeaderOffset + k) = 0 := by
      have hwithin : Within ((imageOf input).newHeaderOffset + k)
          ((imageOf input).newHeaderOffset + 24) 12 := by
        unfold Within
        omega
      rw [run.output_slotRest stub hwithin]
      exact hzero _ hwithin
    have hword (width offset : ℕ) (hlow : 24 ≤ offset) (hhigh : offset + width ≤ 36) :
        (run.output stub).word width ((imageOf input).newHeaderOffset + offset) = 0 := by
      apply Buffer.word_zero
      intro i hi
      rw [Nat.add_assoc]
      exact hbyte (offset + i) (by omega) (by omega)
    exact {
      fields := by
        rw [(run.newHeaders stub).bootstrap, run.bootstrap_eq]
      pointerToRelocations := hword 4 24 (by decide) (by decide)
      pointerToLinenumbers := hword 4 28 (by decide) (by decide)
      numberOfRelocations := hword 2 32 (by decide) (by decide)
      numberOfLinenumbers := hword 2 34 (by decide) (by decide) }

end PatchRun

/-- Of the images that the patcher accepts, exactly those whose directories leave the slot
alone and whose bytes for the unwritten fields are zero get a section header that uses free
space and says what it should. -/
theorem new_header_intended_iff (stub : Vector UInt8 staticStubSize) (options : PePatchOptions)
    (input output : Buffer) (result : PePatchResult)
    (h : patchPeImage stub options input = .ok (result, output)) :
    (SlotFree input ∧ HeaderIntended output (imageOf input).newHeaderOffset
      (intendedSection input result)) ↔ DirectoriesApart input ∧ SlotZero input := by
  obtain ⟨run, rfl, rfl, -⟩ := exists_run h
  rw [run.slotFree_iff, run.headerIntended_iff stub]

set_option maxRecDepth 20000 in
/-- In an image with empty header space and without directories there is nothing to meet. -/
theorem new_header_intended_iff_empty : ∃ result output,
    patchPeImage sampleStub (sampleOptions true) (sampleImage 1) = .ok (result, output) ∧
      SlotFree (sampleImage 1) ∧ HeaderIntended output (imageOf (sampleImage 1)).newHeaderOffset
        (intendedSection (sampleImage 1) result) := by
  have hrun : (patchPeImage sampleStub (sampleOptions true) (sampleImage 1)).map
      (·.1.outputSize) = .ok 0x1E00 := by decide +kernel
  obtain ⟨⟨result, output⟩, haccepted, -⟩ := exists_ok_of_map hrun
  have hapart : DirectoriesApart (sampleImage 1) := by decide +kernel
  have hbytes : ∀ k < 12, (sampleImage 1).byte
      ((imageOf (sampleImage 1)).newHeaderOffset + 24 + k) = 0 := by decide +kernel
  have hzero : SlotZero (sampleImage 1) := by
    intro i hi
    obtain ⟨k, rfl⟩ := Nat.exists_eq_add_of_le hi.1
    exact hbytes k (Nat.lt_of_add_lt_add_left hi.2)
  have hintended := (new_header_intended_iff _ _ _ _ _ haccepted).mpr ⟨hapart, hzero⟩
  exact ⟨result, output, haccepted, hintended.1, hintended.2⟩

/-- An image whose header space holds a one where the new header has its relocations. -/
def slackImage : Buffer := (sampleImage 1).put 0x188 [1]

set_option maxRecDepth 20000 in
/-- The new section of that image points to relocations at the offset one. -/
theorem new_header_keeps_slack : ∃ result output,
    patchPeImage sampleStub (sampleOptions true) slackImage = .ok (result, output) ∧
      output.word 4 ((imageOf slackImage).newHeaderOffset + 24) = 1 ∧
      ¬ (SlotFree slackImage ∧ HeaderIntended output (imageOf slackImage).newHeaderOffset
        (intendedSection slackImage result)) := by
  have hrun : (patchPeImage sampleStub (sampleOptions true) slackImage).map
      (fun patched => patched.2.word 4 ((imageOf slackImage).newHeaderOffset + 24)) = .ok 1 := by
    decide +kernel
  obtain ⟨⟨result, output⟩, haccepted, hword⟩ := exists_ok_of_map hrun
  refine ⟨result, output, haccepted, hword, ?_⟩
  intro ⟨_, hintended⟩
  exact absurd (hword.symm.trans hintended.pointerToRelocations) (by decide)

end Noleax.Controller
