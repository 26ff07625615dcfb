import Noleax.Controller.PatchRun

/-!
# The patched image (`controller/windows/pe_patch.cpp`)

What the file that a patch writes holds: the bytes of the input outside of the patched
places, the new header, the jump at the entry and the content of the new section. Read
as headers it is the image of the input with one more section.
-/

namespace Noleax.Controller

open Lib

namespace PatchRun

variable {options : PePatchOptions} {input : Buffer} (run : PatchRun options input)
  (stub : Vector UInt8 staticStubSize) {i offset count width : ℕ}

/-! ### Bytes of the output -/

section Bytes

theorem headed_size : run.headed.size = run.newRawOffset := Buffer.putAll_size

theorem output_size : (run.output stub).size = run.newRawOffset + run.newRawSize := rfl

theorem output_below (hi : i < run.newRawOffset) :
    (run.output stub).byte i = run.headed.byte i := by
  unfold output
  rw [Buffer.put_outside (.inl hi), Buffer.resize_inside (by rwa [headed_size])]

/-- What no write touches is what it was. -/
theorem output_kept (hi : i < keptSize input) (h : ∀ w ∈ run.headerWrites, Buffer.Apart w i 1) :
    (run.output stub).byte i = input.byte i := by
  have hsize := run.keptSize_bounds.2.1
  have hraw := run.newRaw_bounds.1
  rw [run.output_below stub (by omega)]
  unfold headed
  rw [Buffer.putAll_outside h, Buffer.resize_inside hi, Buffer.resize_inside (by omega)]

/-- The writes into the headers and the entry do not overlap. -/
theorem headerWrites_apart :
    run.headerWrites.Pairwise fun v w => Buffer.Apart w v.1 v.2.length := by
  have hpatch := run.headersEnd_le_patch
  obtain ⟨hheader, hslot⟩ := run.newHeader_after
  unfold PeImage.headersEnd sectionHeaderSize at hpatch
  have hname : bootstrapSectionName.length = 8 := rfl
  have hoptional : optionalOf input = (imageOf input).peOffset + 24 := rfl
  unfold headerWrites Controller.headerWrites
  simp only [List.pairwise_cons, List.forall_mem_cons, List.not_mem_nil, false_imp_iff,
    implies_true, and_true, List.Pairwise.nil, littleEndian_length, int32Bytes_length,
    List.length_singleton, bootstrap, bootstrapSection, hname, directorySecurity, Buffer.Apart]
  omega

theorem output_written {w : ℕ × Bytes} (hw : w ∈ run.headerWrites) :
    (run.output stub).slice w.1 w.2.length = w.2 := by
  have hfit := run.headerWrites_fit w hw
  have hraw := run.newRaw_bounds.1
  have hheaded : run.headed.slice w.1 w.2.length = w.2 :=
    Buffer.slice_putAll hw run.headerWrites_apart
  refine Eq.trans (Buffer.slice_congr ?_) hheaded
  intro i hi
  exact run.output_below stub (by omega)

/-- The new section holds the content. -/
theorem output_content (h : offset + count ≤ contentSize) :
    (run.output stub).slice (run.newRawOffset + offset) count =
      (run.content stub).slice offset count := by
  apply Buffer.slice_congr
  intro i hi
  have hlength := run.toBytes_length stub
  unfold output
  rw [Nat.add_assoc, Buffer.put_inside (by omega), List.getD_eq_getElem _ _ (by omega)]
  unfold Buffer.toBytes
  rw [Buffer.slice_getElem, Nat.zero_add]

end Bytes

/-! ### Headers of the output -/

/-- What a patch writes into the headers and the entry. -/
structure NewHeaders (output : Buffer) : Prop where
  sectionCount : output.word 2 (peOffsetOf input + 6) = sectionCountOf input + 1
  sizeOfImage : output.word 4 (optionalOf input + 56) = run.sizeOfImage
  checksum : output.word 4 (optionalOf input + 64) = 0
  securityRva : output.word 4 (optionalOf input + 112 + directorySecurity * 8) = 0
  securitySize : output.word 4 (optionalOf input + 116 + directorySecurity * 8) = 0
  opcode : output.slice run.plan.patchRawOffset 1 = [0xE9]
  jump : output.slice (run.plan.patchRawOffset + 1) 4 = int32Bytes run.plan.jumpOffset
  bootstrap : sectionAt output (imageOf input).newHeaderOffset = run.bootstrap


section Headers

theorem newHeaders : run.NewHeaders (run.output stub) := by
  have hcount := run.parsable.sectionCount.2
  have hrva := run.sectionRva_bounds
  have hraw := run.newRaw_bounds
  have hwritten : ∀ w ∈ run.headerWrites, (run.output stub).slice w.1 w.2.length = w.2 :=
    fun w hw => run.output_written stub hw
  unfold headerWrites Controller.headerWrites at hwritten
  simp only [List.forall_mem_cons, littleEndian_length, int32Bytes_length, bootstrap,
    bootstrapSection] at hwritten
  obtain ⟨hsections, hsize, hchecksum, hsecurity, hsecurity', hopcode, hjump, hvs, hva, hrs, hro,
    hflags, hname, -⟩ := hwritten
  unfold maxSections at hcount
  have hmod : (sectionCountOf input + 1) % 2 ^ 16 = sectionCountOf input + 1 :=
    Nat.mod_eq_of_lt (by omega)
  have hzero : IsWord 4 0 := by decide
  exact {
    sectionCount := (Buffer.word_of_slice (Nat.mod_lt _ (by decide)) hsections).trans hmod
    sizeOfImage := Buffer.word_of_slice hrva.2.2.1 hsize
    checksum := Buffer.word_of_slice hzero hchecksum
    securityRva := Buffer.word_of_slice hzero hsecurity
    securitySize := Buffer.word_of_slice hzero hsecurity'
    opcode := hopcode
    jump := hjump
    bootstrap := by
      have hrva : IsWord 4 run.sectionRva := by
        show _ < 2 ^ 32
        omega
      have hoffset : IsWord 4 run.newRawOffset := hraw.2.1
      have hsize : IsWord 4 run.newRawSize := hraw.2.2.2
      unfold sectionAt bootstrap bootstrapSection
      rw [Buffer.word_of_slice (by decide) hvs, Buffer.word_of_slice hrva hva,
        Buffer.word_of_slice hsize hrs, Buffer.word_of_slice hoffset hro,
        Buffer.word_of_slice (by decide) hflags]
      exact congrArg (fun name => Section.mk name _ _ _ _ _) hname }

/-- A part of the old headers that no write touches. -/
theorem output_header (hend : offset + count ≤ (imageOf input).newHeaderOffset)
    (hcount : offset + count ≤ peOffsetOf input + 6 ∨ peOffsetOf input + 8 ≤ offset)
    (hsize : offset + count ≤ optionalOf input + 56 ∨ optionalOf input + 60 ≤ offset)
    (hchecksum : offset + count ≤ optionalOf input + 64 ∨ optionalOf input + 68 ≤ offset)
    (hsecurity : offset + count ≤ optionalOf input + 144 ∨ optionalOf input + 152 ≤ offset) :
    (run.output stub).slice offset count = input.slice offset count := by
  have hpatch := run.headersEnd_le_patch
  have hkept := run.keptSize_bounds.1
  obtain ⟨hheader, hslot⟩ := run.newHeader_after
  unfold PeImage.headersEnd sectionHeaderSize at hpatch hkept
  have hname : bootstrapSectionName.length = 8 := rfl
  have hpe : (imageOf input).peOffset = peOffsetOf input := rfl
  have hoptional : optionalOf input = peOffsetOf input + 24 := rfl
  apply Buffer.slice_congr
  intro i hi
  apply run.output_kept stub (by omega)
  unfold headerWrites Controller.headerWrites
  simp only [List.forall_mem_cons, List.not_mem_nil, false_imp_iff, implies_true, and_true,
    littleEndian_length, int32Bytes_length, List.length_singleton, bootstrap, bootstrapSection,
    hname, directorySecurity, Buffer.Apart]
  omega

theorem output_header_word (hend : offset + width ≤ (imageOf input).newHeaderOffset)
    (hcount : offset + width ≤ peOffsetOf input + 6 ∨ peOffsetOf input + 8 ≤ offset)
    (hsize : offset + width ≤ optionalOf input + 56 ∨ optionalOf input + 60 ≤ offset)
    (hchecksum : offset + width ≤ optionalOf input + 64 ∨ optionalOf input + 68 ≤ offset)
    (hsecurity : offset + width ≤ optionalOf input + 144 ∨ optionalOf input + 152 ≤ offset) :
    (run.output stub).word width offset = input.word width offset := by
  unfold Buffer.word
  rw [run.output_header stub hend hcount hsize hchecksum hsecurity]

include run in
/-- The places that the headers name, in front of the new header. -/
theorem header_order : 0x40 ≤ peOffsetOf input ∧ optionalOf input = peOffsetOf input + 24 ∧
    optionalOf input + 0xF0 ≤ (imageOf input).newHeaderOffset := by
  obtain ⟨hheader, hslot⟩ := run.newHeader_after
  exact ⟨run.parsable.peOffset, rfl, by omega⟩

theorem output_peOffset : peOffsetOf (run.output stub) = peOffsetOf input := by
  obtain ⟨hpe, hoptional, hend⟩ := run.header_order
  exact run.output_header_word stub (by omega) (by omega) (by omega) (by omega) (by omega)

theorem output_optional : optionalOf (run.output stub) = optionalOf input := by
  unfold optionalOf
  rw [output_peOffset]

theorem output_sectionCount : sectionCountOf (run.output stub) = sectionCountOf input + 1 := by
  unfold sectionCountOf
  rw [output_peOffset]
  exact (run.newHeaders stub).sectionCount

theorem output_sectionTable : sectionTableOf (run.output stub) = sectionTableOf input := by
  obtain ⟨hpe, hoptional, hend⟩ := run.header_order
  unfold sectionTableOf optionalSizeOf
  rw [output_optional, output_peOffset, run.output_header_word stub (by omega) (by omega)
    (by omega) (by omega) (by omega)]

theorem output_slot (index : ℕ) : slotOf (run.output stub) index = slotOf input index := by
  unfold slotOf
  rw [output_sectionTable]

/-- The sections of the input keep their headers. -/
theorem output_section {index : ℕ} (hindex : index < sectionCountOf input) :
    sectionAt (run.output stub) (slotOf input index) = sectionAt input (slotOf input index) := by
  obtain ⟨hpe, hoptional, -⟩ := run.header_order
  obtain ⟨hheader, -⟩ := run.newHeader_after
  have hslot : slotOf input 0 ≤ slotOf input index ∧
      slotOf input index + 40 ≤ (imageOf input).newHeaderOffset := by
    show sectionTableOf input + 0 * 40 ≤ sectionTableOf input + index * 40 ∧
      sectionTableOf input + index * 40 + 40 ≤ sectionTableOf input + sectionCountOf input * 40
    omega
  have hkept {count : ℕ} (offset : ℕ) (h : offset + count ≤ 40) :
      (run.output stub).slice (slotOf input index + offset) count =
        input.slice (slotOf input index + offset) count :=
    run.output_header stub (by omega) (by omega) (by omega) (by omega) (by omega)
  have hname : (run.output stub).slice (slotOf input index + 0) 8 = _ := hkept 0 (by decide)
  unfold sectionAt Buffer.word
  rw [hkept 8 (by decide), hkept 12 (by decide), hkept 16 (by decide), hkept 20 (by decide),
    hkept 36 (by decide)]
  rw [Nat.add_zero] at hname
  rw [hname]

/-- Only the entry of the certificate is cleared. -/
theorem output_directories : (List.range 16).map (directoryAt (run.output stub)) =
    ((List.range 16).map (directoryAt input)).set directorySecurity ⟨0, 0⟩ := by
  obtain ⟨hpe, hoptional, hend⟩ := run.header_order
  have hnew := run.newHeaders stub
  apply List.ext_getElem (by simp)
  intro index hindex _
  have hindex : index < 16 := by simpa using hindex
  rw [List.getElem_set, List.getElem_map, List.getElem_range, List.getElem_map, List.getElem_range]
  unfold directoryAt
  rw [output_optional]
  split
  · rename_i heq
    subst heq
    rw [hnew.securityRva, hnew.securitySize]
  · rename_i hne
    unfold directorySecurity at hne
    rw [run.output_header_word stub (by omega) (by omega) (by omega) (by omega) (by omega),
      run.output_header_word stub (by omega) (by omega) (by omega) (by omega) (by omega)]

/-- The headers of the output: one section more, no checksum and no certificate. -/
theorem imageOf_output : imageOf (run.output stub) = {
    imageOf input with
    numberOfSections := sectionCountOf input + 1
    sizeOfImage := run.sizeOfImage
    checksum := 0
    directories := (imageOf input).directories.set directorySecurity ⟨0, 0⟩
    sections := (imageOf input).sections ++ [run.bootstrap] } := by
  obtain ⟨hpe, hoptional, hend⟩ := run.header_order
  have hnew := run.newHeaders stub
  have hsections : (List.range (sectionCountOf input + 1)).map (fun index =>
      sectionAt (run.output stub) (slotOf (run.output stub) index)) =
        (imageOf input).sections ++ [run.bootstrap] := by
    rw [List.range_succ, List.map_append]
    congr 1
    · apply List.map_congr_left
      intro index hindex
      rw [output_slot, run.output_section stub (List.mem_range.mp hindex)]
    · rw [List.map_singleton, output_slot]
      exact congrArg (fun s => [s]) hnew.bootstrap
  have hmachine : (run.output stub).word 2 (peOffsetOf input + 4) = _ :=
    run.output_header_word stub (by omega) (by omega) (by omega) (by omega) (by omega)
  have hflags : (run.output stub).word 2 (peOffsetOf input + 22) = _ :=
    run.output_header_word stub (by omega) (by omega) (by omega) (by omega) (by omega)
  have hentry : (run.output stub).word 4 (optionalOf input + 16) = _ :=
    run.output_header_word stub (by omega) (by omega) (by omega) (by omega) (by omega)
  have halignment : (run.output stub).word 4 (optionalOf input + 32) = _ :=
    run.output_header_word stub (by omega) (by omega) (by omega) (by omega) (by omega)
  have hfile : (run.output stub).word 4 (optionalOf input + 36) = _ :=
    run.output_header_word stub (by omega) (by omega) (by omega) (by omega) (by omega)
  have hheaders : (run.output stub).word 4 (optionalOf input + 60) = _ :=
    run.output_header_word stub (by omega) (by omega) (by omega) (by omega) (by omega)
  have hsubsystem : (run.output stub).word 2 (optionalOf input + 68) = _ :=
    run.output_header_word stub (by omega) (by omega) (by omega) (by omega) (by omega)
  unfold imageOf
  rw [output_peOffset, output_optional, output_sectionCount, output_sectionTable, hsections,
    run.output_directories, hnew.sizeOfImage, hnew.checksum, hmachine, hflags, hentry, halignment,
    hfile, hheaders, hsubsystem]
  rfl

end Headers

end PatchRun

end Noleax.Controller
