import Noleax.Controller.PatchedImage

/-!
# Soundness of the static patch (`controller/windows/pe_patch.cpp`)

A patched file is an image again, is recognised, differs from the input in the patched
places only, carries what restores the entry, puts its section apart from the others and
is refused as an input. All of it rests on the parser's own limits on a file: 96 sections
and 512 MiB.
-/

namespace Noleax.Controller

open Lib

/-! ## What a sound patch is -/

/-- `i` is one of the `count` offsets from `start` on. -/
def Within (i start count : ℕ) : Prop := start ≤ i ∧ i < start + count

/-- Ranges of `n` from `a` and of `m` from `b` have nothing in common. -/
def RangesApart (a n b m : ℕ) : Prop := ∀ i, ¬ (Within i a n ∧ Within i b m)

/-- The file offset of an address in the section of the entry. -/
def entryOffset (entry : Section) (rva : ℕ) : ℕ := entry.rawOffset + (rva - entry.virtualAddress)

/-- The offsets of the input that a patch may change or drop: section count, SizeOfImage,
CheckSum, the security directory, the new section header, the entry, the certificate. -/
def PatchedAt (input : Buffer) (result : PePatchResult) (i : ℕ) : Prop :=
  let image := imageOf input
  let certificate := image.directory directorySecurity
  Within i (image.peOffset + 6) 2 ∨
  Within i (image.peOffset + 24 + 56) 4 ∨
  Within i (image.peOffset + 24 + 64) 4 ∨
  Within i (image.peOffset + 24 + 112 + directorySecurity * 8) 8 ∨
  Within i image.newHeaderOffset sectionHeaderSize ∨
  Within i certificate.rva certificate.size ∨
  ∃ entry, entrySection image = .ok entry ∧
    Within i (entryOffset entry result.patchRva) entryPatchSize

/-- The bytes saved in the section `new`, put back at the address saved there, make the
section of the entry what it was. -/
def Restores (input output : Buffer) (result : PePatchResult) (new entry : Section) : Prop :=
  let saved := output.slice (new.rawOffset + originalBytesOffset) entryPatchSize
  let patchRva := output.word 8 (new.rawOffset + patchRvaOffset)
  patchRva = result.patchRva ∧
    ∀ i, Within i entry.rawOffset entry.rawSize →
      (output.put (entryOffset entry patchRva) saved).byte i = input.byte i

/-- What a patched file offers to its readers. -/
structure SoundPatch (input : Buffer) (result : PePatchResult) (output : Buffer) : Prop where
  /-- `parse_pe` accepts the output. -/
  parsed : ∃ image, parsePe output = .ok image
  /-- `read_static_patch_info` returns where the patch is. -/
  recognised : readStaticPatchInfo output = .ok (some {
    entryRva := (imageOf input).entryRva
    sectionRva := result.sectionRva
    paramsRva := result.sectionRva + paramsOffset })
  /-- What is not patched is where it was. -/
  unchanged : ∀ i < input.size, ¬ PatchedAt input result i →
    i < output.size ∧ output.byte i = input.byte i
  /-- The sections of the input are followed by one whose ranges are apart from theirs, and
  whose saved bytes, put back at its saved address, restore the code of the entry. -/
  extended : ∃ image new entry, parsePe output = .ok image ∧
    image.sections = (imageOf input).sections ++ [new] ∧
    new.virtualAddress = result.sectionRva ∧
    (∀ s ∈ (imageOf input).sections,
      RangesApart new.virtualAddress (max new.virtualSize new.rawSize)
        s.virtualAddress (max s.virtualSize s.rawSize) ∧
      RangesApart new.rawOffset new.rawSize s.rawOffset s.rawSize) ∧
    entrySection image = .ok entry ∧ Restores input output result new entry
  /-- A patched file is not patched again. -/
  final : ∀ stub options, ∃ code message,
    patchPeImage stub options output = .error (.rejected code message)

/-! ## Signed words -/

theorem int32Of_of_range {value : ℤ} (h : ¬ (value < -2 ^ 31 ∨ 2 ^ 31 - 1 < value)) :
    int32Of (value % 2 ^ 32).toNat = value := by
  unfold int32Of
  split <;> omega

namespace PatchRun

variable {options : PePatchOptions} {input : Buffer} (run : PatchRun options input)
  (stub : Vector UInt8 staticStubSize)

/-! ## The parser's limits -/

/-- The parser accepts the output when one more section is still parsable. -/
theorem output_parsable :
    Parsable (run.output stub) ↔ sectionCountOf input < maxSections := by
  constructor
  · intro h
    have hcount := h.sectionCount.2
    rw [output_sectionCount] at hcount
    exact hcount
  · intro hcount
    obtain ⟨hpe, hoptional, hend⟩ := run.header_order
    obtain ⟨hkept, -, hkeptRaw⟩ := run.keptSize_bounds
    have hraw := run.newRaw_bounds
    have hsize := run.output_size stub
    have hold := run.parsable
    have hword {offset width : ℕ} := @run.output_header_word _ _ stub offset width
    have hoptionalSize : optionalSizeOf (run.output stub) = optionalSizeOf input := by
      unfold optionalSizeOf
      rw [output_peOffset, hword (by omega) (by omega) (by omega) (by omega) (by omega)]
    have hslots : slotOf input (sectionCountOf input) = (imageOf input).newHeaderOffset := rfl
    unfold PeImage.headersEnd at hkept
    exact {
      mz := by
        rw [hword (by omega) (by omega) (by omega) (by omega) (by omega)]
        exact hold.mz
      peOffset := by
        rw [output_peOffset]
        exact hpe
      signature := by
        rw [output_peOffset, hword (by omega) (by omega) (by omega) (by omega) (by omega)]
        exact hold.signature
      sectionCount := by
        rw [output_sectionCount]
        exact ⟨Nat.succ_ne_zero _, hcount⟩
      optionalSize := by
        rw [hoptionalSize]
        exact hold.optionalSize
      optional := by
        have htable := run.table_eq
        have hslot : sectionTableOf input ≤ slotOf input (sectionCountOf input) :=
          Nat.le_add_right _ _
        rw [output_optional, hoptionalSize]
        omega
      magic := by
        rw [output_optional, hword (by omega) (by omega) (by omega) (by omega) (by omega)]
        exact hold.magic
      directoryCount := by
        rw [output_optional, hword (by omega) (by omega) (by omega) (by omega) (by omega)]
        exact hold.directoryCount
      slots := by
        intro index hindex
        rw [output_sectionCount] at hindex
        rw [output_slot]
        have hle : slotOf input index ≤ slotOf input (sectionCountOf input) :=
          Nat.add_le_add_left (Nat.mul_le_mul_right _ (by omega)) _
        omega
      sections := by
        intro index hindex hne
        rw [output_sectionCount] at hindex
        rw [output_slot] at hne ⊢
        rcases Nat.lt_succ_iff_lt_or_eq.mp hindex with hlt | rfl
        · rw [run.output_section stub hlt] at hne ⊢
          have hmem : sectionAt input (slotOf input index) ∈ (imageOf input).sections :=
            List.mem_map.mpr ⟨index, List.mem_range.mpr hlt, rfl⟩
          have hend := hkeptRaw _ hmem hne
          unfold Section.rawEnd at hend
          omega
        · rw [hslots, (run.newHeaders stub).bootstrap]
          exact le_refl _ }

/-- The sections of the output, when the parser accepts it. -/
theorem output_parsed (hcount : sectionCountOf input < maxSections) :
    parsePe (run.output stub) = .ok (imageOf (run.output stub)) :=
  parsePe_eq_ok.mpr ⟨(run.output_parsable stub).mpr hcount, rfl⟩

theorem output_sections :
    (imageOf (run.output stub)).sections = (imageOf input).sections ++ [run.bootstrap] := by
  rw [imageOf_output]

/-- The entry stays in its section. -/
theorem output_entrySection : entrySection (imageOf (run.output stub)) = .ok run.entry := by
  have hfound := entrySection_eq_ok.mp run.entry_ok
  rw [entrySection_eq_ok, output_sections, List.find?_append, imageOf_output]
  show ((imageOf input).sections.find? (·.Holds (imageOf input).entryRva)).or _ = _
  rw [hfound]
  rfl

/-! ## The entry -/

theorem entryRaw_room : run.entry.rawOffset ≤ entryRawOffset (imageOf input) run.entry ∧
    entryRawOffset (imageOf input) run.entry + 9 ≤ run.entry.rawEnd ∧
    run.entry.rawEnd ≤ keptSize input := by
  obtain ⟨hmem, hne, hva, hroom⟩ := run.entry_room
  have hkept := run.keptSize_bounds.2.2 _ hmem hne
  unfold entryRawOffset Section.rawEnd at *
  omega

/-- In the raw data of the entry section only the jump is new. -/
theorem output_code {i : ℕ} (hi : Within i run.entry.rawOffset run.entry.rawSize)
    (hpatch : ¬ Within i run.plan.patchRawOffset entryPatchSize) :
    (run.output stub).byte i = input.byte i := by
  obtain ⟨hmem, hne, -, -⟩ := run.entry_room
  have hkept := run.keptSize_bounds.2.2 _ hmem hne
  have hfirst : (imageOf input).firstRaw input.size ≤ run.entry.rawOffset := firstRaw_le hmem hne
  have hspace := run.patchable.headerSpace.1
  obtain ⟨hpe, hoptional, hend⟩ := run.header_order
  have hpeOffset : (imageOf input).peOffset = peOffsetOf input := rfl
  have hname : bootstrapSectionName.length = 8 := rfl
  unfold Within Section.rawEnd PeImage.headersEnd sectionHeaderSize entryPatchSize at *
  apply run.output_kept stub (by omega)
  unfold headerWrites Controller.headerWrites
  simp only [List.forall_mem_cons, List.not_mem_nil, false_imp_iff, implies_true, and_true,
    littleEndian_length, int32Bytes_length, List.length_singleton, PatchRun.bootstrap,
    bootstrapSection, hname, directorySecurity, Buffer.Apart]
  omega

/-- The probe of the entry finds in the output what it found in the input. -/
theorem output_patchOffset :
    patchOffsetOf (run.output stub) (entryRawOffset (imageOf input) run.entry) =
      patchOffsetOf input (entryRawOffset (imageOf input) run.entry) := by
  obtain ⟨-, hplace, hend⟩ := run.patch_place
  obtain ⟨hstart, hroom, -⟩ := run.entryRaw_room
  by_cases hendbr : input.word 4 (entryRawOffset (imageOf input) run.entry) = endbr64
  · -- the jump is written behind the first instruction
    have hoffset : patchOffsetOf input (entryRawOffset (imageOf input) run.entry) = 4 :=
      if_pos hendbr
    have hword : (run.output stub).word 4 (entryRawOffset (imageOf input) run.entry) = endbr64 := by
      rw [← hendbr]
      apply Buffer.word_congr
      intro i hi
      apply run.output_code
      · unfold Within Section.rawEnd at *
        omega
      · unfold Within
        omega
    rw [hoffset]
    exact if_pos hword
  · -- the jump is written over the first instruction
    have hoffset : patchOffsetOf input (entryRawOffset (imageOf input) run.entry) = 0 :=
      if_neg hendbr
    have hopcode := (run.newHeaders stub).opcode
    rw [hplace, hoffset, Nat.add_zero] at hopcode
    rw [hoffset]
    refine if_neg fun hword => ?_
    have hlow : (run.output stub).word (3 + 1) (entryRawOffset (imageOf input) run.entry) % 256 =
        _ := Buffer.word_mod
    rw [hword] at hlow
    rw [Buffer.slice_succ, List.cons.injEq] at hopcode
    rw [hopcode.1] at hlow
    exact absurd hlow (by decide)

/-! ## Recognition -/

theorem bootstrap_room : (imageOf input).headersEnd ≤ run.newRawOffset ∧
    run.newRawOffset + contentSize ≤ (run.output stub).size := by
  have hraw := run.newRaw_bounds
  have hkept := run.keptSize_bounds
  have hsize := run.output_size stub
  omega

theorem agentName_length : run.agentName.length < 64 := validateAgentName_length run.agentName_ok

/-- A field of the content is in the output. -/
theorem output_field {w : ℕ × Bytes}
    (hw : w ∈ contentFields run.sectionRva (imageOf input).entryRva run.plan.patchRva
      run.plan.originalBytes run.agentName) :
    (run.output stub).slice (run.newRawOffset + w.1) w.2.length = w.2 := by
  have hfit : w.1 + w.2.length ≤ contentSize :=
    contentWrites_fit run.originalBytes_length run.agentName_length w
      (List.mem_append_right (if options.standalone then _ else _) hw)
  rw [run.output_content stub hfit]
  exact contentOf_field run.originalBytes_length run.agentName_length hw

theorem output_marker : (run.output stub).slice (run.newRawOffset + markerOffset) marker.length =
    marker :=
  run.output_field stub (w := (markerOffset, marker)) (.tail _ (.tail _ (.head _)))

theorem output_saved : (run.output stub).slice (run.newRawOffset + originalBytesOffset)
    entryPatchSize = run.plan.originalBytes :=
  run.output_field stub (w := (originalBytesOffset, run.plan.originalBytes))
    (by simp [contentFields])

theorem output_patchRva :
    (run.output stub).word 8 (run.newRawOffset + patchRvaOffset) = run.plan.patchRva := by
  have hfield := run.output_field stub (w := (patchRvaOffset, littleEndian 8 run.plan.patchRva))
    (by simp [contentFields])
  rw [littleEndian_length] at hfield
  refine Buffer.word_of_slice ?_ hfield
  have hmod : run.plan.patchRva < 2 ^ 32 := Nat.mod_lt _ (by decide)
  exact Nat.lt_trans hmod (by decide)

/-- No section of the input bears the name of the new one. -/
theorem find_bootstrap : (imageOf (run.output stub)).sections.find?
    (·.nameView = bootstrapSectionName) = some run.bootstrap := by
  rw [output_sections, List.find?_append]
  have hnone : (imageOf input).sections.find? (·.nameView = bootstrapSectionName) = none := by
    rw [List.find?_eq_none]
    intro s hs
    simpa using (run.patchable.names s hs).2
  rw [hnone]
  rfl

/-- The jump leads to the new section. -/
theorem jump_target : ((imageOf input).entryRva : ℤ) +
    patchOffsetOf input (entryRawOffset (imageOf input) run.entry) + entryPatchSize +
      run.plan.jumpOffset = run.sectionRva := by
  have hplace := run.patch_place.1
  have hjump : run.plan.jumpOffset = run.sectionRva - run.plan.patchRva - entryPatchSize := rfl
  rw [hjump, hplace]
  push_cast
  ring

theorem output_jump :
    int32Of ((run.output stub).word 4 (run.plan.patchRawOffset + 1)) = run.plan.jumpOffset := by
  have hword : IsWord 4 (run.plan.jumpOffset % 2 ^ 32).toNat := by
    show _ < 2 ^ 32
    omega
  rw [Buffer.word_of_slice hword (run.newHeaders stub).jump]
  exact int32Of_of_range run.inRange

/-- Where the patch is. -/
def info : StaticPatchInfo where
  entryRva := (imageOf input).entryRva
  sectionRva := run.sectionRva
  paramsRva := run.sectionRva + paramsOffset

/-- The section, the marker, the entry and its jump are as the recogniser wants them. -/
theorem output_patchInfo :
    patchInfoAt (run.output stub) (imageOf (run.output stub)) run.bootstrap =
      .ok (some run.info) := by
  have hraw := run.newRaw_bounds
  obtain ⟨-, hsize⟩ := run.bootstrap_room stub
  obtain ⟨hstart, hroom, hkept⟩ := run.entryRaw_room
  obtain ⟨-, hva, hinside⟩ := run.entry_room.2
  obtain ⟨-, hplace, hend⟩ := run.patch_place
  have hrva := run.sectionRva_bounds
  have hoffset := patchOffsetOf_le input (entryRawOffset (imageOf input) run.entry)
  have hentry : (imageOf (run.output stub)).entryRva = (imageOf input).entryRva := by
    rw [imageOf_output]
  have hentryRaw : entryRawOffset (imageOf (run.output stub)) run.entry =
      entryRawOffset (imageOf input) run.entry := by
    unfold entryRawOffset
    rw [hentry]
  have hsame := run.output_patchOffset stub
  unfold patchOffsetOf at hsame
  unfold entryPatchSize at hend
  have hcontent : contentSize = 0x890 := rfl
  have hmarker : fetch (run.output stub) (run.bootstrap.rawOffset + markerOffset) marker.length =
      .ok marker :=
    fetch_eq_ok.mpr ⟨by
      show run.newRawOffset + 0x620 + 10 ≤ _
      omega, run.output_marker stub⟩
  have hprobe : fetchWord 4 (run.output stub) (entryRawOffset (imageOf input) run.entry) = .ok _ :=
    fetchWord_eq_ok.mpr ⟨by omega, rfl⟩
  have hopcode : fetch (run.output stub) run.plan.patchRawOffset 1 = .ok [0xE9] :=
    fetch_eq_ok.mpr ⟨by omega, (run.newHeaders stub).opcode⟩
  have hjump : fetchWord 4 (run.output stub) (run.plan.patchRawOffset + 1) = .ok _ :=
    fetchWord_eq_ok.mpr ⟨by omega, rfl⟩
  have hentryRoom : entryHasRawRoom run.entry (imageOf input).entryRva := by
    unfold entryHasRawRoom entryPatchSize
    omega
  have hparams : (run.sectionRva + paramsOffset) % 2 ^ 32 = run.sectionRva + paramsOffset := by
    unfold paramsOffset
    exact Nat.mod_eq_of_lt (by omega)
  have htarget := run.jump_target
  have hdistance := run.output_jump stub
  unfold patchOffsetOf at htarget hplace
  rw [hplace] at hopcode hjump hdistance
  have hrawSize : ¬ run.bootstrap.rawSize < contentSize := not_lt.mpr hraw.2.2.1
  unfold patchInfoAt
  rw [if_neg hrawSize, hmarker, ok_bind, if_neg (fun h => h rfl),
    output_entrySection, ok_bind, hentry, if_neg (not_not.mpr hentryRoom)]
  simp only [hentryRaw, hprobe, ok_bind, hsame, hopcode, ne_eq, not_true, if_false, hjump,
    hdistance]
  rw [htarget, if_neg (fun h => h rfl)]
  show Except.ok (some (StaticPatchInfo.mk _ _ ((run.sectionRva + paramsOffset) % 2 ^ 32))) = _
  rw [hparams]
  rfl

theorem output_recognised (hcount : sectionCountOf input < maxSections)
    (hsize : (run.output stub).size ≤ maxImageSize) :
    readStaticPatchInfo (run.output stub) = .ok (some run.info) := by
  have hfile : readFile (run.output stub) "the target image" = .ok (run.output stub) :=
    readFile_eq_ok.mpr ⟨hsize, rfl⟩
  have hfound : findPatchInfo (run.output stub) = .ok (some run.info) := by
    unfold findPatchInfo
    rw [hfile, ok_bind, run.output_parsed stub hcount, ok_bind, run.find_bootstrap]
    exact run.output_patchInfo stub
  unfold readStaticPatchInfo
  rw [hfound]

/-! ## What stays -/

/-- An offset that is not patched is kept, and no write touches it. -/
theorem output_unchanged {i : ℕ} (hi : i < input.size) (h : ¬ PatchedAt input run.result i) :
    i < (run.output stub).size ∧ (run.output stub).byte i = input.byte i := by
  obtain ⟨hcount, hsize, hchecksum, hsecurity, hslot, hcertificate, hentry⟩ :
      _ ∧ _ ∧ _ ∧ _ ∧ _ ∧ _ ∧ _ := by
    simpa only [PatchedAt, not_or] using h
  have hkept : i < keptSize input := by
    unfold keptSize
    split
    · rename_i hsigned
      rcases run.patchable.overlay with ⟨hrva, -, -⟩ | ⟨-, hrva, hend⟩
      · exact absurd hrva hsigned
      · unfold Within at hcertificate
        omega
    · exact hi
  have hpatch : ¬ Within i run.plan.patchRawOffset entryPatchSize := by
    intro hwithin
    refine hentry ⟨run.entry, run.entry_ok, ?_⟩
    have hva := run.entry_room.2.2.1
    obtain ⟨hrva, hplace, -⟩ := run.patch_place
    have hoffset : entryOffset run.entry run.result.patchRva = run.plan.patchRawOffset := by
      show run.entry.rawOffset + (run.plan.patchRva - run.entry.virtualAddress) = _
      unfold entryRawOffset at *
      omega
    rwa [hoffset]
  have hraw := run.newRaw_bounds.1
  have hname : bootstrapSectionName.length = 8 := rfl
  refine ⟨lt_of_lt_of_le hkept (le_trans hraw (Nat.le_add_right _ _)), ?_⟩
  apply run.output_kept stub hkept
  unfold Within sectionHeaderSize entryPatchSize directorySecurity at *
  unfold headerWrites Controller.headerWrites
  simp only [List.forall_mem_cons, List.not_mem_nil, false_imp_iff, implies_true, and_true,
    littleEndian_length, int32Bytes_length, List.length_singleton, PatchRun.bootstrap,
    bootstrapSection, hname, directorySecurity, Buffer.Apart]
  omega

/-- The bytes saved in the new section restore the entry. -/
theorem output_restores :
    Restores input (run.output stub) run.result run.bootstrap run.entry := by
  have hva := run.entry_room.2.2.1
  obtain ⟨hrva, hplace, -⟩ := run.patch_place
  have hoffset : entryOffset run.entry run.plan.patchRva = run.plan.patchRawOffset := by
    unfold entryOffset entryRawOffset at *
    omega
  have hpatchRva : (run.output stub).word 8 (run.bootstrap.rawOffset + patchRvaOffset) =
      run.plan.patchRva := run.output_patchRva stub
  have hsaved : (run.output stub).slice (run.bootstrap.rawOffset + originalBytesOffset)
      entryPatchSize = run.plan.originalBytes := run.output_saved stub
  refine ⟨hpatchRva, ?_⟩
  intro i hi
  rw [hpatchRva, hsaved, hoffset]
  have hlength := run.originalBytes_length
  by_cases hpatch : Within i run.plan.patchRawOffset entryPatchSize
  · obtain ⟨k, rfl⟩ := Nat.exists_eq_add_of_le hpatch.1
    have hk : k < run.plan.originalBytes.length := by
      unfold Within entryPatchSize at hpatch
      omega
    rw [Buffer.put_inside hk, List.getD_eq_getElem _ _ hk]
    exact Buffer.slice_getElem hk
  · unfold Within entryPatchSize at hpatch
    rw [Buffer.put_outside (by omega)]
    exact run.output_code stub hi (by
      unfold Within entryPatchSize
      exact hpatch)

/-- The new section lies behind the others, in memory and in the file. -/
theorem bootstrap_apart {s : Section} (hs : s ∈ (imageOf input).sections) :
    RangesApart run.bootstrap.virtualAddress (max run.bootstrap.virtualSize run.bootstrap.rawSize)
      s.virtualAddress (max s.virtualSize s.rawSize) ∧
    RangesApart run.bootstrap.rawOffset run.bootstrap.rawSize s.rawOffset s.rawSize := by
  constructor
  · intro i ⟨hnew, hold⟩
    have hend : s.virtualEnd ≤ run.bootstrap.virtualAddress := run.sectionRva_bounds.2.2.2 s hs
    unfold Within at hnew hold
    unfold Section.virtualEnd at hend
    omega
  · intro i ⟨hnew, hold⟩
    have hraw : keptSize input ≤ run.bootstrap.rawOffset := run.newRaw_bounds.1
    unfold Within at hnew hold
    have hne : s.rawSize ≠ 0 := by omega
    have hend := run.keptSize_bounds.2.2 s hs hne
    unfold Section.rawEnd at hend
    omega

/-- The section of a patch is what the patcher refuses. -/
theorem output_refused (stub' : Vector UInt8 staticStubSize) (options' : PePatchOptions) :
    ∃ code message, patchPeImage stub' options' (run.output stub) =
      .error (.rejected code message) := by
  rcases patchPeImage_cases stub' options' (run.output stub) with ⟨e, he, hrejection⟩ | ⟨again, -⟩
  · cases e with
    | rejected code message => exact ⟨code, message, he⟩
    | outOfBounds => exact absurd rfl hrejection
  · have hmem : run.bootstrap ∈ (imageOf (run.output stub)).sections := by
      rw [output_sections]
      exact List.mem_append_right _ List.mem_cons_self
    exact absurd rfl (again.patchable.names _ hmem).2

theorem output_sound (hcount : sectionCountOf input < maxSections)
    (hsize : (run.output stub).size ≤ maxImageSize) :
    SoundPatch input run.result (run.output stub) where
  parsed := ⟨_, run.output_parsed stub hcount⟩
  recognised := run.output_recognised stub hcount hsize
  unchanged := fun _ hi h => run.output_unchanged stub hi h
  extended := ⟨_, run.bootstrap, run.entry, run.output_parsed stub hcount, run.output_sections stub,
    rfl, fun _ hs => run.bootstrap_apart hs, run.output_entrySection stub, run.output_restores stub⟩
  final := run.output_refused stub

/-- The check of the output reads inside of it. -/
theorem verify_rejects :
    Rejects (verifyPatchedImage (run.output stub) run.result run.plan) := by
  have hraw := run.newRaw_bounds
  obtain ⟨-, hsize⟩ := run.bootstrap_room stub
  obtain ⟨-, -, hkept⟩ := run.entryRaw_room
  have hend := run.patch_place.2.2
  unfold entryPatchSize at hend
  have hoffset : run.bootstrap.rawOffset = run.newRawOffset := rfl
  have hmarkerLength : marker.length = 10 := rfl
  have hmarker : fetch (run.output stub) (run.bootstrap.rawOffset + markerOffset) marker.length =
      .ok _ :=
    fetch_eq_ok.mpr ⟨by unfold markerOffset contentSize at *; omega, rfl⟩
  have hsaved : fetch (run.output stub) (run.bootstrap.rawOffset + originalBytesOffset)
      entryPatchSize = .ok _ :=
    fetch_eq_ok.mpr ⟨by unfold originalBytesOffset entryPatchSize contentSize at *; omega, rfl⟩
  have hopcode : fetch (run.output stub) run.plan.patchRawOffset 1 = .ok _ :=
    fetch_eq_ok.mpr ⟨by omega, rfl⟩
  have hjump : fetchWord 4 (run.output stub) (run.plan.patchRawOffset + 1) = .ok _ :=
    fetchWord_eq_ok.mpr ⟨by omega, rfl⟩
  refine readFile_rejects.bind fun data hdata => ?_
  obtain rfl := (readFile_eq_ok.mp hdata).2
  refine parsePe_rejects.bind fun image himage => ?_
  obtain rfl := (parsePe_eq_ok.mp himage).2
  refine failIf_rejects.bind fun _ _ => ?_
  rw [output_sections, List.getLast?_concat]
  refine failIf_rejects.bind fun _ _ => ?_
  rw [hmarker, ok_bind]
  refine failIf_rejects.bind fun _ _ => readAt_rejects.bind fun _ _ =>
    readAt_rejects.bind fun _ _ => readAt_rejects.bind fun _ _ => failIf_rejects.bind fun _ _ => ?_
  rw [hsaved, ok_bind]
  refine failIf_rejects.bind fun _ _ => ?_
  rw [hopcode, ok_bind]
  refine failIf_rejects.bind fun _ _ => ?_
  rw [hjump, ok_bind]
  exact failIf_rejects

/-- A check that passes has read and parsed the output. -/
theorem limits_of_verified
    (h : verifyPatchedImage (run.output stub) run.result run.plan = .ok ()) :
    sectionCountOf input < maxSections ∧ (run.output stub).size ≤ maxImageSize := by
  unfold verifyPatchedImage at h
  obtain ⟨data, hdata, h⟩ := bind_eq_ok.mp h
  obtain ⟨hsize, rfl⟩ := readFile_eq_ok.mp hdata
  obtain ⟨image, himage, -⟩ := bind_eq_ok.mp h
  exact ⟨(run.output_parsable stub).mp (parsePe_eq_ok.mp himage).1, hsize⟩

end PatchRun

/-! ## The patcher -/

section Patcher

variable {stub : Vector UInt8 staticStubSize} {options : PePatchOptions} {input : Buffer}
  {result : PePatchResult} {output : Buffer}

/-- A patch that is accepted is a run, checked when it has to be. -/
theorem exists_run (h : patchPeImage stub options input = .ok (result, output)) :
    ∃ run : PatchRun options input, run.result = result ∧ run.output stub = output ∧
      (options.verify → verifyPatchedImage (run.output stub) run.result run.plan = .ok ()) := by
  rcases patchPeImage_cases stub options input with ⟨e, he, -⟩ | ⟨run, hrun⟩
  · cases he.symm.trans h
  · obtain ⟨u, hverify, hresult⟩ := bind_eq_ok.mp (hrun.symm.trans h)
    cases hresult
    refine ⟨run, rfl, rfl, ?_⟩
    intro hoption
    rwa [if_pos hoption] at hverify

/-- No access of the patcher leaves its buffer. -/
theorem patchPeImage_rejects : Rejects (patchPeImage stub options input) := by
  intro e he
  rcases patchPeImage_cases stub options input with ⟨e', he', hrejection⟩ | ⟨run, hrun⟩
  · cases he.symm.trans he'
    exact hrejection
  · have hrejects : Rejects ((if options.verify then
        verifyPatchedImage (run.output stub) run.result run.plan else .ok ()) >>= fun _ =>
          .ok (run.result, run.output stub)) :=
      (throwsOnly_ite (fun _ => run.verify_rejects stub) fun _ => throwsOnly_ok ()).bind
        fun _ _ => throwsOnly_ok _
    exact hrejects e (hrun.symm.trans he)

/-- The recogniser reads inside of the raw data of the two sections. -/
theorem patchInfoAt_rejects {data : Buffer} {image : PeImage} {s : Section}
    (hs : s.InFile data.size)
    (hentry : ∀ entry, entrySection image = .ok entry → entry.InFile data.size) :
    Rejects (patchInfoAt data image s) := by
  have hmarkerLength : marker.length = 10 := rfl
  unfold patchInfoAt
  refine throwsOnly_ite (fun _ => throwsOnly_pure _) fun hraw => ?_
  unfold contentSize at hraw
  have hfile : s.rawOffset + s.rawSize ≤ data.size := hs (by omega)
  have hmarker : fetch data (s.rawOffset + markerOffset) marker.length = .ok _ :=
    fetch_eq_ok.mpr ⟨by unfold markerOffset; omega, rfl⟩
  rw [hmarker, ok_bind]
  refine throwsOnly_ite (fun _ => throwsOnly_pure _) fun _ => ?_
  refine entrySection_rejects.bind fun entry hfound => ?_
  refine throwsOnly_ite (fun _ => throwsOnly_pure _) fun hroom => ?_
  have hroom := not_not.mp hroom
  unfold entryHasRawRoom entryPatchSize at hroom
  have hentryFile : entry.rawOffset + entry.rawSize ≤ data.size := hentry entry hfound (by omega)
  have hentryRaw : entryRawOffset image entry + 9 ≤ data.size := by
    unfold entryRawOffset
    omega
  have hprobe : fetchWord 4 data (entryRawOffset image entry) = .ok _ :=
    fetchWord_eq_ok.mpr ⟨by omega, rfl⟩
  have hoffset := patchOffsetOf_le data (entryRawOffset image entry)
  unfold patchOffsetOf at hoffset
  simp only [hprobe, ok_bind]
  generalize (if data.word 4 (entryRawOffset image entry) = endbr64 then 4 else 0) = patchOffset
    at hoffset ⊢
  have hopcode : fetch data (entryRawOffset image entry + patchOffset) 1 = .ok _ :=
    fetch_eq_ok.mpr ⟨by omega, rfl⟩
  have hjump : fetchWord 4 data (entryRawOffset image entry + patchOffset + 1) = .ok _ :=
    fetchWord_eq_ok.mpr ⟨by omega, rfl⟩
  rw [hopcode, ok_bind]
  refine throwsOnly_ite (fun _ => throwsOnly_pure _) fun _ => ?_
  rw [hjump, ok_bind]
  exact throwsOnly_ite (fun _ => throwsOnly_pure _) fun _ => throwsOnly_pure _

/-- No access of the recogniser leaves its buffer. -/
theorem readStaticPatchInfo_safe (data : Buffer) : ∃ info, readStaticPatchInfo data = .ok info := by
  have hrejects : Rejects (findPatchInfo data) := by
    refine readFile_rejects.bind fun data hdata => ?_
    refine parsePe_rejects.bind fun image himage => ?_
    obtain ⟨hparsable, rfl⟩ := parsePe_eq_ok.mp himage
    split
    · exact throwsOnly_pure _
    · rename_i s hs
      have hmem {s : Section} (hs : s ∈ (imageOf data).sections) : s.InFile data.size := by
        obtain ⟨index, hindex, rfl⟩ := List.mem_map.mp hs
        exact hparsable.sections index (List.mem_range.mp hindex)
      exact patchInfoAt_rejects (hmem (List.mem_of_find?_eq_some hs))
        fun entry hentry => hmem (entrySection_mem hentry).1
  unfold readStaticPatchInfo
  cases hfound : findPatchInfo data with
  | ok info => exact ⟨info, rfl⟩
  | error e =>
      cases e with
      | rejected code message => exact ⟨none, rfl⟩
      | outOfBounds => exact absurd rfl (hrejects _ hfound)

end Patcher

/-! ## When a patch is sound -/

/-- `value` rounded up to a multiple of `alignment`. -/
def roundedUp (value alignment : ℕ) : ℕ := (value + alignment - 1) / alignment * alignment

/-- The size of the file that a patch of `input` gives. -/
def patchedSize (input : Buffer) : ℕ :=
  roundedUp (keptSize input) (imageOf input).fileAlignment +
    roundedUp contentSize (imageOf input).fileAlignment

theorem PatchRun.newRaw_eq {options : PePatchOptions} {input : Buffer}
    (run : PatchRun options input) :
    run.newRawOffset = roundedUp (keptSize input) (imageOf input).fileAlignment ∧
      run.newRawSize = roundedUp contentSize (imageOf input).fileAlignment := by
  have hsize := run.size
  have hkept := run.keptSize_bounds.2.1
  unfold maxImageSize at hsize
  have hoffset := (alignUp_eq_ok (by omega) (word4_lt _ _)).mp run.newRawOffset_ok
  have hcontent := (alignUp_eq_ok (by decide) (word4_lt _ _)).mp run.newRawSize_ok
  exact ⟨hoffset.2.1.symm, hcontent.2.1.symm⟩

theorem PatchRun.output_patchedSize {options : PePatchOptions} {input : Buffer}
    (run : PatchRun options input) (stub : Vector UInt8 staticStubSize) :
    (run.output stub).size = patchedSize input := by
  rw [run.output_size stub, run.newRaw_eq.1, run.newRaw_eq.2]
  rfl

/-- No access of the patcher leaves a buffer, and what it accepts becomes a sound patch
exactly when the output was checked, or when it is within the limits of the parser: one
section more than the input has, and the size of a file. -/
theorem static_patch_sound_iff (stub : Vector UInt8 staticStubSize) (options : PePatchOptions)
    (input : Buffer) :
    patchPeImage stub options input ≠ .error .outOfBounds ∧
    ∀ result output, patchPeImage stub options input = .ok (result, output) →
      readStaticPatchInfo output ≠ .error .outOfBounds ∧
      (SoundPatch input result output ↔ options.verify ∨
        (imageOf input).numberOfSections < maxSections ∧ patchedSize input ≤ maxImageSize) := by
  refine ⟨fun h => patchPeImage_rejects _ h rfl, ?_⟩
  intro result output h
  obtain ⟨run, rfl, rfl, hverify⟩ := exists_run h
  constructor
  · obtain ⟨info, hinfo⟩ := readStaticPatchInfo_safe (run.output stub)
    rw [hinfo]
    exact fun h => nomatch h
  rw [← run.output_patchedSize stub]
  constructor
  · intro hsound
    obtain ⟨image, himage⟩ := hsound.parsed
    refine .inr ⟨(run.output_parsable stub).mp (parsePe_eq_ok.mp himage).1, ?_⟩
    by_contra hlarge
    -- a file that is too large is not even read
    obtain ⟨message, hfile⟩ : ∃ message, readFile (run.output stub) "the target image" =
        .error (.rejected .io message) := by
      unfold readFile
      rw [failIf_of (not_le.mp hlarge)]
      exact ⟨_, rfl⟩
    have hrecognised := hsound.recognised
    unfold readStaticPatchInfo findPatchInfo at hrecognised
    rw [hfile] at hrecognised
    cases hrecognised
  · rintro (hoption | ⟨hcount, hsize⟩)
    · obtain ⟨hcount, hsize⟩ := run.limits_of_verified stub (hverify hoption)
      exact run.output_sound stub hcount hsize
    · exact run.output_sound stub hcount hsize

/-! ### Images at the limits -/

/-- An image of 5120 bytes whose first section holds the entry and whose other sections
are empty. -/
def sampleImage (sectionCount : ℕ) : Buffer :=
  (Buffer.zeros 0x1400).putAll
    [(0, littleEndian 2 0x5A4D), (0x3C, littleEndian 4 0x40), (0x40, littleEndian 4 0x4550),
      (0x44, littleEndian 2 machineAmd64), (0x46, littleEndian 2 sectionCount),
      (0x54, littleEndian 2 0xF0), (0x56, littleEndian 2 imageFileExecutableImage),
      (0x58, littleEndian 2 pe32PlusMagic), (0x68, littleEndian 4 0x2000),
      (0x78, littleEndian 4 0x1000), (0x7C, littleEndian 4 0x200),
      (0x90, littleEndian 4 0x3000), (0x94, littleEndian 4 0x1200), (0x9C, littleEndian 2 3),
      (0xC4, littleEndian 4 16), (0x150, littleEndian 4 0x200), (0x154, littleEndian 4 0x2000),
      (0x158, littleEndian 4 0x200), (0x15C, littleEndian 4 0x1200),
      (0x16C, littleEndian 4 scnMemExecute)]

def sampleStub : Vector UInt8 staticStubSize := Vector.replicate staticStubSize 0x90

def sampleOptions (verify : Bool) : PePatchOptions where
  agentName := asciiBytes ['a', '.', 'd', 'l', 'l']
  verify := verify

set_option maxRecDepth 20000 in
/-- The checked patch of an image with one section is sound. -/
theorem static_patch_sound_iff_one_section : ∃ result output,
    patchPeImage sampleStub (sampleOptions true) (sampleImage 1) = .ok (result, output) ∧
      SoundPatch (sampleImage 1) result output := by
  have hrun : (patchPeImage sampleStub (sampleOptions true) (sampleImage 1)).map
      (·.1.outputSize) = .ok 0x1E00 := by decide +kernel
  obtain ⟨⟨result, output⟩, haccepted, -⟩ := exists_ok_of_map hrun
  refine ⟨result, output, haccepted, ?_⟩
  exact ((static_patch_sound_iff _ _ _).2 result output haccepted).2.mpr (.inl rfl)

set_option maxRecDepth 20000 in
/-- An image with 96 sections that is patched without a check gets a section table that the
parser refuses. -/
theorem static_patch_of_full_table : ∃ result output,
    patchPeImage sampleStub (sampleOptions false) (sampleImage 96) = .ok (result, output) ∧
      (¬ ∃ image, parsePe output = .ok image) ∧ ¬ SoundPatch (sampleImage 96) result output := by
  have hrun : (patchPeImage sampleStub (sampleOptions false) (sampleImage 96)).map
      (·.1.outputSize) = .ok 0x1E00 := by decide +kernel
  have hcount : sectionCountOf (sampleImage 96) = 96 := by decide +kernel
  obtain ⟨⟨result, output⟩, haccepted, -⟩ := exists_ok_of_map hrun
  obtain ⟨run, rfl, rfl, -⟩ := exists_run haccepted
  have hrefused : ¬ ∃ image, parsePe (run.output sampleStub) = .ok image := by
    rintro ⟨image, himage⟩
    have hlt := (run.output_parsable sampleStub).mp (parsePe_eq_ok.mp himage).1
    rw [hcount] at hlt
    exact absurd hlt (by decide)
  exact ⟨_, _, haccepted, hrefused, fun hsound => hrefused hsound.parsed⟩

end Noleax.Controller
