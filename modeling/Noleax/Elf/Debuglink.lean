import Noleax.Elf.ElfImage

/-!
# The reads of an ELF image (`analyzer/elf_image.cpp`)

No read leaves the file, whatever offsets and sizes it declares. The debug link is what a plain
name, its terminator and the padded checksum spell; reading it fails exactly when the sum of its
offset and size wraps to a value inside of the file.
-/

namespace Noleax.Elf

open Lib

/-! ## No read leaves the file -/

def Inside (fault : ElfFault) : Prop := fault ≠ .outside

theorem inside_image (message : String) : Inside (.image message) := nofun

section Inside

variable (file : Buffer)

theorem readExact_inside (offset count : ℕ) : ThrowsOnly Inside (readExact file offset count) := by
  refine (throwsOnly_failIf fun _ => inside_image _).bind fun _ hcheck => ?_
  have hbound := failIf_eq_ok.mp hcheck
  unfold pread
  rw [failIf_of_not (by omega), ok_bind]
  exact throwsOnly_pure _

theorem readBytes_inside (offset count : ℕ) : ThrowsOnly Inside (readBytes file offset count) :=
  (throwsOnly_failIf fun _ => inside_image _).bind fun _ _ => readExact_inside file offset count

theorem readSection_inside (offset : ℕ) : ThrowsOnly Inside (readSection file offset) :=
  (readExact_inside file offset _).bind fun _ _ => throwsOnly_pure _

theorem ensureTableSpan_inside (fileSize offset entrySize minimumEntrySize count : ℕ) :
    ThrowsOnly Inside (ensureTableSpan fileSize offset entrySize minimumEntrySize count) := by
  refine throwsOnly_ite (fun _ => throwsOnly_ok ()) fun _ => ?_
  exact (throwsOnly_failIf fun _ => inside_image _).bind fun _ _ =>
    throwsOnly_failIf fun _ => inside_image _

theorem readSymbolName_inside (strings : Bytes) (nameOffset : ℕ) :
    ThrowsOnly Inside (readSymbolName strings nameOffset) := by
  refine throwsOnly_ite (fun _ => throwsOnly_ok []) fun _ => ?_
  refine (throwsOnly_failIf fun _ => inside_image _).bind fun _ _ => ?_
  cases terminated (strings.drop nameOffset) with
  | none => exact throwsOnly_error (inside_image _)
  | some name => exact throwsOnly_pure name

theorem parseSymbolTable_inside (table : Elf64Shdr)
    (sectionOffset sectionEntrySize sectionCount : ℕ) (origin : SymbolTable) :
    ThrowsOnly Inside (parseSymbolTable file table sectionOffset sectionEntrySize sectionCount
      origin) := by
  refine throwsOnly_ite (fun _ => throwsOnly_ok []) fun _ => ?_
  refine (throwsOnly_failIf fun _ => inside_image _).bind fun _ _ => ?_
  refine (ensureTableSpan_inside _ _ _ _ _).bind fun _ _ => ?_
  refine (throwsOnly_failIf fun _ => inside_image _).bind fun _ _ => ?_
  refine (readSection_inside file _).bind fun _ _ => ?_
  refine (throwsOnly_failIf fun _ => inside_image _).bind fun _ _ => ?_
  refine (readBytes_inside file _ _).bind fun strings _ => ?_
  refine (readBytes_inside file _ _).bind fun entries _ => ?_
  refine ThrowsOnly.mapM fun index _ => ?_
  exact (readSymbolName_inside strings _).bind fun _ _ => throwsOnly_pure _

theorem parseOptional_inside (table : Option Elf64Shdr)
    (sectionOffset sectionEntrySize sectionCount : ℕ) (origin : SymbolTable) :
    ThrowsOnly Inside (parseOptional file table sectionOffset sectionEntrySize sectionCount
      origin) := by
  cases table with
  | none => exact throwsOnly_ok []
  | some table => exact parseSymbolTable_inside file table _ _ _ origin

theorem readBuildIdNote_inside (buildId : Bytes) (note : Elf64Shdr) :
    ThrowsOnly Inside (readBuildIdNote file buildId note) :=
  throwsOnly_ite (fun _ => throwsOnly_ok buildId) fun _ =>
    (readBytes_inside file _ _).bind fun _ _ => throwsOnly_pure _

theorem parseDebuglink_inside (debuglink : Elf64Shdr) :
    ThrowsOnly Inside (parseDebuglink file debuglink) :=
  throwsOnly_ite (fun _ => throwsOnly_ok none) fun _ =>
    (readBytes_inside file _ _).bind fun _ _ => throwsOnly_pure _

theorem readDebuglink_inside (debuglink : Option Elf64Shdr) :
    ThrowsOnly Inside (readDebuglink file debuglink) := by
  cases debuglink with
  | none => exact throwsOnly_ok none
  | some debuglink => exact parseDebuglink_inside file debuglink

theorem checkHeader_inside (header : Elf64Ehdr) : ThrowsOnly Inside (checkHeader header) := by
  refine (throwsOnly_failIf fun _ => inside_image _).bind fun _ _ => ?_
  refine (throwsOnly_failIf fun _ => inside_image _).bind fun _ _ => ?_
  refine (throwsOnly_failIf fun _ => inside_image _).bind fun _ _ => ?_
  refine (throwsOnly_failIf fun _ => inside_image _).bind fun _ _ => ?_
  exact (throwsOnly_failIf fun _ => inside_image _).bind fun _ _ =>
    throwsOnly_failIf fun _ => inside_image _

theorem sectionNames_inside (header : Elf64Ehdr) (counts : TableCounts) :
    ThrowsOnly Inside (sectionNames file header counts) := by
  refine throwsOnly_ite (fun _ => ?_) fun _ => throwsOnly_pure []
  refine (readSection_inside file _).bind fun _ _ => ?_
  exact throwsOnly_ite (fun _ => readBytes_inside file _ _) fun _ => throwsOnly_pure []

theorem loadSegment_inside (header : Elf64Ehdr) (minimum : Option ℕ) (index : ℕ) :
    ThrowsOnly Inside (loadSegment file header minimum index) :=
  (readExact_inside file _ _).bind fun _ _ =>
    throwsOnly_ite (fun _ => throwsOnly_pure _) fun _ => throwsOnly_pure _

theorem elfLayout_inside : ThrowsOnly Inside (elfLayout file) := by
  refine (readExact_inside file _ _).bind fun _ _ => ?_
  refine (checkHeader_inside _).bind fun _ _ => ?_
  refine ThrowsOnly.bind ?_ fun counts _ => ?_
  · exact throwsOnly_ite (fun _ => (readSection_inside file _).bind fun _ _ => throwsOnly_pure _)
      fun _ => throwsOnly_ok _
  refine (ensureTableSpan_inside _ _ _ _ _).bind fun _ _ => ?_
  refine (ThrowsOnly.foldlM (fun _ _ _ => loadSegment_inside file _ _ _) none).bind
    fun minimum _ => ?_
  cases minimum with
  | none => exact throwsOnly_error (inside_image _)
  | some minimumLoadVaddr =>
      refine (ensureTableSpan_inside _ _ _ _ _).bind fun _ _ => ?_
      refine (sectionNames_inside file _ _).bind fun names _ => ?_
      refine ThrowsOnly.bind ?_ fun _ _ => throwsOnly_pure _
      exact ThrowsOnly.foldlM (fun _ _ _ => (readSection_inside file _).bind fun _ _ =>
        throwsOnly_pure _) _

/-- No read of the constructor leaves the file. -/
theorem elfImage_inside : ThrowsOnly Inside (elfImage file) := by
  refine (elfLayout_inside file).bind fun layout _ => ?_
  refine (readDebuglink_inside file _).bind fun _ _ => ?_
  refine (parseOptional_inside file _ _ _ _ _).bind fun _ _ => ?_
  refine (parseOptional_inside file _ _ _ _ _).bind fun _ _ => ?_
  exact (ThrowsOnly.foldlM (fun _ _ _ => readBuildIdNote_inside file _ _) []).bind fun _ _ =>
    throwsOnly_pure _

end Inside

/-! ## What a debug link is -/

section Debuglink

variable {file : Buffer} {offset count : ℕ}

theorem readExact_eq_ok {bytes : Bytes} :
    readExact file offset count = .ok bytes ↔
      offset + count ≤ file.size ∧ file.slice offset count = bytes := by
  unfold readExact pread
  rw [failIf_bind_eq_ok, failIf_bind_eq_ok, pure_eq_ok, Except.ok.injEq]
  constructor
  · intro ⟨_, hinside, hbytes⟩
    exact ⟨Nat.not_lt.mp hinside, hbytes⟩
  · intro ⟨hinside, hbytes⟩
    exact ⟨by omega, Nat.not_lt.mpr hinside, hbytes⟩

theorem readBytes_eq_ok {bytes : Bytes} :
    readBytes file offset count = .ok bytes ↔
      offset + count ≤ file.size ∧ file.slice offset count = bytes := by
  unfold readBytes
  rw [failIf_bind_eq_ok, readExact_eq_ok]
  exact and_iff_right_of_imp fun h => by omega

theorem readSection_eq_ok {header : Elf64Shdr} :
    readSection file offset = .ok header ↔
      offset + sectionHeaderSize ≤ file.size ∧ sectionHeaderAt file offset = header := by
  unfold readSection
  rw [bind_eq_ok]
  constructor
  · intro ⟨bytes, hread, hheader⟩
    exact ⟨(readExact_eq_ok.mp hread).1, Except.ok.inj hheader⟩
  · intro ⟨hinside, hheader⟩
    exact ⟨_, readExact_eq_ok.mpr ⟨hinside, rfl⟩, congrArg Except.ok hheader⟩

/-- The bytes spell the name, its terminator and, from the next multiple of four on, the
checksum. -/
structure Spells (bytes : Bytes) (name : Bytes) (crc : ℕ) : Prop where
  terminated : ∃ rest, bytes = name ++ 0 :: rest
  named : name ≠ []
  noZero : 0 ∉ name
  plain : PlainName name
  padded : align4 (name.length + 1) + 4 ≤ bytes.length
  checksum : (Buffer.ofBytes bytes).word 4 (align4 (name.length + 1)) = crc

theorem debuglinkOf_eq_some {bytes name : Bytes} {crc : ℕ}
    (h : debuglinkOf bytes = some (name, crc)) : Spells bytes name crc := by
  unfold debuglinkOf at h
  split at h
  · cases h
  · rename_i found hfound
    by_cases hbad : found = [] ∨ ¬ PlainName found ∨ bytes.length < align4 (found.length + 1) ∨
        bytes.length - align4 (found.length + 1) < 4
    · cases (if_pos hbad).symm.trans h
    · cases (if_neg hbad).symm.trans h
      obtain ⟨hzero, hrest⟩ := terminated_eq_some.mp hfound
      simp only [not_or, not_not, Nat.not_lt] at hbad
      obtain ⟨hnamed, hplain, hcrc, hroom⟩ := hbad
      exact ⟨hrest, hnamed, hzero, hplain, by omega, rfl⟩

/-- The sum of offset and size wraps to a value inside of the file. -/
def Wraps (fileSize : ℕ) (debuglink : Elf64Shdr) : Prop :=
  debuglink.shSize ≠ 0 ∧ 2 ^ 64 ≤ debuglink.shOffset + debuglink.shSize ∧
    (debuglink.shOffset + debuglink.shSize) % 2 ^ 64 ≤ fileSize

/-- The debug link can be read unless its sum wraps. -/
theorem parseDebuglink_ok_iff {debuglink : Elf64Shdr} (hsize : file.size < 2 ^ 64) :
    (∃ result, parseDebuglink file debuglink = .ok result) ↔ ¬ Wraps file.size debuglink := by
  unfold parseDebuglink Wraps
  by_cases hskip : debuglink.shSize = 0 ∨
      file.size < (debuglink.shOffset + debuglink.shSize) % 2 ^ 64
  · rw [if_pos hskip]
    refine iff_of_true ⟨none, rfl⟩ ?_
    intro ⟨hsize, _, hle⟩
    cases hskip with
    | inl hzero => exact hsize hzero
    | inr hlt => exact Nat.not_lt.mpr hle hlt
  · rw [if_neg hskip]
    rw [not_or, Nat.not_lt] at hskip
    constructor
    · intro ⟨result, hresult⟩ ⟨_, hwraps, _⟩
      obtain ⟨bytes, hbytes, -⟩ := bind_eq_ok.mp hresult
      have hinside := (readBytes_eq_ok.mp hbytes).1
      omega
    · intro hfits
      have hsum : debuglink.shOffset + debuglink.shSize < 2 ^ 64 := by
        by_contra hwraps
        exact hfits ⟨hskip.1, Nat.not_lt.mp hwraps, hskip.2⟩
      have hinside := hskip.2
      rw [Nat.mod_eq_of_lt hsum] at hinside
      exact exists_bind_ok ⟨_, readBytes_eq_ok.mpr ⟨hinside, rfl⟩⟩ fun _ _ => ⟨_, rfl⟩

/-- A debug link that is found spells its name and checksum, inside of the file. -/
theorem parseDebuglink_spells {debuglink : Elf64Shdr} {name : Bytes} {crc : ℕ}
    (h : parseDebuglink file debuglink = .ok (some (name, crc))) :
    debuglink.shOffset + debuglink.shSize ≤ file.size ∧
      Spells (file.slice debuglink.shOffset debuglink.shSize) name crc := by
  unfold parseDebuglink at h
  split at h
  · cases h
  · obtain ⟨bytes, hbytes, h⟩ := bind_eq_ok.mp h
    obtain ⟨hinside, rfl⟩ := readBytes_eq_ok.mp hbytes
    exact ⟨hinside, debuglinkOf_eq_some (Except.ok.inj h)⟩

/-- The header that the constructor takes the debug link from. -/
def DebuglinkHeader (file : Buffer) (debuglink : Elf64Shdr) : Prop :=
  ∃ layout, elfLayout file = .ok layout ∧ layout.scan.debuglink = some debuglink

/-- The debug link of an image is spelled by the section it was taken from. -/
theorem elfImage_debuglink {image : ElfImage} (himage : elfImage file = .ok image)
    {name : Bytes} {crc : ℕ} (hlink : image.debuglink = some (name, crc)) :
    ∃ debuglink, DebuglinkHeader file debuglink ∧
      debuglink.shOffset + debuglink.shSize ≤ file.size ∧
      Spells (file.slice debuglink.shOffset debuglink.shSize) name crc := by
  obtain ⟨layout, hlayout, himage⟩ := bind_eq_ok.mp himage
  obtain ⟨debuglink, hdebuglink, himage⟩ := bind_eq_ok.mp himage
  obtain ⟨_, -, himage⟩ := bind_eq_ok.mp himage
  obtain ⟨_, -, himage⟩ := bind_eq_ok.mp himage
  obtain ⟨_, -, himage⟩ := bind_eq_ok.mp himage
  cases himage
  cases hheader : layout.scan.debuglink with
  | none =>
      rw [hheader] at hdebuglink
      cases hdebuglink
      cases hlink
  | some header =>
      rw [hheader] at hdebuglink
      refine ⟨header, ⟨layout, hlayout, hheader⟩, parseDebuglink_spells ?_⟩
      rw [← hlink]
      exact hdebuglink

end Debuglink

/-! ## The layout -/

/-- `layout` is what the first half of the constructor finds in `file`. -/
structure LayoutOf (file : Buffer) (layout : ElfLayout) : Prop where
  inside : headerSize ≤ file.size
  header : layout.header = headerAt file
  check : checkHeader layout.header = .ok ()
  counts : tableCounts file layout.header = .ok layout.counts
  programSpan : ensureTableSpan file.size layout.header.ePhoff layout.header.ePhentsize
    programHeaderSize layout.counts.programCount = .ok ()
  minimum : (List.range layout.counts.programCount).foldlM (loadSegment file layout.header) none =
    .ok (some layout.minimumLoadVaddr)
  sectionSpan : ensureTableSpan file.size layout.header.eShoff layout.header.eShentsize
    sectionHeaderSize layout.counts.sectionCount = .ok ()
  names : sectionNames file layout.header layout.counts = .ok layout.names
  scan : scanSections file layout.header layout.names layout.counts.sectionCount = .ok layout.scan

theorem elfLayout_eq_ok {file : Buffer} {layout : ElfLayout} :
    elfLayout file = .ok layout ↔ LayoutOf file layout := by
  constructor
  · intro h
    obtain ⟨_, hread, h⟩ := bind_eq_ok.mp h
    obtain ⟨_, hcheck, h⟩ := bind_eq_ok.mp h
    obtain ⟨counts, hcounts, h⟩ := bind_eq_ok.mp h
    obtain ⟨_, hspan, h⟩ := bind_eq_ok.mp h
    obtain ⟨minimum, hminimum, h⟩ := bind_eq_ok.mp h
    cases minimum with
    | none => cases h
    | some minimumLoadVaddr =>
        obtain ⟨_, hsections, h⟩ := bind_eq_ok.mp h
        obtain ⟨names, hnames, h⟩ := bind_eq_ok.mp h
        obtain ⟨scan, hscan, h⟩ := bind_eq_ok.mp h
        obtain rfl := Except.ok.inj h
        have hinside := (readExact_eq_ok.mp hread).1
        rw [Nat.zero_add] at hinside
        exact ⟨hinside, rfl, hcheck, hcounts, hspan, hminimum, hsections, hnames, hscan⟩
  · intro h
    have hread : readExact file 0 headerSize = .ok _ :=
      readExact_eq_ok.mpr ⟨(Nat.zero_add headerSize).symm ▸ h.inside, rfl⟩
    unfold elfLayout
    rw [hread, ok_bind, ← h.header]
    show (checkHeader layout.header >>= fun _ => _) = _
    rw [h.check, ok_bind, h.counts, ok_bind, h.programSpan, ok_bind, h.minimum, ok_bind]
    show (ensureTableSpan _ _ _ _ _ >>= fun _ => _) = _
    rw [h.sectionSpan, ok_bind, h.names, ok_bind, h.scan, ok_bind]
    rfl

end Noleax.Elf
