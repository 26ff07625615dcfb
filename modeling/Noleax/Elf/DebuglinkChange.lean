import Noleax.Elf.Debuglink

/-!
# An image with another debug link (`analyzer/elf_image.cpp`)

Two files that differ only in the offset, the size and the bytes of a debug link section have
the same layout, but for where the debug link lies, and the same symbols and build ID. The
second file is an image as the first one is, unless the sum of its debug link wraps.
-/

namespace Noleax.Elf

open Lib

/-! ## The change -/

/-- The symbol tables that the constructor reads. -/
def usedTables (layout : ElfLayout) : List Elf64Shdr :=
  (layout.scan.symtab.toList ++ layout.scan.dynsym.toList).filter fun table => table.shSize ≠ 0

/-- The byte at `i` belongs to something besides the offset, the size and the bytes of section
`s`. -/
inductive UsedElsewhere (file : Buffer) (layout : ElfLayout) (s i : ℕ) : Prop where
  | header (h : i < headerSize)
  | programHeader (k : ℕ) (hk : k < layout.counts.programCount)
      (hlow : layout.header.ePhoff + k * layout.header.ePhentsize ≤ i)
      (hhigh : i < layout.header.ePhoff + k * layout.header.ePhentsize + programHeaderSize)
  | sectionHeader (k : ℕ) (hk : k < layout.counts.sectionCount) (hother : k ≠ s)
      (hlow : layout.header.sectionOffset k ≤ i)
      (hhigh : i < layout.header.sectionOffset k + sectionHeaderSize)
  | ownHeader (hlow : layout.header.sectionOffset s ≤ i)
      (hhigh : i < layout.header.sectionOffset s + sectionHeaderSize)
      (hfields : i < layout.header.sectionOffset s + 24 ∨
        layout.header.sectionOffset s + 40 ≤ i)
  | names (hlow : (layout.sectionAt file layout.counts.sectionNamesIndex).shOffset ≤ i)
      (hhigh : i < (layout.sectionAt file layout.counts.sectionNamesIndex).shOffset +
        (layout.sectionAt file layout.counts.sectionNamesIndex).shSize)
  | table (table : Elf64Shdr) (htable : table ∈ usedTables layout) (hlow : table.shOffset ≤ i)
      (hhigh : i < table.shOffset + table.shSize)
  | strings (table : Elf64Shdr) (htable : table ∈ usedTables layout)
      (hlow : (layout.sectionAt file table.shLink).shOffset ≤ i)
      (hhigh : i < (layout.sectionAt file table.shLink).shOffset +
        (layout.sectionAt file table.shLink).shSize)
  | note (note : Elf64Shdr) (hnote : note ∈ layout.scan.notes) (hlow : note.shOffset ≤ i)
      (hhigh : i < note.shOffset + note.shSize)

/-- The byte at `i` is one of the offset and size fields of section `s` or of its bytes, as `file`
has them. -/
def OwnByte (file : Buffer) (layout : ElfLayout) (s i : ℕ) : Prop :=
  (layout.header.sectionOffset s + 24 ≤ i ∧ i < layout.header.sectionOffset s + 40) ∨
    ((layout.sectionAt file s).shOffset ≤ i ∧
      i < (layout.sectionAt file s).shOffset + (layout.sectionAt file s).shSize)

/-- `g` differs from `f`, whose layout is given, only in the offset, the size and the bytes of the
debug link section `s`. The section is nothing else: its header is not the one that extended
numbering counts sections with, not the section name table's and not a linked string table's. -/
structure DebuglinkChange (f g : Buffer) (layout : ElfLayout) (s : ℕ) : Prop where
  bound : s < layout.counts.sectionCount
  named : namedDebuglink layout.names (layout.sectionAt f s) = true
  type : (layout.sectionAt f s).shType ≠ shtSymtab ∧ (layout.sectionAt f s).shType ≠ shtDynsym ∧
    (layout.sectionAt f s).shType ≠ shtNote
  notCount : s = 0 → layout.header.eShnum ≠ 0
  notNames : s ≠ layout.counts.sectionNamesIndex
  notStrings : ∀ table ∈ usedTables layout, s ≠ table.shLink
  size : g.size = f.size
  differ : ∀ i < f.size, g.byte i ≠ f.byte i →
    (OwnByte f layout s i ∨ OwnByte g layout s i) ∧ ¬ UsedElsewhere f layout s i

/-! ## What both files read alike -/

namespace DebuglinkChange

section Reads

variable {f g : Buffer} {layout : ElfLayout} {s offset count : ℕ}

theorem kept (h : DebuglinkChange f g layout s) {i : ℕ} (hused : UsedElsewhere f layout s i)
    (hinside : i < f.size) : g.byte i = f.byte i := by
  by_contra hne
  exact (h.differ i hinside hne).2 hused

/-- A range that is used elsewhere holds the same. -/
theorem slice_same (h : DebuglinkChange f g layout s) (hinside : offset + count ≤ f.size)
    (hused : ∀ i, offset ≤ i → i < offset + count → UsedElsewhere f layout s i) :
    g.slice offset count = f.slice offset count := by
  apply Buffer.slice_congr
  intro i hi
  exact h.kept (hused _ (Nat.le_add_right _ _) (by omega)) (by omega)

theorem readExact_same (h : DebuglinkChange f g layout s)
    (hused : ∀ i, offset ≤ i → i < offset + count → UsedElsewhere f layout s i) :
    readExact g offset count = readExact f offset count := by
  unfold readExact pread
  rw [h.size]
  by_cases hinside : offset + count ≤ f.size
  · rw [h.slice_same hinside hused]
  · rw [failIf_of (p := f.size < count ∨ f.size - count < offset) (by omega)]
    rfl

theorem readBytes_same (h : DebuglinkChange f g layout s)
    (hused : ∀ i, offset ≤ i → i < offset + count → UsedElsewhere f layout s i) :
    readBytes g offset count = readBytes f offset count := by
  unfold readBytes
  rw [h.size, h.readExact_same hused]

theorem readSection_same (h : DebuglinkChange f g layout s)
    (hused : ∀ i, offset ≤ i → i < offset + sectionHeaderSize → UsedElsewhere f layout s i) :
    readSection g offset = readSection f offset := by
  unfold readSection
  rw [h.readExact_same hused]
  cases hread : readExact f offset sectionHeaderSize with
  | error => rfl
  | ok bytes =>
      have hinside := (readExact_eq_ok.mp hread).1
      rw [ok_bind, ok_bind, sectionHeaderAt_congr (h.slice_same hinside hused)]

/-- The other section headers are the same. -/
theorem readSection_other (h : DebuglinkChange f g layout s) {k : ℕ}
    (hk : k < layout.counts.sectionCount) (hother : k ≠ s) :
    readSection g (layout.header.sectionOffset k) =
      readSection f (layout.header.sectionOffset k) :=
  h.readSection_same fun _ hlow hhigh => .sectionHeader k hk hother hlow hhigh

end Reads

end DebuglinkChange

/-- Two headers that differ only in offset and size. -/
structure SameSection (a b : Elf64Shdr) : Prop where
  name : b.shName = a.shName
  type : b.shType = a.shType
  link : b.shLink = a.shLink
  info : b.shInfo = a.shInfo

namespace DebuglinkChange

section Own

variable {f g : Buffer} {layout : ElfLayout} {s : ℕ}

/-- The section's own header differs only in offset and size. -/
theorem readSection_own (h : DebuglinkChange f g layout s) {header : Elf64Shdr}
    (hread : readSection f (layout.header.sectionOffset s) = .ok header) :
    ∃ header', readSection g (layout.header.sectionOffset s) = .ok header' ∧
      SameSection header header' := by
  obtain ⟨hinside, rfl⟩ := readSection_eq_ok.mp hread
  have hword {width start : ℕ} (hfield : start + width ≤ sectionHeaderSize)
      (hapart : start + width ≤ 24 ∨ 40 ≤ start) :
      g.word width (layout.header.sectionOffset s + start) =
        f.word width (layout.header.sectionOffset s + start) := by
    apply Buffer.word_congr
    intro i hi
    exact h.kept (.ownHeader (by omega) (by omega) (by omega)) (by omega)
  refine ⟨_, readSection_eq_ok.mpr ⟨h.size.symm ▸ hinside, rfl⟩, ?_, ?_, ?_, ?_⟩
  · exact @hword 4 0 (by decide) (by decide)
  · exact @hword 4 4 (by decide) (by decide)
  · exact @hword 4 40 (by decide) (by decide)
  · exact @hword 4 44 (by decide) (by decide)

end Own

end DebuglinkChange

/-! ## The layouts -/

/-- Two scans that found the same but for the debug link. -/
structure SameScan (a b : SectionScan) : Prop where
  symtab : b.symtab = a.symtab
  dynsym : b.dynsym = a.dynsym
  notes : b.notes = a.notes

section Step

variable {names : Bytes} {a b : SectionScan} {header : Elf64Shdr}

/-- The same header keeps the scans alike. -/
theorem SameScan.step (h : SameScan a b) :
    SameScan (a.step names header) (b.step names header) := by
  obtain ⟨hsymtab, hdynsym, hnotes⟩ := h
  unfold SectionScan.step
  rw [hsymtab, hdynsym]
  split_ifs
  · exact ⟨rfl, rfl, hnotes⟩
  · exact ⟨rfl, rfl, hnotes⟩
  · exact ⟨rfl, rfl, congrArg (· ++ [header]) hnotes⟩
  · exact ⟨rfl, rfl, hnotes⟩
  · exact ⟨hsymtab, hdynsym, hnotes⟩

/-- A header of another type leaves what the scan found, but for the debug link. -/
theorem SameScan.step_other (htype : header.shType ≠ shtSymtab ∧ header.shType ≠ shtDynsym ∧
    header.shType ≠ shtNote) : SameScan a (a.step names header) := by
  unfold SectionScan.step
  rw [if_neg fun h => htype.1 h.1, if_neg fun h => htype.2.1 h.1, if_neg htype.2.2]
  split_ifs
  · exact ⟨rfl, rfl, rfl⟩
  · exact ⟨rfl, rfl, rfl⟩

theorem SameScan.symm (h : SameScan a b) : SameScan b a :=
  ⟨h.symtab.symm, h.dynsym.symm, h.notes.symm⟩

theorem SameScan.trans {c : SectionScan} (h : SameScan a b) (h' : SameScan b c) : SameScan a c :=
  ⟨h'.symtab.trans h.symtab, h'.dynsym.trans h.dynsym, h'.notes.trans h.notes⟩

end Step

namespace DebuglinkChange

section Layout

variable {f g : Buffer} {layout : ElfLayout} {s : ℕ}

theorem tableCounts_same (h : DebuglinkChange f g layout s)
    (hcounts : tableCounts f layout.header = .ok layout.counts) :
    tableCounts g layout.header = .ok layout.counts := by
  unfold tableCounts at hcounts ⊢
  by_cases hextended : layout.header.Extended
  · rw [if_pos hextended] at hcounts ⊢
    have hoffset : layout.header.eShoff = layout.header.sectionOffset 0 := by
      rw [Elf64Ehdr.sectionOffset, Nat.zero_mul, Nat.add_zero]
    rw [hoffset] at hcounts ⊢
    by_cases hfirst : s = 0
    · obtain ⟨first, hread, hcounts⟩ := bind_eq_ok.mp hcounts
      subst hfirst
      obtain ⟨first', hread', hsame⟩ := h.readSection_own hread
      rw [hread', ok_bind, ← hcounts]
      have hcount := h.notCount rfl
      unfold extendedCounts
      rw [if_neg hcount, if_neg hcount, hsame.info, hsame.link]
    · rwa [h.readSection_other (Nat.zero_lt_of_lt h.bound) (Ne.symm hfirst)]
  · rwa [if_neg hextended] at hcounts ⊢

theorem loadSegments_same (h : DebuglinkChange f g layout s) :
    (List.range layout.counts.programCount).foldlM (loadSegment g layout.header) none =
      (List.range layout.counts.programCount).foldlM (loadSegment f layout.header) none := by
  have hstep : ∀ k ∈ List.range layout.counts.programCount, ∀ minimum : Option ℕ,
      loadSegment g layout.header minimum k = loadSegment f layout.header minimum k := by
    intro k hk minimum
    have hused : ∀ i, layout.header.ePhoff + k * layout.header.ePhentsize ≤ i →
        i < layout.header.ePhoff + k * layout.header.ePhentsize + programHeaderSize →
        UsedElsewhere f layout s i :=
      fun i hlow hhigh => .programHeader k (List.mem_range.mp hk) hlow hhigh
    show (readExact g _ _ >>= fun _ => _) = (readExact f _ _ >>= fun _ => _)
    rw [h.readExact_same hused]
    cases hread : readExact f (layout.header.ePhoff + k * layout.header.ePhentsize)
        programHeaderSize with
    | error => rfl
    | ok bytes =>
        have hinside := (readExact_eq_ok.mp hread).1
        rw [ok_bind, ok_bind, programHeaderAt_congr (h.slice_same hinside hused)]
  generalize List.range layout.counts.programCount = indices at hstep
  generalize (none : Option ℕ) = minimum
  induction indices generalizing minimum with
  | nil => rfl
  | cons k indices ih =>
      rw [List.foldlM_cons, List.foldlM_cons, hstep k List.mem_cons_self]
      congr 1
      funext next
      exact ih (fun k hk => hstep k (List.mem_cons_of_mem _ hk)) next

theorem sectionNames_same (h : DebuglinkChange f g layout s) :
    sectionNames g layout.header layout.counts = sectionNames f layout.header layout.counts := by
  unfold sectionNames
  refine ite_congr rfl (fun hindex => ?_) fun _ => rfl
  rw [h.readSection_other hindex.2 (Ne.symm h.notNames)]
  cases hread : readSection f (layout.header.sectionOffset layout.counts.sectionNamesIndex) with
  | error => rfl
  | ok names =>
      rw [ok_bind, ok_bind, h.size]
      refine ite_congr rfl (fun _ => ?_) fun _ => rfl
      obtain ⟨_, rfl⟩ := readSection_eq_ok.mp hread
      exact h.readBytes_same fun _ hlow hhigh => .names hlow hhigh

/-- A round of the section loops keeps the scans alike. -/
theorem scanSection_same (h : DebuglinkChange f g layout s) {k : ℕ}
    (hk : k < layout.counts.sectionCount) {a b next : SectionScan} (hsame : SameScan a b)
    (hscan : scanSection f layout.header layout.names a k = .ok next) :
    ∃ next', scanSection g layout.header layout.names b k = .ok next' ∧ SameScan next next' := by
  obtain ⟨header, hread, hnext⟩ := bind_eq_ok.mp hscan
  obtain rfl := Except.ok.inj hnext
  show ∃ next', (readSection g _ >>= fun _ => _) = _ ∧ _
  by_cases hown : k = s
  · subst hown
    obtain ⟨header', hread', hheader⟩ := h.readSection_own hread
    have htype : header.shType ≠ shtSymtab ∧ header.shType ≠ shtDynsym ∧
        header.shType ≠ shtNote := by
      rw [← (readSection_eq_ok.mp hread).2]
      exact h.type
    have htype' := htype
    rw [← hheader.type] at htype'
    rw [hread', ok_bind]
    exact ⟨_, rfl, ((SameScan.step_other htype).symm.trans hsame).trans
      (SameScan.step_other htype')⟩
  · rw [h.readSection_other hk hown, hread, ok_bind]
    exact ⟨_, rfl, hsame.step⟩

theorem scanSections_from (h : DebuglinkChange f g layout s) {indices : List ℕ}
    (hindices : ∀ k ∈ indices, k < layout.counts.sectionCount) {a b scan : SectionScan}
    (hsame : SameScan a b)
    (hscan : indices.foldlM (scanSection f layout.header layout.names) a = .ok scan) :
    ∃ scan', indices.foldlM (scanSection g layout.header layout.names) b = .ok scan' ∧
      SameScan scan scan' := by
  induction indices generalizing a b with
  | nil =>
      cases hscan
      exact ⟨b, rfl, hsame⟩
  | cons k indices ih =>
      rw [List.foldlM_cons] at hscan
      obtain ⟨next, hnext, hscan⟩ := bind_eq_ok.mp hscan
      obtain ⟨hk, hindices⟩ := List.forall_mem_cons.mp hindices
      obtain ⟨next', hnext', hsame⟩ := h.scanSection_same hk hsame hnext
      rw [List.foldlM_cons, hnext', ok_bind]
      exact ih hindices hsame hscan

/-- The section loops find the same but for the debug link. -/
theorem scanSections_same (h : DebuglinkChange f g layout s) {scan : SectionScan}
    (hscan : scanSections f layout.header layout.names layout.counts.sectionCount = .ok scan) :
    ∃ scan', scanSections g layout.header layout.names layout.counts.sectionCount = .ok scan' ∧
      SameScan scan scan' :=
  h.scanSections_from (fun _ => List.mem_range.mp) ⟨rfl, rfl, rfl⟩ hscan

/-- The layouts are the same but for the debug link. -/
theorem layout_same (h : DebuglinkChange f g layout s) (hlayout : elfLayout f = .ok layout) :
    ∃ scan, elfLayout g = .ok { layout with scan := scan } ∧ SameScan layout.scan scan := by
  have hf := elfLayout_eq_ok.mp hlayout
  obtain ⟨scan, hscan, hsame⟩ := h.scanSections_same hf.scan
  have hinside : headerSize ≤ g.size := h.size.symm ▸ hf.inside
  have hheader : headerAt g = headerAt f := headerAt_congr
    (h.slice_same ((Nat.zero_add headerSize).symm ▸ hf.inside) fun i _ hi =>
      .header (by rwa [Nat.zero_add] at hi))
  have hg : LayoutOf g { layout with scan := scan } := {
    inside := hinside
    header := hf.header.trans hheader.symm
    check := hf.check
    counts := h.tableCounts_same hf.counts
    programSpan := h.size.symm ▸ hf.programSpan
    minimum := h.loadSegments_same.trans hf.minimum
    sectionSpan := h.size.symm ▸ hf.sectionSpan
    names := h.sectionNames_same.trans hf.names
    scan := hscan }
  exact ⟨scan, elfLayout_eq_ok.mpr hg, hsame⟩

end Layout

section Tables

variable {f g : Buffer} {layout : ElfLayout} {s : ℕ}

theorem parseSymbolTable_same (h : DebuglinkChange f g layout s) {table : Elf64Shdr}
    (htable : table.shSize ≠ 0 → table ∈ usedTables layout) (origin : SymbolTable) :
    parseSymbolTable g table layout.header.eShoff layout.header.eShentsize
        layout.counts.sectionCount origin =
      parseSymbolTable f table layout.header.eShoff layout.header.eShentsize
        layout.counts.sectionCount origin := by
  unfold parseSymbolTable
  refine ite_congr rfl (fun _ => rfl) fun hsize => ?_
  have hused := htable hsize
  have hentries := h.readBytes_same fun _ hlow hhigh => .table table hused hlow hhigh
  by_cases hlink : layout.counts.sectionCount ≤ table.shLink
  · rw [h.size, failIf_of (p := layout.counts.sectionCount ≤ table.shLink) hlink]
    rfl
  · have hsection :=
      h.readSection_other (Nat.lt_of_not_le hlink) (Ne.symm (h.notStrings table hused))
    rw [Elf64Ehdr.sectionOffset] at hsection
    rw [h.size, hsection, hentries]
    cases hread :
        readSection f (layout.header.eShoff + table.shLink * layout.header.eShentsize) with
    | error => rfl
    | ok strings =>
        have hstrings : strings = layout.sectionAt f table.shLink :=
          (readSection_eq_ok.mp hread).2.symm
        have hnames := @h.readBytes_same _ _ _ _ strings.shOffset strings.shSize
          fun _ hlow hhigh => .strings table hused (hstrings ▸ hlow) (hstrings ▸ hhigh)
        simp only [ok_bind, hnames]

theorem parseOptional_same (h : DebuglinkChange f g layout s) {table : Option Elf64Shdr}
    (htable : ∀ header ∈ table, header.shSize ≠ 0 → header ∈ usedTables layout)
    (origin : SymbolTable) :
    parseOptional g table layout.header.eShoff layout.header.eShentsize
        layout.counts.sectionCount origin =
      parseOptional f table layout.header.eShoff layout.header.eShentsize
        layout.counts.sectionCount origin := by
  cases table with
  | none => rfl
  | some header => exact h.parseSymbolTable_same (htable header rfl) origin

theorem readNotes_same (h : DebuglinkChange f g layout s) {notes : List Elf64Shdr}
    (hnotes : ∀ note ∈ notes, note ∈ layout.scan.notes) (buildId : Bytes) :
    notes.foldlM (readBuildIdNote g) buildId = notes.foldlM (readBuildIdNote f) buildId := by
  induction notes generalizing buildId with
  | nil => rfl
  | cons note notes ih =>
      obtain ⟨hnote, hnotes⟩ := List.forall_mem_cons.mp hnotes
      have hread : readBuildIdNote g buildId note = readBuildIdNote f buildId note := by
        unfold readBuildIdNote
        rw [h.readBytes_same fun _ hlow hhigh => .note note hnote hlow hhigh]
      rw [List.foldlM_cons, List.foldlM_cons, hread]
      congr 1
      funext next
      exact ih hnotes next

end Tables

end DebuglinkChange

theorem mem_usedTables {layout : ElfLayout} {table : Elf64Shdr} :
    table ∈ usedTables layout ↔
      (layout.scan.symtab = some table ∨ layout.scan.dynsym = some table) ∧ table.shSize ≠ 0 := by
  unfold usedTables
  rw [List.mem_filter, List.mem_append, Option.mem_toList, Option.mem_toList,
    decide_eq_true_eq]

/-! ## The image -/

/-- The image of `file` has the symbols, the build ID and the load address of `image`. -/
def Unharmed (image : ElfImage) (file : Buffer) : Prop :=
  ∃ image', elfImage file = .ok image' ∧ image'.symtab = image.symtab ∧
    image'.dynsym = image.dynsym ∧ image'.buildId = image.buildId ∧
    image'.minimumLoadVaddr = image.minimumLoadVaddr

/-- No read leaves the file, and a debug link that is set is spelled by a section inside of it. -/
def SoundReads (file : Buffer) : Prop :=
  elfImage file ≠ .error .outside ∧
    ∀ image, elfImage file = .ok image → ∀ name crc, image.debuglink = some (name, crc) →
      ∃ debuglink, DebuglinkHeader file debuglink ∧
        debuglink.shOffset + debuglink.shSize ≤ file.size ∧
        Spells (file.slice debuglink.shOffset debuglink.shSize) name crc

theorem soundReads (file : Buffer) : SoundReads file :=
  ⟨fun h => elfImage_inside file _ h rfl, fun _ himage _ _ hlink => elfImage_debuglink himage hlink⟩

section Image

variable {f g : Buffer} {layout : ElfLayout} {s : ℕ} {image : ElfImage}

/-- The changed file is an image alike exactly when its debug link can be read. -/
theorem DebuglinkChange.unharmed_iff (h : DebuglinkChange f g layout s)
    (hsize : f.size < 2 ^ 64) (hlayout : elfLayout f = .ok layout)
    (himage : elfImage f = .ok image) :
    Unharmed image g ↔ ∀ debuglink, DebuglinkHeader g debuglink → ¬ Wraps g.size debuglink := by
  obtain ⟨scan, hscan, hsame⟩ := h.layout_same hlayout
  have hsizes : g.size < 2 ^ 64 := h.size.symm ▸ hsize
  -- what the first file's constructor read after the debug link
  obtain ⟨layout', hlayout', himage⟩ := bind_eq_ok.mp himage
  obtain rfl : layout' = layout := Except.ok.inj (hlayout'.symm.trans hlayout)
  obtain ⟨debuglink, -, himage⟩ := bind_eq_ok.mp himage
  obtain ⟨symtab, hsymtab, himage⟩ := bind_eq_ok.mp himage
  obtain ⟨dynsym, hdynsym, himage⟩ := bind_eq_ok.mp himage
  obtain ⟨buildId, hbuildId, himage⟩ := bind_eq_ok.mp himage
  obtain rfl := Except.ok.inj himage
  have hsymtab' := (h.parseOptional_same (fun table htable hused =>
    mem_usedTables.mpr ⟨Or.inl htable, hused⟩) .symtab).trans hsymtab
  have hdynsym' := (h.parseOptional_same (fun table htable hused =>
    mem_usedTables.mpr ⟨Or.inr htable, hused⟩) .dynsym).trans hdynsym
  have hbuildId' := (h.readNotes_same (fun _ => id) []).trans hbuildId
  rw [← hsame.symtab] at hsymtab'
  rw [← hsame.dynsym] at hdynsym'
  rw [← hsame.notes] at hbuildId'
  have hheader (header : Elf64Shdr) :
      DebuglinkHeader g header ↔ scan.debuglink = some header := by
    constructor
    · intro ⟨other, hother, hlink⟩
      rwa [← Except.ok.inj (hscan.symm.trans hother)] at hlink
    · intro hlink
      exact ⟨_, hscan, hlink⟩
  constructor
  · intro ⟨image', himage', _⟩ header hlink
    obtain ⟨layout', hlayout', himage'⟩ := bind_eq_ok.mp himage'
    obtain rfl := Except.ok.inj (hscan.symm.trans hlayout')
    obtain ⟨result, hresult, -⟩ := bind_eq_ok.mp himage'
    rw [(hheader header).mp hlink] at hresult
    exact (parseDebuglink_ok_iff hsizes).mp ⟨result, hresult⟩
  · intro hfits
    have hread : ∃ result, readDebuglink g scan.debuglink = .ok result := by
      cases hlink : scan.debuglink with
      | none => exact ⟨none, rfl⟩
      | some header =>
          exact (parseDebuglink_ok_iff hsizes).mpr (hfits header ((hheader header).mpr hlink))
    obtain ⟨result, hresult⟩ := hread
    refine ⟨⟨layout'.minimumLoadVaddr, result, symtab, dynsym, buildId⟩, ?_, rfl, rfl, rfl, rfl⟩
    unfold elfImage
    rw [hscan, ok_bind]
    show (readDebuglink g scan.debuglink >>= fun _ => _) = _
    rw [hresult, ok_bind]
    show (parseOptional g scan.symtab _ _ _ _ >>= fun _ => _) = _
    rw [hsymtab', ok_bind]
    show (parseOptional g scan.dynsym _ _ _ _ >>= fun _ => _) = _
    rw [hdynsym', ok_bind]
    show (scan.notes.foldlM _ _ >>= fun _ => _) = _
    rw [hbuildId', ok_bind]
    rfl

/-- Another debug link leaves an image as it is exactly when the sum of the offset and size that
its header declares does not wrap to a value inside of the file; no read leaves the file, and a
debug link that is set is spelled by its section. -/
theorem debuglink_never_hides (hsize : f.size < 2 ^ 64) (hlayout : elfLayout f = .ok layout)
    (himage : elfImage f = .ok image) (h : DebuglinkChange f g layout s) :
    (Unharmed image g ∧ SoundReads g) ↔
      ∀ debuglink, DebuglinkHeader g debuglink → ¬ Wraps g.size debuglink :=
  (and_iff_left (soundReads g)).trans (h.unharmed_iff hsize hlayout himage)

end Image

section Sample

/-- A section header: name, type, offset and size. -/
def linkedSection (name type offset size : ℕ) : Bytes :=
  littleEndian 4 name ++ littleEndian 4 type ++ List.replicate 16 0 ++ littleEndian 8 offset ++
    littleEndian 8 size ++ List.replicate 24 0

/-- A shared object with one load segment, whose section 0 is a debug link at the offset and of
the size given, and whose section 1 names it. -/
def linkedFile (offset size : ℕ) : Buffer := .ofBytes (
  [0x7f, 0x45, 0x4c, 0x46, 2, 1, 1] ++ List.replicate 9 0 ++
  littleEndian 2 etDyn ++ littleEndian 2 emX8664 ++ littleEndian 4 1 ++ littleEndian 8 0 ++
  littleEndian 8 64 ++ littleEndian 8 120 ++ littleEndian 4 0 ++ littleEndian 2 64 ++
  littleEndian 2 56 ++ littleEndian 2 1 ++ littleEndian 2 64 ++ littleEndian 2 2 ++
  littleEndian 2 1 ++ (littleEndian 4 ptLoad ++ List.replicate 52 0) ++
  linkedSection 0 1 offset size ++ linkedSection 14 shtStrtab 248 15 ++
  debuglinkSection ++ [0] ++ [0x61, 0, 0, 0, 1, 2, 3, 4])

def linkedHeader (offset size : ℕ) : Elf64Shdr := ⟨0, 1, offset, size, 0, 0, 0⟩

def linkedLayout (offset size : ℕ) : ElfLayout where
  header := ⟨[0x7f, 0x45, 0x4c, 0x46, 2, 1, 1], etDyn, emX8664, 1, 64, 120, 56, 1, 64, 2, 1⟩
  counts := ⟨2, 1, 1⟩
  minimumLoadVaddr := 0
  names := debuglinkSection
  scan := { debuglink := some (linkedHeader offset size) }

theorem linked_layout : elfLayout (linkedFile 264 8) = .ok (linkedLayout 264 8) := by
  decide +kernel

def linkedImage : ElfImage := ⟨0, some ([0x61], 0x04030201), [], [], []⟩

theorem linked_image : elfImage (linkedFile 264 8) = .ok linkedImage := by decide +kernel

theorem linked_size : (linkedFile 264 8).size = 272 := by decide +kernel

theorem linked_names : ((linkedLayout 264 8).sectionAt (linkedFile 264 8)
    (linkedLayout 264 8).counts.sectionNamesIndex).shOffset = 248 := by
  decide +kernel

/-- Another offset and size in the sample's header is such a change. -/
theorem linked_change {offset size : ℕ} (hsize : (linkedFile offset size).size = 272)
    (hdiffer : ∀ i < 272, (linkedFile offset size).byte i ≠ (linkedFile 264 8).byte i →
      144 ≤ i ∧ i < 160) :
    DebuglinkChange (linkedFile 264 8) (linkedFile offset size) (linkedLayout 264 8) 0 where
  bound := by decide
  named := by decide +kernel
  type := by decide +kernel
  notCount _ := by decide
  notNames := by decide
  notStrings _ htable := nomatch htable
  size := hsize.trans linked_size.symm
  differ i hi hne := by
    rw [linked_size] at hi
    obtain ⟨hlow, hhigh⟩ := hdiffer i hi hne
    refine ⟨Or.inl (Or.inl ⟨hlow, hhigh⟩), ?_⟩
    intro hused
    cases hused with
    | header h =>
        unfold headerSize at h
        omega
    | programHeader k hk hlow' hhigh' =>
        have hlow' : 64 + k * 56 ≤ i := hlow'
        have hhigh' : i < 64 + k * 56 + 56 := hhigh'
        have hk : k < 1 := hk
        omega
    | sectionHeader k hk hother hlow' hhigh' =>
        have hlow' : 120 + k * 64 ≤ i := hlow'
        have hk : k < 2 := hk
        omega
    | ownHeader _ _ hfields =>
        have hfields : i < 144 ∨ 160 ≤ i := hfields
        omega
    | names hlow' =>
        rw [linked_names] at hlow'
        omega
    | table _ htable => cases htable
    | strings _ htable => cases htable
    | note _ hnote => cases hnote

/-- A debug link without a terminator changes nothing else. -/
theorem debuglink_never_hides_unterminated :
    Unharmed linkedImage (linkedFile 268 4) ∧ SoundReads (linkedFile 268 4) := by
  have hlayout : elfLayout (linkedFile 268 4) = .ok (linkedLayout 268 4) := by decide +kernel
  refine (debuglink_never_hides (by decide +kernel) linked_layout linked_image
    (linked_change (by decide +kernel) (by decide +kernel))).mpr ?_
  intro debuglink ⟨layout, hother, hlink⟩
  obtain rfl := Except.ok.inj (hlayout.symm.trans hother)
  obtain rfl := Option.some.inj hlink
  exact fun hwraps => absurd hwraps.2.1 (by decide)

/-- An offset and size that wrap hide the image. -/
theorem debuglink_wraps : ¬ ∀ (f g : Buffer) (layout : ElfLayout) (s : ℕ) (image : ElfImage),
    f.size < 2 ^ 64 → elfLayout f = .ok layout → elfImage f = .ok image →
    DebuglinkChange f g layout s → Unharmed image g ∧ SoundReads g := by
  intro hclaim
  obtain ⟨⟨image, himage, -⟩, -⟩ := hclaim _ _ _ _ _ (by decide +kernel) linked_layout linked_image
    (@linked_change (2 ^ 64 - 8) 16 (by decide +kernel) (by decide +kernel))
  have hfails : elfImage (linkedFile (2 ^ 64 - 8) 16) =
      .error (.image "the ELF image is truncated") := by decide +kernel
  cases hfails.symm.trans himage

end Sample

end Noleax.Elf
