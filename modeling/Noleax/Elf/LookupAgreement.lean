import Noleax.Elf.Debuglink
import Noleax.Elf.SymbolLookup
import Noleax.Elf.SymbolScanExact

/-!
# The two symbol lookups (`analyzer/elf_image.cpp`, `agent/linux/elf_symbol_lookup.cpp`)

Both lookups search the definitions of a name in the first table that has one. The controller
returns the first non-local one, the agent the first, so they differ where a local definition
comes before a non-local one of another value. Their tables differ only where the first section
of a kind is empty or has entries that are too large for the agent.
-/

namespace Noleax.Elf

open Lib

/-! ## The controller's choice -/

/-- Of the definitions, the first non-local one, or else the first. -/
def preferredBy {α : Type} (binding : α → ℕ) (defs : List α) : Option α :=
  (defs.find? fun symbol => binding symbol ≠ stbLocal).or defs.head?

section Preferred

variable {name : Bytes} {symbols : List ElfSymbol}

theorem preferredBy_map {α β : Type} (binding : β → ℕ) (f : α → β) (defs : List α) :
    preferredBy binding (defs.map f) =
      (preferredBy (fun symbol => binding (f symbol)) defs).map f := by
  unfold preferredBy
  rw [List.find?_map, List.head?_map, Option.map_or]
  rfl

/-- Once a definition is kept, only a local one gives way, to the first non-local one. -/
theorem foldl_keepDefinition (current : ElfSymbol) :
    symbols.foldl (keepDefinition name) (some current) =
      if current.binding = stbLocal then
        ((symbols.filter fun symbol => Defines name symbol).find? fun symbol =>
          symbol.binding ≠ stbLocal).or (some current)
      else some current := by
  induction symbols generalizing current with
  | nil =>
      split
      · rfl
      · rfl
  | cons symbol symbols ih =>
      rw [List.foldl_cons]
      by_cases hdefines : Defines name symbol
      · rw [List.filter_cons_of_pos (by simpa using hdefines), List.find?_cons]
        have hkeep : keepDefinition name (some current) symbol =
            if current.binding = stbLocal ∧ symbol.binding ≠ stbLocal then some symbol
            else some current := if_neg (not_not.mpr hdefines)
        rw [hkeep]
        by_cases hlocal : current.binding = stbLocal
        · by_cases hglobal : symbol.binding = stbLocal
          · rw [if_neg (fun h => h.2 hglobal), ih, if_pos hlocal, if_pos hlocal]
            simp [hglobal]
          · rw [if_pos ⟨hlocal, hglobal⟩, ih, if_neg hglobal, if_pos hlocal]
            simp [hglobal]
        · rw [if_neg (fun h => hlocal h.1), ih, if_neg hlocal, if_neg hlocal]
      · rw [List.filter_cons_of_neg (by simpa using hdefines)]
        have hkeep : keepDefinition name (some current) symbol = some current := if_pos hdefines
        rw [hkeep, ih]

/-- The loop of `find_symbol` returns the preferred definition. -/
theorem findDefinition_eq :
    findDefinition name symbols =
      preferredBy (·.binding) (symbols.filter fun symbol => Defines name symbol) := by
  unfold findDefinition
  induction symbols with
  | nil => rfl
  | cons symbol symbols ih =>
      rw [List.foldl_cons]
      by_cases hdefines : Defines name symbol
      · have hkeep : keepDefinition name none symbol = some symbol := if_neg (not_not.mpr hdefines)
        rw [hkeep, foldl_keepDefinition, List.filter_cons_of_pos (by simpa using hdefines)]
        unfold preferredBy
        rw [List.find?_cons, List.head?_cons]
        by_cases hlocal : symbol.binding = stbLocal
        · simp [hlocal]
        · simp [hlocal]
      · have hkeep : keepDefinition name none symbol = none := if_pos hdefines
        rw [hkeep, List.filter_cons_of_neg (by simpa using hdefines), ih]

end Preferred

/-! ## The controller's tables -/

/-- The symbol that an entry becomes. -/
def symbolOf (file : Buffer) (span : SymbolTableSpan) (origin : SymbolTable)
    (entry : Elf64Sym) : ElfSymbol where
  name := if entry.stName = 0 then [] else (nameAt file span entry.stName).getD []
  value := entry.stValue
  size := entry.stSize
  sectionIndex := entry.stShndx
  type := entry.stInfo % 16
  binding := entry.stInfo / 16
  table := origin

section Tables

variable {file : Buffer} {span : SymbolTableSpan} {origin : SymbolTable}

/-- The name of an entry is inside of the string table. -/
def Named (file : Buffer) (span : SymbolTableSpan) (entry : Elf64Sym) : Prop :=
  entry.stName ≠ 0 → ∃ name, nameAt file span entry.stName = some name

theorem slice_drop {offset count start : ℕ} :
    (file.slice offset count).drop start = file.slice (offset + start) (count - start) := by
  unfold Buffer.slice
  rw [← List.map_drop]
  apply List.ext_getElem
  · simp
  · intro i _ _
    simp [Nat.add_assoc]

theorem ofBytes_slice {offset count start width : ℕ} (h : start + width ≤ count) :
    (Buffer.ofBytes (file.slice offset count)).slice start width =
      file.slice (offset + start) width := by
  apply Buffer.slice_congr
  intro i hi
  show (file.slice offset count).getD (start + i) 0 = _
  rw [List.getD_eq_getElem _ _ (by rw [Buffer.slice_length]; omega), Buffer.slice_getElem,
    Nat.add_assoc]

theorem readSymbolName_eq_ok {nameOffset : ℕ} {name : Bytes} :
    readSymbolName (file.slice span.stringsOffset span.stringsSize) nameOffset = .ok name ↔
      (nameOffset ≠ 0 → ∃ found, nameAt file span nameOffset = some found) ∧
        name = if nameOffset = 0 then [] else (nameAt file span nameOffset).getD [] := by
  unfold readSymbolName
  by_cases hzero : nameOffset = 0
  · rw [if_pos hzero, if_pos hzero, Except.ok.injEq, eq_comm]
    exact (and_iff_right fun h => absurd hzero h).symm
  · rw [if_neg hzero, if_neg hzero, failIf_bind_eq_ok, Buffer.slice_length, slice_drop]
    unfold nameAt
    cases hname : terminated (file.slice (span.stringsOffset + nameOffset)
        (span.stringsSize - nameOffset)) with
    | none => simp [hzero]
    | some found =>
        have hinside : ¬ span.stringsSize ≤ nameOffset := by
          intro hout
          rw [Nat.sub_eq_zero_of_le hout] at hname
          cases hname
        simp [hinside, eq_comm]

theorem readSymbol_eq_ok {entries : Bytes} {offset : ℕ} {symbol : ElfSymbol} {entry : Elf64Sym}
    (hentry : symbolAt (.ofBytes entries) offset = entry) :
    readSymbol (file.slice span.stringsOffset span.stringsSize) entries offset origin = .ok symbol ↔
      Named file span entry ∧ symbol = symbolOf file span origin entry := by
  show (readSymbolName _ (symbolAt (.ofBytes entries) offset).stName >>= fun _ => _) = _ ↔ _
  rw [hentry, bind_eq_ok]
  constructor
  · intro ⟨name, hname, hsymbol⟩
    obtain ⟨hnamed, rfl⟩ := readSymbolName_eq_ok.mp hname
    exact ⟨hnamed, (Except.ok.inj hsymbol).symm⟩
  · intro ⟨hnamed, hsymbol⟩
    exact ⟨_, readSymbolName_eq_ok.mpr ⟨hnamed, rfl⟩, congrArg Except.ok hsymbol.symm⟩

/-- An entry defines the name for one lookup when it does for the other. -/
theorem defines_symbolOf {wanted : Bytes} {entry : Elf64Sym} (hwanted : wanted ≠ [])
    (hnamed : Named file span entry) :
    Defines wanted (symbolOf file span origin entry) ↔ Hit file span wanted entry := by
  show entry.stShndx ≠ shnUndef ∧ _ = wanted ↔ _
  unfold Hit symbolOf
  by_cases hzero : entry.stName = 0
  · rw [if_pos hzero]
    exact iff_of_false (fun h => hwanted h.2.symm) fun h => h.2.1 hzero
  · obtain ⟨name, hname⟩ := hnamed hzero
    rw [if_neg hzero, hname, Option.getD_some, Option.some.injEq]
    exact and_congr_right fun _ => (and_iff_right hzero).symm

end Tables

/-- The table of a header, as the controller reads it. -/
def tableSpan (file : Buffer) (layout : ElfLayout) (table : Elf64Shdr) : SymbolTableSpan where
  offset := table.shOffset
  size := table.shSize
  entrySize := table.shEntsize
  stringsOffset := (layout.sectionAt file table.shLink).shOffset
  stringsSize := (layout.sectionAt file table.shLink).shSize

/-- The table that the controller searches, when it is there and not empty. -/
def controllerSpan (file : Buffer) (layout : ElfLayout) (table : Option Elf64Shdr) :
    Option SymbolTableSpan :=
  (table.filter fun header => header.shSize ≠ 0).map (tableSpan file layout)

/-- The controller read the table: what it checked, and that every name is inside. -/
structure TableRead (file : Buffer) (layout : ElfLayout) (table : Elf64Shdr) : Prop where
  entry : symbolSize ≤ table.shEntsize
  link : table.shLink < layout.counts.sectionCount
  linked : (layout.sectionAt file table.shLink).shType = shtStrtab
  strings : (layout.sectionAt file table.shLink).shOffset +
    (layout.sectionAt file table.shLink).shSize ≤ file.size
  entries : table.shOffset + table.shSize ≤ file.size
  named : ∀ index < table.shSize / table.shEntsize,
    Named file (tableSpan file layout table) (entryAt file (tableSpan file layout table) index)

section Parse

variable {file : Buffer} {layout : ElfLayout} {origin : SymbolTable} {symbols : List ElfSymbol}

/-- The symbols of a table are its entries. -/
theorem parseSymbolTable_ok {table : Elf64Shdr} (hsize : table.shSize ≠ 0)
    (h : parseSymbolTable file table layout.header.eShoff layout.header.eShentsize
      layout.counts.sectionCount origin = .ok symbols) :
    TableRead file layout table ∧
      symbols = ((List.range (table.shSize / table.shEntsize)).map
        (entryAt file (tableSpan file layout table))).map
          (symbolOf file (tableSpan file layout table) origin) := by
  have h := (if_neg hsize).symm.trans h
  obtain ⟨hentry, h⟩ := failIf_bind_eq_ok.mp h
  obtain ⟨_, -, h⟩ := bind_eq_ok.mp h
  obtain ⟨hlink, h⟩ := failIf_bind_eq_ok.mp h
  obtain ⟨header, hheader, h⟩ := bind_eq_ok.mp h
  obtain ⟨hlinked, h⟩ := failIf_bind_eq_ok.mp h
  obtain ⟨strings, hstrings, h⟩ := bind_eq_ok.mp h
  obtain ⟨entries, hentries, h⟩ := bind_eq_ok.mp h
  obtain rfl : layout.sectionAt file table.shLink = header := (readSection_eq_ok.mp hheader).2
  obtain ⟨hinside, rfl⟩ := readBytes_eq_ok.mp hstrings
  obtain ⟨hinside', rfl⟩ := readBytes_eq_ok.mp hentries
  have hlow : 24 ≤ table.shEntsize := Nat.not_lt.mp hentry
  have hentryAt : ∀ index ∈ List.range (table.shSize / table.shEntsize),
      symbolAt (.ofBytes (file.slice table.shOffset table.shSize)) (index * table.shEntsize) =
        entryAt file (tableSpan file layout table) index := by
    intro index hindex
    have hlast : index * table.shEntsize + symbolSize ≤ table.shSize := by
      have hcount := Nat.div_mul_le_self table.shSize table.shEntsize
      have hnext := Nat.mul_le_mul_right table.shEntsize (List.mem_range.mp hindex)
      rw [Nat.succ_mul] at hnext
      exact Nat.le_trans (Nat.add_le_add_left hlow _) (Nat.le_trans hnext hcount)
    exact symbolAt_congr (ofBytes_slice hlast)
  have hread : ∀ index ∈ List.range (table.shSize / table.shEntsize), ∀ symbol,
      readSymbol (file.slice (tableSpan file layout table).stringsOffset
          (tableSpan file layout table).stringsSize)
        (file.slice table.shOffset table.shSize) (index * table.shEntsize) origin = .ok symbol ↔
      Named file (tableSpan file layout table)
          (entryAt file (tableSpan file layout table) index) ∧
        symbolOf file (tableSpan file layout table) origin
          (entryAt file (tableSpan file layout table) index) = symbol := by
    intro index hindex symbol
    rw [readSymbol_eq_ok (hentryAt index hindex), eq_comm (a := symbol)]
  obtain ⟨hnamed, hsymbols⟩ := (mapM_eq_ok hread).mp h
  refine ⟨⟨hlow, Nat.lt_of_not_le hlink, not_not.mp hlinked, hinside, hinside', ?_⟩, ?_⟩
  · intro index hindex
    exact hnamed index (List.mem_range.mpr hindex)
  · rw [List.map_map]
    exact hsymbols.symm

/-- The definitions among the symbols of a table are the hits among its entries. -/
theorem findDefinition_hits {table : Option Elf64Shdr} {name : Bytes} (hname : name ≠ [])
    (h : parseOptional file table layout.header.eShoff layout.header.eShentsize
      layout.counts.sectionCount origin = .ok symbols) :
    (findDefinition name symbols).map (·.value) =
      (preferredBy Elf64Sym.binding (hits file name (controllerSpan file layout table))).map
        (·.stValue) := by
  rw [findDefinition_eq]
  cases table with
  | none =>
      cases h
      rfl
  | some header =>
      by_cases hsize : header.shSize = 0
      · have hnone : controllerSpan file layout (some header) = none := by
          simp [controllerSpan, hsize]
        have h := (if_pos hsize).symm.trans h
        cases h
        rw [hnone]
        rfl
      · have hsome : controllerSpan file layout (some header) =
            some (tableSpan file layout header) := by
          simp [controllerSpan, hsize]
        obtain ⟨hread, rfl⟩ := parseSymbolTable_ok hsize h
        rw [hsome, List.filter_map, preferredBy_map, Option.map_map]
        show Option.map (·.stValue) (preferredBy Elf64Sym.binding _) = _
        congr 2
        apply List.filter_congr
        intro entry hentry
        obtain ⟨index, hindex, rfl⟩ := List.mem_map.mp hentry
        exact decide_eq_decide.mpr
          (defines_symbolOf hname (hread.named index (List.mem_range.mp hindex)))

end Parse

/-- `find_symbol` returns the preferred definition in the first table that has one. -/
theorem findSymbol_eq {file : Buffer} {layout : ElfLayout} {image : ElfImage}
    (hlayout : elfLayout file = .ok layout) (himage : elfImage file = .ok image)
    {name : Bytes} (hname : name ≠ []) :
    (image.findSymbol name).map (·.value) =
      (preferredBy Elf64Sym.binding (definitions file name
        (controllerSpan file layout layout.scan.symtab)
        (controllerSpan file layout layout.scan.dynsym))).map (·.stValue) := by
  obtain ⟨layout', hlayout', himage⟩ := bind_eq_ok.mp himage
  obtain rfl : layout' = layout := Except.ok.inj (hlayout'.symm.trans hlayout)
  obtain ⟨debuglink, -, himage⟩ := bind_eq_ok.mp himage
  obtain ⟨symtab, hsymtab, himage⟩ := bind_eq_ok.mp himage
  obtain ⟨dynsym, hdynsym, himage⟩ := bind_eq_ok.mp himage
  obtain ⟨buildId, -, himage⟩ := bind_eq_ok.mp himage
  obtain rfl := Except.ok.inj himage
  have hfirst := findDefinition_hits hname hsymtab
  have hsecond := findDefinition_hits hname hdynsym
  unfold ElfImage.findSymbol definitions
  rw [if_neg hname]
  cases hhits : hits file name (controllerSpan file layout' layout'.scan.symtab) with
  | nil =>
      rw [hhits] at hfirst
      rw [if_pos rfl, Option.map_eq_none_iff.mp hfirst]
      exact hsecond
  | cons entry entries =>
      rw [hhits] at hfirst
      rw [if_neg (List.cons_ne_nil _ _)]
      have hsome : ∃ chosen, preferredBy Elf64Sym.binding (entry :: entries) = some chosen := by
        unfold preferredBy
        cases (entry :: entries).find? fun symbol => symbol.binding ≠ stbLocal with
        | none => exact ⟨entry, rfl⟩
        | some chosen => exact ⟨chosen, rfl⟩
      obtain ⟨chosen, hchosen⟩ := hsome
      rw [hchosen] at hfirst ⊢
      obtain ⟨symbol, hsymbol, hvalue⟩ := Option.map_eq_some_iff.mp hfirst
      rw [hsymbol]
      exact congrArg some hvalue

/-! ## The agent -/

section Agent

variable {file : Buffer} {parsed : ParsedElf} {wanted : Bytes}

/-- The tables of a parsed file are spans of its sections. -/
structure ParsedElf.Spans (file : Buffer) (parsed : ParsedElf) : Prop where
  symtab : ∀ span ∈ parsed.symtab, ∃ header,
    symbolTableSpan file parsed.sections header = some span
  dynsym : ∀ span ∈ parsed.dynsym, ∃ header,
    symbolTableSpan file parsed.sections header = some span

theorem ParsedElf.Spans.step (h : parsed.Spans file) (header : Elf64Shdr) :
    (parsed.step file header).Spans file := by
  unfold ParsedElf.step
  split_ifs
  · exact ⟨fun span hspan => ⟨header, hspan⟩, h.dynsym⟩
  · exact ⟨h.symtab, fun span hspan => ⟨header, hspan⟩⟩
  · exact h

theorem ParsedElf.Spans.run (h : parsed.Spans file) (headers : List Elf64Shdr) :
    (headers.foldl (ParsedElf.step file) parsed).Spans file := by
  induction headers generalizing parsed with
  | nil => exact h
  | cons header headers ih => exact ih (h.step header)

/-- What `parse_elf` accepted. -/
theorem parseElf_eq_some (h : parseElf file = some parsed) :
    AgentHeader (headerAt file) ∧ ∃ count, agentSectionCount file (headerAt file) = some count ∧
      count ≠ 0 ∧ SpanInside file (headerAt file).eShoff (count * sectionHeaderSize) ∧
      parsed = (agentSections file (headerAt file).eShoff count).foldl (ParsedElf.step file)
        { sections := agentSections file (headerAt file).eShoff count } := by
  unfold parseElf at h
  by_cases hheader : ¬ SpanInside file 0 headerSize ∨ ¬ AgentHeader (headerAt file)
  · cases (if_pos hheader).symm.trans h
  · have h := (if_neg hheader).symm.trans h
    rw [not_or, not_not, not_not] at hheader
    refine ⟨hheader.2, ?_⟩
    cases hcount : agentSectionCount file (headerAt file) with
    | none =>
        rw [hcount] at h
        cases h
    | some count =>
        rw [hcount] at h
        by_cases hbad : count = 0 ∨ maximumSectionCount < count ∨
            ¬ SpanInside file (headerAt file).eShoff (count * sectionHeaderSize)
        · cases (if_pos hbad).symm.trans h
        · have h := (if_neg hbad).symm.trans h
          rw [not_or, not_or, not_not] at hbad
          exact ⟨count, rfl, hbad.1, hbad.2.2, (Option.some.inj h).symm⟩

theorem parseElf_spans (h : parseElf file = some parsed) : parsed.Spans file := by
  obtain ⟨-, count, -, -, -, rfl⟩ := parseElf_eq_some h
  exact ParsedElf.Spans.run ⟨fun span hspan => absurd hspan (Option.not_mem_none span),
    fun span hspan => absurd hspan (Option.not_mem_none span)⟩ _

/-- The scan of an accepted table finds the first definition. -/
theorem scanOptional_eq (hfile : file.size < 2 ^ 63) {span : Option SymbolTableSpan}
    {sections : List Elf64Shdr}
    (hspan : ∀ table ∈ span, ∃ header, symbolTableSpan file sections header = some table)
    (hlength : wanted.length ≤ maximumSymbolNameSize) (hwanted : 0 ∉ wanted) :
    scanOptional file span wanted = .ok ((hits file wanted span).head?.map (·.stValue)) := by
  cases span with
  | none => rfl
  | some table =>
      obtain ⟨header, htable⟩ := hspan table rfl
      show scanSymbolTable file table wanted = _
      rw [scanSymbolTable_eq (accepted_of_span htable) hfile hlength hwanted]
      unfold wholeTableScan firstHit hits
      rw [← List.head?_filter, ← List.range_eq_range']

/-- `find_elf_symbol_vaddr` returns the first definition in the first table that has one. -/
theorem findElfSymbolVaddr_eq (hfile : file.size < 2 ^ 63) (hparsed : parseElf file = some parsed)
    (hname : wanted ≠ []) (hlength : wanted.length ≤ maximumSymbolNameSize) (hwanted : 0 ∉ wanted) :
    findElfSymbolVaddr file none wanted =
      .ok ((definitions file wanted parsed.symtab parsed.dynsym).head?.map (·.stValue)) := by
  have hspans := parseElf_spans hparsed
  have hfirst := scanOptional_eq hfile hspans.symtab hlength hwanted
  have hsecond := scanOptional_eq hfile hspans.dynsym hlength hwanted
  have hin : findSymbolIn file parsed wanted =
      .ok ((definitions file wanted parsed.symtab parsed.dynsym).head?.map (·.stValue)) := by
    unfold findSymbolIn definitions
    rw [hfirst, ok_bind]
    cases hhits : hits file wanted parsed.symtab with
    | nil =>
        rw [if_pos rfl]
        exact hsecond
    | cons entry entries =>
        rw [if_neg (List.cons_ne_nil _ _)]
        rfl
  unfold findElfSymbolVaddr
  rw [if_neg (not_or.mpr ⟨hname, Nat.not_lt.mpr hlength⟩), hparsed]
  show (findSymbolIn file parsed wanted >>= fun _ => _) = _
  rw [hin, ok_bind]
  cases (definitions file wanted parsed.symtab parsed.dynsym).head?.map (·.stValue) with
  | none =>
      show Except.ok (if parsed.symtab ≠ none then none else none) = _
      rw [ite_self]
  | some value => rfl

end Agent

/-! ## The tables -/

section SameTables

variable {file : Buffer} {layout : ElfLayout} {parsed : ParsedElf}

/-- Both lookups search the same tables. -/
def SameTables (file : Buffer) (layout : ElfLayout) (parsed : ParsedElf) : Prop :=
  controllerSpan file layout layout.scan.symtab = parsed.symtab ∧
    controllerSpan file layout layout.scan.dynsym = parsed.dynsym

instance (file : Buffer) (layout : ElfLayout) (parsed : ParsedElf) :
    Decidable (SameTables file layout parsed) :=
  inferInstanceAs (Decidable (_ ∧ _))

/-- The agent can use the table: it has entries, of at most the size the agent reads. -/
def UsableTable (table : Option Elf64Shdr) : Prop :=
  ∀ header ∈ table, header.shSize ≠ 0 ∧ header.shEntsize ≤ maximumSymbolEntrySize

/-- A field that a loop sets once is the first that any round offers. -/
theorem foldl_first {σ α β : Type} {step : σ → α → σ} {field : σ → Option β}
    {offer : α → Option β} {Inv : σ → Prop} (hinv : ∀ s a, Inv s → Inv (step s a))
    (hstep : ∀ s a, Inv s → field (step s a) = (field s).or (offer a)) (xs : List α) {s : σ}
    (hs : Inv s) : field (xs.foldl step s) = (field s).or (xs.findSome? offer) := by
  induction xs generalizing s with
  | nil => exact Option.or_none.symm
  | cons x xs ih =>
      rw [List.foldl_cons, ih (hinv s x hs), hstep s x hs, Option.or_assoc, List.findSome?_cons]
      cases offer x with
      | none => rfl
      | some found => rfl

/-- The header, when it is of the type. -/
def ofType (type : ℕ) (header : Elf64Shdr) : Option Elf64Shdr :=
  if header.shType = type then some header else none

theorem step_symtab (names : Bytes) (scan : SectionScan) (header : Elf64Shdr) :
    (scan.step names header).symtab = scan.symtab.or (ofType shtSymtab header) := by
  unfold SectionScan.step ofType
  by_cases htype : header.shType = shtSymtab
  · have hother : shtSymtab ≠ shtDynsym ∧ shtSymtab ≠ shtNote := by decide
    cases hscan : scan.symtab with
    | none => simp [htype]
    | some first =>
        simp only [htype, hother.1, hother.2, reduceCtorEq, and_false, false_and, if_false, if_true]
        split_ifs
        · rfl
        · exact hscan
  · rw [if_neg fun h => htype h.1, if_neg htype, Option.or_none]
    split_ifs
    · rfl
    · rfl
    · rfl
    · rfl

theorem step_dynsym (names : Bytes) (scan : SectionScan) (header : Elf64Shdr) :
    (scan.step names header).dynsym = scan.dynsym.or (ofType shtDynsym header) := by
  unfold SectionScan.step ofType
  by_cases htype : header.shType = shtDynsym
  · have hother : shtDynsym ≠ shtSymtab ∧ shtDynsym ≠ shtNote := by decide
    cases hscan : scan.dynsym with
    | none => simp [htype, hother.1]
    | some first =>
        simp only [htype, hother.1, hother.2, reduceCtorEq, and_false, false_and, if_false, if_true]
        split_ifs
        · rfl
        · exact hscan
  · rw [if_neg (c := header.shType = shtDynsym ∧ scan.dynsym = none) fun h => htype h.1,
      if_neg htype, Option.or_none]
    split_ifs
    · rfl
    · rfl
    · rfl
    · rfl

/-- The section loop of the controller goes through the section headers. -/
theorem scanSections_eq {scan : SectionScan}
    (h : scanSections file layout.header layout.names layout.counts.sectionCount = .ok scan) :
    scan = ((List.range layout.counts.sectionCount).map (layout.sectionAt file)).foldl
      (SectionScan.step layout.names) {} := by
  unfold scanSections at h
  generalize List.range layout.counts.sectionCount = indices at h
  generalize ({} : SectionScan) = first at h
  induction indices generalizing first with
  | nil => exact (Except.ok.inj h).symm
  | cons index indices ih =>
      rw [List.foldlM_cons] at h
      obtain ⟨next, hnext, h⟩ := bind_eq_ok.mp h
      obtain ⟨header, hheader, hnext⟩ := bind_eq_ok.mp hnext
      obtain rfl := Except.ok.inj hnext
      obtain ⟨-, rfl⟩ := readSection_eq_ok.mp hheader
      exact ih _ h

/-- Both lookups count the sections alike. -/
theorem sectionCount_eq (hheader : AgentHeader layout.header)
    (hcontroller : tableCounts file layout.header = .ok layout.counts) {count : ℕ}
    (hagent : agentSectionCount file layout.header = some count) :
    layout.counts.sectionCount = count := by
  have hoffset : layout.header.eShoff ≠ 0 := hheader.2.2.2.2.2.2.2.1
  unfold tableCounts at hcontroller
  unfold agentSectionCount at hagent
  by_cases hnone : layout.header.eShnum = 0
  · rw [if_pos ⟨hoffset, Or.inl hnone⟩] at hcontroller
    rw [if_pos (Or.inl hnone), if_pos hnone] at hagent
    obtain ⟨first, hfirst, hcounts⟩ := bind_eq_ok.mp hcontroller
    obtain ⟨-, rfl⟩ := readSection_eq_ok.mp hfirst
    split at hagent
    · rw [← Except.ok.inj hcounts, ← Option.some.inj hagent]
      exact if_pos hnone
    · cases hagent
  · have hcount : count = layout.header.eShnum := by
      split at hagent
      · split at hagent
        · exact (Option.some.inj hagent).symm
        · cases hagent
      · exact (Option.some.inj hagent).symm
    rw [hcount]
    split at hcontroller
    · obtain ⟨first, -, hcounts⟩ := bind_eq_ok.mp hcontroller
      rw [← Except.ok.inj hcounts]
      exact if_neg hnone
    · rw [← Except.ok.inj hcontroller]

theorem agentSections_eq (hheader : AgentHeader layout.header) (count : ℕ) :
    agentSections file layout.header.eShoff count =
      (List.range count).map (layout.sectionAt file) := by
  unfold agentSections
  apply List.map_congr_left
  intro index _
  rw [ElfLayout.sectionAt, Elf64Ehdr.sectionOffset, hheader.2.2.2.2.2.2.2.2]

theorem parsed_step_sections (header : Elf64Shdr) :
    (parsed.step file header).sections = parsed.sections := by
  unfold ParsedElf.step
  split_ifs
  · rfl
  · rfl
  · rfl

/-- The span of a header, when it is of the type and the agent can use it. -/
def usableSpan (file : Buffer) (sections : List Elf64Shdr) (type : ℕ) (header : Elf64Shdr) :
    Option SymbolTableSpan :=
  if header.shType = type then symbolTableSpan file sections header else none

theorem parsed_step_symtab (header : Elf64Shdr) :
    (parsed.step file header).symtab =
      parsed.symtab.or (usableSpan file parsed.sections shtSymtab header) := by
  unfold ParsedElf.step usableSpan
  by_cases htype : header.shType = shtSymtab
  · have hother : shtSymtab ≠ shtDynsym := by decide
    cases hparsed : parsed.symtab with
    | none => simp [htype]
    | some first => simp [htype, hother, hparsed]
  · rw [if_neg fun h => htype h.1, if_neg htype, Option.or_none]
    split_ifs
    · rfl
    · rfl

theorem parsed_step_dynsym (header : Elf64Shdr) :
    (parsed.step file header).dynsym =
      parsed.dynsym.or (usableSpan file parsed.sections shtDynsym header) := by
  unfold ParsedElf.step usableSpan
  by_cases htype : header.shType = shtDynsym
  · have hother : shtDynsym ≠ shtSymtab := by decide
    cases hparsed : parsed.dynsym with
    | none => simp [htype, hother]
    | some first => simp [htype, hother, hparsed]
  · rw [if_neg (c := header.shType = shtDynsym ∧ parsed.dynsym = none) fun h => htype h.1,
      if_neg htype, Option.or_none]
    split_ifs
    · rfl
    · rfl

/-- A table that the controller read and the agent can use is the same table for the agent. -/
theorem symbolTableSpan_of_read {sections : List Elf64Shdr}
    (hsections : sections = (List.range layout.counts.sectionCount).map (layout.sectionAt file))
    {header : Elf64Shdr} (hread : TableRead file layout header) (hsize : header.shSize ≠ 0)
    (husable : header.shEntsize ≤ maximumSymbolEntrySize) :
    symbolTableSpan file sections header = some (tableSpan file layout header) := by
  have hgood : ¬ (header.shSize = 0 ∨ header.shEntsize < symbolSize ∨
      maximumSymbolEntrySize < header.shEntsize ∨
        ¬ SpanInside file header.shOffset header.shSize) := by
    rw [not_or, not_or, not_or, not_not, Nat.not_lt, Nat.not_lt]
    exact ⟨hsize, hread.entry, husable, spanInside_of_le hread.entries⟩
  have hlink : sections[header.shLink]? = some (layout.sectionAt file header.shLink) := by
    rw [hsections, List.getElem?_map, List.getElem?_range hread.link]
    rfl
  unfold symbolTableSpan
  rw [if_neg hgood, hlink]
  refine if_neg ?_
  rw [not_or, not_not, not_not]
  exact ⟨hread.linked, spanInside_of_le hread.strings⟩

/-- The first table of a kind is the same for both lookups when the agent can use it. -/
theorem firstSpan_eq {sections : List Elf64Shdr} {type : ℕ} {table : Option Elf64Shdr}
    (htable : table = sections.findSome? (ofType type)) (husable : UsableTable table)
    (hspan : ∀ header ∈ table,
      symbolTableSpan file sections header = some (tableSpan file layout header)) :
    controllerSpan file layout table = sections.findSome? (usableSpan file sections type) := by
  have hfirst : ∀ (rest : List Elf64Shdr), rest.findSome? (ofType type) = table →
      controllerSpan file layout table = rest.findSome? (usableSpan file sections type) := by
    intro rest
    induction rest with
    | nil =>
        intro h
        rw [← h]
        rfl
    | cons header rest ih =>
        intro h
        rw [List.findSome?_cons] at h ⊢
        by_cases htype : header.shType = type
        · have hoffer : ofType type header = some header := if_pos htype
          have hsome : some header = table := by rwa [hoffer] at h
          have hsize := (husable header hsome.symm).1
          have husableSpan : usableSpan file sections type header =
              some (tableSpan file layout header) := (if_pos htype).trans (hspan header hsome.symm)
          rw [← hsome, husableSpan]
          simp [controllerSpan, hsize]
        · have hoffer : ofType type header = none := if_neg htype
          have hnone : usableSpan file sections type header = none := if_neg htype
          rw [hoffer] at h
          rw [hnone]
          exact ih h
  exact hfirst sections htable.symm

/-- The controller read every table that has entries. -/
theorem tableRead_of_image {image : ElfImage} (hlayout : elfLayout file = .ok layout)
    (himage : elfImage file = .ok image) {header : Elf64Shdr}
    (htable : header ∈ layout.scan.symtab ∨ header ∈ layout.scan.dynsym)
    (hsize : header.shSize ≠ 0) : TableRead file layout header := by
  obtain ⟨layout', hlayout', himage⟩ := bind_eq_ok.mp himage
  obtain rfl : layout' = layout := Except.ok.inj (hlayout'.symm.trans hlayout)
  obtain ⟨debuglink, -, himage⟩ := bind_eq_ok.mp himage
  obtain ⟨symtab, hsymtab, himage⟩ := bind_eq_ok.mp himage
  obtain ⟨dynsym, hdynsym, himage⟩ := bind_eq_ok.mp himage
  cases htable with
  | inl hfirst =>
      rw [Option.mem_def.mp hfirst] at hsymtab
      exact (parseSymbolTable_ok hsize hsymtab).1
  | inr hsecond =>
      rw [Option.mem_def.mp hsecond] at hdynsym
      exact (parseSymbolTable_ok hsize hdynsym).1

/-- The lookups search the same tables when the first one of each kind has entries, of at most the
size the agent reads. -/
theorem sameTables_of_usable {image : ElfImage} (hlayout : elfLayout file = .ok layout)
    (himage : elfImage file = .ok image) (hparsed : parseElf file = some parsed)
    (hsymtab : UsableTable layout.scan.symtab) (hdynsym : UsableTable layout.scan.dynsym) :
    SameTables file layout parsed := by
  have hof := elfLayout_eq_ok.mp hlayout
  obtain ⟨hheader, count, hcount, -, -, hrun⟩ := parseElf_eq_some hparsed
  rw [← hof.header] at hheader hcount hrun
  have hcounts := sectionCount_eq hheader hof.counts hcount
  subst hcounts
  have hsections := @agentSections_eq file layout hheader layout.counts.sectionCount
  have hscan := scanSections_eq hof.scan
  rw [← hsections] at hscan
  generalize agentSections file layout.header.eShoff layout.counts.sectionCount = sections
    at hscan hsections hrun
  -- what each of the two loops sets
  have hfirst : layout.scan.symtab = sections.findSome? (ofType shtSymtab) := by
    rw [hscan]
    exact @foldl_first _ _ _ _ SectionScan.symtab _ (fun _ => True) (fun _ _ _ => trivial)
      (fun scan header _ => step_symtab layout.names scan header) sections _ trivial
  have hsecond : layout.scan.dynsym = sections.findSome? (ofType shtDynsym) := by
    rw [hscan]
    exact @foldl_first _ _ _ _ SectionScan.dynsym _ (fun _ => True) (fun _ _ _ => trivial)
      (fun scan header _ => step_dynsym layout.names scan header) sections _ trivial
  have hkeep (parsed : ParsedElf) (header : Elf64Shdr) (h : parsed.sections = sections) :
      (parsed.step file header).sections = sections := (parsed_step_sections header).trans h
  have hagent : parsed.symtab = sections.findSome? (usableSpan file sections shtSymtab) := by
    rw [hrun]
    exact @foldl_first _ _ _ _ ParsedElf.symtab _ (fun parsed => parsed.sections = sections) hkeep
      (fun parsed header h => h ▸ parsed_step_symtab header) sections _ rfl
  have hagent' : parsed.dynsym = sections.findSome? (usableSpan file sections shtDynsym) := by
    rw [hrun]
    exact @foldl_first _ _ _ _ ParsedElf.dynsym _ (fun parsed => parsed.sections = sections) hkeep
      (fun parsed header h => h ▸ parsed_step_dynsym header) sections _ rfl
  constructor
  · rw [hagent]
    refine firstSpan_eq hfirst hsymtab fun header htable => ?_
    obtain ⟨hsize, hentry⟩ := hsymtab header htable
    exact symbolTableSpan_of_read hsections
      (tableRead_of_image hlayout himage (Or.inl htable) hsize) hsize hentry
  · rw [hagent']
    refine firstSpan_eq hsecond hdynsym fun header htable => ?_
    obtain ⟨hsize, hentry⟩ := hdynsym header htable
    exact symbolTableSpan_of_read hsections
      (tableRead_of_image hlayout himage (Or.inr htable) hsize) hsize hentry

end SameTables

/-! ## When the lookups agree -/

section Agreement

variable {file : Buffer} {layout : ElfLayout} {parsed : ParsedElf} {image : ElfImage}
  {name : Bytes}

/-- The lookups find a symbol in the same cases, and of the same value. -/
def SameFunction (file : Buffer) (image : ElfImage) (name : Bytes) : Prop :=
  ∃ found, findElfSymbolVaddr file none name = .ok found ∧
    (image.resolveSymbol name).isSome = found.isSome ∧
    ∀ symbol, image.findSymbol name = some symbol → found = some symbol.value

/-- No local definition comes before the first non-local one, but with its value. -/
def FirstPreferred (defs : List Elf64Sym) : Prop :=
  ∀ first, defs.head? = some first → ∀ other,
    (defs.find? fun symbol => symbol.binding ≠ stbLocal) = some other →
      first.stValue = other.stValue

theorem firstPreferred_iff {defs : List Elf64Sym} :
    (preferredBy Elf64Sym.binding defs).map (·.stValue) = defs.head?.map (·.stValue) ↔
      FirstPreferred defs := by
  unfold preferredBy FirstPreferred
  cases defs with
  | nil => exact iff_of_true rfl (fun _ h => nomatch h)
  | cons first rest =>
      rw [List.head?_cons]
      cases (first :: rest).find? fun symbol => symbol.binding ≠ stbLocal with
      | none => exact iff_of_true rfl (fun _ _ _ h => nomatch h)
      | some other =>
          show some other.stValue = some first.stValue ↔ _
          rw [Option.some.injEq]
          constructor
          · intro h found hfound chosen hchosen
            cases hfound
            cases hchosen
            exact h.symm
          · intro h
            exact (h first rfl other rfl).symm

theorem sameFunction_iff {found : Option ℕ}
    (hfound : findElfSymbolVaddr file none name = .ok found) :
    SameFunction file image name ↔ (image.findSymbol name).map (·.value) = found := by
  unfold SameFunction ElfImage.resolveSymbol
  rw [hfound]
  constructor
  · intro ⟨other, hother, hsome, hvalue⟩
    obtain rfl := Except.ok.inj hother
    cases hsymbol : image.findSymbol name with
    | none =>
        rw [hsymbol] at hsome
        exact (Option.not_isSome_iff_eq_none.mp (by rw [← hsome]; exact nofun)).symm
    | some symbol => exact (hvalue symbol hsymbol).symm
  · intro h
    refine ⟨found, rfl, ?_, ?_⟩
    · rw [← h, Option.isSome_map, Option.isSome_map]
    · intro symbol hsymbol
      rw [← h, hsymbol]
      rfl

/-- Where both lookups search the same tables, they agree exactly when the first definition, in
the first table that has one, has the value of the first non-local one, or none is non-local.
Elsewhere they agree when their choices, each in its own tables, have one value. The tables are
the same when the first of each kind has entries that the agent reads. -/
theorem lookups_agree (hfile : file.size < 2 ^ 63) (hlayout : elfLayout file = .ok layout)
    (himage : elfImage file = .ok image) (hparsed : parseElf file = some parsed)
    (hname : name ≠ []) (hlength : name.length ≤ maximumSymbolNameSize) (hzero : 0 ∉ name) :
    (SameFunction file image name ↔
      (SameTables file layout parsed ∧
        FirstPreferred (definitions file name parsed.symtab parsed.dynsym)) ∨
      (¬ SameTables file layout parsed ∧
        (preferredBy Elf64Sym.binding (definitions file name
          (controllerSpan file layout layout.scan.symtab)
          (controllerSpan file layout layout.scan.dynsym))).map (·.stValue) =
        (definitions file name parsed.symtab parsed.dynsym).head?.map (·.stValue))) ∧
    (UsableTable layout.scan.symtab → UsableTable layout.scan.dynsym →
      SameTables file layout parsed) := by
  refine ⟨?_, sameTables_of_usable hlayout himage hparsed⟩
  rw [sameFunction_iff (findElfSymbolVaddr_eq hfile hparsed hname hlength hzero),
    findSymbol_eq hlayout himage hname]
  by_cases hsame : SameTables file layout parsed
  · rw [hsame.1, hsame.2, firstPreferred_iff]
    simp [hsame]
  · simp [hsame]

end Agreement

section Aliases

/-- A shared object whose `.symtab` has two definitions of `f`, at 16 and at 32, with the `st_info`
given. -/
def aliasFile (info info' : ℕ) : Buffer := .ofBytes (
  [0x7f, 0x45, 0x4c, 0x46, 2, 1, 1] ++ List.replicate 9 0 ++
  littleEndian 2 etDyn ++ littleEndian 2 emX8664 ++ littleEndian 4 1 ++ littleEndian 8 0 ++
  littleEndian 8 64 ++ littleEndian 8 120 ++ littleEndian 4 0 ++ littleEndian 2 64 ++
  littleEndian 2 56 ++ littleEndian 2 1 ++ littleEndian 2 64 ++ littleEndian 2 2 ++
  littleEndian 2 0 ++ (littleEndian 4 ptLoad ++ List.replicate 52 0) ++
  (littleEndian 4 0 ++ littleEndian 4 shtSymtab ++ List.replicate 16 0 ++ littleEndian 8 252 ++
    littleEndian 8 48 ++ littleEndian 4 1 ++ List.replicate 12 0 ++ littleEndian 8 24) ++
  (littleEndian 4 0 ++ littleEndian 4 shtStrtab ++ List.replicate 16 0 ++ littleEndian 8 248 ++
    littleEndian 8 3 ++ List.replicate 24 0) ++
  [0, 0x66, 0, 0] ++
  (littleEndian 4 1 ++ littleEndian 2 info ++ littleEndian 2 1 ++ littleEndian 8 16 ++
    littleEndian 8 4) ++
  (littleEndian 4 1 ++ littleEndian 2 info' ++ littleEndian 2 1 ++ littleEndian 8 32 ++
    littleEndian 8 4))

def aliasTable : Elf64Shdr := ⟨0, shtSymtab, 252, 48, 1, 0, 24⟩

def aliasSpan : SymbolTableSpan := ⟨252, 48, 24, 248, 3⟩

def aliasLayout : ElfLayout where
  header := ⟨[0x7f, 0x45, 0x4c, 0x46, 2, 1, 1], etDyn, emX8664, 1, 64, 120, 56, 1, 64, 2, 0⟩
  counts := ⟨2, 1, 0⟩
  minimumLoadVaddr := 0
  names := []
  scan := { symtab := some aliasTable }

def aliasParsed : ParsedElf where
  sections := [aliasTable, ⟨0, shtStrtab, 248, 3, 0, 0, 0⟩]
  symtab := some aliasSpan

/-- The image, with the bindings of the two definitions. -/
def aliasImage (binding binding' : ℕ) : ElfImage where
  minimumLoadVaddr := 0
  debuglink := none
  symtab := [⟨[0x66], 16, 4, 1, sttFunc, binding, .symtab⟩,
    ⟨[0x66], 32, 4, 1, sttFunc, binding', .symtab⟩]
  dynsym := []
  buildId := []

/-- With the global definition first, both lookups find it. -/
theorem lookups_agree_global_first :
    SameFunction (aliasFile 0x12 0x02) (aliasImage 1 0) [0x66] := by
  have hagree := @lookups_agree (aliasFile 0x12 0x02) aliasLayout aliasParsed (aliasImage 1 0)
    [0x66] (by decide +kernel) (by decide +kernel) (by decide +kernel) (by decide +kernel)
    (by decide) (by decide) (by decide)
  have husable : UsableTable aliasLayout.scan.symtab := by
    intro header hheader
    obtain rfl := Option.some.inj hheader
    decide
  have hdefs : definitions (aliasFile 0x12 0x02) [0x66] aliasParsed.symtab aliasParsed.dynsym =
      [⟨1, 0x12, 1, 16, 4⟩, ⟨1, 0x02, 1, 32, 4⟩] := by decide +kernel
  refine hagree.1.mpr (Or.inl ⟨hagree.2 husable ?_, ?_⟩)
  · exact fun header hheader => absurd hheader (Option.not_mem_none header)
  · rw [hdefs]
    intro first hfirst other hother
    cases hfirst
    cases hother
    rfl

/-- With the local definition first, the agent finds that one and the controller the other. -/
theorem lookups_differ : ¬ ∀ (file : Buffer) (layout : ElfLayout) (parsed : ParsedElf)
    (image : ElfImage) (name : Bytes), file.size < 2 ^ 63 → elfLayout file = .ok layout →
    elfImage file = .ok image → parseElf file = some parsed → name ≠ [] →
    name.length ≤ maximumSymbolNameSize → 0 ∉ name → SameFunction file image name := by
  intro hclaim
  have hfile : (aliasFile 0x02 0x12).size < 2 ^ 63 := by decide +kernel
  have hparsed : parseElf (aliasFile 0x02 0x12) = some aliasParsed := by decide +kernel
  have hsame := hclaim (aliasFile 0x02 0x12) aliasLayout aliasParsed (aliasImage 0 1) [0x66] hfile
    (by decide +kernel) (by decide +kernel) hparsed (by decide) (by decide) (by decide)
  have hdefs : definitions (aliasFile 0x02 0x12) [0x66] aliasParsed.symtab aliasParsed.dynsym =
      [⟨1, 0x02, 1, 16, 4⟩, ⟨1, 0x12, 1, 32, 4⟩] := by decide +kernel
  have hagent := findElfSymbolVaddr_eq hfile hparsed (by decide) (by decide)
    (show 0 ∉ [0x66] by decide)
  rw [hdefs] at hagent
  exact absurd ((sameFunction_iff hagent).mp hsame) (by decide)

end Aliases

end Noleax.Elf
