import Noleax.Elf.ElfImage
import Noleax.Elf.SymbolScan

/-!
# Symbol lookup by name (`analyzer/elf_image.cpp`, `agent/linux/elf_symbol_lookup.cpp`)

The controller looks a symbol up in the tables of an `ElfImage` and prefers a non-local
definition. The agent parses the file on its own, streams its tables and takes the first
definition.
-/

namespace Noleax.Elf

open Lib

/-! ## The controller -/

/-- The entry defines the name. -/
def Defines (name : Bytes) (symbol : ElfSymbol) : Prop :=
  symbol.sectionIndex ≠ shnUndef ∧ symbol.name = name

instance (name : Bytes) (symbol : ElfSymbol) : Decidable (Defines name symbol) :=
  inferInstanceAs (Decidable (_ ∧ _))

/-- One round of the loop of `find_symbol`. -/
def keepDefinition (name : Bytes) (best : Option ElfSymbol) (symbol : ElfSymbol) :
    Option ElfSymbol :=
  if ¬ Defines name symbol then best
  else match best with
    | none => some symbol
    | some current =>
        if current.binding = stbLocal ∧ symbol.binding ≠ stbLocal then some symbol
        else some current

/-- The loop of `find_symbol` over one table. -/
def findDefinition (name : Bytes) (symbols : List ElfSymbol) : Option ElfSymbol :=
  symbols.foldl (keepDefinition name) none

/-- `ElfImage::find_symbol` -/
def ElfImage.findSymbol (image : ElfImage) (name : Bytes) : Option ElfSymbol :=
  if name = [] then none
  else match findDefinition name image.symtab with
    | some symbol => some symbol
    | none => findDefinition name image.dynsym

/-- `resolve_symbol` for an image without a debug image: the offset from the lowest load
address. -/
def ElfImage.resolveSymbol (image : ElfImage) (name : Bytes) : Option ℕ :=
  (image.findSymbol name).map fun symbol =>
    (symbol.value + 2 ^ 64 - image.minimumLoadVaddr) % 2 ^ 64

/-! ## The agent -/

def maximumSectionCount : ℕ := 65536

/-- `ParsedElf`, less what only the search for a companion needs. -/
structure ParsedElf where
  sections : List Elf64Shdr
  symtab : Option SymbolTableSpan := none
  dynsym : Option SymbolTableSpan := none
deriving DecidableEq, Repr

/-- The header checks of `parse_elf`. -/
def AgentHeader (header : Elf64Ehdr) : Prop :=
  header.eIdent.take 4 = [0x7f, 0x45, 0x4c, 0x46] ∧ header.eIdent.getD 4 0 = 2 ∧
    header.eIdent.getD 5 0 = 1 ∧ header.eIdent.getD 6 0 = 1 ∧ header.eVersion = 1 ∧
    header.eMachine = emX8664 ∧ (header.eType = etExec ∨ header.eType = etDyn) ∧
    header.eShoff ≠ 0 ∧ header.eShentsize = sectionHeaderSize

instance (header : Elf64Ehdr) : Decidable (AgentHeader header) :=
  inferInstanceAs (Decidable (_ ∧ _ ∧ _ ∧ _ ∧ _ ∧ _ ∧ _ ∧ _ ∧ _))

/-- The section count, from section header 0 under extended numbering. -/
def agentSectionCount (file : Buffer) (header : Elf64Ehdr) : Option ℕ :=
  if header.eShnum = 0 ∨ header.eShstrndx = shnXindex then
    if SpanInside file header.eShoff sectionHeaderSize then
      some (if header.eShnum = 0 then (sectionHeaderAt file header.eShoff).shSize
        else header.eShnum)
    else none
  else some header.eShnum

/-- One round of the section loop: the first usable table of each kind. -/
def ParsedElf.step (file : Buffer) (parsed : ParsedElf) (header : Elf64Shdr) : ParsedElf :=
  if header.shType = shtSymtab ∧ parsed.symtab = none then
    { parsed with symtab := symbolTableSpan file parsed.sections header }
  else if header.shType = shtDynsym ∧ parsed.dynsym = none then
    { parsed with dynsym := symbolTableSpan file parsed.sections header }
  else parsed

/-- The section headers that `parse_elf` reads in one piece. -/
def agentSections (file : Buffer) (offset count : ℕ) : List Elf64Shdr :=
  (List.range count).map fun index => sectionHeaderAt file (offset + index * sectionHeaderSize)

/-- `parse_elf` -/
def parseElf (file : Buffer) : Option ParsedElf :=
  let header := headerAt file
  if ¬ SpanInside file 0 headerSize ∨ ¬ AgentHeader header then none
  else match agentSectionCount file header with
    | none => none
    | some count =>
        if count = 0 ∨ maximumSectionCount < count ∨
            ¬ SpanInside file header.eShoff (count * sectionHeaderSize) then none
        else
          let sections := agentSections file header.eShoff count
          some (sections.foldl (ParsedElf.step file) { sections })

/-- The scan of a table that the image may not have. -/
def scanOptional (file : Buffer) (span : Option SymbolTableSpan) (wanted : Bytes) :
    Except ScanFault (Option ℕ) :=
  match span with
  | none => .ok none
  | some span => scanSymbolTable file span wanted

/-- `find_symbol_in` -/
def findSymbolIn (file : Buffer) (parsed : ParsedElf) (wanted : Bytes) :
    Except ScanFault (Option ℕ) := do
  match ← scanOptional file parsed.symtab wanted with
  | some value => return some value
  | none => scanOptional file parsed.dynsym wanted

/-- `find_elf_symbol_vaddr`; `companion` is what the search through the debug companions finds. -/
def findElfSymbolVaddr (file : Buffer) (companion : Option ℕ) (wanted : Bytes) :
    Except ScanFault (Option ℕ) :=
  if wanted = [] ∨ maximumSymbolNameSize < wanted.length then .ok none
  else match parseElf file with
    | none => .ok none
    | some parsed => do
        match ← findSymbolIn file parsed wanted with
        | some value => return some value
        | none => return if parsed.symtab ≠ none then none else companion

/-! ## The definitions of a name -/

section Definitions

variable (file : Buffer) (wanted : Bytes)

/-- The entries of a table that define the name, in the order of the table. -/
def hits (span : Option SymbolTableSpan) : List Elf64Sym :=
  match span with
  | none => []
  | some span => ((List.range (span.size / span.entrySize)).map (entryAt file span)).filter
      fun symbol => Hit file span wanted symbol

/-- The definitions in the first of the two tables that has one. -/
def definitions (symtab dynsym : Option SymbolTableSpan) : List Elf64Sym :=
  if hits file wanted symtab = [] then hits file wanted dynsym else hits file wanted symtab

/-- `STB_*` of an entry. -/
def Elf64Sym.binding (symbol : Elf64Sym) : ℕ := symbol.stInfo / 16

end Definitions

end Noleax.Elf
