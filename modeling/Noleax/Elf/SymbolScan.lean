import Noleax.Elf.Format
import Noleax.Lib.Checked

/-!
# The symbol scan of the agent (`agent/linux/elf_symbol_lookup.cpp`)

`scan_symbol_table` reads a symbol table in chunks and compares names through a window that
slides over the string table. It finds what a scan of the whole table finds. An access
outside of the file or of a buffer, and a sum that wraps, are failures of the model.
-/

namespace Noleax.Elf

open Lib

/-! ## Accesses -/

inductive ScanFault where
  /-- An access outside of the file or of a buffer. -/
  | outside
  /-- An offset that does not fit 64 bits. -/
  | wrapped
deriving DecidableEq, Repr

def addU64 (left right : ℕ) : Except ScanFault ℕ := do
  failIf (2 ^ 64 ≤ left + right) .wrapped
  return left + right

def mulU64 (left right : ℕ) : Except ScanFault ℕ := do
  failIf (2 ^ 64 ≤ left * right) .wrapped
  return left * right

/-- `count` bytes of a buffer or of the file. -/
def fetch (data : Buffer) (offset count : ℕ) : Except ScanFault Bytes := do
  failIf (data.size < offset + count) .outside
  return data.slice offset count

/-- `span_inside` -/
def SpanInside (file : Buffer) (offset count : ℕ) : Prop :=
  count ≤ file.size ∧ offset ≤ file.size - count

instance (file : Buffer) (offset count : ℕ) : Decidable (SpanInside file offset count) :=
  inferInstanceAs (Decidable (_ ∧ _))

/-- `read_at` into the front of `buffer`. -/
def readAt (file : Buffer) (offset : ℕ) (buffer : Buffer) (count : ℕ) :
    Except ScanFault (Option Buffer) :=
  if SpanInside file offset count then do
    failIf (buffer.size < count) .outside
    return some (buffer.put 0 (← fetch file offset count))
  else return none

/-! ## Symbol tables -/

def maximumSymbolEntrySize : ℕ := 4 * 1024
def maximumSymbolNameSize : ℕ := 4 * 1024
def symbolChunkBytes : ℕ := 128 * 1024
def stringWindowBytes : ℕ := 256 * 1024

/-- `SymbolTableSpan` -/
structure SymbolTableSpan where
  offset : ℕ
  size : ℕ
  entrySize : ℕ
  stringsOffset : ℕ
  stringsSize : ℕ
deriving DecidableEq, Repr

/-- `symbol_table_span` -/
def symbolTableSpan (file : Buffer) (sections : List Elf64Shdr) (table : Elf64Shdr) :
    Option SymbolTableSpan :=
  if table.shSize = 0 ∨ table.shEntsize < symbolSize ∨ maximumSymbolEntrySize < table.shEntsize ∨
      ¬ SpanInside file table.shOffset table.shSize then none
  else
    match sections[table.shLink]? with
    | none => none
    | some strings =>
        if strings.shType ≠ shtStrtab ∨ ¬ SpanInside file strings.shOffset strings.shSize then none
        else some ⟨table.shOffset, table.shSize, table.shEntsize, strings.shOffset, strings.shSize⟩

/-! ## The window -/

/-- `StringTableMatcher`, less what does not change. -/
structure StringTableMatcher where
  window : Buffer
  windowStart : ℕ := 0
  windowValid : ℕ := 0

section Scan

variable (file : Buffer) (span : SymbolTableSpan) (wanted : Bytes)

/-- The comparison at the end of `matches`. -/
def compareAt (matcher : StringTableMatcher) (nameOffset : ℕ) : Except ScanFault Bool := do
  let start := nameOffset - matcher.windowStart
  let name ← fetch matcher.window start wanted.length
  let terminator ← fetch matcher.window (start + wanted.length) 1
  return name = wanted ∧ terminator = [0]

/-- `matches` -/
def nameMatches (matcher : StringTableMatcher) (nameOffset : ℕ) :
    Except ScanFault (Bool × StringTableMatcher) := do
  let needed ← addU64 wanted.length 1
  if span.stringsSize ≤ nameOffset ∨ span.stringsSize - nameOffset < needed then
    return (false, matcher)
  else
    let nameEnd ← addU64 nameOffset needed
    let windowEnd ← addU64 matcher.windowStart matcher.windowValid
    if nameOffset < matcher.windowStart ∨ windowEnd < nameEnd then
      let windowValid := min (span.stringsSize - nameOffset) matcher.window.size
      match ← readAt file (← addU64 span.stringsOffset nameOffset) matcher.window windowValid with
      | none => return (false, { matcher with windowStart := nameOffset, windowValid := 0 })
      | some window =>
          let moved := ⟨window, nameOffset, windowValid⟩
          return (← compareAt wanted moved nameOffset, moved)
    else return (← compareAt wanted matcher nameOffset, matcher)

/-! ## The loops -/

/-- The loop over the entries of a chunk, from `index` on. -/
def scanEntries (chunk : Buffer) (matcher : StringTableMatcher) (index : ℕ) :
    ℕ → Except ScanFault (Option ℕ × StringTableMatcher)
  | 0 => return (none, matcher)
  | entries + 1 => do
      let offset ← mulU64 index span.entrySize
      let _ ← fetch chunk offset symbolSize
      let symbol := symbolAt chunk offset
      if symbol.stShndx = shnUndef ∨ symbol.stName = 0 then
        scanEntries chunk matcher (index + 1) entries
      else
        let (found, matcher) ← nameMatches file span wanted matcher symbol.stName
        if found then return (some symbol.stValue, matcher)
        else scanEntries chunk matcher (index + 1) entries

/-- The loop over the chunks. -/
def scanChunks (count entriesPerChunk : ℕ) (hpositive : 0 < entriesPerChunk) (chunk : Buffer)
    (matcher : StringTableMatcher) (base : ℕ) : Except ScanFault (Option ℕ) :=
  if base < count then do
    let entries := min (count - base) entriesPerChunk
    let bytes ← mulU64 entries span.entrySize
    let start ← addU64 span.offset (← mulU64 base span.entrySize)
    match ← readAt file start chunk bytes with
    | none => return none
    | some chunk =>
        match ← scanEntries file span wanted chunk matcher 0 entries with
        | (some value, _) => return some value
        | (none, matcher) => do
            let _ ← addU64 base entriesPerChunk
            scanChunks count entriesPerChunk hpositive chunk matcher (base + entriesPerChunk)
  else return none
termination_by count - base

/-- `scan_symbol_table` -/
def scanSymbolTable : Except ScanFault (Option ℕ) := do
  let count := span.size / span.entrySize
  let entriesPerChunk := max 1 (symbolChunkBytes / span.entrySize)
  let chunk ← mulU64 entriesPerChunk span.entrySize
  scanChunks file span wanted count entriesPerChunk
    (Nat.lt_of_lt_of_le Nat.one_pos (Nat.le_max_left _ _)) (.zeros chunk)
    ⟨.zeros stringWindowBytes, 0, 0⟩ 0

/-! ## The scan of the whole table -/

/-- The name at an offset of the string table, up to its first zero inside of the table. -/
def nameAt (nameOffset : ℕ) : Option Bytes :=
  terminated (file.slice (span.stringsOffset + nameOffset) (span.stringsSize - nameOffset))

def entryAt (index : ℕ) : Elf64Sym := symbolAt file (span.offset + index * span.entrySize)

/-- A defined symbol of the wanted name. -/
def Hit (symbol : Elf64Sym) : Prop :=
  symbol.stShndx ≠ shnUndef ∧ symbol.stName ≠ 0 ∧ nameAt file span symbol.stName = some wanted

instance (symbol : Elf64Sym) : Decidable (Hit file span wanted symbol) :=
  inferInstanceAs (Decidable (_ ∧ _))

/-- The value of the first hit among `count` entries from `first` on. -/
def firstHit (first count : ℕ) : Option ℕ :=
  (((List.range' first count).map (entryAt file span)).find?
    fun symbol => decide (Hit file span wanted symbol)).map (·.stValue)

def wholeTableScan : Option ℕ := firstHit file span wanted 0 (span.size / span.entrySize)

end Scan

end Noleax.Elf
