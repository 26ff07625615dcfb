import Noleax.Lib.Bytes

/-!
# Symbols of an ELF image (`analyzer/elf_image.hpp`)

A symbol-table entry as the analyzer keeps it, and the symbol kinds of `elf.h` it looks at.
-/

namespace Noleax.Elf

open Lib

def sttFunc : ℕ := 2
def sttGnuIfunc : ℕ := 10

def stbLocal : ℕ := 0

inductive SymbolTable where
  | symtab
  | dynsym
deriving DecidableEq, Repr

structure ElfSymbol where
  name : Bytes
  /-- `st_value` -/
  value : ℕ
  /-- `st_size`; zero when the symbol carries no size. -/
  size : ℕ
  /-- `st_shndx`; zero marks an undefined symbol. -/
  sectionIndex : ℕ
  /-- `STT_*` -/
  type : ℕ
  /-- `STB_*` -/
  binding : ℕ
  table : SymbolTable
deriving DecidableEq, Repr

end Noleax.Elf
