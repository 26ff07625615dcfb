import Noleax.Lib.Buffers

/-!
# ELF structures (`elf.h`)

The fields of section headers and of symbols, as they lie in a buffer.
-/

namespace Noleax.Elf

open Lib

def shtSymtab : ℕ := 2
def shtStrtab : ℕ := 3
def shtNote : ℕ := 7
def shtDynsym : ℕ := 11

def shnUndef : ℕ := 0
def shnXindex : ℕ := 0xffff

def ptLoad : ℕ := 1
def pnXnum : ℕ := 0xffff

def emX8664 : ℕ := 62
def etExec : ℕ := 2
def etDyn : ℕ := 3

/-- `sizeof(Elf64_Ehdr)` -/
def headerSize : ℕ := 64

/-- `Elf64_Ehdr`, less `e_entry`, `e_flags` and `e_ehsize`; of `e_ident` the first seven bytes. -/
structure Elf64Ehdr where
  eIdent : Bytes
  eType : ℕ
  eMachine : ℕ
  eVersion : ℕ
  ePhoff : ℕ
  eShoff : ℕ
  ePhentsize : ℕ
  ePhnum : ℕ
  eShentsize : ℕ
  eShnum : ℕ
  eShstrndx : ℕ
deriving DecidableEq, Repr

/-- The header at the front. -/
def headerAt (data : Buffer) : Elf64Ehdr where
  eIdent := data.slice 0 7
  eType := data.word 2 16
  eMachine := data.word 2 18
  eVersion := data.word 4 20
  ePhoff := data.word 8 32
  eShoff := data.word 8 40
  ePhentsize := data.word 2 54
  ePhnum := data.word 2 56
  eShentsize := data.word 2 58
  eShnum := data.word 2 60
  eShstrndx := data.word 2 62

/-- `sizeof(Elf64_Phdr)` -/
def programHeaderSize : ℕ := 56

/-- `Elf64_Phdr`: the type and the address. -/
structure Elf64Phdr where
  pType : ℕ
  pVaddr : ℕ
deriving DecidableEq, Repr

/-- The program header at an offset. -/
def programHeaderAt (data : Buffer) (offset : ℕ) : Elf64Phdr where
  pType := data.word 4 offset
  pVaddr := data.word 8 (offset + 16)

/-- `sizeof(Elf64_Sym)` -/
def symbolSize : ℕ := 24

/-- `Elf64_Sym`, less `st_other`. -/
structure Elf64Sym where
  stName : ℕ
  stInfo : ℕ
  stShndx : ℕ
  stValue : ℕ
  stSize : ℕ
deriving DecidableEq, Repr

/-- The symbol at an offset. -/
def symbolAt (data : Buffer) (offset : ℕ) : Elf64Sym where
  stName := data.word 4 offset
  stInfo := data.word 1 (offset + 4)
  stShndx := data.word 2 (offset + 6)
  stValue := data.word 8 (offset + 8)
  stSize := data.word 8 (offset + 16)

/-- `sizeof(Elf64_Shdr)` -/
def sectionHeaderSize : ℕ := 64

/-- `Elf64_Shdr`, less `sh_flags`, `sh_addr` and `sh_addralign`. -/
structure Elf64Shdr where
  shName : ℕ
  shType : ℕ
  shOffset : ℕ
  shSize : ℕ
  shLink : ℕ
  shInfo : ℕ
  shEntsize : ℕ
deriving DecidableEq, Repr

/-- The section header at an offset. -/
def sectionHeaderAt (data : Buffer) (offset : ℕ) : Elf64Shdr where
  shName := data.word 4 offset
  shType := data.word 4 (offset + 4)
  shOffset := data.word 8 (offset + 24)
  shSize := data.word 8 (offset + 32)
  shLink := data.word 4 (offset + 40)
  shInfo := data.word 4 (offset + 44)
  shEntsize := data.word 8 (offset + 56)

/-- A symbol depends on its bytes only. -/
theorem symbolAt_congr {a b : Buffer} {offset offset' : ℕ}
    (h : a.slice offset symbolSize = b.slice offset' symbolSize) :
    symbolAt a offset = symbolAt b offset' := by
  have hword {width start : ℕ} (hfield : start + width ≤ symbolSize) :
      a.word width (offset + start) = b.word width (offset' + start) :=
    congrArg ofLittleEndian (Buffer.slice_of_slice_eq h hfield)
  have hname := @hword 4 0 (by decide)
  rw [Nat.add_zero, Nat.add_zero] at hname
  unfold symbolAt
  rw [hname, @hword 1 4 (by decide), @hword 2 6 (by decide), @hword 8 8 (by decide),
    @hword 8 16 (by decide)]

/-- So does a section header. -/
theorem sectionHeaderAt_congr {a b : Buffer} {offset : ℕ}
    (h : a.slice offset sectionHeaderSize = b.slice offset sectionHeaderSize) :
    sectionHeaderAt a offset = sectionHeaderAt b offset := by
  have hword {width start : ℕ} (hfield : start + width ≤ sectionHeaderSize) :
      a.word width (offset + start) = b.word width (offset + start) :=
    congrArg ofLittleEndian (Buffer.slice_of_slice_eq h hfield)
  have hname := @hword 4 0 (by decide)
  rw [Nat.add_zero] at hname
  unfold sectionHeaderAt
  rw [hname, @hword 4 4 (by decide), @hword 8 24 (by decide), @hword 8 32 (by decide),
    @hword 4 40 (by decide), @hword 4 44 (by decide), @hword 8 56 (by decide)]

/-- And the header at the front. -/
theorem headerAt_congr {a b : Buffer} (h : a.slice 0 headerSize = b.slice 0 headerSize) :
    headerAt a = headerAt b := by
  have hslice {width start : ℕ} (hfield : start + width ≤ headerSize) :
      a.slice start width = b.slice start width := by
    have := Buffer.slice_of_slice_eq h hfield
    rwa [Nat.zero_add] at this
  have hword {width start : ℕ} (hfield : start + width ≤ headerSize) :
      a.word width start = b.word width start := congrArg ofLittleEndian (hslice hfield)
  unfold headerAt
  rw [@hslice 7 0 (by decide), @hword 2 16 (by decide), @hword 2 18 (by decide),
    @hword 4 20 (by decide), @hword 8 32 (by decide), @hword 8 40 (by decide),
    @hword 2 54 (by decide), @hword 2 56 (by decide), @hword 2 58 (by decide),
    @hword 2 60 (by decide), @hword 2 62 (by decide)]

theorem programHeaderAt_congr {a b : Buffer} {offset : ℕ}
    (h : a.slice offset programHeaderSize = b.slice offset programHeaderSize) :
    programHeaderAt a offset = programHeaderAt b offset := by
  have hword {width start : ℕ} (hfield : start + width ≤ programHeaderSize) :
      a.word width (offset + start) = b.word width (offset + start) :=
    congrArg ofLittleEndian (Buffer.slice_of_slice_eq h hfield)
  have htype := @hword 4 0 (by decide)
  rw [Nat.add_zero] at htype
  unfold programHeaderAt
  rw [htype, @hword 8 16 (by decide)]

theorem symbolAt_isWord (data : Buffer) (offset : ℕ) :
    IsWord 4 (symbolAt data offset).stName ∧ IsWord 8 (symbolAt data offset).stValue :=
  ⟨Buffer.word_isWord, Buffer.word_isWord⟩

end Noleax.Elf
