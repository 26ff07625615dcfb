import Mathlib.Data.List.FinRange
import Mathlib.Data.List.Lex
import Mathlib.Data.List.MinMax
import Mathlib.Data.Prod.Lex
import Noleax.Elf.Format
import Noleax.Elf.Symbols

/-!
# Function lookup (`analyzer/elf_image.cpp`)

`find_function` takes the nearest function symbol below an address. Symbols of one value are
ranked: a covering symbol first, then the tightest, then a non-local one, then the smallest
name. The result is the best by that ranking, whatever order the tables and the unstable sort
put the symbols in.
-/

namespace Noleax.Elf

open Lib

/-! ## The code -/

/-- `is_lookup_function` -/
def isLookupFunction (symbol : ElfSymbol) : Bool :=
  (symbol.type = sttFunc || symbol.type = sttGnuIfunc) &&
    symbol.sectionIndex ≠ shnUndef && !symbol.name.isEmpty

/-- What `sorted_function_indices` may return: `std::sort` leaves symbols of one value in any
order. -/
structure FunctionIndices (symbols : List ElfSymbol) where
  indices : List (Fin symbols.length)
  complete : indices.Perm
    ((List.finRange symbols.length).filter fun index => isLookupFunction (symbols.get index))
  sorted : indices.Pairwise fun left right =>
    (symbols.get left).value ≤ (symbols.get right).value

/-- The comparison of the sort. -/
def valueAtMost (symbols : List ElfSymbol) (left right : Fin symbols.length) : Bool :=
  (symbols.get left).value ≤ (symbols.get right).value

/-- `sorted_function_indices`, with a stable sort. -/
def sortedFunctionIndices (symbols : List ElfSymbol) : FunctionIndices symbols where
  indices := ((List.finRange symbols.length).filter fun index =>
    isLookupFunction (symbols.get index)).mergeSort (valueAtMost symbols)
  complete := List.mergeSort_perm _ _
  sorted := by
    have hsorted := @List.pairwise_mergeSort _ (valueAtMost symbols)
      (fun a b c hab hbc => decide_eq_true
        (Nat.le_trans (of_decide_eq_true hab) (of_decide_eq_true hbc)))
      (fun a b => by
        rw [Bool.or_eq_true]
        exact (Nat.le_total _ _).imp decide_eq_true decide_eq_true)
      ((List.finRange symbols.length).filter fun index => isLookupFunction (symbols.get index))
    exact hsorted.imp fun h => of_decide_eq_true h

/-- `covers`, with its 64-bit difference. -/
def covers (symbol : ElfSymbol) (vaddr : ℕ) : Bool :=
  symbol.size ≠ 0 && (vaddr + 2 ^ 64 - symbol.value) % 2 ^ 64 < symbol.size

/-- `std::string` compares its characters as unsigned bytes. -/
def nameOrder (name : Bytes) : List ℕ := name.map UInt8.toNat

/-- `is_better_match` -/
def isBetterMatch (candidate : ElfSymbol) (current : Option ElfSymbol) (vaddr : ℕ) : Bool :=
  match current with
  | none => true
  | some current =>
      let candidateCovers := covers candidate vaddr
      if candidateCovers ≠ covers current vaddr then
        candidateCovers
      else if candidateCovers ∧ candidate.size ≠ current.size then
        candidate.size < current.size
      else
        let candidateGlobal : Bool := candidate.binding ≠ stbLocal
        if candidateGlobal ≠ decide (current.binding ≠ stbLocal) then
          candidateGlobal
        else
          nameOrder candidate.name < nameOrder current.name

/-- The loop of `find_function_in` at `candidate`; `before` is what lies below the cursor,
nearest first. -/
def scanBack (vaddr baseValue : ℕ) (best : Option ElfSymbol) (candidate : ElfSymbol) :
    List ElfSymbol → Option ElfSymbol
  | [] => if isBetterMatch candidate best vaddr then some candidate else best
  | previous :: before =>
      let best := if isBetterMatch candidate best vaddr then some candidate else best
      if previous.value ≠ baseValue then best
      else scanBack vaddr baseValue best previous before

/-- `std::upper_bound` on indices sorted by value. -/
def firstAbove (symbols : List ElfSymbol) (functions : List (Fin symbols.length))
    (vaddr : ℕ) : ℕ :=
  functions.findIdx fun index => vaddr < (symbols.get index).value

/-- `find_function_in` -/
def findFunctionIn (symbols : List ElfSymbol) (functions : List (Fin symbols.length))
    (vaddr : ℕ) : Option ElfSymbol :=
  let below := (functions.take (firstAbove symbols functions vaddr)).reverse.map symbols.get
  match below with
  | [] => none
  | candidate :: before => scanBack vaddr candidate.value none candidate before

/-- The symbol tables of an `ElfImage`, with their function indices. -/
structure FunctionTables where
  symtab : List ElfSymbol
  dynsym : List ElfSymbol
  symtabFunctions : FunctionIndices symtab
  dynsymFunctions : FunctionIndices dynsym

/-- `ElfImage::find_function` -/
def FunctionTables.findFunction (image : FunctionTables) (vaddr : ℕ) : Option ElfSymbol :=
  match findFunctionIn image.symtab image.symtabFunctions.indices vaddr with
  | some symbol => some symbol
  | none => findFunctionIn image.dynsym image.dynsymFunctions.indices vaddr

/-! ## The ranking -/

/-- The place of a symbol among those of its value, smaller is better: covering first, then the
tightest, then non-local, then by name. -/
def matchRank (vaddr : ℕ) (symbol : ElfSymbol) : Bool ×ₗ ℕ ×ₗ Bool ×ₗ List ℕ :=
  toLex (!covers symbol vaddr, toLex (if covers symbol vaddr then symbol.size else 0,
    toLex (decide (symbol.binding = stbLocal), nameOrder symbol.name)))

/-- `is_better_match` compares by rank, so it is a total preference. -/
theorem isBetterMatch_iff {vaddr : ℕ} {candidate current : ElfSymbol} :
    isBetterMatch candidate (some current) vaddr = true ↔
      matchRank vaddr candidate < matchRank vaddr current := by
  simp only [isBetterMatch, matchRank, Prod.Lex.toLex_lt_toLex]
  cases hcandidate : covers candidate vaddr <;> cases hcurrent : covers current vaddr <;>
    by_cases hlocal : candidate.binding = stbLocal <;>
      by_cases hlocal' : current.binding = stbLocal <;>
        by_cases hsize : candidate.size = current.size <;>
          simp [hlocal, hlocal', hsize]

/-! ## The scan is a search for the best rank -/

section Scan

variable {vaddr : ℕ}

/-- One round of the scan keeps the smaller rank. -/
theorem keepBetter (best : Option ElfSymbol) (candidate : ElfSymbol) :
    (if isBetterMatch candidate best vaddr then some candidate else best) =
      List.argAux (fun left right => matchRank vaddr left < matchRank vaddr right)
        best candidate := by
  cases best with
  | none => rfl
  | some current =>
      show _ = if matchRank vaddr candidate < matchRank vaddr current then _ else _
      exact if_congr isBetterMatch_iff rfl rfl

/-- The scan goes through the symbols that have the value of the first one. -/
theorem scanBack_eq {baseValue : ℕ} (before : List ElfSymbol) :
    ∀ (best : Option ElfSymbol) (candidate : ElfSymbol),
      scanBack vaddr baseValue best candidate before =
        (candidate :: before.takeWhile fun symbol => symbol.value = baseValue).foldl
          (List.argAux fun left right => matchRank vaddr left < matchRank vaddr right) best := by
  induction before with
  | nil =>
      intro best candidate
      exact keepBetter best candidate
  | cons previous before ih =>
      intro best candidate
      show (if previous.value ≠ baseValue then _
        else scanBack vaddr baseValue _ previous before) = _
      rw [keepBetter best candidate]
      by_cases hvalue : previous.value = baseValue
      · rw [if_neg (not_not.mpr hvalue), ih,
          List.takeWhile_cons_of_pos (by simpa using hvalue)]
        rfl
      · rw [if_pos hvalue, List.takeWhile_cons_of_neg (by simpa using hvalue)]
        rfl

end Scan

/-- Where a predicate only holds of a first part of a list, taking while it holds is the filter. -/
theorem takeWhile_eq_filter {α : Type} {p : α → Bool} {l : List α}
    (h : l.Pairwise fun left right => p right = true → p left = true) :
    l.takeWhile p = l.filter p := by
  induction l with
  | nil => rfl
  | cons head tail ih =>
      obtain ⟨hhead, htail⟩ := List.pairwise_cons.mp h
      by_cases hp : p head = true
      · rw [List.takeWhile_cons_of_pos hp, List.filter_cons_of_pos hp, ih htail]
      · rw [List.takeWhile_cons_of_neg hp, List.filter_cons_of_neg hp]
        exact (List.filter_eq_nil_iff.mpr fun other hother hpo => hp (hhead other hother hpo)).symm

section Group

variable {first : ElfSymbol} {before : List ElfSymbol} {vaddr : ℕ}

theorem value_le_first
    (hsorted : (first :: before).Pairwise fun left right => right.value ≤ left.value)
    {symbol : ElfSymbol} (hsymbol : symbol ∈ first :: before) : symbol.value ≤ first.value := by
  cases List.mem_cons.mp hsymbol with
  | inl heq => exact heq ▸ Nat.le_refl _
  | inr hin => exact (List.pairwise_cons.mp hsorted).1 symbol hin

/-- The scan finds the best rank among all symbols of the first one's value. -/
theorem scanBack_group
    (hsorted : (first :: before).Pairwise fun left right => right.value ≤ left.value) :
    scanBack vaddr first.value none first before =
      ((first :: before).filter fun symbol => symbol.value = first.value).argmin
        (matchRank vaddr) := by
  have hgroup : first :: before.takeWhile (fun symbol => symbol.value = first.value) =
      (first :: before).filter fun symbol => symbol.value = first.value := by
    rw [← takeWhile_eq_filter, List.takeWhile_cons_of_pos (by simp)]
    refine hsorted.imp_of_mem ?_
    intro left right hleft _ hle heq
    have hright := of_decide_eq_true heq
    exact decide_eq_true (Nat.le_antisymm (value_le_first hsorted hleft) (hright ▸ hle))
  rw [scanBack_eq, hgroup]
  rfl

end Group

/-! ## The best match -/

/-- `symbol` is what a lookup of `vaddr` in the table should find. -/
structure BestMatch (symbols : List ElfSymbol) (vaddr : ℕ) (symbol : ElfSymbol) : Prop where
  mem : symbol ∈ symbols
  lookup : isLookupFunction symbol = true
  below : symbol.value ≤ vaddr
  nearest : ∀ other ∈ symbols, isLookupFunction other = true → other.value ≤ vaddr →
    other.value ≤ symbol.value
  unbeaten : ∀ other ∈ symbols, isLookupFunction other = true → other.value = symbol.value →
    isBetterMatch other (some symbol) vaddr = false ∧
      matchRank vaddr symbol ≤ matchRank vaddr other

/-- No function symbol of the table is at or below the address. -/
def NoneBelow (symbols : List ElfSymbol) (vaddr : ℕ) : Prop :=
  ∀ symbol ∈ symbols, isLookupFunction symbol = true → vaddr < symbol.value

section Table

variable {symbols : List ElfSymbol} {vaddr : ℕ}

namespace FunctionIndices

variable (functions : FunctionIndices symbols)

/-- The indexed symbols are the function symbols of the table. -/
theorem mem_iff {symbol : ElfSymbol} :
    symbol ∈ functions.indices.map symbols.get ↔
      symbol ∈ symbols ∧ isLookupFunction symbol = true := by
  have hindex (index : Fin symbols.length) :
      index ∈ functions.indices ↔ isLookupFunction (symbols.get index) = true := by
    rw [functions.complete.mem_iff, List.mem_filter]
    exact and_iff_right (List.mem_finRange index)
  rw [List.mem_map, List.mem_iff_get]
  constructor
  · intro ⟨index, hin, hget⟩
    exact ⟨⟨index, hget⟩, hget ▸ (hindex index).mp hin⟩
  · intro ⟨⟨index, hget⟩, hlookup⟩
    exact ⟨index, (hindex index).mpr (hget ▸ hlookup), hget⟩

/-- What the binary search leaves below the address, nearest first. -/
def below (vaddr : ℕ) : List ElfSymbol :=
  ((functions.indices.map symbols.get).filter fun symbol => symbol.value ≤ vaddr).reverse

theorem mem_below {symbol : ElfSymbol} :
    symbol ∈ functions.below vaddr ↔
      (symbol ∈ symbols ∧ isLookupFunction symbol = true) ∧ symbol.value ≤ vaddr := by
  rw [below, List.mem_reverse, List.mem_filter, functions.mem_iff, decide_eq_true_eq]

theorem sorted_values :
    (functions.indices.map symbols.get).Pairwise fun left right => left.value ≤ right.value :=
  List.pairwise_map.mpr functions.sorted

theorem below_sorted :
    (functions.below vaddr).Pairwise fun left right => right.value ≤ left.value :=
  List.pairwise_reverse.mpr (functions.sorted_values.filter _)

/-- The binary search finds the end of the symbols at or below the address. -/
theorem take_firstAbove :
    ((functions.indices.take (firstAbove symbols functions.indices vaddr)).reverse.map
      symbols.get) = functions.below vaddr := by
  have hfilter := @takeWhile_eq_filter _ (fun symbol : ElfSymbol => decide (symbol.value ≤ vaddr)) _
    (functions.sorted_values.imp fun h hright => decide_eq_true
      (Nat.le_trans h (of_decide_eq_true hright)))
  have hnot : (fun symbol : ElfSymbol => !decide (symbol.value ≤ vaddr)) =
      fun symbol => decide (vaddr < symbol.value) := by
    funext symbol
    rw [← decide_not]
    exact decide_eq_decide.mpr Nat.not_le
  have hindex : (functions.indices.map symbols.get).findIdx
      (fun symbol => !decide (symbol.value ≤ vaddr)) =
        firstAbove symbols functions.indices vaddr := by
    rw [hnot, List.findIdx_map]
    rfl
  rw [below, ← hfilter, List.takeWhile_eq_take_findIdx_not, hindex, List.map_reverse,
    List.map_take]

end FunctionIndices

/-- The lookup in one table returns the best match, or nothing when nothing is below. -/
theorem findFunctionIn_spec (functions : FunctionIndices symbols) :
    (∃ symbol, findFunctionIn symbols functions.indices vaddr = some symbol ∧
      BestMatch symbols vaddr symbol) ∨
    (findFunctionIn symbols functions.indices vaddr = none ∧ NoneBelow symbols vaddr) := by
  unfold findFunctionIn
  rw [functions.take_firstAbove]
  have hmem := @FunctionIndices.mem_below symbols vaddr functions
  have hsorted := @FunctionIndices.below_sorted symbols vaddr functions
  cases hbelow : functions.below vaddr with
  | nil =>
      refine Or.inr ⟨rfl, ?_⟩
      intro symbol hsymbol hlookup
      rw [← Nat.not_le]
      intro hle
      have := hmem.mpr ⟨⟨hsymbol, hlookup⟩, hle⟩
      rw [hbelow] at this
      exact List.not_mem_nil this
  | cons first before =>
      rw [hbelow] at hmem hsorted
      show (∃ symbol, scanBack vaddr first.value none first before = some symbol ∧ _) ∨ _
      rw [scanBack_group hsorted]
      cases hbest : ((first :: before).filter fun symbol => symbol.value = first.value).argmin
          (matchRank vaddr) with
      | none =>
          rw [List.argmin_eq_none, List.filter_eq_nil_iff] at hbest
          exact absurd (decide_eq_true rfl) (hbest first List.mem_cons_self)
      | some symbol =>
          refine Or.inl ⟨symbol, rfl, ?_⟩
          obtain ⟨hin, hvalue⟩ := List.mem_filter.mp (List.argmin_mem hbest)
          have hvalue := of_decide_eq_true hvalue
          obtain ⟨⟨hsymbol, hlookup⟩, hbelowAddr⟩ := hmem.mp hin
          refine ⟨hsymbol, hlookup, hbelowAddr, ?_, ?_⟩
          · intro other hother hfunction hle
            rw [hvalue]
            exact value_le_first hsorted (hmem.mpr ⟨⟨hother, hfunction⟩, hle⟩)
          · intro other hother hfunction heq
            have hcandidate : other ∈ (first :: before).filter fun symbol =>
                symbol.value = first.value :=
              List.mem_filter.mpr ⟨hmem.mpr ⟨⟨hother, hfunction⟩, heq ▸ hbelowAddr⟩,
                decide_eq_true (heq.trans hvalue)⟩
            have hrank := List.le_of_mem_argmin hcandidate hbest
            refine ⟨?_, hrank⟩
            rw [← Bool.not_eq_true, isBetterMatch_iff]
            exact not_lt.mpr hrank

/-- Best matches of one set of symbols agree in name and value. -/
theorem BestMatch.unique {other : List ElfSymbol} {left right : ElfSymbol}
    (hmem : ∀ symbol, symbol ∈ symbols ↔ symbol ∈ other)
    (hleft : BestMatch symbols vaddr left) (hright : BestMatch other vaddr right) :
    left.name = right.name ∧ left.value = right.value := by
  have hleftMem := (hmem left).mp hleft.mem
  have hrightMem := (hmem right).mpr hright.mem
  have hvalue : left.value = right.value := Nat.le_antisymm
    (hright.nearest left hleftMem hleft.lookup hleft.below)
    (hleft.nearest right hrightMem hright.lookup hright.below)
  have hrank : matchRank vaddr left = matchRank vaddr right := le_antisymm
    (hleft.unbeaten right hrightMem hright.lookup hvalue.symm).2
    (hright.unbeaten left hleftMem hleft.lookup hvalue).2
  have hnames : nameOrder left.name = nameOrder right.name :=
    congrArg (fun rank => (ofLex (ofLex (ofLex rank).2).2).2) hrank
  exact ⟨List.map_injective_iff.mpr (fun _ _ => UInt8.toNat_inj.mp) hnames, hvalue⟩

/-- A symbol at or below the address covers it when its range reaches beyond. -/
theorem covers_iff {symbol : ElfSymbol} (hvaddr : vaddr < 2 ^ 64) (hbelow : symbol.value ≤ vaddr) :
    covers symbol vaddr = true ↔ vaddr < symbol.value + symbol.size := by
  have hmod : (vaddr + 2 ^ 64 - symbol.value) % 2 ^ 64 = vaddr - symbol.value := by
    rw [Nat.sub_add_comm hbelow, Nat.add_mod_right]
    exact Nat.mod_eq_of_lt (Nat.lt_of_le_of_lt (Nat.sub_le _ _) hvaddr)
  show (decide (symbol.size ≠ 0) && decide (_ < symbol.size)) = true ↔ _
  rw [hmod, Bool.and_eq_true, decide_eq_true_eq, decide_eq_true_eq]
  omega

end Table

/-! ## The lookup in both tables -/

section Lookup

variable (image : FunctionTables) (vaddr : ℕ)

/-- What `find_function` found is a best match of `.symtab`, or of `.dynsym` when `.symtab` has
nothing below the address. -/
def Found (symbol : ElfSymbol) : Prop :=
  BestMatch image.symtab vaddr symbol ∨
    NoneBelow image.symtab vaddr ∧ BestMatch image.dynsym vaddr symbol

theorem findFunction_spec :
    (∃ symbol, image.findFunction vaddr = some symbol ∧ Found image vaddr symbol) ∨
    (image.findFunction vaddr = none ∧
      NoneBelow image.symtab vaddr ∧ NoneBelow image.dynsym vaddr) := by
  unfold FunctionTables.findFunction
  cases @findFunctionIn_spec _ vaddr image.symtabFunctions with
  | inl found =>
      obtain ⟨symbol, hfound, hbest⟩ := found
      rw [hfound]
      exact Or.inl ⟨symbol, rfl, Or.inl hbest⟩
  | inr missing =>
      obtain ⟨hmissing, hnone⟩ := missing
      rw [hmissing]
      cases @findFunctionIn_spec _ vaddr image.dynsymFunctions with
      | inl found =>
          obtain ⟨symbol, hfound, hbest⟩ := found
          exact Or.inl ⟨symbol, hfound, Or.inr ⟨hnone, hbest⟩⟩
      | inr missing =>
          obtain ⟨hmissing, hnone'⟩ := missing
          exact Or.inr ⟨hmissing, hnone, hnone'⟩

end Lookup

section Permuted

variable {image other : FunctionTables} {vaddr : ℕ}

theorem NoneBelow.not_best {symbols others : List ElfSymbol} {symbol : ElfSymbol}
    (hmem : ∀ symbol, symbol ∈ symbols ↔ symbol ∈ others) (hnone : NoneBelow symbols vaddr)
    (hbest : BestMatch others vaddr symbol) : False :=
  Nat.not_le.mpr (hnone symbol ((hmem symbol).mpr hbest.mem) hbest.lookup) hbest.below

/-- The lookup depends on the symbols of the tables, not on their order. -/
theorem findFunction_congr (hsymtab : ∀ symbol, symbol ∈ image.symtab ↔ symbol ∈ other.symtab)
    (hdynsym : ∀ symbol, symbol ∈ image.dynsym ↔ symbol ∈ other.dynsym) :
    (image.findFunction vaddr).map (fun symbol => (symbol.name, symbol.value)) =
      (other.findFunction vaddr).map fun symbol => (symbol.name, symbol.value) := by
  have hsymtab' := fun symbol => (hsymtab symbol).symm
  have hdynsym' := fun symbol => (hdynsym symbol).symm
  rcases findFunction_spec image vaddr with ⟨left, hleft, hfound⟩ | ⟨hleft, hnone, hnone'⟩ <;>
    rcases findFunction_spec other vaddr with ⟨right, hright, hother⟩ | ⟨hright, hgone, hgone'⟩ <;>
      rw [hleft, hright]
  · have hsame : left.name = right.name ∧ left.value = right.value := by
      rcases hfound with hbest | ⟨hnone, hbest⟩ <;> rcases hother with hbest' | ⟨hgone, hbest'⟩
      · exact hbest.unique hsymtab hbest'
      · exact (hgone.not_best hsymtab' hbest).elim
      · exact (hnone.not_best hsymtab hbest').elim
      · exact hbest.unique hdynsym hbest'
    exact congrArg some (Prod.ext hsame.1 hsame.2)
  · rcases hfound with hbest | ⟨_, hbest⟩
    · exact (hgone.not_best hsymtab' hbest).elim
    · exact (hgone'.not_best hdynsym' hbest).elim
  · rcases hother with hbest | ⟨_, hbest⟩
    · exact (hnone.not_best hsymtab hbest).elim
    · exact (hnone'.not_best hdynsym hbest).elim

end Permuted

/-- `find_function` finds a best match, or nothing when neither table has a candidate, and the
name and value it returns depend neither on the order of the tables nor on what the sort does
with equal values. -/
theorem find_function_best (image : FunctionTables) (vaddr : ℕ) :
    ((∃ symbol, image.findFunction vaddr = some symbol ∧ Found image vaddr symbol) ∨
      (image.findFunction vaddr = none ∧
        NoneBelow image.symtab vaddr ∧ NoneBelow image.dynsym vaddr)) ∧
    ∀ other : FunctionTables, image.symtab.Perm other.symtab → image.dynsym.Perm other.dynsym →
      (image.findFunction vaddr).map (fun symbol => (symbol.name, symbol.value)) =
        (other.findFunction vaddr).map fun symbol => (symbol.name, symbol.value) := by
  refine ⟨findFunction_spec image vaddr, ?_⟩
  intro other hsymtab hdynsym
  exact findFunction_congr (fun _ => hsymtab.mem_iff) (fun _ => hdynsym.mem_iff)

section Sample

/-- Two aliases at 16, of which the global one is preferred. -/
def localAlias : ElfSymbol := ⟨[0x61], 16, 8, 1, sttFunc, stbLocal, .symtab⟩
def globalAlias : ElfSymbol := ⟨[0x62], 16, 8, 1, sttFunc, 1, .symtab⟩

def tablesOf (symtab : List ElfSymbol) : FunctionTables :=
  ⟨symtab, [], sortedFunctionIndices symtab, sortedFunctionIndices []⟩

theorem find_function_best_aliases :
    ((tablesOf [localAlias, globalAlias]).findFunction 20).map
        (fun symbol => (symbol.name, symbol.value)) =
      ((tablesOf [globalAlias, localAlias]).findFunction 20).map
        fun symbol => (symbol.name, symbol.value) :=
  (find_function_best (tablesOf [localAlias, globalAlias]) 20).2
    (tablesOf [globalAlias, localAlias]) (List.Perm.swap _ _ _) (List.Perm.refl _)

end Sample

end Noleax.Elf
