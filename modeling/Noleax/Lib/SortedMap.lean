import Mathlib.Data.List.Pairwise
import Mathlib.Data.Prod.Basic
import Mathlib.Logic.Function.Basic
import Mathlib.Tactic.Common

/-!
# Ordered maps as sorted lists

An ordered map with natural-number keys is the list of its entries in key order.
Only what an ordered container offers is defined: lookup, insertion of an absent
key, erasure, and the neighbours of a key.
-/

namespace Noleax.Lib

abbrev SortedMap (β : Type*) := List (ℕ × β)

namespace SortedMap

variable {β γ : Type*}

def lookup (m : SortedMap β) (key : ℕ) : Option β :=
  (m.find? fun entry => entry.1 = key).map Prod.snd

abbrev Contains (m : SortedMap β) (key : ℕ) : Prop := ∃ entry ∈ m, entry.1 = key

/-- Insertion of a key the map does not contain. -/
def insert (m : SortedMap β) (key : ℕ) (value : β) : SortedMap β :=
  match m with
  | [] => [(key, value)]
  | entry :: rest =>
      if key < entry.1 then (key, value) :: entry :: rest else entry :: insert rest key value

def erase (m : SortedMap β) (key : ℕ) : SortedMap β := m.filter fun entry => entry.1 ≠ key

/-- Change the value of a key. -/
def adjust (m : SortedMap β) (key : ℕ) (f : β → β) : SortedMap β :=
  m.map fun entry => if entry.1 = key then (entry.1, f entry.2) else entry

/-- The first entry whose key is not less. -/
def lowerBound (m : SortedMap β) (key : ℕ) : Option (ℕ × β) := m.find? fun entry => key ≤ entry.1

/-- The last entry whose key is less. -/
def before (m : SortedMap β) (key : ℕ) : Option (ℕ × β) :=
  (m.filter fun entry => entry.1 < key).getLast?

/-- The last entry whose key is not greater. -/
def floor (m : SortedMap β) (key : ℕ) : Option (ℕ × β) :=
  (m.filter fun entry => entry.1 ≤ key).getLast?

abbrev Sorted (m : SortedMap β) : Prop := m.Pairwise fun a b => a.1 < b.1

/-! ## Membership -/

theorem mem_insert {m : SortedMap β} {key : ℕ} {value : β} {entry : ℕ × β} :
    entry ∈ m.insert key value ↔ entry = (key, value) ∨ entry ∈ m := by
  induction m with
  | nil => simp [insert]
  | cons head rest ih =>
      unfold insert
      split
      · simp
      · rw [List.mem_cons, ih, List.mem_cons]
        tauto

theorem mem_erase {m : SortedMap β} {key : ℕ} {entry : ℕ × β} :
    entry ∈ m.erase key ↔ entry ∈ m ∧ entry.1 ≠ key := by
  simp [erase]

theorem mem_of_lowerBound {m : SortedMap β} {key : ℕ} {entry : ℕ × β}
    (h : m.lowerBound key = some entry) : entry ∈ m ∧ key ≤ entry.1 :=
  ⟨List.mem_of_find?_eq_some h, by simpa using List.find?_some h⟩

theorem mem_of_before {m : SortedMap β} {key : ℕ} {entry : ℕ × β}
    (h : m.before key = some entry) : entry ∈ m ∧ entry.1 < key := by
  have hmem := List.mem_of_getLast? h
  simpa using List.mem_filter.mp hmem

theorem mem_of_floor {m : SortedMap β} {key : ℕ} {entry : ℕ × β}
    (h : m.floor key = some entry) : entry ∈ m ∧ entry.1 ≤ key := by
  have hmem := List.mem_of_getLast? h
  simpa using List.mem_filter.mp hmem

/-! ## Order -/

theorem sorted_erase {m : SortedMap β} (h : m.Sorted) (key : ℕ) : (m.erase key).Sorted :=
  h.filter _

theorem sorted_insert {m : SortedMap β} (h : m.Sorted) {key : ℕ} (value : β)
    (hkey : ¬ m.Contains key) : (m.insert key value).Sorted := by
  induction m with
  | nil => simp [insert]
  | cons head rest ih =>
      have h := List.pairwise_cons.mp h
      have hrest : ¬ Contains rest key := fun ⟨entry, hmem, heq⟩ =>
        hkey ⟨entry, List.mem_cons_of_mem _ hmem, heq⟩
      have hhead : head.1 ≠ key := fun heq => hkey ⟨head, List.mem_cons_self, heq⟩
      unfold insert
      split
      · rename_i hlt
        refine List.pairwise_cons.mpr ⟨?_, List.pairwise_cons.mpr h⟩
        intro entry hentry
        rcases List.mem_cons.mp hentry with rfl | hentry
        · exact hlt
        · exact Nat.lt_trans hlt (h.1 entry hentry)
      · refine List.pairwise_cons.mpr ⟨?_, ih h.2 hrest⟩
        intro entry hentry
        rcases mem_insert.mp hentry with rfl | hentry
        · change head.1 < key
          omega
        · exact h.1 entry hentry

/-- The floor of a key is the entry that no other entry up to the key is above. -/
theorem floor_eq {m : SortedMap β} (h : m.Sorted) {key : ℕ} {entry : ℕ × β} (hmem : entry ∈ m)
    (hle : entry.1 ≤ key) (hmax : ∀ other ∈ m, other.1 ≤ key → other.1 ≤ entry.1) :
    m.floor key = some entry := by
  have hbelow : entry ∈ m.filter fun entry => entry.1 ≤ key :=
    List.mem_filter.mpr ⟨hmem, decide_eq_true hle⟩
  cases hfloor : m.floor key with
  | none =>
      rw [List.getLast?_eq_none_iff.mp hfloor] at hbelow
      cases hbelow
  | some last =>
      obtain ⟨hlast, hlastle⟩ := mem_of_floor hfloor
      obtain ⟨front, hfront⟩ := List.getLast?_eq_some_iff.mp hfloor
      have hsorted : Sorted (m.filter fun entry => entry.1 ≤ key) := h.filter _
      rw [hfront] at hbelow hsorted
      rcases List.mem_append.mp hbelow with hbefore | hlast'
      · -- an entry in front of the last one is less
        have hlt := (List.pairwise_append.mp hsorted).2.2 entry hbefore last List.mem_cons_self
        have := hmax last hlast hlastle
        omega
      · rw [List.mem_singleton.mp hlast']

/-! ## Lookup -/

theorem lookup_of_mem {m : SortedMap β} (h : m.Sorted) {entry : ℕ × β} (hmem : entry ∈ m) :
    m.lookup entry.1 = some entry.2 := by
  induction m with
  | nil => cases hmem
  | cons head rest ih =>
      have h := List.pairwise_cons.mp h
      unfold lookup
      rcases List.mem_cons.mp hmem with rfl | hmem
      · simp
      · have hne : head.1 ≠ entry.1 := Nat.ne_of_lt (h.1 entry hmem)
        rw [List.find?_cons_of_neg (by simpa using hne)]
        exact ih h.2 hmem

theorem mem_of_lookup {m : SortedMap β} {key : ℕ} {value : β} (h : m.lookup key = some value) :
    (key, value) ∈ m := by
  unfold lookup at h
  obtain ⟨entry, hfind, rfl⟩ := Option.map_eq_some_iff.mp h
  have hkey : entry.1 = key := by simpa using List.find?_some hfind
  rw [← hkey]
  exact List.mem_of_find?_eq_some hfind

theorem lookup_eq_none {m : SortedMap β} {key : ℕ} : m.lookup key = none ↔ ¬ m.Contains key := by
  unfold lookup Contains
  rw [Option.map_eq_none_iff, List.find?_eq_none]
  constructor
  · rintro h ⟨entry, hmem, heq⟩
    exact h entry hmem (by simpa using heq)
  · intro h entry hmem heq
    exact h ⟨entry, hmem, by simpa using heq⟩

theorem lookup_eq_some {m : SortedMap β} (h : m.Sorted) {key : ℕ} {value : β} :
    m.lookup key = some value ↔ (key, value) ∈ m :=
  ⟨mem_of_lookup, fun hmem => lookup_of_mem h hmem⟩

/-- Two sorted maps with the same entry at a key find the same there. -/
theorem lookup_congr {m m' : SortedMap β} (h : m.Sorted) (h' : m'.Sorted) {key key' : ℕ}
    (hmem : ∀ value, (key, value) ∈ m ↔ (key', value) ∈ m') :
    m.lookup key = m'.lookup key' := by
  apply Option.ext
  intro value
  rw [lookup_eq_some h, lookup_eq_some h']
  exact hmem value

theorem lookup_insert_self {m : SortedMap β} (h : m.Sorted) {key : ℕ} (value : β)
    (hkey : ¬ m.Contains key) : (m.insert key value).lookup key = some value :=
  (lookup_eq_some (sorted_insert h value hkey)).mpr (mem_insert.mpr (.inl rfl))

theorem lookup_insert_of_ne {m : SortedMap β} (h : m.Sorted) {key other : ℕ} (value : β)
    (hkey : ¬ m.Contains key) (hne : other ≠ key) :
    (m.insert key value).lookup other = m.lookup other := by
  apply lookup_congr (sorted_insert h value hkey) h
  intro v
  rw [mem_insert]
  simp [hne]

theorem lookup_erase_self (m : SortedMap β) (key : ℕ) : (m.erase key).lookup key = none := by
  rw [lookup_eq_none]
  rintro ⟨entry, hmem, rfl⟩
  exact (mem_erase.mp hmem).2 rfl

theorem lookup_erase_of_ne {m : SortedMap β} (h : m.Sorted) {key other : ℕ} (hne : other ≠ key) :
    (m.erase key).lookup other = m.lookup other := by
  apply lookup_congr (sorted_erase h key) h
  intro v
  rw [mem_erase]
  simp [hne]

theorem mem_adjust {m : SortedMap β} {key : ℕ} {f : β → β} {entry : ℕ × β} :
    entry ∈ m.adjust key f ↔
      (entry ∈ m ∧ entry.1 ≠ key) ∨ entry.1 = key ∧ ∃ value, (key, value) ∈ m ∧ entry.2 = f value := by
  unfold adjust
  rw [List.mem_map]
  constructor
  · rintro ⟨source, hmem, rfl⟩
    split
    · rename_i heq
      exact .inr ⟨heq, source.2, heq ▸ hmem, rfl⟩
    · rename_i hne
      exact .inl ⟨hmem, hne⟩
  · rintro (⟨hmem, hne⟩ | ⟨heq, value, hmem, hvalue⟩)
    · exact ⟨entry, hmem, if_neg hne⟩
    · refine ⟨(key, value), hmem, ?_⟩
      rw [if_pos rfl]
      exact Prod.ext heq.symm hvalue.symm

theorem sorted_adjust {m : SortedMap β} (h : m.Sorted) (key : ℕ) (f : β → β) :
    (m.adjust key f).Sorted := by
  have hkeys : ∀ entry : ℕ × β, (if entry.1 = key then (entry.1, f entry.2) else entry).1 =
      entry.1 := by
    intro entry
    split <;> rfl
  refine List.pairwise_map.mpr (h.imp fun {a b} hab => ?_)
  rw [hkeys a, hkeys b]
  exact hab

theorem lookup_adjust_self {m : SortedMap β} (h : m.Sorted) (key : ℕ) (f : β → β) {value : β}
    (hlive : m.lookup key = some value) : (m.adjust key f).lookup key = some (f value) :=
  (lookup_eq_some (sorted_adjust h key f)).mpr
    (mem_adjust.mpr (.inr ⟨rfl, value, mem_of_lookup hlive, rfl⟩))

theorem lookup_adjust_of_ne {m : SortedMap β} (h : m.Sorted) {key other : ℕ} (f : β → β)
    (hne : other ≠ key) : (m.adjust key f).lookup other = m.lookup other := by
  apply lookup_congr (sorted_adjust h key f) h
  intro v
  rw [mem_adjust]
  simp [hne]

/-! ## A map of values -/

/-- Change the values and keep the keys. -/
def mapValues (f : β → γ) (m : SortedMap β) : SortedMap γ := m.map fun entry => (entry.1, f entry.2)

theorem mem_mapValues {f : β → γ} {m : SortedMap β} {entry : ℕ × γ} :
    entry ∈ m.mapValues f ↔ ∃ value, (entry.1, value) ∈ m ∧ f value = entry.2 := by
  unfold mapValues
  constructor
  · intro h
    obtain ⟨source, hmem, rfl⟩ := List.mem_map.mp h
    exact ⟨source.2, hmem, rfl⟩
  · rintro ⟨value, hmem, heq⟩
    exact List.mem_map.mpr ⟨(entry.1, value), hmem, by rw [heq]⟩

theorem mapValues_insert (f : β → γ) (m : SortedMap β) (key : ℕ) (value : β) :
    mapValues f (m.insert key value) = (m.mapValues f).insert key (f value) := by
  induction m with
  | nil => rfl
  | cons head rest ih =>
      unfold insert
      change mapValues f (if key < head.1 then _ else _) =
        if key < head.1 then _ else (head.1, f head.2) :: insert (mapValues f rest) key (f value)
      split
      · rfl
      · rw [← ih]
        rfl

theorem mapValues_erase (f : β → γ) (m : SortedMap β) (key : ℕ) :
    mapValues f (m.erase key) = (m.mapValues f).erase key := by
  unfold mapValues erase
  rw [List.filter_map]
  rfl

theorem contains_mapValues {f : β → γ} {m : SortedMap β} {key : ℕ} :
    (m.mapValues f).Contains key ↔ m.Contains key := by
  unfold Contains mapValues
  simp

/-! ## Maps as functions -/

section Functions

variable [DecidableEq γ] {entries : γ → Option β} {key other : γ} {found : β}

/-- An entry of a function after a key was set. -/
theorem update_some_cases {value : β}
    (h : Function.update entries key (some value) other = some found) :
    (other = key ∧ found = value) ∨ (other ≠ key ∧ entries other = some found) := by
  by_cases heq : other = key
  · subst heq
    rw [Function.update_self] at h
    exact .inl ⟨rfl, (Option.some.inj h).symm⟩
  · rw [Function.update_of_ne heq] at h
    exact .inr ⟨heq, h⟩

/-- An entry of a function after a key was cleared. -/
theorem update_none_cases (h : Function.update entries key none other = some found) :
    other ≠ key ∧ entries other = some found := by
  by_cases heq : other = key
  · subst heq
    rw [Function.update_self] at h
    cases h
  · rw [Function.update_of_ne heq] at h
    exact ⟨heq, h⟩

end Functions

end SortedMap

end Noleax.Lib
