import Mathlib.Data.Nat.Notation

/-!
# Chains of indices in an arena

Entries in a list are linked by indices, and a chain is followed from an index until it
reads `empty`. Where every link leads down, a walk ends; and an entry that is put on top of
the others and linked to the head of a chain is the new head of that chain, and leaves all
others as they were.
-/

namespace Noleax.Lib

/-- How a walk along a chain ended. `unfinished` is a walk that was cut short. -/
inductive Walk (α : Type) where
  | found (entry : α)
  | missing
  | astray
  | unfinished

/-- How a walk ends that looks at all of a chain. -/
def Walk.ofOption {α : Type} : Option α → Walk α
  | some entry => .found entry
  | none => .missing

section Chains

variable {α : Type} (link : α → ℕ) (empty : ℕ)

/-- Follow the links from `index` until an entry is accepted. -/
def walk (arena : List α) (accepts : α → Bool) : (steps index : ℕ) → Walk α
  | 0, _ => .unfinished
  | steps + 1, index =>
      if index = empty then .missing
      else match arena[index]? with
        | none => .astray
        | some entry =>
            if accepts entry then .found entry else walk arena accepts steps (link entry)

/-- The entries below `count` link down. -/
def Linked (arena : List α) (count : ℕ) : Prop :=
  ∀ index < count, ∃ entry, arena[index]? = some entry ∧ (link entry = empty ∨ link entry < index)

/-- The entries on the way from an index. -/
inductive Chain (arena : List α) (count : ℕ) : ℕ → List α → Prop
  | done : Chain arena count empty []
  | step {index : ℕ} {entry : α} {rest : List α} (hindex : index < count)
      (hread : arena[index]? = some entry) (hrest : Chain arena count (link entry) rest) :
      Chain arena count index (entry :: rest)

variable {link empty} {arena other : List α} {count index : ℕ} {chain : List α} {entry : α}

/-- From every index that is in use a chain starts. -/
theorem Linked.exists_chain (h : Linked link empty arena count) (hindex : index < count) :
    ∃ chain, Chain link empty arena count index chain ∧ chain.length ≤ index + 1 := by
  induction index using Nat.strongRecOn with
  | ind index ih =>
      obtain ⟨entry, hread, hempty | hdown⟩ := h index hindex
      · refine ⟨[entry], .step hindex hread ?_, Nat.le_add_left _ _⟩
        rw [hempty]
        exact .done
      · obtain ⟨chain, hchain, hlength⟩ := ih (link entry) hdown (Nat.lt_trans hdown hindex)
        refine ⟨entry :: chain, .step hindex hread hchain, ?_⟩
        rw [List.length_cons]
        omega

/-- A chain is determined by where it starts. -/
theorem Chain.unique (hcount : count ≤ empty) (h : Chain link empty arena count index chain)
    {chain' : List α} (h' : Chain link empty arena count index chain') : chain = chain' := by
  induction h generalizing chain' with
  | done =>
      cases h' with
      | done => rfl
      | step hindex hread hrest => omega
  | step hindex hread hrest ih =>
      cases h' with
      | done => omega
      | step hindex' hread' hrest' =>
          rw [hread] at hread'
          cases hread'
          rw [ih hrest']

/-- A walk along a chain finds the first entry of it that is accepted. -/
theorem Chain.walk_eq (hcount : count ≤ empty) (h : Chain link empty arena count index chain)
    (accepts : α → Bool) {steps : ℕ} (hsteps : chain.length < steps) :
    walk link empty arena accepts steps index = .ofOption (chain.find? accepts) := by
  induction h generalizing steps with
  | done =>
      obtain ⟨steps, rfl⟩ : ∃ k, steps = k + 1 := ⟨steps - 1, by omega⟩
      unfold walk
      rw [if_pos rfl]
      rfl
  | @step index entry rest hindex hread hrest ih =>
      rw [List.length_cons] at hsteps
      obtain ⟨steps, rfl⟩ : ∃ k, steps = k + 1 := ⟨steps - 1, by omega⟩
      unfold walk
      rw [if_neg (by omega), hread, List.find?_cons]
      dsimp only
      cases accepts entry with
      | true => rfl
      | false => exact ih (by omega)

/-- A chain only reads the entries below `count`. -/
theorem Chain.mono (h : Chain link empty arena count index chain) {count' : ℕ}
    (hcount : count ≤ count') (hsame : ∀ i < count, arena[i]? = other[i]?) :
    Chain link empty other count' index chain := by
  induction h with
  | done => exact .done
  | @step index entry rest hindex hread hrest ih =>
      exact .step (Nat.lt_of_lt_of_le hindex hcount) ((hsame index hindex) ▸ hread) ih

/-- An entry on top of the others that is linked to a head is in front of its chain. -/
theorem Chain.push (h : Chain link empty arena count (link entry) chain)
    (hsame : ∀ i < count, arena[i]? = other[i]?) (hread : other[count]? = some entry) :
    Chain link empty other (count + 1) count (entry :: chain) :=
  .step (Nat.lt_succ_self _) hread (h.mono (Nat.le_succ _) hsame)

theorem Linked.push (h : Linked link empty arena count)
    (hlink : link entry = empty ∨ link entry < count)
    (hsame : ∀ i < count, arena[i]? = other[i]?) (hread : other[count]? = some entry) :
    Linked link empty other (count + 1) := by
  intro index hindex
  rcases Nat.lt_or_eq_of_le (Nat.le_of_lt_succ hindex) with hlt | rfl
  · obtain ⟨old, hold, hdown⟩ := h index hlt
    exact ⟨old, (hsame index hlt) ▸ hold, hdown⟩
  · exact ⟨entry, hread, hlink⟩

end Chains

end Noleax.Lib
