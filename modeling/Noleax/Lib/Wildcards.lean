import Mathlib.Data.List.Basic

/-!
# Patterns with a wildcard

A pattern is a list of letters, one of which is the wildcard. A word matches when it splits
into the parts the letters take: a letter takes one letter it accepts, the wildcard any part
that `taking` allows before what follows.
-/

namespace Noleax.Lib

variable {α : Type*}

inductive Splits (star : α) (accepts : α → α → Prop) (taking : List α → List α → Prop) :
    List α → List α → Prop
  | nil : Splits star accepts taking [] []
  | letter {p x : α} {ps xs : List α} (hp : p ≠ star) (hx : accepts p x)
      (hrest : Splits star accepts taking ps xs) : Splits star accepts taking (p :: ps) (x :: xs)
  | wildcard {taken rest ps : List α} (htaken : taking taken rest)
      (hrest : Splits star accepts taking ps rest) :
      Splits star accepts taking (star :: ps) (taken ++ rest)

/-- The wildcard takes anything. -/
abbrev Matches (star : α) (accepts : α → α → Prop) : List α → List α → Prop :=
  Splits star accepts fun _ _ => True

/-- A wildcard that stands before its own letter takes that letter and nothing else. -/
abbrev Literally (star : α) (taken rest : List α) : Prop :=
  (taken ++ rest).head? = some star → taken = [star]

/-- The splits in which every wildcard that stands before its own letter takes just that. -/
abbrev MatchesLiterally (star : α) (accepts : α → α → Prop) : List α → List α → Prop :=
  Splits star accepts (Literally star)

namespace Splits

variable {star : α} {accepts : α → α → Prop} {taking taking' : List α → List α → Prop}
  {p x : α} {ps xs : List α}

theorem mono (h : Splits star accepts taking ps xs) (hle : ∀ taken rest, taking taken rest →
    taking' taken rest) : Splits star accepts taking' ps xs := by
  induction h with
  | nil => exact .nil
  | letter hp hx _ ih => exact .letter hp hx ih
  | wildcard htaken _ ih => exact .wildcard (hle _ _ htaken) ih

theorem nil_iff : Splits star accepts taking [] xs ↔ xs = [] := by
  constructor
  · intro h
    cases h
    rfl
  · rintro rfl
    exact .nil

theorem letter_iff (hp : p ≠ star) : Splits star accepts taking (p :: ps) xs ↔
    ∃ x rest, xs = x :: rest ∧ accepts p x ∧ Splits star accepts taking ps rest := by
  constructor
  · intro h
    cases h with
    | letter _ hx hrest => exact ⟨_, _, rfl, hx, hrest⟩
    | wildcard _ _ => exact absurd rfl hp
  · rintro ⟨x, rest, rfl, hx, hrest⟩
    exact .letter hp hx hrest

theorem wildcard_iff : Splits star accepts taking (star :: ps) xs ↔
    ∃ taken rest, xs = taken ++ rest ∧ taking taken rest ∧ Splits star accepts taking ps rest := by
  constructor
  · intro h
    cases h with
    | letter hp _ _ => exact absurd rfl hp
    | wildcard htaken hrest => exact ⟨_, _, rfl, htaken, hrest⟩
  · rintro ⟨taken, rest, rfl, htaken, hrest⟩
    exact .wildcard htaken hrest

/-- Before its own letter the wildcard is a letter. -/
theorem literally_cons_star : MatchesLiterally star accepts (star :: ps) (star :: xs) ↔
    MatchesLiterally star accepts ps xs := by
  constructor
  · intro h
    obtain ⟨taken, rest, hsplit, htaken, hrest⟩ := wildcard_iff.mp h
    have honly : taken = [star] := htaken (by rw [← hsplit]; rfl)
    subst honly
    cases hsplit
    exact hrest
  · intro h
    exact wildcard_iff.mpr ⟨[star], xs, rfl, fun _ => rfl, h⟩

/-- Before any other letter the wildcard takes anything. -/
theorem literally_wildcard (hxs : xs.head? ≠ some star) :
    MatchesLiterally star accepts (star :: ps) xs ↔
      ∃ n, MatchesLiterally star accepts ps (xs.drop n) := by
  constructor
  · intro h
    obtain ⟨taken, rest, rfl, -, hrest⟩ := wildcard_iff.mp h
    refine ⟨taken.length, ?_⟩
    rw [List.drop_left]
    exact hrest
  · rintro ⟨n, hn⟩
    refine wildcard_iff.mpr ⟨xs.take n, xs.drop n, (List.take_append_drop n xs).symm, ?_, hn⟩
    intro hhead
    rw [List.take_append_drop] at hhead
    exact absurd hhead hxs

/-- Only wildcards match the empty word. -/
theorem literally_nil : MatchesLiterally star accepts ps [] ↔ ∀ p ∈ ps, p = star := by
  induction ps with
  | nil => exact iff_of_true .nil nofun
  | cons p ps ih =>
      rw [List.forall_mem_cons]
      by_cases hp : p = star
      · subst hp
        have hempty : ([] : List α).head? ≠ some p := nofun
        rw [literally_wildcard hempty, and_iff_right rfl, ← ih]
        simp only [List.drop_nil, exists_const]
      · constructor
        · intro h
          obtain ⟨x, rest, hsplit, -⟩ := (letter_iff hp).mp h
          cases hsplit
        · intro h
          exact absurd h.1 hp

/-- Without the wildcard's own letter in the word there is no difference. -/
theorem literally_of_not_mem (h : Matches star accepts ps xs) (hxs : star ∉ xs) :
    MatchesLiterally star accepts ps xs := by
  induction h with
  | nil => exact .nil
  | letter hp hx _ ih => exact .letter hp hx (ih fun hmem => hxs (List.mem_cons_of_mem _ hmem))
  | wildcard _ _ ih =>
      refine .wildcard ?_ (ih fun hmem => hxs (List.mem_append_right _ hmem))
      intro hhead
      exact absurd (List.mem_of_head? hhead) hxs

end Splits

end Noleax.Lib
