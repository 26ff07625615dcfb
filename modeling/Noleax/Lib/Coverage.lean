import Noleax.Lib.FragmentOps

/-!
# Layouts that cover one range

A layout whose pieces cover exactly `[b, e)`, however the range is split. Growing
it, and the run from any of its pieces, only depend on the range.
-/

namespace Noleax.Lib

open Fragment

variable {α : Type*} {fs : List (Fragment α)} {f : Fragment α} {b e : ℕ}

/-- The pieces cover `[b, e)` and nothing else. -/
def Covers (b e : ℕ) (fs : List (Fragment α)) : Prop :=
  ∀ a, (∃ f ∈ fs, f.Contains a) ↔ b ≤ a ∧ a < e

theorem covers_single (v : α) : Covers b e [⟨b, e, v⟩] := by
  intro a
  simp

/-- Erasing a range empties a list that lies in it. -/
theorem cutAll_eq_nil (hl : Layout fs) :
    cutAll b e fs = [] ↔ ∀ f ∈ fs, b ≤ f.start ∧ f.stop ≤ e := by
  unfold cutAll
  rw [List.flatMap_eq_nil_iff]
  refine forall₂_congr fun f hf => ?_
  have hne := hl.nonempty f hf
  unfold Fragment.cut
  split
  · rename_i hmeets
    rw [List.append_eq_nil_iff]
    constructor
    · rintro ⟨hleft, hright⟩
      constructor
      · by_contra hlt
        simp [if_pos (show f.start < b by omega)] at hleft
      · by_contra hlt
        simp [if_pos (show e < f.stop by omega)] at hright
    · rintro ⟨hleft, hright⟩
      rw [if_neg (by omega), if_neg (by omega)]
      exact ⟨rfl, rfl⟩
  · rename_i hmeets
    simp only [List.cons_ne_nil, false_iff, not_and]
    unfold Fragment.Meets at hmeets
    omega

namespace Covers

/-- Every piece lies in the range. -/
theorem within (h : Covers b e fs) (hl : Layout fs) (hf : f ∈ fs) :
    b ≤ f.start ∧ f.stop ≤ e := by
  have hne := hl.nonempty f hf
  have hfirst := (h f.start).mp ⟨f, hf, le_rfl, hne⟩
  have hlast := (h (f.stop - 1)).mp ⟨f, hf, by omega, by omega⟩
  omega

/-- The range begins with a piece. -/
theorem first (h : Covers b e fs) (hl : Layout fs) (hbe : b < e) : ∃ f ∈ fs, f.start = b := by
  obtain ⟨f, hf, hc⟩ := (h b).mpr ⟨le_rfl, hbe⟩
  have hlow := (h.within hl hf).1
  exact ⟨f, hf, Nat.le_antisymm hc.1 hlow⟩

/-- From any piece the run reaches the end of the range. -/
theorem runFrom (h : Covers b e fs) (hl : Layout fs) (hf : f ∈ fs) :
    runFrom f.stop fs = e := by
  have hin := h.within hl hf
  have hne := hl.nonempty f hf
  apply (hl.isRun hf).unique
  refine ⟨hin.2, ?_, ?_, ?_⟩
  · intro g hg _
    have hgin := h.within hl hg
    by_cases hlt : g.start < f.stop
    · exact .inl (hl.stop_le hf hg hlt)
    · exact .inr ⟨by omega, hgin.2⟩
  · intro a hlow hhigh
    exact (h a).mpr ⟨by omega, hhigh⟩
  · intro g hg heq
    have hgin := h.within hl hg
    have hgne := hl.nonempty g hg
    omega

/-- A range put after the end continues the covered one. -/
theorem extend (h : Covers b e fs) (hl : Layout fs) (hbe : b ≤ e) {e' : ℕ} (hee : e ≤ e')
    (v : α) : Covers b e' (place ⟨e, e', v⟩ (cutAll e e' fs)) := by
  have hno : ∀ g ∈ fs, ¬ g.Meets e e' := by
    intro g hg hm
    have hgin := h.within hl hg
    have := hm.2.1
    omega
  rw [cutAll_of_disjoint hno]
  intro a
  constructor
  · rintro ⟨g, hg, hc⟩
    rcases mem_place.mp hg with rfl | hg
    · exact ⟨Nat.le_trans hbe hc.1, hc.2⟩
    · have hin := (h a).mp ⟨g, hg, hc⟩
      omega
  · intro ⟨hlow, hhigh⟩
    by_cases hae : a < e
    · obtain ⟨g, hg, hc⟩ := (h a).mpr ⟨hlow, hae⟩
      exact ⟨g, mem_place.mpr (.inr hg), hc⟩
    · exact ⟨⟨e, e', v⟩, mem_place.mpr (.inl rfl), Nat.le_of_not_lt hae, hhigh⟩

/-- Only a cut of the whole range leaves nothing. -/
theorem cutAll_eq_nil_iff (h : Covers b e fs) (hl : Layout fs) (hbe : b < e) {r : ℕ} :
    cutAll b r fs = [] ↔ e ≤ r := by
  rw [cutAll_eq_nil hl]
  constructor
  · intro hin
    obtain ⟨f, hf, hc⟩ := (h (e - 1)).mpr ⟨by omega, by omega⟩
    have hstop := (hin f hf).2
    have := hc.2
    omega
  · intro her f hf
    have hfin := h.within hl hf
    exact ⟨hfin.1, by omega⟩

/-- A cut from the start of the range meets it. -/
theorem clipAll_ne_nil (h : Covers b e fs) (hl : Layout fs) (hbe : b < e) {r : ℕ} (hbr : b < r) :
    clipAll b r fs ≠ [] := by
  obtain ⟨f, hf, hstart⟩ := h.first hl hbe
  have hne := hl.nonempty f hf
  apply Lib.clipAll_ne_nil.mpr
  exact ⟨f, hf, by omega, by omega, hbr⟩

end Covers

end Noleax.Lib
