import Mathlib.Tactic

/-!
# Labelled half-open intervals

A finite partial map from addresses to labels, stored as the list of its
constant pieces `[start, stop)`. `cutAll b e` erases the range `[b, e)`,
`clipAll b e` is what that erasure removes, and `place` puts one piece at its
position in the address order. Everything here is about lists of fragments
over an arbitrary label type; pieces are never merged, so the results below
are equalities of lists and not only of the maps they denote.
-/

namespace Noleax.Lib

variable {α β : Type*}

/-- One constant piece of the map: `[start, stop)` carries `value`. -/
@[ext]
structure Fragment (α : Type*) where
  start : ℕ
  stop : ℕ
  value : α
deriving DecidableEq, Repr

namespace Fragment

/-- The number of addresses of the piece. -/
def size (f : Fragment α) : ℕ := f.stop - f.start

abbrev Contains (f : Fragment α) (a : ℕ) : Prop := f.start ≤ a ∧ a < f.stop

/-- The piece meets the range `[b, e)`. -/
abbrev Meets (f : Fragment α) (b e : ℕ) : Prop := f.start < e ∧ b < f.stop ∧ b < e

/-- What is left of the piece when `[b, e)` is erased: at most a prefix and a
suffix. -/
def cut (b e : ℕ) (f : Fragment α) : List (Fragment α) :=
  if f.Meets b e then
    (if f.start < b then [⟨f.start, b, f.value⟩] else []) ++
      (if e < f.stop then [⟨e, f.stop, f.value⟩] else [])
  else [f]

/-- The part of the piece inside `[b, e)`. -/
def clip (b e : ℕ) (f : Fragment α) : List (Fragment α) :=
  if f.Meets b e then [⟨max f.start b, min f.stop e, f.value⟩] else []

/-- Relabel a piece. -/
def map (g : α → β) (f : Fragment α) : Fragment β := ⟨f.start, f.stop, g f.value⟩

@[simp] theorem map_start (g : α → β) (f : Fragment α) : (f.map g).start = f.start := rfl
@[simp] theorem map_stop (g : α → β) (f : Fragment α) : (f.map g).stop = f.stop := rfl
@[simp] theorem map_value (g : α → β) (f : Fragment α) : (f.map g).value = g f.value := rfl
@[simp] theorem map_size (g : α → β) (f : Fragment α) : (f.map g).size = f.size := rfl

theorem cut_of_not_meets {b e : ℕ} {f : Fragment α} (h : ¬ f.Meets b e) : f.cut b e = [f] :=
  if_neg h

theorem clip_of_not_meets {b e : ℕ} {f : Fragment α} (h : ¬ f.Meets b e) : f.clip b e = [] :=
  if_neg h

/-- Every residue lies inside the piece, carries its label, is nonempty and
avoids the erased range. -/
theorem mem_cut {b e : ℕ} {f g : Fragment α} (hf : f.start < f.stop) (hg : g ∈ f.cut b e) :
    f.start ≤ g.start ∧ g.stop ≤ f.stop ∧ g.start < g.stop ∧ g.value = f.value ∧
      ¬ g.Meets b e := by
  unfold cut at hg
  split at hg
  · rename_i hm
    simp only [Meets] at hm ⊢
    rw [List.mem_append] at hg
    rcases hg with hg | hg
    · split at hg
      · simp only [List.mem_singleton] at hg
        subst hg
        exact ⟨le_rfl, by simp; omega, by simp; omega, rfl, by simp⟩
      · simp at hg
    · split at hg
      · simp only [List.mem_singleton] at hg
        subst hg
        exact ⟨by simp; omega, le_rfl, by simp; omega, rfl, by simp⟩
      · simp at hg
  · rename_i hm
    simp only [List.mem_singleton] at hg
    subst hg
    exact ⟨le_rfl, le_rfl, hf, rfl, hm⟩

theorem mem_clip {b e : ℕ} {f g : Fragment α} (hf : f.start < f.stop) (hg : g ∈ f.clip b e) :
    f.Meets b e ∧ g.start = max f.start b ∧ g.stop = min f.stop e ∧ g.value = f.value ∧
      g.start < g.stop := by
  unfold clip at hg
  split at hg
  · rename_i hm
    simp only [List.mem_singleton] at hg
    subst hg
    simp only [Meets] at hm
    exact ⟨hm, rfl, rfl, rfl, by simp; omega⟩
  · simp at hg

theorem cut_map (g : α → β) (b e : ℕ) (f : Fragment α) :
    (f.map g).cut b e = (f.cut b e).map (map g) := by
  grind [cut, map]

/-- Erasing two adjacent ranges is erasing their union. -/
theorem cut_cut_adjacent {a b c : ℕ} (hab : a ≤ b) (hbc : b ≤ c) {f : Fragment α}
    (hf : f.start < f.stop) :
    (f.cut a b).flatMap (cut b c) = f.cut a c := by
  obtain ⟨s, t, v⟩ := f
  simp only at hf
  simp only [cut]
  split_ifs <;>
    simp only [List.flatMap_cons, List.flatMap_nil, List.append_nil, List.nil_append,
      List.cons_append, cut] <;>
    grind

/-- Erasing and clipping split the bytes of the piece. -/
theorem size_cut_add_clip (b e : ℕ) {f : Fragment α} (hf : f.start < f.stop) :
    ((f.cut b e).map size).sum + ((f.clip b e).map size).sum = f.size := by
  by_cases hm : f.Meets b e
  · obtain ⟨h1, h2, h3⟩ := id hm
    simp only [cut, clip, if_pos hm]
    split_ifs <;> simp [size] <;> omega
  · simp [cut_of_not_meets hm, clip_of_not_meets hm]

end Fragment

open Fragment

/-! ## Lists of fragments -/

/-- Erase `[b, e)` from every piece. -/
def cutAll (b e : ℕ) (fs : List (Fragment α)) : List (Fragment α) := fs.flatMap (cut b e)

/-- The pieces of `[b, e)`, in list order. -/
def clipAll (b e : ℕ) (fs : List (Fragment α)) : List (Fragment α) := fs.flatMap (clip b e)

/-- The number of addresses of all pieces. -/
def totalBytes (fs : List (Fragment α)) : ℕ := (fs.map size).sum

/-- The label of an address. -/
def ownerAt (fs : List (Fragment α)) (a : ℕ) : Option α :=
  (fs.find? fun f => f.Contains a).map Fragment.value

/-- Put a piece before the first one that starts after it. -/
def place (f : Fragment α) : List (Fragment α) → List (Fragment α)
  | [] => [f]
  | g :: gs => if f.start < g.start then f :: g :: gs else g :: place f gs

theorem place_of_lt {f g : Fragment α} (h : f.start < g.start) (gs : List (Fragment α)) :
    place f (g :: gs) = f :: g :: gs := if_pos h

theorem place_of_not_lt {f g : Fragment α} (h : ¬ f.start < g.start) (gs : List (Fragment α)) :
    place f (g :: gs) = g :: place f gs := if_neg h

/-- The pieces are nonempty, disjoint and in address order. -/
structure Layout (fs : List (Fragment α)) : Prop where
  ordered : fs.Pairwise fun f g => f.stop ≤ g.start
  nonempty : ∀ f ∈ fs, f.start < f.stop

@[simp] theorem cutAll_nil (b e : ℕ) : cutAll b e ([] : List (Fragment α)) = [] := rfl

@[simp] theorem cutAll_cons (b e : ℕ) (f : Fragment α) (fs : List (Fragment α)) :
    cutAll b e (f :: fs) = f.cut b e ++ cutAll b e fs := rfl

@[simp] theorem cutAll_append (b e : ℕ) (fs gs : List (Fragment α)) :
    cutAll b e (fs ++ gs) = cutAll b e fs ++ cutAll b e gs := List.flatMap_append ..

@[simp] theorem clipAll_nil (b e : ℕ) : clipAll b e ([] : List (Fragment α)) = [] := rfl

@[simp] theorem clipAll_cons (b e : ℕ) (f : Fragment α) (fs : List (Fragment α)) :
    clipAll b e (f :: fs) = f.clip b e ++ clipAll b e fs := rfl

@[simp] theorem clipAll_append (b e : ℕ) (fs gs : List (Fragment α)) :
    clipAll b e (fs ++ gs) = clipAll b e fs ++ clipAll b e gs := List.flatMap_append ..

@[simp] theorem totalBytes_nil : totalBytes ([] : List (Fragment α)) = 0 := rfl

@[simp] theorem totalBytes_cons (f : Fragment α) (fs : List (Fragment α)) :
    totalBytes (f :: fs) = f.size + totalBytes fs := rfl

@[simp] theorem totalBytes_append (fs gs : List (Fragment α)) :
    totalBytes (fs ++ gs) = totalBytes fs + totalBytes gs := by simp [totalBytes]

@[simp] theorem totalBytes_map (g : α → β) (fs : List (Fragment α)) :
    totalBytes (fs.map (Fragment.map g)) = totalBytes fs := by
  simp [totalBytes, Function.comp_def]

namespace Layout

variable {fs gs : List (Fragment α)} {f g : Fragment α}

theorem nil : Layout ([] : List (Fragment α)) := ⟨.nil, by simp⟩

theorem cons_iff : Layout (f :: fs) ↔
    f.start < f.stop ∧ (∀ g ∈ fs, f.stop ≤ g.start) ∧ Layout fs := by
  constructor
  · rintro ⟨ho, hn⟩
    rw [List.pairwise_cons] at ho
    exact ⟨hn f (by simp), ho.1, ho.2, fun g hg => hn g (by simp [hg])⟩
  · rintro ⟨hf, hlt, ho, hn⟩
    refine ⟨List.pairwise_cons.mpr ⟨hlt, ho⟩, ?_⟩
    intro g hg
    rcases List.mem_cons.mp hg with rfl | hg
    · exact hf
    · exact hn g hg

theorem append_iff : Layout (fs ++ gs) ↔
    Layout fs ∧ Layout gs ∧ ∀ f ∈ fs, ∀ g ∈ gs, f.stop ≤ g.start := by
  constructor
  · rintro ⟨ho, hn⟩
    rw [List.pairwise_append] at ho
    exact ⟨⟨ho.1, fun f hf => hn f (by simp [hf])⟩, ⟨ho.2.1, fun f hf => hn f (by simp [hf])⟩,
      ho.2.2⟩
  · rintro ⟨h1, h2, h3⟩
    refine ⟨List.pairwise_append.mpr ⟨h1.ordered, h2.ordered, h3⟩, ?_⟩
    intro f hf
    rcases List.mem_append.mp hf with hf | hf
    · exact h1.nonempty f hf
    · exact h2.nonempty f hf

/-- A layout splits at any address. -/
theorem split_at (h : Layout fs) (e : ℕ) :
    ∃ pre post, fs = pre ++ post ∧ (∀ f ∈ pre, f.start < e) ∧ ∀ f ∈ post, e ≤ f.start := by
  induction fs with
  | nil => exact ⟨[], [], rfl, by simp, by simp⟩
  | cons f fs ih =>
      obtain ⟨hf, hlt, hrest⟩ := cons_iff.mp h
      by_cases hfe : f.start < e
      · obtain ⟨pre, post, rfl, hpre, hpost⟩ := ih hrest
        refine ⟨f :: pre, post, rfl, ?_, hpost⟩
        intro g hg
        rcases List.mem_cons.mp hg with rfl | hg
        · exact hfe
        · exact hpre g hg
      · refine ⟨[], f :: fs, rfl, by simp, ?_⟩
        intro g hg
        rcases List.mem_cons.mp hg with rfl | hg
        · omega
        · have := hlt g hg
          omega

theorem sublist (h : Layout fs) (hs : List.Sublist gs fs) : Layout gs :=
  ⟨h.ordered.sublist hs, fun f hf => h.nonempty f (hs.subset hf)⟩

theorem map (h : Layout fs) (r : α → β) : Layout (fs.map (Fragment.map r)) := by
  refine ⟨List.pairwise_map.mpr h.ordered, ?_⟩
  intro f hf
  obtain ⟨g, hg, rfl⟩ := List.mem_map.mp hf
  exact h.nonempty g hg

theorem cut_single (h : f.start < f.stop) (b e : ℕ) : Layout (f.cut b e) := by
  simp only [cut]
  split_ifs with hm h1 h2 h2
  · refine cons_iff.mpr ⟨h1, ?_, cons_iff.mpr ⟨h2, by simp, nil⟩⟩
    simpa using hm.2.2.le
  · exact cons_iff.mpr ⟨h1, by simp, nil⟩
  · exact cons_iff.mpr ⟨h2, by simp, nil⟩
  · exact nil
  · exact cons_iff.mpr ⟨h, by simp, nil⟩

end Layout

theorem mem_cutAll {b e : ℕ} {fs : List (Fragment α)} {g : Fragment α} :
    g ∈ cutAll b e fs ↔ ∃ f ∈ fs, g ∈ f.cut b e := List.mem_flatMap

theorem mem_clipAll {b e : ℕ} {fs : List (Fragment α)} {g : Fragment α} :
    g ∈ clipAll b e fs ↔ ∃ f ∈ fs, g ∈ f.clip b e := List.mem_flatMap

theorem mem_place {f g : Fragment α} {fs : List (Fragment α)} :
    g ∈ place f fs ↔ g = f ∨ g ∈ fs := by
  induction fs with
  | nil => simp [place]
  | cons k fs ih =>
      unfold place
      split
      · simp
      · simp only [List.mem_cons, ih]
        tauto

namespace Layout

variable {fs gs : List (Fragment α)} {f g : Fragment α}

/-- Erasing keeps the pieces nonempty, disjoint and ordered. -/
theorem cutAll (h : Layout fs) (b e : ℕ) : Layout (cutAll b e fs) := by
  induction fs with
  | nil => exact nil
  | cons f fs ih =>
      obtain ⟨hf, hlt, hrest⟩ := cons_iff.mp h
      rw [cutAll_cons]
      refine append_iff.mpr ⟨cut_single hf b e, ih hrest, ?_⟩
      intro f' hf' g' hg'
      obtain ⟨g, hg, hgc⟩ := mem_cutAll.mp hg'
      have h1 := mem_cut hf hf'
      have h2 := mem_cut (hrest.nonempty g hg) hgc
      have h3 := hlt g hg
      omega

theorem clipAll (h : Layout fs) (b e : ℕ) : Layout (clipAll b e fs) := by
  induction fs with
  | nil => exact nil
  | cons f fs ih =>
      obtain ⟨hf, hlt, hrest⟩ := cons_iff.mp h
      rw [clipAll_cons]
      refine append_iff.mpr ⟨?_, ih hrest, ?_⟩
      · by_cases hm : f.Meets b e
        · have hc : f.clip b e = [⟨max f.start b, min f.stop e, f.value⟩] := if_pos hm
          have := (mem_clip hf (hc ▸ List.mem_singleton_self _)).2.2.2.2
          rw [hc]
          exact cons_iff.mpr ⟨this, by simp, nil⟩
        · rw [clip_of_not_meets hm]
          exact nil
      · intro f' hf' g' hg'
        obtain ⟨g, hg, hgc⟩ := mem_clipAll.mp hg'
        obtain ⟨-, -, hs, -⟩ := mem_clip hf hf'
        obtain ⟨-, ht, -⟩ := mem_clip (hrest.nonempty g hg) hgc
        have h3 := hlt g hg
        omega

/-- A piece that overlaps nothing can be placed. -/
theorem place (h : Layout fs) (hf : f.start < f.stop)
    (hdis : ∀ g ∈ fs, f.stop ≤ g.start ∨ g.stop ≤ f.start) : Layout (place f fs) := by
  induction fs with
  | nil => exact cons_iff.mpr ⟨hf, by simp, nil⟩
  | cons g fs ih =>
      obtain ⟨hg, hlt, hrest⟩ := cons_iff.mp h
      have hgd := hdis g (by simp)
      unfold Lib.place
      split
      · refine cons_iff.mpr ⟨hf, ?_, h⟩
        intro k hk
        rcases List.mem_cons.mp hk with rfl | hk
        · omega
        · have := hlt k hk
          omega
      · refine cons_iff.mpr ⟨hg, ?_, ih hrest fun k hk => hdis k (by simp [hk])⟩
        intro k hk
        rcases mem_place.mp hk with rfl | hk
        · omega
        · exact hlt k hk

end Layout

/-! ### Erasing -/

theorem cutAll_of_disjoint {b e : ℕ} {fs : List (Fragment α)} (h : ∀ f ∈ fs, ¬ f.Meets b e) :
    cutAll b e fs = fs := by
  induction fs with
  | nil => rfl
  | cons f fs ih =>
      rw [cutAll_cons, cut_of_not_meets (h f (by simp)), ih fun g hg => h g (by simp [hg])]
      rfl

theorem clipAll_of_disjoint {b e : ℕ} {fs : List (Fragment α)} (h : ∀ f ∈ fs, ¬ f.Meets b e) :
    clipAll b e fs = [] := by
  induction fs with
  | nil => rfl
  | cons f fs ih =>
      rw [clipAll_cons, clip_of_not_meets (h f (by simp)), ih fun g hg => h g (by simp [hg])]
      rfl

/-- Something is clipped exactly when a piece meets the range. -/
theorem clipAll_ne_nil {b e : ℕ} {fs : List (Fragment α)} :
    clipAll b e fs ≠ [] ↔ ∃ f ∈ fs, f.Meets b e := by
  constructor
  · intro h
    by_contra hno
    push Not at hno
    exact h (clipAll_of_disjoint hno)
  · rintro ⟨f, hf, hm⟩ hnil
    have hmem : (⟨max f.start b, min f.stop e, f.value⟩ : Fragment α) ∈ clipAll b e fs :=
      mem_clipAll.mpr ⟨f, hf, by rw [clip, if_pos hm]; simp⟩
    rw [hnil] at hmem
    simp at hmem

theorem cutAll_of_le {b e : ℕ} (h : e ≤ b) (fs : List (Fragment α)) : cutAll b e fs = fs :=
  cutAll_of_disjoint fun _ _ hm => absurd hm.2.2 (by omega)

theorem clipAll_of_le {b e : ℕ} (h : e ≤ b) (fs : List (Fragment α)) : clipAll b e fs = [] :=
  clipAll_of_disjoint fun _ _ hm => absurd hm.2.2 (by omega)

/-- Erasing two adjacent ranges is erasing their union. -/
theorem cutAll_cutAll_adjacent {a b c : ℕ} (hab : a ≤ b) (hbc : b ≤ c)
    {fs : List (Fragment α)} (hfs : ∀ f ∈ fs, f.start < f.stop) :
    cutAll b c (cutAll a b fs) = cutAll a c fs := by
  induction fs with
  | nil => rfl
  | cons f fs ih =>
      rw [cutAll_cons, cutAll_append, ih fun g hg => hfs g (by simp [hg]), cutAll_cons,
        ← cut_cut_adjacent hab hbc (hfs f (by simp))]
      rfl

theorem totalBytes_cutAll (b e : ℕ) {fs : List (Fragment α)} (hfs : ∀ f ∈ fs, f.start < f.stop) :
    totalBytes (cutAll b e fs) + totalBytes (clipAll b e fs) = totalBytes fs := by
  induction fs with
  | nil => rfl
  | cons f fs ih =>
      have h1 := size_cut_add_clip b e (hfs f (by simp))
      have h2 := ih fun g hg => hfs g (by simp [hg])
      simp only [cutAll_cons, clipAll_cons, totalBytes_append, totalBytes_cons]
      simp only [totalBytes] at h2 ⊢
      omega

/-- Erasing acts on each label separately. -/
theorem filter_cutAll (p : α → Bool) (b e : ℕ) {fs : List (Fragment α)}
    (hfs : ∀ f ∈ fs, f.start < f.stop) :
    (cutAll b e fs).filter (fun f => p f.value) =
      cutAll b e (fs.filter fun f => p f.value) := by
  induction fs with
  | nil => rfl
  | cons f fs ih =>
      have hf := hfs f (by simp)
      have hval : ∀ g ∈ f.cut b e, p g.value = p f.value := fun g hg => by
        rw [(mem_cut hf hg).2.2.2.1]
      rw [cutAll_cons, List.filter_append, ih fun g hg => hfs g (by simp [hg])]
      cases hp : p f.value with
      | true =>
          rw [List.filter_cons_of_pos (by simpa using hp), cutAll_cons,
            List.filter_eq_self.mpr fun g hg => by rw [hval g hg, hp]]
      | false =>
          rw [List.filter_cons_of_neg (by simp [hp]),
            List.filter_eq_nil_iff.mpr fun g hg => by simp [hval g hg, hp], List.nil_append]

theorem filter_clipAll (p : α → Bool) (b e : ℕ) {fs : List (Fragment α)}
    (hfs : ∀ f ∈ fs, f.start < f.stop) :
    (clipAll b e fs).filter (fun f => p f.value) =
      clipAll b e (fs.filter fun f => p f.value) := by
  induction fs with
  | nil => rfl
  | cons f fs ih =>
      have hf := hfs f (by simp)
      have hval : ∀ g ∈ f.clip b e, p g.value = p f.value := fun g hg => by
        rw [(mem_clip hf hg).2.2.2.1]
      rw [clipAll_cons, List.filter_append, ih fun g hg => hfs g (by simp [hg])]
      cases hp : p f.value with
      | true =>
          rw [List.filter_cons_of_pos (by simpa using hp), clipAll_cons,
            List.filter_eq_self.mpr fun g hg => by rw [hval g hg, hp]]
      | false =>
          rw [List.filter_cons_of_neg (by simp [hp]),
            List.filter_eq_nil_iff.mpr fun g hg => by simp [hval g hg, hp], List.nil_append]

theorem map_cutAll (r : α → β) (b e : ℕ) (fs : List (Fragment α)) :
    (cutAll b e fs).map (Fragment.map r) = cutAll b e (fs.map (Fragment.map r)) := by
  induction fs with
  | nil => rfl
  | cons f fs ih => simp [cutAll_cons, ih, cut_map]

/-! ### Placing -/

theorem totalBytes_place (f : Fragment α) (fs : List (Fragment α)) :
    totalBytes (place f fs) = f.size + totalBytes fs := by
  induction fs with
  | nil => rfl
  | cons g fs ih =>
      unfold place
      split
      · rfl
      · simp only [totalBytes_cons, ih]
        omega

theorem map_place (r : α → β) (f : Fragment α) (fs : List (Fragment α)) :
    (place f fs).map (Fragment.map r) = place (f.map r) (fs.map (Fragment.map r)) := by
  induction fs with
  | nil => rfl
  | cons g fs ih =>
      by_cases hfg : f.start < g.start
      · rw [place_of_lt hfg, List.map_cons, List.map_cons,
          place_of_lt (by simpa using hfg)]
      · rw [place_of_not_lt hfg, List.map_cons, List.map_cons, ih,
          place_of_not_lt (by simpa using hfg)]

/-- A piece that starts before every other one is placed in front. -/
theorem place_eq_cons {f : Fragment α} {fs : List (Fragment α)}
    (h : ∀ g ∈ fs, f.start < g.start) : place f fs = f :: fs := by
  cases fs with
  | nil => rfl
  | cons g fs => exact if_pos (h g (by simp))

/-- Placing a piece is visible only under its own label. -/
theorem filter_place (p : α → Bool) (f : Fragment α) {fs : List (Fragment α)} (h : Layout fs) :
    (place f fs).filter (fun g => p g.value) =
      if p f.value then place f (fs.filter fun g => p g.value)
      else fs.filter fun g => p g.value := by
  induction fs with
  | nil => simp [place, List.filter_cons]
  | cons g fs ih =>
      obtain ⟨hg, hlt, hrest⟩ := Layout.cons_iff.mp h
      by_cases hfg : f.start < g.start
      · have hall : ∀ k ∈ (g :: fs).filter (fun g => p g.value), f.start < k.start := by
          intro k hk
          rcases List.mem_cons.mp (List.mem_of_mem_filter hk) with rfl | hk
          · exact hfg
          · have := hlt k hk
            omega
        rw [place_of_lt hfg, List.filter_cons, place_eq_cons hall]
      · rw [place_of_not_lt hfg, List.filter_cons, List.filter_cons, ih hrest]
        cases hp : p f.value <;> cases hq : p g.value <;> simp [place_of_not_lt hfg]

/-! ### The partial map -/

/-- Disjoint pieces: an address is in at most one of them. -/
theorem Layout.eq_of_contains {fs : List (Fragment α)} (h : Layout fs) {f g : Fragment α}
    (hf : f ∈ fs) (hg : g ∈ fs) {a : ℕ} (hfa : f.Contains a) (hga : g.Contains a) : f = g := by
  induction fs with
  | nil => simp at hf
  | cons k fs ih =>
      obtain ⟨-, hlt, hrest⟩ := Layout.cons_iff.mp h
      rcases List.mem_cons.mp hf with hfk | hf <;> rcases List.mem_cons.mp hg with hgk | hg
      · rw [hfk, hgk]
      · have := hlt g hg
        subst hfk
        omega
      · have := hlt f hf
        subst hgk
        omega
      · exact ih hrest hf hg

theorem ownerAt_eq_none {fs : List (Fragment α)} {a : ℕ} :
    ownerAt fs a = none ↔ ∀ f ∈ fs, ¬ f.Contains a := by
  simp [ownerAt, List.find?_eq_none]

theorem ownerAt_eq_some {fs : List (Fragment α)} (h : Layout fs) {a : ℕ} {v : α} :
    ownerAt fs a = some v ↔ ∃ f ∈ fs, f.Contains a ∧ f.value = v := by
  unfold ownerAt
  constructor
  · intro hv
    obtain ⟨f, hf, hv⟩ := Option.map_eq_some_iff.mp hv
    exact ⟨f, List.mem_of_find?_eq_some hf, by simpa using List.find?_some hf, hv⟩
  · rintro ⟨f, hf, hfa, rfl⟩
    cases hk : fs.find? fun f => f.Contains a with
    | none =>
        have := List.find?_eq_none.mp hk f hf
        simp only [decide_eq_true_eq] at this
        exact absurd hfa this
    | some k =>
        have hka : k.Contains a := by simpa using List.find?_some hk
        rw [h.eq_of_contains (List.mem_of_find?_eq_some hk) hf hka hfa]
        rfl

/-- Two lists denote the same map when they have the same labelled addresses. -/
theorem ownerAt_congr {fs gs : List (Fragment α)} (hfs : Layout fs) (hgs : Layout gs) {a b : ℕ}
    (h : ∀ v, (∃ f ∈ fs, f.Contains a ∧ f.value = v) ↔ ∃ g ∈ gs, g.Contains b ∧ g.value = v) :
    ownerAt fs a = ownerAt gs b := by
  refine Option.ext fun v => ?_
  rw [ownerAt_eq_some hfs, ownerAt_eq_some hgs]
  exact h v

/-- Some residue of the piece contains an address exactly when the piece does
and the address is not erased. -/
theorem exists_cut_contains {b e a : ℕ} {f : Fragment α} :
    (∃ g ∈ f.cut b e, g.Contains a) ↔ f.Contains a ∧ ¬ (b ≤ a ∧ a < e) := by
  by_cases hm : f.Meets b e
  · obtain ⟨h1, h2, h3⟩ := id hm
    simp only [cut, if_pos hm]
    split_ifs <;> simp [Contains] <;> omega
  · rw [cut_of_not_meets hm]
    simp only [List.mem_singleton, exists_eq_left]
    omega

/-- Erasing a range erases exactly its addresses. -/
theorem ownerAt_cutAll {fs : List (Fragment α)} (h : Layout fs) (b e a : ℕ) :
    ownerAt (cutAll b e fs) a = if b ≤ a ∧ a < e then none else ownerAt fs a := by
  split
  · rename_i hin
    refine ownerAt_eq_none.mpr fun g hg hga => ?_
    obtain ⟨f, hf, hgf⟩ := mem_cutAll.mp hg
    exact (exists_cut_contains.mp ⟨g, hgf, hga⟩).2 hin
  · rename_i hout
    refine ownerAt_congr (h.cutAll b e) h fun v => ?_
    constructor
    · rintro ⟨g, hg, hga, rfl⟩
      obtain ⟨f, hf, hgf⟩ := mem_cutAll.mp hg
      exact ⟨f, hf, (exists_cut_contains.mp ⟨g, hgf, hga⟩).1,
        (mem_cut (h.nonempty f hf) hgf).2.2.2.1.symm⟩
    · rintro ⟨f, hf, hfa, rfl⟩
      obtain ⟨g, hgf, hga⟩ := exists_cut_contains.mpr ⟨hfa, hout⟩
      exact ⟨g, mem_cutAll.mpr ⟨f, hf, hgf⟩, hga, (mem_cut (h.nonempty f hf) hgf).2.2.2.1⟩

/-- Placing a piece overwrites exactly its addresses. -/
theorem ownerAt_place {f : Fragment α} {fs : List (Fragment α)} (h : Layout (place f fs))
    (hfs : Layout fs) (a : ℕ) :
    ownerAt (place f fs) a = if f.Contains a then some f.value else ownerAt fs a := by
  split
  · rename_i hfa
    exact (ownerAt_eq_some h).mpr ⟨f, mem_place.mpr (.inl rfl), hfa, rfl⟩
  · rename_i hfa
    refine ownerAt_congr h hfs fun v => ?_
    constructor
    · rintro ⟨g, hg, hga, rfl⟩
      rcases mem_place.mp hg with rfl | hg
      · exact absurd hga hfa
      · exact ⟨g, hg, hga, rfl⟩
    · rintro ⟨g, hg, hga, rfl⟩
      exact ⟨g, mem_place.mpr (.inr hg), hga, rfl⟩

/-- Disjoint pieces below a bound have at most that many bytes. -/
theorem Layout.totalBytes_le {fs : List (Fragment α)} (h : Layout fs) {low high : ℕ}
    (hlow : ∀ f ∈ fs, low ≤ f.start) (hhigh : ∀ f ∈ fs, f.stop ≤ high) (hle : low ≤ high) :
    low + totalBytes fs ≤ high := by
  induction fs generalizing low with
  | nil => exact hle
  | cons f fs ih =>
      obtain ⟨hf, hlt, hrest⟩ := Layout.cons_iff.mp h
      have hstart := hlow f List.mem_cons_self
      have hrestLe := ih hrest hlt (fun g hg => hhigh g (List.mem_cons_of_mem _ hg))
        (hhigh f List.mem_cons_self)
      rw [totalBytes_cons]
      unfold Fragment.size
      omega

/-- The bytes of disjoint pieces are the addresses they cover. -/
theorem Layout.totalBytes_eq_ncard {fs : List (Fragment α)} (h : Layout fs) :
    totalBytes fs = {a | ∃ f ∈ fs, f.Contains a}.ncard ∧
      {a | ∃ f ∈ fs, f.Contains a}.Finite := by
  induction fs with
  | nil => simp
  | cons f fs ih =>
      obtain ⟨hf, hlt, hrest⟩ := Layout.cons_iff.mp h
      obtain ⟨hcard, hfin⟩ := ih hrest
      have hsplit : {a | ∃ g ∈ f :: fs, g.Contains a} =
          Set.Ico f.start f.stop ∪ {a | ∃ g ∈ fs, g.Contains a} := by
        ext a
        simp [Set.mem_Ico]
      have hdis : Disjoint (Set.Ico f.start f.stop) {a | ∃ g ∈ fs, g.Contains a} := by
        refine Set.disjoint_left.mpr ?_
        rintro a ⟨-, ha⟩ ⟨g, hg, hga, -⟩
        have := hlt g hg
        omega
      have hIco : (Set.Ico f.start f.stop).ncard = f.size := by
        rw [← Finset.coe_Ico, Set.ncard_coe_finset, Nat.card_Ico]
        rfl
      refine ⟨?_, hsplit ▸ (Set.finite_Ico _ _).union hfin⟩
      rw [hsplit, Set.ncard_union_eq hdis (Set.finite_Ico _ _) hfin, hIco, ← hcard,
        totalBytes_cons]

end Noleax.Lib
