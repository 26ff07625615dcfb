import Noleax.Lib.Fragments

/-!
# Sequences of interval operations

What several erasures or insertions do together: erasing a list of pieces
(`eraseAll`), filling the space between given pieces (`fillGaps`), and walking
the pieces that continue a given end (`runFrom`). `eraseAll_place` says that
claiming a range and then giving back some pieces is the same as claiming the
gaps between them.
-/

namespace Noleax.Lib

open Fragment

variable {α β γ : Type*}

/-- Two layouts with the same pieces are the same list. -/
theorem Layout.ext {fs gs : List (Fragment α)} (hf : Layout fs) (hg : Layout gs)
    (h : ∀ f, f ∈ fs ↔ f ∈ gs) : fs = gs := by
  induction fs generalizing gs with
  | nil =>
      cases gs with
      | nil => rfl
      | cons g gs => exact absurd ((h g).mpr (by simp)) (by simp)
  | cons f fs ih =>
      cases gs with
      | nil => exact absurd ((h f).mp (by simp)) (by simp)
      | cons g gs =>
          obtain ⟨hfne, hflt, hfs⟩ := Layout.cons_iff.mp hf
          obtain ⟨hgne, hglt, hgs⟩ := Layout.cons_iff.mp hg
          -- the heads are the pieces with the least start
          have hhead : f = g := by
            rcases List.mem_cons.mp ((h f).mp (by simp)) with hfg | hfg
            · exact hfg
            · rcases List.mem_cons.mp ((h g).mpr (by simp)) with hgf | hgf
              · exact hgf.symm
              · have h1 := hglt f hfg
                have h2 := hflt g hgf
                omega
          subst hhead
          refine congrArg _ (ih hfs hgs fun k => ?_)
          have hk := h k
          simp only [List.mem_cons] at hk
          constructor
          · intro hmem
            rcases hk.mp (.inr hmem) with rfl | hmem'
            · have := hflt k hmem
              omega
            · exact hmem'
          · intro hmem
            rcases hk.mpr (.inr hmem) with rfl | hmem'
            · have := hglt k hmem
              omega
            · exact hmem'

/-! ## Pieces inside a layout -/

/-- `p` is a nonempty part of one of the pieces, with its label. -/
def Inside (p : Fragment α) (fs : List (Fragment α)) : Prop :=
  p.start < p.stop ∧ ∃ f ∈ fs, f.start ≤ p.start ∧ p.stop ≤ f.stop ∧ f.value = p.value

theorem inside_of_mem_clipAll {fs : List (Fragment α)} (h : Layout fs) {b e : ℕ}
    {p : Fragment α} (hp : p ∈ clipAll b e fs) : Inside p fs := by
  obtain ⟨f, hf, hpf⟩ := mem_clipAll.mp hp
  obtain ⟨-, hs, ht, hv, hlt⟩ := mem_clip (h.nonempty f hf) hpf
  exact ⟨hlt, f, hf, by omega, by omega, hv.symm⟩

/-- Erasing another place leaves the part inside. -/
theorem Inside.cutAll {p : Fragment α} {fs : List (Fragment α)} (h : Inside p fs) {b e : ℕ}
    (hdis : p.stop ≤ b ∨ e ≤ p.start) : Inside p (cutAll b e fs) := by
  obtain ⟨hlt, f, hf, hs, ht, hv⟩ := h
  by_cases hm : f.Meets b e
  · obtain ⟨h1, h2, h3⟩ := id hm
    rcases hdis with hd | hd
    · refine ⟨hlt, ⟨f.start, b, f.value⟩, mem_cutAll.mpr ⟨f, hf, ?_⟩, hs, hd, hv⟩
      rw [cut, if_pos hm, if_pos (by omega)]
      simp
    · refine ⟨hlt, ⟨e, f.stop, f.value⟩, mem_cutAll.mpr ⟨f, hf, ?_⟩, hd, ht, hv⟩
      rw [cut, if_pos hm, if_pos (show e < f.stop by omega)]
      simp
  · exact ⟨hlt, f, mem_cutAll.mpr ⟨f, hf, by rw [cut_of_not_meets hm]; simp⟩, hs, ht, hv⟩

theorem Inside.filter {p : Fragment α} {fs : List (Fragment α)} (h : Inside p fs)
    {q : α → Bool} (hq : q p.value = true) : Inside p (fs.filter fun f => q f.value) := by
  obtain ⟨hlt, f, hf, hs, ht, hv⟩ := h
  exact ⟨hlt, f, List.mem_filter.mpr ⟨hf, by rw [hv]; exact hq⟩, hs, ht, hv⟩

theorem Inside.map {p : Fragment α} {fs : List (Fragment α)} (h : Inside p fs) (r : α → β) :
    Inside (p.map r) (fs.map (Fragment.map r)) := by
  obtain ⟨hlt, f, hf, hs, ht, hv⟩ := h
  exact ⟨hlt, f.map r, List.mem_map_of_mem hf, hs, ht, congrArg r hv⟩

/-- Only the piece that holds `p` meets it. -/
theorem Inside.not_meets {p : Fragment α} {fs : List (Fragment α)} (hl : Layout fs)
    (h : Inside p fs) {g : Fragment α} (hg : g ∈ fs) (hne : g.value ≠ p.value) :
    ¬ g.Meets p.start p.stop := by
  obtain ⟨hlt, f, hf, hs, ht, hv⟩ := h
  intro hm
  -- the two pieces would share the address `max g.start p.start`
  have hfc : f.Contains (max g.start p.start) := by
    have := hm.1
    simp only [Contains]
    omega
  have hgc : g.Contains (max g.start p.start) := by
    have := hl.nonempty g hg
    have := hm.2.1
    simp only [Contains]
    omega
  have := hl.eq_of_contains hf hg hfc hgc
  rw [← hv, this] at hne
  exact hne rfl

/-- Erasing a part of one label leaves the pieces of every other label alone. -/
theorem Inside.cutAll_filter_ne {p : Fragment α} {fs : List (Fragment α)} (hl : Layout fs)
    (h : Inside p fs) {q : α → Bool} (hq : q p.value = false) :
    Lib.cutAll p.start p.stop (fs.filter fun f => q f.value) =
      fs.filter fun f => q f.value := by
  refine cutAll_of_disjoint fun g hg => ?_
  obtain ⟨hgf, hgq⟩ := List.mem_filter.mp hg
  refine h.not_meets hl hgf fun hv => ?_
  rw [hv, hq] at hgq
  exact absurd hgq (by simp)

theorem Inside.clipAll_eq {p : Fragment α} {fs : List (Fragment α)} (hl : Layout fs)
    (h : Inside p fs) : clipAll p.start p.stop fs = [p] := by
  obtain ⟨hlt, f, hf, hs, ht, hv⟩ := h
  have hsingle : Layout [p] := Layout.cons_iff.mpr ⟨hlt, by simp, .nil⟩
  refine (hl.clipAll _ _).ext hsingle fun g => ?_
  rw [List.mem_singleton, mem_clipAll]
  constructor
  · rintro ⟨k, hk, hgk⟩
    obtain ⟨hm, hgs, hgt, hgv, hglt⟩ := mem_clip (hl.nonempty k hk) hgk
    have hkf : k = f := by
      refine hl.eq_of_contains hk hf (a := max k.start p.start) ?_ ?_
      · have := hl.nonempty k hk
        have := hm.2.1
        simp only [Contains]
        omega
      · have := hm.1
        simp only [Contains]
        omega
    subst hkf
    refine Fragment.ext ?_ ?_ ?_
    · omega
    · omega
    · rw [hgv, hv]
  · rintro rfl
    refine ⟨f, hf, ?_⟩
    have hm : f.Meets g.start g.stop := ⟨by omega, by omega, hlt⟩
    rw [clip, if_pos hm, List.mem_singleton]
    refine Fragment.ext ?_ ?_ hv.symm
    · simp only
      omega
    · simp only
      omega

/-- Erasing a part costs exactly its bytes. -/
theorem Inside.totalBytes_cutAll {p : Fragment α} {fs : List (Fragment α)} (hl : Layout fs)
    (h : Inside p fs) : totalBytes (Lib.cutAll p.start p.stop fs) + p.size = totalBytes fs := by
  rw [← Lib.totalBytes_cutAll p.start p.stop hl.nonempty, h.clipAll_eq hl]
  rfl

/-- A part keeps a layout from being empty, also when another place is erased. -/
theorem Inside.ne_nil {p : Fragment α} {fs : List (Fragment α)} (h : Inside p fs) : fs ≠ [] := by
  obtain ⟨-, f, hf, -⟩ := h
  exact List.ne_nil_of_mem hf

theorem totalBytes_eq_zero {fs : List (Fragment α)} (hl : Layout fs) :
    totalBytes fs = 0 ↔ fs = [] := by
  constructor
  · intro h
    cases fs with
    | nil => rfl
    | cons f fs =>
        have := (Layout.cons_iff.mp hl).1
        rw [totalBytes_cons, size] at h
        omega
  · rintro rfl
    rfl

/-! ## Erasing a list of pieces -/

/-- Erase the places of `ps` one after the other. -/
def eraseAll (ps : List (Fragment β)) (fs : List (Fragment α)) : List (Fragment α) :=
  ps.foldl (fun fs p => cutAll p.start p.stop fs) fs

@[simp] theorem eraseAll_nil (fs : List (Fragment α)) :
    eraseAll ([] : List (Fragment β)) fs = fs := rfl

@[simp] theorem eraseAll_cons (p : Fragment β) (ps : List (Fragment β)) (fs : List (Fragment α)) :
    eraseAll (p :: ps) fs = eraseAll ps (cutAll p.start p.stop fs) := rfl

@[simp] theorem eraseAll_nil_right (ps : List (Fragment β)) :
    eraseAll ps ([] : List (Fragment α)) = [] := by
  induction ps with
  | nil => rfl
  | cons p ps ih => exact ih

theorem eraseAll_append (ps qs : List (Fragment β)) (fs : List (Fragment α)) :
    eraseAll (ps ++ qs) fs = eraseAll qs (eraseAll ps fs) := List.foldl_append ..

theorem Layout.eraseAll {fs : List (Fragment α)} (h : Layout fs) (ps : List (Fragment β)) :
    Layout (eraseAll ps fs) := by
  induction ps generalizing fs with
  | nil => exact h
  | cons p ps ih => exact ih (h.cutAll p.start p.stop)

theorem filter_eraseAll (q : α → Bool) (ps : List (Fragment β)) {fs : List (Fragment α)}
    (h : Layout fs) :
    (eraseAll ps fs).filter (fun f => q f.value) = eraseAll ps (fs.filter fun f => q f.value) := by
  induction ps generalizing fs with
  | nil => rfl
  | cons p ps ih =>
      rw [eraseAll_cons, eraseAll_cons, ih (h.cutAll _ _), filter_cutAll q _ _ h.nonempty]

theorem map_eraseAll (r : α → γ) (ps : List (Fragment β)) (fs : List (Fragment α)) :
    (eraseAll ps fs).map (Fragment.map r) = eraseAll ps (fs.map (Fragment.map r)) := by
  induction ps generalizing fs with
  | nil => rfl
  | cons p ps ih => rw [eraseAll_cons, eraseAll_cons, ih, map_cutAll]

/-- An address survives when it is in none of the erased places. -/
theorem ownerAt_eraseAll (ps : List (Fragment β)) {fs : List (Fragment α)} (h : Layout fs)
    (a : ℕ) : ownerAt (eraseAll ps fs) a =
      if ∃ p ∈ ps, p.Contains a then none else ownerAt fs a := by
  induction ps generalizing fs with
  | nil => simp
  | cons p ps ih =>
      rw [eraseAll_cons, ih (h.cutAll _ _), ownerAt_cutAll h]
      simp only [List.mem_cons, exists_eq_or_imp]
      by_cases hps : ∃ p ∈ ps, p.Contains a
      · rw [if_pos hps, if_pos (.inr hps)]
      · by_cases hp : p.Contains a
        · rw [if_neg hps, if_pos hp, if_pos (.inl hp)]
        · rw [if_neg hps, if_neg hp, if_neg (by simp [hp, hps])]

/-- Every residue is part of an original piece. -/
theorem mem_eraseAll {ps : List (Fragment β)} {fs : List (Fragment α)} (h : Layout fs)
    {g : Fragment α} (hg : g ∈ eraseAll ps fs) :
    ∃ f ∈ fs, f.start ≤ g.start ∧ g.stop ≤ f.stop ∧ g.value = f.value := by
  induction ps generalizing fs with
  | nil => exact ⟨g, hg, le_rfl, le_rfl, rfl⟩
  | cons p ps ih =>
      obtain ⟨k, hk, h1, h2, h3⟩ := ih (h.cutAll _ _) hg
      obtain ⟨f, hf, hkf⟩ := mem_cutAll.mp hk
      obtain ⟨h4, h5, -, h6, -⟩ := mem_cut (h.nonempty f hf) hkf
      exact ⟨f, hf, h4.trans h1, h2.trans h5, h3.trans h6⟩

/-- A piece that none of the erased places meets stays as it is. -/
theorem mem_eraseAll_of_disjoint {ps : List (Fragment β)} {fs : List (Fragment α)}
    {f : Fragment α} (hf : f ∈ fs) (hdis : ∀ p ∈ ps, ¬ f.Meets p.start p.stop) :
    f ∈ eraseAll ps fs := by
  induction ps generalizing fs with
  | nil => exact hf
  | cons p ps ih =>
      refine ih (mem_cutAll.mpr ⟨f, hf, ?_⟩) fun q hq => hdis q (by simp [hq])
      rw [cut_of_not_meets (hdis p (by simp))]
      simp

theorem Inside.eraseAll {p : Fragment α} {fs : List (Fragment α)} (h : Inside p fs)
    {ps : List (Fragment β)} (hdis : ∀ k ∈ ps, p.stop ≤ k.start ∨ k.stop ≤ p.start) :
    Inside p (eraseAll ps fs) := by
  induction ps generalizing fs with
  | nil => exact h
  | cons k ps ih =>
      exact ih (h.cutAll (hdis k (by simp))) fun k' hk' => hdis k' (by simp [hk'])

/-- Erasures of separate ranges commute. -/
theorem cut_cut_comm {a b c d : ℕ} (hbc : b ≤ c) {f : Fragment α} (hf : f.start < f.stop) :
    (f.cut a b).flatMap (cut c d) = (f.cut c d).flatMap (cut a b) := by
  obtain ⟨s, t, v⟩ := f
  simp only at hf
  simp only [cut]
  split_ifs <;>
    simp only [List.flatMap_cons, List.flatMap_nil, List.append_nil, List.nil_append,
      List.cons_append, cut] <;>
    grind

theorem cutAll_cutAll_comm {a b c d : ℕ} (hbc : b ≤ c) {fs : List (Fragment α)}
    (h : Layout fs) : cutAll c d (cutAll a b fs) = cutAll a b (cutAll c d fs) := by
  have hne := h.nonempty
  clear h
  induction fs with
  | nil => rfl
  | cons f fs ih =>
      rw [cutAll_cons, cutAll_append, ih fun g hg => hne g (by simp [hg]), cutAll_cons,
        cutAll_append]
      exact congrArg (· ++ _) (cut_cut_comm hbc (hne f (by simp)))

theorem cutAll_eraseAll {b e : ℕ} {ps : List (Fragment β)} {fs : List (Fragment α)}
    (h : Layout fs) (hps : ∀ p ∈ ps, e ≤ p.start) :
    cutAll b e (eraseAll ps fs) = eraseAll ps (cutAll b e fs) := by
  induction ps generalizing fs with
  | nil => rfl
  | cons p ps ih =>
      rw [eraseAll_cons, eraseAll_cons, ih (h.cutAll _ _) fun q hq => hps q (by simp [hq]),
        cutAll_cutAll_comm (hps p (by simp)) h]

/-- An erasure does not show in a later range. -/
theorem clipAll_cutAll {a b c d : ℕ} (hbc : b ≤ c) {fs : List (Fragment α)} (h : Layout fs) :
    clipAll c d (cutAll a b fs) = clipAll c d fs := by
  have hne := h.nonempty
  clear h
  induction fs with
  | nil => rfl
  | cons f fs ih =>
      rw [cutAll_cons, clipAll_append, ih fun g hg => hne g (by simp [hg]), clipAll_cons]
      refine congrArg (· ++ _) ?_
      have hf := hne f (by simp)
      obtain ⟨s, t, v⟩ := f
      simp only at hf
      simp only [cut]
      split_ifs <;>
        simp only [List.nil_append, List.cons_append, clipAll_cons, clipAll_nil,
          List.append_nil, clip] <;>
        grind

/-! ## Filling gaps -/

/-- Claim for `v` the parts of `[cursor, stop)` between the pieces `ps`, which
are in address order. -/
def fillGaps (v : α) (stop : ℕ) : ℕ → List (Fragment β) → List (Fragment α) → List (Fragment α)
  | cursor, [], fs =>
      if cursor < stop then place ⟨cursor, stop, v⟩ (cutAll cursor stop fs) else fs
  | cursor, p :: ps, fs =>
      fillGaps v stop p.stop ps
        (if cursor < p.start then place ⟨cursor, p.start, v⟩ (cutAll cursor p.start fs) else fs)

/-- The addresses the gaps hold. -/
def gapBytes (stop : ℕ) : ℕ → List (Fragment β) → ℕ
  | cursor, [] => stop - cursor
  | cursor, p :: ps => (p.start - cursor) + gapBytes stop p.stop ps

/-- `ps` is a layout inside `[b, e)`. -/
structure Tiles (b e : ℕ) (ps : List (Fragment β)) : Prop where
  layout : Layout ps
  lower : ∀ p ∈ ps, b ≤ p.start
  upper : ∀ p ∈ ps, p.stop ≤ e

theorem Tiles.tail {b e : ℕ} {p : Fragment β} {ps : List (Fragment β)} (h : Tiles b e (p :: ps)) :
    Tiles p.stop e ps := by
  obtain ⟨-, hlt, hl⟩ := Layout.cons_iff.mp h.layout
  exact ⟨hl, hlt, fun q hq => h.upper q (by simp [hq])⟩

theorem Tiles.of_clipAll {fs : List (Fragment β)} (h : Layout fs) (b e : ℕ) :
    Tiles b e (clipAll b e fs) := by
  refine ⟨h.clipAll b e, ?_, ?_⟩
  · intro p hp
    obtain ⟨f, hf, hpf⟩ := mem_clipAll.mp hp
    obtain ⟨-, hs, -⟩ := mem_clip (h.nonempty f hf) hpf
    omega
  · intro p hp
    obtain ⟨f, hf, hpf⟩ := mem_clipAll.mp hp
    obtain ⟨-, -, ht, -⟩ := mem_clip (h.nonempty f hf) hpf
    omega

theorem Tiles.filter {b e : ℕ} {ps : List (Fragment β)} (h : Tiles b e ps)
    (q : Fragment β → Bool) : Tiles b e (ps.filter q) :=
  ⟨h.layout.sublist List.filter_sublist, fun p hp => h.lower p (List.mem_of_mem_filter hp),
    fun p hp => h.upper p (List.mem_of_mem_filter hp)⟩

/-- A piece can be placed where nothing meets it. -/
theorem Layout.place_of_disjoint {f : Fragment α} {fs : List (Fragment α)} (h : Layout fs)
    (hf : f.start < f.stop) (hdis : ∀ g ∈ fs, ¬ g.Meets f.start f.stop) :
    Layout (Lib.place f fs) := by
  refine h.place hf fun g hg => ?_
  have h1 := hdis g hg
  simp only [Meets] at h1
  omega

/-- Giving one piece back leaves the part before it and the part after it. -/
theorem cutAll_place {b e : ℕ} {v : α} {fs : List (Fragment α)} (h : Layout fs) (hbe : b < e)
    (hdis : ∀ g ∈ fs, ¬ g.Meets b e) {s t : ℕ} (hs : b ≤ s) (hst : s < t) (ht : t ≤ e) :
    cutAll s t (place ⟨b, e, v⟩ fs) =
      (if t < e then place ⟨t, e, v⟩ else id)
        ((if b < s then place ⟨b, s, v⟩ else id) fs) := by
  have hno : ∀ g ∈ fs, ∀ x y, b ≤ x → y ≤ e → ¬ g.Meets x y := by
    intro g hg x y hx hy hm
    refine hdis g hg ⟨?_, ?_, hbe⟩
    · have := hm.1
      omega
    · have := hm.2.1
      omega
  have hlay : Layout (place ⟨b, e, v⟩ fs) := h.place_of_disjoint hbe hdis
  have hpre : Layout ((if b < s then place ⟨b, s, v⟩ else id) fs) := by
    split
    · rename_i hbs
      exact h.place_of_disjoint hbs fun g hg => hno g hg _ _ le_rfl (by simp only; omega)
    · exact h
  have hall : Layout ((if t < e then place ⟨t, e, v⟩ else id)
      ((if b < s then place ⟨b, s, v⟩ else id) fs)) := by
    split
    · rename_i hte
      refine hpre.place_of_disjoint hte fun g hg hm => ?_
      split at hg
      · rcases mem_place.mp hg with rfl | hg
        · have := hm.2.1
          simp only at this
          omega
        · exact hno g hg _ _ (by simp only; omega) le_rfl hm
      · exact hno g hg _ _ (by simp only; omega) le_rfl hm
    · exact hpre
  refine (hlay.cutAll s t).ext hall fun g => ?_
  have hmid : (⟨b, e, v⟩ : Fragment α).Meets s t := ⟨by simp only; omega, by simp only; omega, hst⟩
  have hold : (∃ f ∈ fs, g ∈ f.cut s t) ↔ g ∈ fs := by
    rw [← mem_cutAll, cutAll_of_disjoint fun f hf => hno f hf s t hs ht]
  rw [mem_cutAll]
  constructor
  · rintro ⟨f, hf, hgf⟩
    rcases mem_place.mp hf with rfl | hf
    · rw [cut, if_pos hmid, List.mem_append] at hgf
      rcases hgf with hgf | hgf
      · split_ifs at hgf with hbs
        · rw [List.mem_singleton] at hgf
          subst hgf
          simp only at hbs
          split_ifs <;> simp [mem_place]
        · simp at hgf
      · split_ifs at hgf with hte
        · rw [List.mem_singleton] at hgf
          subst hgf
          simp only at hte
          rw [if_pos hte]
          exact mem_place.mpr (.inl rfl)
        · simp at hgf
    · have hg := hold.mp ⟨f, hf, hgf⟩
      split_ifs <;> simp [mem_place, hg]
  · intro hg
    have hcases : (t < e ∧ g = ⟨t, e, v⟩) ∨ (b < s ∧ g = ⟨b, s, v⟩) ∨ g ∈ fs := by
      split_ifs at hg <;> simp only [mem_place, id_eq] at hg <;> tauto
    rcases hcases with ⟨hte, rfl⟩ | ⟨hbs, rfl⟩ | hg
    · refine ⟨_, mem_place.mpr (.inl rfl), ?_⟩
      rw [cut, if_pos hmid, if_pos (show t < e from hte)]
      simp
    · refine ⟨_, mem_place.mpr (.inl rfl), ?_⟩
      rw [cut, if_pos hmid, if_pos (show b < s from hbs)]
      simp
    · obtain ⟨f, hf, hgf⟩ := hold.mpr hg
      exact ⟨f, mem_place.mpr (.inr hf), hgf⟩

/-- Claiming `[b, e)` and giving the pieces `ps` back is claiming the gaps. -/
theorem eraseAll_place {b e : ℕ} {v : α} {ps : List (Fragment β)} {fs : List (Fragment α)}
    (h : Layout fs) (hbe : b < e) (hdis : ∀ g ∈ fs, ¬ g.Meets b e) (hps : Tiles b e ps) :
    eraseAll ps (place ⟨b, e, v⟩ fs) = fillGaps v e b ps fs := by
  induction ps generalizing b fs with
  | nil => rw [eraseAll_nil, fillGaps, if_pos hbe, cutAll_of_disjoint hdis]
  | cons p ps ih =>
      have hne := (Layout.cons_iff.mp hps.layout).1
      have hlow := hps.lower p (by simp)
      have hupp := hps.upper p (by simp)
      have hkeep : ∀ x y, b ≤ x → y ≤ e → cutAll x y fs = fs := by
        intro x y hx hy
        refine cutAll_of_disjoint fun g hg hm => hdis g hg ⟨?_, ?_, hbe⟩
        · have := hm.1
          omega
        · have := hm.2.1
          omega
      rw [eraseAll_cons, cutAll_place h hbe hdis hlow hne hupp, fillGaps,
        hkeep b p.start le_rfl (by omega)]
      generalize hrest : (if b < p.start then place ⟨b, p.start, v⟩ fs else fs) = rest
      have hrest' : (if b < p.start then place (⟨b, p.start, v⟩ : Fragment α) else id) fs =
          rest := by
        rw [← hrest]
        split <;> rfl
      rw [hrest']
      by_cases hpe : p.stop < e
      · rw [if_pos hpe]
        have hmem : ∀ g ∈ rest, g = ⟨b, p.start, v⟩ ∨ g ∈ fs := by
          intro g hg
          rw [← hrest] at hg
          split at hg
          · exact mem_place.mp hg
          · exact .inr hg
        have hlay : Layout rest := by
          rw [← hrest]
          split
          · rename_i hbs
            refine h.place_of_disjoint hbs fun g hg hm => hdis g hg ⟨?_, hm.2.1, hbe⟩
            have := hm.1
            simp only at this
            omega
          · exact h
        refine ih hlay hpe (fun g hg hm => ?_) hps.tail
        rcases hmem g hg with rfl | hg
        · have := hm.2.1
          simp only at this
          omega
        · refine hdis g hg ⟨hm.1, ?_, hbe⟩
          have := hm.2.1
          omega
      · -- the last piece reaches the end, so none can follow
        have hnil : ps = [] := by
          refine List.eq_nil_iff_forall_not_mem.mpr fun q hq => ?_
          have h1 := hps.tail.lower q hq
          have h2 := hps.tail.upper q hq
          have h3 := hps.tail.layout.nonempty q hq
          omega
        subst hnil
        rw [if_neg hpe, fillGaps, if_neg hpe]
        rfl

/-- The gaps of `[cursor, stop)` hold no piece. -/
def GapsFree (fs : List (Fragment α)) (stop cursor : ℕ) (ps : List (Fragment β)) : Prop :=
  ∀ a, cursor ≤ a → a < stop → (∀ p ∈ ps, ¬ p.Contains a) → ∀ f ∈ fs, ¬ f.Contains a

/-- Where the gaps are free, the first one meets no piece. -/
theorem GapsFree.not_meets {fs : List (Fragment α)} {stop cursor e : ℕ} {ps : List (Fragment β)}
    (hl : Layout fs) (h : GapsFree fs stop cursor ps) (he : e ≤ stop)
    (hps : ∀ p ∈ ps, e ≤ p.start) : ∀ f ∈ fs, ¬ f.Meets cursor e := by
  intro f hf hm
  have hne := hl.nonempty f hf
  obtain ⟨h1, h2, h3⟩ := hm
  refine h (max f.start cursor) (by omega) (by omega) (fun p hp hc => ?_) f hf ⟨by omega, by omega⟩
  have := hps p hp
  have := hc.1
  omega

/-- After the first gap is claimed the others are still free. -/
theorem GapsFree.tail {fs : List (Fragment α)} {stop cursor : ℕ} {p : Fragment β}
    {ps : List (Fragment β)} {v : α} (hps : Tiles cursor stop (p :: ps))
    (h : GapsFree fs stop cursor (p :: ps)) :
    GapsFree (if cursor < p.start then place ⟨cursor, p.start, v⟩ fs else fs) stop p.stop ps := by
  have hlow := hps.lower p (by simp)
  have hne := (Layout.cons_iff.mp hps.layout).1
  intro a ha hstop hout f hf hc
  have hout' : ∀ q ∈ p :: ps, ¬ q.Contains a := by
    intro q hq hqc
    rcases List.mem_cons.mp hq with rfl | hq
    · have := hqc.2
      omega
    · exact hout q hq hqc
  split at hf
  · rcases mem_place.mp hf with rfl | hf
    · have := hc.2
      simp only at this
      omega
    · exact h a (by omega) hstop hout' f hf hc
  · exact h a (by omega) hstop hout' f hf hc

section FillGaps

variable {v : α} {stop cursor : ℕ} {ps : List (Fragment β)} {fs : List (Fragment α)}

/-- The first gap's turn of `fillGaps`, when it is free. -/
private theorem fillGaps_turn (hl : Layout fs) (hfree : GapsFree fs stop cursor ps) {e : ℕ}
    (he : e ≤ stop) (hps : ∀ p ∈ ps, e ≤ p.start) (hlt : cursor < e) :
    cutAll cursor e fs = fs ∧ Layout (place ⟨cursor, e, v⟩ fs) := by
  have hno := hfree.not_meets hl he hps
  exact ⟨cutAll_of_disjoint hno, hl.place_of_disjoint hlt hno⟩

/-- Filling free gaps keeps the layout, shows only under the new label, and
costs the bytes of the gaps. -/
theorem fillGaps_spec (hl : Layout fs) (hps : Tiles cursor stop ps)
    (hfree : GapsFree fs stop cursor ps) :
    Layout (fillGaps v stop cursor ps fs) ∧
      (∀ q : α → Bool, (fillGaps v stop cursor ps fs).filter (fun f => q f.value) =
        if q v then fillGaps v stop cursor ps (fs.filter fun f => q f.value)
        else fs.filter fun f => q f.value) ∧
      totalBytes (fillGaps v stop cursor ps fs) = totalBytes fs + gapBytes stop cursor ps := by
  induction ps generalizing cursor fs with
  | nil =>
      by_cases hlt : cursor < stop
      · obtain ⟨hcut, hplace⟩ := fillGaps_turn (v := v) hl hfree le_rfl (by simp) hlt
        simp only [fillGaps, if_pos hlt, hcut, gapBytes]
        refine ⟨hplace, fun q => ?_, ?_⟩
        · rw [filter_place q _ hl]
          simp only
          split
          · rw [← filter_cutAll q _ _ hl.nonempty, hcut]
          · rfl
        · rw [totalBytes_place, size]
          simp only
          omega
      · simp only [fillGaps, if_neg hlt, gapBytes]
        exact ⟨hl, fun q => by split <;> rfl, by omega⟩
  | cons p ps ih =>
      have htail := hfree.tail (v := v) hps
      have hlow := hps.lower p (by simp)
      have hupp := hps.upper p (by simp)
      obtain ⟨hne, hnext, -⟩ := Layout.cons_iff.mp hps.layout
      have hmin : ∀ q ∈ p :: ps, p.start ≤ q.start := by
        intro q hq
        rcases List.mem_cons.mp hq with rfl | hq
        · exact le_rfl
        · have := hnext q hq
          omega
      by_cases hlt : cursor < p.start
      · obtain ⟨hcut, hplace⟩ := fillGaps_turn (v := v) hl hfree (by omega) hmin hlt
        simp only [if_pos hlt] at htail
        simp only [fillGaps, if_pos hlt, hcut, gapBytes]
        obtain ⟨h1, h2, h3⟩ := ih hplace hps.tail htail
        refine ⟨h1, fun q => ?_, ?_⟩
        · rw [h2 q, filter_place q _ hl]
          simp only
          split
          · rw [← filter_cutAll q _ _ hl.nonempty, hcut]
          · rfl
        · rw [h3, totalBytes_place, size]
          simp only
          omega
      · simp only [if_neg hlt] at htail
        simp only [fillGaps, if_neg hlt, gapBytes]
        obtain ⟨h1, h2, h3⟩ := ih hl hps.tail htail
        exact ⟨h1, h2, by omega⟩

theorem map_fillGaps (r : α → γ) (cursor : ℕ) (fs : List (Fragment α)) :
    (fillGaps v stop cursor ps fs).map (Fragment.map r) =
      fillGaps (r v) stop cursor ps (fs.map (Fragment.map r)) := by
  have hturn : ∀ (c e : ℕ) (gs : List (Fragment α)),
      (place (⟨c, e, v⟩ : Fragment α) (cutAll c e gs)).map (Fragment.map r) =
      place ⟨c, e, r v⟩ (cutAll c e (gs.map (Fragment.map r))) := by
    intro c e gs
    rw [map_place, map_cutAll]
    rfl
  induction ps generalizing cursor fs with
  | nil =>
      unfold fillGaps
      split
      · exact hturn _ _ _
      · rfl
  | cons p ps ih =>
      rw [fillGaps, fillGaps]
      split
      · rw [ih, hturn]
      · exact ih _ _

/-- An address of a filled gap has the new label; every other keeps its own. -/
theorem ownerAt_fillGaps (hl : Layout fs) (hps : Tiles cursor stop ps)
    (hfree : GapsFree fs stop cursor ps) (a : ℕ) :
    ownerAt (fillGaps v stop cursor ps fs) a =
      if cursor ≤ a ∧ a < stop ∧ ∀ p ∈ ps, ¬ p.Contains a then some v else ownerAt fs a := by
  induction ps generalizing cursor fs with
  | nil =>
      by_cases hlt : cursor < stop
      · obtain ⟨hcut, hplace⟩ := fillGaps_turn (v := v) hl hfree le_rfl (by simp) hlt
        rw [fillGaps, if_pos hlt, hcut, ownerAt_place hplace hl]
        simp [Contains]
      · rw [fillGaps, if_neg hlt, if_neg (by omega)]
  | cons p ps ih =>
      have htail := hfree.tail (v := v) hps
      have hlow := hps.lower p (by simp)
      have hupp := hps.upper p (by simp)
      obtain ⟨hne, hnext, -⟩ := Layout.cons_iff.mp hps.layout
      have hmin : ∀ q ∈ p :: ps, p.start ≤ q.start := by
        intro q hq
        rcases List.mem_cons.mp hq with rfl | hq
        · exact le_rfl
        · have := hnext q hq
          omega
      -- an address in the rest of the gaps lies past `p`; one before `p` is in this gap
      have hsplit : (cursor ≤ a ∧ a < stop ∧ ∀ q ∈ p :: ps, ¬ q.Contains a) ↔
          (cursor ≤ a ∧ a < p.start) ∨ (p.stop ≤ a ∧ a < stop ∧ ∀ q ∈ ps, ¬ q.Contains a) := by
        constructor
        · rintro ⟨h1, h2, h3⟩
          have hp := h3 p (by simp)
          simp only [Contains] at hp
          rcases Nat.lt_or_ge a p.start with h | h
          · exact .inl ⟨h1, h⟩
          · exact .inr ⟨by omega, h2, fun q hq => h3 q (by simp [hq])⟩
        · rintro (⟨h1, h2⟩ | ⟨h1, h2, h3⟩)
          · refine ⟨h1, by omega, fun q hq hc => ?_⟩
            have := hmin q hq
            have := hc.1
            omega
          · refine ⟨by omega, h2, fun q hq hc => ?_⟩
            rcases List.mem_cons.mp hq with rfl | hq
            · have := hc.2
              omega
            · exact h3 q hq hc
      by_cases hlt : cursor < p.start
      · obtain ⟨hcut, hplace⟩ := fillGaps_turn (v := v) hl hfree (by omega) hmin hlt
        simp only [if_pos hlt] at htail
        rw [fillGaps, if_pos hlt, hcut, ih hplace hps.tail htail, ownerAt_place hplace hl]
        by_cases h2 : p.stop ≤ a ∧ a < stop ∧ ∀ q ∈ ps, ¬ q.Contains a
        · rw [if_pos h2, if_pos (hsplit.mpr (.inr h2))]
        · by_cases h1 : cursor ≤ a ∧ a < p.start
          · rw [if_neg h2, if_pos h1, if_pos (hsplit.mpr (.inl h1))]
          · rw [if_neg h2, if_neg h1, if_neg (fun h => (hsplit.mp h).elim h1 h2)]
      · simp only [if_neg hlt] at htail
        rw [fillGaps, if_neg hlt, ih hl hps.tail htail]
        by_cases h2 : p.stop ≤ a ∧ a < stop ∧ ∀ q ∈ ps, ¬ q.Contains a
        · rw [if_pos h2, if_pos (hsplit.mpr (.inr h2))]
        · rw [if_neg h2, if_neg fun h => (hsplit.mp h).elim (by omega) h2]

end FillGaps

/-! ## Contiguous runs -/

/-- From `e`, follow the pieces that begin where the last one ended. -/
def runFrom (e : ℕ) (fs : List (Fragment α)) : ℕ :=
  fs.foldl (fun e f => if f.start = e then f.stop else e) e

theorem runFrom_cons (e : ℕ) (f : Fragment α) (fs : List (Fragment α)) :
    runFrom e (f :: fs) = runFrom (if f.start = e then f.stop else e) fs := rfl

theorem runFrom_map (r : α → β) (e : ℕ) (fs : List (Fragment α)) :
    runFrom e (fs.map (Fragment.map r)) = runFrom e fs := by
  induction fs generalizing e with
  | nil => rfl
  | cons f fs ih => rw [List.map_cons, runFrom_cons, runFrom_cons, ih, map_start, map_stop]

theorem runFrom_append (e : ℕ) (fs gs : List (Fragment α)) :
    runFrom e (fs ++ gs) = runFrom (runFrom e fs) gs := List.foldl_append ..

/-- Pieces before `e` do not continue it. -/
theorem runFrom_of_lt {e : ℕ} {fs : List (Fragment α)} (h : ∀ f ∈ fs, f.start ≠ e) :
    runFrom e fs = e := by
  induction fs with
  | nil => rfl
  | cons f fs ih =>
      rw [runFrom_cons, if_neg (h f (by simp)), ih fun g hg => h g (by simp [hg])]

/-- The run is covered by whole pieces and nothing begins at its end. -/
structure IsRun (e r : ℕ) (fs : List (Fragment α)) : Prop where
  le : e ≤ r
  whole : ∀ f ∈ fs, f.start < r → f.stop ≤ e ∨ (e ≤ f.start ∧ f.stop ≤ r)
  covered : ∀ a, e ≤ a → a < r → ∃ f ∈ fs, f.Contains a
  stops : ∀ f ∈ fs, f.start ≠ r

theorem runFrom_isRun {fs : List (Fragment α)} (h : Layout fs) {e : ℕ}
    (he : ∀ f ∈ fs, f.start < e → f.stop ≤ e) : IsRun e (runFrom e fs) fs := by
  induction fs generalizing e with
  | nil => exact ⟨le_rfl, by simp, fun a h1 h2 => absurd h2 (by simp [runFrom]; omega), by simp⟩
  | cons f fs ih =>
      obtain ⟨hne, hlt, hrest⟩ := Layout.cons_iff.mp h
      rw [runFrom_cons]
      by_cases hfe : f.start = e
      · rw [if_pos hfe]
        have hrun := ih hrest (e := f.stop) fun g hg hge => by
          have := hlt g hg
          omega
        have hle := hrun.le
        refine ⟨by omega, ?_, ?_, ?_⟩
        · intro g hg hgr
          rcases List.mem_cons.mp hg with rfl | hg
          · exact .inr ⟨by omega, hle⟩
          · have := hlt g hg
            rcases hrun.whole g hg hgr with h1 | ⟨h1, h2⟩
            · have := hrest.nonempty g hg
              omega
            · exact .inr ⟨by omega, h2⟩
        · intro a ha har
          by_cases haf : a < f.stop
          · exact ⟨f, by simp, by omega, haf⟩
          · obtain ⟨g, hg, hga⟩ := hrun.covered a (by omega) har
            exact ⟨g, by simp [hg], hga⟩
        · intro g hg
          rcases List.mem_cons.mp hg with rfl | hg
          · omega
          · exact hrun.stops g hg
      · rw [if_neg hfe]
        have hrun := ih hrest (e := e) fun g hg => he g (by simp [hg])
        have hle := hrun.le
        by_cases hbefore : f.start < e
        · have hfstop := he f (by simp) hbefore
          refine ⟨hle, ?_, ?_, ?_⟩
          · intro g hg hgr
            rcases List.mem_cons.mp hg with rfl | hg
            · exact .inl hfstop
            · exact hrun.whole g hg hgr
          · intro a ha har
            obtain ⟨g, hg, hga⟩ := hrun.covered a ha har
            exact ⟨g, by simp [hg], hga⟩
          · intro g hg
            rcases List.mem_cons.mp hg with rfl | hg
            · omega
            · exact hrun.stops g hg
        · -- the first piece already lies past `e`, so the run is empty
          have hstay : runFrom e fs = e := runFrom_of_lt fun g hg => by
            have := hlt g hg
            omega
          rw [hstay]
          refine ⟨le_rfl, ?_, fun a h1 h2 => absurd h2 (by omega), ?_⟩
          · intro g hg hge
            exact .inl (he g hg hge)
          · intro g hg
            rcases List.mem_cons.mp hg with rfl | hg
            · omega
            · have := hlt g hg
              omega

/-- No piece of a layout straddles the end of another one. -/
theorem Layout.stop_le {fs : List (Fragment α)} (h : Layout fs) {f g : Fragment α} (hf : f ∈ fs)
    (hg : g ∈ fs) (hlt : g.start < f.stop) : g.stop ≤ f.stop := by
  by_contra hno
  have hne := h.nonempty f hf
  have hfg : f = g := h.eq_of_contains hf hg (a := max f.start g.start)
    ⟨by omega, by omega⟩ ⟨by omega, by omega⟩
  subst hfg
  omega

/-- The run that starts with a piece of the layout. -/
theorem Layout.isRun {fs : List (Fragment α)} (h : Layout fs) {f : Fragment α} (hf : f ∈ fs) :
    IsRun f.stop (runFrom f.stop fs) fs :=
  runFrom_isRun h fun _ hg hlt => h.stop_le hf hg hlt

/-- A run of pieces below `bound` ends below it. -/
theorem IsRun.le_of_forall {fs : List (Fragment α)} {e r bound : ℕ} (h : IsRun e r fs)
    (he : e ≤ bound) (hfs : ∀ f ∈ fs, f.stop ≤ bound) : r ≤ bound := by
  by_contra hno
  obtain ⟨f, hf, hc⟩ := h.covered (r - 1) (by omega) (by omega)
  have := hfs f hf
  have := hc.2
  omega

/-- A run is determined by what it covers. -/
theorem IsRun.unique {fs : List (Fragment α)} {e r r' : ℕ} (hr : IsRun e r fs)
    (hr' : IsRun e r' fs) : r = r' := by
  -- the shorter run would end inside or at the start of a piece of the longer one
  have key : ∀ {x y : ℕ}, IsRun e x fs → IsRun e y fs → ¬ x < y := by
    intro x y hx hy hxy
    obtain ⟨f, hf, hfc⟩ := hy.covered x hx.le hxy
    have hne := hx.stops f hf
    have hfx : f.start < x := by
      have := hfc.1
      omega
    have := hfc.2
    rcases hx.whole f hf hfx with h1 | ⟨-, h1⟩
    · have := hx.le
      omega
    · omega
  have h1 := key hr hr'
  have h2 := key hr' hr
  omega

/-- Erasures past the run leave it. -/
theorem IsRun.eraseAll {fs : List (Fragment α)} (h : Layout fs) {e r : ℕ} (hr : IsRun e r fs)
    {ps : List (Fragment β)} (hps : ∀ p ∈ ps, r ≤ p.start) :
    IsRun e r (Lib.eraseAll ps fs) := by
  refine ⟨hr.le, ?_, ?_, ?_⟩
  · intro g hg hgr
    obtain ⟨k, hk, hks, hkt, -⟩ := mem_eraseAll h hg
    rcases hr.whole k hk (by omega) with h1 | ⟨h1, h2⟩
    · exact .inl (by omega)
    · exact .inr ⟨by omega, by omega⟩
  · intro a ha har
    obtain ⟨k, hk, hka⟩ := hr.covered a ha har
    have hsome : ownerAt (Lib.eraseAll ps fs) a = some k.value := by
      rw [ownerAt_eraseAll _ h, if_neg]
      · exact (ownerAt_eq_some h).mpr ⟨k, hk, hka, rfl⟩
      · rintro ⟨p, hp, hpa⟩
        have := hps p hp
        have := hpa.1
        omega
    obtain ⟨g, hg, hga, -⟩ := (ownerAt_eq_some (h.eraseAll ps)).mp hsome
    exact ⟨g, hg, hga⟩
  · intro g hg hgr
    obtain ⟨k, hk, hks, hkt, -⟩ := mem_eraseAll h hg
    have hgne := (h.eraseAll ps).nonempty g hg
    rcases lt_or_eq_of_le hks with hlt | heq
    · -- `k` would cross the end of the run
      rcases hr.whole k hk (by omega) with h1 | ⟨-, h1⟩
      · have := hr.le
        omega
      · omega
    · exact hr.stops k hk (by omega)

end Noleax.Lib
