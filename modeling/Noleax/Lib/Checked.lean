import Mathlib.Tactic

/-!
# Computations that can throw

`Except ε` programs and left folds of them. A loop that may throw is a
`List.foldlM`; the rules below take a successful run apart at its steps, carry
an invariant through it, and build a successful run from steps that succeed.
-/

namespace Noleax.Lib

variable {ε σ α β : Type}

/-- `if (p) throw e;` -/
def failIf (p : Prop) [Decidable p] (e : ε) : Except ε Unit :=
  if p then .error e else .ok ()

section Bind

theorem failIf_eq_ok {p : Prop} [Decidable p] {e : ε} {u : Unit} :
    failIf p e = .ok u ↔ ¬ p := by
  unfold failIf
  split <;> simp_all

@[simp] theorem failIf_of_not {p : Prop} [Decidable p] {e : ε} (h : ¬ p) :
    failIf p e = .ok () := if_neg h

@[simp] theorem failIf_of {p : Prop} [Decidable p] {e : ε} (h : p) :
    failIf p e = .error e := if_pos h

@[simp] theorem ok_bind (a : α) (f : α → Except ε β) : (Except.ok a >>= f) = f a := rfl

@[simp] theorem error_bind (e : ε) (f : α → Except ε β) :
    ((Except.error e : Except ε α) >>= f) = .error e := rfl

@[simp] theorem pure_eq_ok (a : α) : (pure a : Except ε α) = .ok a := rfl

/-- A sequence succeeds when its parts do. -/
theorem bind_eq_ok {x : Except ε α} {f : α → Except ε β} {b : β} :
    (x >>= f) = .ok b ↔ ∃ a, x = .ok a ∧ f a = .ok b := by
  cases x with
  | error e => simp
  | ok a => simp

/-- A sequence has a result when its parts have one. -/
theorem exists_bind_ok {x : Except ε α} {f : α → Except ε β} (hx : ∃ a, x = .ok a)
    (hf : ∀ a, x = .ok a → ∃ b, f a = .ok b) : ∃ b, (x >>= f) = .ok b := by
  obtain ⟨a, ha⟩ := hx
  obtain ⟨b, hb⟩ := hf a ha
  exact ⟨b, bind_eq_ok.mpr ⟨a, ha, hb⟩⟩

/-- Whether a computation returns what satisfies `P` is seen by running it. -/
instance decidableReturns (P : α → Prop) [DecidablePred P] (x : Except ε α) :
    Decidable (∃ a, x = .ok a ∧ P a) :=
  match x with
  | .ok a => decidable_of_iff (P a) (by simp)
  | .error e => isFalse (by simp)

/-- A computed image of a result tells that there is one. -/
theorem exists_ok_of_map {x : Except ε α} {f : α → β} {b : β} (h : x.map f = .ok b) :
    ∃ a, x = .ok a ∧ f a = b := by
  cases x with
  | error e => cases h
  | ok a =>
      cases h
      exact ⟨a, rfl, rfl⟩

theorem failIf_bind_eq_ok {p : Prop} [Decidable p] {e : ε} {f : Unit → Except ε β} {b : β} :
    (failIf p e >>= f) = .ok b ↔ ¬ p ∧ f () = .ok b := by
  rw [bind_eq_ok]
  constructor
  · rintro ⟨⟨⟩, hp, hf⟩
    exact ⟨failIf_eq_ok.mp hp, hf⟩
  · rintro ⟨hp, hf⟩
    exact ⟨(), failIf_eq_ok.mpr hp, hf⟩

end Bind

section Runs

variable {step : σ → α → Except ε σ} {s t : σ}

theorem foldlM_append_eq_ok {xs ys : List α} :
    (xs ++ ys).foldlM step s = .ok t ↔
      ∃ m, xs.foldlM step s = .ok m ∧ ys.foldlM step m = .ok t := by
  rw [List.foldlM_append, bind_eq_ok]

theorem foldlM_append_ok {xs ys : List α} {m : σ} (hx : xs.foldlM step s = .ok m)
    (hy : ys.foldlM step m = .ok t) : (xs ++ ys).foldlM step s = .ok t :=
  foldlM_append_eq_ok.mpr ⟨m, hx, hy⟩

/-- What every step preserves, a whole run preserves. -/
theorem foldlM_inv_of {Inv : σ → Prop} {xs : List α}
    (hstep : ∀ a ∈ xs, ∀ s t, Inv s → step s a = .ok t → Inv t)
    (hs : Inv s) (hrun : xs.foldlM step s = .ok t) : Inv t := by
  induction xs generalizing s with
  | nil =>
      cases hrun
      exact hs
  | cons x xs ih =>
      rw [List.foldlM_cons, bind_eq_ok] at hrun
      obtain ⟨m, hm, hrest⟩ := hrun
      exact ih (fun a ha => hstep a (List.mem_cons_of_mem _ ha))
        (hstep x List.mem_cons_self s m hs hm) hrest

theorem foldlM_inv {Inv : σ → Prop} (hstep : ∀ s a t, Inv s → step s a = .ok t → Inv t)
    {xs : List α} (hs : Inv s) (hrun : xs.foldlM step s = .ok t) : Inv t :=
  foldlM_inv_of (fun a _ s t => hstep s a t) hs hrun

end Runs

section Loops

/-- A loop over `xs` that may throw on each, and collects nothing. -/
theorem forM_eq_ok {f : α → Except ε Unit} {P : α → Prop} {xs : List α} {u : Unit}
    (hf : ∀ x ∈ xs, f x = .ok () ↔ P x) : xs.forM f = .ok u ↔ ∀ x ∈ xs, P x := by
  induction xs with
  | nil => exact iff_of_true rfl (by simp)
  | cons x xs ih =>
      show (f x >>= fun _ => xs.forM f) = .ok u ↔ _
      rw [bind_eq_ok, List.forall_mem_cons, ← hf x List.mem_cons_self,
        ← ih fun y hy => hf y (List.mem_cons_of_mem _ hy)]
      constructor
      · rintro ⟨⟨⟩, hx, hxs⟩
        exact ⟨hx, hxs⟩
      · rintro ⟨hx, hxs⟩
        exact ⟨(), hx, hxs⟩

/-- A loop that reads `g x` from each `x` of `P`, and throws on the others. -/
theorem mapM_eq_ok {f : α → Except ε β} {g : α → β} {P : α → Prop} {xs : List α} {ys : List β}
    (hf : ∀ x ∈ xs, ∀ y, f x = .ok y ↔ P x ∧ g x = y) :
    xs.mapM f = .ok ys ↔ (∀ x ∈ xs, P x) ∧ xs.map g = ys := by
  induction xs generalizing ys with
  | nil => simp
  | cons x xs ih =>
      have hx := hf x List.mem_cons_self
      have ih {ys : List β} : xs.mapM f = .ok ys ↔ _ :=
        ih fun y hy => hf y (List.mem_cons_of_mem _ hy)
      rw [List.mapM_cons, bind_eq_ok, List.forall_mem_cons, List.map_cons]
      simp only [bind_eq_ok, hx, ih, pure_eq_ok, Except.ok.injEq]
      constructor
      · rintro ⟨y, ⟨hP, rfl⟩, zs, ⟨hPs, rfl⟩, rfl⟩
        exact ⟨⟨hP, hPs⟩, rfl⟩
      · rintro ⟨⟨hP, hPs⟩, rfl⟩
        exact ⟨_, ⟨hP, rfl⟩, _, ⟨hPs, rfl⟩, rfl⟩

end Loops

section Throws

variable {P : ε → Prop}

/-- Every exception a computation can throw is one of `P`. -/
def ThrowsOnly (P : ε → Prop) (x : Except ε α) : Prop := ∀ e, x = .error e → P e

theorem throwsOnly_ok (a : α) : ThrowsOnly P (.ok a : Except ε α) := fun _ h => nomatch h

theorem throwsOnly_pure (a : α) : ThrowsOnly P (pure a : Except ε α) := throwsOnly_ok a

theorem throwsOnly_error {e : ε} (h : P e) : ThrowsOnly P (.error e : Except ε α) := by
  intro e' heq
  cases heq
  exact h

theorem throwsOnly_failIf {p : Prop} [Decidable p] {e : ε} (h : p → P e) :
    ThrowsOnly P (failIf p e) := by
  unfold failIf
  split
  · rename_i hp
    exact throwsOnly_error (h hp)
  · exact throwsOnly_ok ()

theorem throwsOnly_ite {p : Prop} [Decidable p] {x y : Except ε α} (hx : p → ThrowsOnly P x)
    (hy : ¬ p → ThrowsOnly P y) : ThrowsOnly P (if p then x else y) := by
  split
  · rename_i h
    exact hx h
  · rename_i h
    exact hy h

/-- A sequence throws what its parts throw; the second runs on results of the first. -/
theorem ThrowsOnly.bind {x : Except ε α} {f : α → Except ε β} (hx : ThrowsOnly P x)
    (hf : ∀ a, x = .ok a → ThrowsOnly P (f a)) : ThrowsOnly P (x >>= f) := by
  cases x with
  | error e =>
      intro e' heq
      cases heq
      exact hx e rfl
  | ok a => exact hf a rfl

theorem ThrowsOnly.foldlM {step : σ → α → Except ε σ} {xs : List α}
    (hstep : ∀ s, ∀ a ∈ xs, ThrowsOnly P (step s a)) (s : σ) : ThrowsOnly P (xs.foldlM step s) := by
  induction xs generalizing s with
  | nil => exact throwsOnly_ok s
  | cons x xs ih =>
      rw [List.foldlM_cons]
      exact (hstep s x List.mem_cons_self).bind fun t _ =>
        ih (fun s a ha => hstep s a (List.mem_cons_of_mem _ ha)) t

theorem ThrowsOnly.forM {f : α → Except ε Unit} {xs : List α} (h : ∀ x ∈ xs, ThrowsOnly P (f x)) :
    ThrowsOnly P (xs.forM f) := by
  induction xs with
  | nil => exact throwsOnly_ok ()
  | cons x xs ih =>
      have hrest := ih fun y hy => h y (List.mem_cons_of_mem _ hy)
      exact (h x List.mem_cons_self).bind fun _ _ => hrest

theorem ThrowsOnly.mapM {f : α → Except ε β} {xs : List α} (h : ∀ x ∈ xs, ThrowsOnly P (f x)) :
    ThrowsOnly P (xs.mapM f) := by
  induction xs with
  | nil => exact throwsOnly_ok []
  | cons x xs ih =>
      rw [List.mapM_cons]
      have hrest := ih fun y hy => h y (List.mem_cons_of_mem _ hy)
      exact (h x List.mem_cons_self).bind fun _ _ => hrest.bind fun _ _ => throwsOnly_ok _

/-- A computation that throws one of `P`, or else is as `Q` says. -/
def ThrowsOr (P : ε → Prop) (Q : Except ε α → Prop) (x : Except ε α) : Prop :=
  (∃ e, x = .error e ∧ P e) ∨ Q x

/-- A part that throws only `P` can be taken as done. -/
theorem ThrowsOr.bind {Q : Except ε β → Prop} {x : Except ε α} {f : α → Except ε β}
    (hx : ThrowsOnly P x) (hf : ∀ a, x = .ok a → ThrowsOr P Q (f a)) :
    ThrowsOr P Q (x >>= f) := by
  cases x with
  | error e => exact .inl ⟨e, rfl, hx e rfl⟩
  | ok a => exact hf a rfl

end Throws

end Noleax.Lib
