import Noleax.Lib.Checked

/-!
# Stateful computations that can throw

`EStateM ε σ` programs: a throw keeps the state it found. `run_…` execute a
program symbolically; `wp` is what must hold of a state for a program to end in
`Q`, or in `E` when it throws, with one rule for each construct.
-/

namespace Noleax.Lib

variable {ε σ α β : Type}

/-- A computation that only looks. -/
def check (x : Except ε α) : EStateM ε σ α := fun s =>
  match x with
  | .ok a => .ok a s
  | .error e => .error e s

/-- A part of a program that is run under a condition. -/
def onlyIf (p : Prop) [Decidable p] (x : EStateM ε σ PUnit) : EStateM ε σ PUnit :=
  if p then x else pure ⟨⟩

section Run

variable (s t : σ)

theorem run_bind (x : EStateM ε σ α) (f : α → EStateM ε σ β) :
    (x >>= f) s = match x s with
      | .ok a t => f a t
      | .error e t => .error e t := by
  change EStateM.bind x f s = _
  unfold EStateM.bind
  cases x s <;> rfl

@[simp] theorem run_pure (a : α) : (pure a : EStateM ε σ α) s = .ok a s := rfl

@[simp] theorem run_get : (get : EStateM ε σ σ) s = .ok s s := rfl

@[simp] theorem run_set : (set t : EStateM ε σ PUnit) s = .ok ⟨⟩ t := rfl

@[simp] theorem run_modify (f : σ → σ) : (modify f : EStateM ε σ PUnit) s = .ok ⟨⟩ (f s) := rfl

@[simp] theorem run_throw (e : ε) : (throw e : EStateM ε σ α) s = .error e s := rfl

@[simp] theorem run_check_ok (a : α) : (check (.ok a) : EStateM ε σ α) s = .ok a s := rfl

@[simp] theorem run_check_error (e : ε) : (check (.error e) : EStateM ε σ α) s = .error e s := rfl

theorem run_ite (p : Prop) [Decidable p] (x y : EStateM ε σ α) :
    (if p then x else y) s = if p then x s else y s := by
  split <;> rfl

theorem run_onlyIf (p : Prop) [Decidable p] (x : EStateM ε σ PUnit) :
    onlyIf p x s = if p then x s else .ok ⟨⟩ s := by
  unfold onlyIf
  split <;> rfl

end Run

section Inversion

variable {s t : σ} {a : α} {b : β}

/-- A sequence that ran went through a state between its parts. -/
theorem run_bind_eq_ok {x : EStateM ε σ α} {f : α → EStateM ε σ β} :
    (x >>= f) s = .ok b t ↔ ∃ a m, x s = .ok a m ∧ f a m = .ok b t := by
  rw [run_bind]
  cases x s with
  | ok a m => simp
  | error e m => simp

/-- A sequence that threw did so in one of its parts. -/
theorem run_bind_eq_error {x : EStateM ε σ α} {f : α → EStateM ε σ β} {e : ε} :
    (x >>= f) s = .error e t ↔
      x s = .error e t ∨ ∃ a m, x s = .ok a m ∧ f a m = .error e t := by
  rw [run_bind]
  cases x s with
  | ok a m => simp
  | error e m => simp

theorem run_pure_eq_ok {a' : α} : (pure a : EStateM ε σ α) s = .ok a' t ↔ a = a' ∧ s = t := by
  rw [run_pure, EStateM.Result.ok.injEq]

theorem run_get_eq_ok {m : σ} : (get : EStateM ε σ σ) s = .ok m t ↔ s = m ∧ s = t := by
  rw [run_get, EStateM.Result.ok.injEq]

theorem run_set_eq_ok {m : σ} {u : PUnit} : (set m : EStateM ε σ PUnit) s = .ok u t ↔ m = t := by
  rw [run_set, EStateM.Result.ok.injEq]
  tauto

theorem run_modify_eq_ok {f : σ → σ} {u : PUnit} :
    (modify f : EStateM ε σ PUnit) s = .ok u t ↔ f s = t := by
  rw [run_modify, EStateM.Result.ok.injEq]
  tauto

theorem run_check_eq_ok {x : Except ε α} :
    (check x : EStateM ε σ α) s = .ok a t ↔ x = .ok a ∧ s = t := by
  cases x with
  | ok a' =>
      rw [run_check_ok, EStateM.Result.ok.injEq, Except.ok.injEq]
  | error e => simp

end Inversion

section Keeps

variable {P : σ → Prop} {s t : σ}

/-- The state a program leaves behind, whether it ends or throws. -/
def exitState (x : EStateM ε σ α) (s : σ) : σ :=
  match x s with
  | .ok _ t => t
  | .error _ t => t

theorem exitState_of_ok {x : EStateM ε σ α} {a : α} (h : x s = .ok a t) : exitState x s = t := by
  unfold exitState
  rw [h]

theorem exitState_of_error {x : EStateM ε σ α} {e : ε} (h : x s = .error e t) :
    exitState x s = t := by
  unfold exitState
  rw [h]

/-- A program that keeps `P`, whether it ends or throws. -/
def Keeps (P : σ → Prop) (x : EStateM ε σ α) : Prop := ∀ s, P s → P (exitState x s)

theorem Keeps.ok {x : EStateM ε σ α} (h : Keeps P x) (hs : P s) {a : α} (hrun : x s = .ok a t) :
    P t := by
  rw [← exitState_of_ok hrun]
  exact h s hs

theorem Keeps.error {x : EStateM ε σ α} (h : Keeps P x) (hs : P s) {e : ε}
    (hrun : x s = .error e t) : P t := by
  rw [← exitState_of_error hrun]
  exact h s hs

theorem Keeps.bind {x : EStateM ε σ α} {f : α → EStateM ε σ β} (hx : Keeps P x)
    (hf : ∀ a, Keeps P (f a)) : Keeps P (x >>= f) := by
  intro s hs
  have hx := hx s hs
  unfold exitState at hx ⊢
  rw [run_bind]
  cases hrun : x s with
  | ok a t =>
      rw [hrun] at hx
      exact hf a t hx
  | error e t =>
      rw [hrun] at hx
      exact hx

/-- A sequence whose second part needs to know what the first can return. -/
theorem Keeps.bind_of {x : EStateM ε σ α} {f : α → EStateM ε σ β} {Q : α → Prop}
    (hx : Keeps P x) (hq : ∀ s a t, x s = .ok a t → Q a) (hf : ∀ a, Q a → Keeps P (f a)) :
    Keeps P (x >>= f) := by
  intro s hs
  have hx := hx s hs
  unfold exitState at hx ⊢
  rw [run_bind]
  cases hrun : x s with
  | ok a t =>
      rw [hrun] at hx
      exact hf a (hq s a t hrun) t hx
  | error e t =>
      rw [hrun] at hx
      exact hx

/-- A state that was looked at satisfies `P`. -/
theorem keeps_get_bind {f : σ → EStateM ε σ α} (h : ∀ s, P s → Keeps P (f s)) :
    Keeps P (get >>= f) := by
  intro s hs
  have hf := h s hs s hs
  unfold exitState at hf ⊢
  rwa [run_bind, run_get]

theorem keeps_pure (a : α) : Keeps P (pure a : EStateM ε σ α) := fun _ hs => hs

theorem keeps_get : Keeps P (get : EStateM ε σ σ) := fun _ hs => hs

theorem keeps_throw (e : ε) : Keeps P (throw e : EStateM ε σ α) := fun _ hs => hs

theorem keeps_set (h : P t) : Keeps P (set t : EStateM ε σ PUnit) := fun _ _ => h

theorem keeps_modify {f : σ → σ} (h : ∀ s, P s → P (f s)) :
    Keeps P (modify f : EStateM ε σ PUnit) := h

theorem keeps_check (x : Except ε α) : Keeps P (check x : EStateM ε σ α) := by
  intro s hs
  cases x with
  | ok a => exact hs
  | error e => exact hs

theorem keeps_ite {p : Prop} [Decidable p] {x y : EStateM ε σ α} (hx : p → Keeps P x)
    (hy : ¬ p → Keeps P y) : Keeps P (if p then x else y) := by
  split
  · rename_i h
    exact hx h
  · rename_i h
    exact hy h

end Keeps

section Preserves

variable {P : σ → Prop}

/-- A program that keeps `P` when it ends. -/
def Preserves (P : σ → Prop) (x : EStateM ε σ α) : Prop := ∀ s a t, P s → x s = .ok a t → P t

theorem Keeps.preserves {x : EStateM ε σ α} (h : Keeps P x) : Preserves P x :=
  fun _ _ _ hs hrun => h.ok hs hrun

theorem Preserves.bind {x : EStateM ε σ α} {f : α → EStateM ε σ β} (hx : Preserves P x)
    (hf : ∀ a, Preserves P (f a)) : Preserves P (x >>= f) := by
  intro s b t hs hrun
  obtain ⟨a, m, hfirst, hrest⟩ := run_bind_eq_ok.mp hrun
  exact hf a m b t (hx s a m hs hfirst) hrest

/-- A sequence whose second part needs to know that the first returned. -/
theorem Preserves.bind_of {x : EStateM ε σ α} {f : α → EStateM ε σ β} {Q : α → Prop}
    (hx : Preserves P x) (hq : ∀ s a t, x s = .ok a t → Q a) (hf : ∀ a, Q a → Preserves P (f a)) :
    Preserves P (x >>= f) := by
  intro s b t hs hrun
  obtain ⟨a, m, hfirst, hrest⟩ := run_bind_eq_ok.mp hrun
  exact hf a (hq s a m hfirst) m b t (hx s a m hs hfirst) hrest

theorem preserves_get_bind {f : σ → EStateM ε σ α} (h : ∀ s, P s → Preserves P (f s)) :
    Preserves P (get >>= f) := by
  intro s a t hs hrun
  obtain ⟨m, k, hget, hrest⟩ := run_bind_eq_ok.mp hrun
  obtain ⟨rfl, rfl⟩ := run_get_eq_ok.mp hget
  exact h s hs s a t hs hrest

theorem preserves_ite {p : Prop} [Decidable p] {x y : EStateM ε σ α} (hx : p → Preserves P x)
    (hy : ¬ p → Preserves P y) : Preserves P (if p then x else y) := by
  split
  · rename_i h
    exact hx h
  · rename_i h
    exact hy h

theorem preserves_onlyIf {p : Prop} [Decidable p] {x : EStateM ε σ PUnit}
    (hx : Preserves P x) : Preserves P (onlyIf p x) :=
  preserves_ite (fun _ => hx) fun _ => (keeps_pure _).preserves

end Preserves

section Wp

variable {s : σ} {Q R : α → σ → Prop} {E F : ε → σ → Prop}

/-- What a state must satisfy for `x` to end in `Q`, or to throw in `E`. -/
def wp (x : EStateM ε σ α) (Q : α → σ → Prop) (E : ε → σ → Prop) (s : σ) : Prop :=
  match x s with
  | .ok a t => Q a t
  | .error e t => E e t

theorem wp_mono {x : EStateM ε σ α} (h : wp x Q E s) (hQ : ∀ a t, Q a t → R a t)
    (hE : ∀ e t, E e t → F e t) : wp x R F s := by
  unfold wp at h ⊢
  split at h
  · exact hQ _ _ h
  · exact hE _ _ h

theorem wp_bind {x : EStateM ε σ β} {f : β → EStateM ε σ α} :
    wp (x >>= f) Q E s ↔ wp x (fun b t => wp (f b) Q E t) E s := by
  unfold wp
  rw [run_bind]
  cases x s <;> exact Iff.rfl

/-- The rule of a sequence, with a spec of its first part. -/
theorem wp_seq {x : EStateM ε σ β} {f : β → EStateM ε σ α} {P : β → σ → Prop} (h : wp x P E s)
    (hf : ∀ b t, P b t → wp (f b) Q E t) : wp (x >>= f) Q E s :=
  wp_bind.mpr (wp_mono h hf fun _ _ => id)

@[simp] theorem wp_pure {a : α} : wp (pure a) Q E s ↔ Q a s := Iff.rfl

@[simp] theorem wp_get {Q : σ → σ → Prop} : wp get Q E s ↔ Q s s := Iff.rfl

@[simp] theorem wp_set {Q : PUnit → σ → Prop} {t : σ} : wp (set t) Q E s ↔ Q ⟨⟩ t := Iff.rfl

@[simp] theorem wp_modify {Q : PUnit → σ → Prop} {f : σ → σ} :
    wp (modify f) Q E s ↔ Q ⟨⟩ (f s) := Iff.rfl

@[simp] theorem wp_throw {e : ε} : wp (throw e) Q E s ↔ E e s := Iff.rfl

theorem wp_check {x : Except ε α} :
    wp (check x) Q E s ↔ (∀ a, x = .ok a → Q a s) ∧ ∀ e, x = .error e → E e s := by
  cases x with
  | ok a =>
      change Q a s ↔ _
      simp
  | error e =>
      change E e s ↔ _
      simp

theorem wp_ite {p : Prop} [Decidable p] {x y : EStateM ε σ α} :
    wp (if p then x else y) Q E s ↔ (p → wp x Q E s) ∧ (¬ p → wp y Q E s) := by
  split <;> simp_all

theorem wp_of_ok {x : EStateM ε σ α} {a : α} {t : σ} (hrun : x s = .ok a t) (h : Q a t) :
    wp x Q E s := by
  unfold wp
  rwa [hrun]

/-- A spec of a program that ran. -/
theorem wp_ok {x : EStateM ε σ α} {a : α} {t : σ} (h : wp x Q E s) (hrun : x s = .ok a t) :
    Q a t := by
  unfold wp at h
  rwa [hrun] at h

/-- A program that cannot throw runs. -/
theorem wp_run {x : EStateM ε σ α} (h : wp x Q (fun _ _ => False) s) :
    ∃ a t, x s = .ok a t ∧ Q a t := by
  unfold wp at h
  split at h
  · rename_i a t hrun
    exact ⟨a, t, hrun, h⟩
  · exact h.elim

/-- A program that cannot end throws. -/
theorem wp_throws {x : EStateM ε σ α} (h : wp x (fun _ _ => False) E s) :
    ∃ e t, x s = .error e t ∧ E e t := by
  unfold wp at h
  split at h
  · exact h.elim
  · rename_i e t hrun
    exact ⟨e, t, hrun, h⟩

instance {x : EStateM ε σ α} [∀ a t, Decidable (Q a t)] [∀ e t, Decidable (E e t)] :
    Decidable (wp x Q E s) :=
  match h : x s with
  | .ok a t => decidable_of_iff (Q a t) (by unfold wp; rw [h])
  | .error e t => decidable_of_iff (E e t) (by unfold wp; rw [h])

theorem wp_error {x : EStateM ε σ α} {e : ε} {t : σ} (h : wp x Q E s) (hrun : x s = .error e t) :
    E e t := by
  unfold wp at h
  rwa [hrun] at h

-- elaboration must not run the program of a spec it only passes on
attribute [irreducible] wp

end Wp

section Raises

variable {P : ε → Prop}

/-- Every exception a program can throw, from any state, is one of `P`. -/
def Raises (P : ε → Prop) (x : EStateM ε σ α) : Prop := ∀ s e t, x s = .error e t → P e

theorem Raises.bind {x : EStateM ε σ α} {f : α → EStateM ε σ β} (hx : Raises P x)
    (hf : ∀ a, Raises P (f a)) : Raises P (x >>= f) := by
  intro s e t h
  rcases run_bind_eq_error.mp h with h | ⟨a, m, -, h⟩
  · exact hx s e t h
  · exact hf a m e t h

theorem raises_pure (a : α) : Raises P (pure a : EStateM ε σ α) := by
  intro s e t h
  cases h

theorem raises_get : Raises P (get : EStateM ε σ σ) := by
  intro s e t h
  cases h

theorem raises_set (m : σ) : Raises P (set m : EStateM ε σ PUnit) := by
  intro s e t h
  cases h

theorem raises_modify (f : σ → σ) : Raises P (modify f : EStateM ε σ PUnit) := by
  intro s e t h
  cases h

theorem raises_throw {e : ε} (h : P e) : Raises P (throw e : EStateM ε σ α) := by
  intro s e' t heq
  cases heq
  exact h

theorem raises_check {x : Except ε α} (h : ThrowsOnly P x) :
    Raises P (check x : EStateM ε σ α) := by
  intro s e t heq
  cases x with
  | ok a => cases heq
  | error e' =>
      cases heq
      exact h e rfl

theorem raises_ite {p : Prop} [Decidable p] {x y : EStateM ε σ α} (hx : p → Raises P x)
    (hy : ¬ p → Raises P y) : Raises P (if p then x else y) := by
  split
  · rename_i h
    exact hx h
  · rename_i h
    exact hy h

end Raises

/-! ## Lists -/

section Lists

variable {f : α → EStateM ε σ PUnit} {s t : σ}

theorem run_forM_cons (a : α) (as : List α) :
    (a :: as).forM f s = (f a >>= fun _ => as.forM f) s := rfl

/-- A loop over a list whose every repetition does `g`. -/
theorem run_forM_eq_ok {g : σ → α → σ} (h : ∀ a s t, f a s = .ok ⟨⟩ t → t = g s a) {as : List α}
    (hrun : as.forM f s = .ok ⟨⟩ t) : t = as.foldl g s := by
  induction as generalizing s with
  | nil =>
      cases hrun
      rfl
  | cons a as ih =>
      rw [run_forM_cons] at hrun
      obtain ⟨⟨⟩, m, hfirst, hrest⟩ := run_bind_eq_ok.mp hrun
      rw [List.foldl_cons, ← h a s m hfirst]
      exact ih hrest

/-- A loop over a list throws in one of its repetitions, and keeps until there what all keep. -/
theorem run_forM_eq_error {e : ε} {I : σ → Prop} {as : List α} (hs : I s)
    (hkeep : ∀ a ∈ as, ∀ s t, I s → f a s = .ok ⟨⟩ t → I t)
    (hrun : as.forM f s = .error e t) : ∃ a ∈ as, ∃ m, I m ∧ f a m = .error e t := by
  induction as generalizing s with
  | nil => cases hrun
  | cons a as ih =>
      rw [run_forM_cons] at hrun
      rcases run_bind_eq_error.mp hrun with hfirst | ⟨⟨⟩, m, hfirst, hrest⟩
      · exact ⟨a, List.mem_cons_self, s, hs, hfirst⟩
      · obtain ⟨b, hb, hthrow⟩ := ih (hkeep a List.mem_cons_self s m hs hfirst)
          (fun b hb => hkeep b (List.mem_cons_of_mem _ hb)) hrest
        exact ⟨b, List.mem_cons_of_mem _ hb, hthrow⟩

/-- What every step leaves as it is, a fold leaves as it is. -/
theorem foldl_leaves {γ : Type} {F : σ → γ} {g : σ → α → σ} (h : ∀ s a, F (g s a) = F s)
    (as : List α) (s : σ) : F (as.foldl g s) = F s := by
  induction as generalizing s with
  | nil => rfl
  | cons a as ih => rw [List.foldl_cons, ih, h]

end Lists

/-! ## Loops -/

section Loops

variable {step : EStateM ε σ (Option β)} {otherwise : β} {μ : σ → ℕ} {s t : σ} {b : β}

/-- Repeat `step` until it returns; `otherwise` when the fuel runs out. -/
def loop (step : EStateM ε σ (Option β)) (otherwise : β) : ℕ → EStateM ε σ β
  | 0 => pure otherwise
  | fuel + 1 => do
      match ← step with
      | some b => return b
      | none => loop step otherwise fuel

/-- A loop whose state shrinks with every repetition, with fuel enough. -/
def loopBy (μ : σ → ℕ) (step : EStateM ε σ (Option β)) (otherwise : β) : EStateM ε σ β :=
  fun s => loop step otherwise (μ s + 1) s

theorem loop_succ (fuel : ℕ) :
    loop step otherwise (fuel + 1) s = match step s with
      | .ok (some b) t => .ok b t
      | .ok none t => loop step otherwise fuel t
      | .error e t => .error e t := by
  conv_lhs => unfold loop
  rw [run_bind]
  rcases step s with ⟨_ | b, t⟩ | ⟨e, t⟩ <;> rfl

/-- How much fuel there is does not matter when it is enough. -/
theorem loop_fuel (hμ : ∀ s t, step s = .ok none t → μ t < μ s) {n m : ℕ} (hn : μ s < n)
    (hm : μ s < m) : loop step otherwise n s = loop step otherwise m s := by
  induction n generalizing m s with
  | zero => omega
  | succ n ih =>
      obtain ⟨m, rfl⟩ : ∃ k, m = k + 1 := ⟨m - 1, by omega⟩
      rw [loop_succ, loop_succ]
      rcases hstep : step s with ⟨_ | b, t⟩ | ⟨e, t⟩
      · have hlt := hμ s t hstep
        exact ih (by omega) (by omega)
      · rfl
      · rfl

theorem loopBy_some (h : step s = .ok (some b) t) : loopBy μ step otherwise s = .ok b t := by
  unfold loopBy
  rw [loop_succ, h]

theorem loopBy_error {e : ε} (h : step s = .error e t) :
    loopBy μ step otherwise s = .error e t := by
  unfold loopBy
  rw [loop_succ, h]

theorem loopBy_none (hμ : ∀ s t, step s = .ok none t → μ t < μ s) (h : step s = .ok none t) :
    loopBy μ step otherwise s = loopBy μ step otherwise t := by
  have hlt := hμ s t h
  conv_lhs => unfold loopBy
  rw [loop_succ, h]
  exact loop_fuel hμ (by omega) (by omega)

variable {I : σ → Prop}

/-- A loop that returned did so from a state that its repetitions lead to. -/
theorem loopBy_eq_ok (hμ : ∀ s t, step s = .ok none t → μ t < μ s) (hs : I s)
    (hstep : ∀ s t, I s → step s = .ok none t → I t)
    (h : loopBy μ step otherwise s = .ok b t) : ∃ m, I m ∧ step m = .ok (some b) t := by
  induction hsize : μ s using Nat.strong_induction_on generalizing s with
  | _ size ih =>
      rcases hrun : step s with ⟨_ | b', t'⟩ | ⟨e, t'⟩
      · rw [loopBy_none hμ hrun] at h
        exact ih (μ t') (hsize ▸ hμ s t' hrun) (hstep s t' hs hrun) h rfl
      · rw [loopBy_some hrun] at h
        cases h
        exact ⟨s, hs, hrun⟩
      · rw [loopBy_error hrun] at h
        cases h

theorem loopBy_eq_error (hμ : ∀ s t, step s = .ok none t → μ t < μ s) (hs : I s)
    (hstep : ∀ s t, I s → step s = .ok none t → I t) {e : ε}
    (h : loopBy μ step otherwise s = .error e t) : ∃ m, I m ∧ step m = .error e t := by
  induction hsize : μ s using Nat.strong_induction_on generalizing s with
  | _ size ih =>
      rcases hrun : step s with ⟨_ | b', t'⟩ | ⟨e', t'⟩
      · rw [loopBy_none hμ hrun] at h
        exact ih (μ t') (hsize ▸ hμ s t' hrun) (hstep s t' hs hrun) h rfl
      · rw [loopBy_some hrun] at h
        cases h
      · rw [loopBy_error hrun] at h
        cases h
        exact ⟨s, hs, hrun⟩

theorem preserves_loop {P : σ → Prop} (h : Preserves P step) (fuel : ℕ) :
    Preserves P (loop step otherwise fuel) := by
  induction fuel with
  | zero => exact (keeps_pure otherwise).preserves
  | succ fuel ih =>
      intro s b t hs hrun
      rw [loop_succ] at hrun
      rcases hstep : step s with ⟨_ | b', m⟩ | ⟨e, m⟩
      · rw [hstep] at hrun
        exact ih m b t (h s _ m hs hstep) hrun
      · rw [hstep] at hrun
        cases hrun
        exact h s _ _ hs hstep
      · rw [hstep] at hrun
        cases hrun

theorem preserves_loopBy {P : σ → Prop} (h : Preserves P step) :
    Preserves P (loopBy μ step otherwise) :=
  fun s => preserves_loop h (μ s + 1) s

/-- A loop whose state shrinks as long as `I` holds ends, and does so in a round from `I`. -/
theorem loopBy_ends (hs : I s) (hstep : ∀ s t, I s → step s = .ok none t → I t ∧ μ t < μ s) :
    ∃ m, I m ∧
      ((∃ b t, step m = .ok (some b) t ∧ loopBy μ step otherwise s = .ok b t) ∨
        ∃ e t, step m = .error e t ∧ loopBy μ step otherwise s = .error e t) := by
  have hloop : ∀ fuel s, μ s < fuel → I s → ∃ m, I m ∧
      ((∃ b t, step m = .ok (some b) t ∧ loop step otherwise fuel s = .ok b t) ∨
        ∃ e t, step m = .error e t ∧ loop step otherwise fuel s = .error e t) := by
    intro fuel
    induction fuel with
    | zero => intro s hfuel; omega
    | succ fuel ih =>
        intro s hfuel hs
        rw [loop_succ]
        rcases hrun : step s with ⟨_ | b, t⟩ | ⟨e, t⟩
        · obtain ⟨ht, hlt⟩ := hstep s t hs hrun
          exact ih t (by omega) ht
        · exact ⟨s, hs, .inl ⟨b, t, hrun, rfl⟩⟩
        · exact ⟨s, hs, .inr ⟨e, t, hrun, rfl⟩⟩
  exact hloop (μ s + 1) s (Nat.lt_succ_self _) hs

end Loops

end Noleax.Lib
