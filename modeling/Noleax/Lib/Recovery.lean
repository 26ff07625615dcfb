import Noleax.Lib.Bytes

/-!
# Readers that accept more than is written

A reader that takes any nonzero byte for a flag accepts inputs no writer produces, so
`Reads` does not hold of it. Two halves of `Reads` remain: the reader recovers what was
written (`RecoversTo`), and what it returns satisfies what its checks have left
(`Yields`). Each has one rule for every construct of a layout.
-/

namespace Noleax.Lib

variable {ε α β : Type}

/-! ## What a reader recovers -/

/-- From the bytes the reader returns `a`, whatever of `R` follows them. -/
def RecoversTo (R : Bytes → Prop) (bytes : Bytes) (read : EStateM ε Bytes α) (a : α) : Prop :=
  ∀ rest, R rest → read (bytes ++ rest) = .ok a rest

/-- From the bytes the reader returns `a`, whatever follows them. -/
abbrev Recovers (bytes : Bytes) (read : EStateM ε Bytes α) (a : α) : Prop :=
  RecoversTo (fun _ => True) bytes read a

section Recovers

variable {R : Bytes → Prop} {bytes more : Bytes} {read : EStateM ε Bytes α}
  {f : α → EStateM ε Bytes β} {a : α} {b : β}

theorem Reads.recovers {P : α → Prop} {write : α → Bytes} (h : Reads P write read) (ha : P a) :
    Recovers (write a) read a :=
  fun _ _ => h.run_write ha

/-- A field and the fields after it. -/
theorem RecoversTo.field (h : Recovers bytes read a) (hf : RecoversTo R more (f a) b) :
    RecoversTo R (bytes ++ more) (read >>= f) b := by
  intro rest hrest
  rw [List.append_assoc, run_bind, h _ trivial]
  exact hf rest hrest

/-- A check that succeeds reads nothing. -/
theorem RecoversTo.checked {x : Except ε α} (hx : x = .ok a) (hf : RecoversTo R more (f a) b) :
    RecoversTo R more (check x >>= f) b := by
  intro rest hrest
  rw [run_bind, hx, run_check_ok]
  exact hf rest hrest

/-- Nothing is left. -/
theorem RecoversTo.ending {e : ε} {f : Unit → EStateM ε Bytes β}
    (hf : RecoversTo (fun _ => True) [] (f ()) b) :
    RecoversTo (fun rest => rest = []) []
      ((do check (failIf ((← get) ≠ []) e)) >>= f) b := by
  intro rest hrest
  subst hrest
  exact hf [] trivial

theorem recoversTo_pure (b : β) : RecoversTo R [] (pure b : EStateM ε Bytes β) b :=
  fun _ _ => rfl

/-- The result, told in other words. -/
theorem RecoversTo.value {a' : α} (h : RecoversTo R bytes read a') (ha : a' = a) :
    RecoversTo R bytes read a := by
  rw [← ha]
  exact h

/-- The bytes, told in other words. -/
theorem RecoversTo.congr (h : RecoversTo R more read a) (hbytes : bytes = more) :
    RecoversTo R bytes read a := by
  rw [hbytes]
  exact h

theorem recovers_readMany {as : List α} {write : α → Bytes}
    (h : ∀ a ∈ as, Recovers (write a) read a) :
    Recovers (as.flatMap write) (readMany read as.length) as := by
  induction as with
  | nil => exact recoversTo_pure []
  | cons a as ih =>
      obtain ⟨ha, has⟩ := List.forall_mem_cons.mp h
      rw [List.flatMap_cons, ← List.append_nil (as.flatMap write)]
      exact .field ha (.field (ih has) (recoversTo_pure _))

theorem RecoversTo.run (h : RecoversTo (fun rest => rest = []) bytes read a) :
    runReader read bytes = .ok a := by
  have hread := h [] rfl
  rw [List.append_nil] at hread
  exact runReader_eq_ok.mpr ⟨[], hread⟩

end Recovers

/-! ## What a reader returns -/

/-- Whatever the reader returns satisfies `Q`. -/
def Yields (Q : α → Prop) (read : EStateM ε Bytes α) : Prop :=
  ∀ input a rest, read input = .ok a rest → Q a

section Yields

variable {P Q : α → Prop} {R : β → Prop} {read : EStateM ε Bytes α} {f : α → EStateM ε Bytes β}

theorem Reads.yields {write : α → Bytes} (h : Reads P write read) : Yields P read :=
  fun _ _ _ hread => ((h _ _ _).mp hread).1

theorem yields_pure {a : α} (h : Q a) : Yields Q (pure a : EStateM ε Bytes α) := by
  intro input b rest hread
  cases hread
  exact h

theorem Yields.bind (h : Yields P read) (hf : ∀ a, P a → Yields R (f a)) :
    Yields R (read >>= f) := by
  intro input b rest hread
  obtain ⟨a, middle, hfirst, hsecond⟩ := run_bind_eq_ok.mp hread
  exact hf a (h _ _ _ hfirst) _ _ _ hsecond

/-- A field of which nothing is asked. -/
theorem Yields.after (hf : ∀ a, Yields R (f a)) : Yields R (read >>= f) := by
  intro input b rest hread
  obtain ⟨a, middle, -, hsecond⟩ := run_bind_eq_ok.mp hread
  exact hf a _ _ _ hsecond

/-- What a check has let through. -/
theorem Yields.checked {x : Except ε α} (hf : ∀ a, x = .ok a → Yields R (f a)) :
    Yields R (check x >>= f) := by
  intro input b rest hread
  obtain ⟨a, middle, hcheck, hsecond⟩ := run_bind_eq_ok.mp hread
  exact hf a (run_check_eq_ok.mp hcheck).1 _ _ _ hsecond

theorem yields_readMany (h : Yields Q read) (count : ℕ) :
    Yields (fun as => as.length = count ∧ ∀ a ∈ as, Q a) (readMany read count) := by
  induction count with
  | zero => exact yields_pure ⟨rfl, List.forall_mem_nil _⟩
  | succ count ih =>
      refine h.bind fun a ha => ih.bind fun as has => yields_pure ?_
      exact ⟨congrArg (· + 1) has.1, List.forall_mem_cons.mpr ⟨ha, has.2⟩⟩

theorem Yields.run (h : Yields Q read) {input : Bytes} {a : α}
    (hrun : runReader read input = .ok a) : Q a := by
  obtain ⟨rest, hread⟩ := runReader_eq_ok.mp hrun
  exact h _ _ _ hread

end Yields

end Noleax.Lib
