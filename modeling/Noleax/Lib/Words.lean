import Mathlib.Algebra.Group.Nat.Defs
import Mathlib.Data.Nat.Notation

/-!
# Arithmetic on words that may wrap

A program on 64-bit words computes modulo `2 ^ 64`. `Words` runs it so and notes whether an
addition, subtraction or multiplication wrapped on the way; a program that equals `pure a`
returns `a` and never wrapped.
-/

namespace Noleax.Lib

/-- A result, and whether every operation so far was exact. -/
structure Words (α : Type) where
  value : α
  exact : Bool

namespace Words

variable {α β : Type}

/-- A sequence is exact when its parts are. -/
def sequence (x : Words α) (f : α → Words β) : Words β :=
  ⟨(f x.value).value, x.exact && (f x.value).exact⟩

instance : Monad Words where
  pure a := ⟨a, true⟩
  bind := sequence

@[simp] theorem pure_bind (a : α) (f : α → Words β) : (pure a >>= f : Words β) = f a := by
  show Words.mk (f a).value (true && (f a).exact) = f a
  rw [Bool.true_and]

end Words

/-- `left + right` -/
def addWord (left right : ℕ) : Words ℕ :=
  ⟨(left + right) % 2 ^ 64, left + right < 2 ^ 64⟩

/-- `left - right` -/
def subWord (left right : ℕ) : Words ℕ :=
  ⟨(left + 2 ^ 64 - right) % 2 ^ 64, right ≤ left⟩

/-- `left * right` -/
def mulWord (left right : ℕ) : Words ℕ :=
  ⟨left * right % 2 ^ 64, left * right < 2 ^ 64⟩

section Exact

variable {left right : ℕ}

theorem addWord_of (h : left + right < 2 ^ 64) : addWord left right = pure (left + right) := by
  unfold addWord
  rw [Nat.mod_eq_of_lt h, decide_eq_true h]
  rfl

theorem subWord_of (hle : right ≤ left) (hleft : left < 2 ^ 64) :
    subWord left right = pure (left - right) := by
  have hmod : (left + 2 ^ 64 - right) % 2 ^ 64 = left - right := by
    rw [Nat.sub_add_comm hle, Nat.add_mod_right]
    exact Nat.mod_eq_of_lt (Nat.lt_of_le_of_lt (Nat.sub_le left right) hleft)
  unfold subWord
  rw [hmod, decide_eq_true hle]
  rfl

theorem mulWord_of (h : left * right < 2 ^ 64) : mulWord left right = pure (left * right) := by
  unfold mulWord
  rw [Nat.mod_eq_of_lt h, decide_eq_true h]
  rfl

end Exact

/-- A mask of the high bits rounds down to a multiple of the power it leaves out. -/
theorem and_complement_low {n k : ℕ} (hk : k ≤ 64) (hn : n < 2 ^ 64) :
    n &&& (2 ^ 64 - 1 - (2 ^ k - 1)) = n / 2 ^ k * 2 ^ k := by
  have hpow : 2 ^ k ≤ 2 ^ 64 := Nat.pow_le_pow_right (by decide) hk
  have hpos : 0 < 2 ^ k := Nat.two_pow_pos k
  have hmask : 2 ^ 64 - 1 - (2 ^ k - 1) = 2 ^ 64 - (2 ^ k - 1 + 1) := by omega
  apply Nat.eq_of_testBit_eq
  intro i
  rw [hmask, Nat.testBit_and, Nat.testBit_two_pow_sub_succ (by omega), Nat.testBit_two_pow_sub_one,
    Nat.testBit_mul_two_pow, Nat.testBit_div_two_pow]
  by_cases hi : i < 64
  · by_cases hik : i < k
    · have hki : ¬ k ≤ i := by omega
      simp [hik, hki]
    · have hki : k ≤ i := by omega
      simp [hi, hik, hki, Nat.sub_add_cancel hki]
  · have hbit : n.testBit i = false :=
      Nat.testBit_lt_two_pow (Nat.lt_of_lt_of_le hn (Nat.pow_le_pow_right (by decide) (by omega)))
    by_cases hki : k ≤ i
    · simp [hi, hbit, Nat.sub_add_cancel hki]
    · simp [hi, hbit, hki]

-- elaboration must not count up to `2 ^ 64`
attribute [irreducible] Words.sequence addWord subWord mulWord

end Noleax.Lib
