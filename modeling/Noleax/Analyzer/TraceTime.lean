import Mathlib.Algebra.Order.Floor.Defs
import Mathlib.Data.Int.Order.Basic
import Mathlib.Data.Rat.Floor
import Noleax.Lib.Words
import Noleax.Trace.FileFormat

/-!
# Trace time (`src/analyzer/time.cpp`)

Ticks are compared with nanoseconds, and rounded down to them, in 64 bits: fractions are
compared by the quotients of Euclid's algorithm, and a product is divided while it is formed.
-/

namespace Noleax.Analyzer

open Lib Trace

structure TraceTimeError where
  what : String
deriving DecidableEq, Repr

/-- `kNanosecondsPerSecond` -/
def nanosecondsPerSecond : ℕ := 1000000000

/-- `std::numeric_limits<std::int64_t>::max()` -/
def maximumNanoseconds : ℕ := 2 ^ 63 - 1

/-! ## Comparing fractions -/

structure Fraction where
  numerator : ℕ
  denominator : ℕ
  positive : 0 < denominator

/-- `reverse ? -result : result` -/
def facing (reverse : Bool) (result : ℤ) : ℤ := if reverse then -result else result

theorem facing_not (reverse : Bool) (result : ℤ) :
    facing (!reverse) (-result) = facing reverse result := by
  cases reverse <;> simp [facing]

def compareFractions (left right : Fraction) (reverse : Bool) : ℤ :=
  let leftQuotient := left.numerator / left.denominator
  let rightQuotient := right.numerator / right.denominator
  if leftQuotient ≠ rightQuotient then
    facing reverse (if leftQuotient < rightQuotient then -1 else 1)
  else
    let leftRemainder := left.numerator % left.denominator
    let rightRemainder := right.numerator % right.denominator
    if hzero : leftRemainder = 0 ∨ rightRemainder = 0 then
      if leftRemainder = rightRemainder then 0
      else facing reverse (if leftRemainder = 0 then -1 else 1)
    else
      compareFractions ⟨left.denominator, leftRemainder, Nat.pos_of_ne_zero (not_or.mp hzero).1⟩
        ⟨right.denominator, rightRemainder, Nat.pos_of_ne_zero (not_or.mp hzero).2⟩ (!reverse)
termination_by left.denominator
decreasing_by exact Nat.mod_lt _ left.positive

namespace Fraction

/-- What the sign of `left - right` is the sign of. -/
def cross (left right : Fraction) : ℤ :=
  left.numerator * right.denominator - right.numerator * left.denominator

variable {left right : Fraction}

/-- A smaller whole part decides. -/
theorem cross_neg_of_quotient (h : left.numerator / left.denominator <
    right.numerator / right.denominator) : left.cross right < 0 := by
  have hleft := Nat.lt_mul_div_succ left.numerator left.positive
  have hright := Nat.mul_div_le right.numerator right.denominator
  have hmul : left.denominator * (left.numerator / left.denominator + 1) ≤
      left.denominator * (right.numerator / right.denominator) := Nat.mul_le_mul_left _ h
  have hnum : left.numerator < left.denominator * (right.numerator / right.denominator) :=
    Nat.lt_of_lt_of_le hleft hmul
  have hcross : left.numerator * right.denominator < right.numerator * left.denominator := by
    calc left.numerator * right.denominator
        < left.denominator * (right.numerator / right.denominator) * right.denominator :=
          Nat.mul_lt_mul_of_pos_right hnum right.positive
      _ = right.denominator * (right.numerator / right.denominator) * left.denominator := by ring
      _ ≤ right.numerator * left.denominator := Nat.mul_le_mul_right _ hright
  unfold cross
  exact sub_neg.mpr (by exact_mod_cast hcross)

theorem cross_swap (left right : Fraction) : right.cross left = -left.cross right := by
  unfold cross
  ring

/-- Equal whole parts cancel. -/
theorem cross_of_quotient_eq (h : left.numerator / left.denominator =
    right.numerator / right.denominator) :
    left.cross right = ((left.numerator % left.denominator : ℕ) : ℤ) * right.denominator -
      ((right.numerator % right.denominator : ℕ) : ℤ) * left.denominator := by
  have hleft := Nat.div_add_mod left.numerator left.denominator
  have hright := Nat.div_add_mod right.numerator right.denominator
  rw [h] at hleft
  generalize right.numerator / right.denominator = quotient at hleft hright
  have hleft : (left.numerator : ℤ) = left.denominator * quotient +
      (left.numerator % left.denominator : ℕ) := by exact_mod_cast hleft.symm
  have hright : (right.numerator : ℤ) = right.denominator * quotient +
      (right.numerator % right.denominator : ℕ) := by exact_mod_cast hright.symm
  unfold cross
  rw [hleft, hright]
  ring

end Fraction

open Fraction

/-- The comparison is exact: by induction on the remainders. -/
theorem compareFractions_eq (left right : Fraction) (reverse : Bool) :
    compareFractions left right reverse = facing reverse (left.cross right).sign := by
  induction left, right, reverse using compareFractions.induct with
  | case1 left right reverse leftQuotient rightQuotient hne =>
      rw [compareFractions, if_pos hne]
      rcases Nat.lt_or_gt_of_ne hne with hlt | hgt
      · rw [if_pos hlt, Int.sign_eq_neg_one_of_neg (cross_neg_of_quotient hlt)]
      · have hpos : 0 < left.cross right := by
          have hneg := cross_neg_of_quotient hgt
          rw [cross_swap] at hneg
          omega
        rw [if_neg (Nat.lt_asymm hgt), Int.sign_eq_one_of_pos hpos]
  | case2 left right reverse leftQuotient rightQuotient heq leftRemainder rightRemainder hzero hsame =>
      have hquotients := not_not.mp heq
      rw [compareFractions, if_neg heq, dif_pos hzero, if_pos hsame, cross_of_quotient_eq hquotients]
      have hboth : leftRemainder = 0 ∧ rightRemainder = 0 := by omega
      show 0 = facing reverse (Int.sign ((leftRemainder : ℤ) * _ - (rightRemainder : ℤ) * _))
      rw [hboth.1, hboth.2]
      cases reverse <;> simp [facing]
  | case3 left right reverse leftQuotient rightQuotient heq leftRemainder rightRemainder hzero hdiffer =>
      have hquotients := not_not.mp heq
      rw [compareFractions, if_neg heq, dif_pos hzero, if_neg hdiffer,
        cross_of_quotient_eq hquotients]
      show facing reverse (if leftRemainder = 0 then -1 else 1) =
        facing reverse (Int.sign ((leftRemainder : ℤ) * right.denominator -
          (rightRemainder : ℤ) * left.denominator))
      by_cases hleft : leftRemainder = 0
      · have hright : 0 < rightRemainder := by omega
        have hneg : (leftRemainder : ℤ) * right.denominator -
            (rightRemainder : ℤ) * left.denominator < 0 := by
          have hmul := Nat.mul_pos hright left.positive
          rw [hleft]
          push_cast
          omega
        rw [if_pos hleft, Int.sign_eq_neg_one_of_neg hneg]
      · have hright : rightRemainder = 0 := hzero.resolve_left hleft
        have hpos : 0 < (leftRemainder : ℤ) * right.denominator -
            (rightRemainder : ℤ) * left.denominator := by
          have hmul := Nat.mul_pos (Nat.pos_of_ne_zero hleft) right.positive
          rw [hright]
          push_cast
          omega
        rw [if_neg hleft, Int.sign_eq_one_of_pos hpos]
  | case4 left right reverse leftQuotient rightQuotient heq leftRemainder rightRemainder hzero ih =>
      have hquotients := not_not.mp heq
      rw [compareFractions, if_neg heq, dif_neg hzero]
      refine ih.trans ?_
      rw [cross_of_quotient_eq hquotients, ← facing_not reverse, ← Int.sign_neg]
      -- the inverted fractions compare the other way
      congr 2
      unfold cross
      dsimp only
      ring

/-! ## Multiplying and dividing -/

/-- `add_fractional_value`: the sum modulo `denominator`, and the quotient with its carry. -/
def addFractionalValue (left right denominator quotient : ℕ) : Words (ℕ × ℕ) := do
  let room ← subWord denominator right
  if room ≤ left then
    let quotient ← addWord quotient 1
    let room ← subWord denominator right
    let value ← subWord left room
    return (value, quotient)
  else
    let value ← addWord left right
    return (value, quotient)

/-- A running value: a quotient by `denominator`, and what is left over. -/
structure Running where
  quotient : ℕ
  remainder : ℕ

/-- The sum of two running values. -/
def Running.add (denominator : ℕ) (left right : Running) : Words Running := do
  let quotient ← addWord left.quotient right.quotient
  let (remainder, quotient) ←
    addFractionalValue left.remainder right.remainder denominator quotient
  return ⟨quotient, remainder⟩

/-- `part *= 2` -/
def Running.double (denominator : ℕ) (part : Running) : Words Running := do
  let quotient ← mulWord part.quotient 2
  let (remainder, quotient) ←
    addFractionalValue part.remainder part.remainder denominator quotient
  return ⟨quotient, remainder⟩

/-- The part is added when the lowest bit of the multiplier is set. -/
def Running.addBit (denominator multiplier : ℕ) (result part : Running) : Words Running :=
  if multiplier % 2 ≠ 0 then result.add denominator part else pure result

/-- The loop of `multiply_divide_floor`, with as many turns as the multiplier has bits. -/
def multiplyDivideLoop (denominator : ℕ) : (turns multiplier : ℕ) → (result part : Running) →
    Words ℕ
  | 0, _, result, _ => return result.quotient
  | turns + 1, multiplier, result, part =>
      if multiplier = 0 then return result.quotient
      else do
        let result ← result.addBit denominator multiplier part
        if multiplier / 2 = 0 then
          return result.quotient
        else
          let part ← part.double denominator
          multiplyDivideLoop denominator turns (multiplier / 2) result part

def multiplyDivideFloor (value multiplier denominator : ℕ) : Words ℕ :=
  multiplyDivideLoop denominator 64 multiplier ⟨0, 0⟩ ⟨value / denominator, value % denominator⟩

section MultiplyDivide

variable {denominator : ℕ}

/-- A sum of two fractions below one, with its carry. -/
theorem addFractionalValue_eq {left right quotient : ℕ} (hword : denominator < 2 ^ 64)
    (hleft : left < denominator) (hright : right < denominator)
    (hquotient : quotient + (left + right) / denominator < 2 ^ 64) :
    addFractionalValue left right denominator quotient =
      pure ((left + right) % denominator, quotient + (left + right) / denominator) := by
  unfold addFractionalValue
  rw [subWord_of (Nat.le_of_lt hright) hword, Words.pure_bind]
  by_cases hcarry : denominator - right ≤ left
  · have hdiv : (left + right) / denominator = 1 := by
      rw [Nat.div_eq_iff (by omega)]
      omega
    have hmod : (left + right) % denominator = left - (denominator - right) := by
      rw [Nat.mod_eq_sub_mod (by omega), Nat.mod_eq_of_lt (by omega)]
      omega
    rw [hdiv] at hquotient
    rw [if_pos hcarry, addWord_of hquotient, Words.pure_bind, Words.pure_bind,
      subWord_of hcarry (by omega), Words.pure_bind, hdiv, hmod]
  · have hlt : left + right < denominator := by omega
    rw [if_neg hcarry, addWord_of (by omega), Words.pure_bind, Nat.div_eq_of_lt hlt,
      Nat.mod_eq_of_lt hlt, Nat.add_zero]

/-- Quotient and remainder of a sum stand for the sum. -/
theorem carried (quotient sum denominator : ℕ) :
    (quotient + sum / denominator) * denominator + sum % denominator =
      quotient * denominator + sum := by
  rw [Nat.add_mul, Nat.add_assoc, Nat.div_add_mod']

theorem quotient_le {quotient sum total : ℕ} (hpositive : 0 < denominator)
    (h : quotient * denominator + sum ≤ total) :
    quotient + sum / denominator ≤ total / denominator := by
  rw [Nat.le_div_iff_mul_le hpositive, Nat.add_mul]
  have hsum := Nat.div_mul_le_self sum denominator
  omega

/-- The number a running value stands for, over `denominator`. -/
def Running.total (denominator : ℕ) (running : Running) : ℕ :=
  running.quotient * denominator + running.remainder

theorem Running.quotient_eq {running : Running} (h : running.remainder < denominator) :
    running.quotient = running.total denominator / denominator := by
  have hpositive : 0 < denominator := by omega
  show _ = (running.quotient * denominator + running.remainder) / denominator
  rw [Nat.mul_comm, Nat.mul_add_div hpositive, Nat.div_eq_of_lt h, Nat.add_zero]

/-- The carry of a sum whose quotient is a word. -/
theorem addFractionalValue_sum {left right quotient total : ℕ} (hword : denominator < 2 ^ 64)
    (hleft : left < denominator) (hright : right < denominator)
    (htotal : quotient * denominator + (left + right) ≤ total)
    (hfits : total / denominator < 2 ^ 64) :
    ∃ value sum, addFractionalValue left right denominator quotient = pure (value, sum) ∧
      value < denominator ∧
      sum * denominator + value = quotient * denominator + (left + right) := by
  have hpositive : 0 < denominator := by omega
  have hquotient := Nat.lt_of_le_of_lt (quotient_le hpositive htotal) hfits
  exact ⟨_, _, addFractionalValue_eq hword hleft hright hquotient, Nat.mod_lt _ hpositive,
    carried _ _ _⟩

namespace Running

variable {left right part result : Running} {multiplier total : ℕ}

theorem add_eq (hword : denominator < 2 ^ 64) (hleft : left.remainder < denominator)
    (hright : right.remainder < denominator)
    (htotal : left.total denominator + right.total denominator ≤ total)
    (hfits : total / denominator < 2 ^ 64) :
    ∃ sum, left.add denominator right = pure sum ∧ sum.remainder < denominator ∧
      sum.total denominator = left.total denominator + right.total denominator := by
  unfold Running.total at htotal ⊢
  have hsum : (left.quotient + right.quotient) * denominator +
      (left.remainder + right.remainder) ≤ total := by
    rw [Nat.add_mul]
    omega
  have hpositive : 0 < denominator := by omega
  have hquotient := Nat.lt_of_le_of_lt (quotient_le hpositive hsum) hfits
  have hword' := Nat.lt_of_le_of_lt (Nat.le_add_right _ _) hquotient
  obtain ⟨value, sum, hadd, hvalue, heq⟩ := addFractionalValue_sum hword hleft hright hsum hfits
  refine ⟨⟨sum, value⟩, ?_, hvalue, ?_⟩
  · unfold Running.add
    rw [addWord_of hword', Words.pure_bind, hadd, Words.pure_bind]
  · rw [heq, Nat.add_mul]
    omega

theorem double_eq (hword : denominator < 2 ^ 64) (hpart : part.remainder < denominator)
    (htotal : 2 * part.total denominator ≤ total) (hfits : total / denominator < 2 ^ 64) :
    ∃ sum, part.double denominator = pure sum ∧ sum.remainder < denominator ∧
      sum.total denominator = 2 * part.total denominator := by
  unfold Running.total at htotal ⊢
  have hsum : part.quotient * 2 * denominator + (part.remainder + part.remainder) ≤ total := by
    rw [Nat.mul_right_comm]
    omega
  have hpositive : 0 < denominator := by omega
  have hquotient := Nat.lt_of_le_of_lt (quotient_le hpositive hsum) hfits
  have hword' := Nat.lt_of_le_of_lt (Nat.le_add_right _ _) hquotient
  obtain ⟨value, sum, hadd, hvalue, heq⟩ := addFractionalValue_sum hword hpart hpart hsum hfits
  refine ⟨⟨sum, value⟩, ?_, hvalue, ?_⟩
  · unfold Running.double
    rw [mulWord_of hword', Words.pure_bind, hadd, Words.pure_bind]
  · rw [heq, Nat.mul_right_comm]
    omega

/-- What the lowest bit stands for is added; the rest of the multiplier is still to come. -/
theorem addBit_eq (hword : denominator < 2 ^ 64) (hresult : result.remainder < denominator)
    (hpart : part.remainder < denominator)
    (htotal : result.total denominator + multiplier * part.total denominator = total)
    (hfits : total / denominator < 2 ^ 64) :
    ∃ sum, result.addBit denominator multiplier part = pure sum ∧ sum.remainder < denominator ∧
      sum.total denominator + multiplier / 2 * (2 * part.total denominator) = total := by
  have hproduct : multiplier * part.total denominator =
      multiplier / 2 * (2 * part.total denominator) +
        multiplier % 2 * part.total denominator := by
    nth_rewrite 1 [← Nat.div_add_mod multiplier 2]
    ring
  unfold addBit
  by_cases hbit : multiplier % 2 = 0
  · rw [hbit, Nat.zero_mul, Nat.add_zero] at hproduct
    rw [if_neg (not_not.mpr hbit)]
    exact ⟨result, rfl, hresult, by omega⟩
  · have hodd : multiplier % 2 = 1 := by omega
    rw [hodd, Nat.one_mul] at hproduct
    rw [if_pos hbit]
    obtain ⟨sum, hadd, hsum, heq⟩ := @add_eq _ _ _ total hword hresult hpart (by omega) hfits
    exact ⟨sum, hadd, hsum, by omega⟩

end Running

open Running in
/-- What has been added, and what is still to be added, make up the product. The bits of the
multiplier are taken one by one, and no quotient on the way exceeds the last one. -/
theorem multiplyDivideLoop_eq {turns multiplier total : ℕ} {result part : Running}
    (hword : denominator < 2 ^ 64) (hturns : multiplier < 2 ^ turns)
    (hresult : result.remainder < denominator) (hpart : part.remainder < denominator)
    (htotal : result.total denominator + multiplier * part.total denominator = total)
    (hfits : total / denominator < 2 ^ 64) :
    multiplyDivideLoop denominator turns multiplier result part =
      pure (total / denominator) := by
  induction turns generalizing multiplier result part with
  | zero =>
      have hzero : multiplier = 0 := by omega
      rw [hzero, Nat.zero_mul, Nat.add_zero] at htotal
      show pure result.quotient = _
      rw [quotient_eq hresult, htotal]
  | succ turns ih =>
      unfold multiplyDivideLoop
      by_cases hzero : multiplier = 0
      · rw [hzero, Nat.zero_mul, Nat.add_zero] at htotal
        rw [if_pos hzero, quotient_eq hresult, htotal]
      · obtain ⟨sum, hadd, hsum, heq⟩ := addBit_eq hword hresult hpart htotal hfits
        rw [if_neg hzero, hadd, Words.pure_bind]
        by_cases hlast : multiplier / 2 = 0
        · rw [hlast, Nat.zero_mul, Nat.add_zero] at heq
          rw [if_pos hlast, quotient_eq hsum, heq]
        · -- the part is doubled, and stays below the product
          have htwice : 2 * part.total denominator ≤ total := by
            have hmul := Nat.mul_le_mul_right (2 * part.total denominator)
              (Nat.one_le_iff_ne_zero.mpr hlast)
            omega
          obtain ⟨twice, hdouble, hremainder, hparts⟩ := double_eq hword hpart htwice hfits
          rw [if_neg hlast, hdouble, Words.pure_bind]
          rw [pow_succ] at hturns
          rw [← hparts] at heq
          exact ih (by omega) hsum hremainder heq

theorem multiplyDivideFloor_eq {value multiplier : ℕ} (hpositive : 0 < denominator)
    (hword : denominator < 2 ^ 64) (hmultiplier : multiplier < 2 ^ 64)
    (hfits : value * multiplier / denominator < 2 ^ 64) :
    multiplyDivideFloor value multiplier denominator =
      pure (value * multiplier / denominator) := by
  refine multiplyDivideLoop_eq hword hmultiplier hpositive (Nat.mod_lt value hpositive) ?_ hfits
  show 0 * denominator + 0 + multiplier *
    (value / denominator * denominator + value % denominator) = _
  rw [Nat.zero_mul, Nat.add_zero, Nat.zero_add, Nat.div_add_mod', Nat.mul_comm]

end MultiplyDivide

/-! ## Relative time -/

/-- Ticks since the origin, of a header with a frequency. -/
structure RelativeTicks (header : FileHeader) where
  count : ℕ
  frequency_pos : 0 < header.monotonicFrequency

/-- `relative_ticks` -/
def relativeTicks (monotonicTicks : ℕ) (header : FileHeader) :
    Except TraceTimeError (RelativeTicks header) :=
  if hzero : header.monotonicFrequency = 0 then
    throw ⟨"trace monotonic frequency must not be zero"⟩
  else if monotonicTicks < header.monotonicOrigin then
    throw ⟨"trace monotonic time precedes its origin"⟩
  else return ⟨monotonicTicks - header.monotonicOrigin, Nat.pos_of_ne_zero hzero⟩

/-- The comparison by whole seconds, then by what is left of them. -/
def RelativeTicks.compare {header : FileHeader} (ticks : RelativeTicks header)
    (nanosecondsCount : ℕ) : Ordering :=
  let tickSeconds := ticks.count / header.monotonicFrequency
  let timeSeconds := nanosecondsCount / nanosecondsPerSecond
  if tickSeconds < timeSeconds then .lt
  else if tickSeconds > timeSeconds then .gt
  else
    let fractionalComparison := compareFractions
      ⟨ticks.count % header.monotonicFrequency, header.monotonicFrequency, ticks.frequency_pos⟩
      ⟨nanosecondsCount % nanosecondsPerSecond, nanosecondsPerSecond, by decide⟩ false
    if fractionalComparison < 0 then .lt
    else if fractionalComparison > 0 then .gt
    else .eq

/-- `compare_trace_time` -/
def compareTraceTime (monotonicTicks : ℕ) (header : FileHeader) (relativeTime : ℤ) :
    Except TraceTimeError Ordering :=
  if relativeTime < 0 then
    throw ⟨"relative trace time must not be negative"⟩
  else do
    let ticks ← relativeTicks monotonicTicks header
    return ticks.compare relativeTime.toNat

/-- The whole seconds and the floor of the rest, as a signed count where they fit. -/
def RelativeTicks.floor {header : FileHeader} (ticks : RelativeTicks header) :
    Words (Except TraceTimeError ℤ) := do
  let wholeSeconds := ticks.count / header.monotonicFrequency
  let fractionalNanoseconds ← multiplyDivideFloor (ticks.count % header.monotonicFrequency)
    nanosecondsPerSecond header.monotonicFrequency
  let room ← subWord maximumNanoseconds fractionalNanoseconds
  if wholeSeconds > room / nanosecondsPerSecond then
    return throw ⟨"relative trace time does not fit nanoseconds"⟩
  else
    let seconds ← mulWord wholeSeconds nanosecondsPerSecond
    let nanoseconds ← addWord seconds fractionalNanoseconds
    return .ok ((nanoseconds : ℤ).bmod (2 ^ 64))

/-- `trace_time_floor` -/
def traceTimeFloor (monotonicTicks : ℕ) (header : FileHeader) : Words (Except TraceTimeError ℤ) :=
  match relativeTicks monotonicTicks header with
  | .error error => return throw error
  | .ok ticks => ticks.floor

section Exact

variable {header : FileHeader}

/-- `(ticks - origin) * 10 ^ 9 / frequency` -/
def elapsed (monotonicTicks : ℕ) (header : FileHeader) : ℚ :=
  ((monotonicTicks : ℚ) - header.monotonicOrigin) * nanosecondsPerSecond /
    header.monotonicFrequency

theorem elapsed_eq {monotonicTicks : ℕ} (horigin : header.monotonicOrigin ≤ monotonicTicks) :
    elapsed monotonicTicks header =
      ((monotonicTicks - header.monotonicOrigin) * nanosecondsPerSecond : ℕ) /
        (header.monotonicFrequency : ℚ) := by
  unfold elapsed
  push_cast [horigin]
  rfl

theorem relativeTicks_eq {monotonicTicks : ℕ} (hfrequency : 0 < header.monotonicFrequency)
    (horigin : header.monotonicOrigin ≤ monotonicTicks) :
    relativeTicks monotonicTicks header =
      .ok ⟨monotonicTicks - header.monotonicOrigin, hfrequency⟩ := by
  unfold relativeTicks
  rw [dif_neg (Nat.ne_of_gt hfrequency), if_neg (Nat.not_lt.mpr horigin)]
  rfl

/-- A quotient is compared by cross multiplication. -/
theorem compare_div (numerator nanoseconds : ℕ) {denominator : ℕ} (hpositive : 0 < denominator) :
    Ord.compare ((numerator : ℚ) / denominator) nanoseconds =
      Ord.compare numerator (nanoseconds * denominator) := by
  have hcast : (0 : ℚ) < denominator := by exact_mod_cast hpositive
  rcases Nat.lt_trichotomy numerator (nanoseconds * denominator) with hlt | heq | hgt
  · rw [compare_lt_iff_lt.mpr hlt, compare_lt_iff_lt, div_lt_iff₀ hcast]
    exact_mod_cast hlt
  · rw [compare_eq_iff_eq.mpr heq, compare_eq_iff_eq, div_eq_iff (ne_of_gt hcast)]
    exact_mod_cast heq
  · rw [compare_gt_iff_gt.mpr hgt, compare_gt_iff_gt, lt_div_iff₀ hcast]
    exact_mod_cast hgt

theorem RelativeTicks.compare_eq (ticks : RelativeTicks header) (nanoseconds : ℕ) :
    ticks.compare nanoseconds = Ord.compare (ticks.count * nanosecondsPerSecond)
      (nanoseconds * header.monotonicFrequency) := by
  have hsecond : 0 < nanosecondsPerSecond := by decide
  let left : Fraction := ⟨ticks.count, header.monotonicFrequency, ticks.frequency_pos⟩
  let right : Fraction := ⟨nanoseconds, nanosecondsPerSecond, hsecond⟩
  have hcross : left.cross right = (ticks.count * nanosecondsPerSecond : ℕ) -
      (nanoseconds * header.monotonicFrequency : ℕ) := by
    show (ticks.count : ℤ) * nanosecondsPerSecond - nanoseconds * header.monotonicFrequency = _
    push_cast
    rfl
  have hsign : (if left.cross right < 0 then Ordering.lt
      else if left.cross right > 0 then .gt else .eq) =
      Ord.compare (ticks.count * nanosecondsPerSecond)
        (nanoseconds * header.monotonicFrequency) := by
    rw [hcross]
    by_cases hlt : ticks.count * nanosecondsPerSecond < nanoseconds * header.monotonicFrequency
    · rw [if_pos (by omega), compare_lt_iff_lt.mpr hlt]
    · by_cases hgt : ticks.count * nanosecondsPerSecond > nanoseconds * header.monotonicFrequency
      · rw [if_neg (by omega), if_pos (by omega), compare_gt_iff_gt.mpr hgt]
      · rw [if_neg (by omega), if_neg (by omega), compare_eq_iff_eq.mpr (by omega)]
  rw [← hsign]
  unfold RelativeTicks.compare
  rcases Nat.lt_trichotomy (ticks.count / header.monotonicFrequency)
    (nanoseconds / nanosecondsPerSecond) with hlt | heq | hgt
  · rw [if_pos hlt, if_pos (@cross_neg_of_quotient left right hlt)]
  · -- equal seconds cancel, and the sign is that of the rest
    have hrest : Fraction.cross ⟨ticks.count % header.monotonicFrequency,
          header.monotonicFrequency, ticks.frequency_pos⟩
        ⟨nanoseconds % nanosecondsPerSecond, nanosecondsPerSecond, hsecond⟩ =
          left.cross right := by
      rw [@cross_of_quotient_eq left right heq]
      rfl
    rw [if_neg (Nat.not_lt.mpr (Nat.le_of_eq heq.symm)),
      if_neg (Nat.not_lt.mpr (Nat.le_of_eq heq)), compareFractions_eq, hrest]
    show (if (left.cross right).sign < 0 then Ordering.lt
      else if (left.cross right).sign > 0 then .gt else .eq) = _
    simp only [gt_iff_lt, Int.sign_neg_iff, Int.sign_pos_iff]
  · have hneg := @cross_neg_of_quotient right left hgt
    rw [cross_swap] at hneg
    rw [if_neg (Nat.lt_asymm hgt), if_pos hgt, if_neg (by omega), if_pos (by omega)]

/-- `compare_trace_time` is the comparison of rationals. -/
theorem compareTraceTime_eq {monotonicTicks : ℕ} {relativeTime : ℤ}
    (hfrequency : 0 < header.monotonicFrequency)
    (horigin : header.monotonicOrigin ≤ monotonicTicks) (htime : 0 ≤ relativeTime) :
    compareTraceTime monotonicTicks header relativeTime =
      .ok (Ord.compare (elapsed monotonicTicks header) relativeTime) := by
  obtain ⟨nanoseconds, rfl⟩ := Int.eq_ofNat_of_zero_le htime
  unfold compareTraceTime
  rw [if_neg (Int.not_lt.mpr htime), relativeTicks_eq hfrequency horigin, elapsed_eq horigin]
  show Except.ok (RelativeTicks.compare _ _) = _
  rw [RelativeTicks.compare_eq, Int.toNat_natCast, Int.cast_natCast, compare_div _ _ hfrequency]

/-- The floor of the product splits at the second. -/
theorem mul_div_split (ticks frequency nanoseconds : ℕ) (hfrequency : 0 < frequency) :
    ticks * nanoseconds / frequency =
      ticks / frequency * nanoseconds + ticks % frequency * nanoseconds / frequency := by
  nth_rewrite 1 [← Nat.div_add_mod ticks frequency]
  rw [Nat.add_mul, Nat.mul_assoc, Nat.mul_add_div hfrequency]

theorem remainder_floor_lt (ticks : ℕ) {frequency : ℕ} (hfrequency : 0 < frequency) :
    ticks % frequency * nanosecondsPerSecond / frequency < nanosecondsPerSecond := by
  rw [Nat.div_lt_iff_lt_mul hfrequency, Nat.mul_comm]
  exact Nat.mul_lt_mul_of_pos_left (Nat.mod_lt ticks hfrequency) (by decide)

theorem RelativeTicks.floor_eq (ticks : RelativeTicks header)
    (hword : header.monotonicFrequency < 2 ^ 64) :
    ticks.floor = pure (if ticks.count * nanosecondsPerSecond / header.monotonicFrequency ≤
        maximumNanoseconds then
      .ok (ticks.count * nanosecondsPerSecond / header.monotonicFrequency : ℕ)
      else .error ⟨"relative trace time does not fit nanoseconds"⟩) := by
  have hpositive := ticks.frequency_pos
  have hsplit := mul_div_split ticks.count header.monotonicFrequency nanosecondsPerSecond hpositive
  have hrest := remainder_floor_lt ticks.count hpositive
  have hsecond : nanosecondsPerSecond = 1000000000 := rfl
  have hmaximum : maximumNanoseconds = 2 ^ 63 - 1 := rfl
  unfold RelativeTicks.floor
  rw [multiplyDivideFloor_eq hpositive hword (by omega) (by omega), Words.pure_bind, hsplit]
  generalize ticks.count % header.monotonicFrequency * nanosecondsPerSecond /
    header.monotonicFrequency = fractional at hrest
  generalize ticks.count / header.monotonicFrequency = whole
  rw [subWord_of (by omega) (by omega), Words.pure_bind]
  by_cases hroom : whole > (maximumNanoseconds - fractional) / nanosecondsPerSecond
  · have hmul := (Nat.div_lt_iff_lt_mul (by omega)).mp hroom
    have hlarge : ¬whole * nanosecondsPerSecond + fractional ≤ maximumNanoseconds := by omega
    rw [if_pos hroom, if_neg hlarge]
    rfl
  · have hmul := (Nat.le_div_iff_mul_le (by omega)).mp (Nat.not_lt.mp hroom)
    have hsmall : whole * nanosecondsPerSecond + fractional ≤ maximumNanoseconds := by omega
    rw [if_neg hroom, if_pos hsmall, mulWord_of (by omega), Words.pure_bind,
      addWord_of (by omega), Words.pure_bind, Int.bmod_eq_of_le (by omega) (by omega)]

/-- `trace_time_floor` is the floor, without a wrap on the way, where it fits. -/
theorem traceTimeFloor_eq {monotonicTicks : ℕ} (hfrequency : 0 < header.monotonicFrequency)
    (hword : header.monotonicFrequency < 2 ^ 64)
    (horigin : header.monotonicOrigin ≤ monotonicTicks) :
    traceTimeFloor monotonicTicks header =
      pure (if ⌊elapsed monotonicTicks header⌋ ≤ (maximumNanoseconds : ℤ) then
        .ok ⌊elapsed monotonicTicks header⌋
        else .error ⟨"relative trace time does not fit nanoseconds"⟩) := by
  unfold traceTimeFloor
  rw [relativeTicks_eq hfrequency horigin, elapsed_eq horigin, Rat.floor_natCast_div_natCast]
  show RelativeTicks.floor _ = _
  rw [RelativeTicks.floor_eq _ hword]
  norm_cast

/-- Times up to one that is below the elapsed time are not after it. -/
theorem compare_ne_lt_iff {time : ℚ} {nanoseconds : ℤ} :
    Ord.compare time nanoseconds ≠ .lt ↔ nanoseconds ≤ ⌊time⌋ := by
  rw [Ne, compare_lt_iff_lt, not_lt, Int.le_floor]

/-- Trace time arithmetic is exact. -/
theorem trace_time_exact {monotonicTicks : ℕ} (hfrequency : 0 < header.monotonicFrequency)
    (hword : header.monotonicFrequency < 2 ^ 64)
    (horigin : header.monotonicOrigin ≤ monotonicTicks) :
    (∀ relativeTime : ℤ, 0 ≤ relativeTime →
      compareTraceTime monotonicTicks header relativeTime =
        .ok (Ord.compare (elapsed monotonicTicks header) relativeTime)) ∧
    (traceTimeFloor monotonicTicks header).exact = true ∧
    (traceTimeFloor monotonicTicks header).value =
      (if ⌊elapsed monotonicTicks header⌋ ≤ (maximumNanoseconds : ℤ) then
        .ok ⌊elapsed monotonicTicks header⌋
        else .error ⟨"relative trace time does not fit nanoseconds"⟩) ∧
    ∀ floor, (traceTimeFloor monotonicTicks header).value = .ok floor →
      IsGreatest { time : ℤ | 0 ≤ time ∧ time ≤ maximumNanoseconds ∧
        ∃ order, compareTraceTime monotonicTicks header time = .ok order ∧ order ≠ .lt } floor := by
  have hfloor := traceTimeFloor_eq hfrequency hword horigin
  have hcompare : ∀ relativeTime : ℤ, 0 ≤ relativeTime → _ := fun relativeTime htime =>
    compareTraceTime_eq hfrequency horigin htime
  refine ⟨hcompare, by rw [hfloor]; rfl, by rw [hfloor]; rfl, ?_⟩
  intro floor hvalue
  have hnonneg : 0 ≤ ⌊elapsed monotonicTicks header⌋ := by
    rw [elapsed_eq horigin, Rat.floor_natCast_div_natCast]
    positivity
  rw [hfloor] at hvalue
  change (if _ then _ else _) = _ at hvalue
  split at hvalue
  case isFalse => cases hvalue
  case isTrue hfits =>
    cases hvalue
    constructor
    · exact ⟨hnonneg, hfits, _, hcompare _ hnonneg, compare_ne_lt_iff.mpr (Int.le_refl _)⟩
    · intro time ⟨htime, _, order, hok, hne⟩
      rw [hcompare time htime] at hok
      cases hok
      exact compare_ne_lt_iff.mp hne

end Exact

/-- A clock of three ticks a second. -/
def thirdsHeader : FileHeader where
  pointerWidth := 64
  platform := .linux
  architecture := .x64
  sessionId := []
  monotonicFrequency := 3
  monotonicOrigin := 10

theorem trace_time_exact_thirds :
    compareTraceTime 11 thirdsHeader 333333333 =
      .ok (Ord.compare (elapsed 11 thirdsHeader) (333333333 : ℤ)) ∧
    (traceTimeFloor 11 thirdsHeader).exact = true := by
  have hexact := @trace_time_exact thirdsHeader 11 (by decide) (by decide) (by decide)
  exact ⟨hexact.1 333333333 (by decide), hexact.2.1⟩

end Noleax.Analyzer
