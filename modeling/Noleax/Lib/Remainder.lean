import Mathlib.Data.List.GetD

/-!
# Remainders over the two-element field

The reflected division of a message by a polynomial, one bit at a time. A division of bits
is linear, and injective where the polynomial has its highest bit. Up to a word of bits may be
added first and divided afterwards; so a table of bytes does what the bits do, and two
messages with one remainder do not differ within a single word of bits.
-/

namespace Noleax.Lib.Remainder

variable {w : ℕ}

/-- One bit of the division; the lowest bit of `x` is the highest coefficient. -/
def divide (polynomial x : BitVec w) : BitVec w :=
  if x.getLsbD 0 then (x >>> 1) ^^^ polynomial else x >>> 1

/-- `count` bits of the division. -/
def divides (polynomial : BitVec w) : ℕ → BitVec w → BitVec w
  | 0, x => x
  | count + 1, x => divides polynomial count (divide polynomial x)

def ofBit (bit : Bool) : BitVec w := if bit then 1 else 0

/-- One bit of a message. -/
def serialStep (polynomial remainder : BitVec w) (bit : Bool) : BitVec w :=
  divide polynomial (remainder ^^^ ofBit bit)

/-- The remainder of a message, bit by bit. -/
def serial (polynomial remainder : BitVec w) (bits : List Bool) : BitVec w :=
  bits.foldl (serialStep polynomial) remainder

/-- Bits as a word, the first one the lowest. -/
def ofBits : List Bool → BitVec w
  | [] => 0
  | bit :: bits => (ofBits bits <<< 1) ^^^ ofBit bit

/-! ## Linearity -/

section Linear

variable {polynomial x y : BitVec w}

theorem divide_xor : divide polynomial (x ^^^ y) = divide polynomial x ^^^ divide polynomial y := by
  unfold divide
  rw [BitVec.getLsbD_xor, BitVec.ushiftRight_xor_distrib]
  cases x.getLsbD 0 with
  | false =>
      cases y.getLsbD 0 with
      | false => rfl
      | true => exact BitVec.xor_assoc _ _ _
  | true =>
      cases y.getLsbD 0 with
      | false =>
          show (x >>> 1 ^^^ y >>> 1) ^^^ polynomial = (x >>> 1 ^^^ polynomial) ^^^ y >>> 1
          ac_rfl
      | true =>
          have hcancel : polynomial ^^^ polynomial = 0#w := BitVec.xor_self
          show x >>> 1 ^^^ y >>> 1 = (x >>> 1 ^^^ polynomial) ^^^ (y >>> 1 ^^^ polynomial)
          have hcomm : (x >>> 1 ^^^ polynomial) ^^^ (y >>> 1 ^^^ polynomial) =
              (x >>> 1 ^^^ y >>> 1) ^^^ (polynomial ^^^ polynomial) := by ac_rfl
          rw [hcomm, hcancel, BitVec.xor_zero]

theorem divides_xor {count : ℕ} : divides polynomial count (x ^^^ y) =
    divides polynomial count x ^^^ divides polynomial count y := by
  induction count generalizing x y with
  | zero => rfl
  | succ count ih =>
      show divides polynomial count (divide polynomial (x ^^^ y)) = _
      rw [divide_xor, ih]
      rfl

theorem divides_add {first second : ℕ} : divides polynomial (first + second) x =
    divides polynomial second (divides polynomial first x) := by
  induction first generalizing x with
  | zero => rw [Nat.zero_add]; rfl
  | succ first ih =>
      rw [Nat.succ_add]
      exact ih

/-! ## What a division undoes -/

/-- A division moves a word down that was moved up before. -/
theorem divide_shiftLeft (h : x.getLsbD (w - 1) = false) : divide polynomial (x <<< 1) = x := by
  have hlow : (x <<< 1).getLsbD 0 = false := by simp
  unfold divide
  rw [if_neg (by rw [hlow]; exact Bool.false_ne_true)]
  apply BitVec.eq_of_getLsbD_eq
  intro i hi
  rw [BitVec.getLsbD_ushiftRight, BitVec.getLsbD_shiftLeft, Nat.add_sub_cancel_left]
  by_cases htop : 1 + i < w
  · simp [htop]
  · have hlast : i = w - 1 := by omega
    rw [hlast, h, Bool.and_false]

theorem divides_shiftLeft {count : ℕ} (h : ∀ i, w ≤ i + count → x.getLsbD i = false) :
    divides polynomial count (x <<< count) = x := by
  induction count generalizing x with
  | zero => exact BitVec.shiftLeft_zero x
  | succ count ih =>
      have htop : (x <<< count).getLsbD (w - 1) = false := by
        rw [BitVec.getLsbD_shiftLeft]
        by_cases hlow : w - 1 < count
        · simp [hlow]
        · rw [h (w - 1 - count) (by omega), Bool.and_false]
      show divides polynomial count (divide polynomial (x <<< (count + 1))) = x
      rw [BitVec.shiftLeft_add, divide_shiftLeft htop]
      exact ih fun i hi => h i (by omega)

/-- The division of the low bits, and the rest of the word moved down. -/
theorem divides_split {count : ℕ} : divides polynomial count x =
    divides polynomial count (x ^^^ (x >>> count <<< count)) ^^^ (x >>> count) := by
  have hhigh : ∀ i, w ≤ i + count → (x >>> count).getLsbD i = false := by
    intro i hi
    rw [BitVec.getLsbD_ushiftRight]
    exact BitVec.getLsbD_of_ge _ _ (by omega)
  rw [divides_xor, divides_shiftLeft hhigh, BitVec.xor_assoc, BitVec.xor_self, BitVec.xor_zero]

theorem divide_eq_zero (hpolynomial : polynomial.msb = true) (h : divide polynomial x = 0#w) :
    x = 0#w := by
  have hwidth : 0 < w := by
    refine Nat.pos_of_ne_zero fun hzero => ?_
    rw [BitVec.msb_eq_getLsbD_last, BitVec.getLsbD_of_ge _ _ (by omega)] at hpolynomial
    cases hpolynomial
  unfold divide at h
  cases hlow : x.getLsbD 0 with
  | true =>
      -- the quotient has no highest bit to cancel that of the polynomial
      rw [hlow, if_pos rfl] at h
      have htop : (x >>> 1).getLsbD (w - 1) = polynomial.getLsbD (w - 1) :=
        congrArg (·.getLsbD (w - 1)) (BitVec.xor_eq_zero_iff.mp h)
      rw [BitVec.getLsbD_ushiftRight, BitVec.getLsbD_of_ge _ _ (by omega)] at htop
      rw [BitVec.msb_eq_getLsbD_last, ← htop] at hpolynomial
      cases hpolynomial
  | false =>
      rw [hlow, if_neg Bool.false_ne_true] at h
      apply BitVec.eq_of_getLsbD_eq
      intro i hi
      rw [BitVec.getLsbD_zero]
      cases i with
      | zero => exact hlow
      | succ i =>
          have hbit := congrArg (·.getLsbD i) h
          simp only [BitVec.getLsbD_ushiftRight, BitVec.getLsbD_zero] at hbit
          rwa [Nat.add_comm] at hbit

/-- A division by a polynomial with its highest bit loses nothing. -/
theorem divide_injective (hpolynomial : polynomial.msb = true)
    (h : divide polynomial x = divide polynomial y) : x = y := by
  have hzero : divide polynomial (x ^^^ y) = 0#w := by
    rw [divide_xor, h, BitVec.xor_self]
  exact BitVec.xor_eq_zero_iff.mp (divide_eq_zero hpolynomial hzero)

theorem divides_injective (hpolynomial : polynomial.msb = true) {count : ℕ}
    (h : divides polynomial count x = divides polynomial count y) : x = y := by
  induction count generalizing x y with
  | zero => exact h
  | succ count ih => exact divide_injective hpolynomial (ih h)

end Linear

/-! ## Words of bits -/

section Words

variable {polynomial remainder : BitVec w} {bits : List Bool}

theorem getLsbD_ofBit (bit : Bool) (i : ℕ) (hi : i < w) :
    (ofBit bit : BitVec w).getLsbD i = (decide (i = 0) && bit) := by
  unfold ofBit
  cases bit with
  | true => simp [BitVec.getLsbD_one]; omega
  | false => simp

theorem getLsbD_ofBits {i : ℕ} (hi : i < w) :
    (ofBits bits : BitVec w).getLsbD i = bits.getD i false := by
  induction bits generalizing i with
  | nil => exact BitVec.getLsbD_zero
  | cons bit bits ih =>
      unfold ofBits
      rw [BitVec.getLsbD_xor, BitVec.getLsbD_shiftLeft, getLsbD_ofBit bit i hi]
      cases i with
      | zero => simp
      | succ i =>
          rw [Nat.add_sub_cancel, ih (by omega)]
          simp [hi]

/-- Bits up to a word are added first and divided afterwards. -/
theorem serial_eq (hbits : bits.length ≤ w) : serial polynomial remainder bits =
    divides polynomial bits.length (remainder ^^^ ofBits bits) := by
  induction bits generalizing remainder with
  | nil => exact (BitVec.xor_zero).symm
  | cons bit bits ih =>
      rw [List.length_cons] at hbits
      have htop : (ofBits bits : BitVec w).getLsbD (w - 1) = false := by
        rw [getLsbD_ofBits (by omega), List.getD_eq_default _ _ (by omega)]
      have hstep : divide polynomial (remainder ^^^ ofBits (bit :: bits)) =
          serialStep polynomial remainder bit ^^^ ofBits bits := by
        show divide polynomial (remainder ^^^ (ofBits bits <<< 1 ^^^ ofBit bit)) = _
        rw [BitVec.xor_comm (ofBits bits <<< 1), ← BitVec.xor_assoc, divide_xor,
          divide_shiftLeft htop]
        rfl
      show serial polynomial (serialStep polynomial remainder bit) bits =
        divides polynomial bits.length (divide polynomial (remainder ^^^ ofBits (bit :: bits)))
      rw [ih (by omega), hstep]

theorem serial_append {more : List Bool} : serial polynomial remainder (bits ++ more) =
    serial polynomial (serial polynomial remainder bits) more :=
  List.foldl_append

theorem serial_injective (hpolynomial : polynomial.msb = true) {other : BitVec w}
    (h : serial polynomial remainder bits = serial polynomial other bits) : remainder = other := by
  induction bits generalizing remainder other with
  | nil => exact h
  | cons bit bits ih =>
      have hstep := divide_injective hpolynomial (ih h)
      exact (BitVec.xor_left_inj _).mp hstep

/-- A word of bits is read from its remainder. -/
theorem serial_word_injective (hpolynomial : polynomial.msb = true) {other : List Bool}
    (hlength : bits.length = other.length) (hbits : bits.length ≤ w)
    (h : serial polynomial remainder bits = serial polynomial remainder other) : bits = other := by
  rw [serial_eq hbits, serial_eq (hlength ▸ hbits), ← hlength] at h
  have hwords : (ofBits bits : BitVec w) = ofBits other :=
    (BitVec.xor_right_inj _).mp (divides_injective hpolynomial h)
  apply List.ext_getElem hlength
  intro i hi hi'
  have hbit : (ofBits bits : BitVec w).getLsbD i = (ofBits other : BitVec w).getLsbD i :=
    congrArg (·.getLsbD i) hwords
  rw [getLsbD_ofBits (by omega), getLsbD_ofBits (by omega)] at hbit
  rwa [List.getD_eq_getElem _ _ hi, List.getD_eq_getElem _ _ hi'] at hbit

/-- Two messages that differ within a word of bits have two remainders. -/
theorem serial_ne (hpolynomial : polynomial.msb = true) {before after other : List Bool}
    (hlength : bits.length = other.length) (hbits : bits.length ≤ w) (hne : bits ≠ other) :
    serial polynomial remainder (before ++ bits ++ after) ≠
      serial polynomial remainder (before ++ other ++ after) := by
  intro h
  rw [serial_append, serial_append, serial_append, serial_append] at h
  exact hne (serial_word_injective hpolynomial hlength hbits (serial_injective hpolynomial h))

end Words

end Noleax.Lib.Remainder
