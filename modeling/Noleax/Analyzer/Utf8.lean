import Mathlib.Data.FinEnum
import Noleax.Lib.Bytes

/-!
# UTF-8 (`analyzer/utf8.cpp`)

`is_valid_utf8` over the index of the code, with every access checked. What it accepts is
compared with the encodings of scalar values, the characters of Lean: one turn of its loop
goes over the encoding of one character, or refuses.
-/

namespace Noleax.Analyzer

open Lib

/-! ## The loop -/

/-- `bytes[index]`; nothing past the end. -/
def byteAt (value : Bytes) (index : ℕ) : Option UInt8 := value[index]?

/-- The `for` loop over the bytes behind the second. -/
def continuesAt (value : Bytes) (index : ℕ) : ℕ → Option Bool
  | 0 => some true
  | count + 1 => do
      let byte ← byteAt value index
      if byte < 0x80 ∨ 0xbf < byte then some false else continuesAt value (index + 1) count

/-- `continuation_count`, `second_minimum` and `second_maximum` for a first byte above 0x7f. -/
def leadClass (first : UInt8) : Option (ℕ × UInt8 × UInt8) :=
  if 0xc2 ≤ first ∧ first ≤ 0xdf then some (1, 0x80, 0xbf)
  else if 0xe0 ≤ first ∧ first ≤ 0xef then
    if first = 0xe0 then some (2, 0xa0, 0xbf)
    else if first = 0xed then some (2, 0x80, 0x9f)
    else some (2, 0x80, 0xbf)
  else if 0xf0 ≤ first ∧ first ≤ 0xf4 then
    if first = 0xf0 then some (3, 0x90, 0xbf)
    else if first = 0xf4 then some (3, 0x80, 0x8f)
    else some (3, 0x80, 0xbf)
  else none

/-- One turn of the `while` loop: by how many bytes behind the first the index moves on, or
`return false`. -/
def sequenceAt (value : Bytes) (index : ℕ) : Option (Option ℕ) := do
  let first ← byteAt value index
  if first ≤ 0x7f then return some 0
  match leadClass first with
  | none => return none
  | some (continuationCount, secondMinimum, secondMaximum) =>
      if value.length - index - 1 < continuationCount then return none
      let second ← byteAt value (index + 1)
      if second < secondMinimum ∨ secondMaximum < second then return none
      let continues ← continuesAt value (index + 2) (continuationCount - 1)
      return if continues then some continuationCount else none

/-- The `while` loop. -/
def validFrom (value : Bytes) (index : ℕ) : Option Bool :=
  if index < value.length then do
    match ← sequenceAt value index with
    | none => return false
    | some continuationCount => validFrom value (index + (continuationCount + 1))
  else some true
termination_by value.length - index

def isValidUtf8 (value : Bytes) : Option Bool := validFrom value 0

/-! ## One turn -/

/-- `%x80-BF` -/
def Continuation (byte : UInt8) : Prop := 0x80 ≤ byte ∧ byte ≤ 0xbf

instance (byte : UInt8) : Decidable (Continuation byte) := inferInstanceAs (Decidable (_ ∧ _))

/-- What a turn that moves on by `count + 1` bytes has seen of `first :: tail`. -/
def Sequence (first : UInt8) (tail : Bytes) (count : ℕ) : Prop :=
  (first ≤ 0x7f ∧ count = 0) ∨
  (0x7f < first ∧ ∃ minimum maximum second trail, leadClass first = some (count, minimum, maximum) ∧
    tail = second :: trail ∧ count ≤ tail.length ∧ minimum ≤ second ∧ second ≤ maximum ∧
    ∀ byte ∈ trail.take (count - 1), Continuation byte)

section Turn

variable {value tail : Bytes} {first : UInt8} {index : ℕ}

theorem byteAt_drop {rest : Bytes} (h : value.drop index = rest) (k : ℕ) :
    byteAt value (index + k) = rest[k]? := by
  subst h
  exact List.getElem?_drop.symm

/-- The loop over the bytes behind the second, on a list. -/
theorem continuesAt_eq {count : ℕ} (hroom : index + count ≤ value.length) :
    continuesAt value index count =
      some (decide (∀ byte ∈ (value.drop index).take count, Continuation byte)) := by
  induction count generalizing index with
  | zero => simp [continuesAt]
  | succ count ih =>
      have hindex : index < value.length := by omega
      have hbyte : byteAt value index = some value[index] := List.getElem?_eq_getElem hindex
      rw [List.drop_eq_getElem_cons hindex, List.take_succ_cons]
      simp only [List.forall_mem_cons]
      show (byteAt value index).bind _ = _
      rw [hbyte, Option.bind_some, ih (by omega)]
      split
      · rename_i hout
        have hnot : ¬ Continuation value[index] := by
          intro hin
          exact hout.elim (UInt8.not_lt.mpr hin.1) (UInt8.not_lt.mpr hin.2)
        simp [hnot]
      · rename_i hin
        rw [not_or, UInt8.not_lt, UInt8.not_lt] at hin
        have hcontinuation : Continuation value[index] := hin
        simp [hcontinuation]

theorem leadClass_pos {count : ℕ} {minimum maximum : UInt8}
    (h : leadClass first = some (count, minimum, maximum)) : 0 < count := by
  unfold leadClass at h
  split at h
  · cases h
    exact Nat.one_pos
  · split at h
    · split at h
      · cases h
        exact Nat.two_pos
      · split at h <;> cases h <;> exact Nat.two_pos
    · split at h
      · split at h
        · cases h
          exact Nat.succ_pos 2
        · split at h <;> cases h <;> exact Nat.succ_pos 2
      · cases h

/-- A turn reads what is there, and either refuses or has seen a sequence. -/
theorem sequenceAt_cons (hdrop : value.drop index = first :: tail) :
    ∃ result, sequenceAt value index = some result ∧
      ∀ count, result = some count ↔ Sequence first tail count := by
  have hlength := congrArg List.length hdrop
  rw [List.length_drop, List.length_cons] at hlength
  have hfirst : byteAt value index = some first := byteAt_drop hdrop 0
  unfold sequenceAt
  rw [hfirst, Option.bind_eq_bind, Option.bind_some]
  by_cases hascii : first ≤ 0x7f
  · rw [if_pos hascii]
    refine ⟨some 0, rfl, fun count => ?_⟩
    rw [Option.some.injEq]
    constructor
    · intro hzero
      exact .inl ⟨hascii, hzero.symm⟩
    · intro h
      cases h with
      | inl h => exact h.2.symm
      | inr h => exact absurd hascii (UInt8.not_le.mpr h.1)
  rw [if_neg hascii]
  have hlead := UInt8.not_le.mp hascii
  -- a refusal is right where no sequence fits
  have hrefuse (hno : ∀ count, ¬ Sequence first tail count) :
      ∃ result, (some none : Option (Option ℕ)) = some result ∧
        ∀ count, result = some count ↔ Sequence first tail count :=
    ⟨none, rfl, fun count => iff_of_false (fun h => nomatch h) (hno count)⟩
  cases hclass : leadClass first with
  | none =>
      refine hrefuse fun count h => ?_
      obtain h | ⟨-, _, _, _, _, hsome, -⟩ := h
      · exact hascii h.1
      · cases hclass.symm.trans hsome
  | some triple =>
      obtain ⟨continuationCount, minimum, maximum⟩ := triple
      have hpos := leadClass_pos hclass
      have hsequence {count : ℕ} (h : Sequence first tail count) :
          count = continuationCount ∧ ∃ second trail, tail = second :: trail ∧
            count ≤ tail.length ∧ minimum ≤ second ∧ second ≤ maximum ∧
            ∀ byte ∈ trail.take (count - 1), Continuation byte := by
        obtain h | ⟨-, _, _, second, trail, hsome, hrest⟩ := h
        · exact absurd h.1 hascii
        · cases hclass.symm.trans hsome
          exact ⟨rfl, second, trail, hrest⟩
      show ∃ result, (if value.length - index - 1 < continuationCount then _ else _) = _ ∧ _
      split
      · rename_i hshort
        refine hrefuse fun count h => ?_
        obtain ⟨rfl, _, _, -, hroom, -⟩ := hsequence h
        omega
      rename_i hroom
      cases tail with
      | nil =>
          rw [List.length_nil] at hlength
          omega
      | cons second trail =>
          rw [List.length_cons] at hlength
          have hsecond : byteAt value (index + 1) = some second := byteAt_drop hdrop 1
          have htrail : value.drop (index + 2) = trail := by
            rw [← List.drop_drop, hdrop]
            rfl
          rw [Option.bind_eq_bind, hsecond, Option.bind_some]
          split
          · rename_i hout
            refine hrefuse fun count h => ?_
            obtain ⟨-, _, _, htail, -, hminimum, hmaximum, -⟩ := hsequence h
            cases htail
            exact hout.elim (UInt8.not_lt.mpr hminimum) (UInt8.not_lt.mpr hmaximum)
          rename_i hin
          rw [not_or, UInt8.not_lt, UInt8.not_lt] at hin
          rw [continuesAt_eq (by omega), Option.bind_some, htrail]
          refine ⟨_, rfl, fun count => ?_⟩
          constructor
          · intro h
            split at h
            · rename_i hcontinues
              cases h
              refine .inr ⟨hlead, minimum, maximum, second, trail, hclass, rfl, ?_, hin.1, hin.2,
                of_decide_eq_true hcontinues⟩
              rw [List.length_cons]
              omega
            · cases h
          · intro h
            obtain ⟨rfl, _, _, htail, -, -, -, hcontinues⟩ := hsequence h
            cases htail
            rw [if_pos (decide_eq_true hcontinues)]

/-! ## Sequences and characters -/

theorem leadClass_two (h : 0xc2 ≤ first.toNat ∧ first.toNat ≤ 0xdf) :
    leadClass first = some (1, 0x80, 0xbf) :=
  if_pos h

theorem leadClass_three (h : 0xe0 ≤ first.toNat ∧ first.toNat ≤ 0xef) :
    leadClass first = some (2, if first = 0xe0 then 0xa0 else 0x80,
      if first = 0xed then 0x9f else 0xbf) := by
  have htwo : ¬ (0xc2 ≤ first.toNat ∧ first.toNat ≤ 0xdf) := by omega
  refine (if_neg htwo).trans ((if_pos h).trans ?_)
  split
  · rename_i hfirst
    subst hfirst
    rfl
  · split <;> rfl

theorem leadClass_four (h : 0xf0 ≤ first.toNat ∧ first.toNat ≤ 0xf4) :
    leadClass first = some (3, if first = 0xf0 then 0x90 else 0x80,
      if first = 0xf4 then 0x8f else 0xbf) := by
  have htwo : ¬ (0xc2 ≤ first.toNat ∧ first.toNat ≤ 0xdf) := by omega
  have hthree : ¬ (0xe0 ≤ first.toNat ∧ first.toNat ≤ 0xef) := by omega
  refine (if_neg htwo).trans ((if_neg hthree).trans ((if_pos h).trans ?_))
  split
  · rename_i hfirst
    subst hfirst
    rfl
  · split <;> rfl

theorem leadClass_range {triple : ℕ × UInt8 × UInt8} (h : leadClass first = some triple) :
    (0xc2 ≤ first.toNat ∧ first.toNat ≤ 0xdf) ∨ (0xe0 ≤ first.toNat ∧ first.toNat ≤ 0xef) ∨
      (0xf0 ≤ first.toNat ∧ first.toNat ≤ 0xf4) := by
  by_contra hno
  rw [not_or, not_or] at hno
  obtain ⟨htwo, hthree, hfour⟩ := hno
  have hnone : leadClass first = none := (if_neg htwo).trans ((if_neg hthree).trans (if_neg hfour))
  cases hnone.symm.trans h

theorem ofNat_le {low high : ℕ} (h : low ≤ high) (hhigh : high < 256) :
    UInt8.ofNat low ≤ UInt8.ofNat high := by
  rw [UInt8.le_iff_toNat_le, UInt8.toNat_ofNat_of_lt' hhigh,
    UInt8.toNat_ofNat_of_lt' (lt_of_le_of_lt h hhigh)]
  exact h

theorem ofNat_lead {low n high : ℕ} (hlow : low ≤ n) (h : n ≤ high) (hhigh : high < 256) :
    low ≤ (UInt8.ofNat n).toNat ∧ (UInt8.ofNat n).toNat ≤ high := by
  rw [UInt8.toNat_ofNat_of_lt' (lt_of_le_of_lt h hhigh)]
  exact ⟨hlow, h⟩

theorem ofNat_inj {m n : ℕ} (hm : m < 256) (hn : n < 256) (h : UInt8.ofNat m = UInt8.ofNat n) :
    m = n := by
  have htoNat := congrArg UInt8.toNat h
  rwa [UInt8.toNat_ofNat_of_lt' hm, UInt8.toNat_ofNat_of_lt' hn] at htoNat

theorem continuation_ofNat (n : ℕ) : Continuation (UInt8.ofNat (n % 0x40 + 0x80)) :=
  ⟨@ofNat_le 0x80 _ (by omega) (by omega), @ofNat_le _ 0xbf (by omega) (by omega)⟩

/-- The encoding of a character is a sequence. -/
theorem sequence_encode (c : Char) (after : Bytes) : ∃ first tail count,
    String.utf8EncodeChar c ++ after = first :: tail ∧
      (String.utf8EncodeChar c).length = count + 1 ∧ Sequence first tail count := by
  have hvalid : c.val.toNat < 0xd800 ∨ (0xdfff < c.val.toNat ∧ c.val.toNat < 0x110000) := c.valid
  fun_cases String.utf8EncodeChar c with
  | case1 v h => exact ⟨_, _, _, rfl, rfl, .inl ⟨@ofNat_le _ 0x7f h (by omega), rfl⟩⟩
  | case2 v h1 h2 =>
      have hlead := @ofNat_lead 0xc2 (v / 64 % 32 + 0xc0) 0xdf (by omega) (by omega) (by omega)
      have hsecond := continuation_ofNat v
      refine ⟨_, _, _, rfl, rfl, .inr ⟨?_, _, _, _, _, leadClass_two hlead, rfl, ?_, hsecond.1,
        hsecond.2, fun _ h => nomatch h⟩⟩
      · exact lt_of_lt_of_le (by omega : 0x7f < 0xc2) hlead.1
      · exact Nat.succ_le_succ (Nat.zero_le _)
  | case3 v h1 h2 h3 =>
      have hfirst : v / 4096 % 16 + 0xe0 < 256 := by omega
      have hlead := @ofNat_lead 0xe0 (v / 4096 % 16 + 0xe0) 0xef (by omega) (by omega) (by omega)
      refine ⟨_, _, _, rfl, rfl, .inr ⟨?_, _, _, _, _, leadClass_three hlead, rfl, ?_, ?_, ?_, ?_⟩⟩
      · exact lt_of_lt_of_le (by omega : 0x7f < 0xe0) hlead.1
      · exact Nat.succ_le_succ (Nat.succ_le_succ (Nat.zero_le _))
      · split
        · rename_i hlow
          have hlow := @ofNat_inj _ 0xe0 hfirst (by omega) hlow
          exact @ofNat_le 0xa0 _ (by omega) (by omega)
        · exact (continuation_ofNat _).1
      · split
        · rename_i hhigh
          have hhigh := @ofNat_inj _ 0xed hfirst (by omega) hhigh
          exact @ofNat_le _ 0x9f (by omega) (by omega)
        · exact (continuation_ofNat _).2
      · intro byte hbyte
        cases List.mem_singleton.mp hbyte
        exact continuation_ofNat _
  | case4 v h1 h2 h3 =>
      have hv : v < 0x110000 := by
        show c.val.toNat < 0x110000
        omega
      have hfirst : v / 262144 % 8 + 0xf0 < 256 := by omega
      have hlead := @ofNat_lead 0xf0 (v / 262144 % 8 + 0xf0) 0xf4 (by omega) (by omega) (by omega)
      refine ⟨_, _, _, rfl, rfl, .inr ⟨?_, _, _, _, _, leadClass_four hlead, rfl, ?_, ?_, ?_, ?_⟩⟩
      · exact lt_of_lt_of_le (by omega : 0x7f < 0xf0) hlead.1
      · exact Nat.succ_le_succ (Nat.succ_le_succ (Nat.succ_le_succ (Nat.zero_le _)))
      · split
        · rename_i hlow
          have hlow := @ofNat_inj _ 0xf0 hfirst (by omega) hlow
          exact @ofNat_le 0x90 _ (by omega) (by omega)
        · exact (continuation_ofNat _).1
      · split
        · rename_i hhigh
          have hhigh := @ofNat_inj _ 0xf4 hfirst (by omega) hhigh
          exact @ofNat_le _ 0x8f (by omega) (by omega)
        · exact (continuation_ofNat _).2
      · intro byte hbyte
        cases List.mem_cons.mp hbyte with
        | inl heq => exact heq ▸ continuation_ofNat _
        | inr hmem => exact List.mem_singleton.mp hmem ▸ continuation_ofNat _

/-- A character is one byte of ASCII or bytes above it. -/
theorem encode_bytes (c : Char) : (∃ byte, byte ≤ 0x7f ∧ String.utf8EncodeChar c = [byte]) ∨
    ∀ byte ∈ String.utf8EncodeChar c, 0x80 ≤ byte := by
  have hlead {n : ℕ} (low : 0x80 ≤ n) (high : n < 256) : 0x80 ≤ UInt8.ofNat n :=
    @ofNat_le 0x80 n low high
  fun_cases String.utf8EncodeChar c with
  | case1 v h => exact .inl ⟨_, @ofNat_le _ 0x7f h (by omega), rfl⟩
  | case2 v _ _ =>
      refine .inr ?_
      simp only [List.forall_mem_cons, List.not_mem_nil, false_imp_iff, implies_true, and_true]
      exact ⟨hlead (by omega) (by omega), (continuation_ofNat _).1⟩
  | case3 v _ _ _ =>
      refine .inr ?_
      simp only [List.forall_mem_cons, List.not_mem_nil, false_imp_iff, implies_true, and_true]
      exact ⟨hlead (by omega) (by omega), (continuation_ofNat _).1, (continuation_ofNat _).1⟩
  | case4 v _ _ _ =>
      refine .inr ?_
      simp only [List.forall_mem_cons, List.not_mem_nil, false_imp_iff, implies_true, and_true]
      exact ⟨hlead (by omega) (by omega), (continuation_ofNat _).1, (continuation_ofNat _).1,
        (continuation_ofNat _).1⟩

/-- A scalar value and its encoding, by the number of bytes. -/
theorem exists_char {v : ℕ} (hvalid : v < 0xd800 ∨ (0xdfff < v ∧ v < 0x110000)) : ∃ c : Char,
    (v ≤ 0x7f → String.utf8EncodeChar c = [UInt8.ofNat v]) ∧
    (0x7f < v → v ≤ 0x7ff → String.utf8EncodeChar c =
      [UInt8.ofNat (v / 64 % 0x20 + 0xc0), UInt8.ofNat (v % 0x40 + 0x80)]) ∧
    (0x7ff < v → v ≤ 0xffff → String.utf8EncodeChar c =
      [UInt8.ofNat (v / 4096 % 0x10 + 0xe0), UInt8.ofNat (v / 64 % 0x40 + 0x80),
        UInt8.ofNat (v % 0x40 + 0x80)]) ∧
    (0xffff < v → String.utf8EncodeChar c =
      [UInt8.ofNat (v / 262144 % 0x08 + 0xf0), UInt8.ofNat (v / 4096 % 0x40 + 0x80),
        UInt8.ofNat (v / 64 % 0x40 + 0x80), UInt8.ofNat (v % 0x40 + 0x80)]) := by
  refine ⟨Char.ofNatAux v hvalid, fun h => if_pos h, fun hlow h => ?_, fun hlow h => ?_,
    fun hlow => ?_⟩
  · exact (if_neg (by omega : ¬ v ≤ 0x7f)).trans (if_pos h)
  · exact (if_neg (by omega : ¬ v ≤ 0x7f)).trans
      ((if_neg (by omega : ¬ v ≤ 0x7ff)).trans (if_pos h))
  · exact (if_neg (by omega : ¬ v ≤ 0x7f)).trans
      ((if_neg (by omega : ¬ v ≤ 0x7ff)).trans (if_neg (by omega : ¬ v ≤ 0xffff)))

theorem ofNat_eq {n : ℕ} {byte : UInt8} (h : n = byte.toNat) : UInt8.ofNat n = byte :=
  h ▸ UInt8.ofNat_toNat

theorem Continuation.range {byte : UInt8} (h : Continuation byte) :
    0x80 ≤ byte.toNat ∧ byte.toNat ≤ 0xbf :=
  h

/-- The second byte is a continuation byte, of a smaller range behind two special first bytes. -/
theorem second_range {second lowest highest low high : UInt8}
    (hminimum : (if first = lowest then low else 0x80) ≤ second)
    (hmaximum : second ≤ if first = highest then high else 0xbf)
    (hlow : 0x80 ≤ low) (hhigh : high ≤ 0xbf) :
    (0x80 ≤ second.toNat ∧ second.toNat ≤ 0xbf) ∧
      (first.toNat = lowest.toNat → low.toNat ≤ second.toNat) ∧
      (first.toNat = highest.toNat → second.toNat ≤ high.toNat) := by
  refine ⟨⟨?_, ?_⟩, fun h => ?_, fun h => ?_⟩
  · split at hminimum
    · exact UInt8.le_trans hlow hminimum
    · exact hminimum
  · split at hmaximum
    · exact UInt8.le_trans hmaximum hhigh
    · exact hmaximum
  · rw [if_pos (UInt8.toNat_inj.mp h)] at hminimum
    exact hminimum
  · rw [if_pos (UInt8.toNat_inj.mp h)] at hmaximum
    exact hmaximum

/-- A sequence encodes a character. -/
theorem encode_of_sequence {count : ℕ} (h : Sequence first tail count) : ∃ c after,
    first :: tail = String.utf8EncodeChar c ++ after ∧
      (String.utf8EncodeChar c).length = count + 1 := by
  obtain ⟨hascii, rfl⟩ | ⟨-, minimum, maximum, second, trail, hclass, rfl, hroom, hminimum,
    hmaximum, htrail⟩ := h
  · have hascii : first.toNat ≤ 0x7f := hascii
    obtain ⟨c, hencode, -⟩ := @exists_char first.toNat (by omega)
    refine ⟨c, tail, ?_, ?_⟩
    · rw [hencode hascii, UInt8.ofNat_toNat]
      rfl
    · rw [hencode hascii]
      rfl
  · rw [List.length_cons] at hroom
    obtain hlead | hlead | hlead := leadClass_range hclass
    · cases (leadClass_two hlead).symm.trans hclass
      have hsecond := Continuation.range ⟨hminimum, hmaximum⟩
      obtain ⟨c, -, hencode, -⟩ :=
        @exists_char ((first.toNat - 0xc0) * 64 + (second.toNat - 0x80)) (by omega)
      have hencode := hencode (by omega) (by omega)
      rw [ofNat_eq (by omega : _ = first.toNat), ofNat_eq (by omega : _ = second.toNat)] at hencode
      exact ⟨c, trail, by rw [hencode]; rfl, by rw [hencode]; rfl⟩
    · cases (leadClass_three hlead).symm.trans hclass
      obtain ⟨hsecond, hlow, hhigh⟩ := second_range hminimum hmaximum (by decide) (by decide)
      have hlow : first.toNat = 0xe0 → 0xa0 ≤ second.toNat := hlow
      have hhigh : first.toNat = 0xed → second.toNat ≤ 0x9f := hhigh
      obtain ⟨third, after, rfl⟩ :=
        List.exists_cons_of_length_pos (by omega : 0 < trail.length)
      have hthird := (htrail third List.mem_cons_self).range
      obtain ⟨c, -, -, hencode, -⟩ := @exists_char ((first.toNat - 0xe0) * 4096 +
        (second.toNat - 0x80) * 64 + (third.toNat - 0x80)) (by omega)
      have hencode := hencode (by omega) (by omega)
      rw [ofNat_eq (by omega : _ = first.toNat), ofNat_eq (by omega : _ = second.toNat),
        ofNat_eq (by omega : _ = third.toNat)] at hencode
      exact ⟨c, after, by rw [hencode]; rfl, by rw [hencode]; rfl⟩
    · cases (leadClass_four hlead).symm.trans hclass
      obtain ⟨hsecond, hlow, hhigh⟩ := second_range hminimum hmaximum (by decide) (by decide)
      have hlow : first.toNat = 0xf0 → 0x90 ≤ second.toNat := hlow
      have hhigh : first.toNat = 0xf4 → second.toNat ≤ 0x8f := hhigh
      obtain ⟨third, behind, rfl⟩ :=
        List.exists_cons_of_length_pos (by omega : 0 < trail.length)
      rw [List.length_cons] at hroom
      obtain ⟨fourth, after, rfl⟩ :=
        List.exists_cons_of_length_pos (by omega : 0 < behind.length)
      have hthird := (htrail third List.mem_cons_self).range
      have hfourth := (htrail fourth (List.mem_cons_of_mem _ List.mem_cons_self)).range
      obtain ⟨c, -, -, -, hencode⟩ := @exists_char ((first.toNat - 0xf0) * 262144 +
        (second.toNat - 0x80) * 4096 + (third.toNat - 0x80) * 64 + (fourth.toNat - 0x80)) (by omega)
      have hencode := hencode (by omega)
      rw [ofNat_eq (by omega : _ = first.toNat), ofNat_eq (by omega : _ = second.toNat),
        ofNat_eq (by omega : _ = third.toNat), ofNat_eq (by omega : _ = fourth.toNat)] at hencode
      exact ⟨c, after, by rw [hencode]; rfl, by rw [hencode]; rfl⟩

/-! ## The run -/

/-- From an index on, the loop reads what is there and accepts the encodings of characters. -/
theorem validFrom_eq (hinside : index ≤ value.length) : ∃ valid,
    validFrom value index = some valid ∧ (valid = true ↔
      ∃ characters : List Char,
        value.drop index = characters.flatMap String.utf8EncodeChar) := by
  induction hleft : value.length - index using Nat.strongRecOn generalizing index with
  | ind left ih =>
      rw [validFrom]
      split
      · rename_i hindex
        obtain ⟨first, tail, hdrop⟩ : ∃ first tail, value.drop index = first :: tail :=
          ⟨_, _, List.drop_eq_getElem_cons hindex⟩
        obtain ⟨result, hturn, hresult⟩ := sequenceAt_cons hdrop
        rw [Option.bind_eq_bind, hturn, Option.bind_some]
        cases result with
        | none =>
            refine ⟨false, rfl, iff_of_false Bool.false_ne_true fun ⟨characters, hall⟩ => ?_⟩
            cases characters with
            | nil => cases hdrop.symm.trans hall
            | cons c characters =>
                obtain ⟨_, _, _, hencode, -, hsequence⟩ :=
                  sequence_encode c (characters.flatMap String.utf8EncodeChar)
                cases (hdrop.symm.trans hall).trans hencode
                cases (hresult _).mpr hsequence
        | some count =>
            obtain ⟨c, after, hencode, hlength⟩ := encode_of_sequence ((hresult count).mp rfl)
            have hall := hdrop.trans hencode
            have hafter : value.drop (index + (count + 1)) = after := by
              rw [← List.drop_drop, hall, ← hlength, List.drop_left]
            have hroom := congrArg List.length hall
            rw [List.length_drop, List.length_append, hlength] at hroom
            obtain ⟨valid, hrest, hiff⟩ := ih (value.length - (index + (count + 1))) (by omega)
              (by omega) rfl
            refine ⟨valid, hrest, hiff.trans ?_⟩
            rw [hafter, hall]
            constructor
            · intro ⟨characters, hcharacters⟩
              exact ⟨c :: characters, by rw [hcharacters, List.flatMap_cons]⟩
            · intro ⟨characters, hcharacters⟩
              cases characters with
              | nil => cases hencode.trans hcharacters
              | cons other characters =>
                  obtain ⟨_, _, _, hfirst, hcount, hsequence⟩ :=
                    sequence_encode other (characters.flatMap String.utf8EncodeChar)
                  cases (hencode.trans hcharacters).trans hfirst
                  cases (hresult _).mpr hsequence
                  exact ⟨characters, (List.append_inj hcharacters (hlength.trans hcount.symm)).2⟩
      · rename_i hend
        refine ⟨true, rfl, iff_of_true rfl ⟨[], ?_⟩⟩
        exact List.drop_eq_nil_iff.mpr (not_lt.mp hend)

end Turn

/-- `is_valid_utf8` never reads past the end, and accepts a byte string if and only if it
consists of encodings of scalar values. -/
theorem is_valid_utf8_exact (value : Bytes) : ∃ valid, isValidUtf8 value = some valid ∧
    (valid = true ↔ ∃ characters : List Char,
      value = characters.flatMap String.utf8EncodeChar) :=
  validFrom_eq (Nat.zero_le _)

end Noleax.Analyzer
