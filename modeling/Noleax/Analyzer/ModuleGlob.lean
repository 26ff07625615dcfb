import Mathlib.Data.List.TakeWhile
import Noleax.Lib.Wildcards

/-!
# Module patterns (`src/analyzer/filter.cpp`)

`module_glob_matches` keeps one place to go back to, the last wildcard. It looks for equal
characters before it looks for a wildcard, so a `*` of the value stops a `*` of the pattern
from matching anything else.
-/

namespace Noleax.Analyzer

open Lib

/-! ## Characters -/

/-- A `char`. -/
abbrev Byte := UInt8

def asterisk : Byte := '*'.toUInt8

def questionMark : Byte := '?'.toUInt8

def slash : Byte := '/'.toUInt8

def backslash : Byte := '\\'.toUInt8

def normalizeModuleCharacter (value : Byte) : Byte :=
  if value = backslash then slash
  else if 'A'.toUInt8 ≤ value ∧ value ≤ 'Z'.toUInt8 then value + ('a'.toUInt8 - 'A'.toUInt8)
  else value

abbrev IsUpper (c : Byte) : Prop := 'A'.toUInt8 ≤ c ∧ c ≤ 'Z'.toUInt8

abbrev IsSeparator (c : Byte) : Prop := c = slash ∨ c = backslash

/-- The two cases of an ASCII letter. -/
abbrev CaseOf (upper lower : Byte) : Prop := IsUpper upper ∧ lower = upper + 32

/-- The same character up to ASCII case, with the two separators the same. -/
def SameCharacter (c d : Byte) : Prop :=
  c = d ∨ CaseOf c d ∨ CaseOf d c ∨ (IsSeparator c ∧ IsSeparator d)

/-- What a character of a pattern accepts: `?` anything. -/
def Accepts (p x : Byte) : Prop := p = questionMark ∨ SameCharacter p x

/-- The value splits into the parts that the characters of the pattern match. -/
abbrev GlobMatches : List Byte → List Byte → Prop := Matches asterisk Accepts

/-- `normalize_module_character` on the code of the character. -/
theorem normalizeModuleCharacter_toNat (c : Byte) : (normalizeModuleCharacter c).toNat =
    if c.toNat = 92 then 47 else if 65 ≤ c.toNat ∧ c.toNat ≤ 90 then c.toNat + 32
    else c.toNat := by
  have hback : c = backslash ↔ c.toNat = 92 := UInt8.toNat_inj.symm
  have hupper : ('A'.toUInt8 ≤ c ∧ c ≤ 'Z'.toUInt8) ↔ 65 ≤ c.toNat ∧ c.toNat ≤ 90 := Iff.rfl
  unfold normalizeModuleCharacter
  simp only [hback, hupper]
  split
  · rfl
  · split
    · rw [UInt8.toNat_add]
      show (c.toNat + 32) % 256 = _
      omega
    · rfl

/-- The normal form tells the characters apart that the documents tell apart. -/
theorem sameCharacter_iff (c d : Byte) :
    normalizeModuleCharacter c = normalizeModuleCharacter d ↔ SameCharacter c d := by
  have hc := c.toNat_lt
  have hd := d.toNat_lt
  have hupper : ∀ x : Byte, IsUpper x ↔ 65 ≤ x.toNat ∧ x.toNat ≤ 90 := fun _ => Iff.rfl
  have hcase : ∀ x y : Byte, CaseOf x y ↔ (65 ≤ x.toNat ∧ x.toNat ≤ 90) ∧ y.toNat = x.toNat + 32 := by
    intro x y
    have hx := x.toNat_lt
    constructor
    · rintro ⟨hx, rfl⟩
      refine ⟨hx, ?_⟩
      rw [hupper] at hx
      rw [UInt8.toNat_add]
      show (x.toNat + 32) % 256 = _
      omega
    · rintro ⟨hx, hy⟩
      refine ⟨hx, ?_⟩
      rw [← UInt8.toNat_inj, UInt8.toNat_add, hy]
      show _ = (x.toNat + 32) % 256
      omega
  have hsep : ∀ x : Byte, IsSeparator x ↔ x.toNat = 47 ∨ x.toNat = 92 := by
    intro x
    unfold IsSeparator
    rw [← UInt8.toNat_inj, ← UInt8.toNat_inj]
    rfl
  unfold SameCharacter
  rw [← UInt8.toNat_inj, normalizeModuleCharacter_toNat, normalizeModuleCharacter_toNat, hcase,
    hcase, hsep, hsep, ← UInt8.toNat_inj]
  split_ifs <;> omega
/-! ## The matcher -/

/-- The four indices of `module_glob_matches`; `npos` is `none`. -/
structure GlobCursor where
  patternIndex : ℕ := 0
  valueIndex : ℕ := 0
  starIndex : Option ℕ := none
  retryValueIndex : ℕ := 0
  retry_le : retryValueIndex ≤ valueIndex := by omega

namespace GlobCursor

/-- The first test of the loop. -/
def charactersMatch (pattern value : List Byte) (c : GlobCursor) : Prop :=
  ∃ p ∈ pattern[c.patternIndex]?, ∃ x ∈ value[c.valueIndex]?,
    p = questionMark ∨ normalizeModuleCharacter p = normalizeModuleCharacter x

instance (pattern value : List Byte) (c : GlobCursor) :
    Decidable (c.charactersMatch pattern value) := by
  unfold charactersMatch
  infer_instance

/-- Both indices move on. -/
def advance (c : GlobCursor) : GlobCursor where
  patternIndex := c.patternIndex + 1
  valueIndex := c.valueIndex + 1
  starIndex := c.starIndex
  retryValueIndex := c.retryValueIndex
  retry_le := Nat.le_succ_of_le c.retry_le

/-- The wildcard at the index is the one to go back to. -/
def remember (c : GlobCursor) : GlobCursor where
  patternIndex := c.patternIndex + 1
  valueIndex := c.valueIndex
  starIndex := some c.patternIndex
  retryValueIndex := c.valueIndex
  retry_le := Nat.le_refl _

/-- Back to the wildcard, which takes one character more. -/
def retry (c : GlobCursor) (star : ℕ) : GlobCursor where
  patternIndex := star + 1
  valueIndex := c.retryValueIndex + 1
  starIndex := some star
  retryValueIndex := c.retryValueIndex + 1
  retry_le := Nat.le_refl _

/-- How often the loop can still go back. -/
def retries (value : List Byte) (c : GlobCursor) : ℕ :=
  match c.starIndex with
  | none => value.length + 1
  | some _ => value.length - c.retryValueIndex

/-- What every turn of the loop makes smaller. -/
def turns (pattern value : List Byte) (c : GlobCursor) : ℕ :=
  c.retries value * (pattern.length + 1) + (pattern.length - c.patternIndex)

theorem turns_of_advance {pattern value : List Byte} {c d : GlobCursor}
    (hindex : c.patternIndex < pattern.length) (hnext : d.patternIndex = c.patternIndex + 1)
    (hretries : d.retries value ≤ c.retries value) :
    d.turns pattern value < c.turns pattern value := by
  have hmul := Nat.mul_le_mul_right (pattern.length + 1) hretries
  unfold turns
  omega

theorem turns_retry {pattern value : List Byte} {c : GlobCursor} {star : ℕ}
    (hstar : c.starIndex = some star) (hmore : c.valueIndex < value.length) :
    (c.retry star).turns pattern value < c.turns pattern value := by
  have hretry := c.retry_le
  have hretries : (c.retry star).retries value + 1 ≤ c.retries value := by
    unfold retries retry
    rw [hstar]
    dsimp only
    omega
  have hmul := Nat.mul_le_mul_right (pattern.length + 1) hretries
  rw [Nat.succ_mul] at hmul
  unfold turns
  omega

end GlobCursor

open GlobCursor

/-- The loop over the value, and the wildcards at the end of the pattern. -/
def globLoop (pattern value : List Byte) (c : GlobCursor) : Bool :=
  if _hmore : c.valueIndex < value.length then
    if _hmatch : c.charactersMatch pattern value then globLoop pattern value c.advance
    else if _hstar : pattern[c.patternIndex]? = some asterisk then
      globLoop pattern value c.remember
    else
      match _hback : c.starIndex with
      | none => false
      | some star => globLoop pattern value (c.retry star)
  else ((pattern.drop c.patternIndex).dropWhile (· = asterisk)).isEmpty
termination_by c.turns pattern value
decreasing_by
  · obtain ⟨p, hp, -⟩ := _hmatch
    exact turns_of_advance (List.getElem?_eq_some_iff.mp hp).1
      (show c.advance.patternIndex = c.patternIndex + 1 from rfl) (Nat.le_refl _)
  · refine turns_of_advance (List.getElem?_eq_some_iff.mp _hstar).1 rfl ?_
    have hretry := c.retry_le
    show value.length - c.valueIndex ≤ c.retries value
    unfold retries
    split <;> omega
  · exact turns_retry _hback _hmore

def moduleGlobMatches (pattern value : List Byte) : Bool := globLoop pattern value {}

/-! ## What the matcher accepts -/

/-- A `*` of the pattern that stands before a `*` of the value matches just that. -/
abbrev GlobMatchesLiterally : List Byte → List Byte → Prop := MatchesLiterally asterisk Accepts

section Loop

variable {pattern value : List Byte} {c : GlobCursor}

theorem drop_cons {xs : List Byte} {n : ℕ} {x : Byte} (h : xs[n]? = some x) :
    xs.drop n = x :: xs.drop (n + 1) := by
  obtain ⟨hn, rfl⟩ := List.getElem?_eq_some_iff.mp h
  exact List.drop_eq_getElem_cons hn

theorem drop_append {xs taken rest : List Byte} {n : ℕ} (h : xs.drop n = taken ++ rest) :
    xs.drop (n + taken.length) = rest := by
  rw [← List.drop_drop, h, List.drop_left]

theorem same_asterisk {x : Byte}
    (h : normalizeModuleCharacter asterisk = normalizeModuleCharacter x) : x = asterisk := by
  have hx := x.toNat_lt
  have h := congrArg UInt8.toNat h
  rw [normalizeModuleCharacter_toNat, normalizeModuleCharacter_toNat] at h
  apply UInt8.toNat_inj.mp
  show x.toNat = 42
  have hasterisk : asterisk.toNat = 42 := rfl
  rw [hasterisk] at h
  split_ifs at h <;> omega

/-- Where the first test succeeds, both indices move on without a loss. -/
theorem literally_advance (hmatch : c.charactersMatch pattern value) :
    GlobMatchesLiterally (pattern.drop c.patternIndex) (value.drop c.valueIndex) ↔
      GlobMatchesLiterally (pattern.drop c.advance.patternIndex)
        (value.drop c.advance.valueIndex) := by
  obtain ⟨p, hp, x, hx, hsame⟩ := hmatch
  show _ ↔ GlobMatchesLiterally (pattern.drop (c.patternIndex + 1)) (value.drop (c.valueIndex + 1))
  rw [drop_cons hp, drop_cons hx]
  by_cases hstar : p = asterisk
  · subst hstar
    have hx : x = asterisk := same_asterisk (hsame.resolve_left fun h => by cases h)
    subst hx
    exact Splits.literally_cons_star
  · refine (Splits.letter_iff hstar).trans ⟨?_, ?_⟩
    · rintro ⟨y, rest, hsplit, -, hrest⟩
      cases hsplit
      exact hrest
    · intro hrest
      exact ⟨x, _, rfl, hsame.imp_right (sameCharacter_iff p x).mp, hrest⟩

/-- What the pattern matches further on, it matches past the character too. -/
theorem literally_advance_later (hmatch : c.charactersMatch pattern value) {u : ℕ}
    (hu : c.valueIndex ≤ u)
    (h : GlobMatchesLiterally (pattern.drop c.patternIndex) (value.drop u)) :
    ∃ w, c.advance.valueIndex ≤ w ∧
      GlobMatchesLiterally (pattern.drop c.advance.patternIndex) (value.drop w) := by
  rcases Nat.eq_or_lt_of_le hu with rfl | hlt
  · exact ⟨_, Nat.le_refl _, (literally_advance hmatch).mp h⟩
  · obtain ⟨p, hp, -⟩ := hmatch
    show ∃ w, c.valueIndex + 1 ≤ w ∧
      GlobMatchesLiterally (pattern.drop (c.patternIndex + 1)) (value.drop w)
    rw [drop_cons hp] at h
    by_cases hstar : p = asterisk
    · subst hstar
      obtain ⟨taken, rest, hsplit, -, hrest⟩ := Splits.wildcard_iff.mp h
      refine ⟨u + taken.length, by omega, ?_⟩
      rw [drop_append hsplit]
      exact hrest
    · obtain ⟨x, rest, hsplit, -, hrest⟩ := (Splits.letter_iff hstar).mp h
      refine ⟨u + 1, by omega, ?_⟩
      have hpast : value.drop (u + 1) = rest := @drop_append _ [x] _ _ hsplit
      rw [hpast]
      exact hrest

/-- A wildcard before another character takes anything from there on. -/
theorem literally_remember (hstar : pattern[c.patternIndex]? = some asterisk)
    (hmatch : ¬ c.charactersMatch pattern value) :
    GlobMatchesLiterally (pattern.drop c.patternIndex) (value.drop c.valueIndex) ↔
      ∃ r, c.valueIndex ≤ r ∧
        GlobMatchesLiterally (pattern.drop (c.patternIndex + 1)) (value.drop r) := by
  have hother : (value.drop c.valueIndex).head? ≠ some asterisk := by
    intro hhead
    rw [List.head?_drop] at hhead
    exact hmatch ⟨asterisk, hstar, asterisk, hhead, .inr rfl⟩
  rw [drop_cons hstar]
  refine (Splits.literally_wildcard hother).trans ⟨?_, ?_⟩
  · rintro ⟨n, hn⟩
    rw [List.drop_drop] at hn
    exact ⟨c.valueIndex + n, Nat.le_add_right _ _, hn⟩
  · rintro ⟨r, hr, hrest⟩
    refine ⟨r - c.valueIndex, ?_⟩
    rw [List.drop_drop, Nat.add_sub_cancel' hr]
    exact hrest

/-- Where neither test succeeds, the pattern does not match from here. -/
theorem not_literally (hmore : c.valueIndex < value.length)
    (hmatch : ¬ c.charactersMatch pattern value)
    (hstar : pattern[c.patternIndex]? ≠ some asterisk) :
    ¬ GlobMatchesLiterally (pattern.drop c.patternIndex) (value.drop c.valueIndex) := by
  have hx := List.getElem?_eq_getElem hmore
  rw [drop_cons hx]
  intro h
  cases hp : pattern[c.patternIndex]? with
  | none =>
      rw [List.drop_eq_nil_of_le (List.getElem?_eq_none_iff.mp hp)] at h
      cases Splits.nil_iff.mp h
  | some p =>
      have hletter : p ≠ asterisk := fun heq => hstar (by rw [hp, heq])
      rw [drop_cons hp] at h
      obtain ⟨x, rest, hsplit, haccepts, -⟩ := (Splits.letter_iff hletter).mp h
      cases hsplit
      exact hmatch ⟨p, hp, _, hx, haccepts.imp_right (sameCharacter_iff p _).mpr⟩

/-- The wildcard to go back to may take less than the loop has given it, but then the value
matches from the present indices or later too. -/
def Covered (pattern value : List Byte) (c : GlobCursor) : Prop :=
  ∀ star, c.starIndex = some star → ∀ r, c.retryValueIndex ≤ r →
    GlobMatchesLiterally (pattern.drop (star + 1)) (value.drop r) →
      ∃ u, c.valueIndex ≤ u ∧ GlobMatchesLiterally (pattern.drop c.patternIndex) (value.drop u)

/-- The pattern matches from the present indices, or after the wildcard to go back to. -/
def Resumes (pattern value : List Byte) (c : GlobCursor) : Prop :=
  GlobMatchesLiterally (pattern.drop c.patternIndex) (value.drop c.valueIndex) ∨
    ∃ star, c.starIndex = some star ∧ ∃ r, c.retryValueIndex < r ∧
      GlobMatchesLiterally (pattern.drop (star + 1)) (value.drop r)

theorem Covered.advance (h : Covered pattern value c) (hmatch : c.charactersMatch pattern value) :
    Covered pattern value c.advance := by
  intro star hstar r hr hmatches
  obtain ⟨u, hu, hlater⟩ := h star hstar r hr hmatches
  exact literally_advance_later hmatch hu hlater

/-- After a wildcard was remembered or gone back to, the present indices are just past it. -/
theorem covered_after {star : ℕ} (hstar : c.starIndex = some star)
    (hpattern : c.patternIndex = star + 1) (hvalue : c.valueIndex = c.retryValueIndex) :
    Covered pattern value c := by
  intro other hother r hr hmatches
  rw [hstar] at hother
  cases hother
  rw [hpattern, hvalue]
  exact ⟨r, hr, hmatches⟩

/-- By induction on the turns of the loop. -/
theorem globLoop_iff (h : Covered pattern value c) :
    globLoop pattern value c = true ↔ Resumes pattern value c := by
  induction c using globLoop.induct pattern value with
  | case1 c hmore hmatch ih =>
      rw [globLoop, dif_pos hmore, dif_pos hmatch, ih (h.advance hmatch)]
      exact or_congr_left (literally_advance hmatch).symm
  | case2 c hmore hmatch hstar ih =>
      rw [globLoop, dif_pos hmore, dif_neg hmatch, dif_pos hstar,
        ih (covered_after rfl rfl rfl)]
      unfold Resumes
      rw [literally_remember hstar hmatch]
      show (GlobMatchesLiterally (pattern.drop (c.patternIndex + 1)) (value.drop c.valueIndex) ∨
        ∃ star, some c.patternIndex = some star ∧ ∃ r, c.valueIndex < r ∧
          GlobMatchesLiterally (pattern.drop (star + 1)) (value.drop r)) ↔ _
      constructor
      · rintro (hnow | ⟨star, heq, r, hr, hlater⟩)
        · exact .inl ⟨_, Nat.le_refl _, hnow⟩
        · cases heq
          exact .inl ⟨r, Nat.le_of_lt hr, hlater⟩
      · intro hresumes
        -- the older wildcard could only reach what the new one reaches
        have hreached : ∃ r, c.valueIndex ≤ r ∧
            GlobMatchesLiterally (pattern.drop (c.patternIndex + 1)) (value.drop r) := by
          rcases hresumes with hnow | ⟨star, heq, r, hr, hlater⟩
          · exact hnow
          · obtain ⟨u, hu, hmatches⟩ := h star heq r (Nat.le_of_lt hr) hlater
            rw [drop_cons hstar] at hmatches
            obtain ⟨taken, rest, hsplit, -, hrest⟩ := Splits.wildcard_iff.mp hmatches
            refine ⟨u + taken.length, by omega, ?_⟩
            rw [drop_append hsplit]
            exact hrest
        obtain ⟨r, hr, hmatches⟩ := hreached
        rcases Nat.eq_or_lt_of_le hr with rfl | hlt
        · exact .inl hmatches
        · exact .inr ⟨_, rfl, r, hlt, hmatches⟩
  | case3 c hmore hmatch hstar hback =>
      rw [globLoop, dif_pos hmore, dif_neg hmatch, dif_neg hstar]
      split
      · refine iff_of_false nofun ?_
        rintro (hnow | ⟨star, heq, -⟩)
        · exact not_literally hmore hmatch hstar hnow
        · rw [hback] at heq
          cases heq
      · rename_i star heq
        rw [hback] at heq
        cases heq
  | case4 c hmore hmatch hstar star hback ih =>
      rw [globLoop, dif_pos hmore, dif_neg hmatch, dif_neg hstar]
      split
      · rename_i heq
        rw [hback] at heq
        cases heq
      · rename_i other heq
        rw [hback] at heq
        cases heq
        rw [ih (covered_after rfl rfl rfl)]
        show (GlobMatchesLiterally (pattern.drop (star + 1)) (value.drop (c.retryValueIndex + 1)) ∨
          ∃ other, some star = some other ∧ ∃ r, c.retryValueIndex + 1 < r ∧
            GlobMatchesLiterally (pattern.drop (other + 1)) (value.drop r)) ↔ _
        constructor
        · rintro (hnow | ⟨other, heq, r, hr, hlater⟩)
          · exact .inr ⟨star, hback, _, Nat.lt_succ_self _, hnow⟩
          · cases heq
            exact .inr ⟨star, hback, r, by omega, hlater⟩
        · rintro (hnow | ⟨other, heq, r, hr, hlater⟩)
          · exact absurd hnow (not_literally hmore hmatch hstar)
          · rw [hback] at heq
            cases heq
            rcases Nat.eq_or_lt_of_le (Nat.succ_le_of_lt hr) with hsame | hlt
            · rw [← hsame] at hlater
              exact .inl hlater
            · exact .inr ⟨star, rfl, r, hlt, hlater⟩
  | case5 c hmore =>
      rw [globLoop, dif_neg hmore]
      have hend : value.drop c.valueIndex = [] := List.drop_eq_nil_of_le (by omega)
      have hnow : ((pattern.drop c.patternIndex).dropWhile (· = asterisk)).isEmpty = true ↔
          GlobMatchesLiterally (pattern.drop c.patternIndex) (value.drop c.valueIndex) := by
        rw [hend, List.isEmpty_iff, List.dropWhile_eq_nil_iff]
        refine Iff.trans ?_ Splits.literally_nil.symm
        simp only [decide_eq_true_eq]
      rw [hnow]
      constructor
      · exact .inl
      · rintro (hmatches | ⟨star, heq, r, hr, hlater⟩)
        · exact hmatches
        · obtain ⟨u, hu, hmatches⟩ := h star heq r (Nat.le_of_lt hr) hlater
          rw [List.drop_eq_nil_of_le (show value.length ≤ u by omega), ← hend] at hmatches
          exact hmatches

end Loop

/-- The matcher returns true for the values that the pattern matches literally. -/
theorem moduleGlobMatches_iff (pattern value : List Byte) :
    moduleGlobMatches pattern value = true ↔ GlobMatchesLiterally pattern value := by
  have hstart : Covered pattern value {} := by
    intro star hstar
    cases hstar
  unfold moduleGlobMatches
  rw [globLoop_iff hstart]
  show (GlobMatchesLiterally pattern value ∨ _) ↔ _
  constructor
  · rintro (hnow | ⟨star, hstar, -⟩)
    · exact hnow
    · cases hstar
  · exact .inl

/-- The matcher agrees with the definition on exactly the values that match literally if
they match at all. -/
theorem module_glob_exact_iff (pattern value : List Byte) :
    (moduleGlobMatches pattern value = true ↔ GlobMatches pattern value) ↔
      (GlobMatches pattern value → GlobMatchesLiterally pattern value) := by
  rw [moduleGlobMatches_iff]
  constructor
  · exact fun hexact => hexact.mpr
  · exact fun hliterally => ⟨fun h => h.mono fun _ _ _ => trivial, hliterally⟩

/-- A value without a `*` is matched exactly. -/
theorem module_glob_exact {pattern value : List Byte} (h : asterisk ∉ value) :
    moduleGlobMatches pattern value = true ↔ GlobMatches pattern value :=
  (module_glob_exact_iff pattern value).mpr fun hmatches => Splits.literally_of_not_mem hmatches h

/-- The bytes of a string of ASCII characters. -/
def ascii (text : List Char) : List Byte := text.map Char.toUInt8

/-- `*.so` does not match `*a.so`. -/
theorem module_glob_misses :
    ¬ ∀ pattern value, moduleGlobMatches pattern value = true ↔ GlobMatches pattern value := by
  intro hexact
  have hmatches : GlobMatches (ascii ['*', '.', 's', 'o']) (ascii ['*', 'a', '.', 's', 'o']) := by
    refine @Splits.wildcard _ _ _ _ (ascii ['*', 'a']) (ascii ['.', 's', 'o']) _ trivial ?_
    exact .letter (by decide) (.inr (.inl rfl)) (.letter (by decide) (.inr (.inl rfl))
      (.letter (by decide) (.inr (.inl rfl)) .nil))
  have hliterally := (moduleGlobMatches_iff _ _).mp ((hexact _ _).mpr hmatches)
  -- the wildcard takes the `*`, and a `.` is left to match the `a`
  have hrest : GlobMatchesLiterally (ascii ['.', 's', 'o']) (ascii ['a', '.', 's', 'o']) :=
    Splits.literally_cons_star.mp hliterally
  have hdot : (ascii ['.']).head! ≠ asterisk := by decide
  obtain ⟨x, rest, hsplit, haccepts, -⟩ := (Splits.letter_iff hdot).mp hrest
  cases hsplit
  revert haccepts
  unfold Accepts SameCharacter
  decide

end Noleax.Analyzer
