import Mathlib.Data.List.GetD
import Noleax.Lib.Bytes

/-!
# Byte buffers with random access

A buffer read and written at offsets, as `memcpy` does it. Every rule says what a
range holds after a write: what was written when it is the range of the write,
what was there before when the two are apart.
-/

namespace Noleax.Lib

/-- A sequence of `size` bytes. What `byte` says from `size` on is not part of it. -/
structure Buffer where
  size : ℕ
  byte : ℕ → UInt8

namespace Buffer

/-- The `count` bytes from `offset` on. -/
def slice (b : Buffer) (offset count : ℕ) : Bytes :=
  (List.range count).map fun i => b.byte (offset + i)

/-- The little-endian word of `width` bytes at `offset`. -/
def word (b : Buffer) (width offset : ℕ) : ℕ := ofLittleEndian (b.slice offset width)

/-- The buffer with `bytes` copied to `offset`. -/
def put (b : Buffer) (offset : ℕ) (bytes : Bytes) : Buffer :=
  { b with byte := fun i =>
      if offset ≤ i ∧ i < offset + bytes.length then bytes.getD (i - offset) 0 else b.byte i }

/-- The buffer cut off at `size`, or filled up to it with zeros. -/
def resize (b : Buffer) (size : ℕ) : Buffer :=
  { size, byte := fun i => if i < b.size then b.byte i else 0 }

/-- `size` zeros. -/
def zeros (size : ℕ) : Buffer := { size, byte := fun _ => 0 }

/-- The buffer of some bytes. -/
def ofBytes (bytes : Bytes) : Buffer := { size := bytes.length, byte := fun i => bytes.getD i 0 }

/-- The bytes of a buffer. -/
def toBytes (b : Buffer) : Bytes := b.slice 0 b.size

section Reading

variable {a b : Buffer} {offset offset' count width i : ℕ}

@[simp] theorem slice_length : (b.slice offset count).length = count := by
  simp [slice]

theorem slice_getElem (hi : i < (b.slice offset count).length) :
    (b.slice offset count)[i] = b.byte (offset + i) := by
  simp [slice]

theorem byte_of_slice_eq (h : a.slice offset count = b.slice offset' count) (hi : i < count) :
    a.byte (offset + i) = b.byte (offset' + i) := by
  have hget := congrArg (·[i]?) h
  simpa [slice, hi] using hget

/-- What a range holds depends on its bytes only. -/
theorem slice_congr (h : ∀ i < count, a.byte (offset + i) = b.byte (offset' + i)) :
    a.slice offset count = b.slice offset' count := by
  apply List.map_congr_left
  intro i hi
  exact h i (List.mem_range.mp hi)

theorem slice_eq_iff {bytes : Bytes} : b.slice offset bytes.length = bytes ↔
    ∀ i < bytes.length, b.byte (offset + i) = bytes.getD i 0 := by
  constructor
  · intro h i hi
    rw [← slice_getElem (by rwa [slice_length]), List.getD_eq_getElem _ _ hi]
    simp only [h]
  · intro h
    apply List.ext_getElem slice_length
    intro i _ hi
    rw [slice_getElem, h i hi, List.getD_eq_getElem _ _ hi]

/-- A part of a range that holds the same. -/
theorem slice_of_slice_eq (h : a.slice offset count = b.slice offset' count) {start part : ℕ}
    (hpart : start + part ≤ count) :
    a.slice (offset + start) part = b.slice (offset' + start) part := by
  apply slice_congr
  intro i hi
  rw [Nat.add_assoc, Nat.add_assoc]
  exact byte_of_slice_eq h (by omega)

theorem slice_add {more : ℕ} :
    b.slice offset (count + more) = b.slice offset count ++ b.slice (offset + count) more := by
  unfold slice
  rw [List.range_add, List.map_append, List.map_map]
  congr 2
  funext i
  exact congrArg b.byte (Nat.add_assoc _ _ _).symm

theorem word_congr (h : ∀ i < width, a.byte (offset + i) = b.byte (offset' + i)) :
    a.word width offset = b.word width offset' := by
  unfold word
  rw [slice_congr h]

theorem word_isWord : IsWord width (b.word width offset) := by
  have h := ofLittleEndian_isWord (b.slice offset width)
  rwa [slice_length] at h

/-- A word tells its bytes. -/
theorem slice_eq_of_word_eq (h : a.word width offset = b.word width offset') :
    a.slice offset width = b.slice offset' width := by
  have ha := littleEndian_ofLittleEndian (a.slice offset width)
  have hb := littleEndian_ofLittleEndian (b.slice offset' width)
  rw [slice_length] at ha hb
  rw [← ha, ← hb]
  exact congrArg _ h

theorem slice_succ : b.slice offset (count + 1) = b.byte offset :: b.slice (offset + 1) count := by
  unfold slice
  rw [List.range_succ_eq_map, List.map_cons, List.map_map]
  refine congrArg _ (List.map_congr_left fun i _ => ?_)
  show b.byte (offset + (i + 1)) = b.byte (offset + 1 + i)
  rw [Nat.add_assoc, Nat.add_comm 1 i]

/-- The first byte of a word is its lowest digit. -/
theorem word_mod : b.word (width + 1) offset % 256 = (b.byte offset).toNat := by
  have hbyte : (b.byte offset).toNat < 256 := (b.byte offset).toNat_lt
  unfold word
  rw [slice_succ]
  unfold ofLittleEndian
  omega

@[simp] theorem ofLittleEndian_replicate_zero : ofLittleEndian (List.replicate width 0) = 0 := by
  induction width with
  | zero => rfl
  | succ width ih =>
      show 0 + 256 * ofLittleEndian (List.replicate width 0) = 0
      rw [ih]

/-- A word of zero bytes is zero. -/
theorem word_zero (h : ∀ i < width, b.byte (offset + i) = 0) : b.word width offset = 0 := by
  have hzeros : b.slice offset width = (zeros width).slice 0 width := slice_congr h
  unfold word
  rw [hzeros]
  simp [slice, zeros, List.map_const']

/-- A word that is zero has zero bytes. -/
theorem byte_zero (h : b.word width offset = 0) (hi : i < width) : b.byte (offset + i) = 0 := by
  have hzeros : (zeros width).word width 0 = 0 := word_zero fun _ _ => rfl
  have hslice := slice_eq_of_word_eq (h.trans hzeros.symm)
  have hget := congrArg (fun bytes => bytes.getD i 0) hslice
  simpa [slice, zeros, hi] using hget

end Reading

section Writing

variable {b : Buffer} {offset offset' count width i : ℕ} {bytes : Bytes}

@[simp] theorem put_size : (b.put offset bytes).size = b.size := rfl

@[simp] theorem resize_size {size : ℕ} : (b.resize size).size = size := rfl

theorem put_inside (hi : i < bytes.length) :
    (b.put offset bytes).byte (offset + i) = bytes.getD i 0 := by
  show (if _ then _ else _) = _
  rw [if_pos ⟨by omega, by omega⟩, Nat.add_sub_cancel_left]

theorem put_outside (h : i < offset ∨ offset + bytes.length ≤ i) :
    (b.put offset bytes).byte i = b.byte i := by
  show (if _ then _ else _) = _
  rw [if_neg (by omega)]

theorem resize_inside {size : ℕ} (hi : i < b.size) : (b.resize size).byte i = b.byte i :=
  if_pos hi

theorem slice_put : (b.put offset bytes).slice offset bytes.length = bytes :=
  slice_eq_iff.mpr fun _ hi => put_inside hi

theorem slice_put_apart (h : offset' + count ≤ offset ∨ offset + bytes.length ≤ offset') :
    (b.put offset bytes).slice offset' count = b.slice offset' count :=
  slice_congr fun _ hi => put_outside (by omega)

/-- The bytes of a word are read back as that word. -/
theorem word_of_slice {value : ℕ} (hvalue : IsWord width value)
    (h : b.slice offset width = littleEndian width value) : b.word width offset = value := by
  unfold word
  rw [h, ofLittleEndian_littleEndian hvalue]

end Writing

section Writes

variable {b : Buffer} {writes : List (ℕ × Bytes)} {w : ℕ × Bytes} {offset count width i : ℕ}

/-- The buffer after several writes, each bytes with their offset. -/
def putAll (b : Buffer) (writes : List (ℕ × Bytes)) : Buffer :=
  writes.foldl (fun b w => b.put w.1 w.2) b

/-- A write leaves the range of `count` bytes at `offset` alone. -/
def Apart (w : ℕ × Bytes) (offset count : ℕ) : Prop :=
  offset + count ≤ w.1 ∨ w.1 + w.2.length ≤ offset

instance (w : ℕ × Bytes) (offset count : ℕ) : Decidable (Apart w offset count) :=
  inferInstanceAs (Decidable (_ ∨ _))

theorem putAll_cons : b.putAll (w :: writes) = (b.put w.1 w.2).putAll writes := rfl

theorem putAll_append {first second : List (ℕ × Bytes)} :
    b.putAll (first ++ second) = (b.putAll first).putAll second := List.foldl_append

@[simp] theorem putAll_size : (b.putAll writes).size = b.size := by
  induction writes generalizing b with
  | nil => rfl
  | cons w writes ih => exact ih

theorem putAll_outside (h : ∀ w ∈ writes, Apart w i 1) : (b.putAll writes).byte i = b.byte i := by
  induction writes generalizing b with
  | nil => rfl
  | cons w writes ih =>
      obtain ⟨hw, hrest⟩ := List.forall_mem_cons.mp h
      rw [putAll_cons, ih hrest]
      unfold Apart at hw
      exact put_outside (by omega)

theorem slice_putAll_apart (h : ∀ w ∈ writes, Apart w offset count) :
    (b.putAll writes).slice offset count = b.slice offset count := by
  apply slice_congr
  intro i hi
  apply putAll_outside
  intro w hw
  have hapart := h w hw
  unfold Apart at hapart ⊢
  omega

theorem word_putAll_apart (h : ∀ w ∈ writes, Apart w offset width) :
    (b.putAll writes).word width offset = b.word width offset := by
  unfold word
  rw [slice_putAll_apart h]

/-- Of writes that are apart from each other, each is there in the end. -/
theorem slice_putAll (hw : w ∈ writes)
    (h : writes.Pairwise fun v w => Apart w v.1 v.2.length) :
    (b.putAll writes).slice w.1 w.2.length = w.2 := by
  induction writes generalizing b with
  | nil => cases hw
  | cons v writes ih =>
      obtain ⟨hv, hrest⟩ := List.pairwise_cons.mp h
      rw [putAll_cons]
      cases List.mem_cons.mp hw with
      | inl heq =>
          subst heq
          rw [slice_putAll_apart hv, slice_put]
      | inr hmem => exact ih hmem hrest

end Writes

end Buffer

/-! ## Strings -/

/-- The string in front of the first zero. -/
def terminated : Bytes → Option Bytes
  | [] => none
  | byte :: bytes => if byte = 0 then some [] else (terminated bytes).map (byte :: ·)

theorem terminated_eq_some {bytes name : Bytes} :
    terminated bytes = some name ↔ 0 ∉ name ∧ ∃ rest, bytes = name ++ 0 :: rest := by
  induction bytes generalizing name with
  | nil =>
      refine iff_of_false (fun h => nomatch h) fun ⟨_, rest, hbytes⟩ => ?_
      exact List.append_ne_nil_of_right_ne_nil name (List.cons_ne_nil 0 rest) hbytes.symm
  | cons byte bytes ih =>
      unfold terminated
      split
      · rename_i hzero
        subst hzero
        constructor
        · intro h
          cases h
          exact ⟨List.not_mem_nil, bytes, rfl⟩
        · intro ⟨hname, rest, hbytes⟩
          cases name with
          | nil => rfl
          | cons first name =>
              cases hbytes
              exact absurd List.mem_cons_self hname
      · rename_i hbyte
        rw [Option.map_eq_some_iff]
        constructor
        · intro ⟨tail, htail, hname⟩
          obtain ⟨hzero, rest, rfl⟩ := ih.mp htail
          subst hname
          exact ⟨List.not_mem_cons_of_ne_of_not_mem (Ne.symm hbyte) hzero, rest, rfl⟩
        · intro ⟨hname, rest, hbytes⟩
          cases name with
          | nil =>
              cases hbytes
              exact absurd rfl hbyte
          | cons first name =>
              cases hbytes
              exact ⟨name, ih.mpr ⟨fun h => hname (List.mem_cons_of_mem _ h), rest, rfl⟩, rfl⟩

end Noleax.Lib
