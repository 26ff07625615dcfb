import Mathlib.Tactic.Ring
import Noleax.Lib.Stateful

/-!
# Byte strings and their readers

Little-endian words, and readers that consume the front of their input. `Reads`
ties a reader to the writer it inverts: the reader accepts exactly what the writer
produces, so one fact gives the round trip in both directions.
-/

namespace Noleax.Lib

abbrev Bytes := List UInt8

/-! ## Words -/

/-- `n` fits `width` bytes. -/
def IsWord (width n : ℕ) : Prop := n < 256 ^ width

instance (width n : ℕ) : Decidable (IsWord width n) := inferInstanceAs (Decidable (_ < _))

/-- The low `width` bytes of `n`, the least significant first. -/
def littleEndian : ℕ → ℕ → Bytes
  | 0, _ => []
  | width + 1, n => UInt8.ofNat n :: littleEndian width (n / 256)

def ofLittleEndian : Bytes → ℕ
  | [] => 0
  | byte :: bytes => byte.toNat + 256 * ofLittleEndian bytes

@[simp] theorem littleEndian_length (width n : ℕ) : (littleEndian width n).length = width := by
  induction width generalizing n with
  | zero => rfl
  | succ width ih => simp [littleEndian, ih]

theorem ofLittleEndian_isWord (bytes : Bytes) : IsWord bytes.length (ofLittleEndian bytes) := by
  unfold IsWord
  induction bytes with
  | nil => simp [ofLittleEndian]
  | cons byte bytes ih =>
      have hbyte : byte.toNat < 256 := byte.toNat_lt
      rw [List.length_cons, pow_succ]
      unfold ofLittleEndian
      omega

theorem ofLittleEndian_littleEndian {width n : ℕ} (h : IsWord width n) :
    ofLittleEndian (littleEndian width n) = n := by
  unfold IsWord at h
  induction width generalizing n with
  | zero =>
      rw [pow_zero] at h
      show 0 = n
      omega
  | succ width ih =>
      rw [pow_succ] at h
      have hhigh := ih (n := n / 256) (by omega)
      unfold littleEndian ofLittleEndian
      rw [hhigh, UInt8.toNat_ofNat']
      omega

theorem littleEndian_ofLittleEndian (bytes : Bytes) :
    littleEndian bytes.length (ofLittleEndian bytes) = bytes := by
  induction bytes with
  | nil => rfl
  | cons byte bytes ih =>
      have hbyte : byte.toNat < 256 := byte.toNat_lt
      -- the low digit is the first byte, the rest is the tail
      have hlow : UInt8.ofNat (byte.toNat + 256 * ofLittleEndian bytes) = byte := by
        apply UInt8.toNat_inj.mp
        rw [UInt8.toNat_ofNat']
        omega
      have hhigh : (byte.toNat + 256 * ofLittleEndian bytes) / 256 = ofLittleEndian bytes := by
        omega
      unfold ofLittleEndian
      rw [List.length_cons, littleEndian, hlow, hhigh, ih]

/-! ## Readers -/

variable {ε α β : Type}

/-- Entries of one size. -/
theorem flatMap_length (write : α → Bytes) (size : ℕ) (h : ∀ a, (write a).length = size)
    (as : List α) : (as.flatMap write).length = as.length * size := by
  induction as with
  | nil => simp
  | cons a as ih =>
      rw [List.flatMap_cons, List.length_append, ih, h, List.length_cons]
      ring

/-- The next `count` bytes; `e` when there are not that many. -/
def takeBytes (e : ε) (count : ℕ) : EStateM ε Bytes Bytes := do
  let input ← get
  if input.length < count then throw e
  else do
    set (input.drop count)
    return input.take count

/-- The next word of `width` bytes. -/
def readWord (e : ε) (width : ℕ) : EStateM ε Bytes ℕ := do
  return ofLittleEndian (← takeBytes e width)

/-- A reader run to its end. -/
def runReader (read : EStateM ε Bytes α) (input : Bytes) : Except ε α :=
  match read input with
  | .ok a _ => .ok a
  | .error e _ => .error e

/-- The values of `count` reads. -/
def readMany (read : EStateM ε Bytes α) : ℕ → EStateM ε Bytes (List α)
  | 0 => pure []
  | count + 1 => do
      let a ← read
      let as ← readMany read count
      return a :: as

/-- `read` accepts exactly what `write` produces from the values of `P`, and returns
them. -/
def Reads (P : α → Prop) (write : α → Bytes) (read : EStateM ε Bytes α) : Prop :=
  ∀ input a rest, read input = .ok a rest ↔ P a ∧ input = write a ++ rest

section Reads

variable {P : α → Prop} {write : α → Bytes} {read : EStateM ε Bytes α} {input rest : Bytes}

theorem runReader_eq_ok {a : α} :
    runReader read input = .ok a ↔ ∃ rest, read input = .ok a rest := by
  unfold runReader
  cases read input with
  | ok b rest => simp
  | error e rest => simp

/-- What a reader makes of what was written for it. -/
theorem Reads.run_write (h : Reads P write read) {a : α} (ha : P a) :
    read (write a ++ rest) = .ok a rest :=
  (h _ a rest).mpr ⟨ha, rfl⟩

/-- A sequence that starts with a read. -/
theorem Reads.bind_iff (h : Reads P write read) {f : α → EStateM ε Bytes β} {b : β} :
    (read >>= f) input = .ok b rest ↔
      ∃ a, P a ∧ ∃ middle, input = write a ++ middle ∧ f a middle = .ok b rest := by
  rw [run_bind_eq_ok]
  constructor
  · rintro ⟨a, middle, hread, hf⟩
    obtain ⟨ha, hinput⟩ := (h _ _ _).mp hread
    exact ⟨a, ha, middle, hinput, hf⟩
  · rintro ⟨a, ha, middle, rfl, hf⟩
    exact ⟨a, middle, h.run_write ha, hf⟩

theorem reads_takeBytes (e : ε) (count : ℕ) :
    Reads (fun bytes => bytes.length = count) id (takeBytes e count) := by
  intro input bytes rest
  unfold takeBytes
  simp only [run_bind_eq_ok, run_get_eq_ok]
  constructor
  · rintro ⟨_, _, ⟨rfl, rfl⟩, h⟩
    split at h
    · cases h
    · simp only [run_bind_eq_ok, run_set_eq_ok, run_pure_eq_ok] at h
      obtain ⟨_, _, rfl, rfl, rfl⟩ := h
      refine ⟨?_, (List.take_append_drop count input).symm⟩
      rw [List.length_take]
      omega
  · rintro ⟨rfl, rfl⟩
    refine ⟨_, _, ⟨rfl, rfl⟩, ?_⟩
    rw [if_neg (by simp)]
    simp [run_bind]

theorem reads_readWord (e : ε) (width : ℕ) :
    Reads (IsWord width) (littleEndian width) (readWord e width) := by
  intro input n rest
  unfold readWord
  rw [(reads_takeBytes e width).bind_iff]
  constructor
  · rintro ⟨bytes, rfl, _, rfl, h⟩
    obtain ⟨rfl, rfl⟩ := run_pure_eq_ok.mp h
    refine ⟨ofLittleEndian_isWord bytes, ?_⟩
    rw [littleEndian_ofLittleEndian]
    rfl
  · rintro ⟨hn, rfl⟩
    refine ⟨littleEndian width n, littleEndian_length width n, rest, rfl, ?_⟩
    rw [ofLittleEndian_littleEndian hn]
    rfl

/-- A reader whose result is decoded further. -/
theorem Reads.decoded (h : Reads P write read) {decode : α → Except ε β} {encode : β → α}
    (hdecode : ∀ a b, decode a = .ok b ↔ a = encode b) :
    Reads (fun b => P (encode b)) (fun b => write (encode b)) (do check (decode (← read))) := by
  intro input b rest
  rw [h.bind_iff]
  constructor
  · rintro ⟨a, ha, middle, rfl, hcheck⟩
    obtain ⟨hdec, rfl⟩ := run_check_eq_ok.mp hcheck
    obtain rfl := (hdecode a b).mp hdec
    exact ⟨ha, rfl⟩
  · rintro ⟨hb, rfl⟩
    exact ⟨encode b, hb, rest, rfl, run_check_eq_ok.mpr ⟨(hdecode _ b).mpr rfl, rfl⟩⟩

/-- A reader whose result is renamed. -/
theorem Reads.mapped (h : Reads P write read) {Q : β → Prop} {decode : α → β} (encode : β → α)
    (hdecode : ∀ a, P a → Q (decode a) ∧ encode (decode a) = a)
    (hencode : ∀ b, Q b → P (encode b) ∧ decode (encode b) = b) :
    Reads Q (fun b => write (encode b)) (do return decode (← read)) := by
  intro input b rest
  rw [h.bind_iff]
  constructor
  · rintro ⟨a, ha, middle, rfl, hpure⟩
    obtain ⟨rfl, rfl⟩ := run_pure_eq_ok.mp hpure
    obtain ⟨hb, heq⟩ := hdecode a ha
    exact ⟨hb, by dsimp only; rw [heq]⟩
  · rintro ⟨hb, rfl⟩
    obtain ⟨ha, heq⟩ := hencode b hb
    exact ⟨encode b, ha, rest, rfl, run_pure_eq_ok.mpr ⟨heq, rfl⟩⟩

theorem reads_readMany (h : Reads P write read) (count : ℕ) :
    Reads (fun as => as.length = count ∧ ∀ a ∈ as, P a) (fun as => as.flatMap write)
      (readMany read count) := by
  induction count with
  | zero =>
      intro input as rest
      unfold readMany
      rw [run_pure_eq_ok]
      constructor
      · rintro ⟨rfl, rfl⟩
        simp
      · rintro ⟨⟨hlength, -⟩, rfl⟩
        rw [List.length_eq_zero_iff] at hlength
        simp [hlength]
  | succ count ih =>
      intro input as rest
      unfold readMany
      rw [h.bind_iff]
      constructor
      · rintro ⟨a, ha, middle, rfl, htail⟩
        rw [ih.bind_iff] at htail
        obtain ⟨tail, ⟨rfl, hall⟩, middle', rfl, hpure⟩ := htail
        obtain ⟨rfl, rfl⟩ := run_pure_eq_ok.mp hpure
        refine ⟨⟨rfl, ?_⟩, by simp⟩
        intro b hb
        rcases List.mem_cons.mp hb with rfl | hb
        · exact ha
        · exact hall b hb
      · rintro ⟨⟨hlength, hall⟩, rfl⟩
        cases as with
        | nil => cases hlength
        | cons a tail =>
            refine ⟨a, hall a (by simp), tail.flatMap write ++ rest, by simp, ?_⟩
            rw [ih.bind_iff]
            refine ⟨tail, ⟨by simpa using hlength, ?_⟩, rest, rfl, rfl⟩
            intro b hb
            exact hall b (by simp [hb])

end Reads

/-! ## Layouts

A layout is read field by field: `C` says what the fields read so far are, `Q` what is
asked besides, `tail` writes the fields still to come, and `R` is what the layout leaves
behind. -/

/-- Like `Reads`, of a reader that also tests what it leaves. -/
def ReadsTo (R : Bytes → Prop) (P : α → Prop) (write : α → Bytes) (read : EStateM ε Bytes α) :
    Prop :=
  ∀ input a rest, read input = .ok a rest ↔ (P a ∧ R rest) ∧ input = write a ++ rest

section Layouts

variable {γ : Type} {P : α → Prop} {write : α → Bytes} {read : EStateM ε Bytes α}
  {R : Bytes → Prop} {C Q : γ → Prop} {tail : γ → Bytes}

/-- The next field, of which the fields before tell what it must be. -/
theorem ReadsTo.known (h : Reads P write read) (field : γ → α) (P' : α → Prop)
    {f : α → EStateM ε Bytes γ} (hP : ∀ v, C v → (P (field v) ↔ P' (field v)))
    (hf : ∀ a, P a → ReadsTo R (fun v => (C v ∧ field v = a) ∧ Q v) tail (f a)) :
    ReadsTo R (fun v => C v ∧ P' (field v) ∧ Q v) (fun v => write (field v) ++ tail v)
      (read >>= f) := by
  intro input v rest
  rw [h.bind_iff]
  constructor
  · rintro ⟨a, ha, middle, rfl, hrest⟩
    obtain ⟨⟨⟨⟨hC, rfl⟩, hQ⟩, hR⟩, rfl⟩ := (hf a ha _ _ _).mp hrest
    exact ⟨⟨⟨hC, (hP v hC).mp ha, hQ⟩, hR⟩, (List.append_assoc ..).symm⟩
  · rintro ⟨⟨⟨hC, ha, hQ⟩, hR⟩, rfl⟩
    have ha := (hP v hC).mpr ha
    exact ⟨field v, ha, tail v ++ rest, List.append_assoc ..,
      (hf _ ha _ _ _).mpr ⟨⟨⟨⟨hC, rfl⟩, hQ⟩, hR⟩, rfl⟩⟩

/-- The next field of a layout. -/
theorem ReadsTo.field (h : Reads P write read) (field : γ → α) {f : α → EStateM ε Bytes γ}
    (hf : ∀ a, P a → ReadsTo R (fun v => (C v ∧ field v = a) ∧ Q v) tail (f a)) :
    ReadsTo R (fun v => C v ∧ P (field v) ∧ Q v) (fun v => write (field v) ++ tail v)
      (read >>= f) :=
  .known h field P (fun _ _ => Iff.rfl) hf

/-- Bytes that carry nothing. -/
theorem ReadsTo.skip {bytes : Bytes} {read : EStateM ε Bytes Unit}
    (h : Reads (fun _ => True) (fun _ => bytes) read) {f : Unit → EStateM ε Bytes γ}
    (hf : ReadsTo R (fun v => C v ∧ Q v) tail (f ())) :
    ReadsTo R (fun v => C v ∧ Q v) (fun v => bytes ++ tail v) (read >>= f) := by
  intro input v rest
  rw [h.bind_iff]
  constructor
  · rintro ⟨_, -, middle, rfl, hrest⟩
    obtain ⟨hv, rfl⟩ := (hf _ _ _).mp hrest
    exact ⟨hv, (List.append_assoc ..).symm⟩
  · rintro ⟨hv, rfl⟩
    exact ⟨(), trivial, tail v ++ rest, List.append_assoc .., (hf _ _ _).mpr ⟨hv, rfl⟩⟩

/-- A test of the fields read so far. -/
theorem ReadsTo.test {cond : Prop} [Decidable cond] {e : ε} {f : Unit → EStateM ε Bytes γ}
    (htest : ∀ v, C v → Q v → ¬ cond)
    (hf : ¬ cond → ReadsTo R (fun v => C v ∧ Q v) tail (f ())) :
    ReadsTo R (fun v => C v ∧ Q v) tail (check (failIf cond e) >>= f) := by
  intro input v rest
  by_cases hcond : cond
  · rw [failIf_of hcond]
    constructor
    · intro h
      cases h
    · rintro ⟨⟨⟨hC, hQ⟩, -⟩, -⟩
      exact absurd hcond (htest v hC hQ)
  · rw [failIf_of_not hcond]
    exact hf hcond input v rest

/-- A value computed from the fields read so far. -/
theorem ReadsTo.look {x : Except ε α} (field : γ → α) {f : α → EStateM ε Bytes γ}
    (hx : ∀ v, C v → Q v → x = .ok (field v))
    (hf : ∀ a, x = .ok a → ReadsTo R (fun v => (C v ∧ field v = a) ∧ Q v) tail (f a)) :
    ReadsTo R (fun v => C v ∧ Q v) tail (check x >>= f) := by
  intro input v rest
  rw [run_bind_eq_ok]
  constructor
  · rintro ⟨a, middle, hcheck, hrest⟩
    obtain ⟨ha, rfl⟩ := run_check_eq_ok.mp hcheck
    obtain ⟨⟨⟨⟨hC, -⟩, hQ⟩, hR⟩, rfl⟩ := (hf a ha _ _ _).mp hrest
    exact ⟨⟨⟨hC, hQ⟩, hR⟩, rfl⟩
  · rintro ⟨⟨⟨hC, hQ⟩, hR⟩, rfl⟩
    have hv := hx v hC hQ
    exact ⟨field v, _, run_check_eq_ok.mpr ⟨hv, rfl⟩,
      (hf _ hv _ _ _).mpr ⟨⟨⟨⟨hC, rfl⟩, hQ⟩, hR⟩, rfl⟩⟩

/-- All fields are read. -/
theorem ReadsTo.done {v : γ} (h : ∀ w, C w ∧ Q w ↔ w = v) :
    ReadsTo (fun _ => True) (fun w => C w ∧ Q w) (fun _ => []) (pure v : EStateM ε Bytes γ) := by
  intro input w rest
  rw [run_pure_eq_ok]
  constructor
  · rintro ⟨rfl, rfl⟩
    exact ⟨⟨(h _).mpr rfl, trivial⟩, rfl⟩
  · rintro ⟨⟨hC, -⟩, rfl⟩
    exact ⟨((h _).mp hC).symm, rfl⟩

/-- All fields are read, and the value is validated. -/
theorem ReadsTo.valid {v : γ} (validate : γ → Except ε Unit) (h : ∀ w, C w ∧ Q w ↔ w = v) :
    ReadsTo (fun _ => True) (fun w => C w ∧ Q w ∧ validate w = .ok ()) (fun _ => [])
      (check (validate v) >>= fun _ => (pure v : EStateM ε Bytes γ)) := by
  intro input w rest
  rw [run_bind_eq_ok]
  constructor
  · rintro ⟨⟨⟩, middle, hcheck, hpure⟩
    obtain ⟨hvalid, rfl⟩ := run_check_eq_ok.mp hcheck
    obtain ⟨rfl, rfl⟩ := run_pure_eq_ok.mp hpure
    obtain ⟨hC, hQ⟩ := (h _).mpr rfl
    exact ⟨⟨⟨hC, hQ, hvalid⟩, trivial⟩, rfl⟩
  · rintro ⟨⟨⟨hC, hQ, hvalid⟩, -⟩, rfl⟩
    obtain rfl := (h _).mp ⟨hC, hQ⟩
    exact ⟨(), _, run_check_eq_ok.mpr ⟨hvalid, rfl⟩, rfl⟩

/-- Nothing may be left. -/
theorem ReadsTo.ending {e : ε} {f : Unit → EStateM ε Bytes γ}
    (hf : ReadsTo (fun _ => True) (fun v => C v ∧ Q v) (fun _ => []) (f ())) :
    ReadsTo (fun rest => rest = []) (fun v => C v ∧ Q v) (fun _ => [])
      ((do check (failIf ((← get) ≠ []) e)) >>= f) := by
  intro input v rest
  simp only [run_bind_eq_ok, run_get_eq_ok, run_check_eq_ok, failIf_eq_ok, hf _ _ _]
  constructor
  · rintro ⟨_, _, ⟨_, _, ⟨rfl, rfl⟩, hempty, rfl⟩, ⟨hv, -⟩, rfl⟩
    rw [not_not] at hempty
    exact ⟨⟨hv, hempty⟩, rfl⟩
  · rintro ⟨⟨hv, rfl⟩, rfl⟩
    exact ⟨(), [], ⟨[], [], ⟨rfl, rfl⟩, by simp, rfl⟩, ⟨hv, trivial⟩, rfl⟩

/-- A whole layout. -/
theorem ReadsTo.layout {P' : γ → Prop} {write' : γ → Bytes} {read : EStateM ε Bytes γ}
    (h : ReadsTo R (fun v => True ∧ Q v) tail read) (hP : ∀ v, P' v ↔ Q v)
    (hwrite : ∀ v, write' v = tail v) : ReadsTo R P' write' read := by
  intro input v rest
  rw [h input v rest, hP, hwrite]
  simp only [true_and]

theorem ReadsTo.reads (h : ReadsTo (fun _ => True) P write read) : Reads P write read := by
  intro input a rest
  rw [h input a rest, and_true]

/-- What a reader makes of a whole input. -/
theorem ReadsTo.runReader_eq_ok (h : ReadsTo (fun rest => rest = []) P write read)
    {input : Bytes} {a : α} : runReader read input = .ok a ↔ P a ∧ input = write a := by
  rw [Lib.runReader_eq_ok]
  constructor
  · rintro ⟨rest, hread⟩
    obtain ⟨⟨ha, rfl⟩, rfl⟩ := (h _ _ _).mp hread
    exact ⟨ha, List.append_nil _⟩
  · rintro ⟨ha, rfl⟩
    exact ⟨[], (h _ _ _).mpr ⟨⟨ha, rfl⟩, (List.append_nil _).symm⟩⟩

/-- A reader that was told the length of its input. -/
theorem ReadsTo.runReader_sized {S : ℕ → α → Prop} {read : ℕ → EStateM ε Bytes α}
    (h : ∀ size, ReadsTo (fun rest => rest = []) (fun a => P a ∧ S size a) write (read size))
    (hsize : ∀ a, P a → S (write a).length a) {input : Bytes} {a : α} :
    runReader (read input.length) input = .ok a ↔ P a ∧ input = write a := by
  rw [(h input.length).runReader_eq_ok]
  constructor
  · rintro ⟨⟨ha, -⟩, rfl⟩
    exact ⟨ha, rfl⟩
  · rintro ⟨ha, rfl⟩
    exact ⟨⟨ha, hsize a ha⟩, rfl⟩

end Layouts

section Variants

variable {γ : Type} {P : α → Prop} {write : α → Bytes} {read : EStateM ε Bytes α}

/-- The same reader, told in other words. -/
theorem Reads.congr {P' : α → Prop} {write' : α → Bytes} (h : Reads P write read)
    (hP : ∀ a, P' a ↔ P a) (hwrite : ∀ a, write' a = write a) : Reads P' write' read := by
  intro input a rest
  rw [h input a rest, hP, hwrite]

/-- One alternative of a sum. -/
theorem Reads.variant (h : Reads P write read) (wrap : α → γ) {write' : γ → Bytes}
    (hwrite : ∀ a, write' (wrap a) = write a) :
    Reads (fun v => ∃ a, v = wrap a ∧ P a) write' (do return wrap (← read)) := by
  intro input v rest
  rw [h.bind_iff]
  constructor
  · rintro ⟨a, ha, middle, rfl, hpure⟩
    obtain ⟨rfl, rfl⟩ := run_pure_eq_ok.mp hpure
    exact ⟨⟨a, rfl, ha⟩, by rw [hwrite]⟩
  · rintro ⟨⟨a, rfl, ha⟩, rfl⟩
    exact ⟨a, ha, rest, by rw [hwrite], rfl⟩

end Variants

end Noleax.Lib
