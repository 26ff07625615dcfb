import Mathlib.Data.List.Basic

/-!
# Prefix codes

Messages that are written one after the other on a stream. When no code word starts
another one, what was read from the front of the stream is what was written first.
-/

namespace Noleax.Lib

variable {M B : Type}

/-- Among the messages of `P`, no code word is empty or starts another one. -/
structure PrefixCode (P : M → Prop) (code : M → List B) : Prop where
  nonempty : ∀ m, code m ≠ []
  unique : ∀ m n rest more, P m → P n → code m ++ rest = code n ++ more → m = n

section Prefix

variable {P : M → Prop} {code : M → List B} {ms ns : List M} {rest : List B}

/-- A stream that starts with the code of some messages starts with these messages. -/
theorem PrefixCode.isPrefix (h : PrefixCode P code) (hms : ∀ m ∈ ms, P m) (hns : ∀ n ∈ ns, P n)
    (hstream : ms.flatMap code ++ rest = ns.flatMap code) : ms <+: ns := by
  induction ms generalizing ns with
  | nil => exact List.nil_prefix
  | cons m ms ih =>
      cases ns with
      | nil =>
          simp [h.nonempty m] at hstream
      | cons n ns =>
          obtain ⟨hm, hmore⟩ := List.forall_mem_cons.mp hms
          obtain ⟨hn, hrest⟩ := List.forall_mem_cons.mp hns
          simp only [List.flatMap_cons, List.append_assoc] at hstream
          obtain rfl := h.unique _ _ _ _ hm hn hstream
          exact (List.prefix_cons_inj m).mpr (ih hmore hrest (List.append_cancel_left hstream))

end Prefix

end Noleax.Lib
