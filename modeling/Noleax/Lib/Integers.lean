import Noleax.Lib.Bytes

/-!
# Integers of a fixed width as bytes

A class of the types that hold one integer of a known width, and the reader that
inverts their bytes. An enumeration takes part through the integer under it.
-/

namespace Noleax.Lib

variable {ε α β : Type}

/-- A type that holds an integer of `width` bytes. -/
class Integral (α : Type) where
  width : ℕ
  bits : α → ℕ
  ofBits : ℕ → α
  isWord : ∀ a, IsWord width (bits a)
  ofBits_bits : ∀ a, ofBits (bits a) = a
  bits_ofBits : ∀ n, IsWord width n → bits (ofBits n) = n

instance : Integral UInt8 where
  width := 1
  bits := UInt8.toNat
  ofBits := UInt8.ofNat
  isWord := UInt8.toNat_lt
  ofBits_bits _ := UInt8.ofNat_toNat
  bits_ofBits _ := UInt8.toNat_ofNat_of_lt

instance : Integral UInt16 where
  width := 2
  bits := UInt16.toNat
  ofBits := UInt16.ofNat
  isWord := UInt16.toNat_lt
  ofBits_bits _ := UInt16.ofNat_toNat
  bits_ofBits _ := UInt16.toNat_ofNat_of_lt

instance : Integral UInt32 where
  width := 4
  bits := UInt32.toNat
  ofBits := UInt32.ofNat
  isWord := UInt32.toNat_lt
  ofBits_bits _ := UInt32.ofNat_toNat
  bits_ofBits _ := UInt32.toNat_ofNat_of_lt

instance : Integral UInt64 where
  width := 8
  bits := UInt64.toNat
  ofBits := UInt64.ofNat
  isWord := UInt64.toNat_lt
  ofBits_bits _ := UInt64.ofNat_toNat
  bits_ofBits _ := UInt64.toNat_ofNat_of_lt

/-- A type that wraps an integer has its bytes. -/
@[reducible] def Integral.via [Integral α] (wrap : α → β) (unwrap : β → α)
    (hwrap : ∀ b, wrap (unwrap b) = b) (hunwrap : ∀ a, unwrap (wrap a) = a) : Integral β where
  width := Integral.width α
  bits b := Integral.bits (unwrap b)
  ofBits n := wrap (Integral.ofBits n)
  isWord b := Integral.isWord (unwrap b)
  ofBits_bits b := by rw [Integral.ofBits_bits, hwrap]
  bits_ofBits n hn := by rw [hunwrap, Integral.bits_ofBits n hn]

/-- The two's complement. -/
instance : Integral Int32 :=
  .via UInt32.toInt32 Int32.toUInt32 Int32.toInt32_toUInt32 UInt32.toUInt32_toInt32

section Bytes

variable [Integral α]

def integerBytes (a : α) : Bytes := littleEndian (Integral.width α) (Integral.bits a)

/-- The next integer; `e` when the input ends in it. -/
def readInteger (e : ε) : EStateM ε Bytes α := do
  return Integral.ofBits (← readWord e (Integral.width α))

theorem reads_integer (e : ε) : Reads (fun _ : α => True) integerBytes (readInteger e) := by
  refine (reads_readWord e (Integral.width α)).mapped Integral.bits ?_ ?_
  · intro n hn
    exact ⟨trivial, Integral.bits_ofBits n hn⟩
  · intro a _
    exact ⟨Integral.isWord a, Integral.ofBits_bits a⟩

end Bytes

end Noleax.Lib
