/-!
Nibbles of an integer and subtraction within a byte. Integers are read in two's complement,
so the nibbles of a negative integer are those of its infinite extension by ones.
-/
namespace Chip8

abbrev Nibble := Fin 16

instance neZero_sixteen : @NeZero Nat Zero.ofOfNat0 16 := Nat.instNeZeroSucc

namespace Nibble

/-- Bits 4 to 7 of an integer. -/
def upper (value : Int) : Nibble :=
  ⟨(value / 16 % 16).toNat, by omega⟩

/-- Bits 0 to 3 of an integer. -/
def lower (value : Int) : Nibble :=
  ⟨(value % 16).toNat, by omega⟩

theorem val_lower (value : Int) : ((lower value).val : Int) = value % 16 := by
  simp only [lower]
  omega

end Nibble

/-- A difference reduced to a byte, with the note whether it needed no borrow. -/
structure Difference where
  value : UInt8
  noBorrow : Bool
deriving DecidableEq, Repr

def Difference.of (minuend subtrahend : Int) : Difference where
  value := UInt8.ofNat ((minuend - subtrahend) % 256).toNat
  noBorrow := decide (subtrahend ≤ minuend)

theorem Difference.value_of (a b : Int) :
    ((Difference.of a b).value.toNat : Int) = (a - b) % 256 := by
  simp only [Difference.of, UInt8.toNat_ofNat']
  omega

/-- One and zero as bytes, the two values of the flag register after arithmetic. -/
def flagByte (raised : Bool) : UInt8 := if raised then 1 else 0

end Chip8
