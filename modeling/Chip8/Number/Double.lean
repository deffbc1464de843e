/-!
Finite doubles as a sign, a significand and a power of two, and quotients of integers rounded to
them. A quotient is rounded once, to the nearest double, and a tie goes to the even significand;
very small quotients become subnormal or zero, too large ones are an error.
-/
namespace Chip8

/-- The integer nearest to `n / d`; of two equally near, the even one. -/
def roundHalfEven (n d : Nat) : Nat :=
  let q := n / d
  let r := n % d
  if 2 * r < d then q else if d < 2 * r then q + 1 else q + q % 2

/-- The number `significand * 2 ^ exponent` with a sign. -/
structure Double where
  negative : Bool
  significand : Nat
  exponent : Int
deriving DecidableEq, Repr

inductive QuotientError where
  | divisionByZero
  | overflow
deriving DecidableEq, Repr

def QuotientError.message : QuotientError → String
  | .divisionByZero => "division by zero"
  | .overflow => "integer division result too large for a float"

namespace Double

/-- The exponent of the greatest power of two that is at most `n / d`, for positive `n` and `d`. -/
def leadingExponent (n d : Nat) : Int :=
  let k : Int := (n.log2 : Int) - d.log2
  if d <<< k.toNat ≤ n <<< (-k).toNat then k else k - 1

/-- The exponent of the last place of a double near `n / d`: 53 places, but none below 2 ^ -1074. -/
def lastPlace (n d : Nat) : Int := max (leadingExponent n d - 52) (-1074)

/-- The double nearest to `n / d`, were exponents unbounded above. -/
def nearest (negative : Bool) (n d : Nat) : Double :=
  let e := lastPlace n d
  ⟨negative, roundHalfEven (n <<< (-e).toNat) (d <<< e.toNat), e⟩

/-- Whether the number is below 2 ^ 1024 in size, for an exponent of -1074 or more. -/
def Fits (x : Double) : Prop := x.significand <<< (x.exponent + 1074).toNat < 1 <<< 2098

instance : DecidablePred Fits := fun x =>
  inferInstanceAs (Decidable (x.significand <<< (x.exponent + 1074).toNat < 1 <<< 2098))

/-- The quotient of two integers as a double. -/
def quotient (a b : Int) : Except QuotientError Double :=
  if b = 0 then .error .divisionByZero
  else
    let negative := decide (a < 0) != decide (b < 0)
    if a = 0 then .ok ⟨negative, 0, 0⟩
    else
      let x := nearest negative a.natAbs b.natAbs
      if x.Fits then .ok x else .error .overflow

/-- The integer nearest to `k` times the size of the number, a half going to the even one. -/
def roundTimes (k : Nat) (x : Double) : Nat :=
  roundHalfEven (k * x.significand <<< x.exponent.toNat) (1 <<< (-x.exponent).toNat)

/-- The nearest integer, a half going to the even neighbour. -/
def round (x : Double) : Int :=
  let size := roundHalfEven (x.significand <<< x.exponent.toNat) (1 <<< (-x.exponent).toNat)
  if x.negative then -size else size

/-- The integer part. -/
def truncate (x : Double) : Int :=
  let size := (x.significand <<< x.exponent.toNat) / (1 <<< (-x.exponent).toNat)
  if x.negative then -size else size

/-- The 64 bits of the double in the binary interchange format. -/
def toBits (x : Double) : UInt64 :=
  let size := if x.significand = 0 then 0 else ((x.exponent + 1074).toNat <<< 52) + x.significand
  UInt64.ofNat (size + if x.negative then 1 <<< 63 else 0)

def toFloat (x : Double) : Float := Float.ofBits x.toBits

end Double

end Chip8
