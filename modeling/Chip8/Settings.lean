import Chip8.Number.Double

/-!
Settings that stay fixed for the life of a machine, and the pace they set.
-/
namespace Chip8

structure Settings where
  /-- Instructions executed per second. -/
  rate : Nat := 700
  rate_pos : 0 < rate := by decide
  /-- Shifts copy register `y` into register `x` first. -/
  shiftsFromY : Bool := false
  /-- The offset jump adds register `x`, the first nibble of its address, in place of register 0. -/
  jumpsByX : Bool := false
deriving DecidableEq, Repr

/-- A rate that is not positive. -/
structure RateError where
  rate : Int
deriving DecidableEq, Repr

def RateError.message (e : RateError) : String :=
  s!"Instructions per second must be positive, got {e.rate}."

namespace Settings

def of (rate : Int) (shiftsFromY jumpsByX : Bool) : Except RateError Settings :=
  if h : rate ≤ 0 then .error ⟨rate⟩
  else .ok { rate := rate.toNat, rate_pos := by omega, shiftsFromY, jumpsByX }

/-- The seconds that one instruction should take. -/
def cycleDuration (s : Settings) : Double := .nearest false 1 s.rate

/-- The instructions to run between two frames at the given frame rate, at least one. -/
def instructionsPerFrame (s : Settings) (frameRate : Int) : Except QuotientError Nat :=
  (Double.quotient s.rate frameRate).map fun q => (max 1 q.round).toNat

end Settings

end Chip8
