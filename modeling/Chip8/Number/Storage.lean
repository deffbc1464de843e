import Chip8.Number.Double

/-!
Storage for pictures and tables of numbers. Sizes are signed words of 64 bits, in which an integer
one past the largest becomes the least. How much storage there is depends on the host.
-/
namespace Chip8

namespace Word

/-- The integers that are words. -/
def Holds (n : Int) : Prop := -9223372036854775808 ≤ n ∧ n < 9223372036854775808

instance : DecidablePred Holds := fun n =>
  inferInstanceAs (Decidable (-9223372036854775808 ≤ n ∧ n < 9223372036854775808))

/-- The word that an integer becomes. -/
def wrap (n : Int) : Int := n.bmod 18446744073709551616

theorem holds_wrap (n : Int) : Holds (wrap n) := by
  simp only [Holds, wrap, Int.bmod]
  split <;> omega

/-- The integers that wrapping keeps are the words. -/
theorem wrap_eq_iff {n : Int} : wrap n = n ↔ Holds n := by
  simp only [Holds, wrap, Int.bmod]
  split <;> omega

end Word

/-- The storage that a host has for one picture or table, in bytes. Physical addresses have 52 bits. -/
structure Storage where
  bytes : Nat
  addressed : bytes ≤ 4503599627370496

/-- The storage of a usual host: 16 GiB. -/
def Storage.usual : Storage := ⟨17179869184, by decide⟩

namespace ByteSize

/-- The units, each of which holds 1024 of the unit before it. -/
def units : List String := ["bytes", "KiB", "MiB", "GiB", "TiB", "PiB", "EiB"]

/-- How many of the given units an amount is, as a double. -/
def count (bytes unit : Nat) : Double := .nearest false bytes (1 <<< (10 * unit))

/-- The unit in which an amount is written, which is the next larger one where the count would
round to 1024. -/
def unit (bytes : Nat) : Nat :=
  let filled := bytes.log2 / 10
  min (if (count bytes filled).round = 1024 then filled + 1 else filled) 6

/-- The digits of a count of units. The point is kept behind an integer part that stands alone. -/
def digits (x : Double) : String :=
  let hundredths := x.roundTimes 100
  let tenths := x.roundTimes 10
  let ones := x.roundTimes 1
  if hundredths < 1000 then
    s!"{hundredths / 100}.{hundredths / 10 % 10}{hundredths % 10}"
  else if tenths < 1000 then s!"{tenths / 10}.{tenths % 10}"
  else s!"{ones}."

/-- The text of an amount. Single bytes are counted without a point. -/
def text (bytes : Nat) : String :=
  let unit := unit bytes
  let written := if unit = 0 then toString bytes else digits (count bytes unit)
  written ++ " " ++ units.getD unit ""

end ByteSize

/-- The numbers that tables hold. -/
inductive NumberKind where
  | int16
  | int64
  | float64
deriving DecidableEq, Repr

namespace NumberKind

def name : NumberKind → String
  | .int16 => "int16"
  | .int64 => "int64"
  | .float64 => "float64"

/-- The bytes of one number. -/
def bytes : NumberKind → Nat
  | .int16 => 2
  | .int64 => 8
  | .float64 => 8

end NumberKind

/-- A table with its number of entries along each side. -/
structure Table where
  sides : List Nat
  kind : NumberKind
deriving DecidableEq, Repr

/-- Why there is no room for a table. -/
inductive TableError where
  /-- The size of the table is no word. -/
  | tooLarge
  | noStorage (table : Table)
deriving DecidableEq, Repr

namespace Table

def bytes (t : Table) : Nat := t.sides.foldl (· * ·) t.kind.bytes

/-- The sides in parentheses, where a comma follows one that stands alone. -/
def shape (t : Table) : String :=
  match t.sides with
  | [side] => s!"({side},)"
  | sides => "(" ++ ", ".intercalate (sides.map toString) ++ ")"

/-- Finds room for a table. -/
def room (t : Table) (storage : Storage) : Except TableError Unit :=
  if ¬Word.Holds t.bytes then .error .tooLarge
  else if t.bytes > storage.bytes then .error (.noStorage t)
  else .ok ()

/-- There is room for the tables that the storage can take, and for no others. -/
theorem room_eq_ok_iff (t : Table) (storage : Storage) :
    t.room storage = .ok () ↔ t.bytes ≤ storage.bytes := by
  have haddressed := storage.addressed
  unfold room Word.Holds at *
  split
  · simp only [reduceCtorEq, false_iff]
    omega
  · split
    · simp only [reduceCtorEq, false_iff]
      omega
    · simp only [true_iff]
      omega

end Table

def TableError.message : TableError → String
  | .tooLarge => "array is too big; \x60arr.size * arr.dtype.itemsize\x60 is larger than the " ++
      "maximum possible size."
  | .noStorage t => s!"Unable to allocate {ByteSize.text t.bytes} for an array with shape " ++
      s!"{t.shape} and data type {t.kind.name}"

end Chip8
