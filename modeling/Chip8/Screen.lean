import Chip8.Byte

/-!
The screen: 32 rows of 64 pixels, each row a word whose leftmost pixel is the highest bit. The bits
of a sprite are drawn pixel by pixel: a set one flips its pixel, and a lit pixel that is turned off
by that is a collision.
-/
namespace Chip8

@[ext] structure Screen where
  rows : Vector (BitVec 64) 32
deriving DecidableEq, Repr

namespace Screen

def blank : Screen := ⟨Vector.replicate 32 0⟩

/-- Every pixel lit. -/
def full : Screen := ⟨Vector.replicate 32 (BitVec.allOnes 64)⟩

def pixel (s : Screen) (x : Fin 64) (y : Fin 32) : Bool := (s.rows.get y).getMsbD x.val

@[simp] theorem pixel_blank (x : Fin 64) (y : Fin 32) : blank.pixel x y = false := by
  change ((Vector.replicate 32 (0 : BitVec 64))[y.val]).getMsbD x.val = false
  rw [Vector.getElem_replicate]
  exact BitVec.getMsbD_zero

@[simp] theorem pixel_full (x : Fin 64) (y : Fin 32) : full.pixel x y = true := by
  change ((Vector.replicate 32 (BitVec.allOnes 64))[y.val]).getMsbD x.val = true
  rw [Vector.getElem_replicate, BitVec.getMsbD_allOnes]
  exact decide_eq_true x.isLt

/-- A screen is what its pixels are. -/
theorem ext_pixel {s t : Screen} (h : ∀ x y, s.pixel x y = t.pixel x y) : s = t := by
  apply Screen.ext
  apply Vector.ext
  intro y hy
  apply BitVec.eq_of_getMsbD_eq
  intro x hx
  exact h ⟨x, hx⟩ ⟨y, hy⟩

/-- The word with nothing but the pixel in column `x` lit. -/
def column (x : Fin 64) : BitVec 64 := BitVec.twoPow 64 (63 - x.val)

def setPixel (s : Screen) (x : Fin 64) (y : Fin 32) (lit : Bool) : Screen :=
  let row := s.rows.get y
  ⟨s.rows.set y.val (if lit then row ||| column x else row &&& ~~~column x) y.isLt⟩

theorem getMsbD_column (x : Fin 64) (i : Nat) (hi : i < 64) :
    (column x).getMsbD i = decide (i = x.val) := by
  rw [column, BitVec.getMsbD_eq_getLsbD, decide_eq_true hi, Bool.true_and, BitVec.getLsbD_twoPow]
  have := x.isLt
  rw [decide_eq_true (by omega), Bool.true_and]
  exact decide_eq_decide.2 ⟨fun h => by omega, fun h => by omega⟩

/-- The pixel that was set, and the others as before. -/
theorem pixel_setPixel (s : Screen) (x column : Fin 64) (y row : Fin 32) (lit : Bool) :
    (s.setPixel x y lit).pixel column row =
      if column = x ∧ row = y then lit else s.pixel column row := by
  have hpixel : (s.rows.get row).getMsbD column.val = s.pixel column row := rfl
  change ((s.rows.set y.val _ y.isLt)[row.val]).getMsbD column.val = _
  rw [Vector.getElem_set]
  by_cases hrow : row = y
  · subst hrow
    rw [if_pos rfl]
    by_cases hcolumn : column = x
    · subst hcolumn
      cases lit <;> simp [getMsbD_column]
    · have hne : column.val ≠ x.val := fun h => hcolumn (Fin.ext h)
      cases lit <;> simp [getMsbD_column, hcolumn, hne, hpixel]
  · rw [if_neg (fun h => hrow (Fin.ext h).symm), if_neg (fun h => hrow h.2)]
    rfl

/-- The lit pixels in reading order, as numbers from 0 to 2047. -/
def litPixels (s : Screen) : List Nat :=
  (List.finRange 32).flatMap fun y =>
    ((List.finRange 64).filter fun x => s.pixel x y).map fun x => 64 * y.val + x.val

end Screen

/-- A screen that is drawn on, with the note whether a lit pixel has been turned off. -/
structure Canvas where
  screen : Screen
  unset : Bool := false
deriving DecidableEq, Repr

namespace Canvas

/-- Flips a pixel if the bit is set. -/
def flip (c : Canvas) (x : Fin 64) (y : Fin 32) (bit : Bool) : Canvas where
  screen := c.screen.setPixel x y (Bool.xor (c.screen.pixel x y) bit)
  unset := c.unset || c.screen.pixel x y && bit

/-- The column that lies so far to the right of column `x`, around the screen. -/
def turn (x column : Nat) : Fin 64 := ⟨(x + column) % 64, Nat.mod_lt _ (by decide)⟩

/-- Draws the bits of a byte one after the other, the highest in column `x`. -/
def drawByte (c : Canvas) (x : Nat) (y : Fin 32) (value : UInt8) : Canvas :=
  (List.range 8).foldl
    (fun c column => c.flip (turn x column) y (value.toNat.testBit (7 - column))) c

end Canvas

end Chip8
