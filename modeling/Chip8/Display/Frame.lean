import Chip8.Screen

/-!
Frames as text: a pixel is two characters wide and a row is a line. A frame is any list of rows
of numbers, in which every number but zero counts as lit; a screen is a frame of zeros and ones.

A display is asked to show such frames and titles, and the one that prints to a terminal shows them
as text.
-/
namespace Chip8

abbrev Frame := List (List Int)

namespace Frame

/-- The characters of one pixel. -/
def block (pixel : Int) : List Char := if pixel = 0 then [' ', ' '] else ['▓', '▓']

def line (row : List Int) : List Char := row.flatMap block

def chars (f : Frame) : List Char := ['\n'].intercalate (f.map line)

def text (f : Frame) : String := String.ofList f.chars

theorem length_block (pixel : Int) : (block pixel).length = 2 := by
  unfold block
  split <;> rfl

theorem newline_notMem_block (pixel : Int) : '\n' ∉ block pixel := by
  unfold block
  split <;> decide

theorem length_line (row : List Int) : (line row).length = 2 * row.length := by
  induction row with
  | nil => rfl
  | cons pixel row ih =>
    simp only [line, List.flatMap_cons, List.length_append, length_block] at ih ⊢
    rw [ih, List.length_cons]
    omega

theorem newline_notMem_line (row : List Int) : '\n' ∉ line row := by
  simp only [line, List.mem_flatMap, not_exists, not_and]
  exact fun pixel _ => newline_notMem_block pixel

end Frame

/-- The screen row by row, lit pixels as ones. -/
def Screen.frame (s : Screen) : Frame :=
  (List.finRange 32).map fun y => (List.finRange 64).map fun x => if s.pixel x y then 1 else 0

inductive Presentation where
  /-- The display is put up. -/
  | start
  | title (text : String)
  | frame (screen : Screen)
deriving DecidableEq

namespace Console

def printTitle (text : String) : String := s!"== {text} ==\n"

/-- A frame follows an empty line. -/
def printFrame (f : Frame) : String := "\n" ++ f.text ++ "\n"

/-- What a terminal prints. -/
def print : Presentation → String
  | .start => ""
  | .title text => printTitle text
  | .frame screen => printFrame screen.frame

end Console

end Chip8
