import Chip8.Display.Frame
import Chip8.Number.Storage

/-!
The display in a window, where each pixel of the screen is a square block. The picture is told
band by band: equal neighbouring rows are taken together, and blank ones are left out.
-/
namespace Chip8

/-- A request to the window system. A size is missing where the scale is no number. -/
inductive WindowCall where
  | setCaption (text : String)
  | setMode (width height : Option Int)
  /-- Shows a screen with blocks of the given size. -/
  | flip (size : Nat) (screen : Screen)

/-- Why a window cannot be opened. -/
inductive WindowError where
  /-- A side is no number, or no word. -/
  | unreadableSize
  | negativeSize
  /-- There is no room for the picture, which takes a byte for each of its points. -/
  | outOfMemory
  /-- The window system has a reason of its own. -/
  | refused (text : String)
deriving DecidableEq, Repr

def WindowError.message : WindowError → String
  | .unreadableSize => "size needs to be (number width, number height)"
  | .negativeSize => "Invalid resolution for Surface"
  | .outOfMemory => "Out of memory"
  | .refused text => text

namespace Window

/-- The size of a block where none is asked for. -/
def defaultScale : Int := 12

def caption : String := "chip8vm"

/-- A side as the window system reads it: a word, of which the lower half counts. -/
def side? (length : Int) : Option Int :=
  if Word.Holds length then some (length.bmod 4294967296) else none

/-- The answer of a window system to a request for a window with the given sides. It opens one if
its sides can be read, none of them is negative, and there is room for the picture. -/
def answer (storage : Storage) (width height : Option Int) : Except WindowError Unit :=
  match width.bind side?, height.bind side? with
  | some width, some height =>
    if width < 0 ∨ height < 0 then .error .negativeSize
    else if width * height > storage.bytes then .error .outOfMemory
    else .ok ()
  | _, _ => .error .unreadableSize

/-- The sides of a window with the given scale, which are missing where that is no number. -/
def sides (scale : Option Int) : Option Int × Option Int :=
  (scale.map (64 * ·), scale.map (32 * ·))

/-- The side of a block in an open window. As its sides are words, those of its blocks start
anew at 2 ^ 27. -/
def blockSize (scale : Option Int) : Nat := (scale.getD 0 % 134217728).toNat

/-- The calls of a window with the given scale. -/
def calls (scale : Option Int) : Presentation → List WindowCall
  | .start => [.setCaption caption, .setMode (sides scale).1 (sides scale).2]
  | .title text => [.setCaption text]
  | .frame screen => [.flip (blockSize scale) screen]

/-- Equal neighbouring rows of a picture. -/
structure Band where
  first : Nat
  count : Nat
  pixels : List Bool
deriving DecidableEq, Repr

/-- Each row with the number of times it is repeated. -/
def runs : List (BitVec 64) → List (BitVec 64 × Nat)
  | [] => []
  | row :: rest =>
    match runs rest with
    | [] => [(row, 1)]
    | (next, count) :: more =>
      if row = next then (next, count + 1) :: more else (row, 1) :: (next, count) :: more

/-- Nothing is lost when rows are taken together. -/
theorem expand_runs (rows : List (BitVec 64)) :
    (runs rows).flatMap (fun run => List.replicate run.2 run.1) = rows := by
  induction rows with
  | nil => rfl
  | cons row rest ih =>
    unfold runs
    cases hr : runs rest with
    | nil =>
      rw [hr] at ih
      simp only [List.flatMap_nil] at ih
      subst ih
      rfl
    | cons run more =>
      obtain ⟨next, count⟩ := run
      rw [hr] at ih
      simp only [List.flatMap_cons] at ih
      by_cases h : row = next
      · subst h
        simp only [if_pos, List.flatMap_cons, List.replicate_succ, List.cons_append, ih]
      · simp only [if_neg h, List.flatMap_cons, ih]
        rfl

/-- A row with each pixel `scale` times as wide. -/
def widen (scale : Nat) (row : BitVec 64) : List Bool :=
  (List.range 64).flatMap fun x => List.replicate scale (row.getMsbD x)

/-- The bands of repeated rows, of which the topmost starts at window row `first`. -/
def bandsFrom (scale first : Nat) : List (BitVec 64 × Nat) → List Band
  | [] => []
  | (row, count) :: more =>
    let below := bandsFrom scale (first + count * scale) more
    if row = 0 then below else ⟨first, count * scale, widen scale row⟩ :: below

/-- The bands of a screen shown with blocks of the given size. -/
def bands (size : Nat) (screen : Screen) : List Band :=
  if size = 0 then [] else bandsFrom size 0 (runs screen.rows.toList)

end Window

/-- The displays to choose from. -/
inductive Display where
  | console
  /-- A window with a scale, if that is a number. -/
  | window (scale : Option Int)
deriving DecidableEq, Repr

namespace Display

/-- Puts a display up, a window as the window system answers. -/
def opening (answer : Option Int → Option Int → Except WindowError Unit) :
    Display → Except WindowError Unit
  | .console => .ok ()
  | .window scale => answer (Window.sides scale).1 (Window.sides scale).2

/-- What a display prints. -/
def printed : Display → Presentation → String
  | .console, p => Console.print p
  | .window _, _ => ""

/-- What a display asks of the window system. -/
def calls : Display → Presentation → List WindowCall
  | .console, _ => []
  | .window scale, p => Window.calls scale p

end Display

end Chip8
