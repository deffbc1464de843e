import Chip8.Byte
import Chip8.Fault

/-!
The keypad laid over the left of a keyboard, and the single key of it that counts as held: the
one pressed last, until it is let go.

    1 2 3 4      1 2 3 C
    Q W E R  ->  4 5 6 D
    A S D F      7 8 9 E
    Z X C V      A 0 B F
-/
namespace Chip8

/-- Something that happened at the keyboard or the window. Keys are named by the code points of
their characters, other keys by numbers beyond those. -/
inductive Event where
  | keyDown (code : Int)
  | keyUp (code : Int)
  | quit
  | other
deriving DecidableEq, Repr

structure Keypad where
  key : Option Nibble := none
deriving DecidableEq, Repr

namespace Keypad

/-- The held key as a machine is told of it. -/
def code (k : Keypad) : Option Int := k.key.map fun (key : Nibble) => (key.val : Int)

/-- The characters that stand for keys of the keypad. -/
def layout : List (Char × Nibble) :=
  [('1', 1), ('2', 2), ('3', 3), ('4', 12),
   ('q', 4), ('w', 5), ('e', 6), ('r', 13),
   ('a', 7), ('s', 8), ('d', 9), ('f', 14),
   ('z', 10), ('x', 0), ('c', 11), ('v', 15)]

/-- The key of the keypad that a key code stands for. -/
def key? (code : Int) : Option Nibble :=
  (layout.find? fun entry => (entry.1.toNat : Int) = code).map Prod.snd

/-- A key of the keypad going down or up. -/
structure Change where
  key : Nibble
  pressed : Bool
deriving DecidableEq, Repr

/-- What an event does to the keypad, if it concerns it. -/
def change? : Event → Option Change
  | .keyDown code => (key? code).map (⟨·, true⟩)
  | .keyUp code => (key? code).map (⟨·, false⟩)
  | .quit | .other => none

/-- The keypad after a change. Letting go of a key other than the held one changes nothing. -/
def apply (k : Keypad) (c : Change) : Keypad :=
  if c.pressed then ⟨some c.key⟩ else if k.key = some c.key then ⟨none⟩ else k

def Change.line (c : Change) : Line :=
  .debug s!"Key State Changed.  Key: {c.key.val}, Pressed: {truthWord c.pressed}."

/-- The keypad after an event. -/
def after (k : Keypad) (e : Event) : Keypad := (change? e).elim k k.apply

/-- What an event logs. -/
def lines (e : Event) : List Line := ((change? e).map Change.line).toList

end Keypad

end Chip8
