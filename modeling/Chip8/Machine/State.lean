import Chip8.Font
import Chip8.Screen
import Chip8.Settings

/-!
The state of a machine and the requests that come from outside: switching on, resetting, loading
a game, holding a key, taking the redraw notice, reading and writing memory. The program counter
and the index are integers without bounds; whether they point into memory is asked only when
memory is used. The newest return address is the head of the call stack.

The two timers count down together, once whenever a sixtieth of a second or more has passed since
they last did, however much more it was.
-/
namespace Chip8

abbrev Registers := Vector UInt8 16

/-- The register that arithmetic and drawing use as a flag. -/
def flagRegister : Nibble := 15

/-- The address at which games start. -/
def gameStart : Nat := 512

structure Machine where
  settings : Settings
  memory : Memory
  registers : Registers
  index : Int
  counter : Int
  stack : List Int
  delay : UInt8
  sound : UInt8
  key : Option Nibble
  screen : Screen
  /-- Whether the screen has to be shown anew. -/
  redraw : Bool
  /-- The clock reading at the last tick of the timers. -/
  lastTick : Float
  /-- How many random numbers have been drawn. -/
  draws : Nat

/-- What a request leaves behind: a machine, perhaps a fault, and the lines it logged. A faulty
request may have done part of its work. -/
structure Outcome where
  machine : Machine
  fault : Option Fault := none
  lines : List Line := []

/-- A request refused with a fault that is announced in the log. -/
def Outcome.refuse (m : Machine) (fault : Fault) : Outcome :=
  { machine := m, fault := some fault, lines := [fault.line] }

namespace Machine

/-- A machine just switched on, its timers counting from the clock reading. -/
def fresh (settings : Settings) (now : Float) : Machine where
  settings := settings
  memory := Font.install .blank
  registers := Vector.replicate 16 0
  index := 0
  counter := gameStart
  stack := []
  delay := 0
  sound := 0
  key := none
  screen := .blank
  redraw := false
  lastTick := now
  draws := 0

/-- Puts the font back into memory. -/
def loadFont (m : Machine) : Machine := { m with memory := Font.install m.memory }

/-- Clears memory, registers, timers, stack, key and screen, and asks for the blank screen to be
shown. -/
def reset (m : Machine) (now : Float) : Outcome where
  machine := loadFont
    { m with
      memory := .blank
      registers := Vector.replicate 16 0
      index := 0
      delay := 0
      sound := 0
      counter := gameStart
      stack := []
      key := none
      screen := .blank
      redraw := true
      lastTick := now }
  lines := [.debug "Emulator reset."]

/-- What a reset keeps are the settings and the position among the random numbers. -/
theorem machine_reset (m : Machine) (now : Float) :
    (m.reset now).machine = { fresh m.settings now with redraw := true, draws := m.draws } := rfl

def register (m : Machine) (x : Nibble) : UInt8 := m.registers.get x

def setRegister (m : Machine) (x : Nibble) (value : UInt8) : Machine :=
  { m with registers := m.registers.set x.val value x.isLt }

theorem register_setRegister (m : Machine) (x y : Nibble) (value : UInt8) :
    (m.setRegister x value).register y = if x = y then value else m.register y := by
  change (m.registers.set x.val value x.isLt)[y.val] = _
  rw [Vector.getElem_set]
  by_cases h : x = y
  · rw [if_pos h, if_pos (congrArg Fin.val h)]
  · rw [if_neg h, if_neg (fun hv => h (Fin.ext hv))]
    rfl

@[simp] theorem register_setRegister_self (m : Machine) (x : Nibble) (value : UInt8) :
    (m.setRegister x value).register x = value := by
  rw [register_setRegister, if_pos rfl]

theorem register_setRegister_of_ne {x y : Nibble} (m : Machine) (value : UInt8) (h : x ≠ y) :
    (m.setRegister x value).register y = m.register y := by
  rw [register_setRegister, if_neg h]

/-- Sets the flag register to one or zero. -/
def setFlag (m : Machine) (raised : Bool) : Machine := m.setRegister flagRegister (flagByte raised)

/-- Registers 0 up to and including `x`. -/
def firstRegisters (m : Machine) (x : Nibble) : List UInt8 := m.registers.toList.take (x.val + 1)

/-- Puts the values into the registers from 0 on. -/
def loadRegisters (m : Machine) (values : List UInt8) : Machine :=
  { m with registers := m.registers.mapIdx fun i old => values.getD i old }

theorem register_loadRegisters (m : Machine) (values : List UInt8) (x : Nibble) :
    (m.loadRegisters values).register x = values.getD x.val (m.register x) :=
  Vector.getElem_mapIdx x.isLt

/-- Copies a game into memory and points the program counter at it. Memory behind the game keeps
what it held. -/
def loadGame (m : Machine) (game : List UInt8) : Outcome :=
  if game.length > gameCapacity then .refuse m (.gameTooLarge game.length)
  else
    { machine := { m with memory := m.memory.overlay gameStart game, counter := gameStart }
      lines :=
        [.debug s!"Loaded a game of {game.length} bytes at {Hexadecimal.integer gameStart}."] }

/-- The name of a key, or of no key, in the log. -/
def keyName : Option Nibble → String
  | none => "None"
  | some key => toString key.val

/-- Takes note of the key that is held down, or that none is. -/
def hold (m : Machine) (key : Option Int) : Outcome :=
  let latch (key : Option Nibble) : Outcome :=
    { machine := { m with key }
      lines := if key = m.key then [] else [.debug s!"Key State Changed.  Key: {keyName key}."] }
  match key with
  | none => latch none
  | some key =>
    if h : 0 ≤ key ∧ key < 16 then latch (some ⟨key.toNat, by omega⟩)
    else { machine := m, fault := some (.invalidKey key) }

theorem hold_of_nibble (m : Machine) (key : Nibble) :
    (m.hold (some (key.val : Int))).machine = { m with key := some key } ∧
      (m.hold (some (key.val : Int))).fault = none := by
  have hrange : 0 ≤ (key.val : Int) ∧ (key.val : Int) < 16 := by omega
  simp only [hold, dif_pos hrange, Int.toNat_natCast, Fin.eta, and_self]

/-- Whether the screen has to be shown anew, and the machine that no longer asks for it. -/
def takeRedraw (m : Machine) : Bool × Machine := (m.redraw, { m with redraw := false })

/-- Whether the tone should sound. -/
def bell (m : Machine) : Bool := m.sound != 0

/-- The byte at an address, with the lines logged on the way. -/
def read (m : Machine) (address : Int) : Except Fault UInt8 × List Line :=
  match m.memory.read address with
  | .ok value => (.ok value, [])
  | .error fault => (.error fault, [fault.line])

/-- Stores a value at an address. The address is looked at before the value. -/
def write (m : Machine) (address value : Int) : Outcome :=
  match m.memory.write address (UInt8.ofNat value.toNat) with
  | .error fault => .refuse m fault
  | .ok memory =>
    if 0 ≤ value ∧ value < 256 then { machine := { m with memory } }
    else { machine := m, fault := some (.notByte value) }

end Machine

/-- One less, but never below zero. -/
def countDown (value : UInt8) : UInt8 := UInt8.ofNat (value.toNat - 1)

theorem toNat_countDown (value : UInt8) : (countDown value).toNat = value.toNat - 1 := by
  have := value.toNat_lt
  simp only [countDown, UInt8.toNat_ofNat']
  omega

namespace Machine

/-- The seconds between two ticks of the timers. -/
def tickLength : Float := 1 / 60

/-- Whether the timers tick at this clock reading. -/
def ticks (m : Machine) (now : Float) : Bool := !(decide (now - m.lastTick < tickLength))

def countDownDelay (m : Machine) : Machine := { m with delay := countDown m.delay }

/-- Counts the sound timer down and logs when it expires. -/
def countDownSound (m : Machine) : Outcome where
  machine := { m with sound := countDown m.sound }
  lines := if m.sound = 1 then [.debug "Sound timer expired, stopping sound."] else []

/-- Lets the timers tick if it is time. -/
def updateTimers (m : Machine) (now : Float) : Outcome :=
  if m.ticks now then { m with lastTick := now }.countDownDelay.countDownSound
  else { machine := m }

end Machine

end Chip8
