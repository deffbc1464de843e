import Chip8.Main
import Chip8.Proofs.Instruction.Word
import Chip8.Proofs.Machine.Cycle
import Chip8.Proofs.Machine.Bounds
import Chip8.Proofs.Machine.Failure
import Chip8.Proofs.Machine.Redraw
import Chip8.Proofs.Machine.Index
import Chip8.Proofs.Machine.Course
import Chip8.Proofs.Machine.Footprint
import Chip8.Proofs.Session.Load
import Chip8.Proofs.Session.CleanStart
import Chip8.Proofs.Machine.Countdown
import Chip8.Proofs.Machine.Subroutine
import Chip8.Proofs.Session.HeldKey
import Chip8.Proofs.Session.Picture
import Chip8.Proofs.Machine.Lockstep
import Chip8.Proofs.Machine.Reset
import Chip8.Proofs.Machine.Influence
import Chip8.Proofs.Session.Hush
import Chip8.Proofs.Session.Tone
import Chip8.Proofs.Session.Ending
import Chip8.Proofs.Screen.Drawing
import Chip8.Proofs.Machine.Log
import Chip8.Proofs.Session.Requests
import Chip8.Proofs.Program.Status
import Chip8.Proofs.Machine.Arithmetic
import Chip8.Proofs.Screen.Superposition
import Chip8.Proofs.Machine.Transfer
import Chip8.Proofs.Machine.SavedRegisters
import Chip8.Proofs.Machine.Waiting
import Chip8.Proofs.Machine.StraightRun
import Chip8.Proofs.Screen.Digits
import Chip8.Proofs.Settings.Pace
import Chip8.Proofs.Game.Acceptance
import Chip8.Proofs.Display.Legible
import Chip8.Proofs.Sound.Seam
