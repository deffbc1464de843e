import Chip8.Display.Window
import Chip8.Fault
import Chip8.Sound.Tone

/-!
What a session does to the world outside: lines of a log, presentations on its display, requests
to the sound system and dialogs. A journal of effects has the newest one at its head.

Seen channel by channel a journal has the oldest effect first. What is shown depends on the display
that shows it.
-/
namespace Chip8

inductive Dialog where
  /-- Asks for a file. It opens at a pattern of names and offers groups of patterns, each group
  with its own name last. -/
  | pickFile (title start : String) (groups : List (List String))
  | message (text title : String)
deriving DecidableEq, Repr

inductive Effect where
  | log (line : Line)
  | present (presentation : Presentation)
  | audio (call : AudioCall)
  | dialog (dialog : Dialog)

abbrev Journal := List Effect

namespace Journal

/-- Adds effects in the order given. -/
def record (journal : Journal) (effects : List Effect) : Journal := effects.reverse ++ journal

@[simp] theorem record_nil (journal : Journal) : journal.record [] = journal := rfl

theorem record_append (journal : Journal) (first second : List Effect) :
    journal.record (first ++ second) = (journal.record first).record second := by
  simp [record]

/-- The lines of the log. -/
def lines (j : Journal) : List Line :=
  j.reverse.filterMap fun
    | .log line => some line
    | _ => none

def presentations (j : Journal) : List Presentation :=
  j.reverse.filterMap fun
    | .present p => some p
    | _ => none

/-- The screens that were shown. -/
def screens (j : Journal) : List Screen :=
  j.presentations.filterMap fun
    | .frame screen => some screen
    | _ => none

def audio (j : Journal) : List AudioCall :=
  j.reverse.filterMap fun
    | .audio call => some call
    | _ => none

def dialogs (j : Journal) : List Dialog :=
  j.reverse.filterMap fun
    | .dialog dialog => some dialog
    | _ => none

theorem lines_record (j : Journal) (effects : List Effect) :
    (j.record effects).lines = j.lines ++ (Journal.record [] effects).lines := by
  simp [lines, record, List.filterMap_append]

theorem presentations_record (j : Journal) (effects : List Effect) :
    (j.record effects).presentations =
      j.presentations ++ (Journal.record [] effects).presentations := by
  simp [presentations, record, List.filterMap_append]

theorem audio_record (j : Journal) (effects : List Effect) :
    (j.record effects).audio = j.audio ++ (Journal.record [] effects).audio := by
  simp [audio, record, List.filterMap_append]

theorem dialogs_record (j : Journal) (effects : List Effect) :
    (j.record effects).dialogs = j.dialogs ++ (Journal.record [] effects).dialogs := by
  simp [dialogs, record, List.filterMap_append]

/-- All that a display prints. -/
def printed (d : Display) (j : Journal) : String := String.join (j.presentations.map d.printed)

/-- All that a display asks of the window system. -/
def windowCalls (d : Display) (j : Journal) : List WindowCall := j.presentations.flatMap d.calls

/-- A line of the log as it is printed. -/
def logText (line : Line) : String := s!"[{line.level.name}]:  {line.text}\n"

/-- Whether a line is printed; those for finding errors only on demand. -/
def Heard (debug : Bool) (line : Line) : Prop := debug = true ∨ line.level ≠ .debug

instance (debug : Bool) : DecidablePred (Heard debug) := fun line =>
  inferInstanceAs (Decidable (debug = true ∨ line.level ≠ .debug))

/-- The log and the prints of a display together. -/
def output (debug : Bool) (d : Display) (j : Journal) : String :=
  String.join (j.reverse.map fun
    | .log line => if Heard debug line then logText line else ""
    | .present p => d.printed p
    | _ => "")

end Journal

end Chip8
