import Chip8.Session.Journal

/-!
The buzzer: a tone that is switched on and off. A request that would change nothing has no
effect, so starts and stops alternate.
-/
namespace Chip8

structure Buzzer where
  playing : Bool := false
deriving DecidableEq, Repr

namespace Buzzer

/-- Builds the tone of a buzzer for the open mixer; where none is open, one is opened first. -/
def setUp (storage : Storage) (mixer : Option Mixer) (pitch volume : Int) :
    List Effect × Except ToneError Buzzer :=
  let opening : List Effect := if mixer.isNone then [.audio (.start .standard)] else []
  let running := mixer.getD .standard
  let announced : List Effect := opening ++
    [.log (.debug s!"Mixer running at {running.rate} Hz with {running.channels} channel(s).")]
  match Tone.build storage pitch volume running.rate running.channels with
  | .error e => (announced, .error e)
  | .ok tone => (announced ++ [.audio (.makeSound tone)], .ok {})

/-- Makes the tone sound, or not, from now on. -/
def update (b : Buzzer) (active : Bool) : Buzzer × List Effect :=
  if active = b.playing then (b, [])
  else if active then (⟨true⟩, [.audio .play, .log (.debug "Starting sound.")])
  else (⟨false⟩, [.audio .stop, .log (.debug "Stopping sound.")])

@[simp] theorem playing_update (b : Buzzer) (active : Bool) :
    (b.update active).1.playing = active := by
  unfold update
  split
  · rename_i h
    exact h.symm
  · split
    · rename_i h
      exact h.symm
    · rename_i h
      simpa using h

end Buzzer

end Chip8
