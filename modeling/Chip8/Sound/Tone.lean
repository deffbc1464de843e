import Chip8.Number.Storage

/-!
One second of a sine tone. Only one cycle of it is computed, a whole number of samples long, and
repeated to the end of the second, so sample `k` is the sample at position `k` modulo the cycle.
A tone is refused where its cycle has no length or where there is no room for its samples.

The mixer plays tones. Programs ask nothing more of it.
-/
namespace Chip8

structure Tone where
  cycle : Array Int
  rate : Nat
  channels : Nat
deriving DecidableEq, Repr

inductive ToneError where
  /-- The cycle length cannot be computed. -/
  | length (e : QuotientError)
  /-- The cycle has no length at all. -/
  | noLength
  /-- The samples of a cycle are too many to be counted. -/
  | hugeCycle
  /-- The volume is beyond all doubles. -/
  | hugeVolume
  | negativeRate
  /-- A second of silence has more samples than can be counted. -/
  | hugeRate
  /-- The repeats of the cycle are too many to be counted. -/
  | hugeRepeats
  /-- The repeats of the cycle are too many to be listed. -/
  | manyRepeats
  | hugeChannels
  | negativeChannels
  /-- There is no room for one of the tables that the samples are built in. -/
  | table (e : TableError)
deriving DecidableEq, Repr

def ToneError.message : ToneError → String
  | .length e => e.message
  | .noLength => "float division by zero"
  | .hugeCycle => "Maximum allowed size exceeded"
  | .hugeVolume => "int too large to convert to float"
  | .negativeRate => "all elements of \x60new_shape\x60 must be non-negative"
  | .hugeRate => "Maximum allowed dimension exceeded"
  | .hugeRepeats => "cannot fit 'int' into an index-sized integer"
  | .manyRepeats => ""
  | .hugeChannels => "Python int too large to convert to C long"
  | .negativeChannels => "negative dimensions are not allowed"
  | .table e => e.message

namespace Tone

def standardPitch : Int := 550

def standardVolume : Int := 4096

/-- A number cut to its integer part and then to a signed word of 16 bits. An integer part beyond
32 bits counts as zero. -/
def quantize (x : Float) : Int :=
  let whole := x.toInt64.toInt
  if -2147483648 ≤ whole ∧ whole < 2147483648 then whole.bmod 65536 else 0

/-- The first `count` samples of a sine whose period takes `length` samples. -/
def sine (volume length : Double) (count : Nat) : Array Int :=
  let height := volume.toFloat
  let omega := 3.141592653589793 * 2 / length.toFloat
  (Array.range count).map fun k => quantize (height * Float.sin (Float.ofNat k * omega))

/-- The number of samples in a cycle of the given length, a fraction of a sample being dropped.
It is counted in a word, so that one past the largest word wraps around and is no sample at all. -/
def count (length : Double) : Except ToneError Nat :=
  if length.truncate.natAbs > 9223372036854775808 then .error .hugeCycle
  else .ok (Word.wrap length.truncate).toNat

section
variable (storage : Storage)

/-- Finds room for a table of samples. -/
def room (sides : List Nat) (kind : NumberKind) : Except ToneError Unit :=
  (Table.room ⟨sides, kind⟩ storage).mapError .table

/-- How often a cycle is taken to fill a second. -/
def repeats (cycle rate : Nat) : Nat := (rate + cycle - 1) / cycle

/-- Finds room for a second of repeated cycles. Without a cycle it is a second of silence. -/
def roomForSecond (cycle rate : Nat) : Except ToneError Unit :=
  if cycle = 0 then if Word.Holds rate then room storage [rate] .float64 else .error .hugeRate
  else if ¬Word.Holds (repeats cycle rate) then .error .hugeRepeats
  else if 8 * repeats cycle rate > storage.bytes then .error .manyRepeats
  else room storage [cycle * repeats cycle rate] .float64

/-- Finds room for the samples of all channels, which those of a single channel need not have. -/
def roomForChannels (rate : Nat) (channels : Int) : Except ToneError Unit :=
  if channels = 1 then .ok ()
  else if ¬Word.Holds channels then .error .hugeChannels
  else if channels < 0 then .error .negativeChannels
  else room storage [rate, channels.toNat] .int16

/-- Finds room for the cycle and counts its samples. -/
def roomForCycle (length : Double) : Except ToneError Nat :=
  match count length with
  | .error e => .error e
  | .ok cycle => (room storage [cycle] .int64).map fun _ => cycle

/-- Finds room for all that is built from a cycle. -/
def roomForRest (cycle : Nat) (rate channels : Int) : Except ToneError Unit :=
  if rate < 0 then .error .negativeRate
  else
    match roomForSecond storage cycle rate.toNat with
    | .error e => .error e
    | .ok () => roomForChannels storage rate.toNat channels

def build (pitch volume rate channels : Int) : Except ToneError Tone :=
  match Double.quotient rate pitch with
  | .error e => .error (.length e)
  | .ok length =>
    if length.significand = 0 then .error .noLength
    else
      match roomForCycle storage length, Double.quotient volume 1 with
      | .error e, _ => .error e
      | .ok _, .error _ => .error .hugeVolume
      | .ok cycle, .ok volume =>
        match roomForRest storage cycle rate channels with
        | .error e => .error e
        | .ok () =>
          .ok { cycle := sine volume length cycle, rate := rate.toNat, channels := channels.toNat }

end

/-- The position in the cycle that sample `k` repeats. -/
def position (t : Tone) (k : Nat) : Nat := k % t.cycle.size

/-- Sample `k` of every channel. A tone without a cycle is silent. -/
def sample (t : Tone) (k : Nat) : Int := t.cycle.getD (t.position k) 0

/-- All samples in time order, those of the channels side by side. -/
def samples (t : Tone) : List Int :=
  (List.range t.rate).flatMap fun k => List.replicate t.channels (t.sample k)

theorem size_sine (volume length : Double) (count : Nat) :
    (sine volume length count).size = count := by
  simp [sine]

end Tone

/-- An open mixer. -/
structure Mixer where
  rate : Int
  channels : Int
deriving DecidableEq, Repr

namespace Mixer

/-- The mixer that is opened where none is open. -/
def standard : Mixer := ⟨44100, 1⟩

/-- The bits of a sample; negative as samples are signed. -/
def sampleSize : Int := -16

/-- The samples that are buffered. -/
def bufferLength : Nat := 4096

end Mixer

/-- A request to the sound system. -/
inductive AudioCall where
  /-- Asks for a mixer with these settings, should one be opened later. -/
  | request (settings : Mixer)
  | start (settings : Mixer)
  | makeSound (tone : Tone)
  /-- Plays the sound over and over. -/
  | play
  | stop
deriving DecidableEq, Repr

end Chip8
