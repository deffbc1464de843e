import Chip8.Proofs.Number.Quotient
import Chip8.Session.Start

/-!
Tones that can be built: a cycle is short, and there is room for a second of samples in each
channel. The standard tone is one of them for every mixer that is in use.
-/
namespace Chip8

/-- The mixer runs and has a channel, and the storage has 32 bytes for each sample of a second. -/
structure Mixer.Usable (storage : Storage) (m : Mixer) : Prop where
  rate : 0 < m.rate
  channels : 0 < m.channels
  samples : 32 * (m.rate * m.channels) ≤ storage.bytes

namespace Tone

variable {storage : Storage} {rate : Nat}

theorem room_eq_ok_iff {sides : List Nat} {kind : NumberKind} :
    room storage sides kind = .ok () ↔ Table.bytes ⟨sides, kind⟩ ≤ storage.bytes := by
  rw [← Table.room_eq_ok_iff, room]
  cases Table.room ⟨sides, kind⟩ storage with
  | error e => exact iff_of_false (by rintro ⟨⟩) (by rintro ⟨⟩)
  | ok u => exact iff_of_true rfl rfl

/-- Where a second of samples has room, their number is a word. -/
theorem lt_two_pow_of_le {n : Nat} (h : 32 * n ≤ storage.bytes) : n < 2 ^ 52 := by
  have haddressed := storage.addressed
  omega

theorem lt_mul_two_pow {n d : Nat} (hn : n < 2 ^ 52) (hd : 0 < d) : n < d * 2 ^ 1023 :=
  calc
    n < 2 ^ 52 := hn
    _ ≤ 2 ^ 1023 := pow_le_pow_right₀ one_le_two (by decide)
    _ ≤ d * 2 ^ 1023 := Nat.le_mul_of_pos_left _ hd

theorem leadingExponent_pitch (rate : Nat) : -10 ≤ Double.leadingExponent rate 550 := by
  have hlog : Nat.log2 550 = 9 := by decide
  rw [Double.leadingExponent, hlog]
  split <;> omega

/-- A cycle takes at most twice the samples of a second. -/
theorem roomForCycle_nearest {pitch : Nat} (hpitch : 0 < pitch) (h0 : 0 < rate)
    (h : 32 * rate ≤ storage.bytes) (hlead : -1074 ≤ Double.leadingExponent rate pitch) :
    ∃ cycle ≤ 2 * rate, roomForCycle storage (.nearest false rate pitch) = .ok cycle := by
  have hshort := lt_two_pow_of_le h
  obtain ⟨hlow, hhigh⟩ := Double.truncate_nearest_bounds h0 hpitch hlead
  generalize Double.nearest false rate pitch = length at hlow hhigh
  have hwrap : Word.wrap length.truncate = length.truncate :=
    Word.wrap_eq_iff.2 ⟨by omega, by omega⟩
  have hcount : count length = .ok length.truncate.toNat := by
    rw [count, if_neg (by omega), hwrap]
  have hroom : room storage [length.truncate.toNat] .int64 = .ok () := by
    refine room_eq_ok_iff.2 ?_
    simp only [Table.bytes, NumberKind.bytes, List.foldl_cons, List.foldl_nil]
    omega
  refine ⟨length.truncate.toNat, by omega, ?_⟩
  rw [roomForCycle, hcount]
  exact congrArg (Except.map fun _ => length.truncate.toNat) hroom

theorem roomForSecond_of_le {cycle : Nat} (hc : cycle ≤ 2 * rate)
    (h : 32 * rate ≤ storage.bytes) : roomForSecond storage cycle rate = .ok () := by
  have hshort := lt_two_pow_of_le h
  unfold roomForSecond
  split
  · rw [if_pos ⟨by omega, by omega⟩]
    refine room_eq_ok_iff.2 ?_
    simp only [Table.bytes, NumberKind.bytes, List.foldl_cons, List.foldl_nil]
    omega
  · rename_i hne
    have hmul : cycle * repeats cycle rate ≤ rate + cycle - 1 := Nat.mul_div_le _ cycle
    have hself : repeats cycle rate ≤ cycle * repeats cycle rate :=
      Nat.le_mul_of_pos_left _ (Nat.pos_of_ne_zero hne)
    rw [if_neg (not_not_intro ⟨by omega, by omega⟩), if_neg (by omega)]
    refine room_eq_ok_iff.2 ?_
    simp only [Table.bytes, NumberKind.bytes, List.foldl_cons, List.foldl_nil]
    omega

theorem roomForChannels_of_le {channels : Nat} (hr : 0 < rate)
    (h : 32 * (rate * channels) ≤ storage.bytes) :
    roomForChannels storage rate channels = .ok () := by
  have hself : channels ≤ rate * channels := Nat.le_mul_of_pos_left channels hr
  have hshort := lt_two_pow_of_le h
  unfold roomForChannels
  split
  · rfl
  · rw [if_neg (not_not_intro ⟨by omega, by omega⟩), if_neg (by omega), Int.toNat_natCast]
    refine room_eq_ok_iff.2 ?_
    simp only [Table.bytes, NumberKind.bytes, List.foldl_cons, List.foldl_nil]
    rw [Nat.mul_assoc]
    omega

theorem quotient_one_ok {volume : Int} (h : volume.natAbs < 2 ^ 1023) :
    ∃ height, Double.quotient volume 1 = .ok height := by
  rw [Double.quotient, if_neg (by decide)]
  split
  · exact ⟨_, rfl⟩
  · rename_i hne
    have hfits := Double.fits_nearest_of_lt (decide (volume < 0) != decide ((1 : Int) < 0))
      (Int.natAbs_pos.2 hne) Nat.one_pos (by rwa [Nat.one_mul])
    exact ⟨_, if_pos hfits⟩

/-- A tone can be built if there is room for a second of it and its cycle is not so short that it
vanishes. -/
theorem exists_build {pitch channels : Nat} {volume : Int} (hpitch : 0 < pitch) (hrate : 0 < rate)
    (hlead : -1074 ≤ Double.leadingExponent rate pitch) (hchannels : 0 < channels)
    (hsamples : 32 * (rate * channels) ≤ storage.bytes) (hvolume : volume.natAbs < 2 ^ 1023) :
    ∃ tone, build storage pitch volume rate channels = .ok tone := by
  have hle : 32 * rate ≤ storage.bytes :=
    (Nat.mul_le_mul_left 32 (Nat.le_mul_of_pos_right rate hchannels)).trans hsamples
  have hlength : Double.quotient rate pitch = .ok (.nearest false rate pitch) :=
    Double.quotient_eq_nearest hrate hpitch (lt_mul_two_pow (lt_two_pow_of_le hle) hpitch)
  have hvanish : (Double.nearest false rate pitch).significand ≠ 0 :=
    Nat.ne_of_gt (Double.significand_nearest_pos false hrate hpitch hlead)
  obtain ⟨height, hheight⟩ := quotient_one_ok hvolume
  obtain ⟨cycle, hcycle, hroom⟩ := roomForCycle_nearest hpitch hrate hle hlead
  have hrest : roomForRest storage cycle rate channels = .ok () := by
    rw [roomForRest, if_neg (by omega), Int.toNat_natCast, roomForSecond_of_le hcycle hle]
    exact roomForChannels_of_le hrate hsamples
  rw [build, hlength]
  simp only [if_neg hvanish, hroom, hheight, hrest]
  exact ⟨_, rfl⟩

theorem build_standard {m : Mixer} (h : m.Usable storage) :
    ∃ tone, build storage standardPitch standardVolume m.rate m.channels = .ok tone := by
  obtain ⟨rate, hrate⟩ := Int.eq_ofNat_of_zero_le (Int.le_of_lt h.rate)
  obtain ⟨channels, hchannels⟩ := Int.eq_ofNat_of_zero_le (Int.le_of_lt h.channels)
  have hsamples : 32 * (rate * channels) ≤ storage.bytes := by
    have hsamples := h.samples
    rw [hrate, hchannels] at hsamples
    exact_mod_cast hsamples
  have hlead : -1074 ≤ Double.leadingExponent rate 550 :=
    Int.le_trans (by decide) (leadingExponent_pitch rate)
  have hvolume : standardVolume.natAbs < 2 ^ 1023 :=
    Nat.lt_of_lt_of_le (by decide) (pow_le_pow_right₀ one_le_two (by decide : 13 ≤ 1023))
  have hpitch : 0 < 550 := by decide
  rw [hrate, hchannels]
  exact exists_build hpitch (Int.natCast_pos.1 (hrate ▸ h.rate)) hlead
    (Int.natCast_pos.1 (hchannels ▸ h.channels)) hsamples hvolume

end Tone

theorem Mixer.standard_usable : Mixer.standard.Usable .usual :=
  ⟨by decide, by decide, by decide⟩

/-- A usable mixer lets a buzzer be set up, be it open already or the standard one. Where no buzzer
is wanted, no mixer counts. -/
theorem Session.setUpBuzzer_ok {host : Host} {wanted : Bool}
    (h : wanted = true → (host.mixer.getD .standard).Usable host.storage) :
    (setUpBuzzer wanted host).2 = .ok (if wanted then some {} else none) := by
  cases wanted with
  | false => rfl
  | true =>
    obtain ⟨tone, ht⟩ := Tone.build_standard (h rfl)
    simp only [setUpBuzzer, Buzzer.setUp, ht, if_true]
    rfl

/-- A session starts if its window opens, its mixer is usable and its pace can be computed. -/
theorem Session.exists_start {settings : Settings} {display : Display} {equipment : Equipment}
    {host : Host} {pace : Nat} (hd : display.opening host.window = .ok ())
    (hm : equipment.buzzer = true → (host.mixer.getD .standard).Usable host.storage)
    (hp : settings.instructionsPerFrame frameRate = .ok pace) (clock : Clock)
    (picks : List (Option String)) :
    ∃ s, (start settings display equipment host clock picks).2 = .ok s := by
  simp only [start, hd, setUpBuzzer_ok hm, hp]
  exact ⟨_, rfl⟩

end Chip8
