import Chip8.Proofs.Number.DoubleRounding
import Chip8.Proofs.Sound.Standard
import Mathlib.Algebra.Ring.Periodic

/-!
Tones that are played over and over. Behind the last sample the first one follows again, and the
cycle goes on there only if the last sample is the last of a cycle too, so if a second is a whole
number of cycles. For the standard tone it is not: it jumps once in a second.
-/
namespace Chip8.Tone

/-- The position in the cycle that is heard at sample `k` of a tone played over and over. -/
def heard (t : Tone) (k : Nat) : Nat := t.position (k % t.rate)

variable {storage : Storage} {t : Tone}

/-- The samples of the channels stand side by side. -/
theorem getElem?_samples (t : Tone) {k channel : Nat} (hk : k < t.rate)
    (hc : channel < t.channels) : t.samples[k * t.channels + channel]? = some (t.sample k) := by
  unfold samples
  generalize t.rate = rate at hk
  induction rate with
  | zero => cases hk
  | succ rate ih =>
    have hlength : ((List.range rate).flatMap fun k => List.replicate t.channels (t.sample k)).length
        = rate * t.channels := by
      simp [List.length_flatMap]
    rw [List.range_succ, List.flatMap_append]
    rcases Nat.lt_succ_iff_lt_or_eq.1 hk with hlt | rfl
    · have hin : k * t.channels + channel < rate * t.channels :=
        calc
          k * t.channels + channel < (k + 1) * t.channels := by
            rw [Nat.succ_mul]
            omega
          _ ≤ rate * t.channels := Nat.mul_le_mul_right _ hlt
      rw [List.getElem?_append_left (hlength ▸ hin)]
      exact ih hlt
    · rw [List.getElem?_append_right (by omega), hlength, Nat.add_sub_cancel_left]
      simp [hc]

theorem sample_eq (h : 0 < t.cycle.size) (k : Nat) :
    some (t.sample k) = t.cycle[k % t.cycle.size]? := by
  have hin : k % t.cycle.size < t.cycle.size := Nat.mod_lt k h
  rw [sample, position, Array.getD, dif_pos hin, Array.getElem?_eq_getElem hin]
  rfl

theorem length_samples (t : Tone) : t.samples.length = t.rate * t.channels := by
  simp [samples, List.length_flatMap]

variable {cycle rate : Nat}

/-- A number just below a multiple leaves the greatest rest. -/
theorem pred_mod_eq_iff (hc : 0 < cycle) (hr : 0 < rate) :
    (rate - 1) % cycle = cycle - 1 ↔ cycle ∣ rate := by
  obtain ⟨n, rfl⟩ := Nat.exists_eq_succ_of_ne_zero (Nat.ne_of_gt hr)
  have hrest := Nat.mod_lt n hc
  have hsplit := Nat.div_add_mod n cycle
  rw [Nat.succ_sub_one]
  constructor
  · intro h
    refine ⟨n / cycle + 1, ?_⟩
    rw [Nat.mul_add, Nat.mul_one]
    omega
  · intro h
    have hnext : cycle ∣ n % cycle + 1 := by
      refine (Nat.dvd_add_right (Nat.dvd_mul_right cycle (n / cycle))).1 ?_
      rwa [← Nat.add_assoc, hsplit]
    have := Nat.le_of_dvd (Nat.succ_pos _) hnext
    omega

theorem position_last_iff (hc : 0 < t.cycle.size) (hr : 0 < t.rate) :
    t.position (t.rate - 1) = t.cycle.size - 1 ↔ t.cycle.size ∣ t.rate :=
  pred_mod_eq_iff hc hr

/-- If the cycle does not fit, it starts anew too early: a cycle before the seam is not at its
start, but the seam is. -/
theorem periodic_heard_iff (hc : 0 < t.cycle.size) (hle : t.cycle.size ≤ t.rate) :
    Function.Periodic t.heard t.cycle.size ↔ t.cycle.size ∣ t.rate := by
  constructor
  · intro h
    have hbefore : (t.rate - t.cycle.size) % t.rate = t.rate - t.cycle.size :=
      Nat.mod_eq_of_lt (by omega)
    have hseam : t.heard t.rate = 0 := by
      rw [heard, position, Nat.mod_self, Nat.zero_mod]
    have hsame := h (t.rate - t.cycle.size)
    rw [Nat.sub_add_cancel hle, hseam, heard, position, hbefore,
      ← Nat.mod_eq_sub_mod hle] at hsame
    exact Nat.dvd_of_mod_eq_zero hsame.symm
  · intro h k
    rw [heard, heard, position, position, Nat.mod_mod_of_dvd _ h, Nat.mod_mod_of_dvd _ h,
      Nat.add_mod_right]

/-- Whatever the cycle, a second of samples has to find room. -/
theorem lt_of_roomForSecond (h : roomForSecond storage cycle rate = .ok ()) : rate < 2 ^ 52 := by
  have hroom (samples : Nat) (hs : room storage [samples] .float64 = .ok ()) :
      samples < 2 ^ 52 := by
    have haddressed := storage.addressed
    have hbytes := room_eq_ok_iff.1 hs
    simp only [Table.bytes, NumberKind.bytes, List.foldl_cons, List.foldl_nil] at hbytes
    omega
  unfold roomForSecond at h
  split at h
  · split at h
    · exact hroom rate h
    · cases h
  · rename_i hne
    split at h
    · cases h
    · split at h
      · cases h
      · have hfill : rate ≤ cycle * repeats cycle rate := by
          have := Nat.lt_mul_div_succ (rate + cycle - 1) (Nat.pos_of_ne_zero hne)
          rw [Nat.mul_succ] at this
          unfold repeats
          omega
        exact hfill.trans_lt (hroom _ h)

theorem count_of_roomForCycle {length : Double} (h : roomForCycle storage length = .ok cycle) :
    cycle = (Word.wrap length.truncate).toNat := by
  unfold roomForCycle at h
  split at h
  · cases h
  · rename_i samples hcount
    have hsame : samples = cycle := by
      cases hr : room storage [samples] .int64 with
      | error e =>
        rw [hr] at h
        cases h
      | ok u =>
        rw [hr] at h
        exact Except.ok.inj h
    unfold count at hcount
    split at hcount
    · cases hcount
    · rw [← hsame, ← Except.ok.inj hcount]

/-- What has to go well for a tone to be built. -/
theorem build_eq_ok {pitch volume rate channels : Int}
    (h : build storage pitch volume rate channels = .ok t) :
    ∃ length height cycle, Double.quotient rate pitch = .ok length ∧
      roomForCycle storage length = .ok cycle ∧ roomForRest storage cycle rate channels = .ok () ∧
      t = ⟨sine height length cycle, rate.toNat, channels.toNat⟩ := by
  unfold build at h
  split at h
  · cases h
  · rename_i length hlength
    split at h
    · cases h
    · split at h
      · cases h
      · cases h
      · rename_i cycle height hcycle hheight
        split at h
        · cases h
        · rename_i u hrest
          exact ⟨length, height, cycle, hlength, hcycle, hrest, (Except.ok.inj h).symm⟩

/-- A tone that can be built is short enough for its cycle to be as long as the exact quotient, cut
to an integer, although the quotient is computed as a double. -/
theorem size_cycle {pitch : Nat} {volume channels : Int} (hpitch : 0 < pitch) (hle : pitch ≤ rate)
    (h : build storage pitch volume rate channels = .ok t) :
    t.rate = rate ∧ t.cycle.size = rate / pitch ∧
      ∃ length, Double.quotient rate pitch = .ok length ∧ length.truncate = t.cycle.size := by
  obtain ⟨length, height, cycle, hlength, hcycle, hrest, rfl⟩ := build_eq_ok h
  have hsecond : roomForSecond storage cycle rate = .ok () := by
    rw [roomForRest, if_neg (by omega), Int.toNat_natCast] at hrest
    cases hs : roomForSecond storage cycle rate with
    | error e =>
      rw [hs] at hrest
      cases hrest
    | ok u => rfl
  have hsmall := lt_of_roomForSecond hsecond
  have hnearest : length = .nearest false rate pitch := by
    rw [Double.quotient_eq_ite (hpitch.trans_le hle) hpitch] at hlength
    split at hlength
    · exact (Except.ok.inj hlength).symm
    · cases hlength
  have htruncate : length.truncate = (rate / pitch : Nat) := by
    rw [hnearest]
    exact Double.truncate_nearest hpitch hle (by omega)
  have hword : Word.Holds length.truncate := by
    have hshort := (Nat.div_le_self rate pitch).trans_lt hsmall
    rw [htruncate]
    generalize rate / pitch = samples at hshort
    exact ⟨by omega, by omega⟩
  have hcount : cycle = rate / pitch := by
    rw [count_of_roomForCycle hcycle, Word.wrap_eq_iff.2 hword, htruncate, Int.toNat_natCast]
  have hsize : (sine height length cycle).size = rate / pitch := by rw [size_sine, hcount]
  exact ⟨Int.toNat_natCast rate, hsize, length, hlength, by rw [htruncate, hsize]⟩

/-- A tone whose pitch is no more than its rate can be built if it has room. It is built
from cycles as long as the quotient of rate and pitch, cut to an integer, and every sample repeats
one of the cycle. Played over and over, it keeps the period of the cycle exactly if its last sample
is the last of a cycle, which it is exactly if the length of the cycle divides the rate. -/
theorem seam_continues_iff (storage : Storage) {pitch volume rate channels : Int}
    (hpitch : 1 ≤ pitch) (hle : pitch ≤ rate) :
    (0 < channels → 32 * (rate * channels) ≤ storage.bytes → volume.natAbs < 2 ^ 1023 →
      ∃ tone, build storage pitch volume rate channels = .ok tone) ∧
    ∀ tone, build storage pitch volume rate channels = .ok tone →
      (∃ length, Double.quotient rate pitch = .ok length ∧
        length.truncate = tone.cycle.size) ∧
      (tone.cycle.size : Int) = rate / pitch ∧ (tone.rate : Int) = rate ∧
      tone.samples.length = tone.rate * tone.channels ∧
      (∀ k < tone.rate, ∀ channel < tone.channels,
        tone.samples[k * tone.channels + channel]? = tone.cycle[k % tone.cycle.size]?) ∧
      (tone.position (tone.rate - 1) = tone.cycle.size - 1 ↔ rate / pitch ∣ rate) ∧
      (Function.Periodic tone.heard tone.cycle.size ↔ rate / pitch ∣ rate) := by
  obtain ⟨n, rfl⟩ := Int.eq_ofNat_of_zero_le (by omega : 0 ≤ rate)
  obtain ⟨d, rfl⟩ := Int.eq_ofNat_of_zero_le (by omega : 0 ≤ pitch)
  have hd : 0 < d := by omega
  have hdn : d ≤ n := by omega
  refine ⟨fun hchannels hsamples hvolume => ?_, fun tone h => ?_⟩
  · obtain ⟨c, rfl⟩ := Int.eq_ofNat_of_zero_le hchannels.le
    have hlead := (Double.le_leadingExponent_iff (hd.trans_le hdn) hd 0).2 (by simpa using hdn)
    exact exists_build hd (hd.trans_le hdn) (by omega) (by omega) (by exact_mod_cast hsamples)
      hvolume
  · obtain ⟨hrate, hsize, hlength⟩ := size_cycle hd hdn h
    have hpos : 0 < tone.cycle.size := by
      rw [hsize]
      exact Nat.div_pos hdn hd
    have hshort : tone.cycle.size ≤ tone.rate := by
      rw [hsize, hrate]
      exact Nat.div_le_self n d
    have hdvd : ((n : Int) / d ∣ n) ↔ tone.cycle.size ∣ tone.rate := by
      rw [hsize, hrate, ← Int.natCast_div, Int.natCast_dvd_natCast]
    refine ⟨hlength, ?_, ?_, tone.length_samples, fun k hk channel hc => ?_, ?_, ?_⟩
    · rw [hsize, Int.natCast_div]
    · rw [hrate]
    · rw [tone.getElem?_samples hk hc, sample_eq hpos]
    · rw [hdvd, position_last_iff hpos (hpos.trans_le hshort)]
    · rw [hdvd, periodic_heard_iff hpos hshort]

/-- A tone with one hundred samples in a cycle and 441 cycles in a second keeps its period. -/
theorem seam_continues_iff_441 :
    (1 : Int) ≤ 441 ∧ (441 : Int) ≤ 44100 ∧ ∃ tone, build .usual 441 4096 44100 1 = .ok tone ∧
      tone.position 44099 = 99 ∧ Function.Periodic tone.heard 100 := by
  have hpitch : (1 : Int) ≤ 441 := by decide
  have hle : (441 : Int) ≤ 44100 := by decide
  obtain ⟨hbuild, hbuilt⟩ := @seam_continues_iff .usual 441 4096 44100 1 hpitch hle
  have hvolume : (4096 : Int).natAbs < 2 ^ 1023 :=
    Nat.lt_of_lt_of_le (by decide) (pow_le_pow_right₀ one_le_two (by decide : 13 ≤ 1023))
  obtain ⟨tone, h⟩ := hbuild (by decide) (by decide) hvolume
  obtain ⟨-, hsize, hrate, -, -, hlast, hperiodic⟩ := hbuilt tone h
  have hdvd : (44100 : Int) / 441 ∣ 44100 := by decide
  have hcycle : tone.cycle.size = 100 := by omega
  have hsecond : tone.rate = 44100 := by omega
  rw [hcycle, hsecond] at hlast
  rw [hcycle] at hperiodic
  exact ⟨hpitch, hle, tone, h, hlast.2 hdvd, hperiodic.2 hdvd⟩

/-- The standard tone has 80 samples in a cycle. Its last sample is number 19 of a cycle, behind
which number 0 follows, so its period is broken once in a second. -/
theorem standard_tone_breaks : ∃ tone, build .usual standardPitch standardVolume 44100 1 = .ok tone ∧
    tone.cycle.size = 80 ∧ tone.position (tone.rate - 1) = 19 ∧
      ¬Function.Periodic tone.heard tone.cycle.size := by
  obtain ⟨tone, h⟩ := build_standard Mixer.standard_usable
  have hpitch : 0 < 550 := by decide
  have hle : 550 ≤ 44100 := by decide
  obtain ⟨hrate, hsize, -⟩ := size_cycle hpitch hle h
  have hcycle : tone.cycle.size = 80 := hsize
  refine ⟨tone, h, hcycle, ?_, ?_⟩
  · rw [position, hcycle, hrate]
  · rw [periodic_heard_iff (by omega) (by omega), hcycle, hrate]
    decide

end Chip8.Tone
