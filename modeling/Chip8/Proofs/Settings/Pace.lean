import Chip8.Proofs.Number.DoubleRounding
import Chip8.Settings

/-!
The pace of a machine, its instructions for each frame: the quotient of the two rates, rounded to a
double and then to an integer, but at least one. A machine with a higher rate has no lower pace, and
up to rates of 2 ^ 52 the two roundings are one.
-/
namespace Chip8

namespace Settings

open Double

variable {s t : Settings} {d : Nat}

theorem instructionsPerFrame_eq_ite (s : Settings) (hd : 0 < d) :
    s.instructionsPerFrame d = if (nearest false s.rate d).Fits
      then .ok (max 1 (roundVia (lastPlace s.rate d) s.rate d)) else .error .overflow := by
  rw [instructionsPerFrame, quotient_eq_ite s.rate_pos hd]
  split
  · have hcount (r : Nat) : (max 1 (r : Int)).toNat = max 1 r := by omega
    rw [Except.map, round_nearest, hcount]
  · rfl

theorem instructionsPerFrame_eq_ok_iff (hd : 0 < d) {count : Nat} :
    s.instructionsPerFrame d = .ok count ↔ (nearest false s.rate d).Fits ∧
      count = max 1 (roundVia (lastPlace s.rate d) s.rate d) := by
  rw [instructionsPerFrame_eq_ite s hd]
  split
  · rename_i hfits
    rw [Except.ok.injEq, eq_comm, and_iff_right hfits]
  · rename_i hfits
    simp only [reduceCtorEq, hfits, false_and]

theorem instructionsPerFrame_mono (hd : 0 < d) (h : s.rate ≤ t.rate) {few many : Nat}
    (hfew : s.instructionsPerFrame d = .ok few) (hmany : t.instructionsPerFrame d = .ok many) :
    few ≤ many := by
  obtain ⟨-, rfl⟩ := (instructionsPerFrame_eq_ok_iff hd).1 hfew
  obtain ⟨-, rfl⟩ := (instructionsPerFrame_eq_ok_iff hd).1 hmany
  exact max_le_max_left 1 (roundVia_lastPlace_mono s.rate_pos hd h)

theorem instructionsPerFrame_of_lt (hd : 0 < d) (h : s.rate < 2 ^ 52) :
    s.instructionsPerFrame d = .ok (max 1 (roundHalfEven s.rate d)) := by
  have hfar : s.rate < d * 2 ^ 1023 :=
    calc
      s.rate < 2 ^ 52 := h
      _ ≤ 2 ^ 1023 := pow_le_pow_right₀ one_le_two (by decide)
      _ ≤ d * 2 ^ 1023 := Nat.le_mul_of_pos_left _ hd
  rw [instructionsPerFrame_eq_ite s hd, if_pos (fits_nearest_of_lt false s.rate_pos hd hfar),
    roundVia_lastPlace_eq s.rate_pos hd h]

/-- At a positive frame rate the pace is at least one instruction, unless the quotient is too large
for a double, and a faster machine has no slower pace. At rates below 2 ^ 52 there is always a pace,
the exact quotient rounded once. -/
theorem instructionsPerFrame_exact (s : Settings) {f : Int} (hf : 1 ≤ f) :
    (s.instructionsPerFrame f = .error .overflow ∨
      ∃ count, s.instructionsPerFrame f = .ok count ∧ 1 ≤ count) ∧
    (∀ t : Settings, s.rate ≤ t.rate → ∀ few many, s.instructionsPerFrame f = .ok few →
      t.instructionsPerFrame f = .ok many → few ≤ many) ∧
    (s.rate < 2 ^ 52 → ∃ r : Nat, RoundsTo ((s.rate : ℚ) / f) r ∧
      s.instructionsPerFrame f = .ok (max 1 r)) := by
  obtain ⟨d, rfl⟩ := Int.eq_ofNat_of_zero_le (by omega : 0 ≤ f)
  have hd : 0 < d := by omega
  refine ⟨?_, ?_, ?_⟩
  · rw [instructionsPerFrame_eq_ite s hd]
    split
    · exact Or.inr ⟨_, rfl, Nat.le_max_left _ _⟩
    · exact Or.inl rfl
  · intro t hrate few many hfew hmany
    exact instructionsPerFrame_mono hd hrate hfew hmany
  · intro hrate
    rw [Int.cast_natCast]
    exact ⟨_, (roundHalfEven_nearest s.rate hd).roundsTo hd, instructionsPerFrame_of_lt hd hrate⟩

/-- The quotient of 150 and 60 is a tie between 2 and 3 and goes to 2. -/
theorem instructionsPerFrame_exact_tie :
    (1 : Int) ≤ 60 ∧ ({ rate := 150 } : Settings).instructionsPerFrame 60 = .ok 2 ∧
      RoundsTo ((150 : Nat) / (60 : Int)) 2 := by
  have hf : (1 : Int) ≤ 60 := by decide
  have heval : ({ rate := 150 } : Settings).instructionsPerFrame 60 = .ok 2 := by decide
  obtain ⟨-, -, hrounded⟩ := instructionsPerFrame_exact { rate := 150 } hf
  obtain ⟨r, hr, hpace⟩ := hrounded (by decide)
  have hmax : 2 = max 1 r := Except.ok.inj (heval.symm.trans hpace)
  obtain rfl : r = 2 := by omega
  exact ⟨hf, heval, hr⟩

end Settings

end Chip8
