import Chip8.Number.Double
import Mathlib.Tactic.Ring

/-!
When a quotient of positive numbers is too large for a double: from halfway between the largest
double and 2 ^ 1024 on, because a quotient that lies there is rounded to the even neighbour. A
quotient that is not too small for a double does not vanish either.
-/
namespace Chip8

/-- The power here is the one of a monoid. -/
theorem shiftLeft_eq_mul (a k : Nat) : a <<< k = a * 2 ^ k := Nat.shiftLeft_eq a k

/-! Rounding to an integer. -/

theorem roundHalfEven_bounds (a b : Nat) :
    a / b ≤ roundHalfEven a b ∧ roundHalfEven a b ≤ a / b + 1 := by
  simp only [roundHalfEven]
  split
  · omega
  · split <;> omega

theorem roundHalfEven_mul_le (a b : Nat) : roundHalfEven a b * b ≤ a + b :=
  calc
    roundHalfEven a b * b ≤ (a / b + 1) * b := Nat.mul_le_mul_right b (roundHalfEven_bounds a b).2
    _ = a / b * b + b := Nat.succ_mul (a / b) b
    _ ≤ a + b := Nat.add_le_add_right (Nat.div_mul_le_self a b) b

theorem le_roundHalfEven {a b c : Nat} (hb : 0 < b) (h : c * b ≤ a) : c ≤ roundHalfEven a b :=
  ((Nat.le_div_iff_mul_le hb).2 h).trans (roundHalfEven_bounds a b).1

namespace Double

theorem mul_two_pow_lt {x y a b i j : Nat} (hx : x < 2 ^ a) (hy : 2 ^ b ≤ y) (h : a + i = b + j) :
    x * 2 ^ i < y * 2 ^ j :=
  calc
    x * 2 ^ i < 2 ^ a * 2 ^ i := Nat.mul_lt_mul_of_pos_right hx (pow_pos Nat.two_pos i)
    _ = 2 ^ b * 2 ^ j := by rw [← pow_add, ← pow_add, h]
    _ ≤ y * 2 ^ j := Nat.mul_le_mul_right _ hy

variable {n d : Nat}

/-- The leading exponent is that of the greatest power of two that is at most the quotient. -/
theorem leadingExponent_spec (hn : 0 < n) (hd : 0 < d) :
    d * 2 ^ (leadingExponent n d).toNat ≤ n * 2 ^ (-leadingExponent n d).toNat ∧
      n * 2 ^ (-(leadingExponent n d + 1)).toNat < d * 2 ^ (leadingExponent n d + 1).toNat := by
  have hn1 := Nat.log2_self_le (Nat.ne_of_gt hn)
  have hd1 := Nat.log2_self_le (Nat.ne_of_gt hd)
  have hn2 := Nat.lt_log2_self (n := n)
  have hd2 := Nat.lt_log2_self (n := d)
  unfold leadingExponent
  simp only [shiftLeft_eq_mul]
  split
  · rename_i h
    exact ⟨h, mul_two_pow_lt hn2 hd1 (by omega)⟩
  · rename_i h
    refine ⟨Nat.le_of_lt (mul_two_pow_lt hd2 hn1 (by omega)), ?_⟩
    rw [Int.sub_add_cancel]
    exact Nat.lt_of_not_le h

theorem le_leadingExponent_iff (hn : 0 < n) (hd : 0 < d) (k : Nat) :
    (k : Int) ≤ leadingExponent n d ↔ d * 2 ^ k ≤ n := by
  obtain ⟨hle, hlt⟩ := leadingExponent_spec hn hd
  generalize leadingExponent n d = e at hle hlt ⊢
  constructor
  · intro h
    rw [show (-e).toNat = 0 by omega, pow_zero, Nat.mul_one] at hle
    exact (Nat.mul_le_mul_left d (pow_le_pow_right₀ one_le_two (by omega))).trans hle
  · intro h
    by_contra hk
    have hnext : d * 2 ^ (e + 1).toNat ≤ d * 2 ^ k :=
      Nat.mul_le_mul_left d (pow_le_pow_right₀ one_le_two (by omega))
    have hself : n ≤ n * 2 ^ (-(e + 1)).toNat := Nat.le_mul_of_pos_right n (pow_pos Nat.two_pos _)
    omega

/-- A quotient below 2 ^ 1023, far from the limit, fits after rounding. -/
theorem fits_nearest_of_lt (negative : Bool) (hn : 0 < n) (hd : 0 < d) (h : n < d * 2 ^ 1023) :
    (nearest negative n d).Fits := by
  have hlead : leadingExponent n d < 1023 := by
    by_contra hl
    exact Nat.not_le.2 h ((le_leadingExponent_iff hn hd 1023).1 (by omega))
  obtain ⟨e, he⟩ : ∃ e, lastPlace n d = e := ⟨_, rfl⟩
  have hrange : -1074 ≤ e ∧ e ≤ 970 := by
    rw [lastPlace] at he
    omega
  simp only [Fits, nearest, he, shiftLeft_eq_mul, Nat.one_mul]
  -- The places between the last one of the double and the last one of all doubles.
  obtain ⟨q, hq⟩ : ∃ q, (e + 1074).toNat = e.toNat + q := ⟨(e + 1074).toNat - e.toNat, by omega⟩
  have hround := roundHalfEven_mul_le (n * 2 ^ (-e).toNat) (d * 2 ^ e.toNat)
  generalize roundHalfEven (n * 2 ^ (-e).toNat) (d * 2 ^ e.toNat) = significand at hround ⊢
  have hvalue : n * 2 ^ ((-e).toNat + q) < d * 2 ^ 2097 :=
    calc
      n * 2 ^ ((-e).toNat + q) < d * 2 ^ 1023 * 2 ^ ((-e).toNat + q) :=
        Nat.mul_lt_mul_of_pos_right h (pow_pos Nat.two_pos _)
      _ = d * 2 ^ (1023 + ((-e).toNat + q)) := by rw [Nat.mul_assoc, ← pow_add]
      _ ≤ d * 2 ^ 2097 := Nat.mul_le_mul_left d (pow_le_pow_right₀ one_le_two (by omega))
  have hplace : d * 2 ^ (e.toNat + q) ≤ d * 2 ^ 2097 :=
    Nat.mul_le_mul_left d (pow_le_pow_right₀ one_le_two (by omega))
  refine Nat.lt_of_mul_lt_mul_left (a := d) ?_
  calc
    d * (significand * 2 ^ (e + 1074).toNat) = significand * (d * 2 ^ e.toNat) * 2 ^ q := by
      rw [hq, pow_add]
      ring
    _ ≤ (n * 2 ^ (-e).toNat + d * 2 ^ e.toNat) * 2 ^ q := Nat.mul_le_mul_right _ hround
    _ = n * 2 ^ ((-e).toNat + q) + d * 2 ^ (e.toNat + q) := by
      rw [Nat.add_mul, Nat.mul_assoc, Nat.mul_assoc, ← pow_add, ← pow_add]
    _ < d * 2 ^ 2097 + d * 2 ^ 2097 := Nat.add_lt_add_of_lt_of_le hvalue hplace
    _ = d * 2 ^ 2098 := by rw [← Nat.mul_two, Nat.mul_assoc, ← pow_succ]

theorem quotient_eq_ite (hn : 0 < n) (hd : 0 < d) : quotient n d =
    if (nearest false n d).Fits then .ok (nearest false n d) else .error .overflow := by
  have hsign : (decide ((n : Int) < 0) != decide ((d : Int) < 0)) = false := by
    rw [decide_eq_false (by omega), decide_eq_false (by omega)]
    rfl
  rw [quotient, if_neg (by omega), if_neg (by omega)]
  simp only [hsign, Int.natAbs_natCast]

theorem quotient_eq_nearest (hn : 0 < n) (hd : 0 < d) (h : n < d * 2 ^ 1023) :
    quotient n d = .ok (nearest false n d) := by
  rw [quotient_eq_ite hn hd, if_pos (fits_nearest_of_lt false hn hd h)]

/-- The unit of the last place is at most the quotient, unless that lies below all doubles. -/
theorem lastPlace_spec (hn : 0 < n) (hd : 0 < d) (h : -1074 ≤ leadingExponent n d) :
    d * 2 ^ (lastPlace n d).toNat ≤ n * 2 ^ (-lastPlace n d).toNat := by
  have hplace : lastPlace n d ≤ leadingExponent n d := by
    rw [lastPlace]
    omega
  calc
    d * 2 ^ (lastPlace n d).toNat ≤ d * 2 ^ (leadingExponent n d).toNat :=
      Nat.mul_le_mul_left d (pow_le_pow_right₀ one_le_two (by omega))
    _ ≤ n * 2 ^ (-leadingExponent n d).toNat := (leadingExponent_spec hn hd).1
    _ ≤ n * 2 ^ (-lastPlace n d).toNat :=
      Nat.mul_le_mul_left n (pow_le_pow_right₀ one_le_two (by omega))

/-- A quotient that is no smaller than the least double above zero does not vanish. -/
theorem significand_nearest_pos (negative : Bool) (hn : 0 < n) (hd : 0 < d)
    (h : -1074 ≤ leadingExponent n d) : 0 < (nearest negative n d).significand := by
  simp only [nearest, shiftLeft_eq_mul]
  refine le_roundHalfEven (Nat.mul_pos hd (pow_pos Nat.two_pos _)) ?_
  rw [Nat.one_mul]
  exact lastPlace_spec hn hd h

/-- The integer part of a rounded quotient, within generous bounds. -/
theorem truncate_nearest_bounds (hn : 0 < n) (hd : 0 < d) (h : -1074 ≤ leadingExponent n d) :
    0 ≤ (nearest false n d).truncate ∧ (nearest false n d).truncate ≤ 2 * n := by
  have hone := lastPlace_spec hn hd h
  simp only [truncate, nearest, shiftLeft_eq_mul, Nat.one_mul, Bool.false_eq_true, if_false]
  generalize lastPlace n d = e at hone ⊢
  have hround := roundHalfEven_mul_le (n * 2 ^ (-e).toNat) (d * 2 ^ e.toNat)
  generalize roundHalfEven (n * 2 ^ (-e).toNat) (d * 2 ^ e.toNat) = significand at hround
  refine ⟨Int.natCast_nonneg _, Int.ofNat_le.2 (Nat.div_le_of_le_mul ?_)⟩
  calc
    significand * 2 ^ e.toNat ≤ significand * (d * 2 ^ e.toNat) :=
      Nat.mul_le_mul_left _ (Nat.le_mul_of_pos_left _ hd)
    _ ≤ n * 2 ^ (-e).toNat + d * 2 ^ e.toNat := hround
    _ ≤ n * 2 ^ (-e).toNat + n * 2 ^ (-e).toNat := Nat.add_le_add_left hone _
    _ = 2 ^ (-e).toNat * (2 * n) := by ring

end Double

end Chip8
