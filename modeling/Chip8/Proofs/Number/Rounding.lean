import Chip8.Proofs.Number.Quotient
import Mathlib.Algebra.Order.Field.Rat
import Mathlib.Tactic.FieldSimp
import Mathlib.Tactic.Linarith

/-!
Rounding to the nearest integer, a half going to the even neighbour. The integer is determined by
what makes it the nearest, and so rounding respects the order of fractions, and rounding to a fine
grid on the way does no harm: a grid that holds all halves keeps the exact ties, and one that is
finer than the distance of the fraction to a half makes no new ones.
-/
namespace Chip8

/-- The integer `r` is the one nearest to `q`, and of two equally near the even one. -/
structure RoundsTo (q : ℚ) (r : ℤ) : Prop where
  nearest : ∀ k : ℤ, |q - r| ≤ |q - k|
  even : ∀ k : ℤ, k ≠ r → |q - k| = |q - r| → Even r

/-- The integer `c` is the one nearest to `a / b`, and even if it is a half away. -/
structure Nearest (a b c : Nat) : Prop where
  lower : 2 * c * b ≤ 2 * a + b
  upper : 2 * a ≤ (2 * c + 1) * b
  even_of_lower : 2 * c * b = 2 * a + b → c % 2 = 0
  even_of_upper : 2 * a = (2 * c + 1) * b → c % 2 = 0

theorem roundHalfEven_nearest (a : Nat) {b : Nat} (hb : 0 < b) :
    Nearest a b (roundHalfEven a b) := by
  have hrest := Nat.mod_lt a hb
  have ha : 2 * a = 2 * (a / b) * b + 2 * (a % b) := by
    rw [Nat.mul_assoc, ← Nat.mul_add, Nat.mul_comm (a / b), Nat.div_add_mod]
  have hhalf (q : Nat) : (2 * q + 1) * b = 2 * q * b + b := by ring
  have hnext : 2 * (a / b + 1) * b = 2 * (a / b) * b + 2 * b := by ring
  have down (h : 2 * (a % b) ≤ b) (heven : 2 * (a % b) = b → a / b % 2 = 0) :
      Nearest a b (a / b) := by
    constructor <;> rw [ha] <;> try rw [hhalf]
    all_goals omega
  have up (h : b ≤ 2 * (a % b)) (heven : 2 * (a % b) = b → (a / b + 1) % 2 = 0) :
      Nearest a b (a / b + 1) := by
    constructor <;> rw [ha] <;> try rw [hhalf]
    all_goals omega
  simp only [roundHalfEven]
  split
  · exact down (by omega) (by omega)
  · split
    · exact up (by omega) (by omega)
    · rcases Nat.mod_two_eq_zero_or_one (a / b) with heven | hodd
      · rw [heven]
        exact down (by omega) fun _ => heven
      · rw [hodd]
        exact up (by omega) (by omega)

theorem one_le_abs_sub_add_abs_sub (q : ℚ) {k r : ℤ} (h : k ≠ r) : 1 ≤ |q - k| + |q - r| := by
  have hapart : (1 : ℚ) ≤ |(r : ℚ) - k| := by
    have hint : (1 : ℤ) ≤ |r - k| := Int.one_le_abs (sub_ne_zero.2 h.symm)
    exact_mod_cast hint
  calc
    1 ≤ |(r : ℚ) - k| := hapart
    _ = |(q - k) - (q - r)| := by ring_nf
    _ ≤ |q - k| + |q - r| := abs_sub _ _

/-- Two integers are at least one apart, so none but the nearest is less than a half away. -/
theorem roundsTo_of_abs_le {q : ℚ} {r : ℤ} (h : |q - r| ≤ 1 / 2)
    (heven : |q - r| = 1 / 2 → Even r) : RoundsTo q r where
  nearest k := by
    by_cases hk : k = r
    · rw [hk]
    · have := one_le_abs_sub_add_abs_sub q hk
      linarith
  even k hk hsame := by
    have := one_le_abs_sub_add_abs_sub q hk
    exact heven (by linarith)

theorem Nearest.roundsTo {a b c : Nat} (h : Nearest a b c) (hb : 0 < b) :
    RoundsTo ((a : ℚ) / b) c := by
  have hbq : (0 : ℚ) < b := by exact_mod_cast hb
  have hlower : (2 * c * b : ℚ) ≤ 2 * a + b := by exact_mod_cast h.lower
  have hupper : (2 * a : ℚ) ≤ (2 * c + 1) * b := by exact_mod_cast h.upper
  obtain ⟨q, hq⟩ : ∃ q : ℚ, (a : ℚ) / b = q := ⟨_, rfl⟩
  have ha : (a : ℚ) = q * b := by
    rw [← hq]
    field_simp
  rw [ha] at hlower hupper
  rw [hq]
  apply roundsTo_of_abs_le
  · rw [Int.cast_natCast, abs_le]
    have hbelow : 2 * (c : ℚ) ≤ 2 * q + 1 := le_of_mul_le_mul_right (by linarith) hbq
    have habove : 2 * q ≤ 2 * (c : ℚ) + 1 := le_of_mul_le_mul_right (by linarith) hbq
    constructor <;> linarith
  · intro hexact
    rw [Int.cast_natCast] at hexact
    rw [Int.even_coe_nat, Nat.even_iff]
    rcases (abs_eq (by norm_num)).1 hexact with hpos | hneg
    · apply h.even_of_upper
      have heq : (2 * a : ℚ) = (2 * c + 1) * b := by
        rw [ha, ← sub_add_cancel q (c : ℚ), hpos]
        ring
      exact_mod_cast heq
    · apply h.even_of_lower
      have heq : (2 * c * b : ℚ) = 2 * a + b := by
        rw [ha, ← sub_add_cancel q (c : ℚ), hneg]
        ring
      exact_mod_cast heq

/-- What is nearest to a greater fraction is no smaller. -/
theorem Nearest.mono {a b c a' b' c' : Nat} (h : Nearest a b c) (h' : Nearest a' b' c')
    (hb : 0 < b) (hb' : 0 < b') (hle : a * b' ≤ a' * b) : c ≤ c' := by
  by_contra hlt
  -- Otherwise both fractions are the same half between `c'` and its successor `c`.
  have hstep : 2 * (c' + 1) * b ≤ 2 * c * b := Nat.mul_le_mul_right b (by omega)
  have hlow : (2 * c' + 1) * b ≤ 2 * a := by
    have hsum : 2 * (c' + 1) * b = (2 * c' + 1) * b + b := by ring
    have := h.lower
    omega
  have hlow' : (2 * c' + 1) * b * b' ≤ 2 * a * b' := Nat.mul_le_mul_right b' hlow
  have hup' : 2 * a' * b ≤ (2 * c' + 1) * b' * b := Nat.mul_le_mul_right b h'.upper
  have hcross : 2 * a * b' ≤ 2 * a' * b := by
    rw [Nat.mul_assoc, Nat.mul_assoc]
    exact Nat.mul_le_mul_left 2 hle
  have hswap : (2 * c' + 1) * b * b' = (2 * c' + 1) * b' * b := by ring
  have hhalf' : 2 * a' = (2 * c' + 1) * b' :=
    Nat.eq_of_mul_eq_mul_right hb (by omega)
  have hhalf : 2 * a = (2 * c' + 1) * b := Nat.eq_of_mul_eq_mul_right hb' (by omega)
  have heven' := h'.even_of_upper hhalf'
  have hsum : 2 * a + b = 2 * (c' + 1) * b := by
    rw [hhalf]
    ring
  have hnext : c = c' + 1 := by
    have hc := h.lower
    rw [hsum] at hc
    have := Nat.le_of_mul_le_mul_right hc hb
    omega
  have heven := h.even_of_lower (by rw [hnext, hsum])
  omega

variable {a b c d n k : Nat}

theorem roundHalfEven_eq (hb : 0 < b) (h : Nearest a b c) : roundHalfEven a b = c :=
  Nat.le_antisymm ((roundHalfEven_nearest a hb).mono h hb hb (Nat.le_refl _))
    (h.mono (roundHalfEven_nearest a hb) hb hb (Nat.le_refl _))

theorem roundHalfEven_mono {a' b' : Nat} (hb : 0 < b) (hb' : 0 < b') (h : a * b' ≤ a' * b) :
    roundHalfEven a b ≤ roundHalfEven a' b' :=
  (roundHalfEven_nearest a hb).mono (roundHalfEven_nearest a' hb') hb hb' h

theorem roundHalfEven_le (hb : 0 < b) (h : a ≤ c * b) : roundHalfEven a b ≤ c := by
  have hlower := (roundHalfEven_nearest a hb).lower
  have hle : 2 * roundHalfEven a b * b ≤ (2 * c + 1) * b := by
    rw [Nat.add_mul, Nat.one_mul, Nat.mul_assoc 2 c]
    omega
  have := Nat.le_of_mul_le_mul_right hle hb
  omega

/-- An integer that is nearest on a grid of `2 * k` parts is no farther from the fraction. -/
theorem Nearest.of_grid {m r : Nat} (hfine : Nearest (n * (2 * k)) d m) (hone : Nearest n d r)
    (hd : 0 < d) : 2 * r * k ≤ m + k ∧ m ≤ (2 * r + 1) * k := by
  constructor
  · have hle : 4 * (r * k) * d ≤ (2 * m + 2 * k + 1) * d :=
      calc
        4 * (r * k) * d = 2 * r * d * (2 * k) := by ring
        _ ≤ (2 * n + d) * (2 * k) := Nat.mul_le_mul_right _ hone.lower
        _ = 2 * (n * (2 * k)) + 2 * k * d := by ring
        _ ≤ (2 * m + 1) * d + 2 * k * d := Nat.add_le_add_right hfine.upper _
        _ = (2 * m + 2 * k + 1) * d := by ring
    have := Nat.le_of_mul_le_mul_right hle hd
    rw [Nat.mul_assoc]
    omega
  · have hle : 2 * m * d ≤ (2 * ((2 * r + 1) * k) + 1) * d :=
      calc
        2 * m * d ≤ 2 * (n * (2 * k)) + d := hfine.lower
        _ = 2 * n * (2 * k) + d := by ring
        _ ≤ (2 * r + 1) * d * (2 * k) + d :=
          Nat.add_le_add_right (Nat.mul_le_mul_right _ hone.upper) d
        _ = (2 * ((2 * r + 1) * k) + 1) * d := by ring
    have := Nat.le_of_mul_le_mul_right hle hd
    omega

/-- On a grid that is finer than the denominator, a fraction that is not halfway between two
integers is too far from there to be put there: halfway below the nearest one, -/
theorem Nearest.lower_eq_of_grid {m r : Nat} (hfine : Nearest (n * (2 * k)) d m)
    (hone : Nearest n d r) (hgrid : d < 2 * k) (h : 2 * r * (2 * k) = 2 * m + 2 * k) :
    2 * r * d = 2 * n + d := by
  by_contra hne
  have hgap : 2 * r * d + 1 ≤ 2 * n + d := by
    have := hone.lower
    omega
  have hle : 2 * r * d * (2 * k) + 2 * k ≤ 2 * r * d * (2 * k) + d :=
    calc
      2 * r * d * (2 * k) + 2 * k = (2 * r * d + 1) * (2 * k) := by ring
      _ ≤ (2 * n + d) * (2 * k) := Nat.mul_le_mul_right _ hgap
      _ = 2 * (n * (2 * k)) + 2 * k * d := by ring
      _ ≤ (2 * m + 1) * d + 2 * k * d := Nat.add_le_add_right hfine.upper _
      _ = (2 * m + 2 * k) * d + d := by ring
      _ = 2 * r * d * (2 * k) + d := by
        rw [← h]
        ring
  omega

/-- and halfway above it. -/
theorem Nearest.upper_eq_of_grid {m r : Nat} (hfine : Nearest (n * (2 * k)) d m)
    (hone : Nearest n d r) (hgrid : d < 2 * k) (h : 2 * m = (2 * r + 1) * (2 * k)) :
    2 * n = (2 * r + 1) * d := by
  by_contra hne
  have hgap : 2 * n + 1 ≤ (2 * r + 1) * d := by
    have := hone.upper
    omega
  have hle : 2 * n * (2 * k) + 2 * k ≤ 2 * n * (2 * k) + d :=
    calc
      2 * n * (2 * k) + 2 * k = (2 * n + 1) * (2 * k) := by ring
      _ ≤ (2 * r + 1) * d * (2 * k) := Nat.mul_le_mul_right _ hgap
      _ = (2 * r + 1) * (2 * k) * d := by ring
      _ = 2 * m * d := by rw [h]
      _ ≤ 2 * (n * (2 * k)) + d := hfine.lower
      _ = 2 * n * (2 * k) + d := by ring
  omega

theorem Nearest.eq_zero_of_lt {r : Nat} (h : Nearest n d r) (hsmall : 2 * n < d) : r = 0 := by
  have hle : 2 * r * d < 2 * d := by
    have := h.lower
    omega
  have := Nat.lt_of_mul_lt_mul_right hle
  omega

/-- Rounding first to multiples of one part in `2 * k` changes nothing, if that grid is finer than
the denominator or the fraction is below a half. -/
theorem roundHalfEven_twice (hd : 0 < d) (hk : 0 < k) (h : d < 2 * k ∨ 2 * n < d) :
    roundHalfEven (roundHalfEven (n * (2 * k)) d) (2 * k) = roundHalfEven n d := by
  have hfine := roundHalfEven_nearest (n * (2 * k)) hd
  have hone := roundHalfEven_nearest n hd
  generalize roundHalfEven (n * (2 * k)) d = m at hfine ⊢
  generalize roundHalfEven n d = r at hone ⊢
  obtain ⟨hlower, hupper⟩ := hfine.of_grid hone hd
  have hdouble : 2 * r * (2 * k) = 2 * (2 * r * k) := by ring
  have hdouble' : (2 * r + 1) * (2 * k) = 2 * ((2 * r + 1) * k) := by ring
  refine roundHalfEven_eq (by omega) ⟨by omega, by omega, fun heq => ?_, fun heq => ?_⟩
  · rcases h with hgrid | hsmall
    · exact hone.even_of_lower (hfine.lower_eq_of_grid hone hgrid heq)
    · rw [hone.eq_zero_of_lt hsmall]
  · rcases h with hgrid | hsmall
    · exact hone.even_of_upper (hfine.upper_eq_of_grid hone hgrid heq)
    · rw [hone.eq_zero_of_lt hsmall]

end Chip8
