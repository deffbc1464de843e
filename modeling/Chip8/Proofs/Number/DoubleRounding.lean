import Chip8.Proofs.Number.Rounding

/-!
A fraction is rounded to a double and then to an integer. Both roundings respect the order, also
where the double of a greater fraction has a coarser last place. Below 2 ^ 52 the double is so fine
that only the second rounding is seen: the nearest integer is that of the fraction itself, and so is
the integer part.
-/
namespace Chip8

namespace Double

/-- A fraction rounded to a multiple of `2 ^ e` and then to an integer. -/
def roundVia (e : Int) (n d : Nat) : Nat :=
  roundHalfEven (roundHalfEven (n * 2 ^ (-e).toNat) (d * 2 ^ e.toNat) * 2 ^ e.toNat)
    (2 ^ (-e).toNat)

variable {e k : Int} {n m d : Nat}

theorem round_nearest (n d : Nat) :
    (nearest false n d).round = (roundVia (lastPlace n d) n d : Nat) := by
  simp only [round, nearest, shiftLeft_eq_mul, Nat.one_mul, Bool.false_eq_true, if_false]
  rfl

theorem two_pow_split (h : e ≤ k) :
    2 ^ k.toNat * 2 ^ (-e).toNat = 2 ^ (k - e).toNat * 2 ^ e.toNat * 2 ^ (-k).toNat := by
  rw [← pow_add, ← pow_add, ← pow_add]
  congr 1
  omega

theorem roundVia_mono (e : Int) (hd : 0 < d) (h : n ≤ m) : roundVia e n d ≤ roundVia e m d := by
  have hunit : 0 < d * 2 ^ e.toNat := Nat.mul_pos hd (pow_pos Nat.two_pos _)
  have hpower : 0 < 2 ^ (-e).toNat := pow_pos Nat.two_pos _
  have hplaces : roundHalfEven (n * 2 ^ (-e).toNat) (d * 2 ^ e.toNat) ≤
      roundHalfEven (m * 2 ^ (-e).toNat) (d * 2 ^ e.toNat) :=
    roundHalfEven_mono hunit hunit (Nat.mul_le_mul_right _ (Nat.mul_le_mul_right _ h))
  exact roundHalfEven_mono hpower hpower
    (Nat.mul_le_mul_right _ (Nat.mul_le_mul_right _ hplaces))

/-- A power of two that is a multiple of the last place bounds the rounded fraction from above if
it bounds the fraction, -/
theorem roundVia_le (hd : 0 < d) (he : e ≤ k) (h : n * 2 ^ (-k).toNat ≤ d * 2 ^ k.toNat) :
    roundVia e n d ≤ roundHalfEven (2 ^ k.toNat) (2 ^ (-k).toNat) := by
  have hplaces : roundHalfEven (n * 2 ^ (-e).toNat) (d * 2 ^ e.toNat) ≤ 2 ^ (k - e).toNat := by
    refine roundHalfEven_le (Nat.mul_pos hd (pow_pos Nat.two_pos _)) ?_
    refine Nat.le_of_mul_le_mul_right (c := 2 ^ (-k).toNat) ?_ (pow_pos Nat.two_pos _)
    calc
      n * 2 ^ (-e).toNat * 2 ^ (-k).toNat = n * 2 ^ (-k).toNat * 2 ^ (-e).toNat :=
        Nat.mul_right_comm _ _ _
      _ ≤ d * 2 ^ k.toNat * 2 ^ (-e).toNat := Nat.mul_le_mul_right _ h
      _ = d * (2 ^ (k - e).toNat * 2 ^ e.toNat * 2 ^ (-k).toNat) := by
        rw [Nat.mul_assoc, two_pow_split he]
      _ = 2 ^ (k - e).toNat * (d * 2 ^ e.toNat) * 2 ^ (-k).toNat := by ring
  refine roundHalfEven_mono (pow_pos Nat.two_pos _) (pow_pos Nat.two_pos _) ?_
  rw [two_pow_split he]
  exact Nat.mul_le_mul_right _ (Nat.mul_le_mul_right _ hplaces)

/-- and likewise from below. -/
theorem le_roundVia (hd : 0 < d) (he : e ≤ k) (h : d * 2 ^ k.toNat ≤ n * 2 ^ (-k).toNat) :
    roundHalfEven (2 ^ k.toNat) (2 ^ (-k).toNat) ≤ roundVia e n d := by
  have hplaces : 2 ^ (k - e).toNat ≤ roundHalfEven (n * 2 ^ (-e).toNat) (d * 2 ^ e.toNat) := by
    refine le_roundHalfEven (Nat.mul_pos hd (pow_pos Nat.two_pos _)) ?_
    refine Nat.le_of_mul_le_mul_right (c := 2 ^ (-k).toNat) ?_ (pow_pos Nat.two_pos _)
    calc
      2 ^ (k - e).toNat * (d * 2 ^ e.toNat) * 2 ^ (-k).toNat =
          d * (2 ^ (k - e).toNat * 2 ^ e.toNat * 2 ^ (-k).toNat) := by ring
      _ = d * 2 ^ k.toNat * 2 ^ (-e).toNat := by rw [Nat.mul_assoc d, two_pow_split he]
      _ ≤ n * 2 ^ (-k).toNat * 2 ^ (-e).toNat := Nat.mul_le_mul_right _ h
      _ = n * 2 ^ (-e).toNat * 2 ^ (-k).toNat := Nat.mul_right_comm _ _ _
  refine roundHalfEven_mono (pow_pos Nat.two_pos _) (pow_pos Nat.two_pos _) ?_
  rw [two_pow_split he]
  exact Nat.mul_le_mul_right _ (Nat.mul_le_mul_right _ hplaces)

theorem lt_two_pow_of_leadingExponent_lt (hn : 0 < n) (hd : 0 < d) (h : leadingExponent n d < k) :
    n * 2 ^ (-k).toNat < d * 2 ^ k.toNat :=
  calc
    n * 2 ^ (-k).toNat ≤ n * 2 ^ (-(leadingExponent n d + 1)).toNat :=
      Nat.mul_le_mul_left n (pow_le_pow_right₀ one_le_two (by omega))
    _ < d * 2 ^ (leadingExponent n d + 1).toNat := (leadingExponent_spec hn hd).2
    _ ≤ d * 2 ^ k.toNat := Nat.mul_le_mul_left d (pow_le_pow_right₀ one_le_two (by omega))

theorem leadingExponent_mono (hn : 0 < n) (hd : 0 < d) (h : n ≤ m) :
    leadingExponent n d ≤ leadingExponent m d := by
  by_contra hlt
  have hbelow := lt_two_pow_of_leadingExponent_lt (Nat.lt_of_lt_of_le hn h) hd (Int.not_le.1 hlt)
  have habove := (leadingExponent_spec hn hd).1
  have hle := Nat.mul_le_mul_right (2 ^ (-leadingExponent n d).toNat) h
  omega

/-- A greater fraction is rounded to no smaller integer. Where its last place is coarser, a power of
two lies between the two fractions that is a multiple of both last places. -/
theorem roundVia_lastPlace_mono (hn : 0 < n) (hd : 0 < d) (h : n ≤ m) :
    roundVia (lastPlace n d) n d ≤ roundVia (lastPlace m d) m d := by
  have hm : 0 < m := Nat.lt_of_lt_of_le hn h
  have hlead := leadingExponent_mono hn hd h
  by_cases hplace : lastPlace n d = lastPlace m d
  · rw [hplace]
    exact roundVia_mono _ hd h
  · obtain ⟨k, hk⟩ : ∃ k, leadingExponent m d = k := ⟨_, rfl⟩
    have hspec := (leadingExponent_spec hm hd).1
    unfold lastPlace at hplace
    rw [hk] at hlead hplace hspec
    have hbelow := lt_two_pow_of_leadingExponent_lt hn hd (k := k) (by omega)
    calc
      roundVia (lastPlace n d) n d ≤ roundHalfEven (2 ^ k.toNat) (2 ^ (-k).toNat) :=
        roundVia_le hd (by unfold lastPlace; omega) (Nat.le_of_lt hbelow)
      _ ≤ roundVia (lastPlace m d) m d := le_roundVia hd (by unfold lastPlace; omega) hspec

/-- Below 2 ^ 52 the last place is at most a half. -/
theorem exists_lastPlace_eq (hn : 0 < n) (hd : 0 < d) (h : n < 2 ^ 52) :
    ∃ j : Nat, lastPlace n d = -(j + 1 : Nat) := by
  have hlead : leadingExponent n d < 52 := by
    by_contra hl
    have := (le_leadingExponent_iff hn hd 52).1 (by omega)
    have := Nat.le_mul_of_pos_left (2 ^ 52) hd
    omega
  refine ⟨(-lastPlace n d - 1).toNat, ?_⟩
  unfold lastPlace
  omega

/-- The last place is finer than the denominator unless the fraction is below a half. -/
theorem lt_two_pow_or_two_mul_lt (hn : 0 < n) (hd : 0 < d) (h : n < 2 ^ 52) {j : Nat}
    (hj : lastPlace n d = -(j : Int)) : d < 2 ^ j ∨ 2 * n < d := by
  obtain ⟨hle, hlt⟩ := leadingExponent_spec hn hd
  unfold lastPlace at hj
  generalize leadingExponent n d = l at hle hlt hj
  by_cases hl : -1 ≤ l
  · left
    refine Nat.lt_of_mul_lt_mul_right (a := 2 ^ l.toNat) ?_
    calc
      d * 2 ^ l.toNat ≤ n * 2 ^ (-l).toNat := hle
      _ < 2 ^ 52 * 2 ^ (-l).toNat := Nat.mul_lt_mul_of_pos_right h (pow_pos Nat.two_pos _)
      _ = 2 ^ j * 2 ^ l.toNat := by
        rw [← pow_add, ← pow_add]
        congr 1
        omega
  · right
    have hzero : (l + 1).toNat = 0 := by omega
    rw [hzero, pow_zero, Nat.mul_one] at hlt
    calc
      2 * n = n * 2 ^ 1 := Nat.mul_comm 2 n
      _ ≤ n * 2 ^ (-(l + 1)).toNat :=
        Nat.mul_le_mul_left n (pow_le_pow_right₀ one_le_two (by omega))
      _ < d := hlt

/-- So the double keeps the exact ties, and makes no others. -/
theorem roundVia_lastPlace_eq (hn : 0 < n) (hd : 0 < d) (h : n < 2 ^ 52) :
    roundVia (lastPlace n d) n d = roundHalfEven n d := by
  obtain ⟨j, hj⟩ := exists_lastPlace_eq hn hd h
  have hfine := lt_two_pow_or_two_mul_lt hn hd h hj
  rw [Nat.pow_succ'] at hfine
  rw [hj, roundVia, Int.neg_neg, Int.toNat_natCast, Int.toNat_neg_natCast, pow_zero, Nat.mul_one,
    Nat.mul_one, Nat.pow_succ']
  exact roundHalfEven_twice hd (pow_pos Nat.two_pos j) hfine

/-- On a grid that is finer than the denominator no fraction is rounded up to the next integer. -/
theorem roundHalfEven_mul_div {k : Nat} (hd : 0 < d) (hk : d < k) :
    roundHalfEven (n * k) d / k = n / d := by
  have hnearest := roundHalfEven_nearest (n * k) hd
  have hbelow : n / d * d ≤ n := Nat.div_mul_le_self n d
  have habove : n + 1 ≤ d * (n / d + 1) := Nat.lt_mul_div_succ n hd
  generalize roundHalfEven (n * k) d = m at hnearest ⊢
  generalize n / d = q at hbelow habove ⊢
  refine Nat.div_eq_of_lt_le ?_ ?_
  · have hle : 2 * (q * k) * d ≤ (2 * m + 1) * d :=
      calc
        2 * (q * k) * d = 2 * (q * d * k) := by ring
        _ ≤ 2 * (n * k) := Nat.mul_le_mul_left 2 (Nat.mul_le_mul_right k hbelow)
        _ ≤ (2 * m + 1) * d := hnearest.upper
    have := Nat.le_of_mul_le_mul_right hle hd
    omega
  · by_contra hge
    have hle : 2 * ((n + 1) * k) ≤ 2 * (n * k) + d :=
      calc
        2 * ((n + 1) * k) ≤ 2 * (d * (q + 1) * k) :=
          Nat.mul_le_mul_left 2 (Nat.mul_le_mul_right k habove)
        _ = 2 * ((q + 1) * k) * d := by ring
        _ ≤ 2 * m * d := Nat.mul_le_mul_right d (Nat.mul_le_mul_left 2 (Nat.le_of_not_lt hge))
        _ ≤ 2 * (n * k) + d := hnearest.lower
    rw [Nat.add_mul, Nat.one_mul] at hle
    omega

/-- So the double of a fraction that is not below one has the integer part of the fraction. -/
theorem truncate_nearest (hd : 0 < d) (hle : d ≤ n) (h : n < 2 ^ 52) :
    (nearest false n d).truncate = (n / d : Nat) := by
  have hn : 0 < n := hd.trans_le hle
  obtain ⟨j, hj⟩ := exists_lastPlace_eq hn hd h
  have hfine : d < 2 ^ (j + 1) :=
    (lt_two_pow_or_two_mul_lt hn hd h hj).resolve_right (by omega)
  simp only [truncate, nearest, hj, shiftLeft_eq_mul, Nat.one_mul, Bool.false_eq_true, if_false,
    Int.neg_neg, Int.toNat_natCast, Int.toNat_neg_natCast, pow_zero, Nat.mul_one]
  rw [roundHalfEven_mul_div hd hfine]

end Double

end Chip8
