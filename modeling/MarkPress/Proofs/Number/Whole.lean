/-
Module: MarkPress.Proofs.Number.Whole
Purpose: Natural numbers among the numbers with 53 binary digits.
  A finite number has a rational value, and `toNat?` finds the natural number that is equal to it. A
  natural number below the 53rd power of two is the number nearest to itself. What a larger one is
  rounded to may be infinite, but it does not become small.
Main exports:
  Binary64.value?, Binary64.toNat?_eq_some_iff, Binary64.toNat?_ofDecimal,
  Binary64.le_of_toNat?_ofDecimal
-/
import Mathlib.Algebra.Order.Field.Power
import Mathlib.Data.Nat.Digits.Lemmas
import Mathlib.Data.Rat.Cast.Order
import Mathlib.Tactic.Linarith
import MarkPress.Number.Binary64

namespace MarkPress.Binary64

/-- The rational number that a number is equal to. -/
def value? : Binary64 → Option ℚ
  | .nan => none
  | .infinite _ => none
  | .finite negative significand exponent =>
      some ((if negative then -1 else 1) * significand * 2 ^ exponent)

variable {n m : ℕ}

/-! ### The natural number that a number is equal to -/

/-- A significand behind the point is a natural number if the power of two divides it. -/
theorem mul_zpow_neg_eq_iff (significand k n : ℕ) :
    (significand : ℚ) * 2 ^ (-(k : ℤ)) = n ↔ significand = n * 2 ^ k := by
  have positive : (2 : ℚ) ^ k ≠ 0 := pow_ne_zero k two_ne_zero
  rw [zpow_neg, zpow_natCast, ← div_eq_mul_inv, div_eq_iff positive]
  exact_mod_cast Iff.rfl

/-- Without a sign, the significand times the power of two. -/
theorem toNat?_finite_iff {significand : ℕ} (nonzero : significand ≠ 0) (exponent : ℤ) :
    (finite false significand exponent).toNat? = some n ↔ (significand : ℚ) * 2 ^ exponent = n := by
  rw [toNat?, if_neg nonzero, if_neg Bool.false_ne_true]
  by_cases nonneg : 0 ≤ exponent
  · obtain ⟨k, rfl⟩ := Int.eq_ofNat_of_zero_le nonneg
    rw [if_pos nonneg, Option.some.injEq, Int.toNat_natCast, zpow_natCast]
    exact_mod_cast Iff.rfl
  · obtain ⟨k, power⟩ := Int.eq_ofNat_of_zero_le (show 0 ≤ -exponent by omega)
    obtain rfl : exponent = -(k : ℤ) := by omega
    rw [if_neg nonneg, neg_neg, Int.toNat_natCast, mul_zpow_neg_eq_iff, Nat.pow_eq,
      Option.ite_none_right_eq_some, Option.some.injEq]
    constructor
    · rintro ⟨divides, rfl⟩
      exact (Nat.div_mul_cancel (Nat.dvd_of_mod_eq_zero divides)).symm
    · rintro rfl
      exact ⟨Nat.mul_mod_left n _, Nat.mul_div_cancel n (Nat.two_pow_pos k)⟩

theorem toNat?_eq_some_iff {number : Binary64} :
    number.toNat? = some n ↔ number.value? = some (n : ℚ) := by
  cases number with
  | nan => simp [toNat?, value?]
  | infinite negative => simp [toNat?, value?]
  | finite negative significand exponent =>
      rw [value?, Option.some.injEq]
      by_cases zero : significand = 0
      · subst zero
        rw [toNat?, if_pos rfl, Option.some.injEq, Nat.cast_zero, mul_zero, zero_mul]
        exact_mod_cast Iff.rfl
      cases negative with
      | true =>
          have positive : (0 : ℚ) < significand * 2 ^ exponent :=
            mul_pos (Nat.cast_pos.mpr (Nat.pos_of_ne_zero zero)) (zpow_pos two_pos exponent)
          have below : -1 * (significand : ℚ) * 2 ^ exponent ≠ n := by
            have := Nat.cast_nonneg (α := ℚ) n
            linarith
          simpa [toNat?, zero] using below
      | false =>
          rw [if_neg Bool.false_ne_true, one_mul]
          exact toNat?_finite_iff zero exponent

/-! ### What a natural number is rounded to -/

/-- Nothing is rounded if nothing stands behind the point. -/
theorem roundDiv_one (n : ℕ) : roundDiv n 1 = n := by simp [roundDiv, Nat.mod_one]

/-- The whole part is not rounded away. -/
theorem div_le_roundDiv (num den : ℕ) : num / den ≤ roundDiv num den := by
  rw [roundDiv]
  split
  · exact le_rfl
  · split <;> omega

theorem scale_one_neg (n k : ℕ) : scale n 1 (-(k : ℤ)) = (n * 2 ^ k, 1) := by
  cases k with
  | zero => simp [scale]
  | succ k =>
      rw [scale, if_neg (by omega), neg_neg, Int.toNat_natCast]
      rfl

theorem scale_one (n k : ℕ) : scale n 1 (k : ℤ) = (n, 2 ^ k) := by
  rw [scale, if_pos (Int.natCast_nonneg k), Int.toNat_natCast, one_mul]
  rfl

/-- The number nearest to a ratio, given its exponent and the ratio at that exponent. -/
theorem ofRatio_eq {num den up down : ℕ} {exponent : ℤ} (pos : 0 < num)
    (chosen : max (exponentOf num den) leastExponent = exponent)
    (scaled : scale num den exponent = (up, down)) :
    ofRatio false num den =
      if roundDiv up down = 2 ^ 53 then
        if largestExponent < exponent + 1 then infinite false
        else finite false (2 ^ 52) (exponent + 1)
      else if largestExponent < exponent then infinite false
      else finite false (roundDiv up down) exponent := by
  rw [ofRatio, if_neg (Nat.ne_of_gt pos), chosen]
  dsimp only
  rw [scaled, Nat.pow_eq, Nat.pow_eq]
  dsimp only
  split <;> rfl

/-- A number below the 53rd power of two is shifted until it has 53 digits, and stays as it is. -/
theorem ofRatio_one_of_lt (pos : 0 < n) (small : n < 2 ^ 53) :
    ∃ k : ℕ, ofRatio false n 1 = finite false (n * 2 ^ k) (-k) := by
  obtain ⟨low, high⟩ := scale_exponentOf pos Nat.one_pos
  have notAbove : exponentOf n 1 ≤ 0 := by
    by_contra above
    obtain ⟨k, chosen⟩ := Int.eq_ofNat_of_zero_le (show 0 ≤ exponentOf n 1 - 1 by omega)
    rw [show exponentOf n 1 = ((k + 1 : ℕ) : ℤ) by omega, scale_one] at low
    have shifted : 2 ^ 53 * 2 ^ k ≤ n := by
      rw [Nat.pow_succ] at low
      simp only [Nat.pow_eq] at low
      omega
    have := Nat.mul_le_mul_left (2 ^ 53) (Nat.one_le_two_pow (n := k))
    omega
  obtain ⟨k, negated⟩ := Int.eq_ofNat_of_zero_le (show 0 ≤ -exponentOf n 1 by omega)
  have shift : exponentOf n 1 = -(k : ℤ) := by omega
  rw [shift, scale_one_neg] at high
  have short : k < 53 := by
    refine (Nat.pow_lt_pow_iff_right (a := 2) (by decide)).mp ?_
    exact (Nat.le_mul_of_pos_left (2 ^ k) pos).trans_lt (by simpa using high)
  have chosen : max (exponentOf n 1) leastExponent = -(k : ℤ) := by
    rw [shift, leastExponent]
    omega
  have exactly : roundDiv (n * 2 ^ k) 1 ≠ 2 ^ 53 := by
    rw [roundDiv_one]
    simp only [mul_one] at high
    exact Nat.ne_of_lt high
  have finite : ¬ largestExponent < -(k : ℤ) := by
    rw [largestExponent]
    omega
  refine ⟨k, ?_⟩
  rw [ofRatio_eq pos chosen (scale_one_neg n k), if_neg exactly, if_neg finite, roundDiv_one]

/-- A number from the 53rd power of two on keeps 53 digits before the point. -/
theorem ofRatio_one_of_le (large : 2 ^ 53 ≤ n) :
    ofRatio false n 1 = infinite false
      ∨ ∃ significand k : ℕ, 2 ^ 52 ≤ significand
          ∧ ofRatio false n 1 = finite false significand k := by
  obtain ⟨low, high⟩ := scale_exponentOf (show 0 < n by omega) Nat.one_pos
  have notBelow : 0 ≤ exponentOf n 1 := by
    by_contra below
    obtain ⟨k, chosen⟩ := Int.eq_ofNat_of_zero_le (show 0 ≤ -exponentOf n 1 by omega)
    rw [show exponentOf n 1 = -(k : ℤ) by omega, scale_one_neg] at high
    have := Nat.le_mul_of_pos_right n (Nat.two_pow_pos k)
    simp only [Nat.pow_eq] at high
    omega
  obtain ⟨k, shift⟩ := Int.eq_ofNat_of_zero_le notBelow
  rw [shift, scale_one] at low
  have chosen : max (exponentOf n 1) leastExponent = (k : ℤ) := by
    rw [shift, leastExponent]
    omega
  have digits : 2 ^ 52 ≤ roundDiv n (2 ^ k) :=
    ((Nat.le_div_iff_mul_le (Nat.two_pow_pos k)).mpr low).trans (div_le_roundDiv n (2 ^ k))
  rw [ofRatio_eq (by omega) chosen (scale_one n k)]
  split
  · split
    · exact .inl rfl
    · exact .inr ⟨2 ^ 52, k + 1, le_rfl, rfl⟩
  · split
    · exact .inl rfl
    · exact .inr ⟨_, k, digits, rfl⟩

/-! ### Numbers read from digits -/

/-- More than 400 digits are infinite without being looked at. -/
theorem ofDecimal_whole (pos : 0 < n) :
    ofDecimal false n 0
      = if 400 < (Nat.toDigits 10 n).length then infinite false else ofRatio false n 1 := by
  have one : n * Nat.pow 10 (0 : ℤ).toNat = n := Nat.mul_one n
  rw [ofDecimal, if_neg (Nat.ne_of_gt pos), one]
  simp only [add_zero, le_refl, if_true]
  split
  · rw [if_pos (by omega)]
  · rw [if_neg (by omega), if_neg (by omega)]

/-- A natural number below the 53rd power of two is read exactly. -/
theorem toNat?_ofDecimal (small : n < 2 ^ 53) : (ofDecimal false n 0).toNat? = some n := by
  rcases Nat.eq_zero_or_pos n with rfl | pos
  · rfl
  have short : ¬ 400 < (Nat.toDigits 10 n).length := by
    rw [Nat.not_lt, Nat.length_toDigits_le_iff (by decide) (by decide)]
    calc n < 2 ^ 53 := small
      _ ≤ 10 ^ 53 := Nat.pow_le_pow_left (by decide) 53
      _ ≤ 10 ^ 400 := Nat.pow_le_pow_right (by decide) (by decide)
  obtain ⟨k, nearest⟩ := ofRatio_one_of_lt pos small
  have some : n * 2 ^ k ≠ 0 := Nat.ne_of_gt (Nat.mul_pos pos (Nat.two_pow_pos k))
  rw [ofDecimal_whole pos, if_neg short, nearest, toNat?_finite_iff some, mul_zpow_neg_eq_iff]

/-- A larger one is not read as a small number. -/
theorem le_of_toNat?_ofDecimal (large : 2 ^ 53 ≤ n)
    (found : (ofDecimal false n 0).toNat? = some m) : 2 ^ 52 ≤ m := by
  rw [ofDecimal_whole (by omega)] at found
  split at found
  · cases found
  rcases ofRatio_one_of_le large with infinite | ⟨significand, k, digits, finite⟩
  · rw [infinite] at found
    cases found
  · rw [finite, toNat?_finite_iff (by omega), zpow_natCast] at found
    have whole : significand * 2 ^ k = m := by exact_mod_cast found
    exact digits.trans (whole ▸ Nat.le_mul_of_pos_right significand (Nat.two_pow_pos k))

end MarkPress.Binary64
