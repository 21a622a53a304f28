/-
Module: MarkPress.Number.Binary64
Purpose: Numbers with 53 binary digits, as settings hold them.
  A finite number is a significand times a power of two. A ratio becomes the nearest such number,
  and of two nearest ones the one with the even significand. What lies beyond the largest exponent
  is infinite.
Main exports:
  Binary64, Binary64.roundDiv, Binary64.exponentOf, Binary64.ofRatio, Binary64.ofDecimal,
  Binary64.toNat?
-/
import MarkPress.Text.Basic

namespace MarkPress

/-- A number with 53 binary digits, an infinity, or no number. -/
inductive Binary64 where
  | nan
  | infinite (negative : Bool)
  /-- The significand times the power of two of the exponent. -/
  | finite (negative : Bool) (significand : Nat) (exponent : Int)
deriving Repr, Inhabited, DecidableEq

namespace Binary64

/-- The least exponent. -/
def leastExponent : Int := -1074

/-- The largest exponent. -/
def largestExponent : Int := 971

/-- The integer nearest to a quotient; of two, the even one. -/
def roundDiv (num den : Nat) : Nat :=
  let quotient := num / den
  let twice := 2 * (num % den)
  if twice < den then quotient
  else if den < twice then quotient + 1
  else quotient + quotient % 2

/-- The quotient of a ratio by a power of two, as a ratio. -/
def scale (num den : Nat) (exponent : Int) : Nat × Nat :=
  if 0 ≤ exponent then (num, den * Nat.pow 2 exponent.toNat)
  else (num * Nat.pow 2 (-exponent).toNat, den)

/-- The exponent at which the whole part of a positive ratio has 53 digits. The ratio itself is
compared, not what it is rounded to: just below a power of two the two differ by a digit. -/
def exponentOf (num den : Nat) : Int :=
  let guess : Int := (num.log2 : Int) - den.log2 - 52
  let (n, d) := scale num den guess
  if Nat.pow 2 52 * d ≤ n then guess else guess - 1

/-- A scaled ratio is compared with a power of two by comparing products of the ratio itself. -/
theorem scale_le_iff {num den a b k : Nat} {exponent : Int} (h : exponent + k = (a : Int) - b) :
    Nat.pow 2 k * (scale num den exponent).2 ≤ (scale num den exponent).1 ↔
      Nat.pow 2 a * den ≤ Nat.pow 2 b * num := by
  have pow_add (i j : Nat) : Nat.pow 2 (i + j) = Nat.pow 2 i * Nat.pow 2 j := Nat.pow_add 2 i j
  have pow_pos (i : Nat) : 0 < Nat.pow 2 i := Nat.two_pow_pos i
  unfold scale
  split
  next nonneg =>
    obtain ⟨e, rfl⟩ := Int.eq_ofNat_of_zero_le nonneg
    have sums : a = b + (e + k) := by omega
    rw [sums, pow_add, pow_add, Nat.mul_assoc, Nat.mul_le_mul_left_iff (pow_pos b),
      Int.toNat_natCast, Nat.mul_comm (Nat.pow 2 e), Nat.mul_assoc, Nat.mul_comm den]
  next negative =>
    obtain ⟨e, he⟩ := Int.eq_ofNat_of_zero_le (show 0 ≤ -exponent by omega)
    have sums : a + e = b + k := by omega
    have left : Nat.pow 2 a * (Nat.pow 2 k * den) = Nat.pow 2 k * (Nat.pow 2 a * den) :=
      Nat.mul_left_comm _ _ _
    have right : Nat.pow 2 a * (num * Nat.pow 2 e) = Nat.pow 2 k * (Nat.pow 2 b * num) := by
      rw [Nat.mul_comm num, ← Nat.mul_assoc, ← pow_add, sums, pow_add, Nat.mul_comm (Nat.pow 2 b),
        Nat.mul_assoc]
    rw [he, Int.toNat_natCast, ← Nat.mul_le_mul_left_iff (pow_pos a), left, right,
      Nat.mul_le_mul_left_iff (pow_pos k)]

/-- At the exponent of a positive ratio, its whole part has 53 digits. -/
theorem scale_exponentOf {num den : Nat} (positive : 0 < num) (divides : 0 < den) :
    Nat.pow 2 52 * (scale num den (exponentOf num den)).2 ≤ (scale num den (exponentOf num den)).1
      ∧ (scale num den (exponentOf num den)).1
        < Nat.pow 2 53 * (scale num den (exponentOf num den)).2 := by
  have numLow : Nat.pow 2 num.log2 ≤ num := Nat.log2_self_le (Nat.ne_of_gt positive)
  have numHigh : num < Nat.pow 2 (num.log2 + 1) := Nat.lt_log2_self
  have denLow : Nat.pow 2 den.log2 ≤ den := Nat.log2_self_le (Nat.ne_of_gt divides)
  have denHigh : den < Nat.pow 2 (den.log2 + 1) := Nat.lt_log2_self
  generalize guessed : (num.log2 : Int) - den.log2 - 52 = guess
  have chosen : exponentOf num den =
      if Nat.pow 2 52 * (scale num den guess).2 ≤ (scale num den guess).1
      then guess else guess - 1 := by
    subst guessed
    rfl
  have atGuess : guess + (52 : Nat) = (num.log2 : Int) - den.log2 := by omega
  rw [chosen]
  split
  next enough =>
    refine ⟨enough, Nat.not_le.mp fun tooMany => ?_⟩
    have above : guess + (53 : Nat) = ((num.log2 + 1 : Nat) : Int) - den.log2 := by omega
    have high := Nat.mul_lt_mul_of_pos_right numHigh divides
    have low := Nat.mul_le_mul_right num denLow
    have := (scale_le_iff above).mp tooMany
    rw [Nat.mul_comm den] at low
    omega
  next tooFew =>
    constructor
    · have below : guess - 1 + (52 : Nat) = (num.log2 : Int) - (den.log2 + 1 : Nat) := by omega
      have high := Nat.mul_le_mul_right num (Nat.le_of_lt denHigh)
      have low := Nat.mul_le_mul_right den numLow
      rw [Nat.mul_comm den] at high
      exact (scale_le_iff below).mpr (Nat.le_trans low high)
    · refine Nat.not_le.mp fun tooMany => tooFew ?_
      have below : guess - 1 + (53 : Nat) = (num.log2 : Int) - den.log2 := by omega
      exact (scale_le_iff atGuess).mpr ((scale_le_iff below).mp tooMany)

/-- The number nearest to a ratio. Rounding up may bring one digit too many, which is then a power
of two. -/
def ofRatio (negative : Bool) (num den : Nat) : Binary64 :=
  if num = 0 then .finite negative 0 leastExponent
  else
    let exponent := max (exponentOf num den) leastExponent
    let (n, d) := scale num den exponent
    let rounded := roundDiv n d
    let (significand, exponent) :=
      if rounded = Nat.pow 2 53 then (Nat.pow 2 52, exponent + 1) else (rounded, exponent)
    if largestExponent < exponent then .infinite negative
    else .finite negative significand exponent

/-- The number nearest to an integer times a power of ten. The power is looked at first, since far
outside of the range the result does not depend on the digits. -/
def ofDecimal (negative : Bool) (digits : Nat) (exponent : Int) : Binary64 :=
  let places : Int := (Nat.toDigits 10 digits).length + exponent
  if digits = 0 then .finite negative 0 leastExponent
  else if 400 < places then .infinite negative
  else if places < -400 then .finite negative 0 leastExponent
  else if 0 ≤ exponent then ofRatio negative (digits * Nat.pow 10 exponent.toNat) 1
  else ofRatio negative digits (Nat.pow 10 (-exponent).toNat)

/-- The natural number that a number is equal to. Zero with a minus sign is zero. -/
def toNat? : Binary64 → Option Nat
  | .nan => none
  | .infinite _ => none
  | .finite negative significand exponent =>
      if significand = 0 then some 0
      else if negative then none
      else if 0 ≤ exponent then some (significand * Nat.pow 2 exponent.toNat)
      else if significand % Nat.pow 2 (-exponent).toNat = 0 then
        some (significand / Nat.pow 2 (-exponent).toNat)
      else none

end Binary64

end MarkPress
