/-
Module: MarkPress.Number.Shortest
Purpose: The text of a number: the fewest decimal digits that are read back as the same number, and
  of those the nearest.
  Numbers of up to 21 digits before the point, and small ones with up to six zeros behind it, are
  written in positions. All others have one digit before the point and a power of ten.
Main exports:
  Shortest.digits, Binary64.style, Binary64.toText
-/
import MarkPress.Number.Binary64

namespace MarkPress

namespace Shortest

/-- The number of digits before the point, or minus the number of zeros behind it, of a positive
ratio: the power of ten that is just above it. -/
def magnitude (num den : Nat) : Int :=
  if den ≤ num then (Nat.toDigits 10 (num / den)).length
  else
    match (List.range 400).find? fun zeros => den ≤ num * Nat.pow 10 (zeros + 1) with
    | some zeros => -(zeros : Int)
    | none => -400

/-- The two neighbours of a ratio among the decimals with a number of digits, as integers in units
of the last digit, the nearer one first. -/
def neighbours (num den count : Nat) : List Nat :=
  let shift := (count : Int) - magnitude num den
  let num := num * Nat.pow 10 shift.toNat
  let den := den * Nat.pow 10 (-shift).toNat
  let low := num / den
  let twice := 2 * (num % den)
  if twice < den ∨ (twice = den ∧ low % 2 = 0) then [low, low + 1] else [low + 1, low]

/-- The nearest decimal with a number of digits that is read back as a given number. -/
def decimal? (value : Binary64) (num den count : Nat) : Option (Nat × Int) :=
  let unit := magnitude num den - count
  ((neighbours num den count).find? fun digits =>
    Binary64.ofDecimal false digits unit = value).map fun digits => (digits, unit)

/-- The fewest digits that are read back as a positive finite number, without zeros at the end, and
the place of the point counted from the first of them. -/
def digits (significand : Nat) (exponent : Int) : Text × Int :=
  let num := significand * Nat.pow 2 exponent.toNat
  let den := Nat.pow 2 (-exponent).toNat
  let value := Binary64.finite false significand exponent
  match (List.range' 1 17).findSome? (decimal? value num den) with
  | none => ([], 0)
  | some (digits, unit) =>
      let text := Nat.toDigits 10 digits
      ((text.reverse.dropWhile (· == '0')).reverse, text.length + unit)

end Shortest

/-- Which numbers are written in positions. -/
structure DecimalStyle where
  /-- The most digits before the point. -/
  mostDigits : Int
  /-- The most zeros directly behind the point. -/
  mostZeros : Int
deriving Repr, Inhabited, DecidableEq

namespace Binary64

/-- Numbers below a sextillion are written in positions, from a millionth on. -/
def style : DecimalStyle := ⟨21, 5⟩

/-- Digits with a point at a place counted from the first of them. -/
def placePoint (digits : Text) (point : Int) : Text :=
  if 0 < point then
    if digits.length ≤ point then digits ++ List.replicate (point.toNat - digits.length) '0'
    else digits.take point.toNat ++ '.' :: digits.drop point.toNat
  else "0.".toList ++ List.replicate (-point).toNat '0' ++ digits

/-- Digits with a point behind the first of them, and a power of ten. -/
def powerForm (digits : Text) (power : Int) : Text :=
  let sign := if power < 0 then '-' else '+'
  let front :=
    match digits with
    | first :: second :: rest => first :: '.' :: second :: rest
    | _ => digits
  front ++ 'e' :: sign :: Text.ofNat power.natAbs

/-- The text of a number. Zero has no sign. -/
def toText : Binary64 → Text
  | .nan => "NaN".toList
  | .infinite negative => (if negative then ['-'] else []) ++ "Infinity".toList
  | .finite negative significand exponent =>
      if significand = 0 then ['0']
      else
        let (digits, point) := Shortest.digits significand exponent
        let body :=
          if -style.mostZeros ≤ point ∧ point ≤ style.mostDigits then placePoint digits point
          else powerForm digits (point - 1)
        (if negative then ['-'] else []) ++ body

end Binary64

end MarkPress
