/-
Module: MarkPress.Number.Reading
Purpose: The number that a text stands for.
  White space around it does not count, and nothing else is zero. Integers may be written in base
  sixteen, eight or two, then without a sign. Decimals may have a sign, a point and a power of ten,
  and need a digit before or behind the point. The infinities are written as a word. Every other
  text is no number.
Main exports:
  Binary64.ofText
-/
import MarkPress.Number.Binary64
import MarkPress.Text.Blank

namespace MarkPress.Binary64

/-- The value of a digit in a base. -/
def digitValue? (base : Nat) (c : Char) : Option Nat :=
  let value? :=
    if c.isDigit then some (c.toNat - '0'.toNat)
    else if 'a' ≤ c ∧ c ≤ 'f' then some (c.toNat - 'a'.toNat + 10)
    else if 'A' ≤ c ∧ c ≤ 'F' then some (c.toNat - 'A'.toNat + 10)
    else none
  value?.filter (· < base)

/-- The integer that a text of digits stands for in a base, behind an integer already read. -/
def integerFrom? (base : Nat) (read : Nat) : Text → Option Nat
  | [] => some read
  | c :: rest =>
      match digitValue? base c with
      | none => none
      | some value => integerFrom? base (base * read + value) rest

/-- The integer that a text of at least one digit stands for in a base. -/
def integer? (base : Nat) (text : Text) : Option Nat :=
  if text.isEmpty then none else integerFrom? base 0 text

/-- The base that the beginning of a text asks for, and the digits behind it. -/
def based? : Text → Option (Nat × Text)
  | '0' :: c :: rest =>
      if c = 'x' ∨ c = 'X' then some (16, rest)
      else if c = 'o' ∨ c = 'O' then some (8, rest)
      else if c = 'b' ∨ c = 'B' then some (2, rest)
      else none
  | _ => none

/-- Take a sign from the beginning of a text: whether it is a minus, and the rest. -/
def takeSign : Text → Bool × Text
  | '-' :: rest => (true, rest)
  | '+' :: rest => (false, rest)
  | text => (false, text)

/-- The power of ten that stands behind the digits of a decimal; zero if nothing does. -/
def power? : Text → Option Int
  | [] => some 0
  | c :: rest =>
      if c = 'e' ∨ c = 'E' then
        let (negative, digits) := takeSign rest
        (integer? 10 digits).map fun n => if negative then -(n : Int) else n
      else none

/-- The number that an unsigned decimal stands for. -/
def decimal? (negative : Bool) (text : Text) : Option Binary64 :=
  let whole := text.takeWhile Char.isDigit
  let (fraction, behind) :=
    match text.dropWhile Char.isDigit with
    | '.' :: rest => (rest.takeWhile Char.isDigit, rest.dropWhile Char.isDigit)
    | rest => ([], rest)
  match integer? 10 (whole ++ fraction), power? behind with
  | some digits, some power => some (ofDecimal negative digits (power - fraction.length))
  | _, _ => none

/-- The number that a text stands for. -/
def ofText (text : Text) : Binary64 :=
  let text := text.trim
  if text.isEmpty then .finite false 0 leastExponent
  else
    match based? text with
    | some (base, digits) =>
        match integer? base digits with
        | some n => ofRatio false n 1
        | none => .nan
    | none =>
        let (negative, body) := takeSign text
        if body = "Infinity".toList then .infinite negative
        else (decimal? negative body).getD .nan

end MarkPress.Binary64
