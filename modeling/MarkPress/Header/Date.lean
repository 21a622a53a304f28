/-
Module: MarkPress.Header.Date
Purpose: Calendar dates of documents.
  A date is written with four digits for the year and one or two each for the month and the day,
  and has to exist in the Gregorian calendar, extended to all years from 0 to 9999.
Main exports:
  Date, Date.sortKey, Date.parse, Date.format, Date.compare, monthNames, daysInMonth
-/
import MarkPress.Header.Error
import MarkPress.Text.Blank

namespace MarkPress

/-- A date, with the text that shows it to a reader. -/
structure Date where
  year : Nat
  month : Nat
  day : Nat
  text : Text
deriving Repr, Inhabited, DecidableEq

namespace Date

/-- The names of the months. -/
def monthNames : List Text :=
  ["January".toList, "February".toList, "March".toList, "April".toList, "May".toList,
    "June".toList, "July".toList, "August".toList, "September".toList, "October".toList,
    "November".toList, "December".toList]

/-- Whether a year has a leap day. -/
def isLeapYear (year : Nat) : Bool :=
  (year % 4 == 0 && year % 100 != 0) || year % 400 == 0

/-- The number of days of a month. -/
def daysInMonth (year month : Nat) : Nat :=
  if month = 2 then (if isLeapYear year then 29 else 28)
  else if month ∈ [4, 6, 9, 11] then 30
  else 31

/-- The name of a month by its number. No name is known outside of 1 to 12. -/
def monthName (month : Int) : Text :=
  if 1 ≤ month then (monthNames[(month - 1).toNat]?).getD "undefined".toList
  else "undefined".toList

/-- The text of a date: the month, the day and the year. -/
def format (year month day : Int) : Text :=
  monthName month ++ ' ' :: Text.ofInt day ++ ", ".toList ++ Text.ofInt year

/-- The numbers that dates are ordered by, the most important first. -/
def sortKey (date : Date) : List Nat := [date.year, date.month, date.day]

/-! ### Reading -/

/-- The number that a text of digits stands for. -/
def digitsValue (digits : Text) : Nat :=
  digits.foldl (fun n c => 10 * n + (c.toNat - '0'.toNat)) 0

/-- The number that a text stands for, if it consists of as many digits as allowed. -/
def number? (least most : Nat) (text : Text) : Option Nat :=
  if least ≤ text.length ∧ text.length ≤ most ∧ text.all Char.isDigit then
    some (digitsValue text)
  else none

/-- The parts of a text before and behind its first hyphen. -/
def cutAtHyphen? : Text → Option (Text × Text)
  | [] => none
  | c :: rest =>
      if c = '-' then some ([], rest)
      else (cutAtHyphen? rest).map fun (before, behind) => (c :: before, behind)

/-- The year, month and day that a text has the form of. -/
def fields? (text : Text) : Option (Nat × Nat × Nat) := do
  let (year, rest) ← cutAtHyphen? text
  let (month, day) ← cutAtHyphen? rest
  let y ← number? 4 4 year
  let m ← number? 1 2 month
  let d ← number? 1 2 day
  return (y, m, d)

/-- Read a date. The fault is the first that applies: the form, the month, the day. -/
def parse (value : Text) : Except HeaderFault Date :=
  match fields? value.trim with
  | none => .error .invalidDate
  | some (year, month, day) =>
      if month < 1 ∨ 12 < month then .error .monthOutOfRange
      else if day < 1 ∨ daysInMonth year month < day then .error .dayOutOfRange
      else .ok ⟨year, month, day, format year month day⟩

/-- Read a date that stands on a line of a header. -/
def parseAt (value line : Text) (lineNumber : Int) : Except HeaderError Date :=
  match parse value with
  | .ok date => .ok date
  | .error fault => .error ⟨fault, line, lineNumber⟩

/-! ### Order -/

/-- The first difference between two lists of numbers, and zero if there is none. -/
def firstDifference : List Nat → List Nat → Int
  | a :: left, b :: right => if a = b then firstDifference left right else (a : Int) - b
  | _, _ => 0

/-- Negative if the first date comes first, positive if the second does. A date comes before a
missing date. -/
def compare : Option Date → Option Date → Int
  | some a, some b => firstDifference a.sortKey b.sortKey
  | some _, none => -1
  | none, some _ => 1
  | none, none => 0

end Date

end MarkPress
