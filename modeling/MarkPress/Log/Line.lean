/-
Module: MarkPress.Log.Line
Purpose: A log record as one line for a reader.
  The line has the level, the time without the fraction of the second, the file and the message, in
  columns. A text that is no record is passed on as it is.
Main exports:
  Log.formatLine
-/
import MarkPress.Log.Value
import MarkPress.Text.Blank
import MarkPress.Text.Order

namespace MarkPress.Log

/-- The text of a member that is a string. -/
def stringMember? (name : Text) (value : LogValue) : Option Text :=
  match value.member? name with
  | some (.string text) => some text
  | _ => none

/-- Leave out everything from the first point to the end of its line. -/
def dropFraction (time : Text) : Text :=
  time.takeWhile (· != '.') ++ (time.dropWhile (· != '.')).dropWhile fun c => !Text.isTerminator c

/-- The columns of a line. -/
structure Columns where
  level : Nat
  file : Nat
  /-- How much of the name of a file is shown. -/
  shown : Nat
deriving Repr, Inhabited, DecidableEq

/-- Five units for the level and ten for the file, of which nine are used. -/
def columns : Columns := ⟨5, 10, 9⟩

/-- The line for a record whose text is given too: the text stands in for a missing message. -/
def formatRecord (text : Text) (record : LogValue) : Text :=
  let level := (stringMember? "level".toList record).getD []
  let time := dropFraction ((stringMember? "time".toList record).getD [])
  let file := ((stringMember? "file".toList record).getD []).cut columns.shown
  let message := (stringMember? "msg".toList record).getD text
  level.padEnd columns.level ++ ' ' :: time ++ ' ' :: file.padEnd columns.file
    ++ ' ' :: message ++ ['\n']

/-- The line for a text that may be a record. Lists count as records without members. -/
def formatLine (text : Text) : Text :=
  match LogValue.read? text with
  | some (.record members) => formatRecord text (.record members)
  | some (.list items) => formatRecord text (.list items)
  | _ => text ++ ['\n']

end MarkPress.Log
