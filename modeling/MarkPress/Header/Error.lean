/-
Module: MarkPress.Header.Error
Purpose: What can be wrong with a header, and where.
Main exports:
  HeaderFault, HeaderError, HeaderError.message
-/
import MarkPress.Text.Quoted

namespace MarkPress

/-- What is wrong with a line of a header. -/
inductive HeaderFault where
  | invalidLine
  | dateWithoutValue
  | invalidDate
  | monthOutOfRange
  | dayOutOfRange
deriving Repr, Inhabited, DecidableEq

/-- The words for a fault. -/
def HeaderFault.message : HeaderFault → Text
  | .invalidLine => "invalid header line".toList
  | .dateWithoutValue => "date without value".toList
  | .invalidDate => "invalid date".toList
  | .monthOutOfRange => "month out of range".toList
  | .dayOutOfRange => "day out of range".toList

/-- A fault with the line it was found on. -/
structure HeaderError where
  fault : HeaderFault
  line : Text
  lineNumber : Int
deriving Repr, Inhabited, DecidableEq

/-- The text that reports an error: the fault, the number of the line and the quoted line. -/
def HeaderError.message (error : HeaderError) : Text :=
  error.fault.message ++ " at line ".toList ++ Text.ofInt error.lineNumber ++ ": ".toList
    ++ error.line.quoted

end MarkPress
