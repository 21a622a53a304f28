/-
Module: MarkPress.Log.Message
Purpose: What a build reports while it is going on.
Main exports:
  Log.Level, Log.Message
-/
import MarkPress.Text.Basic

namespace MarkPress.Log

/-- How much a message matters. -/
inductive Level where
  | debug
  | info
  | error
deriving Repr, Inhabited, DecidableEq

/-- The name of a level. -/
def Level.name : Level → Text
  | .debug => "debug".toList
  | .info => "info".toList
  | .error => "error".toList

/-- A message for a reader of the log. -/
structure Message where
  level : Level
  text : Text
deriving Repr, Inhabited, DecidableEq

end MarkPress.Log
