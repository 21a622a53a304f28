/-
Module: MarkPress.Inherited
Purpose: Names that mean something in every table.
  A table answers some names although nothing is stored under them: each of them stands for a
  function, of which no more than its name is shown. What is stored in a table goes first.
Main exports:
  Inherited.functionNames, Inherited.functionText, Inherited.text?
-/
import MarkPress.Text.Basic

namespace MarkPress.Inherited

/-- The functions that every table has under their own names. -/
def functionNames : List Text :=
  ["hasOwnProperty".toList, "isPrototypeOf".toList, "propertyIsEnumerable".toList,
    "toLocaleString".toList, "toString".toList, "valueOf".toList, "__defineGetter__".toList,
    "__defineSetter__".toList, "__lookupGetter__".toList, "__lookupSetter__".toList]

/-- The text of a function that does not show its code. -/
def functionText (name : Text) : Text :=
  "function ".toList ++ name ++ "() \x7b [native code] \x7d".toList

/-- What a name means in a table that stores nothing under it. The function that makes tables is
called differently from one kind of table to the other. -/
def text? (maker name : Text) : Option Text :=
  if name = "constructor".toList then some (functionText maker)
  else if functionNames.contains name then some (functionText name)
  else none

end MarkPress.Inherited
