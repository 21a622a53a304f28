/-
Module: MarkPress.Text.Quoted
Purpose: A text in double quotes, as error messages show it.
  The quote, the backslash and the control characters below the space are escaped. Five of the
  control characters have a letter of their own, the others are written with four hexadecimal
  digits.
Main exports:
  Text.quoted
-/
import MarkPress.Text.Basic

namespace MarkPress.Text

/-- A character between double quotes. -/
def quotedChar (c : Char) : Text :=
  if c = '"' then ['\\', '"']
  else if c = '\\' then ['\\', '\\']
  else if c = '\n' then ['\\', 'n']
  else if c = '\r' then ['\\', 'r']
  else if c = '\t' then ['\\', 't']
  else if c = '\x08' then ['\\', 'b']
  else if c = '\x0c' then ['\\', 'f']
  else if c.toNat < 0x20 then
    ['\\', 'u', '0', '0', Nat.digitChar (c.toNat / 16), Nat.digitChar (c.toNat % 16)]
  else [c]

/-- A text in double quotes. -/
def quoted (text : Text) : Text := '"' :: text.flatMap quotedChar ++ ['"']

end MarkPress.Text
