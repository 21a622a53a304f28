/-
Module: MarkPress.Template.Basic
Purpose: Filling in the placeholders of a template.
  A placeholder is a name between two pairs of braces, with white space around the name or not. A
  template is read once from left to right, and a value is put in as it is, so a value that looks
  like a placeholder is not filled in again.
Main exports:
  Variables, Template.placeholder?, Template.Piece, Template.pieces, Template.value,
  Template.fill
-/
import MarkPress.Dictionary
import MarkPress.Inherited
import MarkPress.Text.Blank

namespace MarkPress

/-- The values of names in a template. -/
abbrev Variables := Dictionary Text

namespace Template

/-! ### Placeholders -/

/-- The characters of a name. The first one has to be a letter. -/
def isNameChar (c : Char) : Bool := c.isAlphanum || c == '_' || c == '-'

/-- A name at the beginning of a text, and the text behind it. -/
def name? (text : Text) : Option (Text × Text) :=
  match text.takeWhile isNameChar with
  | [] => none
  | first :: more =>
      if first.isAlpha then some (first :: more, text.dropWhile isNameChar) else none

/-- The name of the placeholder at the beginning of a text, and the text behind it. -/
def placeholder? (text : Text) : Option (Text × Text) := do
  let inside ← Text.after? ['\x7b', '\x7b'] text
  let (name, closing) ← name? inside.trimStart
  let behind ← Text.after? ['\x7d', '\x7d'] closing.trimStart
  return (name, behind)

/-- A character of a template, or a placeholder as it is written. -/
inductive Piece where
  | char (c : Char)
  | placeholder (written name : Text)
deriving Repr, Inhabited, DecidableEq

/-- The pieces of a template behind a number of characters that belong to the piece before. -/
def piecesFrom : Nat → Text → List Piece
  | _, [] => []
  | n + 1, _ :: rest => piecesFrom n rest
  | 0, c :: rest =>
      match placeholder? (c :: rest) with
      | none => .char c :: piecesFrom 0 rest
      | some (name, behind) =>
          let length := rest.length - behind.length
          .placeholder (c :: rest.take length) name :: piecesFrom length rest

/-- The pieces of a template. -/
def pieces (template : Text) : List Piece := piecesFrom 0 template

/-! ### Values -/

/-- What a name stands for: the value of its variable, else what it means in every table, else
nothing. -/
def value (values : Variables) (name : Text) : Text :=
  match values.get? name with
  | some value => value
  | none => (Inherited.text? "Object".toList name).getD []

/-- The text of a piece in a page. -/
def fillPiece (values : Variables) : Piece → Text
  | .char c => [c]
  | .placeholder _ name => value values name

/-- A template with its placeholders filled in. -/
def fill (template : Text) (values : Variables) : Text :=
  (pieces template).flatMap (fillPiece values)

end Template

end MarkPress
