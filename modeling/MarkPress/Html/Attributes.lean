/-
Module: MarkPress.Html.Attributes
Purpose: The attributes of an element and the text they are written as.
  An attribute may be present without a value: it keeps its place and is not written.
Main exports:
  Attributes, Attributes.toText
-/
import MarkPress.Dictionary
import MarkPress.Html.Escape

namespace MarkPress.Html

/-- Attribute values by name, absent until they are known. -/
abbrev Attributes := Dictionary (Option Text)

/-- One attribute as it stands in a tag, behind a space. -/
def attributeText (name value : Text) : Text :=
  ' ' :: name ++ "=\"".toList ++ escapeAttribute value ++ ['"']

/-- The attributes that have a value, in the order of their names. -/
def Attributes.toText (attributes : Attributes) : Text :=
  attributes.entries.flatMap fun
    | (_, none) => []
    | (name, some value) => attributeText name value

end MarkPress.Html
