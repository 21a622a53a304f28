/-
Module: MarkPress.Html.Markup
Purpose: The text of an element.
Main exports:
  Element.openTag, Element.closeTag, Element.voidTag, Html.write
-/
import MarkPress.Html.Attributes
import MarkPress.Html.Element

namespace MarkPress.Html

/-- The tag that opens an element. -/
def Element.openTag (element : Element) (attributes : Attributes) : Text :=
  '<' :: element.name ++ attributes.toText ++ ['>']

/-- The tag that closes an element. -/
def Element.closeTag (element : Element) : Text :=
  "</".toList ++ element.name ++ ['>']

/-- The tag of an element without content. -/
def Element.voidTag (element : Element) (attributes : Attributes) : Text :=
  '<' :: element.name ++ attributes.toText ++ " />".toList

/-- Write the parts of an element that its shape has. Without an element the content stands alone,
and the void shape has none. -/
def write (element : Option Element) (attributes : Attributes) (content : Text) :
    Shape → Text
  | .void =>
      match element with
      | none => []
      | some e => e.voidTag attributes
  | .whole =>
      match element with
      | none => content
      | some e => e.openTag attributes ++ content ++ e.closeTag
  | .opening =>
      match element with
      | none => content
      | some e => e.openTag attributes ++ content
  | .closing =>
      match element with
      | none => content
      | some e => content ++ e.closeTag

end MarkPress.Html
