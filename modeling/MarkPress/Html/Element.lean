/-
Module: MarkPress.Html.Element
Purpose: The elements that a compiled document consists of.
Main exports:
  Element, Element.name, Shape
-/
import MarkPress.Text.Basic

namespace MarkPress.Html

/-- The elements of the output. -/
inductive Element where
  | pre
  | code
  | h1
  | h2
  | h3
  | img
  | a
  | strong
  | em
  | li
  | p
  | sect
  | span
  | hr
  | ul
deriving Repr, Inhabited, DecidableEq

/-- The name that stands in a tag. -/
def Element.name : Element → Text
  | .pre => "pre".toList
  | .code => "code".toList
  | .h1 => "h1".toList
  | .h2 => "h2".toList
  | .h3 => "h3".toList
  | .img => "img".toList
  | .a => "a".toList
  | .strong => "strong".toList
  | .em => "em".toList
  | .li => "li".toList
  | .p => "p".toList
  | .sect => "section".toList
  | .span => "span".toList
  | .hr => "hr".toList
  | .ul => "ul".toList

/-- Which parts of an element are written. -/
inductive Shape where
  /-- The opening tag, the content and the closing tag. -/
  | whole
  /-- The opening tag and the content. -/
  | opening
  /-- The content and the closing tag. -/
  | closing
  /-- One tag that closes itself, without content. -/
  | void
deriving Repr, Inhabited, DecidableEq

end MarkPress.Html
