/-
Module: MarkPress.Html.Escape
Purpose: Entities for the characters that markup gives a meaning, and removal of tags.
  The angle brackets are escaped one kind after the other, and the ampersand first where it is
  escaped at all, so that no replacement touches an entity that an earlier one wrote.
Main exports:
  Html.escapeText, Html.escapeAttribute, Html.escapeAll, Html.stripTags
-/
import MarkPress.Text.Basic

namespace MarkPress.Html

/-- Text between tags: the angle brackets become entities. -/
def escapeText (text : Text) : Text :=
  (text.replace '<' "&lt;".toList).replace '>' "&gt;".toList

/-- The value of an attribute: the double quote becomes an entity too. -/
def escapeAttribute (value : Text) : Text :=
  (escapeText value).replace '"' "&quot;".toList

/-- A value for any place of a page: the ampersand and both quotes become entities too. -/
def escapeAll (text : Text) : Text :=
  ((((text.replace '&' "&amp;".toList).replace '<' "&lt;".toList).replace '>' "&gt;".toList).replace
    '"' "&quot;".toList).replace '\x27' "&#39;".toList

/-- Remove tags, given the text read since an opening bracket that is not closed yet. -/
def stripTagsFrom : Option Text → Text → Text
  | none, [] => []
  | some unfinished, [] => unfinished
  | none, c :: rest =>
      if c = '<' then stripTagsFrom (some ['<']) rest else c :: stripTagsFrom none rest
  | some unfinished, c :: rest =>
      if c = '>' then stripTagsFrom none rest else stripTagsFrom (some (unfinished ++ [c])) rest

/-- A text without its tags: everything from an opening bracket to the next closing one goes. An
opening bracket without a closing one stays, with all that follows. -/
def stripTags (text : Text) : Text := stripTagsFrom none text

end MarkPress.Html
