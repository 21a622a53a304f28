/-
Module: MarkPress.Slug.Basic
Purpose: Slugs, the short texts that name the headings of a document in addresses.
  A slug keeps the letters and numbers of a text in lower case and has one hyphen for every stretch
  of other characters between them.
Main exports:
  Slug.collapse, Slug.trimHyphens, Slug.ofText
-/
import MarkPress.Slug.Lowercase

namespace MarkPress.Slug

/-- Write one hyphen for every stretch of characters that are neither letters nor numbers, given
whether the text goes on from such a stretch. -/
def collapseFrom (inGap : Bool) : Text → Text
  | [] => []
  | c :: rest =>
      if isWord c then c :: collapseFrom false rest
      else if inGap then collapseFrom true rest
      else '-' :: collapseFrom true rest

/-- Write one hyphen for every stretch of characters that are neither letters nor numbers. -/
def collapse (text : Text) : Text := collapseFrom false text

/-- A text without the hyphens before and behind it. -/
def trimHyphens (text : Text) : Text :=
  ((text.dropWhile (· == '-')).reverse.dropWhile (· == '-')).reverse

/-- The slug of a text. -/
def ofText (text : Text) : Text := lowercase (trimHyphens (collapse text))

end MarkPress.Slug
