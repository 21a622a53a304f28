/-
Module: MarkPress.Site.Page
Purpose: The pages of a site and their order.
  Pages with a date come first, the latest one at the front. Pages of one date, and pages without a
  date, stand in the order of their sources.
Main exports:
  Page, Page.compare, Page.sort
-/
import MarkPress.Header.Metadata

namespace MarkPress

/-- A page that was made from a document. -/
structure Page where
  /-- The path of the document below the folder of the sources. -/
  source : Text
  /-- The path of the page below the folder of the output. -/
  output : Text
  template : Text
  metadata : Metadata
deriving Repr, Inhabited, DecidableEq

namespace Page

/-- The title of a page, empty if its document has none. -/
def title (page : Page) : Text := page.metadata.title.getD []

/-- The date of a page, if its document has one. -/
def date (page : Page) : Option Date := page.metadata.date

/-- How two pages compare: the lesser one stands first. -/
def compare (left right : Page) : Ordering :=
  match left.date, right.date with
  | some _, none => .lt
  | none, some _ => .gt
  | earlier, later =>
      let difference := Date.compare later earlier
      if difference < 0 then .lt
      else if 0 < difference then .gt
      else Text.compare left.source right.source

/-- The pages of a site in order. Pages that compare equal keep their places. -/
def sort (pages : List Page) : List Page :=
  pages.mergeSort fun left right => compare left right != .gt

end Page

end MarkPress
