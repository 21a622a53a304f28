/-
Module: MarkPress.Template.Page
Purpose: The variables that a document gives to its template.
  Every value except the body is escaped, since it comes from the header as plain text. The seven
  names of a page are set after the fields of the header, so no field can take their place.
Main exports:
  Variables.ofDocument
-/
import MarkPress.Header.Metadata
import MarkPress.Html.Escape
import MarkPress.Template.Basic

namespace MarkPress.Variables

/-- A value that may be missing, as it stands in a page. -/
def escaped (value : Option Text) : Text := Html.escapeAll (value.getD [])

/-- The fields of a header under their own names. -/
def ofFields (fields : Dictionary (Option Text)) : Variables :=
  (fields.mapValues escaped).erase Dictionary.reservedKey

/-- The variables of a page. A static page shows neither its author nor its date. -/
def ofDocument (metadata : Metadata) (body siteTitle : Text) : Variables :=
  let shown (value : Option Text) : Text := if metadata.isStatic then [] else escaped value
  (((((((ofFields metadata.fields).set
    "title".toList (escaped metadata.title)).set
    "siteTitle".toList (Html.escapeAll siteTitle)).set
    "template".toList (escaped metadata.template)).set
    "author".toList (shown metadata.author)).set
    "date".toList (shown (metadata.date.map Date.text))).set
    "static".toList (if metadata.isStatic then "static".toList else [])).set
    "body".toList body

end MarkPress.Variables
