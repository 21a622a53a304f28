/-
Module: MarkPress.Proofs.Template.Page
Purpose: What a document gives to its template.
  Whatever fields a header has, they can not take the place of the seven variables of a page, and
  no value but the body has markup in it.
Main exports:
  Variables.pageKeys, Variables.ofPage, Variables.get?_ofDocument, Variables.ofDocument_safe
-/
import MarkPress.Proofs.Dictionary
import MarkPress.Proofs.Html.Escape
import MarkPress.Template.Page

namespace MarkPress.Variables

open Html

/-- The names under which every page has a variable. -/
def pageKeys : List Text :=
  ["title".toList, "siteTitle".toList, "template".toList, "author".toList, "date".toList,
    "static".toList, "body".toList]

variable {metadata : Metadata} {body siteTitle key : Text}

/-- The variables that every page has, in the order in which they are stored. -/
def ofPage (metadata : Metadata) (body siteTitle : Text) : List (Text × Text) :=
  let shown (value : Option Text) : Text := if metadata.isStatic then [] else escaped value
  [("title".toList, escaped metadata.title), ("siteTitle".toList, escapeAll siteTitle),
    ("template".toList, escaped metadata.template), ("author".toList, shown metadata.author),
    ("date".toList, shown (metadata.date.map Date.text)),
    ("static".toList, if metadata.isStatic then "static".toList else []), ("body".toList, body)]

/-! ### Fields and page -/

theorem get?_ofFields (fields : Dictionary (Option Text)) (key : Text) :
    (ofFields fields).get? key
      = if Dictionary.reservedKey = key then none else (fields.get? key).map escaped := by
  rw [ofFields, Dictionary.get?_erase, Dictionary.get?_mapValues]

/-- What the page says goes before what a field of the same name says. -/
theorem get?_ofDocument (metadata : Metadata) (body siteTitle key : Text) :
    (ofDocument metadata body siteTitle).get? key
      = ((Dictionary.ofList (ofPage metadata body siteTitle)).get? key).or
        ((ofFields metadata.fields).get? key) :=
  Dictionary.get?_foldl_set (ofPage metadata body siteTitle) (ofFields metadata.fields) key

/-- The page says something about its own names and about no other. -/
theorem isSome_get?_ofPage (metadata : Metadata) (body siteTitle key : Text) :
    ((Dictionary.ofList (ofPage metadata body siteTitle)).get? key).isSome = true
      ↔ key ∈ pageKeys := by
  rw [← Dictionary.mem_keys_iff, Dictionary.mem_keys_ofList]
  rfl

/-- Under every name that is not one of the page's stands the field of that name. -/
theorem get?_field (other : key ∉ pageKeys) :
    (ofDocument metadata body siteTitle).get? key = (ofFields metadata.fields).get? key := by
  rw [← isSome_get?_ofPage metadata body siteTitle, Bool.not_eq_true, Option.isSome_eq_false_iff, Option.isNone_iff_eq_none] at other
  rw [get?_ofDocument, other, Option.none_or]

/-- What stands under the names of the page does not depend on the fields. -/
theorem get?_page (page : key ∈ pageKeys) (fields : Dictionary (Option Text)) :
    (ofDocument { metadata with fields := fields } body siteTitle).get? key
      = (ofDocument metadata body siteTitle).get? key := by
  have same : ofPage { metadata with fields := fields } body siteTitle
      = ofPage metadata body siteTitle := rfl
  obtain ⟨value, stored⟩ := Option.isSome_iff_exists.mp
    ((isSome_get?_ofPage metadata body siteTitle key).mpr page)
  rw [get?_ofDocument, get?_ofDocument, same, stored, Option.some_or, Option.some_or]

/-- A page has the variables of its own and one for every field. -/
theorem mem_keys_ofDocument (unreserved : Dictionary.reservedKey ∉ metadata.fields.keys) :
    key ∈ (ofDocument metadata body siteTitle).keys
      ↔ key ∈ metadata.fields.keys ∨ key ∈ pageKeys := by
  have fields : ((ofFields metadata.fields).get? key).isSome = true
      ↔ key ∈ metadata.fields.keys := by
    rw [get?_ofFields]
    split
    · rename_i reserved
      subst reserved
      simpa using unreserved
    · rw [Option.isSome_map, ← Dictionary.mem_keys_iff]
  rw [Dictionary.mem_keys_iff, get?_ofDocument, Option.isSome_or, Bool.or_eq_true,
    isSome_get?_ofPage, fields, or_comm]

/-! ### Safe values -/

theorem safe_escaped (value : Option Text) : Safe (escaped value) := safe_escapeAll _

/-- Variables whose values can stand anywhere in a page. -/
def AllSafe (values : Variables) : Prop :=
  ∀ key value, values.get? key = some value → Safe value

theorem AllSafe.set {values : Variables} (safe : AllSafe values) (name : Text) {text : Text}
    (safeText : Safe text) : AllSafe (values.set name text) := by
  intro key value stored
  rw [Dictionary.get?_set] at stored
  split at stored
  · cases stored
    exact safeText
  · exact safe key value stored

theorem allSafe_ofFields (fields : Dictionary (Option Text)) : AllSafe (ofFields fields) := by
  intro key value stored
  rw [get?_ofFields] at stored
  split at stored
  · cases stored
  · obtain ⟨field, -, rfl⟩ := Option.map_eq_some_iff.mp stored
    exact safe_escaped field

/-- All values but the body can stand anywhere. -/
theorem safe_of_ne_body (other : key ≠ "body".toList) {value : Text}
    (stored : (ofDocument metadata body siteTitle).get? key = some value) : Safe value := by
  rw [ofDocument, Dictionary.get?_set, if_neg (Ne.symm other)] at stored
  have shown (field : Option Text) :
      Safe (if metadata.isStatic = true then [] else escaped field) := by
    split
    · exact safe_nil
    · exact safe_escaped field
  have mark : Safe (if metadata.isStatic = true then "static".toList else []) := by
    split
    · exact safe_escapeAll "static".toList
    · exact safe_nil
  have fields := allSafe_ofFields metadata.fields
  have named := ((fields.set "title".toList (safe_escaped metadata.title)).set "siteTitle".toList
    (safe_escapeAll siteTitle)).set "template".toList (safe_escaped metadata.template)
  have dated := (named.set "author".toList (shown metadata.author)).set "date".toList
    (shown (metadata.date.map Date.text))
  exact (dated.set "static".toList mark) key value stored

/-- The variables of a page are those of the header's fields and the seven of every page. The body
stands in them as it is, no field changes any of the seven, every other field stands under its own
name with its markup escaped, a static page shows neither author nor date, and every value but the
body can stand anywhere in a page. -/
theorem ofDocument_safe (metadata : Metadata) (body siteTitle : Text)
    (unreserved : Dictionary.reservedKey ∉ metadata.fields.keys) :
    (∀ key, key ∈ (ofDocument metadata body siteTitle).keys
        ↔ key ∈ metadata.fields.keys ∨ key ∈ pageKeys)
      ∧ (ofDocument metadata body siteTitle).get? "body".toList = some body
      ∧ (∀ fields, ∀ key ∈ pageKeys,
          (ofDocument { metadata with fields := fields } body siteTitle).get? key
            = (ofDocument metadata body siteTitle).get? key)
      ∧ (∀ key ∉ pageKeys, (ofDocument metadata body siteTitle).get? key
          = (metadata.fields.get? key).map fun value => escapeAll (value.getD []))
      ∧ (metadata.isStatic = true →
          (ofDocument metadata body siteTitle).get? "author".toList = some []
            ∧ (ofDocument metadata body siteTitle).get? "date".toList = some [])
      ∧ ∀ key value, key ≠ "body".toList →
          (ofDocument metadata body siteTitle).get? key = some value → Safe value := by
  refine ⟨fun key => mem_keys_ofDocument unreserved, ?_, fun fields key page => get?_page page fields,
    ?_, ?_, fun key value other stored => safe_of_ne_body other stored⟩
  · rw [ofDocument, Dictionary.get?_set, if_pos rfl]
  · intro key other
    rw [get?_field other, get?_ofFields]
    split
    · rename_i reserved
      have absent : metadata.fields.get? key = none := by
        rw [← reserved]
        simpa [Dictionary.mem_keys_iff] using unreserved
      rw [absent]
      rfl
    · rfl
  · intro isStatic
    simp [ofDocument, isStatic]

/-- A header that has fields of its own under the names of a page, and one with every character that
is escaped. -/
theorem ofDocument_safe_body :
    ∃ metadata : Metadata, metadata.isStatic = true
      ∧ Dictionary.reservedKey ∉ metadata.fields.keys
      ∧ metadata.fields.get? "body".toList = some (some "<i>".toList)
      ∧ (ofDocument metadata "<p>".toList []).get? "body".toList = some "<p>".toList
      ∧ (ofDocument metadata "<p>".toList []).get? "note".toList
        = some "&amp;lt; &lt;b&gt; &quot;&#39;".toList
      ∧ (ofDocument metadata "<p>".toList []).get? "author".toList = some [] := by
  let fields : Dictionary (Option Text) := Dictionary.ofList
    [("body".toList, some "<i>".toList), ("note".toList, some "&lt; <b> \"'".toList),
      ("static".toList, none)]
  let metadata : Metadata := { author := some "me".toList, isStatic := true, fields := fields }
  have unreserved : Dictionary.reservedKey ∉ metadata.fields.keys := by decide
  obtain ⟨-, bodyKept, -, others, hidden, -⟩ :=
    ofDocument_safe metadata "<p>".toList [] unreserved
  refine ⟨metadata, rfl, unreserved, by decide, bodyKept, ?_, (hidden rfl).1⟩
  rw [others "note".toList (by decide)]
  decide

end MarkPress.Variables
