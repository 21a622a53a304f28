/-
Module: MarkPress.Proofs.Document.Header
Purpose: A header that is written and compiled again.
  The lines of a document that is written from fields and a body are the lines of the fields, the
  separator and the lines of the body, whatever the body looks like. Each field adds what it says to
  what the fields before it say, so the metadata hold what all of them say together.
Main exports:
  Document.ofFields, Metadata.ofFields, Header.split_ofFields, Metadata.addLine_field,
  Document.compile_ofFields
-/
import Mathlib.Data.List.Induction
import MarkPress.Proofs.Document.Breaks
import MarkPress.Proofs.Document.Fields
import MarkPress.Proofs.Document.Metadata

namespace MarkPress

/-! ### The parts of a document -/

/-- A document as it is written: a line for each field, the separator, and the body. -/
def Document.ofFields (fields : List HeaderField) (body : Text) : Text :=
  Text.unlines (fields.map HeaderField.line ++ ["---".toList, body])

namespace Header

theorem lines_ofFields (fields : List HeaderField) (body : Text) :
    (Document.ofFields fields body).normalizeBreaks.lines
      = fields.map HeaderField.line ++ "---".toList :: body.normalizeBreaks.lines := by
  induction fields with
  | nil =>
      change Text.lines (Text.normalizeBreaks ("---".toList ++ '\n' :: body)) = _
      rw [Text.normalizeBreaks_append_break (by decide), Text.lines_append_break (by decide)]
      rfl
  | cons field rest ih =>
      rw [Document.ofFields, List.map_cons, List.cons_append, Text.unlines_cons _ (by simp),
        Text.normalizeBreaks_append_break field.noReturn_line,
        Text.lines_append_break field.noBreak_line]
      exact congrArg (field.line :: ·) ih

/-- The fields and the body are found again. -/
theorem split_ofFields (fields : List HeaderField) (body : Text) :
    split (Document.ofFields fields body) = ⟨fieldLines 1 fields, body.normalizeBreaks⟩ := by
  rw [split, lines_ofFields, splitLines_fields]
  simp only [Text.unlines_lines]

end Header

/-! ### What fields say -/

/-- The value that a field of a key has, if there is such a field. -/
def valueOf? (key : Text) (fields : List HeaderField) : Option (Option Text) :=
  (fields.find? fun field => field.key = key).map HeaderField.value

/-- What fields say about a document: a title and an author are empty without a value, a template
without a value is none, and a page is static if there is a field for it. -/
def Metadata.ofFields (fields : List HeaderField) : Metadata where
  title := (valueOf? "title".toList fields).map fun value => value.getD []
  author := (valueOf? "author".toList fields).map fun value => value.getD []
  date := (valueOf? "date".toList fields).join.bind fun value => (Date.parse value).toOption
  template := (valueOf? "template".toList fields).join
  isStatic := (valueOf? "static".toList fields).isSome
  fields := Dictionary.ofList (fields.map fun field => (field.key, field.value))

section Fields

variable {fields seen : List HeaderField} {field : HeaderField} {key : Text}

theorem valueOf?_new (new : key ∉ seen.map HeaderField.key) : valueOf? key seen = none := by
  rw [valueOf?, Option.map_eq_none_iff, List.find?_eq_none]
  intro other member same
  exact new (List.mem_map.mpr ⟨other, member, by simpa using same⟩)

/-- One more field, whose key is new. -/
theorem valueOf?_concat (new : field.key ∉ seen.map HeaderField.key) (key : Text) :
    valueOf? key (seen ++ [field])
      = if field.key = key then some field.value else valueOf? key seen := by
  have split : valueOf? key (seen ++ [field])
      = (valueOf? key seen).or (if field.key = key then some field.value else none) := by
    rw [valueOf?, valueOf?, List.find?_append, List.find?_singleton, Option.map_or]
    by_cases same : field.key = key <;> simp [same]
  rw [split]
  by_cases same : field.key = key
  · rw [if_pos same, if_pos same, valueOf?_new (same ▸ new), Option.none_or]
  · rw [if_neg same, if_neg same, Option.or_none]

namespace Metadata

/-- The last field adds what it says. -/
theorem ofFields_concat (new : field.key ∉ seen.map HeaderField.key) :
    ofFields (seen ++ [field]) = (ofFields seen).add field.key field.value := by
  have stored : Dictionary.ofList ((seen ++ [field]).map fun field => (field.key, field.value))
      = (ofFields seen).fields.set field.key field.value := by
    simp [ofFields, Dictionary.ofList]
  simp only [ofFields, add, valueOf?_concat new] at stored ⊢
  congr 1
  · split <;> rfl
  · split <;> rfl
  · split <;> rfl
  · split
    · rename_i isTemplate
      rw [← isTemplate, valueOf?_new new]
      exact (Option.or_none).symm
    · rfl
  · split <;> rfl

/-- The line of a field adds what the field says. -/
theorem addLine_field (number : Int) (new : field.key ∉ seen.map HeaderField.key)
    (dated : Dated field.key field.value) :
    addLine ⟨field.line, number⟩ (ofFields seen) = .ok (ofFields (seen ++ [field])) := by
  rw [ofFields_concat new]
  exact addLine_told field.tells_line dated (ofFields seen)

/-- The lines of fields with different keys add what the fields say, one after another. -/
theorem addLines_fields (number : Nat)
    (distinct : ((seen ++ fields).map HeaderField.key).Nodup)
    (dated : ∀ field ∈ fields, field.key = "date".toList →
      ∃ value date, field.value = some value ∧ Date.parse value = .ok date) :
    addLines (Header.fieldLines number fields) (ofFields seen)
      = .ok (ofFields (seen ++ fields)) := by
  induction fields generalizing number seen with
  | nil => rw [List.append_nil, Header.fieldLines, addLines]
  | cons field rest ih =>
      have new : field.key ∉ seen.map HeaderField.key := by
        intro member
        rw [List.map_append, List.nodup_append] at distinct
        exact distinct.2.2 _ member _ (by simp) rfl
      have regrouped : seen ++ field :: rest = seen ++ [field] ++ rest := by simp
      rw [regrouped] at distinct ⊢
      rw [Header.fieldLines, addLines,
        addLine_field _ new (dated field List.mem_cons_self)]
      exact ih _ distinct fun other member => dated other (List.mem_cons_of_mem _ member)

end Metadata

/-- Pairs with different keys are all stored, and nothing else is. -/
theorem Dictionary.get?_ofList {α : Type} {pairs : List (Text × α)} {key : Text} {value : α}
    (distinct : (pairs.map Prod.fst).Nodup) :
    (ofList pairs).get? key = some value ↔ (key, value) ∈ pairs := by
  induction pairs using List.reverseRecOn with
  | nil => simp [ofList]
  | append_singleton pairs pair ih =>
      have stored : ofList (pairs ++ [pair]) = (ofList pairs).set pair.1 pair.2 := by
        simp [ofList]
      rw [List.map_append, List.nodup_append] at distinct
      obtain ⟨before, -, apart⟩ := distinct
      rw [stored, get?_set, List.mem_append, List.mem_singleton]
      by_cases same : pair.1 = key
      · have absent : (key, value) ∉ pairs := fun member =>
          apart _ (List.mem_map_of_mem member) pair.1 (by simp) same.symm
        rw [if_pos same, Option.some.injEq]
        constructor
        · rintro rfl
          exact .inr (Prod.ext same.symm rfl)
        · rintro (member | rfl)
          · exact absurd member absent
          · rfl
      · have differs : (key, value) ≠ pair := fun eq => same (congrArg Prod.fst eq).symm
        rw [if_neg same, ih before, or_iff_left differs]

end Fields

namespace Document

/-- Compiling a document that is written from fields gives what the fields say and the output of the
body, or the error that the body has no output. -/
theorem compile_fields {fields : List HeaderField}
    (distinct : (fields.map HeaderField.key).Nodup)
    (dated : ∀ field ∈ fields, field.key = "date".toList →
      ∃ value date, field.value = some value ∧ Date.parse value = .ok date) (body : Text) :
    compile (ofFields fields body) = match render body with
      | .ok html => .ok ⟨html, .ofFields fields⟩
      | .error error => .error (.region error) := by
  have facts : Metadata.addLines (Header.fieldLines 1 fields) (.ofFields [])
      = .ok (.ofFields ([] ++ fields)) :=
    Metadata.addLines_fields 1 distinct dated
  have read : Metadata.ofLines (Header.fieldLines 1 fields) = .ok (.ofFields fields) := facts
  rw [compile, Header.split_ofFields]
  dsimp only
  rw [read, render_normalizeBreaks]
  cases render body <;> rfl

/-- A header comes back as it was written: every field with its value and no other, what the fields
with a meaning say, and the body as if it stood alone. Behind a separator any body has empty
metadata. -/
theorem compile_ofFields {fields : List HeaderField}
    (distinct : (fields.map HeaderField.key).Nodup)
    (dated : ∀ field ∈ fields, field.key = "date".toList →
      ∃ value date, field.value = some value ∧ Date.parse value = .ok date) (body : Text) :
    (compile (ofFields fields body) = match render body with
      | .ok html => .ok ⟨html, .ofFields fields⟩
      | .error error => .error (.region error))
    ∧ (∀ key value, (Metadata.ofFields fields).fields.get? key = some value ↔
        ∃ field ∈ fields, field.key = key ∧ field.value = value)
    ∧ compile ("---\n".toList ++ body) = match render body with
      | .ok html => .ok ⟨html, {}⟩
      | .error error => .error (.region error) := by
  refine ⟨compile_fields distinct dated body, fun key value => ?_, ?_⟩
  · have keys : ((fields.map fun field => (field.key, field.value)).map Prod.fst).Nodup := by
      rw [List.map_map]
      exact distinct
    rw [Metadata.ofFields, Dictionary.get?_ofList keys, List.mem_map]
    simp
  · have distinct' : (([] : List HeaderField).map HeaderField.key).Nodup := List.nodup_nil
    exact compile_fields distinct' (fun field member => absurd member List.not_mem_nil) body

/-- A title that looks like a separator, a date, a mark without a value, and a body with a header of
its own. -/
theorem compile_ofFields_nested :
    ∃ fields : List HeaderField, (fields.map HeaderField.key).Nodup
      ∧ ofFields fields "title x\n---\ny".toList
        = "title ---\ndate 2024-2-29\nstatic\n---\ntitle x\n---\ny".toList
      ∧ compile (ofFields fields "title x\n---\ny".toList)
        = .ok ⟨"<section><p>title x</p><hr /><p>y</p></section>".toList, .ofFields fields⟩
      ∧ (Metadata.ofFields fields).fields.get? "title".toList = some (some "---".toList)
      ∧ (Metadata.ofFields fields).date = some ⟨2024, 2, 29, "February 29, 2024".toList⟩
      ∧ compile "---\ntitle x\n---\ny".toList
        = .ok ⟨"<section><p>title x</p><hr /><p>y</p></section>".toList, {}⟩ := by
  let fields : List HeaderField := [
    ⟨"title".toList, some "---".toList, by decide, by decide⟩,
    ⟨"date".toList, some "2024-2-29".toList, by decide, by decide⟩,
    ⟨"static".toList, none, by decide, by decide⟩]
  have body : render "title x\n---\ny".toList
      = .ok "<section><p>title x</p><hr /><p>y</p></section>".toList := by
    decide +kernel
  have distinct : (fields.map HeaderField.key).Nodup := by decide
  have parsed : Date.parse "2024-2-29".toList
      = .ok ⟨2024, 2, 29, "February 29, 2024".toList⟩ := rfl
  have dated : ∀ field ∈ fields, field.key = "date".toList →
      ∃ value date, field.value = some value ∧ Date.parse value = .ok date := by
    intro field member isDate
    simp only [fields, List.mem_cons, List.not_mem_nil, or_false] at member
    rcases member with rfl | rfl | rfl
    · exact absurd isDate (by decide)
    · exact ⟨_, _, rfl, parsed⟩
    · exact absurd isDate (by decide)
  obtain ⟨compiled, stored, alone⟩ := compile_ofFields distinct dated "title x\n---\ny".toList
  rw [body] at compiled alone
  refine ⟨fields, distinct, rfl, compiled, ?_, rfl, alone⟩
  exact (stored _ _).mpr ⟨_, List.mem_cons_self, rfl, rfl⟩

end Document

end MarkPress
