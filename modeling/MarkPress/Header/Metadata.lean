/-
Module: MarkPress.Header.Metadata
Purpose: What the header lines of a document say about it.
  Every key is kept as a field. Five keys have a meaning besides: the title and the author, the
  template, the date, and the mark of a static page. Of repeated keys the last one counts, except
  that a template without a name does not take an earlier name away.
Main exports:
  Metadata, Metadata.addLine, Metadata.ofLines
-/
import MarkPress.Dictionary
import MarkPress.Header.Basic
import MarkPress.Header.Date

namespace MarkPress

/-- The facts about a document that its header gives. -/
structure Metadata where
  title : Option Text := none
  author : Option Text := none
  date : Option Date := none
  template : Option Text := none
  isStatic : Bool := false
  /-- Every key with its value, if it has one. -/
  fields : Dictionary (Option Text) := Dictionary.empty
deriving Repr, Inhabited, DecidableEq

namespace Metadata

/-- Add what a line says. -/
def addLine (line : HeaderLine) (facts : Metadata) : Except HeaderError Metadata :=
  match Header.readLine? line.text with
  | none => .error ⟨.invalidLine, line.text, line.number⟩
  | some (key, value) =>
      let facts := { facts with fields := facts.fields.set key value }
      if key = "title".toList then .ok { facts with title := some (value.getD []) }
      else if key = "author".toList then .ok { facts with author := some (value.getD []) }
      else if key = "template".toList then .ok { facts with template := value.or facts.template }
      else if key = "static".toList then .ok { facts with isStatic := true }
      else if key = "date".toList then
        match value with
        | none => .error ⟨.dateWithoutValue, line.text, line.number⟩
        | some value =>
            match Date.parseAt value line.text line.number with
            | .ok date => .ok { facts with date := some date }
            | .error error => .error error
      else .ok facts

/-- Add what lines say, in order, up to the first line with a fault. -/
def addLines : List HeaderLine → Metadata → Except HeaderError Metadata
  | [], facts => .ok facts
  | line :: rest, facts =>
      match addLine line facts with
      | .ok facts => addLines rest facts
      | .error error => .error error

/-- What the lines of a header say together. -/
def ofLines (lines : List HeaderLine) : Except HeaderError Metadata := addLines lines {}

end Metadata

end MarkPress
