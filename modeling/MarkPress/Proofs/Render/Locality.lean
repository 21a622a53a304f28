/-
Module: MarkPress.Proofs.Render.Locality
Purpose: The output of two sources with a blank line between them.
  If nothing but list items is open at the end of the first source, a blank line separates the two
  completely: each is rendered as if it were alone, and both together make up the last section of
  the one and the first section of the other.
Main exports:
  render_blank_line
-/
import MarkPress.Proofs.Scan.BlankLine

namespace MarkPress

open Scan

/-- Two sources with a blank line between them are rendered one after the other, if the first one
has no bracket and no heading and nothing but list items is open at its end: the output is that of
the first one without the end of its section and that of the second one without the beginning of
its section. An error of the second source is the error of both. -/
theorem render_blank_line (a b : Text) (noReturn : '\r' ∉ a) (noReturn' : '\r' ∉ b)
    (noBracket : '[' ∉ a) (noSharp : '#' ∉ a) (s : Scan)
    (read : (Scan.start a).steps a.length = .ok s)
    (items : ∀ o ∈ s.opened, o.tag = .listItem) (unescaped : s.escaped = false) :
    (∀ html, render b = .ok html → ∃ before behind,
      render a = .ok (before ++ "</section>".toList) ∧ html = "<section>".toList ++ behind
        ∧ render (a ++ "\n\n".toList ++ b) = .ok (before ++ behind))
      ∧ ∀ error, render b = .error error → render (a ++ "\n\n".toList ++ b) = .error error := by
  have read' : (startAt [] a).reading = .ok s := by
    rw [start, Text.normalizeBreaks_eq noReturn] at read
    exact read
  have all : (startAt [] a).ReadsAll s := (reading_reads (startAt_grounded [] a)).of_ok read'
  have rests : s.Rests := {
    quiet := (steps_quiet _ (startAt_quiet [] noReturn noBracket)).of_ok read'
    read := all.rest
    lines := by
      intro o member
      rw [items o member]
      rfl
    unescaped := unescaped }
  obtain ⟨before, whole, goesOn⟩ := rests.apart read'
  have issued : s.anchorIds = [] := all.anchorIds noSharp
  have noReturns : '\r' ∉ a ++ '\n' :: '\n' :: b := by
    simp [noReturn, noReturn']
  have first : render a = .ok (before ++ "</section>".toList) := by
    rw [render_eq_output, Text.normalizeBreaks_eq noReturn, whole]
  have both : render (a ++ "\n\n".toList ++ b) = (continuation [] b).map (before ++ ·) := by
    rw [List.append_assoc, ← issued, ← goesOn b, render_eq_output]
    exact congrArg (fun source => output [] (startAt [] source).complete)
      (Text.normalizeBreaks_eq noReturns)
  have alone : render b = (continuation [] b).map ("<section>".toList ++ ·) := by
    rw [render_eq_continuation, Text.normalizeBreaks_eq noReturn']
  cases rest : continuation [] b with
  | ok behind =>
      rw [rest] at both alone
      constructor
      · intro html rendered
        rw [alone] at rendered
        cases rendered
        exact ⟨before, behind, first, rfl, both⟩
      · intro error refused
        rw [alone] at refused
        cases refused
  | error e =>
      rw [rest] at both alone
      constructor
      · intro html rendered
        rw [alone] at rendered
        cases rendered
      · intro error refused
        rw [alone] at refused
        cases refused
        exact both

/-- A list whose last item is open, and an image that ends while a heading in it is open. -/
theorem render_blank_line_list :
    ∃ s, '\r' ∉ "*a*\n- b".toList ∧ '\r' ∉ "[a ![b\n# c](u)".toList ∧ '[' ∉ "*a*\n- b".toList
      ∧ '#' ∉ "*a*\n- b".toList ∧ (Scan.start "*a*\n- b".toList).steps 7 = .ok s
      ∧ (∀ o ∈ s.opened, o.tag = .listItem) ∧ s.escaped = false
      ∧ render "*a*\n- b\n\n[a ![b\n# c](u)".toList = .error (.sealed .heading1) := by
  obtain ⟨-, refused⟩ := render_blank_line "*a*\n- b".toList "[a ![b\n# c](u)".toList (by decide)
    (by decide) (by decide) (by decide) _ rfl (by decide) (by decide)
  exact ⟨_, by decide, by decide, by decide, by decide, rfl, by decide, by decide,
    refused (.sealed .heading1) (by decide +kernel)⟩

end MarkPress
