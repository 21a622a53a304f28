/-
Module: MarkPress.Proofs.Render.Bare
Purpose: The output of a source without brackets.
  Its regions lead from the margin back to it. So nothing that has been written is lost, written
  twice or out of order, and paragraphs and blocks stand beside each other, never in each other.
Main exports:
  render_keeps_written, render_paragraphs_apart
-/
import MarkPress.Proofs.Scan.FlatRun

namespace MarkPress

open Html

/-- Without the tags of blocks, the output of a source without brackets is everything that the scan
has written, in the order in which it was written. -/
theorem render_keeps_written (source : Text) (bare : '[' ∉ source) :
    ∃ s html, (Scan.start source).run = .ok s ∧ render source = .ok html
      ∧ Text.delete blockTags html = s.written.reverse.flatten := by
  obtain ⟨s, ran, laid⟩ := Scan.run_laid bare
  refine ⟨s, Export.html s.regions, ran, ?_, ?_⟩
  · rw [render, scan, ran]
    rfl
  · exact laid.laid.delete_html.trans laid.kept

/-- A heading with code in it, and a list. -/
theorem render_keeps_written_list :
    '[' ∉ "# a \x60\x60\x60b\x60\x60\x60\n- *c*".toList
      ∧ ∃ s html, (Scan.start "# a \x60\x60\x60b\x60\x60\x60\n- *c*".toList).run = .ok s
        ∧ render "# a \x60\x60\x60b\x60\x60\x60\n- *c*".toList = .ok html
        ∧ Text.delete blockTags html = s.written.reverse.flatten :=
  ⟨by decide, render_keeps_written _ (by decide)⟩

example :
    (render "# a \x60\x60\x60b\x60\x60\x60\n- *c*".toList).map (Text.delete blockTags)
      = .ok "<a href=\"#a-b\" id=\"a-b\">a b</a><ul><li><strong>c</strong></li></ul>".toList := by
  decide +kernel

/-- In the output of a source without brackets, a paragraph begins only where none is open, ends
only where one is and before the text does, and the tags of blocks stand where none is. No paragraph
is empty. -/
theorem render_paragraphs_apart (source : Text) (bare : '[' ∉ source) :
    ∃ html, render source = .ok html ∧ readParagraphs false html = some false
      ∧ ¬ "<p></p>".toList <:+: html := by
  obtain ⟨s, ran, laid⟩ := Scan.run_laid bare
  refine ⟨Export.html s.regions, ?_, laid.laid.readParagraphs_html, laid.laid.no_empty_paragraph⟩
  rw [render, scan, ran]
  rfl

/-- A block of code between two paragraphs. -/
theorem render_paragraphs_apart_code :
    '[' ∉ "a\n\x60\x60\x60\nb\n\x60\x60\x60\nc".toList
      ∧ ∃ html, render "a\n\x60\x60\x60\nb\n\x60\x60\x60\nc".toList = .ok html
        ∧ readParagraphs false html = some false ∧ ¬ "<p></p>".toList <:+: html :=
  ⟨by decide, render_paragraphs_apart _ (by decide)⟩

end MarkPress
