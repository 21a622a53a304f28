/-
Module: MarkPress.Proofs.Document.Breaks
Purpose: How line breaks are written does not matter to a document.
  Splitting a document looks at its normalized lines only, and takes the body from them if there is
  a header. Otherwise the body is the text as it is, but a scan normalizes its source again.
Main exports:
  render_normalizeBreaks, Document.compile_normalizeBreaks, Document.compile_unified
-/
import MarkPress.Document
import MarkPress.Proofs.Text.Breaks

namespace MarkPress

/-- The output of a source is that of its normalized text. -/
theorem render_normalizeBreaks (source : Text) : render source.normalizeBreaks = render source := by
  have same : Scan.start source.normalizeBreaks = Scan.start source := by
    rw [Scan.start, Scan.start, Text.normalizeBreaks_idem]
  rw [render, render, scan, scan, same]

namespace Header

/-- The header of a document is that of its normalized text, and so is the output of its body. -/
theorem split_normalizeBreaks (text : Text) :
    (split text.normalizeBreaks).header = (split text).header
      ∧ render (split text.normalizeBreaks).body = render (split text).body := by
  rw [split, split, Text.normalizeBreaks_idem]
  cases splitLines 1 text.normalizeBreaks.lines with
  | none => exact ⟨rfl, render_normalizeBreaks text⟩
  | some parts => exact ⟨rfl, rfl⟩

end Header

namespace Document

theorem compile_normalizeBreaks (text : Text) : compile text.normalizeBreaks = compile text := by
  obtain ⟨header, body⟩ := Header.split_normalizeBreaks text
  rw [compile, compile]
  simp only [header, body]

/-- Two documents that differ only in how their line breaks are written compile to the same, and the
same error refuses them. -/
theorem compile_unified {left right common : Text} (unified : Text.Unified left common)
    (unified' : Text.Unified right common) : compile left = compile right := by
  rw [← compile_normalizeBreaks left, Text.unified_iff.mp unified, ← Text.unified_iff.mp unified',
    compile_normalizeBreaks]

/-- All three breaks in one document, and a document whose fault is on a line behind each of them.
-/
theorem compile_unified_mixed :
    compile "title x\r\n---\r# a\n\rb\\\r\nc\r\n".toList
        = compile "title x\n---\n# a\n\nb\\\nc\n".toList
      ∧ compile "title x\r\n\rdate\n---\r".toList
        = .error (.header ⟨.dateWithoutValue, "date".toList, 3⟩) := by
  constructor
  · exact compile_unified (Text.unified_normalizeBreaks _) (Text.unified_iff.mpr (by decide))
  · exact (compile_unified (Text.unified_normalizeBreaks _)
      (Text.unified_iff.mpr (by decide))).trans
        (show compile "title x\n\ndate\n---\n".toList
          = .error (.header ⟨.dateWithoutValue, "date".toList, 3⟩) from rfl)

end Document

end MarkPress
