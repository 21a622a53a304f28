/-
Module: MarkPress.Proofs.Render.Prose
Purpose: The output of paragraphs of plain words, whatever white space stands between them.
  Words of one paragraph have at most one line break between each two of them, and paragraphs have
  at least two. Nothing else of the white space shows in the output.
Main exports:
  Prose, paragraphHtml, output_prose, render_prose
-/
import MarkPress.Proofs.Scan.Prose

namespace MarkPress

open Html Scan

/-! ### Paragraphs of words -/

/-- Paragraphs as they are written: between each two of them stands white space with at least two
line breaks. -/
inductive Prose : List (List Text) → Text → Prop where
  | paragraph {words : List Text} {text : Text} (passage : Passage words text) :
      Prose [words] text
  | paragraphs {words : List Text} {paragraphs : List (List Text)} {text gap rest : Text}
      (passage : Passage words text) (spacing : gap.IsSpacing) (blank : 2 ≤ gap.count '\n')
      (behind : Prose paragraphs rest) : Prose (words :: paragraphs) (text ++ gap ++ rest)

/-- A paragraph in the output: one space between each two words. -/
def paragraphHtml (words : List Text) : Text :=
  "<p>".toList ++ Text.join ' ' (words.map escapeText) ++ "</p>".toList

theorem Prose.not_mem {paragraphs : List (List Text)} {text : Text} (prose : Prose paragraphs text)
    {c : Char} (mark : c ∈ Text.marks) (solid : c ∉ [' ', '\t', '\n']) : c ∉ text := by
  induction prose with
  | paragraph passage => exact passage.not_mem mark solid
  | paragraphs passage spacing blank behind ih =>
      exact List.not_mem_append
        (List.not_mem_append (passage.not_mem mark solid) (spacing.not_mem solid)) ih

/-! ### Their output -/

/-- Paragraphs add their words to the output of a section, however far the first line is indented.
-/
theorem output_prose {issued : List Text} {paragraphs : List (List Text)} {text behind : Text}
    (prose : Prose paragraphs text) (rear : behind.IsSpacing) (indent : Nat) :
    output [.sect] (atParagraph issued 0 indent false (text ++ behind)).complete
      = .ok (paragraphs.flatMap paragraphHtml ++ "</section>".toList) := by
  have bareBehind : '[' ∉ behind := rear.not_mem (by decide)
  induction prose generalizing indent with
  | @paragraph words text passage =>
      obtain ⟨indent', written, reads⟩ := reading_paragraph issued passage bareBehind indent
      rw [complete, reads]
      refine (output_trailing plain_escapeText (escapeText_ne_nil passage.filled) rear
        indent').trans ?_
      rw [escapeText_join, List.flatMap_singleton]
      rfl
  | @paragraphs words paragraphs text gap rest passage spacing blank following ih =>
      have bareRest := List.not_mem_append (following.not_mem (by decide) (by decide)) bareBehind
      have bareGap := List.not_mem_append (spacing.not_mem (by decide)) bareRest
      obtain ⟨indent₁, written, reads⟩ := reading_paragraph issued passage bareGap indent
      obtain ⟨indent₂, ends⟩ := output_apart issued written plain_escapeText
        (escapeText_ne_nil passage.filled) spacing blank bareRest indent₁
      rw [List.append_assoc, List.append_assoc, complete, reads]
      refine ends.trans ?_
      rw [ih, escapeText_join, List.flatMap_cons]
      exact congrArg Except.ok (List.append_assoc ..).symm

/-- Words are rendered with one space between each two of them and paragraphs as elements of one
section, whatever white space they are written with. -/
theorem render_prose {paragraphs : List (List Text)} {text : Text} (before behind : Text)
    (prose : Prose paragraphs text) (front : before.IsSpacing) (rear : behind.IsSpacing) :
    render (before ++ text ++ behind)
      = .ok ("<section>".toList ++ paragraphs.flatMap paragraphHtml ++ "</section>".toList) := by
  have noReturn : '\r' ∉ before ++ (text ++ behind) :=
    List.not_mem_append (front.not_mem (by decide))
      (List.not_mem_append (prose.not_mem (by decide) (by decide)) (rear.not_mem (by decide)))
  obtain ⟨indent, starts⟩ := output_spacing [] front 0 (text ++ behind)
  rw [List.append_assoc, render_eq_continuation, Text.normalizeBreaks_eq noReturn, continuation,
    starts, output_prose prose rear, List.append_assoc]
  rfl

/-- Two paragraphs with indented lines and blank lines around them. -/
theorem render_prose_indented :
    Prose [["a".toList, "<b".toList], ["c".toList]] "a \n\t<b\n \n c".toList
      ∧ Text.IsSpacing "\n ".toList ∧ Text.IsSpacing "\n\n\n".toList
      ∧ render "\n a \n\t<b\n \n c\n\n\n".toList
        = .ok "<section><p>a &lt;b</p><p>c</p></section>".toList :=
  have first : Passage ["a".toList, "<b".toList] "a \n\t<b".toList :=
    @Passage.words "a".toList " \n\t".toList "<b".toList ["<b".toList] (by decide) (by decide)
      (by decide) (by decide) (.word (by decide))
  have prose : Prose [["a".toList, "<b".toList], ["c".toList]] "a \n\t<b\n \n c".toList :=
    @Prose.paragraphs _ _ _ "\n \n ".toList "c".toList first (by decide) (by decide)
      (.paragraph (.word (by decide)))
  ⟨prose, by decide, by decide,
    render_prose "\n ".toList "\n\n\n".toList prose (by decide) (by decide)⟩

end MarkPress
