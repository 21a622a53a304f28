/-
Module: MarkPress.Proofs.Render.Lists
Purpose: The output of a list whose items stand at any depth.
  Every two spaces of an item's indentation are one level, and a tab is as wide as two spaces. The
  first item may stand at any depth, and the next one any number of levels above or below it.
Main exports:
  render_list
-/
import MarkPress.Proofs.Scan.Lists

namespace MarkPress

open Scan

/-- A list of plain words is rendered item by item, with as many lists begun or ended in front of
each as its depth differs from that of the item before it. -/
theorem render_list {items : List ListItem} (some : items ≠ []) :
    render (Text.unlines (items.map ListItem.source))
      = .ok ("<section>".toList ++ listHtml (-1) items ++ "</section>".toList) :=
  (compiles_list some).render_eq (not_mem_list items (by decide) (by decide) (by decide))

/-- A list that begins three levels deep, leaves two of them at once and begins one again. -/
theorem render_list_jumps :
    ∃ items : List ListItem, items ≠ []
      ∧ Text.unlines (items.map ListItem.source) = "\t \t- a\t <b>\n-c\n   -\t d".toList
      ∧ render "\t \t- a\t <b>\n-c\n   -\t d".toList
        = .ok ("<section><ul><ul><ul><li>a &lt;b&gt;</li></ul></ul><li>c</li><ul><li>d</li></ul>"
          ++ "</ul></section>").toList := by
  have words : WordLine ["a".toList, "<b>".toList] ("a".toList ++ "\t ".toList ++ "<b>".toList) :=
    .words (by decide) (by decide) (List.all_eq_true.mp rfl) (.word (by decide))
  let items : List ListItem :=
    [⟨"\t \t".toList, " ".toList, _, _, List.all_eq_true.mp rfl, List.all_eq_true.mp rfl, words⟩,
      ⟨[], [], _, "c".toList, List.forall_mem_nil _, List.forall_mem_nil _, .word (by decide)⟩,
      ⟨"   ".toList, "\t ".toList, _, "d".toList, List.all_eq_true.mp rfl,
        List.all_eq_true.mp rfl, .word (by decide)⟩]
  have some : items ≠ [] := List.cons_ne_nil _ _
  have source : Text.unlines (items.map ListItem.source) = "\t \t- a\t <b>\n-c\n   -\t d".toList :=
    rfl
  have html : "<section>".toList ++ listHtml (-1) items ++ "</section>".toList
      = ("<section><ul><ul><ul><li>a &lt;b&gt;</li></ul></ul><li>c</li><ul><li>d</li></ul>"
        ++ "</ul></section>").toList := by
    simp [items, listHtml, ListItem.depth, Text.indentWidth, Text.join, Html.escapeText,
      Text.replace, List.replicate]
  refine ⟨items, some, source, ?_⟩
  rw [← source, ← html]
  exact render_list some

end MarkPress
