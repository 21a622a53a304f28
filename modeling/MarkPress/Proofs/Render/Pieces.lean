/-
Module: MarkPress.Proofs.Render.Pieces
Purpose: The output of regions, read from the first one on.
  Regions that do not appear, empty paragraphs and surplus ends of paragraphs add nothing, wherever
  they stand. Whole elements, filled paragraphs and the ends of sections add their own text.
Main exports:
  Export.htmlIn_congr, htmlIn_whole, htmlIn_text, htmlIn_paragraphBegin, htmlIn_paragraphEnd,
  htmlIn_paragraph, htmlIn_emptyParagraph, htmlIn_surplusEnd, htmlIn_sectionBegin,
  htmlIn_sectionEnd
-/
import MarkPress.Proofs.Render.Zone

namespace MarkPress.Export

open Html

variable {opened : List Element} {region : Region} {regions : List Region}

/-- Only a region that opens an element begins a pair. -/
theorem isEmptyPair_of_shape (shape : region.tag.traits.shape ≠ .opening) (next : Region) :
    isEmptyPair region next = false := by
  simp [isEmptyPair, isPair, shape]

/-- A region that begins no pair stays in front of the others. -/
theorem htmlIn_kept (shown : region.isShown = true)
    (apart : ∀ next, isEmptyPair region next = false) :
    htmlIn opened (region :: regions)
      = (dropOrphans id opened
          (region :: dropEmptyPairs id (regions.filter Region.isShown))).flatMap Region.render := by
  rw [htmlIn, List.filter_cons_of_pos shown]
  cases regions.filter Region.isShown with
  | nil => rfl
  | cons next rest =>
      rw [dropEmptyPairs]
      exact congrArg (fun items => (dropOrphans id opened items).flatMap Region.render)
        (if_neg (by simp [apart]))

/-- Only the regions that appear make a difference. -/
theorem htmlIn_congr {others : List Region}
    (same : regions.filter Region.isShown = others.filter Region.isShown) :
    htmlIn opened regions = htmlIn opened others := by
  rw [htmlIn, same, htmlIn]

theorem htmlIn_whole (shown : region.isShown = true)
    (whole : region.tag.traits.shape = .whole ∨ region.tag.traits.shape = .void) :
    htmlIn opened (region :: regions) = region.render ++ htmlIn opened regions := by
  have apart : ∀ next, isEmptyPair region next = false :=
    isEmptyPair_of_shape (by rcases whole with whole | whole <;> simp [whole])
  have stays : ∀ rest, dropOrphans id opened (region :: rest)
      = region :: dropOrphans id opened rest := by
    intro rest
    rw [dropOrphans]
    rcases whole with whole | whole <;> simp only [id, whole] <;>
      cases region.tag.traits.element <;> rfl
  rw [htmlIn_kept shown apart, stays, List.flatMap_cons, htmlIn]

/-! ### Paragraphs -/

theorem htmlIn_emptyParagraph :
    htmlIn opened (.ofTag .paragraphBegin :: .ofTag .text :: .ofTag .paragraphEnd :: regions)
      = htmlIn opened regions :=
  rfl

/-- The end of a paragraph that is not open is left out. -/
theorem htmlIn_surplusEnd (closed : .p ∉ opened) :
    htmlIn opened (.ofTag .paragraphEnd :: regions) = htmlIn opened regions := by
  rw [htmlIn_kept rfl (isEmptyPair_of_shape (by decide)), dropOrphans]
  exact congrArg (List.flatMap Region.render) (if_neg closed)

theorem isEmpty_text {text : Text} (some : text ≠ []) :
    ((Region.ofTag .text).extend text).isEmpty = false := by
  simp [Region.isEmpty_eq, some]

theorem isShown_text {text : Text} (some : text ≠ []) :
    ((Region.ofTag .text).extend text).isShown = true := by
  rw [Region.isShown, isEmpty_text some]
  rfl

theorem htmlIn_text {text : Text} (some : text ≠ []) :
    htmlIn opened ((Region.ofTag .text).extend text :: regions)
      = text ++ htmlIn opened regions := by
  have inner : ((Region.ofTag .text).extend text).render = text := by
    change ((Region.ofTag .text).extend text).inner = text
    simp
  rw [htmlIn_whole (isShown_text some) (.inl rfl), inner]

/-- A paragraph begins in front of a region that is more than the end of it. -/
theorem htmlIn_paragraphBegin (shown : region.isShown = true) (filled : region.isPrunable = false) :
    htmlIn opened (.ofTag .paragraphBegin :: region :: regions)
      = "<p>".toList ++ htmlIn (.p :: opened) (region :: regions) := by
  have apart : isEmptyPair (.ofTag .paragraphBegin) region = false := by
    rw [isEmptyPair, filled, Bool.and_false, Bool.false_and]
  rw [htmlIn, List.filter_cons_of_pos rfl, List.filter_cons_of_pos shown, dropEmptyPairs,
    if_neg (by simp [apart]), htmlIn, List.filter_cons_of_pos shown]
  rfl

theorem htmlIn_paragraphEnd :
    htmlIn (.p :: opened) (.ofTag .paragraphEnd :: regions)
      = "</p>".toList ++ htmlIn opened regions := by
  rw [htmlIn_kept rfl (isEmptyPair_of_shape (by decide))]
  rfl

theorem htmlIn_paragraph {text : Text} (some : text ≠ []) :
    htmlIn opened (.ofTag .paragraphBegin :: (Region.ofTag .text).extend text
        :: .ofTag .paragraphEnd :: regions)
      = "<p>".toList ++ text ++ "</p>".toList ++ htmlIn opened regions := by
  have filled : ((Region.ofTag .text).extend text).isPrunable = false := by
    rw [Region.isPrunable, isEmpty_text some]
    rfl
  rw [htmlIn_paragraphBegin (isShown_text some) filled, htmlIn_text some, htmlIn_paragraphEnd]
  simp

/-! ### Sections -/

theorem htmlIn_sectionBegin :
    htmlIn opened (.ofTag .sectionBegin :: regions)
      = "<section>".toList ++ htmlIn (.sect :: opened) regions := by
  have apart : ∀ next, isEmptyPair (.ofTag .sectionBegin) next = false := fun _ => rfl
  rw [htmlIn_kept rfl apart]
  rfl

theorem htmlIn_sectionEnd :
    htmlIn (.sect :: opened) (.ofTag .sectionEnd :: regions)
      = "</section>".toList ++ htmlIn opened regions := by
  rw [htmlIn_kept rfl (isEmptyPair_of_shape (by decide))]
  rfl

end MarkPress.Export
