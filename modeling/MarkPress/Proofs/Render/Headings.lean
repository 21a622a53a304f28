/-
Module: MarkPress.Proofs.Render.Headings
Purpose: The output of a source that is one heading, whatever stands in its title.
  The heading begins with an anchor of its own name. Links in the title end that anchor, images in
  links, code and whatever else is never closed notwithstanding, so anchors never stand inside of
  one another.
Main exports:
  HeadingHtml, render_heading
-/
import MarkPress.Proofs.Render.Blocks
import MarkPress.Proofs.Scan.TitleRun

namespace MarkPress

open Html Scan

/-- The output of a source that is one heading: it begins with the anchor of the heading, no anchor
in it begins inside of another one, and an empty section follows. -/
structure HeadingHtml (level : HeadingLevel) (id html : Text) : Prop where
  begins : "<section><".toList ++ level.element ++ "><a href=\"#".toList ++ id
    ++ "\" id=\"".toList ++ id ++ "\">".toList <+: html
  ends : "</".toList ++ level.element ++ "></section><section></section>".toList <:+ html
  alternate : (anchorTags html).IsChain (· ≠ ·)
  first : (anchorTags html).head? = some true
  last : (anchorTags html).getLast? = some false

namespace Scan

/-- The first step of a source that is a heading brings the scan to the line of it. -/
theorem inHeading_onLine {tag : Tag} (heading : tag.isHeading = true) (id : Text) {title : Text}
    (noBreak : '\n' ∉ title) :
    (inHeading [] tag id title).OnLine ⟨tag, heading, id, 4,
      ⟨3, .ofTag .paragraphEnd⟩ :: (startAt [id] title).arena⟩ := by
  refine ⟨[], anchorHalf id, ?_⟩
  exact {
    arena := rfl
    regions := rfl
    first := ⟨[], rfl⟩
    insets := List.forall_mem_nil _
    others := List.forall_mem_nil _
    anchored := .begin id
    outside := rfl
    solid := rfl
    line := noBreak }

/-- A source that is a heading becomes one element with its anchors in turn, in a section of its
own. -/
theorem render_line {tag : Tag} (heading : tag.isHeading = true) {title : Text}
    (noReturn : '\r' ∉ title) (noBreak : '\n' ∉ title) :
    ∃ content, Anchored (Slug.freshId [] (Slug.headingBase title)) false content
      ∧ render (tag.traits.opener.getD [] ++ ' ' :: title) = .ok ("<section>".toList
        ++ (tag.openHalf ++ content ++ tag.closeHalf) ++ "</section>".toList
        ++ "<section></section>".toList) := by
  let source := tag.traits.opener.getD [] ++ ' ' :: title
  have noReturns : '\r' ∉ source := by
    have all : ∀ t ∈ Tag.all, '\r' ∉ t.traits.opener.getD [] := by decide
    simp [source, noReturn, all tag tag.mem_all]
  have step := step_heading_line [] heading noBreak
  have coherent : (startAt [] source).Coherent (Plain source) := by
    have begins := start_coherent source
    rw [start, Text.normalizeBreaks_eq noReturns] at begins
    exact begins
  have coherent₁ := ((step_meets coherent).of_ok step).1
  have noBreaks : '\n' ∉ ' ' :: title := by simp [noBreak]
  have onLine := inHeading_onLine heading (Slug.freshId [] (Slug.headingBase title)) noBreaks
  obtain ⟨content, anchored, whole⟩ := complete_onLine onLine coherent₁ rfl rfl
  have more : (startAt [] source).rest ≠ [] := List.append_ne_nil_of_right_ne_nil _ (by simp)
  refine ⟨content, anchored, ?_⟩
  rw [render_eq_output, Text.normalizeBreaks_eq noReturns, complete_step (startAt_grounded ..) more,
    step]
  exact whole

end Scan

namespace HeadingHtml

variable {level : HeadingLevel} {id content : Text}

/-- The tags of anchors in the output of a heading are those of its content. -/
theorem anchorTags_eq (level : HeadingLevel) (tokenized : Tokenized content) :
    anchorTags ("<section>".toList ++ (level.tag.openHalf ++ content ++ level.tag.closeHalf)
      ++ "</section>".toList ++ "<section></section>".toList) = anchorTags content := by
  let before := "<section>".toList ++ level.tag.openHalf
  let behind := level.tag.closeHalf ++ ("</section>".toList ++ "<section></section>".toList)
  have parts : "<section>".toList ++ (level.tag.openHalf ++ content ++ level.tag.closeHalf)
      ++ "</section>".toList ++ "<section></section>".toList = before ++ (content ++ behind) := by
    simp only [before, behind, List.append_assoc]
  have begins : Tokenized before :=
    Tag.sectionBegin.tokenized_openHalf.append level.tag.tokenized_openHalf
  have noneBefore : anchorTags before = [] := by cases level <;> decide
  have noneBehind : anchorTags behind = [] := by cases level <;> decide
  rw [parts, anchorTags_append begins, anchorTags_append tokenized, noneBefore, noneBehind,
    List.nil_append, List.append_nil]

theorem ofAnchored (level : HeadingLevel) (anchored : Anchored id false content)
    (inert : escapeAttribute id = id) :
    HeadingHtml level id ("<section>".toList ++ (level.tag.openHalf ++ content
      ++ level.tag.closeHalf) ++ "</section>".toList ++ "<section></section>".toList) := by
  have tags := anchorTags_eq level anchored.tokenized
  obtain ⟨chain, first, last⟩ := anchorTags_alternate anchored.anchorTags_ne_nil anchored.followed
  obtain ⟨rest, contentEq⟩ := anchored.begins
  exact {
    begins := by
      rw [← contentEq, anchorHalf_eq inert, level.openHalf_tag]
      refine ⟨rest ++ level.tag.closeHalf ++ "</section>".toList
        ++ "<section></section>".toList, ?_⟩
      simp [List.append_assoc]
    ends := by
      rw [level.closeHalf_tag]
      refine ⟨"<section>".toList ++ (level.tag.openHalf ++ content), ?_⟩
      simp [List.append_assoc]
    alternate := by rw [tags]; exact chain
    first := by rw [tags]; exact first
    last := by rw [tags]; exact last }

end HeadingHtml

/-- Anchors in a heading never stand inside of one another, whatever its title is: links, images,
code, emphasis, and tags that are never closed. -/
theorem render_heading (level : HeadingLevel) {title : Text} (noReturn : '\r' ∉ title)
    (noBreak : '\n' ∉ title) :
    ∃ html, render (level.signs ++ ' ' :: title) = .ok html ∧ HeadingHtml level
      (if Slug.ofText title = [] then "heading".toList else Slug.ofText title) html := by
  have named : Slug.freshId [] (Slug.headingBase title)
      = if Slug.ofText title = [] then "heading".toList else Slug.ofText title := by
    change Slug.headingBase title = _
    rw [Slug.headingBase]
    cases Slug.ofText title <;> rfl
  obtain ⟨content, anchored, rendered⟩ := render_line level.isHeading_tag noReturn noBreak
  rw [level.opener_tag] at rendered
  have output := HeadingHtml.ofAnchored level anchored (Slug.escapeAttribute_freshId [] title)
  rw [named] at output
  exact ⟨_, rendered, output⟩

/-- A heading with an image in a link, and behind it a link that is never closed. -/
theorem render_heading_image :
    '\r' ∉ "[![a](b)](c) [d".toList ∧ '\n' ∉ "[![a](b)](c) [d".toList
      ∧ ∃ html, render (HeadingLevel.two.signs ++ ' ' :: "[![a](b)](c) [d".toList) = .ok html
        ∧ HeadingHtml .two "a-b-c-d".toList html :=
  ⟨by decide, by decide, render_heading .two (by decide) (by decide)⟩

end MarkPress
