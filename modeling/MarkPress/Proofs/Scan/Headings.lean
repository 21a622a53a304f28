/-
Module: MarkPress.Proofs.Scan.Headings
Purpose: What a heading of plain words becomes.
  In front of it the empty paragraph ends. Its anchor is named after its title, and behind it a new
  section begins.
Main exports:
  Scan.inHeading, reading_heading, output_headed, output_heading, compiles_heading
-/
import Mathlib.Data.List.TakeWhile
import MarkPress.Proofs.Scan.Blocks
import MarkPress.Proofs.Slug.Anchor

namespace MarkPress

open Html

namespace Scan

variable {s : Scan} {issued : List Text} {source text : Text} {tag : Tag}

/-- The first half of the anchor of a heading. -/
def anchorHalf (id : Text) : Text :=
  Tag.anchor.write [] (Dictionary.ofList [("href".toList, some ('#' :: id)),
    ("id".toList, some id)]) .opening

theorem anchorHalf_eq {id : Text} (inert : escapeAttribute id = id) :
    anchorHalf id = "<a href=\"#".toList ++ id ++ "\" id=\"".toList ++ id ++ "\">".toList := by
  have attributes : (Dictionary.ofList [("href".toList, some ('#' :: id)),
      ("id".toList, some id)]).entries
        = [("href".toList, some ('#' :: id)), ("id".toList, some id)] := rfl
  have linked : escapeAttribute ('#' :: id) = '#' :: id := congrArg (List.cons '#') inert
  have written : anchorHalf id = "<a".toList ++ (attributeText "href".toList ('#' :: id)
      ++ (attributeText "id".toList id ++ [])) ++ ['>'] := by
    rw [anchorHalf]
    change Element.openTag .a _ ++ [] = _
    rw [List.append_nil, Element.openTag, Attributes.toText, attributes]
    rfl
  rw [written, attributeText, attributeText, linked, inert]
  simp only [List.append_assoc]
  rfl

/-- The state in a heading, in front of its first word. -/
def inHeading (issued : List Text) (tag : Tag) (id title : Text) : Scan :=
  { inBlock (id :: issued) ⟨tag, some 4⟩ ((Region.ofTag tag).extend (anchorHalf id)) [anchorHalf id]
      title with
    skipWhitespace := true, headingAnchorOpen := true }

theorem step_heading (issued : List Text) (heading : tag.isHeading = true) (title : Text) :
    (startAt issued (tag.traits.opener.getD [] ++ ' ' :: title)).step
      = .ok (inHeading issued tag
          (Slug.freshId issued (Slug.headingBase ((' ' :: title).takeWhile (· != '\n'))))
          (' ' :: title)) := by
  have all : ∀ t ∈ Tag.all, t.isHeading = true → t = .heading1 ∨ t = .heading2 ∨ t = .heading3 := by
    decide
  rcases all tag tag.mem_all heading with rfl | rfl | rfl <;> rfl

theorem inHeading_lined (heading : tag.isHeading = true) (id : Text)
    (bare : '[' ∉ source) : (inHeading issued tag id source).Lined :=
  have notVerbatim : ∀ t ∈ Tag.all, t.isHeading = true → t.traits.isVerbatim = false := by decide
  have lined : (inBlock (id :: issued) ⟨tag, some 4⟩ ((Region.ofTag tag).extend (anchorHalf id))
      [anchorHalf id] source).Lined :=
    inBlock_lined (Tag.isSingleLine_of_isHeading heading) rfl (notVerbatim tag tag.mem_all heading)
      bare
  { lined with grounded := lined.grounded.of_labels rfl rfl }

/-- The anchor of a heading is named after the whole line. -/
theorem step_heading_line (issued : List Text) (heading : tag.isHeading = true) {title : Text}
    (noBreak : '\n' ∉ title) :
    (startAt issued (tag.traits.opener.getD [] ++ ' ' :: title)).step
      = .ok (inHeading issued tag (Slug.freshId issued (Slug.headingBase title))
          (' ' :: title)) := by
  have line : (' ' :: title).takeWhile (· != '\n') = ' ' :: title := by
    rw [List.takeWhile_eq_self_iff]
    intro c member
    rcases List.mem_cons.mp member with rfl | later
    · rfl
    · simp only [bne_iff_ne, ne_eq]
      rintro rfl
      exact noBreak later
  have named : Slug.headingBase (' ' :: title) = Slug.headingBase title :=
    Slug.headingBase_gap (by decide) title
  rw [step_heading issued heading, line, named]

/-- In front of a heading the empty paragraph ends, and its anchor is named after its title. -/
theorem reading_heading (heading : tag.isHeading = true) {title : Text}
    (bare : '[' ∉ title) (noBreak : '\n' ∉ title) :
    (startAt issued (tag.traits.opener.getD [] ++ ' ' :: title)).reading
      = (inHeading issued tag (Slug.freshId issued (Slug.headingBase title)) title).reading := by
  have begins := step_heading_line issued heading noBreak
  generalize Slug.freshId issued (Slug.headingBase title) = id at begins ⊢
  have lined : (inHeading issued tag id (' ' :: title)).Lined :=
    inHeading_lined heading id (by simp [bare])
  rw [reading_step (startAt_grounded ..) (by rw [startAt_rest]; simp), begins]
  change (inHeading issued tag id (' ' :: title)).reading = _
  rw [reading_step lined.grounded (by simp [inHeading, inBlock]), step_gap lined.ready rfl rfl rfl]
  rfl

/-- A heading ends with its anchor, if that is open, and with its section. -/
theorem output_headed (heading : tag.isHeading = true) {content : Text} (sound : s.Sound)
    (split : s.arena = ⟨4, (Region.ofTag tag).extend content⟩ :: ⟨3, .ofTag .paragraphEnd⟩
      :: (startAt issued source).arena)
    (opened : s.opened = [⟨tag, some 4⟩]) (outside : s.listLevel = 0) :
    output [] s.finish = .ok ("<section>".toList ++ (tag.openHalf
      ++ (content ++ if s.headingAnchorOpen then "</a>".toList else []) ++ tag.closeHalf)
        ++ "</section>".toList ++ "<section></section>".toList) := by
  let region := (Region.ofTag tag).extend
    (content ++ if s.headingAnchorOpen then "</a>".toList else [])
  have only : s.openRegions = [⟨tag, 4⟩] := by rw [openRegions, opened]; rfl
  have ends := closeTag_heading_eq sound heading split only
  have arena : (s.forget tag).endAnchor.arena = ⟨4, region⟩ :: ⟨3, .ofTag .paragraphEnd⟩
      :: (startAt issued source).arena := by
    rw [endAnchor, show (s.forget tag).headingAnchorOpen = s.headingAnchorOpen from rfl]
    cases anchor : s.headingAnchorOpen with
    | false =>
        change s.arena = _
        simp [split, region, anchor]
    | true =>
        simp only [if_true, put, forget, split, region, anchor, Region.extend_extend]
        rfl
  have none : (s.forget tag).endAnchor.nextSection.opened = [] := by
    have kept : (s.forget tag).endAnchor.nextSection.opened = (s.forget tag).opened := by
      rw [endAnchor]
      split <;> rfl
    rw [kept, forget]
    simp [opened]
  have level : (s.forget tag).endAnchor.nextSection.listLevel = 0 := by
    rw [endAnchor]
    split <;> exact outside
  have whole : tag.traits.shape = .whole := Tag.shape_of_block_or_heading (.inr heading)
  have shown : region.isShown = true := by
    have all : ∀ t ∈ Tag.all, t.isHeading = true → ∀ empty, t.isShown empty = true := by decide
    exact all tag tag.mem_all heading _
  have rendered : region.render = tag.openHalf
      ++ (content ++ if s.headingAnchorOpen then "</a>".toList else []) ++ tag.closeHalf := by
    have inner : region.inner = content ++ if s.headingAnchorOpen then "</a>".toList else [] := by
      simp only [region, Region.inner_extend, Region.ofTag_inner, List.nil_append]
    rw [Region.render, inner]
    change tag.write _ tag.traits.attributes tag.traits.shape = _
    rw [whole, Zone.write_whole]
  have regions : (s.forget tag).endAnchor.nextSection.regions
        ++ [Region.ofTag .paragraphEnd, .ofTag .sectionEnd]
      = .ofTag .sectionBegin :: .ofTag .paragraphBegin :: .ofTag .text :: .ofTag .paragraphEnd
        :: region :: .ofTag .paragraphEnd :: .ofTag .sectionEnd
        :: .ofTag .sectionBegin :: .ofTag .paragraphBegin :: .ofTag .text :: .ofTag .paragraphEnd
        :: [.ofTag .sectionEnd] := by
    rw [regions_nextSection, regions_of_arena arena]
    rfl
  rw [finish_of_single opened ends none, output_finish_outside none level, regions,
    Export.htmlIn_sectionBegin, Export.htmlIn_emptyParagraph,
    Export.htmlIn_whole shown (.inl whole), rendered, Export.htmlIn_surplusEnd (by decide),
    Export.htmlIn_sectionEnd, Export.htmlIn_sectionBegin, Export.htmlIn_emptyParagraph,
    Export.htmlIn_sectionEnd]
  simp only [List.append_assoc]
  rfl

/-- A heading of words ends with its anchor and its section. -/
theorem output_heading (heading : tag.isHeading = true) {id title : Text}
    (sound : s.Sound) (typed : Typed text (inHeading issued tag id title) s) :
    output [] s.finish = .ok ("<section>".toList ++ (tag.openHalf
      ++ (anchorHalf id ++ text ++ "</a>".toList) ++ tag.closeHalf) ++ "</section>".toList
        ++ "<section></section>".toList) := by
  have split : s.arena = ⟨4, (Region.ofTag tag).extend (anchorHalf id ++ text)⟩
      :: ⟨3, .ofTag .paragraphEnd⟩ :: (startAt (id :: issued) title).arena := by
    rw [← Region.extend_extend, typed]
    rfl
  have opened : s.opened = [⟨tag, some 4⟩] := by rw [typed]; rfl
  have anchor : s.headingAnchorOpen = true := by rw [typed]; rfl
  have outside : s.listLevel = 0 := by rw [typed]; rfl
  rw [output_headed heading sound split opened outside, anchor]
  rfl

theorem compiles_heading (heading : tag.isHeading = true) (title : Phrase) {id : Text}
    (named : id = Slug.freshId issued (Slug.headingBase title.text)) :
    Compiles issued (tag.traits.opener.getD [] ++ ' ' :: title.text)
      (tag.openHalf ++ ("<a href=\"#".toList ++ id ++ "\" id=\"".toList ++ id ++ "\">".toList)
        ++ escapeText title.text ++ "</a>".toList ++ tag.closeHalf
        ++ "</section><section>".toList) (id :: issued) := by
  have noBreak : '\n' ∉ title.text := title.not_mem_text (by decide) (by decide)
  have inert : escapeAttribute id = id := named ▸ Slug.escapeAttribute_freshId issued _
  have lined : (inHeading issued tag id title.text).Lined := inHeading_lined heading id title.bare
  obtain ⟨s, reads, typed, read⟩ := reading_phrase title lined (List.append_nil _).symm
    fun blank => by cases blank
  have bare : '[' ∉ tag.traits.opener.getD [] ++ ' ' :: title.text := by
    have all : ∀ t ∈ Tag.all, t.isHeading = true → '[' ∉ t.traits.opener.getD [] := by decide
    simp [title.bare, all tag tag.mem_all heading]
  have noReturn : '\r' ∉ tag.traits.opener.getD [] ++ ' ' :: title.text := by
    have all : ∀ t ∈ Tag.all, '\r' ∉ t.traits.opener.getD [] := by decide
    simp [title.noReturn, all tag tag.mem_all]
  have ended : (startAt issued (tag.traits.opener.getD [] ++ ' ' :: title.text)).reading
      = .ok s := by
    rw [reading_heading heading title.bare noBreak, ← named, reads, reading_nil read]
  have opened : s.opened = [⟨tag, some 4⟩] := by rw [typed]; rfl
  have rests : s.Rests := by
    refine rests_of_reading noReturn bare ended ?_ (by rw [typed]; rfl)
    intro o member
    rw [opened] at member
    rcases List.mem_singleton.mp member with rfl
    exact Tag.isSingleLine_of_isHeading heading
  refine ⟨s, ended, rests, by rw [typed]; rfl, ?_⟩
  rw [output_heading heading rests.quiet.coherent.sound typed, anchorHalf_eq inert]
  simp only [List.append_assoc]
  rfl

end Scan

end MarkPress
