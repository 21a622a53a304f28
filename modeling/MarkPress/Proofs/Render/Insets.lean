/-
Module: MarkPress.Proofs.Render.Insets
Purpose: Regions that may stand inside of a heading.
  Inside of a heading stand blocks of code, links, images with their captions, and the addresses
  of links and images, which do not appear. None of them holds an anchor, and a link is one anchor
  around its content. Where only the first of several such regions is a link, the tags of anchors
  in the text that they show lead from outside of an anchor back to the outside.
Main exports:
  Tag.insets, Region.Inset, Region.Inset.extend, Region.Inset.describe, free_shown, followed_shown
-/
import MarkPress.Proofs.Html.Anchors
import MarkPress.Proofs.Render.Tokens

namespace MarkPress

open Html

/-- The tags of the regions that may stand inside of a heading. -/
def Tag.insets : List Tag := .codeBlock :: .url :: .caption :: Tag.urlTargets

namespace Region

/-- A region that may stand inside of a heading: one of the tags for that, with tokens and no tag of
an anchor inside. The anchor that a link becomes has an attribute that is written. -/
structure Inset (region : Region) : Prop extends region.Holds Tokenized where
  tag : region.tag ∈ Tag.insets
  free : Free [.a] region.inner
  linked : region.tag = .link → region.attributes.toText ≠ []

variable {region : Region} {text : Text}

theorem inset_ofTag {tag : Tag} (member : tag ∈ Tag.insets) : (ofTag tag).Inset where
  toHolds := lasting_tokenized.ofTag tag
  tag := member
  free := free_nil
  linked := by
    rintro rfl
    decide

namespace Inset

theorem extend (inset : region.Inset) (tokenized : Tokenized text) (free : Free [.a] text) :
    (region.extend text).Inset where
  toHolds := lasting_tokenized.extend inset.toHolds tokenized
  tag := inset.tag
  free := by
    rw [inner_extend]
    exact .append inset.inner inset.free free
  linked := inset.linked

/-- A value for a known attribute. -/
theorem describe (inset : region.Inset) (name : Text) (known : name ∈ attributeNames)
    (value : Text) :
    ({ region with attributes := region.attributes.set name (some value) } : Region).Inset where
  inner := inset.inner
  attributes := inset.attributes.set _ known
  tag := inset.tag
  free := inset.free
  linked := fun _ => Attributes.toText_set_ne_nil region.attributes name value

theorem element (inset : region.Inset) (other : region.tag ≠ .link) :
    region.tag.traits.element ≠ some .a := by
  have all : ∀ t ∈ Tag.insets, t ≠ .link → t.traits.element ≠ some .a := by decide
  exact all _ inset.tag other

/-- What is not a link shows no anchor. -/
theorem free_shownText (inset : region.Inset) (other : region.tag ≠ .link) :
    Free [.a] region.shownText := by
  rw [shownText]
  split
  · refine free_write (fun e found => ?_) (fun e found => Tag.name_mem_elementNames found)
      inset.attributes inset.inner inset.free _
    rw [List.mem_singleton]
    rintro rfl
    exact inset.element other found
  · exact free_nil

/-- A link is one anchor. -/
theorem anchorTags_shownText (inset : region.Inset) (link : region.tag = .link) :
    anchorTags region.shownText = [true, false] := by
  have shown : region.isShown = true := by
    rw [isShown, link]
    rfl
  have named := Tag.name_mem_elementNames (rfl : Tag.link.traits.element = some .a)
  have begins := tokenized_openTag named inset.attributes
  have rendered : region.render
      = Element.a.openTag region.attributes ++ region.inner ++ Element.a.closeTag := by
    rw [render, link]
    rfl
  rw [shownText, if_pos shown, rendered, anchorTags_append (begins.append inset.inner),
    anchorTags_append begins, anchorTags_openTag inset.attributes (inset.linked link),
    anchorTags_of_free inset.free, anchorTags_closeTag]
  rfl

end Inset

end Region

namespace Scan

variable {cut : Arena}

theorem tokenized_shown (insets : ∀ e ∈ cut, e.region.Inset) :
    Tokenized (cut.reverse.flatMap fun e => e.region.shownText) :=
  tokenized_flatMap fun e member =>
    lasting_tokenized.shownText (insets e (List.mem_reverse.mp member)).toHolds

/-- Where none of several regions is a link, they show no anchor. -/
theorem free_shown (insets : ∀ e ∈ cut, e.region.Inset) (others : ∀ e ∈ cut, e.tag ≠ .link) :
    Free [.a] (cut.reverse.flatMap fun e => e.region.shownText) := by
  induction cut with
  | nil => exact free_nil
  | cons e older ih =>
      obtain ⟨inset, olderInsets⟩ := List.forall_mem_cons.mp insets
      obtain ⟨other, olderOthers⟩ := List.forall_mem_cons.mp others
      rw [List.reverse_cons, List.flatMap_append, List.flatMap_singleton]
      exact .append (tokenized_shown olderInsets) (ih olderInsets olderOthers)
        (inset.free_shownText other)

/-- Where only the oldest of several regions is a link, the anchors that they show begin and end. -/
theorem followed_shown (insets : ∀ e ∈ cut, e.region.Inset)
    (others : ∀ e ∈ cut.dropLast, e.tag ≠ .link) :
    (anchorTags (cut.reverse.flatMap fun e => e.region.shownText)).foldlM crossTag false
      = some false := by
  rcases List.eq_nil_or_concat cut with rfl | ⟨newer, oldest, rfl⟩
  · rfl
  · rw [List.concat_eq_append] at insets others ⊢
    rw [List.dropLast_concat] at others
    have inset := insets oldest (by simp)
    have later := free_shown (fun e member => insets e (by simp [member])) others
    have tokenized := lasting_tokenized.shownText inset.toHolds
    rw [List.reverse_append, List.reverse_singleton, List.singleton_append, List.flatMap_cons,
      anchorTags_append tokenized, anchorTags_of_free later, List.append_nil]
    by_cases link : oldest.region.tag = .link
    · rw [inset.anchorTags_shownText link]
      rfl
    · rw [anchorTags_of_free (inset.free_shownText link)]
      rfl

end Scan

end MarkPress
