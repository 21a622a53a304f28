/-
Module: MarkPress.Proofs.Render.Zone
Purpose: Sequences of regions in which sections hold blocks and paragraphs.
  A zone says where a region stands: outside of sections, between the blocks of one, or in a
  paragraph. The tag of a region decides in which zones it fits and which zone follows it. Of a
  sequence laid out in this way the export leaves out nothing that holds text, only the two halves
  of an empty paragraph and the ends of paragraphs that stand where none is open.
Main exports:
  Export.htmlIn, Zone, Zone.tags, Zone.behind, Region.Fits, Zone.Lays, Lays.append, Lays.induct,
  Lays.html_append, Lays.delete_html, Lays.readParagraphs_html, Lays.no_empty_paragraph
-/
import MarkPress.Export
import MarkPress.Proofs.Html.Reading

namespace MarkPress

namespace Export

open Html

/-- The output of regions that stand behind others, given the elements that are open there. -/
def htmlIn (opened : List Element) (regions : List Region) : Text :=
  (dropOrphans id opened (dropEmptyPairs id (regions.filter Region.isShown))).flatMap Region.render

end Export

open Html

/-- Where a region stands. -/
inductive Zone where
  /-- Outside of sections. -/
  | margin
  /-- Between the blocks of a section. -/
  | blocks
  /-- In a paragraph. -/
  | prose
deriving DecidableEq

namespace Zone

/-- The elements that are open in a zone. -/
def opened : Zone → List Element
  | .margin => []
  | .blocks => [.sect]
  | .prose => [.p, .sect]

/-- The tags of the regions that may stand in a zone. -/
def tags : Zone → List Tag
  | .margin => [.sectionBegin]
  | .blocks => [.text, .paragraphBegin, .paragraphEnd, .sectionEnd, .codeBlock, .heading1,
      .heading2, .heading3, .rule]
  | .prose => [.text, .paragraphEnd]

/-- The zone behind a region of a tag. -/
def behind (zone : Zone) : Tag → Zone
  | .sectionBegin => .blocks
  | .sectionEnd => .margin
  | .paragraphBegin => .prose
  | .paragraphEnd => .blocks
  | _ => zone

/-- The elements whose tags text in a zone does not have. -/
def barred : Zone → List Element
  | .prose => .p :: blockElements
  | .margin | .blocks => [.p]

end Zone

/-- A region may stand in a zone. Only regions that are written as whole elements hold text, and
there is no tag in it that may not stand there. -/
structure Region.Fits (zone : Zone) (region : Region) : Prop where
  tag : region.tag ∈ zone.tags
  attributes : region.attributes = region.tag.traits.attributes
  tokenized : Tokenized region.inner
  free : Free zone.barred region.inner
  marker : region.tag.traits.shape ≠ .whole → region.inner = []

namespace Zone

/-- Regions lead from one zone to another. -/
inductive Lays : Zone → List Region → Zone → Prop where
  | nil {zone : Zone} : Lays zone [] zone
  | cons {zone last : Zone} {region : Region} {regions : List Region} (fits : region.Fits zone)
      (rest : Lays (zone.behind region.tag) regions last) : Lays zone (region :: regions) last

/-- The text of a region where it stands: the end of a paragraph that is not open is left out. -/
def text (zone : Zone) (region : Region) : Text :=
  if zone = .blocks ∧ region.tag = .paragraphEnd then [] else region.render

variable {zone last : Zone} {region left right : Region} {regions : List Region}

/-! ### Regions in their zones -/

/-- A region that does not appear holds nothing and changes nothing. -/
theorem hidden_of_fits (fits : region.Fits zone) (hidden : region.isShown = false) :
    region.inner = [] ∧ zone.behind region.tag = zone := by
  have all : ∀ tag ∈ zone.tags, ∀ empty, tag.isShown empty = false →
      empty = true ∧ zone.behind tag = zone := by
    cases zone <;> decide
  obtain ⟨empty, same⟩ := all region.tag fits.tag _ hidden
  rw [Region.isEmpty_eq, List.isEmpty_iff] at empty
  exact ⟨empty, same⟩

/-- The two halves of an empty pair are the two ends of a paragraph. -/
theorem pair_of_fits (fitsLeft : left.Fits zone) (fitsRight : right.Fits (zone.behind left.tag))
    (pair : Export.isEmptyPair left right = true) :
    left.tag = .paragraphBegin ∧ right.tag = .paragraphEnd ∧ zone = .blocks := by
  have all : ∀ first ∈ zone.tags, ∀ second ∈ (zone.behind first).tags, ∀ empty,
      first.isPrunable empty = true → first.traits.shape = .opening →
      second.traits.shape = .closing →
      first = .paragraphBegin ∧ second = .paragraphEnd ∧ zone = .blocks := by
    cases zone <;> decide
  simp only [Export.isEmptyPair, Export.isPair, Bool.and_eq_true, beq_iff_eq] at pair
  obtain ⟨⟨prunable, -⟩, ⟨-, opening⟩, closing⟩ := pair
  exact all left.tag fitsLeft.tag right.tag fitsRight.tag _ prunable opening closing

/-- The two ends of an empty paragraph are the two halves of an empty pair. -/
theorem isEmptyPair_of_fits (fitsLeft : left.Fits zone) (fitsRight : right.Fits last)
    (begins : left.tag = .paragraphBegin) (ends : right.tag = .paragraphEnd) :
    Export.isEmptyPair left right = true := by
  have innerLeft := fitsLeft.marker (by rw [begins]; decide)
  have innerRight := fitsRight.marker (by rw [ends]; decide)
  simp only [Export.isEmptyPair, Export.isPair, Region.isPrunable, Region.isEmpty_eq, innerLeft,
    innerRight, begins, ends]
  decide

theorem inner_of_pair (pair : Export.isEmptyPair left right = true) :
    left.inner = [] ∧ right.inner = [] := by
  have all : ∀ tag : Tag, ∀ empty, tag.isPrunable empty = true → empty = true := by
    intro tag empty prunable
    cases tag <;> simp_all [Tag.isPrunable, Tag.traits, Tag.headingTraits]
  simp only [Export.isEmptyPair, Bool.and_eq_true] at pair
  have emptyLeft := all _ _ pair.1.1
  have emptyRight := all _ _ pair.1.2
  rw [Region.isEmpty_eq, List.isEmpty_iff] at emptyLeft emptyRight
  exact ⟨emptyLeft, emptyRight⟩

/-- What the export does with the closing halves agrees with the zones. -/
theorem dropOrphans_cons (fits : region.Fits zone) (rest : List Region) :
    Export.dropOrphans id zone.opened (region :: rest)
      = (if zone = .blocks ∧ region.tag = .paragraphEnd then [] else [region])
        ++ Export.dropOrphans id (zone.behind region.tag).opened rest := by
  have tag := fits.tag
  cases zone with
  | margin =>
      simp only [tags, List.mem_singleton] at tag
      simp [Export.dropOrphans, tag, Tag.traits, behind, opened]
  | blocks =>
      simp only [tags, List.mem_cons, List.not_mem_nil, or_false] at tag
      rcases tag with tag | tag | tag | tag | tag | tag | tag | tag | tag <;>
        simp [Export.dropOrphans, tag, Tag.traits, Tag.headingTraits, behind, opened]
  | prose =>
      simp only [tags, List.mem_cons, List.not_mem_nil, or_false] at tag
      rcases tag with tag | tag <;> simp [Export.dropOrphans, tag, Tag.traits, behind, opened]

/-! ### Regions in order -/

namespace Lays

variable {middle : Zone} {more : List Region}

theorem append (first : Lays zone regions middle) (later : Lays middle more last) :
    Lays zone (regions ++ more) last := by
  induction first with
  | nil => exact later
  | cons fits _ ih => exact .cons fits (ih later)

theorem of_append (laid : Lays zone (regions ++ more) last) :
    ∃ middle, Lays zone regions middle ∧ Lays middle more last := by
  induction regions generalizing zone with
  | nil => exact ⟨zone, .nil, laid⟩
  | cons first rest ih =>
      cases laid with
      | cons fits later =>
          obtain ⟨middle, before, behind⟩ := ih later
          exact ⟨middle, .cons fits before, behind⟩

theorem single (fits : region.Fits zone) : Lays zone [region] (zone.behind region.tag) :=
  .cons fits .nil

/-- The zone in front of the last region. -/
theorem of_snoc (laid : Lays zone (regions ++ [region]) last) :
    ∃ middle, Lays zone regions middle ∧ region.Fits middle ∧ last = middle.behind region.tag := by
  obtain ⟨middle, before, behind⟩ := laid.of_append
  cases behind with
  | cons fits none =>
      cases none
      exact ⟨middle, before, fits, rfl⟩

/-- What does not appear can be left out. -/
theorem shown (laid : Lays zone regions last) :
    Lays zone (regions.filter Region.isShown) last := by
  induction laid with
  | nil => exact .nil
  | @cons zone last region regions fits _ ih =>
      cases appears : region.isShown with
      | true =>
          rw [List.filter_cons_of_pos appears]
          exact .cons fits ih
      | false =>
          rw [List.filter_cons_of_neg (by simp [appears])]
          rwa [(hidden_of_fits fits appears).2] at ih

end Lays

/-- The output of regions that all appear. -/
def shownHtml (zone : Zone) (regions : List Region) : Text :=
  (Export.dropOrphans id zone.opened (Export.dropEmptyPairs id regions)).flatMap Region.render

theorem htmlIn_eq (zone : Zone) (regions : List Region) :
    Export.htmlIn zone.opened regions = shownHtml zone (regions.filter Region.isShown) :=
  rfl

/-- A region that begins no empty pair is followed by the output of the others. -/
theorem shownHtml_cons (fits : region.Fits zone)
    (apart : ∀ next ∈ regions.head?, Export.isEmptyPair region next = false) :
    shownHtml zone (region :: regions)
      = zone.text region ++ shownHtml (zone.behind region.tag) regions := by
  have kept : Export.dropEmptyPairs id (region :: regions)
      = region :: Export.dropEmptyPairs id regions := by
    cases regions with
    | nil => rfl
    | cons next rest =>
        have filled := apart next rfl
        rw [Export.dropEmptyPairs]
        exact if_neg (by simp [filled])
  rw [shownHtml, kept, dropOrphans_cons fits, List.flatMap_append, shownHtml, text]
  congr 1
  split <;> simp

theorem shownHtml_pair (empty : Export.isEmptyPair left right = true) :
    shownHtml zone (left :: right :: regions) = shownHtml zone regions := by
  have skipped : Export.dropEmptyPairs id (left :: right :: regions)
      = Export.dropEmptyPairs id regions := if_pos empty
  rw [shownHtml, skipped, shownHtml]

/-- Induction over regions that all appear, with their output: the last region comes alone, two
neighbours form an empty paragraph, or the first one has a text of its own. -/
theorem Lays.induct {motive : Zone → List Region → Text → Prop} (nil : motive last [] [])
    (pair : ∀ left right rest out, Export.isEmptyPair left right = true →
      motive .blocks rest out → motive .blocks (left :: right :: rest) out)
    (cons : ∀ zone region rest out, region.Fits zone → region.isShown = true →
      Lays (zone.behind region.tag) rest last →
      (∀ next ∈ rest.head?, Export.isEmptyPair region next = false) →
      motive (zone.behind region.tag) rest out →
      motive zone (region :: rest) (zone.text region ++ out))
    (laid : Lays zone regions last) (appear : ∀ region ∈ regions, region.isShown = true) :
    motive zone regions (shownHtml zone regions) := by
  induction regions using Export.dropEmptyPairs.induct id generalizing zone with
  | case1 =>
      cases laid
      exact nil
  | case2 region =>
      cases laid with
      | cons fits rest =>
          have alone : ∀ next ∈ ([] : List Region).head?,
              Export.isEmptyPair region next = false := by simp
          rw [shownHtml_cons fits alone]
          refine cons zone region [] _ fits (appear region (by simp)) rest alone ?_
          cases rest
          exact nil
  | case3 left right rest empty ih =>
      cases laid with
      | cons fitsLeft later =>
          cases later with
          | cons fitsRight behind =>
              obtain ⟨begins, ends, rfl⟩ := pair_of_fits fitsLeft fitsRight empty
              have after : (Zone.behind .blocks left.tag).behind right.tag = .blocks := by
                rw [begins, ends]
                rfl
              rw [after] at behind
              have pruned : Export.isEmptyPair left right = true := empty
              rw [shownHtml_pair pruned]
              exact pair left right rest _ empty
                (ih behind fun region member => appear region (by simp [member]))
  | case4 left right rest filled ih =>
      cases laid with
      | cons fits later =>
          have apart : ∀ next ∈ (right :: rest).head?, Export.isEmptyPair left next = false := by
            intro next isNext
            rw [List.head?_cons, Option.mem_some] at isNext
            rw [← isNext]
            exact Bool.eq_false_iff.mpr filled
          rw [shownHtml_cons fits apart]
          exact cons zone left _ _ fits (appear left (by simp)) later apart
            (ih later fun region member => appear region (List.mem_cons_of_mem _ member))

/-- Only the beginning of a paragraph, which leads into it, begins an empty pair. -/
theorem isEmptyPair_outside (fits : region.Fits zone) (outside : zone.behind region.tag ≠ .prose)
    (next : Region) : Export.isEmptyPair region next = false := by
  have all : ∀ tag ∈ zone.tags, zone.behind tag ≠ .prose → ∀ empty,
      tag.isPrunable empty = true → tag.traits.shape ≠ .opening := by
    cases zone <;> decide
  apply Bool.eq_false_iff.mpr
  intro pair
  simp only [Export.isEmptyPair, Export.isPair, Bool.and_eq_true, beq_iff_eq] at pair
  obtain ⟨⟨prunable, -⟩, ⟨-, opening⟩, -⟩ := pair
  exact all region.tag fits.tag outside _ prunable opening

/-- Where no paragraph is open, what stands behind regions goes on in the zone that they lead to. -/
theorem Lays.html_append (laid : Lays zone regions last) (outside : last ≠ .prose)
    (more : List Region) :
    Export.htmlIn zone.opened (regions ++ more)
      = Export.htmlIn zone.opened regions ++ Export.htmlIn last.opened more := by
  simp only [htmlIn_eq, List.filter_append]
  generalize more.filter Region.isShown = others
  refine Lays.induct (motive := fun zone regions out =>
    shownHtml zone (regions ++ others) = out ++ shownHtml last others) ?_ ?_ ?_ laid.shown
    fun region member => (List.mem_filter.mp member).2
  · rfl
  · intro left right rest out empty ih
    exact (shownHtml_pair empty).trans ih
  · intro zone region rest out fits _ later alone ih
    have first : ∀ next ∈ (rest ++ others).head?, Export.isEmptyPair region next = false := by
      intro next isNext
      cases later with
      | nil => exact isEmptyPair_outside fits outside next
      | cons _ _ => exact alone next isNext
    rw [List.cons_append, shownHtml_cons fits first, ih, List.append_assoc]

/-! ### The text of one region -/

/-- A whole element is its two halves with the content between them. -/
theorem write_whole (tag : Tag) (content : Text) :
    tag.write content tag.traits.attributes .whole = tag.openHalf ++ content ++ tag.closeHalf := by
  simp only [Tag.openHalf, Tag.closeHalf, Tag.write, Html.write]
  cases tag.traits.element <;> simp

/-- A region that fits is a whole element with its content, or one half or tag without content. -/
theorem render_of_fits (fits : region.Fits zone) :
    (region.tag.traits.shape = .whole
      ∧ region.render = region.tag.openHalf ++ region.inner ++ region.tag.closeHalf)
    ∨ (region.tag.traits.shape ≠ .whole ∧ region.inner = []
      ∧ region.render
        = region.tag.write [] region.tag.traits.attributes region.tag.traits.shape) := by
  by_cases shape : region.tag.traits.shape = .whole
  · refine .inl ⟨shape, ?_⟩
    rw [Region.render, fits.attributes, shape, write_whole]
  · have none := fits.marker shape
    exact .inr ⟨shape, none, by rw [Region.render, fits.attributes, none]⟩

theorem tokenized_text (fits : region.Fits zone) : Tokenized (zone.text region) := by
  rw [text]
  split
  · exact tokenized_nil
  · rw [Region.render, fits.attributes]
    exact region.tag.tokenized_write region.tag.attributes_known fits.tokenized _

/-- Without the tags of blocks a region is what is left of its content. -/
theorem delete_text (fits : region.Fits zone) :
    Text.delete blockTags (zone.text region) = Text.delete blockTags region.inner := by
  have wholes : ∀ tag ∈ zone.tags, tag.traits.shape = .whole →
      Text.delete blockTags tag.openHalf = [] ∧ Text.delete blockTags tag.closeHalf = [] := by
    cases zone <;> decide +kernel
  have others : ∀ tag ∈ zone.tags, tag.traits.shape ≠ .whole →
      Text.delete blockTags (tag.write [] tag.traits.attributes tag.traits.shape) = [] := by
    cases zone <;> decide +kernel
  rcases render_of_fits fits with ⟨shape, rendered⟩ | ⟨shape, none, rendered⟩
  · obtain ⟨opens, closes⟩ := wholes region.tag fits.tag shape
    have notEnd : ¬ (zone = .blocks ∧ region.tag = .paragraphEnd) := by
      rintro ⟨-, ends⟩
      rw [ends] at shape
      cases shape
    rw [text, if_neg notEnd, rendered, delete_append bracketed_blockTags
      (region.tag.tokenized_openHalf.append fits.tokenized), delete_append bracketed_blockTags
      region.tag.tokenized_openHalf, opens, closes, List.nil_append, List.append_nil]
  · rw [text, none]
    split
    · rfl
    · rw [rendered]
      exact others region.tag fits.tag shape

/-- A paragraph is open behind a region if the zone behind it is that of a paragraph. -/
theorem readParagraphs_text (fits : region.Fits zone) :
    readParagraphs (decide (zone = .prose)) (zone.text region)
      = some (decide (zone.behind region.tag = .prose)) := by
  have wholes : ∀ tag ∈ zone.tags, tag.traits.shape = .whole → zone.behind tag = zone
      ∧ readParagraphs (decide (zone = .prose)) tag.openHalf = some (decide (zone = .prose))
      ∧ readParagraphs (decide (zone = .prose)) tag.closeHalf = some (decide (zone = .prose)) := by
    cases zone <;> decide +kernel
  have others : ∀ tag ∈ zone.tags, tag.traits.shape ≠ .whole →
      readParagraphs (decide (zone = .prose)) (if zone = .blocks ∧ tag = .paragraphEnd then []
        else tag.write [] tag.traits.attributes tag.traits.shape)
        = some (decide (zone.behind tag = .prose)) := by
    cases zone <;> decide +kernel
  rcases render_of_fits fits with ⟨shape, rendered⟩ | ⟨shape, none, rendered⟩
  · obtain ⟨same, opens, closes⟩ := wholes region.tag fits.tag shape
    have notEnd : ¬ (zone = .blocks ∧ region.tag = .paragraphEnd) := by
      rintro ⟨-, ends⟩
      rw [ends] at shape
      cases shape
    have inner : readParagraphs (decide (zone = .prose)) region.inner
        = some (decide (zone = .prose)) := by
      apply readParagraphs_of_free
      have free := fits.free
      cases zone <;> exact free
    rw [text, if_neg notEnd, rendered, readParagraphs_append _
      (region.tag.tokenized_openHalf.append fits.tokenized), readParagraphs_append _
      region.tag.tokenized_openHalf, opens, Option.bind_some, inner, Option.bind_some, closes, same]
  · rw [text, rendered]
    exact others region.tag fits.tag shape

/-- Only the two ends of a paragraph have the tags of one. -/
theorem free_text (fits : region.Fits zone) (other : region.tag ≠ .paragraphBegin)
    (other' : region.tag ≠ .paragraphEnd) : Free [.p] (zone.text region) := by
  have notEnd : ¬ (zone = .blocks ∧ region.tag = .paragraphEnd) := fun h => other' h.2
  have wholes : ∀ tag ∈ zone.tags, tag.traits.shape = .whole →
      Free [.p] tag.openHalf ∧ Free [.p] tag.closeHalf := by
    simp only [Free, List.mem_singleton, forall_eq]
    cases zone <;> decide +kernel
  have others : ∀ tag ∈ zone.tags, tag ≠ .paragraphBegin → tag ≠ .paragraphEnd →
      Free [.p] (tag.write [] tag.traits.attributes tag.traits.shape) := by
    simp only [Free, List.mem_singleton, forall_eq]
    cases zone <;> decide +kernel
  rw [text, if_neg notEnd]
  rcases render_of_fits fits with ⟨shape, rendered⟩ | ⟨-, -, rendered⟩
  · obtain ⟨opens, closes⟩ := wholes region.tag fits.tag shape
    have inner : Free [.p] region.inner :=
      fits.free.mono fun e member => by cases zone <;> simp_all [barred]
    rw [rendered]
    exact .append (region.tag.tokenized_openHalf.append fits.tokenized)
      (.append region.tag.tokenized_openHalf opens inner) closes
  · rw [rendered]
    exact others region.tag fits.tag other other'

/-- What appears in a paragraph, other than its end, does not begin with the end of one. -/
theorem not_closing_prose (fits : region.Fits .prose) (shown : region.isShown = true)
    (other : region.tag ≠ .paragraphEnd) (rest : Text) :
    ¬ "</p>".toList <+: Zone.text .prose region ++ rest := by
  have isText : region.tag = .text := by
    have tag := fits.tag
    simp only [tags, List.mem_cons, List.not_mem_nil, or_false] at tag
    exact tag.resolve_right other
  have filled : region.inner ≠ [] := by
    intro none
    rw [Region.isShown, Region.isEmpty_eq, none, isText] at shown
    cases shown
  have textEq : Zone.text .prose region = region.inner := by
    rw [text, if_neg (by simp), Region.render, isText]
    rfl
  have free : Free [.p] region.inner := fits.free.mono fun e member => by simp_all [barred]
  rw [textEq]
  exact not_closing_prefix fits.tokenized filled free rest

/-- Before regions without an empty paragraph a region makes one only if it begins a paragraph that
they end. -/
theorem emptyParagraph_infix_text (fits : region.Fits zone) {rest : Text}
    (filled : region.tag = .paragraphBegin → ¬ "</p>".toList <+: rest)
    (none : ¬ emptyParagraph <:+: rest) : ¬ emptyParagraph <:+: zone.text region ++ rest := by
  by_cases begins : region.tag = .paragraphBegin
  · have textEq : zone.text region = (Token.opening "p".toList (by decide) []).toText := by
      rw [text, if_neg (by simp [begins]), Region.render, fits.attributes,
        fits.marker (by rw [begins]; decide), begins]
      rfl
    rw [textEq, emptyParagraph_infix_token]
    rintro (⟨-, closes⟩ | inner)
    · exact filled begins closes
    · exact none inner
  · by_cases ends : region.tag = .paragraphEnd
    · have notHere :
          ¬ emptyParagraph <:+: (Token.closing "p".toList (by decide)).toText ++ rest := by
        rw [emptyParagraph_infix_token]
        rintro (⟨same, -⟩ | inner)
        · cases same
        · exact none inner
      rw [text]
      split
      · exact none
      · rw [Region.render, fits.attributes, fits.marker (by rw [ends]; decide), ends]
        exact notHere
    · rw [emptyParagraph_infix_append (tokenized_text fits) (free_text fits begins ends)]
      exact none

/-! ### The output of regions in order -/

namespace Lays

/-- What does not appear has no text. -/
theorem flatMap_shown (laid : Lays zone regions last) {f : Region → Text}
    (empty : ∀ region, region.inner = [] → f region = []) :
    (regions.filter Region.isShown).flatMap f = regions.flatMap f := by
  induction laid with
  | nil => rfl
  | @cons zone last region regions fits _ ih =>
      cases appears : region.isShown with
      | true => rw [List.filter_cons_of_pos appears, List.flatMap_cons, List.flatMap_cons, ih]
      | false =>
          rw [List.filter_cons_of_neg (by simp [appears]), List.flatMap_cons, ih,
            empty region (hidden_of_fits fits appears).1, List.nil_append]

/-- Without the tags of blocks the output is the content of the regions, in order. -/
theorem delete_html (laid : Lays zone regions last) :
    Text.delete blockTags (Export.htmlIn zone.opened regions)
      = regions.flatMap fun region => Text.delete blockTags region.inner := by
  rw [← laid.flatMap_shown fun region none => by rw [none]; rfl, htmlIn_eq]
  refine Lays.induct (motive := fun _ regions out => Text.delete blockTags out
    = regions.flatMap fun region => Text.delete blockTags region.inner) rfl ?_ ?_ laid.shown
    fun region member => (List.mem_filter.mp member).2
  · intro left right rest out empty ih
    obtain ⟨noneLeft, noneRight⟩ := inner_of_pair empty
    rw [List.flatMap_cons, List.flatMap_cons, noneLeft, noneRight, ih]
    rfl
  · intro zone region rest out fits _ _ _ ih
    rw [delete_append bracketed_blockTags (tokenized_text fits), delete_text fits, ih,
      List.flatMap_cons]

/-- In the output every tag stands where it may, and a paragraph is open behind it exactly if the
regions lead into one. -/
theorem readParagraphs_html (laid : Lays zone regions last) :
    readParagraphs (decide (zone = .prose)) (Export.htmlIn zone.opened regions)
      = some (decide (last = .prose)) := by
  refine Lays.induct (motive := fun zone _ out =>
    readParagraphs (decide (zone = .prose)) out = some (decide (last = .prose))) rfl ?_ ?_
    laid.shown fun region member => (List.mem_filter.mp member).2
  · exact fun _ _ _ _ _ ih => ih
  · intro zone region rest out fits _ _ _ ih
    rw [readParagraphs_append _ (tokenized_text fits), readParagraphs_text fits, Option.bind_some,
      ih]

/-- No paragraph in the output is empty. -/
theorem no_empty_paragraph (laid : Lays zone regions last) :
    ¬ emptyParagraph <:+: Export.htmlIn zone.opened regions := by
  -- behind the beginning of a paragraph, what follows must not be its end
  have whole := Lays.induct (motive := fun zone regions out => ¬ emptyParagraph <:+: out
      ∧ (zone = .prose → (∀ next ∈ regions.head?, next.tag ≠ .paragraphEnd) →
        ¬ "</p>".toList <+: out)) ?_ ?_ ?_ laid.shown
    fun region member => (List.mem_filter.mp member).2
  · exact whole.1
  · constructor
    · intro here
      cases List.infix_nil.mp here
    · intro _ _ here
      cases List.prefix_nil.mp here
  · exact fun left right rest out _ ih => ⟨ih.1, fun inProse => by cases inProse⟩
  · intro zone region rest out fits shown later apart ih
    refine ⟨emptyParagraph_infix_text fits (fun begins => ?_) ih.1, ?_⟩
    · have inProse : zone.behind region.tag = .prose := by
        rw [begins]
        rfl
      refine ih.2 inProse fun next isNext ends => ?_
      have pair : Export.isEmptyPair region next = true := by
        cases later with
        | nil => cases isNext
        | cons fitsNext _ =>
            rw [List.head?_cons, Option.mem_some] at isNext
            subst isNext
            exact isEmptyPair_of_fits fits fitsNext begins ends
      rw [apart next isNext] at pair
      cases pair
    · rintro rfl notEnd
      exact not_closing_prose fits shown (notEnd region rfl) out

end Lays

end Zone

end MarkPress
