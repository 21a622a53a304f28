/-
Module: MarkPress.Proofs.Render.Ledger
Purpose: The account of an element.
  Every half that is written goes into some region, and every region ends in the output, in a host
  or among what is left out. So an account can be kept for each element: what the regions and the
  texts left out hold in excess of what has been written is the paragraph that is open, less the
  paragraph ends that came while none was open. Every edit keeps the account, and at the beginning
  of a source it is zero.
Main exports:
  pairedElements, Tag.half, Region.weight, Region.weight_eq, Region.weight_captioned, Scan.ledger,
  Edit.ledger, Edits.ledger
-/
import Mathlib.Algebra.BigOperators.Group.List.Basic
import MarkPress.Proofs.Render.Tokens

namespace MarkPress

open Html

/-- The elements of the output whose tags come in pairs, without the sections. -/
def pairedElements : List Element :=
  [.p, .strong, .em, .code, .ul, .li, .a, .h1, .h2, .h3, .pre, .span]

theorem balance_flatMap {α : Type} {element : Element} {items : List α} {f : α → Text}
    (tokenized : ∀ item ∈ items, Tokenized (f item)) :
    balance element (items.flatMap f) = (items.map fun item => balance element (f item)).sum := by
  induction items with
  | nil => rfl
  | cons first rest ih =>
      rw [List.flatMap_cons, balance_append element (tokenized first List.mem_cons_self),
        ih fun item member => tokenized item (List.mem_cons_of_mem _ member)]
      rfl

/-! ### Regions -/

/-- What the element of a tag adds to the balance of its region. -/
def Tag.half (element : Element) (tag : Tag) : Int :=
  if tag.traits.element = some element then shapeBalance tag.traits.shape else 0

theorem Tag.void_not_paired {tag : Tag} (void : tag.traits.shape = .void) {element : Element}
    (paired : element ∈ pairedElements) : tag.traits.element ≠ some element := by
  have all : ∀ t ∈ Tag.all, t.traits.shape = .void →
      t.traits.element.all (fun e => decide (e ∉ pairedElements)) = true := by decide
  intro same
  have listed := all tag tag.mem_all void
  rw [same] at listed
  exact of_decide_eq_true listed paired

/-- Of the paired elements only paragraphs are written in halves by regions. -/
theorem Tag.half_eq_zero {tag : Tag} {element : Element} (paired : element ∈ pairedElements)
    (plain : tag.traits.element ≠ some .p ∨ element ≠ .p) : tag.half element = 0 := by
  have all : ∀ t ∈ Tag.all, ∀ e ∈ pairedElements, t.traits.element ≠ some .p ∨ e ≠ .p →
      t.half e = 0 := by decide
  exact all tag tag.mem_all element paired plain

theorem Tag.half_of_hidden {tag : Tag} {empty : Bool} (hidden : tag.isShown empty = false)
    {element : Element} (paired : element ∈ pairedElements) : tag.half element = 0 := by
  have all : ∀ t ∈ Tag.all, ∀ b, t.isShown b = false → ∀ e ∈ pairedElements, t.half e = 0 := by
    decide
  exact all tag tag.mem_all empty hidden element paired

namespace Region

variable {region : Region} {element : Element}

theorem balance_render (clean : region.Holds Tokenized) (paired : element ∈ pairedElements) :
    balance element region.render
      = region.tag.half element
        + if region.tag.traits.shape = .void then 0 else balance element region.inner := by
  have named : ∀ e, region.tag.traits.element = some e → e.name ∈ elementNames :=
    fun _ h => region.tag.name_mem_elementNames h
  exact Html.balance_write element named clean.attributes clean.inner
    fun void => Tag.void_not_paired void paired

/-- What a region adds to an account: what it shows and what it leaves out. -/
def weight (element : Element) (region : Region) : Int :=
  balance element region.shownText + balance element region.leftOut

/-- Without a caption behind it a region adds its content once, shown or left out. -/
theorem weight_eq (clean : region.Holds Tokenized) (paired : element ∈ pairedElements)
    (uncaptioned : region.isCaptioned = false) :
    region.weight element = region.tag.half element + balance element region.inner := by
  rw [weight, shownText, leftOut, uncaptioned]
  cases shown : region.isShown with
  | false =>
      have none := Tag.half_of_hidden shown paired
      simp [balance_nil, none]
  | true =>
      have rendered := balance_render clean paired
      by_cases void : region.tag.traits.shape = .void
      · simp [rendered, void]
      · simp [rendered, void, balance_nil]

theorem void_of_captioned (captioned : region.isCaptioned = true) :
    region.tag.traits.shape = .void := by
  simp only [isCaptioned, Bool.and_eq_true, decide_eq_true_eq] at captioned
  have all : ∀ t ∈ Tag.images, t.traits.shape = .void := by decide
  exact all region.tag captioned.1.1

theorem half_of_captioned (captioned : region.isCaptioned = true) (element : Element) :
    region.tag.half element = 0 := by
  simp [Tag.half, void_of_captioned captioned, shapeBalance]

/-- With a caption behind it an image adds nothing: the caption has its content. -/
theorem weight_captioned (clean : region.Holds Tokenized) (paired : element ∈ pairedElements)
    (captioned : region.isCaptioned = true) : region.weight element = 0 := by
  have void := void_of_captioned captioned
  have none := half_of_captioned captioned element
  rw [weight, shownText, leftOut, captioned]
  split
  · simp [balance_render clean paired, void, none, balance_nil]
  · simp [balance_nil]

theorem weight_ofTag (tag : Tag) (paired : element ∈ pairedElements) :
    (ofTag tag).weight element = tag.half element := by
  rw [weight_eq (lasting_tokenized.ofTag tag) paired (isCaptioned_ofTag tag), ofTag_inner,
    balance_nil, Int.add_zero, ofTag_tag]

theorem weight_extend (clean : region.Holds Tokenized) (paired : element ∈ pairedElements)
    (uncaptioned : region.isCaptioned = false) {text : Text} (tokenized : Tokenized text) :
    (region.extend text).weight element = region.weight element + balance element text := by
  rw [weight_eq (lasting_tokenized.extend clean tokenized) paired uncaptioned,
    weight_eq clean paired uncaptioned, inner_extend, balance_append element clean.inner]
  exact (Int.add_assoc _ _ _).symm

end Region

namespace Scan

variable {s s' : Scan} {element : Element}

/-! ### The account of an element -/

/-- The paragraph that is open, less the ends that came while none was. -/
def paragraphs (element : Element) (s : Scan) : Int :=
  if element = .p then (if s.paragraphOpen then 1 else 0) - s.surplusEnds else 0

/-- What the regions and the texts left out hold in excess of what has been written, without the
paragraphs. -/
def ledger (element : Element) (s : Scan) : Int :=
  (s.arena.map fun e => e.region.weight element).sum + (s.lost.map (balance element)).sum
    - (s.written.map (balance element)).sum - s.paragraphs element

theorem ledger_push (s : Scan) (region : Region) (element : Element) :
    (s.pushRegion region).ledger element = region.weight element + s.ledger element := by
  have same : (s.pushRegion region).paragraphs element = s.paragraphs element := rfl
  rw [ledger, ledger, same]
  simp only [pushRegion, List.map_cons, List.sum_cons]
  omega

/-- A change to one region changes the account by what it changes in the weight. -/
theorem ledger_replace {newer older : Arena} {entry : Entry}
    (split : s.arena = newer ++ entry :: older) (region : Region) :
    Scan.ledger element { s with arena := newer ++ { entry with region := region } :: older }
      = s.ledger element + region.weight element - entry.region.weight element := by
  have same : Scan.paragraphs element { s with
      arena := newer ++ { entry with region := region } :: older } = s.paragraphs element := rfl
  rw [ledger, ledger, same, split]
  simp only [List.map_append, List.map_cons, List.sum_append, List.sum_cons]
  omega

/-- What folding shows in the host and what it leaves out are what was folded. -/
theorem ledger_folded (clean : s.Holds Tokenized) (paired : element ∈ pairedElements)
    {nested older : Arena} {host : Entry} (split : s.arena = nested ++ host :: older)
    (uncaptioned : host.region.isCaptioned = false) :
    (s.folded nested host older).ledger element = s.ledger element := by
  have shown : ∀ e ∈ nested.reverse, Tokenized e.region.shownText := by
    intro e member
    have inNested := List.mem_reverse.mp member
    exact lasting_tokenized.shownText (clean.regions e (by simp [split, inNested]))
  have hostWeight := Region.weight_extend (clean.entry split) paired uncaptioned
    (tokenized_flatMap shown)
  rw [balance_flatMap shown] at hostWeight
  have parts : (nested.map fun e => e.region.weight element).sum
      = (nested.map fun e => balance element e.region.shownText).sum
        + (nested.map fun e => balance element e.region.leftOut).sum :=
    List.sum_map_add
  have same : (s.folded nested host older).paragraphs element = s.paragraphs element := rfl
  have lostToo : (nested.map fun e => e.region.leftOut).map (balance element)
      = nested.map fun e => balance element e.region.leftOut := List.map_map
  rw [List.map_reverse, List.sum_reverse] at hostWeight
  rw [ledger, ledger, same, split]
  simp only [folded, List.map_append, List.map_cons, List.sum_append, List.sum_cons, lostToo,
    hostWeight, parts]
  omega

theorem ledger_congr (arena : s'.arena = s.arena) (lost : s'.lost = s.lost)
    (written : s'.written = s.written) :
    s'.ledger element = s.ledger element + s.paragraphs element - s'.paragraphs element := by
  rw [ledger, ledger, arena, lost, written]
  omega

theorem ledger_write {text : Text} (arena : s'.arena = s.arena) (lost : s'.lost = s.lost)
    (written : s'.written = text :: s.written)
    (same : s'.paragraphs element = s.paragraphs element) :
    s'.ledger element = s.ledger element - balance element text := by
  rw [ledger, ledger, arena, lost, written, same, List.map_cons, List.sum_cons]
  omega

theorem half_paragraph (element : Element) :
    Tag.paragraphBegin.half element = (if element = .p then 1 else 0)
      ∧ Tag.paragraphEnd.half element = if element = .p then -1 else 0 := by
  cases element <;> decide

theorem ledger_endParagraph (s : Scan) (paired : element ∈ pairedElements) :
    s.endParagraph.ledger element = s.ledger element := by
  have pushed := ledger_push s (Region.ofTag .paragraphEnd) element
  have moved : s.endParagraph.ledger element
      = (s.push .paragraphEnd).ledger element + (s.push .paragraphEnd).paragraphs element
        - s.endParagraph.paragraphs element := ledger_congr rfl rfl rfl
  have before : (s.push .paragraphEnd).paragraphs element = s.paragraphs element := rfl
  have after : s.endParagraph.paragraphs element
      = s.paragraphs element - if element = .p then 1 else 0 := by
    simp only [paragraphs, endParagraph]
    cases s.paragraphOpen <;> by_cases paragraph : element = .p <;> simp [paragraph]
    omega
  rw [Region.weight_ofTag _ paired, (half_paragraph element).2] at pushed
  rw [moved, before, after, push, pushed]
  split <;> omega

theorem ledger_beginParagraph (s : Scan) (paired : element ∈ pairedElements)
    (closed : s.paragraphOpen = false) :
    Scan.ledger element { s.push .paragraphBegin with paragraphOpen := true }
      = s.ledger element := by
  have pushed := ledger_push s (Region.ofTag .paragraphBegin) element
  have moved : Scan.ledger element { s.push .paragraphBegin with paragraphOpen := true }
      = (s.push .paragraphBegin).ledger element + (s.push .paragraphBegin).paragraphs element
        - Scan.paragraphs element { s.push .paragraphBegin with paragraphOpen := true } :=
    ledger_congr rfl rfl rfl
  have before : (s.push .paragraphBegin).paragraphs element = s.paragraphs element := rfl
  have after : Scan.paragraphs element { s.push .paragraphBegin with paragraphOpen := true }
      = s.paragraphs element + if element = .p then 1 else 0 := by
    by_cases paragraph : element = .p <;>
      simp [paragraphs, paragraph, closed, push, pushRegion]
    omega
  rw [Region.weight_ofTag _ paired, (half_paragraph element).1] at pushed
  rw [moved, before, after, push, pushed]
  split <;> omega

theorem not_paragraph_of_opener {tag : Tag} (openable : tag.traits.opener.isSome = true) :
    tag.traits.element ≠ some .p := by
  have all : ∀ t ∈ Tag.all, t.traits.opener.isSome = true → t.traits.element ≠ some .p := by decide
  exact all tag tag.mem_all openable

theorem ledger_push_plain (s : Scan) (paired : element ∈ pairedElements) {tag : Tag}
    (plain : tag.traits.element ≠ some .p) : (s.push tag).ledger element = s.ledger element := by
  rw [push, ledger_push, Region.weight_ofTag _ paired, Tag.half_eq_zero paired (.inl plain),
    Int.zero_add]

/-- New attributes keep the account as long as no caption goes behind the region. -/
theorem ledger_describe (clean : s.Holds Tokenized) (paired : element ∈ pairedElements)
    {newer older : Arena} {entry : Entry} (split : s.arena = newer ++ entry :: older)
    (uncaptioned : entry.region.isCaptioned = false) {attributes : Attributes}
    (known : entry.region.attributes.Known → attributes.Known)
    (still : Region.isCaptioned { entry.region with attributes := attributes } = false) :
    Scan.ledger element { s with arena := newer
      ++ { entry with region := { entry.region with attributes := attributes } } :: older }
      = s.ledger element := by
  have old := clean.entry split
  have new : Region.Holds Tokenized { entry.region with attributes := attributes } :=
    ⟨old.inner, known old.attributes⟩
  have before := Region.weight_eq old paired uncaptioned
  have after := Region.weight_eq new paired still
  have same : Region.weight element { entry.region with attributes := attributes }
      = entry.region.weight element := after.trans before.symm
  rw [ledger_replace split, same]
  omega

/-- The content of an image goes from what is left out to the caption behind it. -/
theorem ledger_caption (clean : s.Holds Tokenized) (paired : element ∈ pairedElements)
    {newer older : Arena} {entry : Entry} (split : s.arena = newer ++ entry :: older)
    (uncaptioned : entry.region.isCaptioned = false) {attributes : Attributes}
    (known : entry.region.attributes.Known → attributes.Known)
    (captioned : Region.isCaptioned { entry.region with attributes := attributes } = true) :
    Scan.ledger element (pushRegion ((Region.ofTag .caption).extend entry.region.inner) { s with
      arena := newer
        ++ { entry with region := { entry.region with attributes := attributes } } :: older })
      = s.ledger element := by
  have old := clean.entry split
  have new : Region.Holds Tokenized { entry.region with attributes := attributes } :=
    ⟨old.inner, known old.attributes⟩
  have before := Region.weight_eq old paired uncaptioned
  have after := Region.weight_captioned new paired captioned
  have image : entry.region.tag.half element = 0 := Region.half_of_captioned captioned element
  have caption := Region.weight_extend (lasting_tokenized.ofTag .caption) paired
    (Region.isCaptioned_ofTag _) old.inner
  rw [Region.weight_ofTag _ paired, Tag.half_eq_zero paired (.inl (by decide))] at caption
  rw [ledger_push, ledger_replace split, after, caption, before]
  omega

/-- Text written into a region is in the account twice, as its content and as what has been
written. -/
theorem ledger_writeInto (clean : s.Holds Tokenized) (paired : element ∈ pairedElements)
    {newer older : Arena} {entry : Entry} (split : s.arena = newer ++ entry :: older)
    (uncaptioned : entry.region.isCaptioned = false) {text : Text} (tokenized : Tokenized text) :
    Scan.ledger element { s with
      arena := newer ++ { entry with region := entry.region.extend text } :: older
      written := text :: s.written } = s.ledger element := by
  have weight := Region.weight_extend (clean.entry split) paired uncaptioned tokenized
  let replaced : Scan := { s with
    arena := newer ++ { entry with region := entry.region.extend text } :: older }
  have account : replaced.ledger element = _ := ledger_replace split (entry.region.extend text)
  have wrote : Scan.ledger element { replaced with written := text :: s.written }
      = replaced.ledger element - balance element text := ledger_write rfl rfl rfl rfl
  apply wrote.trans
  rw [account, weight]
  omega

/-- Every edit keeps the account. -/
theorem Edit.ledger (edit : Edit s s') (clean : s.Holds Tokenized)
    (paired : element ∈ pairedElements) : s'.ledger element = s.ledger element := by
  cases edit with
  | control same =>
      simp only [content, Prod.mk.injEq] at same
      obtain ⟨arena, -, -, -, paragraphOpen, written, lost, surplusEnds, -⟩ := same
      rw [Scan.ledger, Scan.ledger, paragraphs, paragraphs, arena, lost, written, paragraphOpen,
        surplusEnds]
  | push tag plain => exact ledger_push_plain s paired plain
  | endParagraph => exact ledger_endParagraph s paired
  | beginParagraph closed => exact ledger_beginParagraph s paired closed
  | write split uncaptioned inline =>
      exact ledger_writeInto clean paired split uncaptioned inline.tokenized
  | describe split uncaptioned known still =>
      exact ledger_describe clean paired split uncaptioned known still
  | caption split ended uncaptioned known captioned =>
      exact ledger_caption clean paired split uncaptioned known captioned
  | fold split uncaptioned => exact ledger_folded clean paired split uncaptioned
  | openRegion closed openable region =>
      exact ledger_push_plain s paired (not_paragraph_of_opener openable)
  | openInline => rfl
  | forget tag => rfl

theorem root_ledger (source : Text) (paired : element ∈ pairedElements) :
    (root source).ledger element = 0 := by
  have empty : Scan.ledger element { rest := source.normalizeBreaks } = 0 := by
    simp [ledger, paragraphs]
  rw [root, ledger_push_plain _ paired (by decide), empty]

theorem Edits.ledger {source : Text} (edits : Edits (root source) s)
    (paired : element ∈ pairedElements) : s.ledger element = 0 := by
  have kept : s.Sound ∧ s.Holds Tokenized ∧ s.ledger element = 0 := by
    apply edits.keeps _ (root_sound source)
      ⟨root_holds lasting_tokenized source, root_ledger source paired⟩
    intro a b edit sound met
    obtain ⟨clean, settled⟩ := met
    exact ⟨edit.holds lasting_tokenized clean, (edit.ledger clean paired).trans settled⟩
  exact kept.2.2

end Scan

end MarkPress
