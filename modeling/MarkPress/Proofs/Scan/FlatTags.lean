/-
Module: MarkPress.Proofs.Scan.FlatTags
Purpose: The beginnings and ends of tags in sources without brackets.
  The region of the tag that ends is the newest one, so what ending it does can be told outright: a
  heading closes its section, a block of code leaves the paragraph alone inside of a list, goes into
  the heading that it stands in, or begins a new paragraph. Every beginning and every end leaves the
  scan flat.
Main exports:
  closeTag_heading_eq, closeTag_block_eq, closeTag_nested_eq, closeTag_flat, openTag_flat
-/
import MarkPress.Proofs.Scan.Flat

namespace MarkPress.Scan

open Html

variable {s s' : Scan} {fail : RegionError → Prop} {calm : Prop} {zone : Zone} {tag : Tag}
  {serial : Nat} {region : Region} {older : Arena}

/-! ### The tags that stay open -/

theorem openRegions_forget (s : Scan) (tag : Tag) :
    (s.forget tag).openRegions = s.openRegions.filter fun o => o.tag ≠ tag := by
  simp only [openRegions, forget]
  induction s.opened with
  | nil => rfl
  | cons o rest ih =>
      obtain ⟨other, region⟩ := o
      by_cases same : other = tag
      · cases region <;> simpa [same] using ih
      · cases region <;> simpa [same] using ih

/-- The end of an inline tag closes no region. -/
theorem openRegions_forget_inline (sound : s.Sound) (inline : tag.traits.isRegion = false) :
    (s.forget tag).openRegions = s.openRegions := by
  rw [openRegions_forget, List.filter_eq_self]
  intro o member
  have region := sound.isRegion_of_open member
  simp only [ne_eq, decide_eq_true_eq]
  rintro rfl
  rw [inline] at region
  cases region

/-- The end of the region tag opened last leaves the others open. -/
theorem openRegions_forget_head (sound : s.Sound) {others : List OpenRegion}
    (split : s.openRegions = ⟨tag, serial⟩ :: others) : (s.forget tag).openRegions = others := by
  have descending := sound.descending
  rw [split, List.map_cons, List.pairwise_cons] at descending
  have head : (⟨tag, serial⟩ : OpenRegion) ∈ s.openRegions := by simp [split]
  rw [openRegions_forget, split, List.filter_cons_of_neg (by simp), List.filter_eq_self]
  intro o member
  simp only [ne_eq, decide_eq_true_eq]
  intro same
  have isOpen : o ∈ s.openRegions := by simp [split, member]
  have older := descending.1 o.serial (List.mem_map_of_mem member)
  have found := serialOf_of_open sound head
  rw [← same, serialOf_of_open sound isOpen, Option.some.injEq] at found
  exact Nat.lt_irrefl _ (found ▸ older)

theorem forget_bare (flat : s.Flat) (tag : Tag) : ∀ o ∈ (s.forget tag).opened, o.tag.IsBare :=
  fun o member => flat.bare o (mem_forget.mp member).1

/-! ### Leaving a region -/

/-- The end of the region tag opened last does what its closing action says, and leaves the
region. -/
theorem closeTag_head_eq (sound : s.Sound) (head : ⟨tag, serial⟩ ∈ s.openRegions) {ended : Scan}
    (ends : (s.forget tag).endRegion captureAddress tag (some serial) = .ok ended) :
    s.closeTag tag = ended.leave (some serial) := by
  have found : s.serialOf tag = some serial := serialOf_of_open sound head
  rw [closeTag, closeTagWith, found, if_pos (sound.isRegion_of_open head), ends]
  rfl

theorem hostOf_bottom (bottom : s.openRegions = []) (region : Option Nat) :
    s.hostOf region = none := by
  cases region with
  | none => simp [hostOf, bottom]
  | some serial => simp [hostOf, bottom]

theorem isOpen_bottom (bottom : s.openRegions = []) (serial : Nat) : s.isOpen serial = false := by
  apply Bool.eq_false_iff.mpr
  intro isOpen
  obtain ⟨o, member, -⟩ := isOpen_iff.mp isOpen
  rw [bottom] at member
  cases member

/-- Where no region is open, a region that ends stays where it is, and is followed by a text if the
newest region is not one. -/
theorem leave_bottom (bottom : s.openRegions = []) {entry : Entry}
    (split : s.arena = entry :: older) (region : Option Nat) :
    s.leave region = .ok (if entry.region.tag == .text then s else s.push .text) := by
  have noHost : (region.bind fun serial => s.hostOf (some serial)) = none := by
    cases region with
    | none => rfl
    | some serial =>
        rw [Option.bind_some]
        exact hostOf_bottom bottom _
  simp only [leave, noHost, bind, Except.bind, split, isOpen_bottom bottom, Bool.false_or]
  rfl

/-- Behind the beginning of a paragraph nothing is left to do for a region that has ended. -/
theorem leave_openParagraph (bottom : s.openParagraph.openRegions = []) (region : Option Nat) :
    s.openParagraph.leave region = .ok s.openParagraph :=
  leave_bottom bottom rfl region

/-! ### Headings -/

/-- The anchor of a heading ends in the newest region, if it is open. -/
def endAnchor (s : Scan) : Scan :=
  if s.headingAnchorOpen then { s.put Tag.anchor.closeHalf with headingAnchorOpen := false } else s

/-- A heading that is the newest region and the only open one ends with its section. -/
theorem closeTag_heading_eq (sound : s.Sound) (heading : tag.isHeading = true)
    (split : s.arena = ⟨serial, region⟩ :: older) (only : s.openRegions = [⟨tag, serial⟩]) :
    s.closeTag tag = .ok (s.forget tag).endAnchor.nextSection := by
  have action : tag.traits.onClose = .heading := by simpa [Tag.isHeading] using heading
  have unsealed : region.isSealed = false := sound.unsealed ⟨serial, region⟩ (by simp [split])
  have bottom : (s.forget tag).openRegions = [] := openRegions_forget_head sound only
  have ended : (s.forget tag).endRegion captureAddress tag (some serial)
      = .ok (s.forget tag).endAnchor.nextSection := by
    simp only [endRegion, action, endHeading, endAnchor]
    split
    · have parted : (s.forget tag).arena = [] ++ ⟨serial, region⟩ :: older := split
      have closed := closeAnchor_eq (sound.forget tag).distinct parted unsealed
      simp only at closed
      rw [closed]
      have same : (s.forget tag).put Tag.anchor.closeHalf
          = { s.forget tag with
              arena := ⟨serial, region.extend Tag.anchor.closeHalf⟩ :: older
              written := Tag.anchor.closeHalf :: s.written } := by
        rw [put, show (s.forget tag).arena = ⟨serial, region⟩ :: older from split]
        rfl
      rw [same]
      rfl
    · rfl
  have noRegion : (s.forget tag).endAnchor.nextSection.openRegions = [] := by
    rw [← bottom, endAnchor]
    split <;> rfl
  rw [closeTag_head_eq sound (by simp [only]) ended]
  exact leave_openParagraph noRegion _

theorem Laid.nextSection (laid : s.Laid .blocks) : s.nextSection.Laid .prose := by
  have ended := laid.endParagraph (by decide)
  have begun := (ended.push .sectionEnd (by decide)).push .sectionBegin (by decide)
  exact Laid.openParagraph (s := (s.endParagraph.push .sectionEnd).push .sectionBegin) begun

theorem Laid.endAnchor (laid : s.Laid zone) (receives : s.Receives) : s.endAnchor.Laid zone := by
  rw [Scan.endAnchor]
  split
  · exact (laid.put_receives receives (Tag.inlay_anchor (Tag.attributes_known _) (.inr rfl))).congr
      rfl rfl
  · exact laid

/-! ### Blocks of code -/

/-- A block of code that is the newest region and the only open one is followed by a text in a list,
and by a paragraph otherwise. -/
theorem closeTag_block_eq (sound : s.Sound) (split : s.arena = ⟨serial, region⟩ :: older)
    (only : s.openRegions = [⟨.codeBlock, serial⟩]) :
    s.closeTag .codeBlock
      = .ok (if s.listLevel = 0 then (s.forget .codeBlock).endParagraph.openParagraph
        else (s.forget .codeBlock).push .text) := by
  have member : (⟨.codeBlock, serial⟩ : OpenRegion) ∈ s.openRegions := by simp [only]
  have bottom : (s.forget .codeBlock).openRegions = [] := openRegions_forget_head sound only
  have block : region.tag = .codeBlock := by
    obtain ⟨e, eMember, eSerial, eTag⟩ := sound.entry_of_open member
    have same : e = ⟨serial, region⟩ := sound.entry_unique eMember (by simp [split]) eSerial
    rw [same] at eTag
    exact eTag
  have ended : (s.forget .codeBlock).endRegion captureAddress .codeBlock (some serial)
      = .ok (if s.listLevel = 0 then (s.forget .codeBlock).endParagraph.openParagraph
        else s.forget .codeBlock) := by
    have nested : (s.forget .codeBlock).isNested (some serial) = (s.listLevel != 0) := by
      rw [isNested, hostOf_bottom bottom]
      exact Bool.or_false _
    simp only [endRegion, show Tag.codeBlock.traits.onClose = .block from rfl, endBlock, nested]
    by_cases outside : s.listLevel = 0 <;> simp [outside]
  rw [closeTag_head_eq sound member ended]
  split
  · have noRegion : (s.forget .codeBlock).endParagraph.openParagraph.openRegions = [] := by
      rw [← bottom]
      rfl
    exact leave_openParagraph noRegion _
  · have splitForget : (s.forget .codeBlock).arena = ⟨serial, region⟩ :: older := split
    rw [leave_bottom bottom splitForget]
    simp [block]

/-- A block of code inside of a heading goes into the heading. -/
theorem closeTag_nested_eq (sound : s.Sound) {host : Entry}
    (split : s.arena = ⟨serial, region⟩ :: host :: older) (block : region.tag = .codeBlock)
    {hostTag : Tag} {others : List OpenRegion}
    (nested : s.openRegions = ⟨.codeBlock, serial⟩ :: ⟨hostTag, host.serial⟩ :: others) :
    s.closeTag .codeBlock
      = .ok ((s.forget .codeBlock).folded [⟨serial, region⟩] host older) := by
  have sound' := sound.forget .codeBlock
  have left := openRegions_forget_head sound nested
  have splitForget : (s.forget .codeBlock).arena = [⟨serial, region⟩] ++ host :: older := split
  have among : serial ∈ ([⟨serial, region⟩] : Arena).map Entry.serial := by simp
  have hosted := hostOf_last sound' splitForget among left
  have ended : (s.forget .codeBlock).endRegion captureAddress .codeBlock (some serial)
      = .ok (s.forget .codeBlock) := by
    simp only [endRegion, show Tag.codeBlock.traits.onClose = .block from rfl, endBlock, isNested,
      hosted, Option.isSome_some, Bool.or_true, if_true]
  have noLink : ([⟨serial, region⟩] : Arena).any (·.region.tag == .link) = false := by
    simp [block]
  have stays : (s.forget .codeBlock).endsAnchor hostTag [⟨serial, region⟩] = false := by
    rw [endsAnchor, noLink, Bool.and_false]
  rw [closeTag_head_eq sound (by simp [nested]) ended, leave_into_eq sound' splitForget among left]
  exact fold_into_eq sound' splitForget stays

/-! ### The end of a tag -/

/-- The region opened last is the newest one, and the others follow it. -/
theorem Flat.front_cons (flat : s.Flat) {o : OpenRegion} {others : List OpenRegion}
    (split : s.openRegions = o :: others) :
    ∃ region older, s.arena = ⟨o.serial, region⟩ :: older ∧ region.tag = o.tag
      ∧ others.map (fun o => (o.serial, o.tag)) <+: older.map Entry.label := by
  have front := flat.front
  rw [split, List.map_cons] at front
  cases arenaEq : s.arena with
  | nil =>
      rw [arenaEq] at front
      cases List.prefix_nil.mp front
  | cons entry older =>
      obtain ⟨serial, region⟩ := entry
      rw [arenaEq, List.map_cons, List.cons_prefix_cons] at front
      obtain ⟨label, behind⟩ := front
      simp only [Entry.label, Entry.tag, Prod.mk.injEq] at label
      obtain ⟨rfl, tag⟩ := label
      exact ⟨region, older, rfl, tag.symm, behind⟩

/-- Only headings are open around the region opened last, and a heading has none around it. -/
theorem Flat.others_heading (flat : s.Flat) (coherent : s.Coherent calm) {o : OpenRegion}
    {others : List OpenRegion} (split : s.openRegions = o :: others) :
    (∀ other ∈ others, other.tag.isHeading = true) ∧ (o.tag.isHeading = true → others = []) := by
  have sound := coherent.sound
  have descending := sound.descending
  rw [split, List.map_cons, List.pairwise_cons] at descending
  have head : o ∈ s.openRegions := by simp [split]
  have isOpen : ∀ other ∈ others, other ∈ s.openRegions := fun other member => by
    simp [split, member]
  have differs : ∀ other ∈ others, other.tag ≠ o.tag := by
    intro other member same
    have found := serialOf_of_open sound head
    rw [← same, serialOf_of_open sound (isOpen other member), Option.some.injEq] at found
    exact Nat.lt_irrefl _ (found ▸ descending.1 _ (List.mem_map_of_mem member))
  have headings : ∀ other ∈ others, other.tag.isHeading = true := by
    intro other member
    rcases flat.open_cases sound (isOpen other member) with block | heading
    · -- a block of code is exclusive, so it would have been opened last
      have exclusive := coherent.control.only _ (mem_openRegions.mp (isOpen other member))
        (by simp [block, Tag.traits])
      have newest := newest_of_head sound (coherent.control.first _ exclusive).2
        (isOpen other member) o head (Ne.symm (differs other member))
      exact absurd newest (Nat.lt_asymm (descending.1 _ (List.mem_map_of_mem member)))
    · exact heading
  refine ⟨headings, fun heading => ?_⟩
  rw [List.eq_nil_iff_forall_not_mem]
  intro other member
  have same := coherent.control.single_eq (mem_openRegions.mp (isOpen other member))
    (mem_openRegions.mp head) (Tag.isSingleLine_of_isHeading (headings other member))
    (Tag.isSingleLine_of_isHeading heading)
  exact differs other member same

theorem closeInline_flat (flat : s.Flat) (coherent : s.Coherent calm)
    (mayEnd : s.MayEnd calm tag) (inline : tag.traits.isRegion = false) :
    Meets fail Flat (s.closeTag tag) := by
  have sound := coherent.sound
  have same := openRegions_forget_inline sound inline
  obtain ⟨o, isOpened, rfl⟩ := mayEnd.active
  have forgotten : (s.forget o.tag).Flat := {
    laid := flat.laid.congr rfl rfl
    front := by
      rw [same]
      exact flat.front
    paragraph := by
      rw [same]
      exact flat.paragraph
    heading := by
      rintro ⟨h, member, heading⟩
      exact flat.heading ⟨h, (mem_forget.mp member).1, heading⟩
    rest := flat.rest
    bare := forget_bare flat o.tag }
  have receives : (s.forget o.tag).Receives := flat.receives sound coherent.writable
  rw [closeTag, closeTagWith, if_neg (by simp [inline])]
  exact forgotten.write receives (Tag.inlay_halves (sound.openable o isOpened) inline).2

theorem closeHeading_flat (flat : s.Flat) (coherent : s.Coherent calm)
    (mayEnd : s.MayEnd calm tag) (heading : tag.isHeading = true) {others : List OpenRegion}
    (split : s.openRegions = ⟨tag, serial⟩ :: others) :
    Meets (Refused calm) Flat (s.closeTag tag) := by
  have sound := coherent.sound
  have meets := closeTag_meets coherent mayEnd
  obtain ⟨region, older, arena, -, -⟩ := flat.front_cons split
  rw [(flat.others_heading coherent split).2 heading] at split
  have bottom : (s.forget tag).openRegions = [] := openRegions_forget_head sound split
  have head : (⟨tag, serial⟩ : OpenRegion) ∈ s.openRegions := by simp [split]
  have isOpen : ∃ o ∈ s.opened, o.tag.isHeading = true :=
    ⟨_, mem_openRegions.mp head, heading⟩
  have blocks : s.zone = .blocks := flat.zone_eq fun h => by simp [split] at h
  have laid : (s.forget tag).Laid .blocks := (blocks ▸ flat.laid).congr rfl rfl
  have receives : (s.forget tag).Receives := flat.receives sound coherent.writable
  rw [closeTag_heading_eq sound heading arena split] at meets ⊢
  obtain ⟨coherent', closes, -⟩ := meets
  refine .of_bottom coherent'.sound ?_ (laid.endAnchor receives).nextSection ?_ ?_ ?_
  · rw [← bottom, endAnchor]
    split <;> rfl
  · have level : (s.forget tag).endAnchor.nextSection.listLevel = s.listLevel := by
      rw [endAnchor]
      split <;> rfl
    rw [level]
    exact ⟨fun _ => flat.heading isOpen, fun _ => rfl⟩
  · rw [closes.rest]
    exact flat.rest
  · exact fun o member => flat.bare o (closes.opened.subset member)

theorem closeBlock_flat (flat : s.Flat) (coherent : s.Coherent calm)
    (mayEnd : s.MayEnd calm .codeBlock) {others : List OpenRegion}
    (split : s.openRegions = ⟨.codeBlock, serial⟩ :: others) :
    Meets (Refused calm) Flat (s.closeTag .codeBlock) := by
  have sound := coherent.sound
  have meets := closeTag_meets coherent mayEnd
  obtain ⟨region, older, arena, block, behind⟩ := flat.front_cons split
  have left := openRegions_forget_head sound split
  have blocks : s.zone = .blocks := flat.zone_eq fun h => by simp [split] at h
  have closed : s.paragraphOpen = false := by
    apply Bool.eq_false_iff.mpr
    intro isOpen
    have bottom := (flat.paragraph.mp isOpen).2
    simp [split] at bottom
  have laid : (s.forget .codeBlock).Laid .blocks := (blocks ▸ flat.laid).congr rfl rfl
  cases others with
  | nil =>
      rw [closeTag_block_eq sound arena split] at meets ⊢
      obtain ⟨coherent', closes, -⟩ := meets
      refine .of_bottom coherent'.sound ?_ ?_ ?_ ?_ ?_
      · rw [← left]
        split <;> rfl
      · split
        · have ended : (s.forget .codeBlock).endParagraph.Laid
              (s.forget .codeBlock).endParagraph.zone := laid.endParagraph (by decide)
          exact ended.openParagraph
        · have zone : ((s.forget .codeBlock).push .text).zone = .blocks :=
            if_neg (by simp [push, pushRegion, forget, closed])
          rw [zone]
          exact laid.push .text (by decide)
      · split
        · rename_i outside
          exact ⟨fun _ => outside, fun _ => rfl⟩
        · rename_i inside
          have stays : ((s.forget .codeBlock).push .text).paragraphOpen = false := closed
          have level : ((s.forget .codeBlock).push .text).listLevel = s.listLevel := rfl
          simp [stays, level, inside]
      · rw [closes.rest]
        exact flat.rest
      · exact fun o member => flat.bare o (closes.opened.subset member)
  | cons host outer =>
      have heading := (flat.others_heading coherent split).1 host (by simp)
      cases older with
      | nil => cases List.prefix_nil.mp behind
      | cons entry older =>
          obtain ⟨label, further⟩ := List.cons_prefix_cons.mp behind
          obtain ⟨serialEq, tagEq⟩ := Prod.mk.inj label
          have nested : s.openRegions
              = ⟨.codeBlock, serial⟩ :: ⟨host.tag, entry.serial⟩ :: outer := by
            rw [split, ← serialEq]
          have whole : entry.region.tag.traits.shape = .whole := by
            rw [tagEq] at heading
            exact Tag.shape_of_block_or_heading (.inr heading)
          rw [closeTag_nested_eq sound arena block nested] at meets ⊢
          obtain ⟨coherent', closes, -⟩ := meets
          have zone : ((s.forget .codeBlock).folded [⟨serial, region⟩] entry older).zone
              = .blocks := if_neg (by simp [folded, forget, closed])
          have stays : ((s.forget .codeBlock).folded [⟨serial, region⟩] entry older).openRegions
              = host :: outer := left
          have arena' : (s.forget .codeBlock).arena = ⟨serial, region⟩ :: entry :: older := arena
          exact {
            laid := zone ▸ laid.fold arena' block whole
            front := by
              rw [stays]
              exact List.cons_prefix_cons.mpr ⟨label, further⟩
            paragraph := by
              rw [stays]
              simp [folded, forget, closed]
            heading := by
              rintro ⟨h, member, isHeading⟩
              exact flat.heading ⟨h, closes.opened.subset member, isHeading⟩
            rest := flat.rest
            bare := fun o member => flat.bare o (closes.opened.subset member) }

/-- A tag that may end leaves the scan flat, if its region is the one opened last. -/
theorem closeTag_flat (flat : s.Flat) (coherent : s.Coherent calm) (mayEnd : s.MayEnd calm tag)
    (last : tag.traits.isRegion = true → ∃ serial others, s.openRegions = ⟨tag, serial⟩ :: others) :
    Meets (Refused calm) Flat (s.closeTag tag) := by
  cases region : tag.traits.isRegion with
  | false => exact closeInline_flat flat coherent mayEnd region
  | true =>
      obtain ⟨serial, others, split⟩ := last region
      rcases flat.open_cases coherent.sound (o := ⟨tag, serial⟩) (by simp [split]) with
        block | heading
      · simp only at block
        subst block
        exact closeBlock_flat flat coherent mayEnd split
      · exact closeHeading_flat flat coherent mayEnd heading split

/-! ### The beginning of a tag -/

/-- Where no tag is exclusive, the open regions are headings. -/
theorem Flat.open_heading (flat : s.Flat) (coherent : s.Coherent calm) (free : s.exclusive = none) :
    ∀ o ∈ s.openRegions, o.tag.isHeading = true := by
  intro o member
  rcases flat.open_cases coherent.sound member with block | heading
  · have exclusive := coherent.control.only _ (mem_openRegions.mp member)
      (by simp [block, Tag.traits])
    rw [free] at exclusive
    cases exclusive
  · exact heading

/-- Where no tag is exclusive and none ends with its line, no region is open. -/
theorem Flat.bottom (flat : s.Flat) (coherent : s.Coherent calm) (free : s.exclusive = none)
    (noLine : ∀ o ∈ s.opened, o.tag.isSingleLine = false) : s.openRegions = [] := by
  rw [List.eq_nil_iff_forall_not_mem]
  intro o member
  have single := Tag.isSingleLine_of_isHeading (flat.open_heading coherent free o member)
  rw [noLine _ (mem_openRegions.mp member)] at single
  cases single

/-- The anchor of a heading begins in the newest region. -/
theorem beginAnchor_flat (flat : s.Flat) (receives : s.Receives) :
    Meets fail Flat s.beginAnchor := by
  rw [beginAnchor]
  generalize Slug.freshId s.anchorIds (Slug.headingBase (s.rest.takeWhile (· != '\n'))) = name
  have named : Flat { s with anchorIds := name :: s.anchorIds } :=
    flat.flags rfl rfl rfl rfl rfl fun _ => id
  apply Meets.bind (named.write receives (Tag.inlay_anchor (anchor_known name) (.inl rfl)))
  intro s₁ flat₁
  exact flat₁.flags rfl rfl rfl rfl rfl fun _ => id

/-- A block leaves the paragraph first, if one is open. -/
theorem Flat.leaveParagraph (flat : s.Flat) (block : tag = .codeBlock ∨ tag.isHeading = true)
    (alone : tag.isHeading = true → s.listLevel = 0 ∧ s.openRegions = []) {s₁ : Scan}
    (left : s₁ = if s.startsBlock tag then s.endParagraph else s) :
    s₁.Laid .blocks ∧ s₁.paragraphOpen = false
      ∧ s.openRegions.map (fun o => (o.serial, o.tag)) <+: s₁.arena.map Entry.label := by
  by_cases outer : s.listLevel = 0 ∧ s.openRegions = []
  · have starts : s.startsBlock tag = true := by
      rcases block with rfl | heading
      · simp [startsBlock, Tag.traits, isNested, hostOf, outer]
      · have action : tag.traits.onOpen = .heading := by
          cases tag <;> first | rfl | cases heading
        simp [startsBlock, action]
    have inProse : s.zone = .prose := if_pos (flat.paragraph.mpr outer)
    have laid := flat.laid
    rw [inProse] at laid
    rw [if_pos starts] at left
    subst left
    rw [outer.2]
    exact ⟨laid.endParagraph (by decide), rfl, List.nil_prefix⟩
  · have nested : s.startsBlock tag = false := by
      rcases block with rfl | heading
      · simp only [startsBlock, Tag.traits, isNested, hostOf]
        rcases not_and_or.mp outer with inList | inRegion
        · simp [inList]
        · cases openEq : s.openRegions with
          | nil => exact absurd openEq inRegion
          | cons o others => simp
      · exact absurd (alone heading) outer
    have closed : s.paragraphOpen = false :=
      Bool.eq_false_iff.mpr fun isOpen => outer (flat.paragraph.mp isOpen)
    rw [nested] at left
    subst left
    exact ⟨flat.zone_eq outer ▸ flat.laid, closed, flat.front⟩

theorem openRegion_flat (flat : s.Flat) (bare : tag.IsBare)
    (block : tag = .codeBlock ∨ tag.isHeading = true)
    (alone : tag.isHeading = true → s.listLevel = 0 ∧ s.openRegions = []) :
    Meets fail Flat (s.openRegion tag) := by
  rw [openRegion]
  generalize leftEq : (if s.startsBlock tag then s.endParagraph else s) = s₁
  obtain ⟨laid, closed, front⟩ := flat.leaveParagraph block alone leftEq.symm
  have opened : s₁.opened = s.opened := by
    rw [← leftEq]
    split <;> rfl
  have level : s₁.listLevel = s.listLevel := by
    rw [← leftEq]
    split <;> rfl
  have rest : s₁.rest = s.rest := by
    rw [← leftEq]
    split <;> rfl
  let s₂ : Scan := { s₁.push tag with
    opened := ⟨tag, some s₁.nextSerial⟩ :: s₁.opened
    atBlockStart := false }
  have regions : s₂.openRegions = ⟨tag, s₁.nextSerial⟩ :: s.openRegions := by
    rw [← openRegions_congr opened]
    rfl
  obtain ⟨member, behind⟩ := Tag.mem_blocks_of_block_or_heading block
  have zone : s₂.zone = .blocks := if_neg (by simp [s₂, push, pushRegion, closed])
  have flat₂ : s₂.Flat := {
    laid := by
      rw [zone]
      have pushed := laid.push tag member
      rw [behind] at pushed
      exact pushed.congr rfl rfl
    front := by
      rw [regions]
      exact List.cons_prefix_cons.mpr ⟨rfl, front⟩
    paragraph := by
      rw [regions]
      simp [s₂, push, pushRegion, closed]
    heading := by
      rintro ⟨o, isOpened, heading⟩
      have level₂ : s₂.listLevel = s.listLevel := level
      rw [level₂]
      rcases List.mem_cons.mp isOpened with rfl | old
      · exact (alone heading).1
      · exact flat.heading ⟨o, opened ▸ old, heading⟩
    rest := by
      have rest₂ : s₂.rest = s.rest := rest
      rw [rest₂]
      exact flat.rest
    bare := by
      intro o isOpened
      rcases List.mem_cons.mp isOpened with rfl | old
      · exact bare
      · exact flat.bare o (opened ▸ old) }
  have receives : s₂.Receives := ⟨_, _, rfl, rfl, Tag.shape_of_block_or_heading block⟩
  cases action : tag.traits.onOpen with
  | heading => exact beginAnchor_flat flat₂ receives
  | plain => exact flat₂
  | block => exact flat₂
  | item => exact flat₂

theorem openInline_flat (flat : s.Flat) (sound : s.Sound) (writable : s.Writable)
    (bare : tag.IsBare) (openable : tag.traits.opener.isSome = true)
    (inline : tag.traits.isRegion = false) (closed : s.isActive tag = false)
    (bottom : tag.isSingleLine = true → s.openRegions = []) :
    Meets fail Flat (s.openInline tag) := by
  have noHeading : tag.isHeading = false := by
    apply Bool.eq_false_iff.mpr
    intro heading
    rw [Tag.isRegion_of_isHeading heading] at inline
    cases inline
  have opens : Flat { s with opened := ⟨tag, none⟩ :: s.opened } := {
    laid := flat.laid.congr rfl rfl
    front := flat.front
    paragraph := flat.paragraph
    heading := by
      rintro ⟨o, isOpened, heading⟩
      rcases List.mem_cons.mp isOpened with rfl | old
      · simp [noHeading] at heading
      · exact flat.heading ⟨o, old, heading⟩
    rest := flat.rest
    bare := List.forall_mem_cons.mpr ⟨bare, flat.bare⟩ }
  have sound' := (Edit.openInline s closed openable inline).sound sound
  have writable' := writable_of_opened writable ⟨tag, none⟩
  have half : ∀ s₁ : Scan, s₁.Flat → s₁.Sound → s₁.Writable →
      Meets fail Flat
        (s₁.write tag.openHalf >>= fun s => pure { s with atBlockStart := false }) := by
    intro s₁ flat₁ sound₁ writable₁
    apply Meets.bind (flat₁.write (flat₁.receives sound₁ writable₁)
      (Tag.inlay_halves openable inline).1)
    intro s₂ flat₂
    exact flat₂.flags rfl rfl rfl rfl rfl fun _ => id
  cases action : tag.traits.onOpen with
  | plain =>
      simp only [openInline, action]
      exact half _ opens sound' writable'
  | block =>
      simp only [openInline, action]
      exact half _ opens sound' writable'
  | item =>
      have single : tag.isSingleLine = true := by
        cases tag <;> first | rfl | cases action
      simp only [openInline, action]
      apply Meets.bind ((setListLevel_flat opens sound' writable' (bottom single) _).and
        (setListLevel_meets sound' writable' _))
      rintro s₁ ⟨flat₁, adds, writable₁, -⟩
      exact half _ flat₁ (adds.sound sound') writable₁
  | heading => simp [isHeading_of_onOpen action] at noHeading

/-- The beginning of a tag that may begin leaves the scan flat, if a heading begins outside of
lists. -/
theorem openTag_flat (flat : s.Flat) (coherent : s.Coherent calm) (mayBegin : s.MayBegin calm tag)
    (bare : tag.IsBare) (outside : tag.isHeading = true → s.listLevel = 0) :
    Meets fail Flat (s.openTag tag) := by
  have bottom : tag.isSingleLine = true → s.openRegions = [] := fun single =>
    flat.bottom coherent mayBegin.free (mayBegin.alone single)
  let s₁ : Scan := { s with
    skipWhitespace := s.skipWhitespace || tag.isSingleLine
    pendingSpace := s.pendingSpace && !(tag.isSingleLine || s.startsBlock tag) }
  have sound₁ : s₁.Sound := coherent.sound.congr rfl
  have writable₁ : s₁.Writable := coherent.writable
  have flat₁ : s₁.Flat := flat.flags rfl rfl rfl rfl rfl fun _ => id
  have flush : Meets fail _ _ :=
    (flushSpace_flat flat₁ sound₁ writable₁).and (flushSpace_meets sound₁ writable₁)
  rw [flushSpace_eq (sound₁.takesText writable₁)] at flush
  obtain ⟨flat₂, adds, writable₂⟩ := flush
  have sound₂ := adds.sound sound₁
  have opened : s₁.spaced.opened = s.opened := adds.keeps.opened
  have flat₃ : Flat { s₁.spaced with
      exclusive := if tag.traits.isExclusive then some tag else s₁.spaced.exclusive
      afterFence := s₁.spaced.afterFence || tag.traits.isVerbatim } :=
    flat₂.flags rfl rfl rfl rfl rfl fun _ => id
  have bottom₂ : tag.isSingleLine = true → s₁.spaced.openRegions = [] := fun single =>
    (openRegions_congr opened).trans (bottom single)
  rw [openTag]
  apply Meets.bind
  · have spaced : Meets fail (fun s₂ => s₂ = s₁.spaced) s₁.flushSpace := by
      rw [flushSpace_eq (sound₁.takesText writable₁)]
      rfl
    exact spaced
  · rintro _ rfl
    cases region : tag.traits.isRegion with
    | true =>
        refine openRegion_flat flat₃ bare (bare.region_cases mayBegin.openable region) ?_
        intro heading
        have level : s₁.spaced.listLevel = s.listLevel := s₁.spaced_listLevel
        exact ⟨level.trans (outside heading), bottom₂ (Tag.isSingleLine_of_isHeading heading)⟩
    | false =>
        have closed : s₁.spaced.isActive tag = false := by
          rw [isActive, opened]
          exact mayBegin.closed
        exact openInline_flat flat₃ (sound₂.congr rfl) writable₂ bare mayBegin.openable region
          closed bottom₂

end MarkPress.Scan
