/-
Module: MarkPress.Proofs.Scan.Flat
Purpose: Scans of sources without brackets.
  Without brackets only headings and blocks of code have regions of their own, and these are the
  newest regions as long as they are open. So a paragraph is open exactly outside of lists and open
  regions, and the regions are laid out in zones. This module has the invariant and the operations
  that write text; the beginnings and ends of tags follow.
Main exports:
  Scan.Receives, Scan.Flat, Flat.receives, Flat.write, flushSpace_flat, appendLiteral_flat,
  setListLevel_flat
-/
import MarkPress.Proofs.Scan.Layout

namespace MarkPress

open Html

namespace Tag

/-- A tag that needs no bracket to begin. -/
def IsBare (tag : Tag) : Prop := tag ∉ urlTargets ∧ tag ≠ .url

variable {tag : Tag} {zone : Zone}

/-- Without brackets the regions that open are headings and blocks of code. -/
theorem IsBare.region_cases (bare : tag.IsBare) (openable : tag.traits.opener.isSome = true)
    (region : tag.traits.isRegion = true) : tag = .codeBlock ∨ tag.isHeading = true := by
  obtain ⟨noTarget, noUrl⟩ := bare
  cases tag <;> simp_all [traits, headingTraits, isHeading, urlTargets, images]

theorem shape_of_block_or_heading (block : tag = .codeBlock ∨ tag.isHeading = true) :
    tag.traits.shape = .whole := by
  cases tag <;> simp_all [traits, headingTraits, isHeading]

theorem mem_blocks_of_block_or_heading (block : tag = .codeBlock ∨ tag.isHeading = true) :
    tag ∈ Zone.tags .blocks ∧ Zone.behind .blocks tag = .blocks := by
  cases tag <;> simp_all [traits, headingTraits, isHeading, Zone.tags, Zone.behind]

/-- The halves that inline tags write may stand everywhere. -/
theorem inlay_halves (openable : tag.traits.opener.isSome = true)
    (inline : tag.traits.isRegion = false) :
    zone.Inlay tag.openHalf ∧ zone.Inlay tag.closeHalf := by
  have all : ∀ t ∈ [Tag.code, .bold, .italic, .listItem],
      Free (.ul :: regionElements) t.openHalf ∧ Free (.ul :: regionElements) t.closeHalf := by
    simp only [Free]
    decide +kernel
  have among : tag ∈ [Tag.code, .bold, .italic, .listItem] := by
    cases tag <;> simp_all [traits, headingTraits]
  obtain ⟨opens, closes⟩ := all tag among
  exact ⟨Zone.inlay_of_free tag.tokenized_openHalf opens,
    Zone.inlay_of_free tag.tokenized_closeHalf closes⟩

/-- The halves of an anchor may stand everywhere. -/
theorem inlay_anchor {attributes : Attributes} (known : attributes.Known) {shape : Shape}
    (half : shape = .opening ∨ shape = .closing) :
    zone.Inlay (Tag.anchor.write [] attributes shape) := by
  have linked : Tag.anchor.traits.element = some .a := rfl
  have named : Element.a.name ∈ elementNames := name_mem_elementNames linked
  have other : Element.a ∉ Element.ul :: regionElements := by decide
  rcases half with rfl | rfl
  · have textEq : Tag.anchor.write [] attributes .opening = Element.a.openTag attributes :=
      List.append_nil _
    rw [textEq]
    exact Zone.inlay_of_free (tokenized_openTag named known) (free_openTag other named known)
  · exact Zone.inlay_of_free (tokenized_closeTag named) (free_closeTag other named)

end Tag

namespace Scan

variable {s s' : Scan} {fail : RegionError → Prop} {calm : Prop} {zone : Zone} {text : Text}

/-- The halves of lists may stand between blocks. -/
theorem inlay_levelChange (outside : zone ≠ .prose) (old new : Nat) :
    zone.Inlay (levelChange old new) := by
  have halves : Free regionElements Tag.list.openHalf ∧ Free regionElements Tag.list.closeHalf := by
    simp only [Free]
    decide +kernel
  have several : ∀ {half : Text}, Tokenized half → Free regionElements half → ∀ n,
      Free regionElements (List.replicate n half).flatten := by
    intro half tokenized free n
    induction n with
    | zero => exact free_nil
    | succ n ih =>
        rw [List.replicate_succ, List.flatten_cons]
        exact .append tokenized free ih
  have opens := inline_replicate (Tag.inline_openHalf (rfl : Tag.list.traits.isRegion = false))
  exact {
    tokenized := (inline_levelChange old new).tokenized
    free := .append (opens _).tokenized (several Tag.list.tokenized_openHalf halves.1 _)
      (several Tag.list.tokenized_closeHalf halves.2 _)
    noList := fun inProse => absurd inProse outside }

/-- The newest region takes text, and is written as a whole element. -/
def Receives (s : Scan) : Prop :=
  ∃ entry older, s.arena = entry :: older ∧ entry.region.isSealed = false
    ∧ entry.region.tag.traits.shape = .whole

theorem Receives.takesText (receives : s.Receives) : s.TakesText := by
  obtain ⟨entry, older, split, unsealed, -⟩ := receives
  exact ⟨entry, older, split, unsealed⟩

theorem Laid.put_receives (laid : s.Laid zone) (receives : s.Receives) (inlay : zone.Inlay text) :
    (s.put text).Laid zone := by
  obtain ⟨entry, older, split, -, whole⟩ := receives
  exact laid.put split whole inlay

/-- What holds between two steps of a scan that has met no bracket. -/
structure Flat (s : Scan) : Prop where
  laid : s.Laid s.zone
  /-- The open regions are the newest ones, each inside of the next. -/
  front : s.openRegions.map (fun o => (o.serial, o.tag)) <+: s.arena.map Entry.label
  paragraph : s.paragraphOpen = true ↔ s.listLevel = 0 ∧ s.openRegions = []
  heading : (∃ o ∈ s.opened, o.tag.isHeading = true) → s.listLevel = 0
  rest : '[' ∉ s.rest
  bare : ∀ o ∈ s.opened, o.tag.IsBare

namespace Flat

theorem open_cases (flat : s.Flat) (sound : s.Sound) {o : OpenRegion} (member : o ∈ s.openRegions) :
    o.tag = .codeBlock ∨ o.tag.isHeading = true :=
  (flat.bare _ (mem_openRegions.mp member)).region_cases
    (sound.openable _ (mem_openRegions.mp member)) (sound.isRegion_of_open member)

theorem receives (flat : s.Flat) (sound : s.Sound) (writable : s.Writable) : s.Receives := by
  obtain ⟨entry, older, split, open_or_text⟩ := writable
  refine ⟨entry, older, split, sound.unsealed entry (by simp [split]), ?_⟩
  rcases open_or_text with isText | isOpen
  · simp only [Entry.tag] at isText
    rw [isText]
    rfl
  · obtain ⟨o, member, serial⟩ := isOpen_iff.mp isOpen
    obtain ⟨e, entryMember, eSerial, eTag⟩ := sound.entry_of_open member
    have same : e = entry :=
      sound.entry_unique entryMember (by simp [split]) (eSerial.trans serial)
    have tag : entry.region.tag = o.tag := same ▸ eTag
    rw [tag]
    exact Tag.shape_of_block_or_heading (flat.open_cases sound member)

/-- Changes to the flags and less text to read keep a scan flat. -/
theorem flags (flat : s.Flat) (arena : s'.arena = s.arena) (written : s'.written = s.written)
    (opened : s'.opened = s.opened) (listLevel : s'.listLevel = s.listLevel)
    (paragraphOpen : s'.paragraphOpen = s.paragraphOpen) (rest : ∀ c ∈ s'.rest, c ∈ s.rest) :
    s'.Flat where
  laid := by
    rw [Scan.zone, paragraphOpen]
    exact flat.laid.congr arena written
  front := by rw [openRegions_congr opened, arena]; exact flat.front
  paragraph := by rw [paragraphOpen, listLevel, openRegions_congr opened]; exact flat.paragraph
  heading := by rw [opened, listLevel]; exact flat.heading
  rest := fun member => flat.rest (rest _ member)
  bare := by rw [opened]; exact flat.bare

theorem advance (flat : s.Flat) (n : Nat) : (s.advance n).Flat :=
  flat.flags rfl rfl rfl rfl rfl fun _ member => List.mem_of_mem_drop member

/-- Where no region is open, no heading is. -/
theorem no_heading (sound : s.Sound) (bottom : s.openRegions = []) :
    ¬ ∃ o ∈ s.opened, o.tag.isHeading = true := by
  rintro ⟨o, member, heading⟩
  have region := sound.regions o member
  rw [Tag.isRegion_of_isHeading heading, Option.isSome_iff_exists] at region
  obtain ⟨serial, region⟩ := region
  have isOpen : (⟨o.tag, serial⟩ : OpenRegion) ∈ s.openRegions :=
    mem_openRegions.mpr (region ▸ member)
  rw [bottom] at isOpen
  cases isOpen

/-- A scan with no region open is flat if its regions are laid out and its paragraph agrees with its
lists. -/
theorem of_bottom (sound : s.Sound) (bottom : s.openRegions = []) (laid : s.Laid s.zone)
    (paragraph : s.paragraphOpen = true ↔ s.listLevel = 0) (rest : '[' ∉ s.rest)
    (bare : ∀ o ∈ s.opened, o.tag.IsBare) : s.Flat where
  laid := laid
  front := by
    rw [bottom]
    exact List.nil_prefix
  paragraph := by rw [paragraph, bottom]; simp
  heading := fun heading => absurd heading (no_heading sound bottom)
  rest := rest
  bare := bare

theorem zone_eq (flat : s.Flat) (inside : ¬ (s.listLevel = 0 ∧ s.openRegions = [])) :
    s.zone = .blocks := by
  have closed : s.paragraphOpen ≠ true := fun isOpen => inside (flat.paragraph.mp isOpen)
  rw [Scan.zone, if_neg closed]

/-! ### Writing text -/

theorem put (flat : s.Flat) (receives : s.Receives) (inlay : s.zone.Inlay text) :
    (s.put text).Flat where
  laid := flat.laid.put_receives receives inlay
  front := by
    obtain ⟨entry, older, split, -⟩ := receives
    have labels : (s.put text).arena.map Entry.label = s.arena.map Entry.label := by
      rw [Scan.put, split]
      rfl
    rw [labels]
    exact flat.front
  paragraph := flat.paragraph
  heading := flat.heading
  rest := flat.rest
  bare := flat.bare

theorem write (flat : s.Flat) (receives : s.Receives) (inlay : s.zone.Inlay text) :
    Meets fail Flat (s.write text) := by
  rw [write_eq receives.takesText]
  exact flat.put receives inlay

end Flat

theorem flushSpace_flat (flat : s.Flat) (sound : s.Sound) (writable : s.Writable) :
    Meets fail Flat s.flushSpace := by
  rw [flushSpace]
  split
  · have cleared : Flat { s with pendingSpace := false } :=
      flat.flags rfl rfl rfl rfl rfl fun _ => id
    dsimp only
    split
    · exact cleared
    · exact cleared.write (flat.receives sound writable) (Zone.inlay_of_plain (by simp))
  · exact flat

theorem appendLiteral_flat (flat : s.Flat) (sound : s.Sound) (writable : s.Writable) (c : Char) :
    Meets fail Flat (s.appendLiteral c) := by
  apply Meets.bind ((flushSpace_flat flat sound writable).and
    (flushSpace_meets sound writable))
  rintro s₁ ⟨flat₁, adds, writable₁⟩
  apply Meets.bind (flat₁.write (flat₁.receives (adds.sound sound) writable₁)
    (Zone.inlay_of_plain plain_escapeText))
  intro s₂ flat₂
  exact flat₂.flags rfl rfl rfl rfl rfl fun _ => id

/-! ### Paragraphs and lists -/

theorem openParagraph_rest (s : Scan) : s.openParagraph.rest = s.rest := by
  rw [openParagraph]
  split <;> rfl

theorem openParagraph_opened (s : Scan) : s.openParagraph.opened = s.opened := by
  rw [openParagraph]
  split <;> rfl

/-- A paragraph begins where no region and no list is open. -/
theorem openParagraph_flat (laid : s.Laid s.zone) (sound : s.Sound) (bottom : s.openRegions = [])
    (outside : s.listLevel = 0) (rest : '[' ∉ s.rest) (bare : ∀ o ∈ s.opened, o.tag.IsBare) :
    s.openParagraph.Flat := by
  have opened := openParagraph_opened s
  refine .of_bottom ((openParagraph_adds s).sound sound) ?_ laid.openParagraph ?_ ?_ ?_
  · rw [openRegions_congr opened, bottom]
  · rw [openParagraph_listLevel, outside]
    exact ⟨fun _ => rfl, fun _ => rfl⟩
  · rw [openParagraph_rest]
    exact rest
  · rw [opened]
    exact bare

/-- In a list, or once the paragraph has ended, text goes to a region between blocks. -/
theorem Flat.enterList (flat : s.Flat) (sound : s.Sound) (writable : s.Writable)
    (bottom : s.openRegions = []) :
    s.enterList.Laid .blocks ∧ s.enterList.paragraphOpen = false ∧ s.enterList.Receives := by
  rw [Scan.enterList]
  split
  · rename_i outside
    have inProse : s.zone = .prose := if_pos (flat.paragraph.mpr ⟨outside, bottom⟩)
    have laid := flat.laid
    rw [inProse] at laid
    exact ⟨(laid.endParagraph (by decide)).push .text (by decide), rfl, _, _, rfl, rfl, rfl⟩
  · rename_i inside
    have laid := flat.laid
    rw [flat.zone_eq fun h => inside h.1] at laid
    have closed : s.paragraphOpen = false :=
      Bool.eq_false_iff.mpr fun isOpen => inside (flat.paragraph.mp isOpen).1
    exact ⟨laid, closed, flat.receives sound writable⟩

/-- The halves between two list levels are written between blocks. -/
theorem Flat.changeLevel (flat : s.Flat) (sound : s.Sound) (writable : s.Writable)
    (bottom : s.openRegions = []) (level : Nat) :
    (s.changeLevel level).Laid .blocks ∧ (s.changeLevel level).paragraphOpen = false := by
  obtain ⟨laid, closed, receives⟩ := flat.enterList sound writable bottom
  have inlay := inlay_levelChange (show Zone.blocks ≠ .prose by decide) s.listLevel level
  exact ⟨(laid.congr rfl rfl : Laid .blocks { s.enterList with listLevel := level }).put_receives
    receives inlay, closed⟩

/-- Lists begin and end where no region is open. -/
theorem setListLevel_flat (flat : s.Flat) (sound : s.Sound) (writable : s.Writable)
    (bottom : s.openRegions = []) (level : Nat) : Meets fail Flat (s.setListLevel level) := by
  have meets : Meets fail _ _ := setListLevel_meets sound writable level
  by_cases same : level = s.listLevel
  · rw [setListLevel, if_pos same]
    exact flat
  · obtain ⟨changed, closed'⟩ := flat.changeLevel sound writable bottom level
    have zone : (s.changeLevel level).zone = .blocks := if_neg (by simp [closed'])
    rw [setListLevel_eq (sound.takesText writable) same] at meets ⊢
    obtain ⟨adds, writable', levelled⟩ := meets
    have sound' := adds.sound sound
    have bottom' := (openRegions_congr adds.keeps.opened).trans bottom
    refine .of_bottom sound' bottom' ?_ ?_ ?_ ?_
    · split
      · exact Laid.openParagraph (zone ▸ changed)
      · exact zone ▸ changed
    · rw [levelled]
      split
      · rename_i outside
        exact ⟨fun _ => outside, fun _ => rfl⟩
      · rename_i inside
        simp [closed', inside]
    · rw [adds.keeps.rest]
      exact flat.rest
    · rw [adds.keeps.opened]
      exact flat.bare

end Scan

end MarkPress
