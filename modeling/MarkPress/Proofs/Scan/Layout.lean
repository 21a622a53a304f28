/-
Module: MarkPress.Proofs.Scan.Layout
Purpose: Scans whose regions are laid out in zones and hold what has been written, in order.
  Paragraphs, sections and blocks make regions that fit where they are made, and text goes to the
  end of the newest region, so the regions read in order are the history of what has been written.
Main exports:
  Zone.Inlay, Scan.Laid, Scan.put, Scan.TakesText, write_eq, setListLevel_eq, Laid.push, Laid.put,
  Laid.endParagraph, Laid.openParagraph, Laid.fold
-/
import MarkPress.Proofs.Render.Zone
import MarkPress.Proofs.Scan.Reached

namespace MarkPress

open Html

/-! ### Text for a zone -/

/-- The elements of which no tag is ever written as text. -/
def Html.regionElements : List Element := [.p, .sect, .h1, .h2, .h3, .pre, .hr]

/-- Text that may be written in a zone: in a paragraph, text without the tags of lists. -/
structure Zone.Inlay (zone : Zone) (text : Text) : Prop where
  tokenized : Tokenized text
  free : Free regionElements text
  noList : zone = .prose → Free [.ul] text

namespace Zone

variable {zone : Zone} {text : Text}

theorem inlay_of_free (tokenized : Tokenized text) (free : Free (.ul :: regionElements) text) :
    zone.Inlay text where
  tokenized := tokenized
  free := free.mono fun _ member => List.mem_cons_of_mem _ member
  noList _ := free.mono fun _ member => List.mem_singleton.mp member ▸ List.mem_cons_self

theorem inlay_of_plain (plain : ∀ c ∈ text, c ≠ '<' ∧ c ≠ '>') : zone.Inlay text :=
  inlay_of_free (tokenized_of_plain plain) (free_plain fun member => (plain _ member).1 rfl)

theorem Inlay.free_barred (inlay : zone.Inlay text) : Free zone.barred text := by
  intro element member
  cases zone with
  | margin => exact inlay.free element (by simp_all [barred, regionElements])
  | blocks => exact inlay.free element (by simp_all [barred, regionElements])
  | prose =>
      by_cases list : element = .ul
      · exact inlay.noList rfl element (by simp [list])
      · exact inlay.free element (by simp_all [barred, blockElements, regionElements])

/-- No tag of a block is in text that is written. -/
theorem Inlay.delete (inlay : zone.Inlay text) : Text.delete blockTags text = text := by
  refine Tokenized.induct (motive := fun text => Free regionElements text →
    Text.delete blockTags text = text) (fun _ => rfl) ?_ inlay.tokenized inlay.free
  intro token rest _ ih free
  have parts : Free regionElements token.toText ∧ Free regionElements rest := free.of_append
    (tokenized_token token)
  have kept : token.toText ∉ blockTags := by
    intro member
    have all : ∀ piece ∈ blockTags, ∃ e ∈ regionElements,
        openings e piece ≠ 0 ∨ closings e piece ≠ 0 := by decide +kernel
    obtain ⟨element, barred, found⟩ := all _ member
    obtain ⟨opens, closes⟩ := parts.1 element barred
    exact found.elim (fun h => h opens) fun h => h closes
  rw [delete_token_append bracketed_blockTags, if_neg kept, ih parts.2]

end Zone

namespace Region

variable {region : Region} {zone : Zone} {text : Text}

/-- Whole elements do not lead into another zone. -/
theorem Fits.behind_of_whole (fits : region.Fits zone)
    (whole : region.tag.traits.shape = .whole) : zone.behind region.tag = zone := by
  have all : ∀ tag ∈ zone.tags, tag.traits.shape = .whole → zone.behind tag = zone := by
    cases zone <;> decide
  exact all _ fits.tag whole

theorem Fits.extend (fits : region.Fits zone) (whole : region.tag.traits.shape = .whole)
    (inlay : zone.Inlay text) : (region.extend text).Fits zone where
  tag := fits.tag
  attributes := fits.attributes
  tokenized := by
    rw [Region.inner_extend]
    exact fits.tokenized.append inlay.tokenized
  free := by
    rw [Region.inner_extend]
    exact .append fits.tokenized fits.free inlay.free_barred
  marker other := absurd whole other

/-- A region of a block that appears in another one brings its content and the tags of blocks. -/
theorem Fits.nest {nested : Region} (fits : region.Fits zone) (nests : nested.Fits .blocks)
    (same : zone = .blocks) (block : nested.tag = .codeBlock)
    (whole : region.tag.traits.shape = .whole) :
    (region.extend nested.shownText).Fits zone
      ∧ Text.delete blockTags nested.shownText = Text.delete blockTags nested.inner := by
  have textEq : Zone.text .blocks nested = nested.render := if_neg (by simp [block])
  have tokenized : Tokenized nested.shownText := by
    rw [shownText]
    split
    · exact textEq ▸ Zone.tokenized_text nests
    · exact tokenized_nil
  have free : Free [.p] nested.shownText := by
    rw [shownText]
    split
    · exact textEq ▸ Zone.free_text nests (by simp [block]) (by simp [block])
    · exact free_nil
  refine ⟨?_, ?_⟩
  · subst same
    exact {
      tag := fits.tag
      attributes := fits.attributes
      tokenized := by
        rw [inner_extend]
        exact fits.tokenized.append tokenized
      free := by
        rw [inner_extend]
        exact .append fits.tokenized fits.free free
      marker := fun other => absurd whole other }
  · rw [shownText]
    split
    · rw [← textEq, Zone.delete_text nests]
    · rename_i hidden
      rw [(Zone.hidden_of_fits nests (Bool.eq_false_iff.mpr hidden)).1]

theorem fits_ofTag {tag : Tag} (member : tag ∈ zone.tags) : (Region.ofTag tag).Fits zone where
  tag := member
  attributes := rfl
  tokenized := tokenized_nil
  free := free_nil
  marker _ := rfl

end Region

namespace Scan

/-- The zone at the end of the regions of a scan. -/
def zone (s : Scan) : Zone := if s.paragraphOpen then .prose else .blocks

variable {s s' : Scan} {zone : Zone} {text : Text}

/-! ### Text at the end of the newest region -/

/-- Text added to the newest region, if there is one. -/
def put (text : Text) (s : Scan) : Scan :=
  { s with
    arena :=
      match s.arena with
      | [] => []
      | entry :: older => { entry with region := entry.region.extend text } :: older
    written := text :: s.written }

theorem labels_put (text : Text) (s : Scan) :
    (s.put text).arena.map Entry.label = s.arena.map Entry.label := by
  cases split : s.arena with
  | nil => simp [put, split]
  | cons entry older =>
      simp only [put, split]
      rfl

/-- There is a newest region, and it is not sealed. -/
def TakesText (s : Scan) : Prop :=
  ∃ entry older, s.arena = entry :: older ∧ entry.region.isSealed = false

/-- Writing into a region that is not sealed adds the text at its end. -/
theorem write_eq (takes : s.TakesText) (text : Text) : s.write text = .ok (s.put text) := by
  obtain ⟨entry, older, split, unsealed⟩ := takes
  simp only [write, changeCurrent, split, Region.append, Region.change_of_open unsealed, put]
  rfl

theorem Sound.takesText (sound : s.Sound) (writable : s.Writable) : s.TakesText := by
  obtain ⟨entry, older, split, -⟩ := writable
  exact ⟨entry, older, split, sound.unsealed entry (by simp [split])⟩

/-- The state after the space that was read before has been written, unless a block begins here. -/
def spaced (s : Scan) : Scan :=
  if s.pendingSpace then
    if s.atBlockStart then { s with pendingSpace := false }
    else put [' '] { s with pendingSpace := false }
  else s

theorem spaced_listLevel (s : Scan) : s.spaced.listLevel = s.listLevel := by
  rw [spaced]
  split
  · split <;> rfl
  · rfl

theorem flushSpace_eq (takes : s.TakesText) : s.flushSpace = .ok s.spaced := by
  rw [flushSpace, spaced]
  split
  · dsimp only
    rw [write_eq (s := { s with pendingSpace := false }) takes]
    split <;> rfl
  · rfl

theorem TakesText.put (takes : s.TakesText) (text : Text) : (s.put text).TakesText := by
  obtain ⟨entry, older, split, unsealed⟩ := takes
  exact ⟨{ entry with region := entry.region.extend text }, older, by rw [Scan.put, split],
    unsealed⟩

theorem TakesText.spaced (takes : s.TakesText) : s.spaced.TakesText := by
  rw [Scan.spaced]
  split
  · split
    · exact takes
    · exact TakesText.put (s := { s with pendingSpace := false }) takes [' ']
  · exact takes

/-- The state after a character that stands for itself has been written. -/
def putLiteral (c : Char) (s : Scan) : Scan :=
  { s.spaced.put (Html.escapeText [c]) with atBlockStart := false }

theorem appendLiteral_eq (takes : s.TakesText) (c : Char) :
    s.appendLiteral c = .ok (s.putLiteral c) := by
  rw [appendLiteral, flushSpace_eq takes]
  change s.spaced.write (Html.escapeText [c]) >>= _ = _
  rw [write_eq takes.spaced]
  rfl

/-- The state in which text for a list is written: a list begins behind the paragraph. -/
def enterList (s : Scan) : Scan :=
  if s.listLevel = 0 then s.endParagraph.push .text else s

/-- The state after the halves between two list levels have been written. -/
def changeLevel (level : Nat) (s : Scan) : Scan :=
  put (levelChange s.listLevel level) { s.enterList with listLevel := level }

/-- Going to another list level writes the halves between the levels. -/
theorem setListLevel_eq (takes : s.TakesText) {level : Nat} (differs : level ≠ s.listLevel) :
    s.setListLevel level
      = .ok (if level = 0 then (s.changeLevel level).openParagraph else s.changeLevel level) := by
  have same : s.enterList.listLevel = s.listLevel := by
    rw [enterList]
    split <;> rfl
  have takesIn : TakesText { s.enterList with listLevel := level } := by
    rw [enterList]
    split
    · exact ⟨_, _, rfl, rfl⟩
    · exact takes
  rw [setListLevel, if_neg differs]
  change write (levelChange s.enterList.listLevel level) { s.enterList with listLevel := level }
    >>= _ = _
  rw [same, write_eq takesIn]
  rfl

/-- A section ends, and the next one begins with a paragraph. -/
def nextSection (s : Scan) : Scan :=
  ((s.endParagraph.push .sectionEnd).push .sectionBegin).openParagraph

theorem regions_push (s : Scan) (tag : Tag) : (s.push tag).regions = s.regions ++ [.ofTag tag] := by
  rw [regions, push, pushRegion, List.map_cons, List.reverse_cons, regions]

theorem regions_endParagraph (s : Scan) :
    s.endParagraph.regions = s.regions ++ [.ofTag .paragraphEnd] := s.regions_push .paragraphEnd

theorem regions_openParagraph (closed : s.paragraphOpen = false) :
    s.openParagraph.regions = s.regions ++ [.ofTag .paragraphBegin, .ofTag .text] := by
  have opened : s.openParagraph.regions = ((s.push .paragraphBegin).push .text).regions := by
    rw [openParagraph, if_neg (by simp [closed])]
    rfl
  rw [opened, regions_push, regions_push, List.append_assoc]
  rfl

theorem regions_nextSection (s : Scan) :
    s.nextSection.regions = s.regions ++ [.ofTag .paragraphEnd, .ofTag .sectionEnd,
      .ofTag .sectionBegin, .ofTag .paragraphBegin, .ofTag .text] := by
  rw [nextSection, regions_openParagraph rfl, regions_push, regions_push, regions_endParagraph]
  simp

theorem endHeading_eq (serial : Nat) (s : Scan) :
    s.endHeading serial
      = (if s.headingAnchorOpen then s.closeAnchor serial else .ok s)
        >>= fun s => .ok s.nextSection := by
  rw [endHeading]
  split <;> rfl

/-! ### Regions laid out in zones -/

/-- The regions of a scan lead from the margin to a zone, and what they hold, read in order and
without the tags of blocks, is what has been written. -/
structure Laid (zone : Zone) (s : Scan) : Prop where
  laid : Zone.margin.Lays s.regions zone
  kept : (s.regions.flatMap fun region => Text.delete blockTags region.inner)
    = s.written.reverse.flatten

namespace Laid

theorem congr (laid : s.Laid zone) (arena : s'.arena = s.arena) (written : s'.written = s.written) :
    s'.Laid zone where
  laid := by rw [regions, arena]; exact laid.laid
  kept := by rw [regions, arena, written]; exact laid.kept

theorem regions_cons {entry : Entry} {older : Arena} (split : s.arena = entry :: older) :
    s.regions = (older.map Entry.region).reverse ++ [entry.region] := by
  rw [regions, split, List.map_cons, List.reverse_cons]

theorem push (laid : s.Laid zone) (tag : Tag) (member : tag ∈ zone.tags) :
    (s.push tag).Laid (zone.behind tag) where
  laid := by
    rw [regions_cons (s := s.push tag) rfl]
    exact laid.laid.append (.single (Region.fits_ofTag member))
  kept := by
    rw [regions_cons (s := s.push tag) rfl, List.flatMap_append]
    refine (List.append_nil _).trans laid.kept

/-- Text goes to the end of the newest region, if that is written as a whole element. -/
theorem put (laid : s.Laid zone) {entry : Entry} {older : Arena} (split : s.arena = entry :: older)
    (whole : entry.region.tag.traits.shape = .whole)
    (inlay : zone.Inlay text) : (s.put text).Laid zone := by
  have splitAfter : (s.put text).arena
      = { entry with region := entry.region.extend text } :: older := by
    rw [Scan.put, split]
  have before := laid.laid
  rw [regions_cons split] at before
  obtain ⟨middle, front, fits, rfl⟩ := before.of_snoc
  have same : middle.behind entry.region.tag = middle := fits.behind_of_whole whole
  have kept := laid.kept
  rw [same] at inlay
  rw [regions_cons split, List.flatMap_append, List.flatMap_singleton] at kept
  constructor
  · rw [regions_cons splitAfter]
    exact front.append (.single (fits.extend whole inlay))
  · rw [regions_cons splitAfter, List.flatMap_append, List.flatMap_singleton, Region.inner_extend,
      delete_append bracketed_blockTags fits.tokenized, inlay.delete, ← List.append_assoc, kept,
      Scan.put, List.reverse_cons, List.flatten_append]
    simp

theorem endParagraph (laid : s.Laid zone) (member : .paragraphEnd ∈ zone.tags) :
    s.endParagraph.Laid .blocks :=
  (laid.push .paragraphEnd member).congr rfl rfl

theorem openParagraph (laid : s.Laid s.zone) : s.openParagraph.Laid .prose := by
  have ended : (if s.paragraphOpen then s.endParagraph else s).Laid .blocks := by
    rw [Scan.zone] at laid
    split at laid
    · rename_i isOpen
      rw [if_pos isOpen]
      exact laid.endParagraph (by decide)
    · rename_i closed
      rw [if_neg closed]
      exact laid
  exact ((ended.push .paragraphBegin (by decide)).push .text (by decide)).congr rfl rfl

/-- A block that is rendered into the region before it keeps its place in what has been written. -/
theorem fold (laid : s.Laid zone) {nested host : Entry} {older : Arena}
    (split : s.arena = nested :: host :: older) (block : nested.region.tag = .codeBlock)
    (whole : host.region.tag.traits.shape = .whole) :
    (s.folded [nested] host older).Laid zone := by
  have before := laid.laid
  have kept := laid.kept
  have parts : s.regions
      = (older.map Entry.region).reverse ++ [host.region] ++ [nested.region] := by
    rw [regions_cons split, List.map_cons, List.reverse_cons]
  have after : (s.folded [nested] host older).regions = (older.map Entry.region).reverse
      ++ [host.region.extend nested.region.shownText] := by
    rw [regions_cons (s := s.folded [nested] host older) rfl]
    simp
  rw [parts] at before
  obtain ⟨middle, outer, nests, rfl⟩ := before.of_snoc
  obtain ⟨first, front, fits, rfl⟩ := outer.of_snoc
  have blocks : first.behind host.region.tag = .blocks := by
    have tag := nests.tag
    rw [block] at tag
    have all : ∀ zone : Zone, .codeBlock ∈ zone.tags → zone = .blocks := by
      intro zone
      cases zone <;> decide
    exact all _ tag
  have same : first = .blocks := by
    rw [← blocks]
    exact (fits.behind_of_whole whole).symm
  rw [blocks] at nests
  obtain ⟨fitsAfter, deleted⟩ := fits.nest nests same block whole
  constructor
  · rw [after, block, blocks]
    have last : first.behind (host.region.extend nested.region.shownText).tag = .blocks := blocks
    have laidAfter := Zone.Lays.single fitsAfter
    rw [last] at laidAfter
    exact front.append laidAfter
  · rw [parts, List.flatMap_append, List.flatMap_append, List.flatMap_singleton,
      List.flatMap_singleton] at kept
    rw [after, List.flatMap_append, List.flatMap_singleton, Region.inner_extend,
      delete_append bracketed_blockTags fits.tokenized, deleted, ← List.append_assoc, kept]
    rfl

end Laid

end Scan

end MarkPress
