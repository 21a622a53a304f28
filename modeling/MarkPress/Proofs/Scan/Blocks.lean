/-
Module: MarkPress.Proofs.Scan.Blocks
Purpose: What single blocks become.
  A source that compiles is read to its end from a fresh section, and its output is known. What
  stands behind a blank line then goes on behind that output. Paragraphs of plain words and rules
  compile; so do headings, lists and blocks of code, each in a module of its own.
Main exports:
  Scan.Compiles, Compiles.continuation_eq, Compiles.render_eq, Compiles.continuation_apart,
  compiles_paragraph, compiles_rule, Scan.inBlock
-/
import MarkPress.Proofs.Render.Pieces
import MarkPress.Proofs.Scan.BlankLine
import MarkPress.Proofs.Scan.Words

namespace MarkPress

open Html

namespace Scan

variable {s s' : Scan} {issued issued' : List Text} {source html text rest : Text}

/-- A source adds a text to the output of a section and leaves names taken, given those that were
taken before. -/
def Compiles (issued : List Text) (source html : Text) (issued' : List Text) : Prop :=
  ∃ s, (startAt issued source).reading = .ok s ∧ s.Rests ∧ s.anchorIds = issued'
    ∧ output [] s.finish = .ok ("<section>".toList ++ html ++ "</section>".toList)

theorem map_append_injective (front : Text) {left right : Except RegionError Text}
    (same : left.map (front ++ ·) = right.map (front ++ ·)) : left = right := by
  cases left <;> cases right <;> simp_all [Except.map]

namespace Compiles

theorem continuation_eq (compiles : Compiles issued source html issued') :
    continuation issued source = .ok (html ++ "</section>".toList) := by
  obtain ⟨s, read, -, -, whole⟩ := compiles
  apply map_append_injective "<section>".toList
  rw [← output_startAt, complete, read]
  refine whole.trans ?_
  rw [List.append_assoc]
  rfl

/-- Alone, the source is one section. -/
theorem render_eq (compiles : Compiles [] source html issued') (noReturn : '\r' ∉ source) :
    render source = .ok ("<section>".toList ++ html ++ "</section>".toList) := by
  rw [render_eq_continuation, Text.normalizeBreaks_eq noReturn, compiles.continuation_eq,
    List.append_assoc]
  rfl

/-- Behind a blank line the output goes on behind that of the source. -/
theorem continuation_apart (compiles : Compiles issued source html issued') (behind : Text) :
    continuation issued (source ++ '\n' :: '\n' :: behind)
      = (continuation issued' behind).map (html ++ ·) := by
  obtain ⟨s, read, rests, rfl, whole⟩ := compiles
  obtain ⟨before, alone, goesOn⟩ := rests.apart read
  rw [complete, read] at alone
  have same := whole.symm.trans alone
  rw [Except.ok.injEq, List.append_cancel_right_eq] at same
  apply map_append_injective "<section>".toList
  rw [← output_startAt, goesOn behind, ← same]
  cases continuation s.anchorIds behind with
  | error e => rfl
  | ok out => exact congrArg Except.ok (List.append_assoc ..)

end Compiles

/-! ### The end of a block -/

/-- A source without brackets that has been read to its end with nothing else open. -/
theorem rests_of_reading (noReturn : '\r' ∉ source) (bare : '[' ∉ source)
    (read : (startAt issued source).reading = .ok s)
    (lines : ∀ o ∈ s.opened, o.tag.isSingleLine = true) (unescaped : s.escaped = false) :
    s.Rests where
  quiet := (steps_quiet _ (startAt_quiet issued noReturn bare)).of_ok read
  read := ((reading_reads (startAt_grounded issued source)).of_ok read).rest
  lines := lines
  unescaped := unescaped

/-- Where nothing is open, the paragraph and the section end. -/
theorem output_finish_outside {opened : List Element} (none : s.opened = [])
    (outside : s.listLevel = 0) :
    output opened s.finish
      = .ok (Export.htmlIn opened (s.regions ++ [.ofTag .paragraphEnd, .ofTag .sectionEnd])) := by
  have stays : s.closeLists = .ok s := if_pos outside.symm
  rw [finish_of_none none, stays]
  change Except.ok (Export.htmlIn opened (s.endParagraph.push .sectionEnd).regions) = _
  rw [regions_push, regions_endParagraph, List.append_assoc]
  rfl

/-- Where tags are open, they end first. -/
theorem finish_of_closeAll (closed : closeAll (s.opened.map OpenTag.tag) s = .ok s')
    (none : s'.opened = []) : s.finish = s'.finish := by
  rw [finish_of_none none, finish, closed]
  rfl

/-- Where one tag is open, it ends first. -/
theorem finish_of_single {o : OpenTag} (single : s.opened = [o])
    (closed : s.closeTag o.tag = .ok s') (none : s'.opened = []) : s.finish = s'.finish := by
  have active : s.isActive o.tag = true := isActive_iff.mpr ⟨o, by simp [single], rfl⟩
  refine finish_of_closeAll ?_ none
  rw [single]
  change closeAll [o.tag] s = _
  rw [closeAll, if_pos active, closed]
  rfl

/-- A section with one paragraph, where nothing is open. -/
theorem output_paragraph (filled : html ≠ []) (none : s.opened = []) (outside : s.listLevel = 0)
    (regions : s.regions = [.ofTag .sectionBegin, .ofTag .paragraphBegin,
      (Region.ofTag .text).extend html]) :
    output [] s.finish = .ok ("<section>".toList ++ ("<p>".toList ++ html ++ "</p>".toList)
      ++ "</section>".toList) := by
  rw [output_finish_outside none outside, regions]
  change Except.ok (Export.htmlIn [] (.ofTag .sectionBegin :: .ofTag .paragraphBegin
    :: (Region.ofTag .text).extend html :: .ofTag .paragraphEnd :: [.ofTag .sectionEnd])) = _
  rw [Export.htmlIn_sectionBegin, Export.htmlIn_paragraph filled, Export.htmlIn_sectionEnd]
  simp only [List.append_assoc]
  rfl

/-! ### Plain words -/

theorem startAt_lined (issued : List Text) (bare : '[' ∉ source) :
    (startAt issued source).Lined where
  grounded := startAt_grounded issued source
  receives := ⟨_, _, rfl, rfl, rfl⟩
  lines := by
    intro o member
    cases member
  free := rfl
  escaped := rfl
  bare := bare

theorem compiles_paragraph (phrase : Phrase) :
    Compiles issued phrase.text
      ("<p>".toList ++ escapeText phrase.text ++ "</p>".toList) issued := by
  obtain ⟨s, reads, typed, read⟩ := reading_phrase phrase (startAt_lined issued phrase.bare)
    (List.append_nil _).symm fun _ => rfl
  have ended : (startAt issued phrase.text).reading = .ok s := reads.trans (reading_nil read)
  have none : s.opened = [] := by rw [typed]; rfl
  refine ⟨s, ended, ?_, by rw [typed]; rfl, ?_⟩
  · exact rests_of_reading phrase.noReturn phrase.bare ended (by simp [none]) (by rw [typed]; rfl)
  · exact output_paragraph (escapeText_ne_nil phrase.text_ne_nil) none (by rw [typed]; rfl)
      (by rw [typed]; rfl)

/-! ### Rules -/

theorem compiles_rule : Compiles issued "---".toList "<hr />".toList issued := by
  let s : Scan := ((startAt issued "---".toList).endParagraph.push .rule).openParagraph.advance 3
  have read : (startAt issued "---".toList).reading = .ok s := rfl
  have none : s.opened = [] := rfl
  have regions : s.regions ++ [Region.ofTag .paragraphEnd, .ofTag .sectionEnd]
      = .ofTag .sectionBegin :: .ofTag .paragraphBegin :: .ofTag .text :: .ofTag .paragraphEnd
        :: .ofTag .rule :: .ofTag .paragraphBegin :: .ofTag .text :: .ofTag .paragraphEnd
        :: [.ofTag .sectionEnd] := rfl
  have lines : ∀ o ∈ s.opened, o.tag.isSingleLine = true := none ▸ List.forall_mem_nil _
  refine ⟨s, read, rests_of_reading (by decide) (by decide) read lines rfl, rfl, ?_⟩
  rw [output_finish_outside none rfl, regions, Export.htmlIn_sectionBegin,
    Export.htmlIn_emptyParagraph, Export.htmlIn_whole rfl (.inr rfl), Export.htmlIn_emptyParagraph,
    Export.htmlIn_sectionEnd]
  rfl

/-! ### Blocks behind an empty paragraph -/

/-- The state in the first block of a section, which ends the empty paragraph before it. -/
def inBlock (issued : List Text) (o : OpenTag) (region : Region) (written : List Text)
    (source : Text) : Scan :=
  { startAt issued source with
    arena := ⟨4, region⟩ :: ⟨3, .ofTag .paragraphEnd⟩ :: (startAt issued source).arena
    nextSerial := 5
    opened := [o]
    lineBlank := false
    atBlockStart := false
    paragraphOpen := false
    written := written }

/-- The regions of a scan in the first block of a section. -/
theorem regions_of_arena {region : Region}
    (arena : s.arena = ⟨4, region⟩ :: ⟨3, .ofTag .paragraphEnd⟩ :: (startAt issued source).arena) :
    s.regions = [.ofTag .sectionBegin, .ofTag .paragraphBegin, .ofTag .text,
      .ofTag .paragraphEnd, region] := by
  rw [regions, arena]
  rfl

theorem inBlock_grounded (issued : List Text) (o : OpenTag) (region : Region) (written : List Text)
    (source : Text) : (inBlock issued o region written source).Grounded where
  distinct := by
    have serials : (inBlock issued o region written source).arena.map Entry.serial
        = [4, 3, 2, 1, 0] := rfl
    rw [serials]
    decide
  fresh := by
    intro entry member
    have serial : entry.serial ∈ (inBlock issued o region written source).arena.map Entry.serial :=
      List.mem_map_of_mem member
    have all : ∀ n ∈ [4, 3, 2, 1, 0], n < 5 := by decide
    exact all _ serial
  root := ⟨(0, .sectionBegin), rfl, fun _ => rfl⟩

theorem inBlock_lined {o : OpenTag} {region : Region} {written : List Text}
    (single : o.tag.isSingleLine = true) (unsealed : region.isSealed = false)
    (plain : region.tag.traits.isVerbatim = false) (bare : '[' ∉ source) :
    (inBlock issued o region written source).Lined where
  grounded := inBlock_grounded issued o region written source
  receives := ⟨_, _, rfl, unsealed, plain⟩
  lines := by
    intro other member
    rcases List.mem_singleton.mp member with rfl
    exact single
  free := rfl
  escaped := rfl
  bare := bare

end Scan

end MarkPress
