/-
Module: MarkPress.Proofs.Scan.Lists
Purpose: What a list becomes whose items stand at any depth.
  In front of it the empty paragraph ends. The halves of lists and of items are all written into one
  region, so reading one item after another only adds to that region, and the depth of the item that
  was read last is all that the next one needs to know.
Main exports:
  ListItem, ListItem.source, ListItem.depth, listHtml, Scan.inItem, step_hyphen, reading_items,
  compiles_list
-/
import MarkPress.Proofs.Scan.Blocks
import MarkPress.Proofs.Scan.Layout

namespace MarkPress

open Html

/-- An item of a list as it is written: white space, a hyphen, white space or none, and words. -/
structure ListItem where
  indent : Text
  gap : Text
  words : List Text
  text : Text
  indented : ∀ c ∈ indent, Text.isGap c = true
  spaced : ∀ c ∈ gap, Text.isGap c = true
  line : WordLine words text

namespace ListItem

def source (item : ListItem) : Text := item.indent ++ '-' :: (item.gap ++ item.text)

/-- How deep an item stands: every two spaces in front of it are one level. -/
def depth (item : ListItem) : Nat := item.indent.indentWidth / 2

theorem source_append (item : ListItem) (rest : Text) :
    item.source ++ rest = item.indent ++ '-' :: (item.gap ++ item.text ++ rest) := by
  simp [source]

end ListItem

/-- Items in the output, given the depth before them. Between two items as many lists begin or end
as the depth changes, and behind the last one all lists end. -/
def listHtml (depth : Int) : List ListItem → Text
  | [] => (List.replicate (depth + 1).toNat "</ul>".toList).flatten
  | item :: rest =>
      (List.replicate (item.depth - depth).toNat "<ul>".toList).flatten
        ++ (List.replicate (depth - item.depth).toNat "</ul>".toList).flatten
        ++ "<li>".toList ++ Text.join ' ' (item.words.map escapeText) ++ "</li>".toList
        ++ listHtml item.depth rest

namespace Scan

variable {s : Scan} {issued : List Text} {source html text rest : Text} {level indent : Nat}
  {written : List Text}

/-- The state in a list item, in front of its first word, given its indentation. -/
def inItem (issued : List Text) (indent : Nat) (html : Text) (written : List Text)
    (source : Text) : Scan :=
  { inBlock issued ⟨.listItem, none⟩ ((Region.ofTag .text).extend html) written source with
    skipWhitespace := true, indent := indent, listLevel := indent / 2 + 1 }

/-- The state in front of the hyphen of an item behind another one, given the level of that one and
the indentation. -/
def atItem (issued : List Text) (level indent : Nat) (html : Text) (written : List Text)
    (source : Text) : Scan :=
  { inItem issued indent html written source with
    opened := [], lineBlank := true, blankRun := 1, pendingSpace := true, skipWhitespace := false
    listLevel := level }

/-- The first half of an item is written. -/
def beginItem (s : Scan) : Outcome :=
  s.write Tag.listItem.openHalf >>= fun s => .ok { s with atBlockStart := false }

/-! ### In front of an item -/

theorem inItem_lined (issued : List Text) (indent : Nat) (html : Text) (written : List Text)
    (bare : '[' ∉ source) : (inItem issued indent html written source).Lined :=
  have lined : (inBlock issued ⟨.listItem, none⟩ ((Region.ofTag .text).extend html) written
      source).Lined := inBlock_lined rfl rfl rfl bare
  { lined with grounded := lined.grounded.of_labels rfl rfl }

theorem atItem_ready (issued : List Text) (level indent : Nat) (html : Text) (written : List Text)
    (source : Text) : (atItem issued level indent html written source).Ready where
  grounded := (inBlock_grounded issued ⟨.listItem, none⟩ ((Region.ofTag .text).extend html) written
    source).of_labels rfl rfl
  receives := ⟨_, _, rfl, rfl, rfl⟩
  escaped := rfl

/-- Only an item begins with a hyphen. -/
theorem eq_listItem {tag : Tag} {opener : Text} (found : tag.traits.opener = some opener)
    (first : opener.head? = some '-') : tag = .listItem := by
  have all : ∀ t ∈ Tag.all, ∀ o ∈ t.traits.opener, o.head? = some '-' → t = .listItem := by decide
  exact all tag tag.mem_all opener found first

/-- A hyphen at the beginning of a line that is no rule begins an item. -/
theorem step_hyphen (ready : s.Ready) (next : s.rest = '-' :: rest) (blank : s.lineBlank = true)
    (noRule : isRuleLine s.rest = false) (free : s.exclusive = none) (closed : s.opened = []) :
    s.step = (s.entered.advance 1).openTag .listItem := by
  have opens : s.opensHere true .listItem = true := by
    simp [opensHere, isActive, closed, next, Tag.traits, Text.startsWith, Text.after?]
  have opening : s.nextOpening true = some .listItem := by
    cases found : s.nextOpening true with
    | none =>
        have silent : Tag.all.find? (s.opensHere true) = none := by
          rwa [nextOpening, free] at found
        exact absurd opens (List.find?_eq_none.mp silent _ (Tag.mem_all .listItem))
    | some tag =>
        obtain ⟨-, opener, isOpener, here⟩ := opener_of_nextOpening found
        rw [next] at here
        rw [eq_listItem isOpener (head?_of_begins (Tag.opener_inLine isOpener).2 here)]
  have bracket : s.captionBracket '-' = none :=
    captionBracket_bare (closed.symm ▸ List.forall_mem_nil _) _
  -- Lists stay open in front of an item.
  rw [step_visible ready next (by decide) (fun _ => .inr opening) (fun _ => noRule) bracket, blank]
  have opening' : s.entered.nextOpening true = some .listItem := opening
  rw [delimiterOrLiteral, opening']
  rfl

/-- A list begins where the empty paragraph ends, at any level. -/
theorem step_firstItem (issued : List Text) (indent : Nat)
    (noRule : isRuleLine ('-' :: source) = false) :
    ∃ written, step { startAt issued ('-' :: source) with indent := indent }
      = .ok (inItem issued indent (levelChange 0 (indent / 2 + 1) ++ "<li>".toList) written
          source) := by
  let s : Scan := { startAt issued ('-' :: source) with indent := indent }
  have ready : s.Ready :=
    ⟨(startAt_grounded issued ('-' :: source)).of_labels rfl rfl, ⟨_, _, rfl, rfl, rfl⟩, rfl⟩
  let opened : Scan := { startAt issued source with
    indent := indent, lineBlank := false, skipWhitespace := true, opened := [⟨.listItem, none⟩] }
  have begins : (s.entered.advance 1).openTag .listItem
      = opened.setListLevel (indent / 2 + 1) >>= beginItem := rfl
  have takes : opened.TakesText := ready.takesText
  refine ⟨["<li>".toList, levelChange 0 (indent / 2 + 1)], ?_⟩
  change s.step = _
  rw [step_hyphen ready rfl rfl noRule rfl rfl, begins, setListLevel_eq takes (Nat.succ_ne_zero _),
    if_neg (Nat.succ_ne_zero _)]
  simp only [inItem, ← Region.extend_extend]
  rfl

/-- Between two items, as many lists end or begin as the level changes. -/
theorem step_nextItem (issued : List Text) (inside : level ≠ 0) (indent : Nat) (html : Text)
    (written : List Text) (noRule : isRuleLine ('-' :: source) = false) :
    ∃ written', (atItem issued level indent html written ('-' :: source)).step
      = .ok (inItem issued indent (html ++ levelChange level (indent / 2 + 1) ++ "<li>".toList)
          written' source) := by
  let s : Scan := atItem issued level indent html written ('-' :: source)
  have ready : s.Ready := atItem_ready ..
  let opened : Scan := { inItem issued indent html written source with listLevel := level }
  have begins : (s.entered.advance 1).openTag .listItem
      = opened.setListLevel (indent / 2 + 1) >>= beginItem := rfl
  have takes : opened.TakesText := ready.takesText
  change ∃ written', s.step = _
  rw [step_hyphen ready rfl rfl noRule rfl rfl, begins]
  by_cases same : indent / 2 + 1 = level
  · have stays : opened.setListLevel (indent / 2 + 1) = .ok opened := if_pos same
    refine ⟨["<li>".toList] ++ written, ?_⟩
    have none : levelChange level level = [] := by simp [levelChange]
    rw [stays, same, none, List.append_nil]
    simp only [inItem, ← Region.extend_extend]
    rw [same]
    rfl
  · refine ⟨["<li>".toList, levelChange level (indent / 2 + 1)] ++ written, ?_⟩
    rw [setListLevel_eq takes same, if_neg (Nat.succ_ne_zero _), changeLevel, enterList,
      if_neg inside]
    simp only [inItem, ← Region.extend_extend]
    rfl

/-- The hyphen of an item is not the first of a rule. -/
theorem isRuleLine_item (item : ListItem) (rest : Text) :
    isRuleLine ('-' :: (item.gap ++ item.text ++ rest)) = false := by
  have apart : ∃ c behind, item.gap ++ item.text ++ rest = c :: behind ∧ '-' ≠ c := by
    obtain ⟨c, behind, text, unmarked⟩ := item.line.head
    cases gap : item.gap with
    | nil =>
      refine ⟨c, behind ++ rest, by simp [text], ?_⟩
      rintro rfl
      exact unmarked (by decide)
    | cons d gap' =>
      refine ⟨d, gap' ++ item.text ++ rest, rfl, ?_⟩
      rintro rfl
      exact absurd (item.spaced '-' (by simp [gap])) (by decide)
  obtain ⟨c, behind, same, other⟩ := apart
  simp [isRuleLine, Text.after?, same, other]

/-! ### One item -/

/-- The white space in front of the first word of an item is dropped, and its words are written. -/
theorem reading_item (item : ListItem) (issued : List Text) (indent : Nat) (html : Text)
    (written : List Text) (bare : '[' ∉ rest) :
    ∃ s, (inItem issued indent html written (item.gap ++ item.text ++ rest)).reading = s.reading
      ∧ Typed (escapeText (Text.join ' ' item.words))
        (inItem issued indent html written (item.text ++ rest)) s
      ∧ s.rest = rest ∧ s.Grounded := by
  have bareText : '[' ∉ item.text ++ rest :=
    List.not_mem_append (item.line.not_mem (by decide) (by decide)) bare
  have bareGap : '[' ∉ item.gap := fun member => absurd (item.spaced _ member) (by decide)
  have lined := inItem_lined issued indent html written bareText
  have lined' := inItem_lined issued indent html written (List.not_mem_append bareGap bareText)
  obtain ⟨s, reads, typed, read⟩ := reading_line item.line lined rfl nofun
  refine ⟨s, Eq.trans ?_ reads, typed, read, (lined.typed typed (read ▸ bare)).grounded⟩
  rw [List.append_assoc, reading_gaps lined'.ready item.spaced rfl rfl]
  cases List.isEmpty item.gap <;> rfl

/-- A list begins with an item of any depth. -/
theorem reading_firstItem (item : ListItem) (issued : List Text) (rest : Text) :
    ∃ written, (startAt issued (item.source ++ rest)).reading
      = (inItem issued item.indent.indentWidth (levelChange 0 (item.depth + 1) ++ "<li>".toList)
          written (item.gap ++ item.text ++ rest)).reading := by
  have starts : (startAt issued (item.source ++ rest)).Ready :=
    ⟨startAt_grounded .., ⟨_, _, rfl, rfl, rfl⟩, rfl⟩
  have noRule := isRuleLine_item item rest
  obtain ⟨written, begins⟩ := step_firstItem issued (0 + item.indent.indentWidth) noRule
  have grounded : Grounded { startAt issued ('-' :: (item.gap ++ item.text ++ rest)) with
      indent := 0 + item.indent.indentWidth } := starts.grounded.of_labels rfl rfl
  refine ⟨written, ?_⟩
  rw [reading_indent starts item.indented (item.source_append rest) rfl]
  refine (reading_step grounded (List.cons_ne_nil _ _)).trans ?_
  rw [begins, Nat.zero_add]
  rfl

/-- A line break ends an item, and the next hyphen begins another one. -/
theorem reading_nextItem {written : List Text} (item : ListItem)
    (typed : Typed text (inItem issued indent html written source) s)
    (grounded : s.Grounded) (next : s.rest = '\n' :: (item.source ++ rest)) :
    ∃ written', s.reading
      = (inItem issued item.indent.indentWidth
          (html ++ text ++ "</li>".toList ++ levelChange (indent / 2 + 1) (item.depth + 1)
            ++ "<li>".toList) written' (item.gap ++ item.text ++ rest)).reading := by
  obtain ⟨pieces, sEq⟩ := typed.eq next
  have breaks : s.step = .ok (atItem issued (indent / 2 + 1) 0 (html ++ text ++ "</li>".toList)
      ("</li>".toList :: pieces) (item.source ++ rest)) := by
    simp only [atItem, inItem, ← Region.extend_extend]
    rw [sEq]
    rfl
  have noRule := isRuleLine_item item rest
  obtain ⟨written', begins⟩ := step_nextItem issued (Nat.succ_ne_zero (indent / 2))
    (0 + item.indent.indentWidth) (html ++ text ++ "</li>".toList) ("</li>".toList :: pieces) noRule
  refine ⟨written', ?_⟩
  rw [reading_step grounded (by simp [next]), breaks]
  refine (reading_indent (atItem_ready ..) item.indented (item.source_append rest) rfl).trans ?_
  have ready := atItem_ready issued (indent / 2 + 1) (0 + item.indent.indentWidth)
    (html ++ text ++ "</li>".toList) ("</li>".toList :: pieces)
    ('-' :: (item.gap ++ item.text ++ rest))
  refine (reading_step ready.grounded (List.cons_ne_nil _ _)).trans ?_
  refine (congrArg (· >>= reading) begins).trans ?_
  rw [Nat.zero_add]
  rfl

/-- The end of a list ends the item and all lists that are open. -/
theorem output_item {written : List Text}
    (typed : Typed text (inItem issued indent html written source) s) (read : s.rest = []) :
    output [] s.finish = .ok ("<section>".toList
      ++ (html ++ text ++ "</li>".toList ++ levelChange (indent / 2 + 1) 0)
      ++ "</section>".toList) := by
  have filled : html ++ text ++ "</li>".toList ++ levelChange (indent / 2 + 1) 0 ≠ [] := by simp
  have ends : output [] s.finish = .ok (Export.htmlIn [] (.ofTag .sectionBegin
      :: .ofTag .paragraphBegin :: .ofTag .text :: .ofTag .paragraphEnd
      :: (Region.ofTag .text).extend
        (html ++ text ++ "</li>".toList ++ levelChange (indent / 2 + 1) 0)
      :: .ofTag .paragraphBegin :: .ofTag .text :: .ofTag .paragraphEnd
      :: [.ofTag .sectionEnd])) := by
    obtain ⟨pieces, rfl⟩ := typed.eq read
    rw [← Region.extend_extend, ← Region.extend_extend, ← Region.extend_extend]
    rfl
  rw [ends, Export.htmlIn_sectionBegin, Export.htmlIn_emptyParagraph, Export.htmlIn_text filled,
    Export.htmlIn_emptyParagraph, Export.htmlIn_sectionEnd]
  simp only [List.append_assoc]
  rfl

/-! ### All items of a list -/

/-- As many lists begin or end in front of an item as the depth says. -/
theorem listHtml_cons (level : Nat) (item : ListItem) (rest : List ListItem) :
    listHtml (level - 1) (item :: rest)
      = levelChange level (item.depth + 1) ++ "<li>".toList
        ++ escapeText (Text.join ' ' item.words) ++ "</li>".toList ++ listHtml item.depth rest := by
  have deeper : ((item.depth : Int) - (level - 1)).toNat = item.depth + 1 - level := by omega
  have flatter : ((level : Int) - 1 - item.depth).toNat = level - (item.depth + 1) := by omega
  rw [listHtml, deeper, flatter, escapeText_join]
  rfl

theorem listHtml_nil (depth : Nat) : listHtml depth [] = levelChange (depth + 1) 0 := by
  have all : ((depth : Int) + 1).toNat = depth + 1 := by omega
  rw [listHtml, all, levelChange, Nat.zero_sub, Nat.sub_zero]
  rfl

/-- The source of an item behind another one. -/
def itemSource (item : ListItem) : Text := '\n' :: item.source

theorem not_mem_source (item : ListItem) {c : Char} (mark : c ∈ Text.marks)
    (solid : Text.isGap c = false) (apart : c ≠ '-') : c ∉ item.source := by
  have noGap : ∀ {gap : Text}, (∀ d ∈ gap, Text.isGap d = true) → c ∉ gap := by
    intro gap gaps member
    rw [gaps c member] at solid
    cases solid
  simp only [ListItem.source, List.mem_append, List.mem_cons, not_or]
  exact ⟨noGap item.indented, apart, noGap item.spaced, item.line.not_mem mark solid⟩

theorem not_mem_items (items : List ListItem) {c : Char} (mark : c ∈ Text.marks)
    (solid : Text.isGap c = false) (apart : c ∉ "\n-".toList) : c ∉ items.flatMap itemSource := by
  rw [List.mem_flatMap]
  rintro ⟨item, -, inside⟩
  rcases List.mem_cons.mp inside with rfl | text
  · exact apart (by decide)
  · exact not_mem_source item mark solid (fun same => apart (same ▸ by decide)) text

theorem unlines_source (first : ListItem) (more : List ListItem) :
    Text.unlines ((first :: more).map ListItem.source)
      = first.source ++ more.flatMap itemSource := by
  rw [Text.unlines, List.map_cons, Text.join_cons, List.flatMap_map]
  rfl

theorem not_mem_list (items : List ListItem) {c : Char} (mark : c ∈ Text.marks)
    (solid : Text.isGap c = false) (apart : c ∉ "\n-".toList) :
    c ∉ Text.unlines (items.map ListItem.source) := by
  cases items with
  | nil => exact List.not_mem_nil
  | cons first more =>
      rw [unlines_source]
      exact List.not_mem_append
        (not_mem_source first mark solid fun same => apart (same ▸ by decide))
        (not_mem_items more mark solid apart)

/-- The items of a list are read one after the other. Each is written with the halves that lead to
its depth from that of the one before. -/
theorem reading_items (issued : List Text) (html : Text) (written : List Text) (first : ListItem)
    (more : List ListItem) :
    ∃ s, (inItem issued first.indent.indentWidth html written
        (first.gap ++ first.text ++ more.flatMap itemSource)).reading = .ok s
      ∧ s.opened = [⟨.listItem, none⟩] ∧ s.escaped = false ∧ s.anchorIds = issued
      ∧ output [] s.finish = .ok ("<section>".toList
        ++ (html ++ escapeText (Text.join ' ' first.words) ++ "</li>".toList
          ++ listHtml first.depth more) ++ "</section>".toList) := by
  have bare : ∀ items : List ListItem, '[' ∉ items.flatMap itemSource := fun items =>
    not_mem_items items (by decide) (by decide) (by decide)
  induction more generalizing html written first with
  | nil =>
      obtain ⟨s, reads, typed, read, -⟩ := reading_item first issued first.indent.indentWidth html
        written (bare [])
      refine ⟨s, reads.trans (reading_nil read), by rw [typed]; rfl, by rw [typed]; rfl,
        by rw [typed]; rfl, ?_⟩
      rw [output_item typed read, listHtml_nil, ListItem.depth]
  | cons next more ih =>
      obtain ⟨s, reads, typed, read, grounded⟩ := reading_item first issued
        first.indent.indentWidth html written (bare (next :: more))
      obtain ⟨written', goesOn⟩ := reading_nextItem next typed grounded read
      obtain ⟨s', reads', opened, unescaped, names, whole⟩ := ih _ written' next
      refine ⟨s', (reads.trans goesOn).trans reads', opened, unescaped, names, whole.trans ?_⟩
      have level : (first.depth : Int) = (first.indent.indentWidth / 2 + 1 : Nat) - 1 := by
        simp [ListItem.depth]
      rw [level, listHtml_cons]
      simp only [List.append_assoc]

/-- A list on its own: its items may begin at any depth and change it by any number of levels. -/
theorem compiles_list {items : List ListItem} (some : items ≠ []) :
    Compiles issued (Text.unlines (items.map ListItem.source)) (listHtml (-1) items) issued := by
  have noReturn := not_mem_list items (c := '\r') (by decide) (by decide) (by decide)
  have bare := not_mem_list items (c := '[') (by decide) (by decide) (by decide)
  obtain ⟨first, more, rfl⟩ := List.exists_cons_of_ne_nil some
  obtain ⟨written, begins⟩ := reading_firstItem first issued (more.flatMap itemSource)
  obtain ⟨s, reads, opened, unescaped, names, whole⟩ := reading_items issued
    (levelChange 0 (first.depth + 1) ++ "<li>".toList) written first more
  have lines : ∀ o ∈ s.opened, o.tag.isSingleLine = true := by
    rw [opened]
    exact List.forall_mem_singleton.mpr rfl
  have htmlEq : listHtml (-1) (first :: more) = _ := listHtml_cons 0 first more
  rw [unlines_source] at noReturn bare ⊢
  rw [htmlEq]
  have ended := begins.trans reads
  exact ⟨s, ended, rests_of_reading noReturn bare ended lines unescaped, names, whole⟩

end Scan

end MarkPress
