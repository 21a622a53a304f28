/-
Module: MarkPress.Proofs.Scan.Writing
Purpose: Writing text, paragraphs and lists.
  None of these operations can fail where the newest region is a text or open, and each leaves the
  newest region so. They change content only: what is open and what keeps delimiters from counting
  stays. What has been written falls short of balance by the halves that are still owed, and these
  operations neither add to that debt nor pay it.
Main exports:
  Scan.debt, Scan.Keeps, Scan.Extends, Scan.Adds, Scan.Writable, write_meets, flushSpace_meets,
  appendLiteral_meets, setListLevel_meets, closeLists_meets
-/
import Mathlib.Algebra.Ring.Int.Defs
import MarkPress.Proofs.Scan.Edit
import MarkPress.Proofs.Scan.Outcome

namespace MarkPress.Scan

open Html

/-! ### Owed halves -/

/-- The number of halves of an element that open tags, lists and the anchor of a heading will still
have to write. -/
def due (element : Element) (s : Scan) : Int :=
  (s.opened.countP fun o => !o.tag.traits.isRegion && o.tag.traits.element == some element : Nat)
    + (if element = .ul then (s.listLevel : Int) else 0)
    + if element = .a ∧ s.headingAnchorOpen = true then 1 else 0

/-- How far the balance of what has been written is from what is due. -/
def debt (element : Element) (s : Scan) : Int :=
  (s.written.map (balance element)).sum - s.due element

/-! ### What stays -/

/-- The control of a scan stays as it is, and no debt is made or paid. -/
structure Keeps (s s' : Scan) : Prop where
  rest : s'.rest = s.rest
  opened : s'.opened = s.opened
  exclusive : s'.exclusive = s.exclusive
  lineBlank : s'.lineBlank = s.lineBlank
  afterFence : s'.afterFence = s.afterFence
  bracketDepth : s'.bracketDepth = s.bracketDepth
  anchor : s'.headingAnchorOpen = true → s.headingAnchorOpen = true
  debt : ∀ element, s'.debt element = s.debt element

/-- A scan goes on by edits that keep the control. -/
structure Extends (s s' : Scan) : Prop where
  edits : Edits s s'
  keeps : Keeps s s'

/-- A scan goes on by edits that keep the control and cut nothing from the arena. -/
structure Adds (s s' : Scan) : Prop extends Extends s s' where
  detached : s'.detached = s.detached
  anchorSame : s'.headingAnchorOpen = s.headingAnchorOpen

/-- The newest region is one that text can go to. -/
def Writable (s : Scan) : Prop :=
  ∃ entry older, s.arena = entry :: older ∧ (entry.tag = .text ∨ s.isOpen entry.serial = true)

variable {s s' s'' : Scan} {fail : RegionError → Prop}

theorem Keeps.refl (s : Scan) : Keeps s s :=
  ⟨rfl, rfl, rfl, rfl, rfl, rfl, id, fun _ => rfl⟩

theorem Keeps.trans (first : Keeps s s') (later : Keeps s' s'') : Keeps s s'' where
  rest := later.rest.trans first.rest
  opened := later.opened.trans first.opened
  exclusive := later.exclusive.trans first.exclusive
  lineBlank := later.lineBlank.trans first.lineBlank
  afterFence := later.afterFence.trans first.afterFence
  bracketDepth := later.bracketDepth.trans first.bracketDepth
  anchor := first.anchor ∘ later.anchor
  debt element := (later.debt element).trans (first.debt element)

theorem Extends.refl (s : Scan) : Extends s s := ⟨.refl s, .refl s⟩

theorem Extends.trans (first : Extends s s') (later : Extends s' s'') : Extends s s'' :=
  ⟨first.edits.trans later.edits, first.keeps.trans later.keeps⟩

theorem Adds.refl (s : Scan) : Adds s s := ⟨.refl s, rfl, rfl⟩

theorem Adds.trans (first : Adds s s') (later : Adds s' s'') : Adds s s'' :=
  ⟨first.toExtends.trans later.toExtends, later.detached.trans first.detached,
    later.anchorSame.trans first.anchorSame⟩

theorem Extends.sound (goesOn : Extends s s') (sound : s.Sound) : s'.Sound :=
  goesOn.edits.sound sound

/-! ### Balances of what is written -/

theorem balance_replicate (element : Element) {half : Text} (tokenized : Tokenized half) (n : Nat) :
    balance element (List.replicate n half).flatten = n * balance element half := by
  induction n with
  | zero => simp [balance_nil]
  | succ n ih =>
      rw [List.replicate_succ, List.flatten_cons, balance_append element tokenized, ih]
      push_cast
      rw [Int.add_mul, Int.one_mul, Int.add_comm]

theorem inline_replicate {half : Text} (inline : Inline half) (n : Nat) :
    Inline (List.replicate n half).flatten := by
  refine ⟨?_, fun element block => ?_⟩
  · rw [← List.flatMap_id]
    exact tokenized_flatMap fun item member => List.eq_of_mem_replicate member ▸ inline.tokenized
  · rw [balance_replicate element inline.tokenized, inline.neutral element block, Int.mul_zero]

theorem inline_levelChange (old new : Nat) : Inline (levelChange old new) :=
  (inline_replicate (Tag.inline_openHalf rfl) _).append
    (inline_replicate (Tag.inline_closeHalf rfl) _)

theorem balance_levelChange (element : Element) (old new : Nat) :
    balance element (levelChange old new) = if element = .ul then (new : Int) - old else 0 := by
  have listed : (Tag.list.traits.element = some element) ↔ element = .ul := by
    simp [Tag.traits, eq_comm]
  rw [levelChange, balance_append element
      (inline_replicate (Tag.inline_openHalf (rfl : Tag.list.traits.isRegion = false)) _).tokenized,
    balance_replicate element Tag.list.tokenized_openHalf,
    balance_replicate element Tag.list.tokenized_closeHalf, Tag.balance_openHalf,
    Tag.balance_closeHalf]
  simp only [listed]
  split <;> omega

/-! ### Writing -/

theorem debt_congr {element : Element} (written : s'.written = s.written)
    (opened : s'.opened = s.opened) (listLevel : s'.listLevel = s.listLevel)
    (anchor : s'.headingAnchorOpen = s.headingAnchorOpen) : s'.debt element = s.debt element := by
  simp only [debt, due, written, opened, listLevel, anchor]

theorem Sound.uncaptioned_current (sound : s.Sound) {entry : Entry} {older : Arena}
    (split : s.arena = entry :: older)
    (open_or_text : entry.tag = .text ∨ s.isOpen entry.serial = true) :
    entry.region.isCaptioned = false := by
  rcases open_or_text with isText | isOpen
  · simp only [Entry.tag] at isText
    simp [Region.isCaptioned, isText, Tag.images]
  · obtain ⟨o, member, serial⟩ := isOpen_iff.mp isOpen
    exact sound.uncaptioned o member entry (by simp [split]) serial.symm

/-- Writing changes the newest region and what has been written, and nothing else. -/
theorem write_meets (sound : s.Sound) (writable : s.Writable) {text : Text}
    (inline : Inline text) :
    Meets fail (fun s' => (∃ arena, s' = { s with arena := arena, written := text :: s.written })
      ∧ Edit s s' ∧ s'.Writable) (s.write text) := by
  obtain ⟨entry, older, split, open_or_text⟩ := writable
  have unsealed : entry.region.isSealed = false := sound.unsealed entry (by simp [split])
  have writeEq : s.write text = .ok { s with
      arena := { entry with region := entry.region.extend text } :: older
      written := text :: s.written } := by
    simp only [write, changeCurrent, split, Region.append, Region.change_of_open unsealed]
    rfl
  rw [writeEq]
  refine ⟨⟨_, rfl⟩, ?_, ?_⟩
  · have parted : s.arena = [] ++ entry :: older := split
    exact .write s parted (sound.uncaptioned_current split open_or_text) inline
  · exact ⟨_, older, rfl, open_or_text⟩

theorem flushSpace_meets (sound : s.Sound) (writable : s.Writable) :
    Meets fail (fun s' => s.Adds s' ∧ s'.Writable) s.flushSpace := by
  rw [flushSpace]
  split
  · -- the space is pending; at the start of a block it is dropped
    have cleared : Edit s { s with pendingSpace := false } := .control rfl
    dsimp only
    split
    · have keeps : Keeps s { s with pendingSpace := false } :=
        ⟨rfl, rfl, rfl, rfl, rfl, rfl, id, fun _ => rfl⟩
      exact ⟨⟨⟨.single cleared, keeps⟩, rfl, rfl⟩, writable⟩
    · apply Meets.mono (write_meets (cleared.sound sound) writable
        (inline_of_plain (by simp)))
      rintro _ ⟨⟨arena, rfl⟩, edit, writable'⟩
      refine ⟨⟨⟨.trans (.single cleared) (.single edit), ?_⟩, rfl, rfl⟩, writable'⟩
      refine ⟨rfl, rfl, rfl, rfl, rfl, rfl, id, fun element => ?_⟩
      have neutral : balance element [' '] = 0 := balance_of_plain element (by decide)
      simp only [debt, due, List.map_cons, List.sum_cons, neutral, Int.zero_add]
  · exact ⟨.refl s, writable⟩

theorem appendLiteral_meets (sound : s.Sound) (writable : s.Writable) (c : Char) :
    Meets fail (fun s' => s.Adds s' ∧ s'.Writable) (s.appendLiteral c) := by
  apply Meets.bind (flushSpace_meets sound writable)
  intro s₁ met
  obtain ⟨flushed, writable₁⟩ := met
  apply Meets.bind (write_meets (flushed.sound sound) writable₁ (inline_of_plain plain_escapeText))
  rintro _ ⟨⟨arena, rfl⟩, edit, writable₂⟩
  refine ⟨flushed.trans ⟨⟨.trans (.single edit) (.single (.control rfl)), ?_⟩, rfl, rfl⟩, writable₂⟩
  refine ⟨rfl, rfl, rfl, rfl, rfl, rfl, id, fun element => ?_⟩
  simp only [debt, due, List.map_cons, List.sum_cons, balance_escapeText, Int.zero_add]

/-! ### Paragraphs and lists -/

theorem endParagraph_adds (s : Scan) : s.Adds s.endParagraph :=
  ⟨⟨.single (.endParagraph s), rfl, rfl, rfl, rfl, rfl, rfl, id, fun _ => rfl⟩, rfl, rfl⟩

theorem push_adds (s : Scan) {tag : Tag} (plain : tag.traits.element ≠ some .p) :
    s.Adds (s.push tag) :=
  ⟨⟨.single (.push s tag plain), rfl, rfl, rfl, rfl, rfl, rfl, id, fun _ => rfl⟩, rfl, rfl⟩

theorem openParagraph_adds (s : Scan) : s.Adds s.openParagraph := by
  -- the paragraph that is still open ends first, so the new one begins while none is open
  have ended : s.Adds (if s.paragraphOpen then s.endParagraph else s) := by
    split
    · exact s.endParagraph_adds
    · exact .refl s
  have closed : (if s.paragraphOpen then s.endParagraph else s).paragraphOpen = false := by
    split
    · rfl
    · simp_all
  generalize endedEq : (if s.paragraphOpen then s.endParagraph else s) = s₁ at ended closed
  have paragraphEq : s.openParagraph
      = { ({ s₁.push .paragraphBegin with paragraphOpen := true } : Scan).push .text with
          atBlockStart := true, pendingSpace := false } := by
    rw [openParagraph, endedEq]
  rw [paragraphEq]
  have edits : Edits s₁ { ({ s₁.push .paragraphBegin with paragraphOpen := true } : Scan).push .text
      with atBlockStart := true, pendingSpace := false } :=
    .trans (.single (.beginParagraph s₁ closed))
      (.trans (.single (.push _ .text (by decide))) (.single (.control rfl)))
  exact ended.trans ⟨⟨edits, rfl, rfl, rfl, rfl, rfl, rfl, id, fun _ => rfl⟩, rfl, rfl⟩

theorem openParagraph_listLevel (s : Scan) : s.openParagraph.listLevel = s.listLevel := by
  rw [openParagraph]
  split <;> rfl

theorem openParagraph_writable (s : Scan) : s.openParagraph.Writable :=
  ⟨_, _, rfl, .inl rfl⟩

theorem setListLevel_meets (sound : s.Sound) (writable : s.Writable) (level : Nat) :
    Meets fail (fun s' => s.Adds s' ∧ s'.Writable ∧ s'.listLevel = level)
      (s.setListLevel level) := by
  rw [setListLevel]
  split
  · rename_i same
    exact ⟨.refl s, writable, same.symm⟩
  · -- entering a list from outside ends the paragraph and makes a text for the list
    have entered : s.Adds (if s.listLevel = 0 then s.endParagraph.push .text else s) := by
      split
      · exact s.endParagraph_adds.trans (push_adds _ (by decide))
      · exact .refl s
    have enteredWritable : (if s.listLevel = 0 then s.endParagraph.push .text else s).Writable := by
      split
      · exact ⟨_, _, rfl, .inl rfl⟩
      · exact writable
    have enteredLevel : (if s.listLevel = 0 then s.endParagraph.push .text else s).listLevel
        = s.listLevel := by
      split <;> rfl
    generalize (if s.listLevel = 0 then s.endParagraph.push .text else s) = s₁
      at entered enteredWritable enteredLevel
    have levelled : Edit s₁ { s₁ with listLevel := level } := .control rfl
    apply Meets.bind (write_meets (levelled.sound (entered.sound sound)) enteredWritable
      (inline_levelChange s₁.listLevel level))
    rintro _ ⟨⟨arena, rfl⟩, edit, writable₂⟩
    have wrote : s₁.Adds { s₁ with
        listLevel := level, arena := arena
        written := levelChange s₁.listLevel level :: s₁.written } := by
      refine ⟨⟨.trans (.single levelled) (.single edit), ?_⟩, rfl, rfl⟩
      refine ⟨rfl, rfl, rfl, rfl, rfl, rfl, id, fun element => ?_⟩
      simp only [debt, due, List.map_cons, List.sum_cons, balance_levelChange]
      split <;> omega
    by_cases outside : level = 0
    · simp only [outside, if_true]
      subst outside
      exact ⟨(entered.trans wrote).trans (openParagraph_adds _), openParagraph_writable _,
        openParagraph_listLevel _⟩
    · simp only [outside, if_false]
      exact ⟨entered.trans wrote, writable₂, rfl⟩

theorem closeLists_meets (sound : s.Sound) (writable : s.Writable) :
    Meets fail (fun s' => s.Adds s' ∧ s'.Writable ∧ s'.listLevel = 0) s.closeLists :=
  setListLevel_meets sound writable 0

end MarkPress.Scan
