/-
Module: MarkPress.Proofs.Scan.Levels
Purpose: Headings stand outside of lists.
  The end of a tag leaves the list level alone, and only the beginning of an item raises it. So a
  heading, which begins where all lists have ended and ends with its line, never has a list around
  it or in it.
Main exports:
  Scan.Levels, closeTag_levels, openTag_levels, Scan.Outside, step_outside, reached_outside
-/
import MarkPress.Proofs.Scan.Names

namespace MarkPress.Scan

variable {s s' : Scan} {fail : RegionError → Prop} {calm : Prop} {tag : Tag} {outcome : Outcome}
  {next : Scan → Outcome} {source : Text}

/-! ### Operations that keep the list level -/

/-- An outcome has the list level of a scan, if it is a scan at all. -/
def Levels (s : Scan) (outcome : Outcome) : Prop :=
  Meets (fun _ => True) (fun s' => s'.listLevel = s.listLevel) outcome

theorem Levels.bind (first : s.Levels outcome) (later : ∀ s₁ : Scan, s₁.Levels (next s₁)) :
    s.Levels (outcome >>= next) :=
  Meets.bind first fun s₁ same => Meets.mono (later s₁) fun _ same' => same'.trans same

theorem changeCurrent_levels (f : Region → Except RegionError Region) (s : Scan) :
    s.Levels (s.changeCurrent f) := by
  rw [changeCurrent]
  split
  · trivial
  · split
    · rfl
    · trivial

theorem changeRegion_levels (serial : Nat) (f : Region → Except RegionError Region) (s : Scan) :
    s.Levels (s.changeRegion serial f) := by
  rw [changeRegion]
  split
  · rfl
  · split
    · rfl
    · trivial

theorem write_levels (text : Text) (s : Scan) : s.Levels (s.write text) :=
  (changeCurrent_levels _ s).bind fun _ => rfl

theorem flushSpace_levels (s : Scan) : s.Levels s.flushSpace := by
  rw [flushSpace]
  split
  · dsimp only
    split
    · rfl
    · exact write_levels [' '] { s with pendingSpace := false }
  · rfl

theorem appendLiteral_levels (c : Char) (s : Scan) : s.Levels (s.appendLiteral c) :=
  (flushSpace_levels s).bind fun s₁ => (write_levels _ s₁).bind fun _ => rfl

theorem closeAnchor_levels (heading : Nat) (s : Scan) : s.Levels (s.closeAnchor heading) :=
  Levels.bind ((changeRegion_levels heading _ s).bind fun _ => rfl) fun _ => rfl

theorem renderInto_levels (host : Nat) (entries : List Entry) (s : Scan) :
    s.Levels (renderInto host entries s) := by
  induction entries generalizing s with
  | nil => rfl
  | cons entry newer ih =>
      rw [renderInto]
      split
      · have marked : s.Levels (changeRegion host (fun region => region.append entry.region.render)
            { s with detached := s.detached.update entry.serial Region.markSealed }) :=
          changeRegion_levels host _ _
        exact marked.bind ih
      · exact ih s

theorem fold_levels (host : OpenRegion) (s : Scan) : s.Levels (s.fold host) := by
  have rendered := renderInto_levels host.serial (s.arena.above host.serial).reverse
  let s₁ : Scan := { s with
    arena := s.arena.downTo host.serial
    detached := (s.arena.above host.serial).filter (fun entry => s.isOpen entry.serial)
      ++ s.detached
    lost := (s.arena.above host.serial).map (·.region.leftOut) ++ s.lost }
  rw [fold]
  dsimp only
  split
  · have anchored : s.Levels (s₁.closeAnchor host.serial) := closeAnchor_levels host.serial s₁
    exact anchored.bind rendered
  · have plain : s.Levels (renderInto host.serial (s.arena.above host.serial).reverse s₁) :=
      rendered s₁
    exact plain

theorem leave_none_levels (s : Scan) : s.Levels (s.leave none) := by
  simp only [leave, Option.bind_none, bind, Except.bind]
  cases s.arena with
  | nil => trivial
  | cons entry older =>
      change Scan.listLevel (if _ then _ else _) = _
      split <;> rfl

theorem leave_levels (region : Option Nat) (s : Scan) : s.Levels (s.leave region) := by
  rw [leave]
  split
  · exact (fold_levels _ s).bind leave_none_levels
  · exact leave_none_levels s

theorem endRegion_levels {address : Nat → Scan → Outcome}
    (addressed : ∀ serial (s : Scan), s.Levels (address serial s)) (tag : Tag)
    (region : Option Nat) (s : Scan) : s.Levels (s.endRegion address tag region) := by
  unfold endRegion
  split
  · rfl
  · rename_i serial _
    rw [endHeading_eq]
    have anchored : s.Levels (if s.headingAnchorOpen then s.closeAnchor serial else .ok s) := by
      split
      · exact closeAnchor_levels serial s
      · rfl
    exact anchored.bind fun s₁ => openParagraph_listLevel _
  · trivial
  · change (s.endBlock _).listLevel = s.listLevel
    rw [endBlock]
    split
    · rfl
    · exact openParagraph_listLevel _
  · exact addressed _ s
  · trivial

theorem closeTagWith_levels {address : Nat → Scan → Outcome}
    (addressed : ∀ serial (s : Scan), s.Levels (address serial s)) (tag : Tag) (s : Scan) :
    s.Levels (s.closeTagWith address tag) := by
  rw [closeTagWith]
  split
  · have ended : s.Levels ((s.forget tag).endRegion address tag (s.serialOf tag)) :=
      endRegion_levels addressed tag _ (s.forget tag)
    exact ended.bind fun s₁ => leave_levels _ s₁
  · exact write_levels tag.closeHalf (s.forget tag)

theorem captureAddress_levels (serial : Nat) (s : Scan) : s.Levels (s.captureAddress serial) := by
  have closes := @closeTagWith_levels (fun _ s => .ok s) fun _ s => rfl
  rw [captureAddress]
  split
  · rfl
  · dsimp only
    split
    · exact (changeRegion_levels _ _ s).bind (closes _)
    · refine Levels.bind ?_ (closes _)
      rw [setImageAddress]
      refine (changeRegion_levels _ _ s).bind fun s₁ => (changeRegion_levels _ _ s₁).bind ?_
      intro s₂
      change Scan.listLevel (if _ then _ else _) = _
      split <;> rfl

/-- The end of a tag leaves the list level alone. -/
theorem closeTag_levels (tag : Tag) (s : Scan) : s.Levels (s.closeTag tag) :=
  closeTagWith_levels captureAddress_levels tag s

theorem beginAnchor_levels (s : Scan) : s.Levels s.beginAnchor := by
  rw [beginAnchor]
  generalize Slug.freshId s.anchorIds (Slug.headingBase (s.rest.takeWhile (· != '\n'))) = id
  have written : s.Levels (write (Tag.anchor.write [] (Dictionary.ofList
      [("href".toList, some ('#' :: id)), ("id".toList, some id)]) .opening)
        { s with anchorIds := id :: s.anchorIds }) := write_levels _ _
  exact written.bind fun _ => rfl

theorem openRegion_levels (tag : Tag) (s : Scan) : s.Levels (s.openRegion tag) := by
  rw [openRegion]
  have left : (if s.startsBlock tag then s.endParagraph else s).listLevel = s.listLevel := by
    split <;> rfl
  generalize (if s.startsBlock tag then s.endParagraph else s) = s₁ at left
  cases tag.traits.onOpen with
  | heading =>
      exact Meets.mono (beginAnchor_levels (s₁.listed tag)) fun _ same => same.trans left
  | plain => exact left
  | block => exact left
  | item => exact left

/-- Only the beginning of an item changes the list level. -/
theorem openTag_levels (other : tag.traits.onOpen ≠ .item) (s : Scan) :
    s.Levels (s.openTag tag) := by
  have flushed : s.Levels (flushSpace { s with
      skipWhitespace := s.skipWhitespace || tag.isSingleLine
      pendingSpace := s.pendingSpace && !(tag.isSingleLine || s.startsBlock tag) }) :=
    flushSpace_levels _
  rw [openTag]
  refine flushed.bind fun s₁ => ?_
  let s₂ : Scan := { s₁ with
    exclusive := if tag.traits.isExclusive then some tag else s₁.exclusive
    afterFence := s₁.afterFence || tag.traits.isVerbatim }
  change s₂.Levels (if tag.traits.isRegion then s₂.openRegion tag else s₂.openInline tag)
  split
  · exact openRegion_levels tag s₂
  · have written : ∀ s₂ : Scan, s₂.Levels
        (s₂.write tag.openHalf >>= fun s => pure { s with atBlockStart := false }) :=
      fun s₂ => (write_levels _ s₂).bind fun _ => rfl
    cases action : tag.traits.onOpen with
    | plain =>
        simp only [openInline, action]
        exact written _
    | block =>
        simp only [openInline, action]
        exact written _
    | item => exact absurd action other
    | heading =>
        simp only [openInline, action]
        trivial

/-! ### Headings and lists -/

/-- A heading that is open stands outside of every list. -/
def Outside (s : Scan) : Prop := ∀ o ∈ s.opened, o.tag.isHeading = true → s.listLevel = 0

theorem outside_of_noLine (ended : ∀ o ∈ s.opened, o.tag.isSingleLine = false) : s.Outside := by
  intro o member heading
  have single := Tag.isSingleLine_of_isHeading heading
  rw [ended o member] at single
  cases single

/-- Fewer headings on the same level are outside of lists as well. -/
theorem Outside.fewer (outside : s.Outside)
    (headings : ∀ o ∈ s'.opened, o.tag.isHeading = true → o ∈ s.opened)
    (level : s'.listLevel = s.listLevel) : s'.Outside :=
  fun o member heading => level.trans (outside o (headings o member heading) heading)

theorem Outside.levels (outside : s.Outside) (tacit : s.Tacit (last outcome))
    (levels : s.Levels outcome) : Meets (fun _ => True) Outside outcome := by
  cases outcome with
  | ok s₁ => exact outside.fewer tacit.headings levels
  | error halt => trivial

theorem literal_outside (outside : s.Outside) (c : Char) :
    Meets (fun _ => True) Outside (s.literal c) :=
  Meets.bind (outside.levels (appendLiteral_tacit c s) (appendLiteral_levels c s)) fun _ => id

/-- Behind a line break no heading is open. -/
theorem newline_outside (coherent : s.Coherent calm) :
    Meets (Refused calm) Outside s.newline := by
  rw [newline]
  apply Meets.bind (closeLines_meets coherent)
  intro s₁ met
  obtain ⟨coherent₁, -, ended⟩ := met
  have counted : Sound { s₁ with blankRun := s₁.blankRun + 1 } := coherent₁.sound.congr rfl
  dsimp only
  split
  · exact outside_of_noLine ended
  · split
    · split
      · apply Meets.bind (closeLists_meets counted coherent₁.writable)
        intro s₂ met
        obtain ⟨adds, -, -⟩ := met
        have opened : s₂.opened = s₁.opened := adds.keeps.opened
        exact outside_of_noLine (opened ▸ ended)
      · have opened := openParagraph_opened { s₁ with blankRun := s₁.blankRun + 1 }
        refine outside_of_noLine fun o member => ended o ?_
        exact opened ▸ member
    · exact outside_of_noLine ended

theorem rule_outside (coherent : s.Coherent calm) (lineBlank : s.lineBlank = true) :
    Meets fail Outside s.rule := by
  rw [rule]
  apply Meets.bind (closeLists_meets coherent.sound coherent.writable)
  intro s₁ met
  obtain ⟨adds, -, -⟩ := met
  have opened := (openParagraph_opened (s₁.endParagraph.push .rule)).trans adds.keeps.opened
  exact outside_of_noLine (opened ▸ coherent.control.blank lineBlank)

/-- A tag that begins leaves the open headings outside of lists, if it begins outside of lists in
case it is a heading. -/
theorem openTag_outside (outside : s.Outside) (mayBegin : s.MayBegin calm tag)
    (begins : tag.isHeading = true → s.listLevel = 0) :
    Meets (fun _ => True) Outside (s.openTag tag) := by
  by_cases item : tag.traits.onOpen = .item
  · -- an item begins alone on its line, so no heading is open
    have plain : tag.isHeading = false ∧ tag.isSingleLine = true := by
      revert item
      cases tag <;> decide
    have tacit := openTag_tacit plain.1 s
    cases opens : s.openTag tag with
    | error halt => trivial
    | ok s₁ =>
        rw [opens] at tacit
        intro o member heading
        have single := mayBegin.alone plain.2 o (tacit.headings o member heading)
        rw [Tag.isSingleLine_of_isHeading heading] at single
        cases single
  · have levels := openTag_levels item s
    cases heading : tag.isHeading with
    | false => exact outside.levels (openTag_tacit heading s) levels
    | true =>
        cases opens : s.openTag tag with
        | error halt => trivial
        | ok s₁ =>
            rw [opens] at levels
            exact fun _ _ _ => Eq.trans levels (begins heading)

theorem delimiterOrLiteral_outside (coherent : s.Coherent calm) (outside : s.Outside)
    {atLineStart : Bool} (visible : s.exclusive = none → s.lineBlank = false)
    (alone : atLineStart = true → ∀ o ∈ s.opened, o.tag.isSingleLine = false)
    (begins : ∀ tag, s.nextOpening atLineStart = some tag → tag.isHeading = true →
      s.listLevel = 0) (c : Char) :
    Meets (fun _ => True) Outside (s.delimiterOrLiteral atLineStart c) := by
  have read : ∀ n, (s.advance n).Outside := fun n => outside
  rw [delimiterOrLiteral]
  cases nextOpen : s.nextOpening atLineStart with
  | some tag =>
      have mayBegin := mayBegin_of_nextOpening coherent visible alone nextOpen
      exact openTag_outside (read _) (mayBegin.advance _) (begins tag nextOpen)
  | none =>
      cases s.nextClosing with
      | some tag => exact (read _).levels (closeTag_tacit tag _) (closeTag_levels tag _)
      | none => exact literal_outside outside c

theorem verbatimStep_outside (coherent : s.Coherent calm) (outside : s.Outside)
    (exclusive : s.exclusive ≠ none) (c : Char) :
    Meets (fun _ => True) Outside (s.verbatimStep c) := by
  have none : nextOpening s.lineBlank { s with afterFence := false } = none :=
    nextOpening_of_exclusive exclusive s.lineBlank
  rw [verbatimStep]
  split
  · exact outside
  · refine delimiterOrLiteral_outside coherent.unfenced outside (fun free => absurd free exclusive)
      coherent.control.blank ?_ c
    intro tag next
    rw [none] at next
    cases next

/-- Behind the beginning of a line that begins a heading all lists have ended. -/
theorem enterSolid_outside (coherent : s.Coherent calm) (outside : s.Outside) :
    Meets fail (fun s' => s'.Outside ∧ ∀ tag, s'.nextOpening s.lineBlank = some tag →
      tag.isHeading = true → s'.listLevel = 0) (s.enterSolid s.lineBlank) := by
  rw [enterSolid]
  split
  · apply Meets.bind (closeLists_meets coherent.sound coherent.writable)
    intro s₁ met
    obtain ⟨-, -, ended⟩ := met
    exact ⟨fun _ _ _ => ended, fun _ _ _ => ended⟩
  · rename_i stays
    exact ⟨outside, fun tag next heading => outside_of_stays (s := s) stays next heading⟩

theorem solidStep_outside (coherent : s.Coherent calm) (outside : s.Outside) (c : Char) :
    Meets (fun _ => True) Outside (s.solidStep c) := by
  refine solidStep_keeps coherent (enterSolid_outside coherent outside) ?_
  rintro s₁ ⟨outside₁, begins⟩ goes visible alone
  exact {
    escapes := outside₁
    bracket := by
      intro depth _
      have counted : Outside { s₁ with bracketDepth := depth } := outside₁
      exact literal_outside counted c
    delimiter := fun _ =>
      delimiterOrLiteral_outside goes.1 outside₁ (fun _ => visible) alone begins c }

/-- Every step leaves the open headings outside of lists. -/
theorem step_outside (coherent : s.Coherent calm) (outside : s.Outside) :
    Meets (fun _ => True) Outside s.step := by
  refine step_keeps coherent.writable outside fun {c rest} next => ?_
  have unescaped : Outside { s with escaped := false } := outside
  exact {
    verbatim := fun newest verbatim => verbatimStep_outside coherent outside
      (exclusive_of_verbatim coherent newest verbatim) c
    escaped := fun _ => literal_outside unescaped c
    newline := fun _ _ _ _ => Meets.bind (newline_outside coherent).if_ok fun _ => id
    gap := by
      rw [whitespace_eq]
      exact outside
    rule := fun lineBlank _ => rule_outside coherent lineBlank
    solid := solidStep_outside coherent outside c }

/-- Wherever a heading is open, no list is. -/
theorem reached_outside (reached : Reached source s) : s.Outside := by
  induction reached with
  | start =>
      intro o member heading
      rw [start, openParagraph_opened] at member
      cases member
  | step reached stepped ih => exact (step_outside reached.goes.1 ih).of_ok stepped

end MarkPress.Scan
