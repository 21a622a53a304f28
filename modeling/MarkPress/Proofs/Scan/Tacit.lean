/-
Module: MarkPress.Proofs.Scan.Tacit
Purpose: Operations that give out no name.
  Writing, paragraphs, lists, folding and the ends of tags leave alone what has been read, the names
  that have been given out and the headings that are open, apart from those that end. That holds of
  every state, and also where an operation stops on an error.
Main exports:
  Scan.last, Scan.Tacit, Tacit.bind, write_tacit, setListLevel_tacit, closeTag_tacit,
  closeAll_tacit, newline_tacit, finish_tacit
-/
import MarkPress.Proofs.Scan.Sound
import MarkPress.Scan.Run

namespace MarkPress.Scan

variable {s s' : Scan} {calm : Prop} {tag : Tag} {outcome : Outcome} {next : Scan → Outcome}

/-- The state that an outcome ends in, also where it stops on an error. -/
def last : Outcome → Scan
  | .ok s => s
  | .error halt => halt.state

/-- Nothing is read, no name is given out and no heading begins. -/
structure Tacit (s s' : Scan) : Prop where
  rest : s'.rest = s.rest
  anchorIds : s'.anchorIds = s.anchorIds
  headings : ∀ o ∈ s'.opened, o.tag.isHeading = true → o ∈ s.opened

namespace Tacit

variable {s'' : Scan}

theorem of_same (rest : s'.rest = s.rest) (anchorIds : s'.anchorIds = s.anchorIds)
    (opened : s'.opened = s.opened) : s.Tacit s' :=
  ⟨rest, anchorIds, fun _ member _ => opened ▸ member⟩

theorem refl (s : Scan) : s.Tacit s := .of_same rfl rfl rfl

theorem trans (first : s.Tacit s') (later : s'.Tacit s'') : s.Tacit s'' :=
  ⟨later.rest.trans first.rest, later.anchorIds.trans first.anchorIds,
    fun o member heading => first.headings o (later.headings o member heading) heading⟩

/-- Other flags may be set before. -/
theorem behind (tacit : s'.Tacit s'') (rest : s'.rest = s.rest)
    (anchorIds : s'.anchorIds = s.anchorIds) (opened : s'.opened = s.opened) : s.Tacit s'' :=
  (of_same rest anchorIds opened).trans tacit

/-- One operation after another. -/
theorem bind (first : s.Tacit (last outcome))
    (later : ∀ s₁ : Scan, s₁.Tacit (last (next s₁))) :
    s.Tacit (last (outcome >>= next)) := by
  cases outcome with
  | ok s₁ => exact first.trans (later s₁)
  | error halt => exact first

end Tacit

/-! ### Writing -/

theorem changeCurrent_same (f : Region → Except RegionError Region) (s : Scan) :
    s.Tacit (last (s.changeCurrent f)) ∧ (last (s.changeCurrent f)).opened = s.opened := by
  rw [changeCurrent]
  split
  · exact ⟨.refl s, rfl⟩
  · split
    · exact ⟨.of_same rfl rfl rfl, rfl⟩
    · exact ⟨.refl s, rfl⟩

theorem changeRegion_tacit (serial : Nat) (f : Region → Except RegionError Region) (s : Scan) :
    s.Tacit (last (s.changeRegion serial f)) := by
  rw [changeRegion]
  split
  · exact .refl s
  · split
    · exact .of_same rfl rfl rfl
    · exact .refl s

theorem write_opened (text : Text) (s : Scan) : (last (s.write text)).opened = s.opened := by
  have same := (changeCurrent_same (fun region => region.append text) s).2
  rw [write]
  cases changed : s.changeCurrent fun region => region.append text with
  | ok s₁ =>
      rw [changed] at same
      exact same
  | error halt =>
      rw [changed] at same
      exact same

theorem write_tacit (text : Text) (s : Scan) : s.Tacit (last (s.write text)) :=
  (changeCurrent_same _ s).1.bind fun _ => .of_same rfl rfl rfl

theorem writeTo_tacit (serial : Nat) (text : Text) (s : Scan) :
    s.Tacit (last (s.writeTo serial text)) :=
  (changeRegion_tacit serial _ s).bind fun _ => .of_same rfl rfl rfl

theorem flushSpace_tacit (s : Scan) : s.Tacit (last s.flushSpace) := by
  rw [flushSpace]
  split
  · dsimp only
    split
    · exact .of_same rfl rfl rfl
    · exact (write_tacit _ _).behind rfl rfl rfl
  · exact .refl s

theorem appendLiteral_tacit (c : Char) (s : Scan) : s.Tacit (last (s.appendLiteral c)) :=
  (flushSpace_tacit s).bind fun s₁ => (write_tacit _ s₁).bind fun _ => .of_same rfl rfl rfl

/-! ### Blocks -/

theorem endParagraph_tacit (s : Scan) : s.Tacit s.endParagraph := .of_same rfl rfl rfl

theorem openParagraph_tacit (s : Scan) : s.Tacit s.openParagraph := by
  rw [openParagraph]
  split
  · exact .of_same rfl rfl rfl
  · exact .of_same rfl rfl rfl

theorem setListLevel_tacit (level : Nat) (s : Scan) : s.Tacit (last (s.setListLevel level)) := by
  rw [setListLevel]
  split
  · exact .refl s
  · have entered : s.Tacit (if s.listLevel = 0 then s.endParagraph.push .text else s) := by
      split
      · exact .of_same rfl rfl rfl
      · exact .refl s
    generalize (if s.listLevel = 0 then s.endParagraph.push .text else s) = s₁ at entered
    have written := write_tacit (levelChange s₁.listLevel level) { s₁ with listLevel := level }
    refine Tacit.bind (entered.trans (written.behind rfl rfl rfl)) fun s₂ => ?_
    change s₂.Tacit (if level = 0 then s₂.openParagraph else s₂)
    split
    · exact s₂.openParagraph_tacit
    · exact .refl s₂

theorem closeLists_tacit (s : Scan) : s.Tacit (last s.closeLists) := setListLevel_tacit 0 s

/-! ### Folding and leaving -/

theorem closeAnchor_tacit (heading : Nat) (s : Scan) : s.Tacit (last (s.closeAnchor heading)) :=
  (writeTo_tacit heading _ s).bind fun _ => .of_same rfl rfl rfl

theorem renderInto_tacit (host : Nat) (entries : List Entry) (s : Scan) :
    s.Tacit (last (renderInto host entries s)) := by
  induction entries generalizing s with
  | nil => exact .refl s
  | cons entry newer ih =>
      rw [renderInto]
      split
      · exact Tacit.bind ((changeRegion_tacit host _ _).behind rfl rfl rfl) ih
      · exact ih s

theorem fold_tacit (host : OpenRegion) (s : Scan) : s.Tacit (last (s.fold host)) := by
  have rendered := renderInto_tacit host.serial (s.arena.above host.serial).reverse
  rw [fold]
  dsimp only
  split
  · exact Tacit.bind ((closeAnchor_tacit host.serial _).behind rfl rfl rfl) rendered
  · exact (rendered _).behind rfl rfl rfl

/-- Without a region to fold, only the region that text goes to next may be new. -/
theorem leave_none_tacit (s : Scan) : s.Tacit (last (s.leave none)) := by
  simp only [leave, Option.bind_none, bind, Except.bind]
  cases s.arena with
  | nil => exact .refl s
  | cons entry older =>
      change s.Tacit (if _ then _ else _)
      split
      · exact .refl s
      · exact .of_same rfl rfl rfl

theorem leave_tacit (region : Option Nat) (s : Scan) : s.Tacit (last (s.leave region)) := by
  rw [leave]
  split
  · exact (fold_tacit _ s).bind leave_none_tacit
  · exact leave_none_tacit s

/-! ### The end of a tag -/

theorem endHeading_tacit (serial : Nat) (s : Scan) : s.Tacit (last (s.endHeading serial)) := by
  have nextSection : ∀ s₁ : Scan,
      s₁.Tacit ((s₁.endParagraph.push .sectionEnd).push .sectionBegin).openParagraph :=
    fun s₁ => (openParagraph_tacit _).behind rfl rfl rfl
  rw [endHeading]
  split
  · exact (closeAnchor_tacit serial s).bind nextSection
  · exact nextSection s

theorem endBlock_tacit (region : Option Nat) (s : Scan) : s.Tacit (s.endBlock region) := by
  rw [endBlock]
  split
  · exact .refl s
  · exact s.endParagraph_tacit.trans (openParagraph_tacit _)

theorem closeTagWith_tacit {address : Nat → Scan → Outcome}
    (addressed : ∀ serial (s : Scan), s.Tacit (last (address serial s))) (tag : Tag) (s : Scan) :
    s.Tacit (last (s.closeTagWith address tag)) := by
  have forgotten : s.Tacit (s.forget tag) := 
    ⟨rfl, rfl, fun o member _ => (mem_forget.mp member).1⟩
  have ended : ∀ region, s.Tacit (last ((s.forget tag).endRegion address tag region)) := by
    intro region
    refine forgotten.trans ?_
    unfold endRegion
    split
    · exact .refl _
    · exact endHeading_tacit _ _
    · exact .refl _
    · exact endBlock_tacit _ _
    · exact addressed _ _
    · exact .refl _
  rw [closeTagWith]
  split
  · exact (ended _).bind fun s₁ => leave_tacit _ s₁
  · exact forgotten.trans (write_tacit _ _)

theorem setImageAddress_tacit (image : Entry) (address : Text) (s : Scan) :
    s.Tacit (last (s.setImageAddress image address)) := by
  rw [setImageAddress]
  refine (changeRegion_tacit _ _ s).bind fun s₁ => (changeRegion_tacit _ _ s₁).bind fun s₂ => ?_
  dsimp only [last, pure, Except.pure]
  split
  · exact .of_same rfl rfl rfl
  · exact .refl s₂

theorem captureAddress_tacit (serial : Nat) (s : Scan) :
    s.Tacit (last (s.captureAddress serial)) := by
  rw [captureAddress]
  split
  · exact .refl s
  · rename_i target _
    have closed := @closeTagWith_tacit (fun _ s => .ok s) (fun _ s => .refl s) target.region.tag
    dsimp only
    split
    · exact (changeRegion_tacit _ _ s).bind closed
    · exact (setImageAddress_tacit _ _ s).bind closed

/-- The end of a tag gives out no name. -/
theorem closeTag_tacit (tag : Tag) (s : Scan) : s.Tacit (last (s.closeTag tag)) :=
  closeTagWith_tacit captureAddress_tacit tag s

theorem closeAll_tacit (tags : List Tag) (s : Scan) : s.Tacit (last (closeAll tags s)) := by
  induction tags generalizing s with
  | nil => exact .refl s
  | cons tag rest ih =>
      rw [closeAll]
      split
      · exact (closeTag_tacit tag s).bind ih
      · exact ih s

/-! ### Lines -/

theorem newline_tacit (s : Scan) : s.Tacit (last s.newline) := by
  rw [newline]
  refine (closeAll_tacit _ s).bind fun s₁ => ?_
  have entered : ∀ s₂ : Scan, s₂.Tacit
      { s₂ with lineBlank := true, indent := 0, skipWhitespace := false } :=
    fun s₂ => .of_same rfl rfl rfl
  have counted : s₁.Tacit { s₁ with blankRun := s₁.blankRun + 1 } := .of_same rfl rfl rfl
  dsimp only
  split
  · exact .of_same rfl rfl rfl
  · split
    · split
      · exact (counted.trans (closeLists_tacit _)).bind entered
      · exact counted.trans ((openParagraph_tacit _).trans (entered _))
    · exact .of_same rfl rfl rfl

theorem whitespace_tacit (c : Char) (s : Scan) : s.Tacit (s.whitespace c) := by
  rw [whitespace_eq]
  exact .of_same rfl rfl rfl

theorem enterSolid_tacit (atLineStart : Bool) (s : Scan) :
    s.Tacit (last (s.enterSolid atLineStart)) := by
  have entered : ∀ s₁ : Scan, s₁.Tacit
      { s₁ with lineBlank := false, blankRun := 0, skipWhitespace := false } :=
    fun s₁ => .of_same rfl rfl rfl
  rw [enterSolid]
  split
  · exact (closeLists_tacit s).bind entered
  · exact entered s

theorem finish_tacit (s : Scan) : s.Tacit (last s.finish) := by
  rw [finish]
  refine (closeAll_tacit _ s).bind fun s₁ => (closeLists_tacit s₁).bind fun s₂ => ?_
  exact .of_same rfl rfl rfl

end MarkPress.Scan
