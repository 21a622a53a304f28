/-
Module: MarkPress.Proofs.Scan.Opens
Purpose: What a step opens.
  A step ends some tags or opens one. The one that it opens has just begun.
Main exports:
  Scan.Opens, step_opens
-/
import MarkPress.Proofs.Scan.Flat

namespace MarkPress.Scan

variable {s : Scan} {calm : Prop}

/-- A state in which no other tags are open than some that were, or one more that has begun. -/
inductive Opens (before : List OpenTag) (s : Scan) : Prop where
  | none (fewer : s.opened ⊆ before)
  | one {t : Scan} {tag : Tag} {region : Option Nat} (begins : t.openTag tag = .ok s)
      (opened : s.opened = ⟨tag, region⟩ :: before)

theorem literal_opens (sound : s.Sound) (writable : s.Writable) (c : Char) :
    Meets (fun _ => True) (Opens s.opened) (s.literal c) := by
  rw [literal]
  apply Meets.bind (appendLiteral_meets sound writable c)
  intro s₁ met
  obtain ⟨adds, -⟩ := met
  have opened : s₁.opened = s.opened := adds.keeps.opened
  exact .none (opened ▸ List.Subset.refl _)

theorem newline_opens (coherent : s.Coherent calm) :
    Meets (fun _ => True) (fun s' => s'.opened ⊆ s.opened) s.newline := by
  rw [newline]
  apply Meets.bind (closeLines_meets coherent).if_ok
  intro s₁ met
  obtain ⟨coherent₁, closes, -⟩ := met
  have sound : Sound { s₁ with blankRun := s₁.blankRun + 1 } := coherent₁.sound.congr rfl
  have fewer : s₁.opened ⊆ s.opened := closes.opened.subset
  dsimp only
  split
  · exact fewer
  · split
    · split
      · apply Meets.bind (closeLists_meets sound coherent₁.writable)
        intro s₂ met
        obtain ⟨adds, -⟩ := met
        have opened : s₂.opened = s₁.opened := adds.keeps.opened
        exact opened.symm ▸ fewer
      · have opened := openParagraph_opened { s₁ with blankRun := s₁.blankRun + 1 }
        exact fun o member => fewer (opened ▸ member)
    · exact fewer

theorem rule_opens (coherent : s.Coherent calm) : Meets (fun _ => True) (Opens s.opened) s.rule := by
  rw [rule]
  apply Meets.bind (closeLists_meets coherent.sound coherent.writable)
  intro s₁ met
  obtain ⟨adds, -⟩ := met
  have opened := (openParagraph_opened (s₁.endParagraph.push .rule)).trans adds.keeps.opened
  exact .none fun o member => opened ▸ member

theorem delimiterOrLiteral_opens (coherent : s.Coherent calm) {atLineStart : Bool}
    (visible : s.exclusive = none → s.lineBlank = false)
    (alone : atLineStart = true → ∀ o ∈ s.opened, o.tag.isSingleLine = false) (c : Char) :
    Meets (fun _ => True) (Opens s.opened) (s.delimiterOrLiteral atLineStart c) := by
  rw [delimiterOrLiteral]
  cases nextOpen : s.nextOpening atLineStart with
  | some tag =>
      have mayBegin := mayBegin_of_nextOpening coherent visible alone nextOpen
      have begins : Meets (fun _ => True) _
          ((s.advance (tag.traits.opener.getD []).length).openTag tag) :=
        openTag_begins (coherent.advance _) (mayBegin.advance _)
      simp only
      cases opens : (s.advance (tag.traits.opener.getD []).length).openTag tag with
      | error halt => trivial
      | ok s' =>
          rw [opens] at begins
          obtain ⟨-, region, opened⟩ := begins
          exact .one opens opened
  | none =>
      cases nextClose : s.nextClosing with
      | some tag =>
          have mayEnd := mayEnd_of_nextClosing coherent nextClose
          refine Meets.mono (closeTag_meets (coherent.advance _) (mayEnd.advance _)).if_ok ?_
          rintro s' ⟨-, closes, -⟩
          exact .none closes.opened.subset
      | none => exact literal_opens coherent.sound coherent.writable c

theorem solidStep_opens (coherent : s.Coherent calm) (c : Char) :
    Meets (fun _ => True) (Opens s.opened) (s.solidStep c) := by
  refine solidStep_keeps coherent (enterSolid_meets coherent s.lineBlank).if_ok ?_
  rintro s₁ ⟨-, opened, -⟩ goes visible alone
  rw [← opened]
  exact {
    escapes := .none (List.Subset.refl _)
    bracket := by
      intro depth _
      have sound : Sound { s₁ with bracketDepth := depth } := goes.1.sound.congr rfl
      exact literal_opens sound goes.1.writable c
    delimiter := fun _ => delimiterOrLiteral_opens goes.1 (fun _ => visible) alone c }

theorem verbatimStep_opens (coherent : s.Coherent calm) (exclusive : s.exclusive ≠ none)
    (c : Char) : Meets (fun _ => True) (Opens s.opened) (s.verbatimStep c) := by
  rw [verbatimStep]
  split
  · exact .none (List.Subset.refl _)
  · exact delimiterOrLiteral_opens coherent.unfenced (fun free => absurd free exclusive)
      coherent.control.blank c

/-- A step opens at most one tag, and it does so by beginning it. -/
theorem step_opens (coherent : s.Coherent calm) :
    Meets (fun _ => True) (Opens s.opened) s.step := by
  refine step_keeps coherent.writable (.none (List.Subset.refl _)) fun {c rest} next => ?_
  have unescaped : Sound { s with escaped := false } := coherent.sound.congr rfl
  exact {
    verbatim := fun newest verbatim =>
      verbatimStep_opens coherent (exclusive_of_verbatim coherent newest verbatim) c
    escaped := fun _ => literal_opens unescaped coherent.writable c
    newline := fun _ _ _ _ => Meets.bind (newline_opens coherent) fun s₁ fewer => .none fewer
    gap := by
      rw [whitespace_eq]
      exact .none (List.Subset.refl s.opened)
    rule := fun _ _ => rule_opens coherent
    solid := solidStep_opens coherent c }

end MarkPress.Scan
