/-
Module: MarkPress.Proofs.Scan.Run
Purpose: A whole run of a scan.
  A run that starts coherent ends with every tag closed and nothing owed, or a host refuses. The
  scan of a source starts coherent, and calm if headings and brackets can not meet in the source; a
  calm run is not refused.
Main exports:
  steps_keeps, steps_meets, Scan.Closed, finish_meets, run_meets, Scan.root, Scan.Plain, start_coherent,
  run_start_meets
-/
import MarkPress.Proofs.Scan.Step
import MarkPress.Proofs.Text.Breaks

namespace MarkPress.Scan

open Html

variable {s s' : Scan} {calm : Prop}

/-- What every step keeps, any number of steps keeps. -/
theorem steps_keeps {fail : RegionError → Prop} {kept : Scan → Prop}
    (keeps : ∀ {s : Scan}, kept s → Meets fail kept s.step) (n : Nat) (holds : kept s) :
    Meets fail kept (steps n s) := by
  induction n generalizing s with
  | zero => exact holds
  | succ n ih =>
      rw [steps]
      split
      · exact holds
      · exact Meets.bind (keeps holds) fun s₁ holds₁ => ih holds₁

theorem steps_meets (n : Nat) (coherent : s.Coherent calm) :
    Meets (Refused calm) (fun s' => s.Goes calm s') (steps n s) := by
  refine steps_keeps (fun {s₁} goes => ?_) n (.refl coherent)
  exact Meets.mono (step_meets goes.1) fun s' later => goes.trans later

/-- A scan in which everything has ended. -/
structure Closed (s : Scan) : Prop where
  opened : s.opened = []
  exclusive : s.exclusive = none
  listLevel : s.listLevel = 0
  bracketDepth : s.bracketDepth = 0
  afterFence : s.afterFence = false
  anchor : s.headingAnchorOpen = false
  paragraphOpen : s.paragraphOpen = false

/-- Flags that agree with the open tags are not set where no tag is open. -/
theorem Control.closed (control : s.Control)
    (anchored : s.headingAnchorOpen = true → ∃ o ∈ s.opened, o.tag.isHeading = true)
    (opened : s.opened = []) (listLevel : s.listLevel = 0) (paragraph : s.paragraphOpen = false) :
    s.Closed where
  opened := opened
  listLevel := listLevel
  paragraphOpen := paragraph
  exclusive := by
    cases exclusive : s.exclusive with
    | none => rfl
    | some tag =>
        have first := (control.first tag exclusive).2
        simp [opened] at first
  bracketDepth := by
    by_contra depth
    obtain ⟨o, member, -⟩ := control.bracket depth
    simp [opened] at member
  afterFence := by
    apply Bool.eq_false_iff.mpr
    intro fence
    obtain ⟨o, member, -⟩ := control.fence fence
    simp [opened] at member
  anchor := by
    apply Bool.eq_false_iff.mpr
    intro anchorOpen
    obtain ⟨o, member, -⟩ := anchored anchorOpen
    simp [opened] at member

theorem finish_meets (coherent : s.Coherent calm) :
    Meets (Refused calm) (fun s' => s'.Closed ∧ (∀ element, s'.debt element = 0) ∧ Edits s s')
      s.finish := by
  rw [finish]
  apply Meets.bind (closeOpened_meets coherent)
  intro s₁ met
  obtain ⟨coherent₁, closes, opened⟩ := met
  apply Meets.bind (closeLists_meets coherent₁.sound coherent₁.writable)
  intro s₂ met
  obtain ⟨adds, writable, outside⟩ := met
  have coherent₂ := coherent₁.adds adds writable
  have last : s₂.Adds (s₂.endParagraph.push .sectionEnd) :=
    s₂.endParagraph_adds.trans (push_adds _ (by decide))
  have closed : (s₂.endParagraph.push .sectionEnd).Closed :=
    (coherent₂.control.keeps last.keeps).closed coherent₂.anchored (adds.keeps.opened.trans opened)
      outside rfl
  have settled : ∀ element, Scan.debt element (s₂.endParagraph.push .sectionEnd) = 0 :=
    fun element => (last.keeps.debt element).trans (coherent₂.settled element)
  exact ⟨closed, settled, (closes.edits.trans adds.edits).trans last.edits⟩

/-- A run of a scan that has not finished ends with everything closed and nothing owed, or a host
refuses. -/
theorem run_meets (coherent : s.Coherent calm) (unfinished : s.finished = false) :
    Meets (Refused calm) (fun s' => ∃ s₁, s' = { s₁ with finished := true } ∧ s₁.Closed
      ∧ (∀ element, s₁.debt element = 0) ∧ Edits s s₁) s.run := by
  rw [run, if_neg (by simp [unfinished])]
  apply Meets.bind (steps_meets _ coherent)
  intro s₁ met
  obtain ⟨coherent₁, edits₁⟩ := met
  apply Meets.bind (finish_meets coherent₁)
  intro s₂ met
  obtain ⟨closed, settled, edits₂⟩ := met
  exact ⟨s₂, rfl, closed, settled, edits₁.trans edits₂⟩

/-! ### The beginning of a source -/

/-- The state with the region at the root alone. -/
def root (source : Text) : Scan := push .sectionBegin { rest := source.normalizeBreaks }

theorem root_sound (source : Text) : (root source).Sound where
  sorted := by simp [root, push, pushRegion]
  fresh := by simp [root, push, pushRegion]
  distinct := by simp [root, push, pushRegion]
  unsealed := by simp [root, push, pushRegion]
  rooted := rfl
  once := List.Pairwise.nil
  openable := by simp [root, push, pushRegion]
  regions := by simp [root, push, pushRegion]
  descending := List.Pairwise.nil
  tracked := by simp [root, push, pushRegion, openRegions]
  away := by simp [root, push, pushRegion, openRegions]
  uncaptioned := by simp [root, push, pushRegion, openRegions]

/-- A source in which headings and brackets can not meet. -/
def Plain (source : Text) : Prop := '[' ∉ source ∨ '#' ∉ source

/-- The scan of a source begins coherent, and calm if the source is plain. -/
theorem start_coherent (source : Text) : (start source).Coherent (Plain source) := by
  have adds := openParagraph_adds (root source)
  have same : Keeps (root source) (start source) := adds.keeps
  exact {
    sound := adds.sound (root_sound source)
    writable := openParagraph_writable _
    control := {
      first := by rw [same.exclusive]; intro tag exclusive; cases exclusive
      only := by rw [same.opened]; simp [root, push, pushRegion]
      single := by rw [same.opened]; simp [root, push, pushRegion]
      blank := by rw [same.opened]; simp [root, push, pushRegion]
      fence := by rw [same.afterFence]; intro fence; cases fence
      bracket := by rw [same.bracketDepth]; simp [root, push, pushRegion] }
    settled := fun element => by
      rw [same.debt]
      simp [debt, due, root, push, pushRegion]
    anchored := fun anchorOpen => by cases same.anchor anchorOpen
    held := by
      rw [openRegions_congr same.opened]
      simp [root, push, pushRegion, openRegions]
    oneKind := by
      intro plain
      rw [OneKind, same.opened, same.rest]
      have read : ∀ c, c ≠ '\n' → c ∉ source → c ∉ (root source).rest := by
        intro c visible absent member
        exact (Text.mem_normalizeBreaks member).elim absent visible
      rcases plain with noBracket | noSharp
      · exact .inr ⟨read _ (by decide) noBracket, by simp [root, push, pushRegion]⟩
      · exact .inl ⟨read _ (by decide) noSharp, by simp [root, push, pushRegion]⟩
    whole := fun _ => adds.detached }

theorem start_unfinished (source : Text) : (start source).finished = false :=
  (openParagraph_adds (root source)).edits.finished

/-- The run of a source, from the region at its root. A plain source is not refused. -/
theorem run_start_meets (source : Text) :
    Meets (Refused (Plain source)) (fun s' => ∃ s₁, s' = { s₁ with finished := true } ∧ s₁.Closed
      ∧ (∀ element, s₁.debt element = 0) ∧ Edits (root source) s₁) (start source).run := by
  apply Meets.mono (run_meets (start_coherent source) (start_unfinished source))
  intro s' met
  obtain ⟨s₁, finished, closed, settled, edits⟩ := met
  exact ⟨s₁, finished, closed, settled, (openParagraph_adds (root source)).edits.trans edits⟩

end MarkPress.Scan
