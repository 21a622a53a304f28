/-
Module: MarkPress.Proofs.Render.Refusal
Purpose: Which sources have no output.
  The one thing that can go wrong is that a host which has been rendered is asked to take more. That
  needs a heading and a bracket in one source: a link or an image has to end inside of which a
  heading is still open.
Main exports:
  render_outcome
-/
import MarkPress.Proofs.Scan.Run

namespace MarkPress

/-- A source has an output, or a heading, a link or an image in it refuses because it has been
rendered. A source without brackets or without number signs has an output. -/
theorem render_outcome (source : Text) :
    ((∃ html, render source = .ok html)
      ∨ ∃ tag ∈ [Tag.heading1, .heading2, .heading3, .link, .embed, .embedSmall, .embedPixel],
        ∃ error, render source = .error error
          ∧ error.message = "region ".toList ++ tag.name ++ " is already rendered".toList)
      ∧ ('[' ∉ source ∨ '#' ∉ source → ∃ html, render source = .ok html) := by
  have run := Scan.run_start_meets source
  rw [render, scan]
  cases ran : (Scan.start source).run with
  | ok s => exact ⟨.inl ⟨_, rfl⟩, fun _ => ⟨_, rfl⟩⟩
  | error halt =>
      rw [ran] at run
      obtain ⟨notPlain, tag, host, errorEq⟩ := run
      constructor
      · refine .inr ⟨tag, host, halt.error, rfl, ?_⟩
        rw [errorEq]
        rfl
      · intro plain
        exact absurd plain notPlain

/-- A plain source, and one in which a heading is open when the image around it ends. -/
theorem render_outcome_heading :
    ('[' ∉ "# a".toList ∨ '#' ∉ "# a".toList)
      ∧ (∃ html, render "# a".toList = .ok html)
      ∧ render "[a ![b\n# c](u)".toList = .error (.sealed .heading1) := by
  have plain : '[' ∉ "# a".toList ∨ '#' ∉ "# a".toList := .inl (by decide)
  exact ⟨plain, (render_outcome "# a".toList).2 plain, by decide +kernel⟩

end MarkPress
