/-
Module: MarkPress.Proofs.Scan.Outcome
Purpose: Properties of outcomes, put together along the steps of a computation.
Main exports:
  Scan.Meets, Scan.Meets.bind, Scan.Meets.mono, Scan.Meets.and, Scan.Meets.bind_congr
-/
import MarkPress.Scan.State

namespace MarkPress.Scan

/-- An outcome with a property of the state it ends in and one of the error it stops on. -/
def Meets (fail : RegionError → Prop) (post : Scan → Prop) : Outcome → Prop
  | .ok s => post s
  | .error halt => fail halt.error

variable {fail : RegionError → Prop} {post mid : Scan → Prop} {outcome : Outcome}

theorem Meets.bind (first : Meets fail mid outcome) {next : Scan → Outcome}
    (later : ∀ s, mid s → Meets fail post (next s)) : Meets fail post (outcome >>= next) := by
  cases outcome with
  | ok s => exact later s first
  | error halt => exact first

theorem Meets.mono (meets : Meets fail mid outcome) (weaker : ∀ s, mid s → post s) :
    Meets fail post outcome := by
  cases outcome with
  | ok s => exact weaker s meets
  | error halt => exact meets

theorem Meets.and {post' : Scan → Prop} (first : Meets fail post outcome)
    (second : Meets fail post' outcome) : Meets fail (fun s => post s ∧ post' s) outcome := by
  cases outcome with
  | ok s => exact ⟨first, second⟩
  | error halt => exact first

theorem Meets.if_ok (meets : Meets fail post outcome) : Meets (fun _ => True) post outcome := by
  cases outcome with
  | ok s => exact meets
  | error halt => trivial

theorem meets_true (outcome : Outcome) : Meets (fun _ => True) (fun _ => True) outcome := by
  cases outcome <;> trivial

/-- What is known only of the state that an outcome ends in. -/
theorem Meets.also {fail' : RegionError → Prop} {post' : Scan → Prop}
    (first : Meets fail post outcome) (second : Meets fail' post' outcome) :
    Meets fail (fun s => post s ∧ post' s) outcome := by
  cases outcome with
  | ok s => exact ⟨first, second⟩
  | error halt => exact first

/-- Operations that agree where an outcome may lead to agree behind it. -/
theorem Meets.bind_congr (meets : Meets fail mid outcome) {next next' : Scan → Outcome}
    (same : ∀ s, mid s → next s = next' s) : (outcome >>= next) = (outcome >>= next') := by
  cases outcome with
  | ok s => exact same s meets
  | error halt => rfl

theorem Meets.of_ok {s : Scan} (meets : Meets fail post outcome) (h : outcome = .ok s) :
    post s := by
  rw [h] at meets
  exact meets

end MarkPress.Scan
