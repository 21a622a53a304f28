/-
Module: MarkPress.Settings.ServerPort
Purpose: The number at which a server listens.
  Any way to write a number will do, as long as the number is a whole one and not too large.
Main exports:
  ServerPort.ofText, ServerPortError, ServerPortError.message
-/
import MarkPress.Number.Reading

namespace MarkPress

/-- A text that no server can listen at. -/
structure ServerPortError where
  text : Text
deriving Repr, Inhabited, DecidableEq

/-- The text that reports an error. -/
def ServerPortError.message (error : ServerPortError) : Text :=
  "invalid port: ".toList ++ error.text

namespace ServerPort

/-- The largest number at which a server can listen. -/
def largest : Nat := 65535

/-- The number that a text stands for. -/
def ofText (text : Text) : Except ServerPortError Nat :=
  match (Binary64.ofText text).toNat? with
  | none => .error ⟨text⟩
  | some number => if number ≤ largest then .ok number else .error ⟨text⟩

/-- What is read is in range. -/
theorem le_largest_of_ofText {text : Text} {number : Nat} (h : ofText text = .ok number) :
    number ≤ largest := by
  simp only [ofText] at h
  split at h
  · simp at h
  · split at h
    · rename_i hle
      cases h
      exact hle
    · simp at h

end ServerPort

end MarkPress
