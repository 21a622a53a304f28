/-
Module: MarkPress.Proofs.Html.Unescape
Purpose: Escaped values are read back as what they were.
  A reader of entities goes from left to right and knows the five that `escapeAll` writes. It gives
  back every text that has been escaped, so escaping loses nothing. The escaped texts are those that
  can stand anywhere in a page: each of them is the escape of what it is read as.
Main exports:
  Html.unescape, Html.escapeAll_append, Html.unescape_escapeAll, Html.escapeAll_unescape,
  Html.escapeAll_law
-/
import MarkPress.Proofs.Html.Escape

namespace MarkPress.Html

/-- Read the entities of a text from left to right. An ampersand that begins none of them stands for
itself, as every other character does. -/
def unescape : Text → Text
  | '&' :: 'a' :: 'm' :: 'p' :: ';' :: rest => '&' :: unescape rest
  | '&' :: 'l' :: 't' :: ';' :: rest => '<' :: unescape rest
  | '&' :: 'g' :: 't' :: ';' :: rest => '>' :: unescape rest
  | '&' :: 'q' :: 'u' :: 'o' :: 't' :: ';' :: rest => '"' :: unescape rest
  | '&' :: '#' :: '3' :: '9' :: ';' :: rest => '\x27' :: unescape rest
  | c :: rest => c :: unescape rest
  | [] => []

variable {c : Char} {text rest : Text}

theorem escapeAll_append (left right : Text) :
    escapeAll (left ++ right) = escapeAll left ++ escapeAll right := by
  rw [escapeAll_eq_flatMap, List.flatMap_append, ← escapeAll_eq_flatMap, ← escapeAll_eq_flatMap]

theorem escapeAll_cons (c : Char) (rest : Text) :
    escapeAll (c :: rest) = escapeChar c ++ escapeAll rest := by
  rw [escapeAll_eq_flatMap, List.flatMap_cons, ← escapeAll_eq_flatMap]

/-! ### Reading what was escaped -/

theorem unescape_cons (other : c ≠ '&') (rest : Text) :
    unescape (c :: rest) = c :: unescape rest := by
  rw [unescape.eq_def]
  split <;> simp_all

/-- What is written for a character is read as that character, whatever stands behind it. -/
theorem unescape_escapeChar (c : Char) (rest : Text) :
    unescape (escapeChar c ++ rest) = c :: unescape rest := by
  by_cases marked : c ∈ ['&', '<', '>', '"', '\x27']
  · simp only [List.mem_cons, List.not_mem_nil, or_false] at marked
    rcases marked with rfl | rfl | rfl | rfl | rfl <;> rfl
  · rw [escapeChar_eq_self marked]
    exact unescape_cons (fun ampersand => marked (by simp [ampersand])) rest

theorem unescape_escapeAll (text : Text) : unescape (escapeAll text) = text := by
  induction text with
  | nil => rfl
  | cons c rest ih => rw [escapeAll_cons, unescape_escapeChar, ih]

/-! ### Texts that are escapes -/

theorem Safe.of_append {left right : Text} (safe : Safe (left ++ right)) : Safe right where
  unmarked := fun c member => safe.unmarked c (List.mem_append_right left member)
  entity := fun before behind split =>
    safe.entity (left ++ before) behind (by rw [split, List.append_assoc])

/-- One step of the induction below: what is read off the beginning is escaped as it was. -/
theorem escapeAll_cons_unescape (read : Safe rest → escapeAll (unescape rest) = rest)
    (safe : Safe (escapeChar c ++ rest)) :
    escapeAll (c :: unescape rest) = escapeChar c ++ rest := by
  rw [escapeAll_cons, read safe.of_append]

/-- A text that can stand anywhere is the escape of what it is read as. -/
theorem escapeAll_unescape (safe : Safe text) : escapeAll (unescape text) = text := by
  induction text using unescape.induct with
  | case1 rest ih => exact escapeAll_cons_unescape (c := '&') ih safe
  | case2 rest ih => exact escapeAll_cons_unescape (c := '<') ih safe
  | case3 rest ih => exact escapeAll_cons_unescape (c := '>') ih safe
  | case4 rest ih => exact escapeAll_cons_unescape (c := '"') ih safe
  | case5 rest ih => exact escapeAll_cons_unescape (c := '\x27') ih safe
  | case6 c rest ampersand less greater quote apostrophe ih =>
      -- no entity begins here, so no ampersand stands here either
      have other : c ≠ '&' := by
        rintro rfl
        obtain ⟨entity, known, behind, begins⟩ := safe.entity [] rest rfl
        simp only [entities, List.mem_cons, List.not_mem_nil, or_false] at known
        rcases known with rfl | rfl | rfl | rfl | rfl
        · exact ampersand behind rfl (List.cons.inj begins.symm).2
        · exact less behind rfl (List.cons.inj begins.symm).2
        · exact greater behind rfl (List.cons.inj begins.symm).2
        · exact quote behind rfl (List.cons.inj begins.symm).2
        · exact apostrophe behind rfl (List.cons.inj begins.symm).2
      have same : escapeChar c = [c] := by
        apply escapeChar_eq_self
        simpa [other] using safe.unmarked c List.mem_cons_self
      have step := escapeAll_cons_unescape (c := c) ih
      rw [same] at step
      rw [unescape_cons other]
      exact step safe
  | case7 => rfl

/-- Escaping replaces each character by itself, so it can be done piece by piece. What it writes is
read back as the text, so no two texts have one escape. The texts that it writes are those that can
stand anywhere in a page. -/
theorem escapeAll_law (text other : Text) :
    escapeAll text = text.flatMap escapeChar
      ∧ escapeAll (text ++ other) = escapeAll text ++ escapeAll other
      ∧ unescape (escapeAll text) = text
      ∧ (escapeAll text = escapeAll other ↔ text = other)
      ∧ (escapeAll (unescape text) = text ↔ Safe text) := by
  refine ⟨escapeAll_eq_flatMap text, escapeAll_append text other, unescape_escapeAll text, ?_, ?_⟩
  · refine ⟨fun same => ?_, congrArg escapeAll⟩
    rw [← unescape_escapeAll text, same, unescape_escapeAll]
  · refine ⟨fun same => ?_, escapeAll_unescape⟩
    rw [← same]
    exact safe_escapeAll _

end MarkPress.Html
