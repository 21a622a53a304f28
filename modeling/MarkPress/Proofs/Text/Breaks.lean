/-
Module: MarkPress.Proofs.Text.Breaks
Purpose: Line breaks and lines.
  Where all breaks are line feeds there is nothing left to normalize. A break ends the text before
  it: what stands behind is normalized, and cut into lines, as if it stood alone.
Main exports:
  Text.mem_normalizeBreaks, Text.Unified, Text.unified_iff, Text.normalizeBreaks_eq,
  Text.normalizeBreaks_idem, Text.normalizeBreaks_append_break, Text.lines_append_break,
  Text.not_mem_takeWhile, Text.dropWhile_eq, Text.unlines_cons
-/
import MarkPress.Proofs.Text.Pieces

namespace MarkPress.Text

variable {text line rest : Text}

/-! ### Breaks -/

theorem mem_normalizeBreaks {c : Char} (member : c ∈ text.normalizeBreaks) :
    c ∈ text ∨ c = '\n' := by
  induction text using normalizeBreaks.induct with
  | case1 => simp [normalizeBreaks] at member
  | case2 rest ih =>
      rw [normalizeBreaks, List.mem_cons] at member
      rcases member with rfl | later
      · exact .inr rfl
      · exact (ih later).imp_left fun old => by simp [old]
  | case3 x rest other ih =>
      rw [normalizeBreaks, List.mem_cons] at member
      · rcases member with here | later
        · split at here
          · exact .inr here
          · exact .inl (here ▸ List.mem_cons_self)
        · exact (ih later).imp_left fun old => List.mem_cons_of_mem _ old
      · exact other

theorem noReturn_normalizeBreaks (text : Text) : '\r' ∉ text.normalizeBreaks := by
  induction text using normalizeBreaks.induct with
  | case1 => simp [normalizeBreaks]
  | case2 rest ih => simp [normalizeBreaks, ih]
  | case3 x rest other ih =>
      rw [normalizeBreaks, List.mem_cons, not_or]
      · refine ⟨?_, ih⟩
        split
        · decide
        · exact Ne.symm (by assumption)
      · exact other

/-- A text and the one in which every break is a line feed: a carriage return is a break, together
with a line feed behind it or alone, and every other character stays. -/
inductive Unified : Text → Text → Prop where
  | nil : Unified [] []
  | pair {text unified : Text} (later : Unified text unified) :
      Unified ('\r' :: '\n' :: text) ('\n' :: unified)
  | lone {text unified : Text} (alone : ∀ behind, text ≠ '\n' :: behind)
      (later : Unified text unified) : Unified ('\r' :: text) ('\n' :: unified)
  | other {c : Char} {text unified : Text} (char : c ≠ '\r') (later : Unified text unified) :
      Unified (c :: text) (c :: unified)

theorem unified_normalizeBreaks (text : Text) : Unified text text.normalizeBreaks := by
  induction text using normalizeBreaks.induct with
  | case1 => exact .nil
  | case2 rest ih => exact .pair ih
  | case3 c rest other ih =>
      rw [normalizeBreaks]
      · by_cases isReturn : c = '\r'
        · subst isReturn
          exact .lone (fun behind same => other behind rfl same) ih
        · rw [if_neg isReturn]
          exact .other isReturn ih
      · exact other

/-- Normalizing makes every break a line feed, and nothing else. -/
theorem unified_iff {unified : Text} : Unified text unified ↔ text.normalizeBreaks = unified := by
  constructor
  · intro h
    induction h with
    | nil => rfl
    | pair _ ih => rw [normalizeBreaks, ih]
    | lone alone _ ih =>
        rw [normalizeBreaks, if_pos rfl, ih]
        exact fun behind _ same => alone behind same
    | other char _ ih =>
        rw [normalizeBreaks, if_neg char, ih]
        exact fun _ isReturn _ => char isReturn
  · rintro rfl
    exact unified_normalizeBreaks text

/-- A text with line feeds only stays as it is up to its next break. -/
theorem normalizeBreaks_append_break (noReturn : '\r' ∉ line) (rest : Text) :
    (line ++ '\n' :: rest).normalizeBreaks = line ++ '\n' :: rest.normalizeBreaks := by
  induction line with
  | nil => rfl
  | cons c line ih =>
      simp only [List.mem_cons, not_or] at noReturn
      rw [List.cons_append, normalizeBreaks, if_neg (Ne.symm noReturn.1), ih noReturn.2,
        List.cons_append]
      exact fun later same _ => noReturn.1 same.symm

theorem normalizeBreaks_eq (noReturn : '\r' ∉ text) : text.normalizeBreaks = text := by
  induction text using normalizeBreaks.induct with
  | case1 => rfl
  | case2 rest ih => simp at noReturn
  | case3 c rest other ih =>
      simp only [List.mem_cons, not_or] at noReturn
      rw [normalizeBreaks, if_neg (Ne.symm noReturn.1), ih noReturn.2]
      exact other

/-- Normalizing twice is normalizing once. -/
theorem normalizeBreaks_idem (text : Text) :
    text.normalizeBreaks.normalizeBreaks = text.normalizeBreaks :=
  normalizeBreaks_eq text.noReturn_normalizeBreaks

/-! ### Lines -/

/-- The text up to the first line feed is the first line. -/
theorem lines_append_break (noBreak : '\n' ∉ line) (rest : Text) :
    (line ++ '\n' :: rest).lines = line :: rest.lines := by
  rw [lines, split_append, split_of_not_mem noBreak]
  rfl

theorem not_mem_takeWhile (text : Text) : '\n' ∉ text.takeWhile (· != '\n') := by
  have all : (text.takeWhile (· != '\n')).all (· != '\n') = true := List.all_takeWhile
  rw [List.all_eq_true] at all
  exact fun member => by simpa using all _ member

/-- Behind the first line of a text there is nothing, or a line feed comes next. -/
theorem dropWhile_eq (text : Text) :
    text.dropWhile (· != '\n') = [] ∨ ∃ later, text.dropWhile (· != '\n') = '\n' :: later := by
  cases after : text.dropWhile (· != '\n') with
  | nil => exact .inl rfl
  | cons d later =>
      have stops := List.head?_dropWhile_not (· != '\n') text
      rw [after] at stops
      have isBreak : d = '\n' := by simpa using stops
      exact .inr ⟨later, isBreak ▸ rfl⟩

theorem unlines_cons (line : Text) {more : List Text} (some : more ≠ []) :
    unlines (line :: more) = line ++ '\n' :: unlines more :=
  join_append (List.cons_ne_nil line []) some

end MarkPress.Text
