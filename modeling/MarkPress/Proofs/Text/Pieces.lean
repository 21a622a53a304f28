/-
Module: MarkPress.Proofs.Text.Pieces
Purpose: Texts cut at a character, and pieces joined by it.
  What stands between two occurrences of the character is cut as if it stood alone. So pieces
  without the character are found again when they are joined and cut.
Main exports:
  Text.split_append, Text.not_mem_of_mem_split, Text.split_of_not_mem,
  Text.append_inj_of_not_mem, Text.split_join, Text.join_cons, Text.join_append,
  Text.split_append_ending
-/
import MarkPress.Text.Basic

namespace MarkPress.Text

variable {c : Char}

/-- A character is a piece boundary, or it goes into the first piece of what follows. -/
theorem split_cons (c x : Char) (rest : Text) :
    split c (x :: rest)
      = if x = c then [] :: split c rest else (split c rest).modifyHead (x :: ·) := by
  rw [split]
  split
  · rfl
  · cases pieces : split c rest with
    | nil => exact absurd pieces (split_ne_nil c rest)
    | cons piece more => rfl

/-- On the two sides of the character a text is cut apart. -/
theorem split_append (text rest : Text) :
    split c (text ++ c :: rest) = split c text ++ split c rest := by
  induction text with
  | nil => simp [split]
  | cons x text ih =>
      rw [List.cons_append, split_cons, split_cons, ih]
      split
      · rfl
      · cases pieces : split c text with
        | nil => exact absurd pieces (split_ne_nil c text)
        | cons piece more => rfl

theorem not_mem_of_mem_split {text piece : Text} (member : piece ∈ split c text) :
    c ∉ piece := by
  induction text generalizing piece with
  | nil => simp_all [split]
  | cons x text ih =>
      rw [split_cons] at member
      by_cases boundary : x = c
      · rw [if_pos boundary, List.mem_cons] at member
        rcases member with rfl | later
        · exact List.not_mem_nil
        · exact ih later
      · rw [if_neg boundary] at member
        cases pieces : split c text with
        | nil => exact absurd pieces (split_ne_nil c text)
        | cons first more =>
            rw [pieces] at member ih
            rcases List.mem_cons.mp member with rfl | later
            · have free : c ∉ first := ih List.mem_cons_self
              simpa [Ne.symm boundary] using free
            · exact ih (List.mem_cons_of_mem _ later)

/-- A text without the character is one piece. -/
theorem split_of_not_mem {text : Text} (free : c ∉ text) : split c text = [text] := by
  induction text with
  | nil => rfl
  | cons x text ih =>
      simp only [List.mem_cons, not_or] at free
      rw [split_cons, if_neg (Ne.symm free.1), ih free.2]
      rfl

/-- Of texts in front of which a piece is cut, the pieces and the rests are found again. -/
theorem append_inj_of_not_mem {first other front behind : Text} (free : c ∉ first)
    (free' : c ∉ other) (same : first ++ c :: front = other ++ c :: behind) :
    first = other ∧ front = behind := by
  have pieces := congrArg (split c) same
  rw [split_append, split_append, split_of_not_mem free, split_of_not_mem free',
    List.singleton_append, List.singleton_append, List.cons.injEq] at pieces
  refine ⟨pieces.1, ?_⟩
  rw [← join_split c front, pieces.2, join_split]

/-- Pieces without the character come back when they are joined and cut. -/
theorem split_join {pieces : List Text} (some : pieces ≠ []) (free : ∀ piece ∈ pieces, c ∉ piece) :
    split c (join c pieces) = pieces := by
  induction pieces using join.induct with
  | case1 => exact absurd rfl some
  | case2 piece => exact split_of_not_mem (free piece List.mem_cons_self)
  | case3 piece more others ih =>
      have nonempty : more ≠ [] := fun empty => others empty
      rw [join, split_append, split_of_not_mem (free piece List.mem_cons_self),
        ih nonempty fun other member => free other (List.mem_cons_of_mem _ member)]
      · rfl
      · exact others

/-- A text in front of others, each behind a character of its own. -/
theorem join_cons (c : Char) (first : Text) (more : List Text) :
    join c (first :: more) = first ++ more.flatMap (c :: ·) := by
  induction more generalizing first with
  | nil => simp [join]
  | cons next more ih =>
      rw [join, ih next, List.flatMap_cons]
      · rfl
      · simp

/-- Joining two lists of pieces puts the character between them. -/
theorem join_append {front behind : List Text} (someF : front ≠ []) (someB : behind ≠ []) :
    join c (front ++ behind) = join c front ++ c :: join c behind := by
  cases front with
  | nil => exact absurd rfl someF
  | cons first front =>
      cases behind with
      | nil => exact absurd rfl someB
      | cons next behind =>
          rw [List.cons_append, join_cons, join_cons, join_cons]
          simp

/-- An ending without the character goes into the last piece. -/
theorem split_append_ending (text : Text) {ending : Text} (free : c ∉ ending) :
    ∃ before last, split c text = before ++ [last]
      ∧ split c (text ++ ending) = before ++ [last ++ ending] := by
  induction text with
  | nil => exact ⟨[], [], rfl, split_of_not_mem free⟩
  | cons x text ih =>
      obtain ⟨before, last, whole, ended⟩ := ih
      rw [List.cons_append, split_cons, split_cons, whole, ended]
      by_cases boundary : x = c
      · exact ⟨[] :: before, last, by simp [boundary], by simp [boundary]⟩
      · cases before with
        | nil => exact ⟨[], x :: last, by simp [boundary], by simp [boundary]⟩
        | cons first more =>
            exact ⟨(x :: first) :: more, last, by simp [boundary], by simp [boundary]⟩

end MarkPress.Text
