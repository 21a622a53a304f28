/-
Module: MarkPress.Proofs.Html.Escape
Purpose: Escaped text between tags, and values that can stand anywhere in a page.
  Text between tags is escaped character by character, and text without angle brackets stays as it
  is. The replacements of `escapeAll`, one after the other, are one replacement for each character.
  So what it writes has no bracket and no quote, and an ampersand only where an entity begins.
Main exports:
  Html.escapeText_append, Html.escapeText_eq_self, Html.stripTags_eq_self, Html.escapeChar,
  Html.escapeAll_eq_flatMap, Html.entities, Html.Safe, Html.safe_escapeAll
-/
import MarkPress.Html.Escape

namespace MarkPress.Html

/-! ### Text between tags -/

theorem escapeText_append (left right : Text) :
    escapeText (left ++ right) = escapeText left ++ escapeText right := by
  simp [escapeText, Text.replace]

theorem escapeText_cons (c : Char) (rest : Text) :
    escapeText (c :: rest) = escapeText [c] ++ escapeText rest :=
  escapeText_append [c] rest

/-- Replacing a character that does not occur changes nothing. -/
theorem replace_eq_self {text replacement : Text} {c : Char} (absent : c ∉ text) :
    text.replace c replacement = text := by
  induction text with
  | nil => rfl
  | cons d rest ih =>
      simp only [List.mem_cons, not_or] at absent
      rw [Text.replace, List.flatMap_cons, if_neg (Ne.symm absent.1)]
      exact congrArg (d :: ·) (ih absent.2)

/-- Replacing a character by something leaves nothing of nothing only. -/
theorem replace_eq_nil {text replacement : Text} {c : Char} (some : replacement ≠ []) :
    text.replace c replacement = [] ↔ text = [] := by
  cases text with
  | nil => rfl
  | cons d rest =>
      rw [Text.replace, List.flatMap_cons, List.append_eq_nil_iff]
      split <;> simp [some]

theorem escapeText_ne_nil {text : Text} (some : text ≠ []) : escapeText text ≠ [] := by
  rwa [escapeText, ne_eq, replace_eq_nil (by decide), replace_eq_nil (by decide)]

/-- A text without angle brackets stands for itself. -/
theorem escapeText_eq_self {text : Text} (plain : ∀ c ∈ text, c ≠ '<' ∧ c ≠ '>') :
    escapeText text = text := by
  rw [escapeText, replace_eq_self (c := '<') fun member => (plain _ member).1 rfl,
    replace_eq_self (c := '>') fun member => (plain _ member).2 rfl]

/-- A text without angle brackets has no tags to remove. -/
theorem stripTags_eq_self {text : Text} (plain : ∀ c ∈ text, c ≠ '<' ∧ c ≠ '>') :
    stripTags text = text := by
  induction text with
  | nil => rfl
  | cons c rest ih =>
      rw [stripTags, stripTagsFrom, if_neg (plain c List.mem_cons_self).1]
      exact congrArg (c :: ·) (ih fun d member => plain d (List.mem_cons_of_mem c member))

/-! ### Values for any place -/

/-- What `escapeAll` writes for one character. -/
def escapeChar (c : Char) : Text :=
  if c = '&' then "&amp;".toList
  else if c = '<' then "&lt;".toList
  else if c = '>' then "&gt;".toList
  else if c = '"' then "&quot;".toList
  else if c = '\x27' then "&#39;".toList
  else [c]

/-- No replacement touches what an earlier one wrote. -/
theorem escapeAll_eq_flatMap (text : Text) : escapeAll text = text.flatMap escapeChar := by
  simp only [escapeAll, Text.replace, List.flatMap_assoc]
  congr 1
  funext c
  by_cases ampersand : c = '&'
  · subst ampersand
    decide
  by_cases less : c = '<'
  · subst less
    decide
  by_cases greater : c = '>'
  · subst greater
    decide
  by_cases quote : c = '"'
  · subst quote
    decide
  simp [escapeChar, ampersand, less, greater, quote]

/-- The entities that stand for the escaped characters. -/
def entities : List Text :=
  ["&amp;".toList, "&lt;".toList, "&gt;".toList, "&quot;".toList, "&#39;".toList]

/-- A text that can stand anywhere in a page, between tags and in a value between quotes of either
kind. -/
structure Safe (text : Text) : Prop where
  unmarked : ∀ c ∈ text, c ∉ ['<', '>', '"', '\x27']
  /-- Every ampersand begins an entity. -/
  entity : ∀ before behind, text = before ++ '&' :: behind →
    ∃ entity ∈ entities, entity <+: '&' :: behind

variable {left right : Text}

theorem safe_nil : Safe [] where
  unmarked := fun _ member => nomatch member
  entity := by
    intro before behind split
    simp at split

theorem Safe.append (safeLeft : Safe left) (safeRight : Safe right) : Safe (left ++ right) where
  unmarked := by
    intro c member
    rcases List.mem_append.mp member with inLeft | inRight
    · exact safeLeft.unmarked c inLeft
    · exact safeRight.unmarked c inRight
  entity := by
    intro before behind split
    rcases List.append_eq_append_iff.mp split with ⟨more, rfl, inRight⟩ | ⟨more, inLeft, behindEq⟩
    · exact safeRight.entity more behind inRight
    · cases more with
      | nil => exact safeRight.entity [] behind behindEq.symm
      | cons c more =>
          obtain ⟨rfl, rfl⟩ := List.cons.inj behindEq
          obtain ⟨entity, known, begins⟩ := safeLeft.entity before more inLeft
          exact ⟨entity, known, begins.trans ⟨right, rfl⟩⟩

theorem safe_entity {entity : Text} (known : entity ∈ entities) : Safe entity where
  unmarked := by
    have all : ∀ e ∈ entities, e.all (· ∉ ['<', '>', '"', '\x27']) = true := by decide
    intro c member
    simpa using List.all_eq_true.mp (all entity known) c member
  entity := by
    -- an entity has no ampersand but its first character
    have first : entity.head? = some '&' ∧ '&' ∉ entity.tail := by
      revert entity
      decide
    intro before behind split
    cases before with
    | nil =>
        rw [List.nil_append] at split
        rw [← split]
        exact ⟨entity, known, List.prefix_rfl⟩
    | cons c before =>
        rw [split] at first
        exact absurd (by simp) first.2

theorem escapeChar_eq_self {c : Char} (unmarked : c ∉ ['&', '<', '>', '"', '\x27']) :
    escapeChar c = [c] := by
  simp only [List.mem_cons, List.not_mem_nil, or_false, not_or] at unmarked
  obtain ⟨ampersand, less, greater, quote, apostrophe⟩ := unmarked
  simp [escapeChar, ampersand, less, greater, quote, apostrophe]

/-- A character becomes an entity, or it has no meaning and stays. -/
theorem escapeChar_cases (c : Char) :
    escapeChar c ∈ entities ∨ (escapeChar c = [c] ∧ c ∉ ['&', '<', '>', '"', '\x27']) := by
  by_cases marked : c ∈ ['&', '<', '>', '"', '\x27']
  · left
    simp only [List.mem_cons, List.not_mem_nil, or_false] at marked
    rcases marked with rfl | rfl | rfl | rfl | rfl <;> decide
  · exact .inr ⟨escapeChar_eq_self marked, marked⟩

theorem safe_escapeChar (c : Char) : Safe (escapeChar c) := by
  rcases escapeChar_cases c with isEntity | ⟨same, unmarked⟩
  · exact safe_entity isEntity
  · rw [same]
    exact {
      unmarked := by
        intro d member
        rw [List.mem_singleton.mp member]
        exact fun marked => unmarked (List.mem_cons_of_mem _ marked)
      entity := by
        intro before behind split
        have member : '&' ∈ [c] := by simp [split]
        rw [← List.mem_singleton.mp member] at unmarked
        exact absurd List.mem_cons_self unmarked }

/-- Escaped values can stand anywhere. -/
theorem safe_escapeAll (text : Text) : Safe (escapeAll text) := by
  rw [escapeAll_eq_flatMap]
  induction text with
  | nil => exact safe_nil
  | cons c rest ih => exact (safe_escapeChar c).append ih

end MarkPress.Html
