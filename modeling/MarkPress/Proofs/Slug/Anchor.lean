/-
Module: MarkPress.Proofs.Slug.Anchor
Purpose: The names of headings as attribute values.
  A name has no character that is escaped in an attribute, and it does not matter whether a gap
  stands before the title.
Main exports:
  Slug.headingBase_gap, Slug.escapeAttribute_freshId
-/
import MarkPress.Html.Escape
import MarkPress.Slug.Anchor

namespace MarkPress.Slug

variable {c d : Char} {text base : Text}

/-! ### Gaps before the title -/

theorem trimHyphens_hyphen (text : Text) : trimHyphens ('-' :: text) = trimHyphens text := rfl

/-- A gap before a title leaves no trace in its slug. -/
theorem ofText_gap (gap : isWord c = false) (text : Text) : ofText (c :: text) = ofText text := by
  have collapsed : collapse (c :: text) = '-' :: collapseFrom true text := by
    rw [collapse, collapseFrom, if_neg (by simp [gap])]
    rfl
  have trimmed : trimHyphens ('-' :: collapseFrom true text) = trimHyphens (collapse text) := by
    rw [trimHyphens_hyphen]
    cases text with
    | nil => rfl
    | cons d rest =>
        rw [collapse, collapseFrom, collapseFrom]
        split
        · rfl
        · exact (trimHyphens_hyphen _).symm
  rw [ofText, collapsed, trimmed, ofText]

theorem headingBase_gap (gap : isWord c = false) (text : Text) :
    headingBase (c :: text) = headingBase text := by
  rw [headingBase, headingBase, ofText_gap gap]

/-! ### Characters of names -/

/-- A character that stands for itself in an attribute. -/
def IsInert (c : Char) : Prop := c ≠ '<' ∧ c ≠ '>' ∧ c ≠ '"'

instance (c : Char) : Decidable (IsInert c) := inferInstanceAs (Decidable (_ ∧ _ ∧ _))

theorem isInert_of_isWord (word : isWord c = true) : IsInert c := by
  refine ⟨?_, ?_, ?_⟩ <;>
    · rintro rfl
      revert word
      decide

theorem mem_collapseFrom {inGap : Bool} (member : c ∈ collapseFrom inGap text) :
    isWord c = true ∨ c = '-' := by
  induction text generalizing inGap with
  | nil => cases member
  | cons d rest ih =>
      rw [collapseFrom] at member
      split at member
      · rename_i word
        rcases List.mem_cons.mp member with rfl | later
        · exact .inl word
        · exact ih later
      · split at member
        · exact ih member
        · rcases List.mem_cons.mp member with rfl | later
          · exact .inr rfl
          · exact ih later

theorem mem_trimHyphens (member : c ∈ trimHyphens text) : c ∈ text := by
  rw [trimHyphens, List.mem_reverse] at member
  have inside := (List.dropWhile_sublist _).subset member
  rw [List.mem_reverse] at inside
  exact (List.dropWhile_sublist _).subset inside

/-- A capital and its lower case lie behind the characters that are escaped. -/
theorem shiftIn_cases {runs : List CaseRun} (beyond : ∀ run ∈ runs, 62 < run.first + run.shift)
    (n : Nat) : shiftIn runs n = n ∨ 62 < shiftIn runs n := by
  induction runs with
  | nil => exact .inl rfl
  | cons run rest ih =>
      rw [shiftIn]
      split
      · exact .inl rfl
      · split
        · split
          · have first := beyond run (by simp)
            exact .inr (by omega)
          · exact .inl rfl
        · exact ih fun other member => beyond other (by simp [member])

/-- Lower-casing does not bring in a character that is escaped, nor a hyphen: one that is written
for a character is that character. -/
theorem eq_of_mem_lowerChar (low : d.toNat ≤ 62) (visible : d ≠ '\x00')
    (member : d ∈ lowerChar c) : d = c := by
  have beyond : ∀ run ∈ caseRuns, 62 < run.first + run.shift := by decide +kernel
  rw [lowerChar] at member
  split at member
  · simp only [List.mem_cons, List.not_mem_nil, or_false] at member
    rcases member with rfl | rfl
    · exact absurd low (by decide)
    · exact absurd low (by decide)
  · rw [List.mem_singleton] at member
    subst member
    rcases shiftIn_cases beyond c.toNat with same | far
    · rw [same, Char.ofNat_toNat]
    · by_cases valid : (shiftIn caseRuns c.toNat).isValidChar
      · rw [Char.ofNat, dif_pos valid] at low
        exact absurd low (Nat.not_le.mpr far)
      · rw [Char.ofNat, dif_neg valid] at visible
        exact absurd rfl visible

theorem mem_of_mem_lowercaseAfter {cased : Bool} (low : d.toNat ≤ 62) (visible : d ≠ '\x00')
    (member : d ∈ lowercaseAfter cased text) : d ∈ text := by
  induction text generalizing cased with
  | nil => exact member
  | cons c rest ih =>
      rw [lowercaseAfter, List.mem_append] at member
      rcases member with first | later
      · split at first
        · rw [List.mem_singleton.mp first] at low
          exact absurd low (by decide)
        · rw [eq_of_mem_lowerChar low visible first]
          exact List.mem_cons_self
      · exact List.mem_cons_of_mem c (ih later)

theorem isInert_lowercaseAfter {cased : Bool} (inert : ∀ d ∈ text, IsInert d) :
    ∀ d ∈ lowercaseAfter cased text, IsInert d := by
  intro d member
  refine ⟨?_, ?_, ?_⟩ <;>
    · rintro rfl
      have old := inert _ (mem_of_mem_lowercaseAfter (by decide) (by decide) member)
      revert old
      decide

theorem isInert_ofText : ∀ d ∈ ofText text, IsInert d := by
  apply isInert_lowercaseAfter
  intro d member
  rcases mem_collapseFrom (mem_trimHyphens member) with word | rfl
  · exact isInert_of_isWord word
  · decide

theorem isInert_headingBase : ∀ d ∈ headingBase text, IsInert d := by
  rw [headingBase]
  split
  · simp [IsInert]
  · exact isInert_ofText

theorem isInert_candidate (inert : ∀ d ∈ base, IsInert d) (n : Nat) :
    ∀ d ∈ candidate base n, IsInert d := by
  rw [candidate]
  split
  · exact inert
  · intro d member
    simp only [List.mem_append, List.mem_cons] at member
    rcases member with old | rfl | digit
    · exact inert d old
    · decide
    · have digits := Nat.isDigit_of_mem_toDigits (by decide) (by decide) digit
      refine isInert_of_isWord (isWord_of_isAlphanum ?_)
      simp [Char.isAlphanum, digits]

theorem isInert_freshId (inert : ∀ d ∈ base, IsInert d) (issued : List Text) :
    ∀ d ∈ freshId issued base, IsInert d := by
  rw [freshId]
  cases found : ((List.range' 1 (issued.length + 1)).map (candidate base)).find? (· ∉ issued) with
  | none => exact inert
  | some name =>
      obtain ⟨n, -, rfl⟩ := List.mem_map.mp (List.mem_of_find?_eq_some found)
      exact isInert_candidate inert n

theorem escapeAttribute_inert (inert : ∀ d ∈ text, IsInert d) :
    Html.escapeAttribute text = text := by
  induction text with
  | nil => rfl
  | cons d rest ih =>
      obtain ⟨less, greater, quote⟩ := inert d (by simp)
      have others := ih fun x member => inert x (by simp [member])
      have alone : Html.escapeAttribute [d] = [d] := by
        simp only [Html.escapeAttribute, Html.escapeText, Text.replace, List.flatMap_cons,
          List.flatMap_nil, if_neg less, if_neg greater, if_neg quote, List.append_nil]
      have parts : Html.escapeAttribute ([d] ++ rest)
          = Html.escapeAttribute [d] ++ Html.escapeAttribute rest := by
        simp only [Html.escapeAttribute, Html.escapeText, Text.replace, List.flatMap_append]
      rw [alone, others] at parts
      exact parts

/-- The name of a heading is not changed where it stands as the value of an attribute. -/
theorem escapeAttribute_freshId (issued : List Text) (title : Text) :
    Html.escapeAttribute (freshId issued (headingBase title))
      = freshId issued (headingBase title) :=
  escapeAttribute_inert (isInert_freshId isInert_headingBase issued)

end MarkPress.Slug
