/-
Module: MarkPress.Proofs.Html.Sections
Purpose: The tags of sections in a text, read from left to right.
  A reader who knows whether a section is open follows the tags as long as one opens only where none
  is open and one closes only where one is. A seam is a text that may stand inside of a section: its
  own tags close the section and open the next one, any number of times.
Main exports:
  sectionTags, sectionTags_append, sectionTags_of_free, Seam, Seam.append, Seam.write
-/
import MarkPress.Proofs.Html.Marks

namespace MarkPress.Html

/-- The tags of sections in a text, from left to right: `true` for one that opens a section, `false`
for one that closes it. -/
def sectionTags : Text → List Bool
  | [] => []
  | c :: rest =>
      if Text.startsWith "<section>".toList (c :: rest) then true :: sectionTags rest
      else if Text.startsWith "</section>".toList (c :: rest) then false :: sectionTags rest
      else sectionTags rest

/-! ### Texts side by side -/

theorem tokenTest_section : TokenTest (Text.startsWith "<section>".toList) :=
  tokenTest_startsWith (show '>' ∉ "section".toList by decide) '>'

theorem tokenTest_sectionEnd : TokenTest (Text.startsWith "</section>".toList) :=
  tokenTest_startsWith (show '>' ∉ "/section".toList by decide) '>'

theorem sectionTags_eq (text : Text) : sectionTags text
    = marks (Text.startsWith "<section>".toList) (Text.startsWith "</section>".toList) text := by
  induction text with
  | nil => rfl
  | cons c rest ih => rw [sectionTags, marks, ih]

/-- Behind a text of whole tokens the tags of the rest are those that it has alone. -/
theorem sectionTags_append {left : Text} (tokenized : Tokenized left) (right : Text) :
    sectionTags (left ++ right) = sectionTags left ++ sectionTags right := by
  simp only [sectionTags_eq]
  exact marks_append tokenTest_section tokenTest_sectionEnd tokenized right

/-- A text in which no tag opens or closes a section has no tags of sections. -/
theorem sectionTags_of_free {text : Text} (free : Free [.sect] text) : sectionTags text = [] := by
  rw [sectionTags_eq]
  refine marks_of_free (fun text found => ?_) (fun text found => found) free
  rw [opensAt, Bool.or_eq_true]
  exact .inl found

/-! ### Texts inside of a section -/

/-- A text that may stand inside of a section: whole tokens, and the tags of sections among them
lead from inside of a section to inside of a section. -/
structure Seam (text : Text) : Prop where
  tokenized : Tokenized text
  followed : (sectionTags text).foldlM crossTag true = some true

theorem seam_of_free {text : Text} (tokenized : Tokenized text) (free : Free [.sect] text) :
    Seam text :=
  ⟨tokenized, by rw [sectionTags_of_free free]; rfl⟩

theorem seam_of_plain {text : Text} (plain : ∀ c ∈ text, c ≠ '<' ∧ c ≠ '>') : Seam text :=
  seam_of_free (tokenized_of_plain plain) (free_plain fun member => (plain _ member).1 rfl)

theorem seam_nil : Seam [] := seam_of_plain fun _ member => absurd member List.not_mem_nil

theorem Seam.append {left right : Text} (hleft : Seam left) (hright : Seam right) :
    Seam (left ++ right) where
  tokenized := hleft.tokenized.append hright.tokenized
  followed := by
    rw [sectionTags_append hleft.tokenized, List.foldlM_append, hleft.followed]
    exact hright.followed

theorem seam_replicate {half : Text} (seam : Seam half) (n : Nat) :
    Seam (List.replicate n half).flatten := by
  induction n with
  | zero => exact seam_nil
  | succ n ih =>
      rw [List.replicate_succ, List.flatten_cons]
      exact seam.append ih

section Write

variable {element : Option Element} {attributes : Attributes} {content : Text}
  (named : ∀ e, element = some e → e.name ∈ elementNames) (known : attributes.Known)
include named known

/-- Around a seam the tags of any other element leave a seam. -/
theorem Seam.write (other : element ≠ some .sect) (seam : Seam content) (shape : Shape) :
    Seam (write element attributes content shape) := by
  cases element with
  | none =>
      cases shape with
      | void => exact seam_nil
      | whole | opening | closing => exact seam
  | some e =>
      have differs : e ∉ [Element.sect] := by simpa using other
      have begins : Seam (e.openTag attributes) :=
        seam_of_free (tokenized_openTag (named e rfl) known)
          (free_openTag differs (named e rfl) known)
      have ends : Seam e.closeTag :=
        seam_of_free (tokenized_closeTag (named e rfl)) (free_closeTag differs (named e rfl))
      cases shape with
      | void =>
          exact seam_of_free (tokenized_voidTag (named e rfl) known)
            (free_voidTag differs (named e rfl) known)
      | whole => exact (begins.append seam).append ends
      | opening => exact begins.append seam
      | closing => exact seam.append ends

end Write

end MarkPress.Html
