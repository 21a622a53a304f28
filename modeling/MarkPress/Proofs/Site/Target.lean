/-
Module: MarkPress.Proofs.Site.Target
Purpose: The paths that files are built into.
  The page of a document has its path with another ending, and every other file keeps its path. So
  no document lies where a file is built into, and two files share a path in the output only if one
  is a document and the other one has the path of its page.
Main exports:
  Site.pageEnding, Site.targetOf, Site.outputOf_append, Site.not_document_targetOf,
  Site.targetOf_eq_iff, Site.areNames_targetOf, Site.join_targetOf_eq_iff
-/
import MarkPress.Proofs.Path
import MarkPress.Proofs.Text.Ends
import MarkPress.Site.Build

namespace MarkPress.Site

variable {source first later : Text}

/-- The ending of the names of pages. -/
def pageEnding : Text := ".html".toList

/-- The path of what a file becomes, below the output folder. -/
def targetOf (source : Text) : Text :=
  if Text.endsWith documentEnding source then outputOf source else source

theorem isDocument_iff :
    Text.endsWith documentEnding source = true ↔ ∃ stem, source = stem ++ documentEnding := by
  rw [Text.endsWith_iff]
  constructor <;> rintro ⟨stem, whole⟩ <;> exact ⟨stem, whole.symm⟩

/-- The page of a document has the path of the document up to the ending. -/
theorem outputOf_append (stem : Text) : outputOf (stem ++ documentEnding) = stem ++ pageEnding := by
  have ending : Text.width documentEnding = documentEnding.length := by decide
  rw [outputOf, Text.width_append, ending, Nat.add_sub_cancel, Text.cut_append]
  rfl

theorem targetOf_document (stem : Text) :
    targetOf (stem ++ documentEnding) = stem ++ pageEnding := by
  rw [targetOf, if_pos (isDocument_iff.mpr ⟨stem, rfl⟩), outputOf_append]

theorem targetOf_other (other : Text.endsWith documentEnding source = false) :
    targetOf source = source := by
  rw [targetOf, other]
  rfl

theorem document_ne_page (stem other : Text) : stem ++ documentEnding ≠ other ++ pageEnding := by
  intro same
  have lastD : documentEnding.getLast? = some 'm' := by decide
  have lastP : pageEnding.getLast? = some 'l' := by decide
  have last := congrArg List.getLast? same
  rw [List.getLast?_append, List.getLast?_append, lastD, lastP] at last
  exact absurd (Option.some.inj last) (by decide)

/-- What is built is no document. -/
theorem not_document_targetOf (source : Text) : ¬ documentEnding <:+ targetOf source := by
  rw [targetOf]
  split
  · rintro ⟨stem, whole⟩
    exact document_ne_page stem _ whole
  · rename_i other
    rwa [← Text.endsWith_iff]

/-- Two files become one only as a document and a file with the path of its page. -/
theorem targetOf_eq_iff (differ : first ≠ later) :
    targetOf first = targetOf later ↔
      ∃ stem, (first = stem ++ documentEnding ∧ later = stem ++ pageEnding)
        ∨ (first = stem ++ pageEnding ∧ later = stem ++ documentEnding) := by
  have page (stem : Text) : targetOf (stem ++ pageEnding) = stem ++ pageEnding := by
    apply targetOf_other
    rw [← Bool.not_eq_true, isDocument_iff]
    rintro ⟨other, whole⟩
    exact document_ne_page other stem whole.symm
  constructor
  · intro same
    cases documentF : Text.endsWith documentEnding first with
    | true =>
        obtain ⟨stem, rfl⟩ := isDocument_iff.mp documentF
        cases documentL : Text.endsWith documentEnding later with
        | true =>
            obtain ⟨other, rfl⟩ := isDocument_iff.mp documentL
            rw [targetOf_document, targetOf_document] at same
            exact absurd (congrArg (· ++ documentEnding) (List.append_cancel_right same)) differ
        | false =>
            rw [targetOf_document, targetOf_other documentL] at same
            exact ⟨stem, .inl ⟨rfl, same.symm⟩⟩
    | false =>
        cases documentL : Text.endsWith documentEnding later with
        | true =>
            obtain ⟨stem, rfl⟩ := isDocument_iff.mp documentL
            rw [targetOf_document, targetOf_other documentF] at same
            exact ⟨stem, .inr ⟨same, rfl⟩⟩
        | false =>
            rw [targetOf_other documentF, targetOf_other documentL] at same
            exact absurd same differ
  · rintro ⟨stem, ⟨rfl, rfl⟩ | ⟨rfl, rfl⟩⟩
    · rw [targetOf_document, page]
    · rw [targetOf_document, page]

/-! ### Targets as paths -/

theorem namesFile_outputOf (source : Text) : Path.NamesFile (outputOf source) :=
  Path.namesFile_append _ (by decide) (by decide)

theorem namesFile_document (document : Text.endsWith documentEnding source = true) :
    Path.NamesFile source := by
  obtain ⟨stem, rfl⟩ := isDocument_iff.mp document
  exact Path.namesFile_append stem (by decide) (by decide)

/-- A path of names becomes a path of names. -/
theorem areNames_targetOf (are : Path.AreNames (Text.split '/' source)) :
    Path.AreNames (Text.split '/' (targetOf source)) := by
  cases document : Text.endsWith documentEnding source with
  | false => rwa [targetOf_other document]
  | true =>
      obtain ⟨stem, rfl⟩ := isDocument_iff.mp document
      obtain ⟨before, last, cut, ended⟩ :=
        Text.split_append_ending stem (show '/' ∉ pageEnding by decide)
      obtain ⟨folders, name, again, written⟩ :=
        Text.split_append_ending stem (show '/' ∉ documentEnding by decide)
      obtain ⟨rfl, same⟩ := List.append_inj' (again.symm.trans cut) rfl
      obtain rfl := (List.cons.inj same).1
      rw [written] at are
      rw [targetOf_document, ended]
      have inFolders : ∀ part ∈ folders, part ∈ folders ++ [name ++ documentEnding] :=
        fun part member => List.mem_append_left _ member
      refine ⟨by simp, fun part member => ?_, fun part member => ?_⟩
      · rcases List.mem_append.mp member with before | last
        · exact are.each part (inFolders part before)
        · obtain rfl := List.mem_singleton.mp last
          exact Path.isName_append name (by decide)
      · rcases List.mem_append.mp member with before | last
        · exact are.free part (inFolders part before)
        · obtain rfl := List.mem_singleton.mp last
          exact Text.not_mem_of_mem_split (by rw [ended]; simp)

/-- Behind a folder different targets stay different. -/
theorem join_targetOf_eq_iff (folder : Text) (areF : Path.AreNames (Text.split '/' first))
    (areL : Path.AreNames (Text.split '/' later)) :
    Path.join folder (targetOf first) = Path.join folder (targetOf later) ↔
      targetOf first = targetOf later := by
  refine ⟨fun same => ?_, congrArg (Path.join folder)⟩
  have parts := congrArg Path.parts same
  rw [Path.parts_join_of_split folder (areNames_targetOf areF),
    Path.parts_join_of_split folder (areNames_targetOf areL)] at parts
  rw [← Text.join_split '/' (targetOf first), ← Text.join_split '/' (targetOf later),
    List.append_cancel_left parts]

end MarkPress.Site
