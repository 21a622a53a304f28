/-
Module: MarkPress.Proofs.Render.Selection
Purpose: What the export of a sequence of regions leaves out.
  The selection is a part of the sequence, in order. Whatever is counted of its items, the count of
  the whole is that of the selection and that of the orphaned closing halves together, provided that
  the two halves of an empty pair cancel each other.
Main exports:
  Export.orphans, Export.selection_sublist, Export.sum_selection
-/
import Mathlib.Algebra.Ring.Int.Defs
import MarkPress.Export

namespace MarkPress.Export

variable {α : Type} {region : α → Region}

/-- The closing halves without an opening half before them, given the elements that are open so
far. -/
def orphansFrom (region : α → Region) (opened : List Html.Element) : List α → List α
  | [] => []
  | item :: rest =>
      match (region item).tag.traits.element, (region item).tag.traits.shape with
      | some element, .closing =>
          if element ∈ opened then orphansFrom region (opened.erase element) rest
          else item :: orphansFrom region opened rest
      | some element, .opening => orphansFrom region (element :: opened) rest
      | _, _ => orphansFrom region opened rest

/-- The items that the export of a sequence leaves out as closing halves without an opening half. -/
def orphans (region : α → Region) (items : List α) : List α :=
  orphansFrom region [] (dropEmptyPairs region (items.filter fun item => (region item).isShown))

/-! ### The selection is a part of the sequence -/

theorem dropEmptyPairs_sublist (items : List α) : (dropEmptyPairs region items).Sublist items := by
  induction items using dropEmptyPairs.induct region with
  | case1 => exact List.Sublist.refl _
  | case2 item => exact List.Sublist.refl _
  | case3 left right rest empty ih =>
      rw [dropEmptyPairs, if_pos empty]
      exact (ih.cons right).cons left
  | case4 left right rest filled ih =>
      rw [dropEmptyPairs, if_neg filled]
      exact ih.cons_cons left

/-- Each item either stays or is an orphan. -/
theorem dropOrphans_cons (opened : List Html.Element) (item : α) (rest : List α) :
    (∃ after, dropOrphans region opened (item :: rest) = item :: dropOrphans region after rest
      ∧ orphansFrom region opened (item :: rest) = orphansFrom region after rest)
    ∨ (dropOrphans region opened (item :: rest) = dropOrphans region opened rest
      ∧ orphansFrom region opened (item :: rest) = item :: orphansFrom region opened rest) := by
  simp only [dropOrphans, orphansFrom]
  cases (region item).tag.traits.element with
  | none => exact .inl ⟨opened, rfl, rfl⟩
  | some element =>
      cases (region item).tag.traits.shape with
      | whole => exact .inl ⟨opened, rfl, rfl⟩
      | void => exact .inl ⟨opened, rfl, rfl⟩
      | opening => exact .inl ⟨element :: opened, rfl, rfl⟩
      | closing =>
          by_cases paired : element ∈ opened
          · exact .inl ⟨opened.erase element, if_pos paired, if_pos paired⟩
          · exact .inr ⟨if_neg paired, if_neg paired⟩

theorem dropOrphans_sublist (opened : List Html.Element) (items : List α) :
    (dropOrphans region opened items).Sublist items := by
  induction items generalizing opened with
  | nil => exact List.Sublist.refl _
  | cons item rest ih =>
      rcases dropOrphans_cons opened item rest with ⟨after, kept, -⟩ | ⟨left, -⟩
      · rw [kept]
        exact (ih after).cons_cons item
      · rw [left]
        exact (ih opened).cons item

theorem orphansFrom_sublist (opened : List Html.Element) (items : List α) :
    (orphansFrom region opened items).Sublist items := by
  induction items generalizing opened with
  | nil => exact List.Sublist.refl _
  | cons item rest ih =>
      rcases dropOrphans_cons opened item rest with ⟨after, -, same⟩ | ⟨-, orphaned⟩
      · rw [same]
        exact (ih after).cons item
      · rw [orphaned]
        exact (ih opened).cons_cons item

theorem orphans_sublist (items : List α) : (orphans region items).Sublist items :=
  ((orphansFrom_sublist _ _).trans (dropEmptyPairs_sublist _)).trans List.filter_sublist

theorem selection_sublist (items : List α) : (selection region items).Sublist items :=
  ((dropOrphans_sublist _ _).trans (dropEmptyPairs_sublist _)).trans List.filter_sublist

/-! ### What is left out makes up the rest -/

variable {f : α → Int}

theorem sum_dropEmptyPairs {items : List α}
    (cancel : ∀ left ∈ items, ∀ right ∈ items, isEmptyPair (region left) (region right) = true →
      f left + f right = 0) :
    ((dropEmptyPairs region items).map f).sum = (items.map f).sum := by
  induction items using dropEmptyPairs.induct region with
  | case1 => rfl
  | case2 item => rfl
  | case3 left right rest empty ih =>
      have pair : f left + f right = 0 := cancel left (by simp) right (by simp) empty
      have others := ih fun a ha b hb => cancel a (by simp [ha]) b (by simp [hb])
      rw [dropEmptyPairs, if_pos empty, others]
      simp only [List.map_cons, List.sum_cons]
      omega
  | case4 left right rest filled ih =>
      have others := ih fun a ha b hb =>
        cancel a (List.mem_cons_of_mem _ ha) b (List.mem_cons_of_mem _ hb)
      rw [dropEmptyPairs, if_neg filled, List.map_cons, List.sum_cons, others]
      rfl

theorem sum_dropOrphans (opened : List Html.Element) (items : List α) :
    ((dropOrphans region opened items).map f).sum + ((orphansFrom region opened items).map f).sum
      = (items.map f).sum := by
  induction items generalizing opened with
  | nil => rfl
  | cons item rest ih =>
      rcases dropOrphans_cons opened item rest with ⟨after, kept, same⟩ | ⟨same, orphaned⟩
      · have others := ih after
        rw [kept, same, List.map_cons, List.sum_cons, List.map_cons, List.sum_cons]
        omega
      · have others := ih opened
        rw [same, orphaned, List.map_cons, List.sum_cons, List.map_cons, List.sum_cons]
        omega

/-- What appears in the output and what is orphaned make up all that is shown. -/
theorem sum_selection (region : α → Region) (f : α → Int) {items : List α}
    (cancel : ∀ left ∈ items, ∀ right ∈ items, isEmptyPair (region left) (region right) = true →
      f left + f right = 0) :
    ((selection region items).map f).sum + ((orphans region items).map f).sum
      = ((items.filter fun item => (region item).isShown).map f).sum := by
  rw [selection, orphans, sum_dropOrphans]
  apply sum_dropEmptyPairs
  intro left hleft right hright
  exact cancel left (List.mem_filter.mp hleft).1 right (List.mem_filter.mp hright).1

end MarkPress.Export
