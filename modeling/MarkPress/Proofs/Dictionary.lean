/-
Module: MarkPress.Proofs.Dictionary
Purpose: The keys of a dictionary.
  A dictionary that is filled by storing and removing has its keys in order, so none occurs twice.
Main exports:
  Dictionary.Ordered, Dictionary.mem_keys_iff, Dictionary.get?_foldl_set,
  Dictionary.mem_keys_ofList, Dictionary.Ordered.set, Dictionary.Ordered.erase,
  Dictionary.Ordered.nodup
-/
import Mathlib.Data.List.Induction
import Mathlib.Data.List.Nodup
import MarkPress.Dictionary

namespace MarkPress.Dictionary

variable {α : Type} {dict : Dictionary α} {key : Text}

/-- The keys are those under which something is stored. -/
theorem mem_keys_iff : key ∈ dict.keys ↔ (dict.get? key).isSome = true := by
  obtain ⟨entries⟩ := dict
  simp only [keys, get?]
  induction entries with
  | nil => simp [lookup]
  | cons entry rest ih =>
      by_cases same : entry.1 = key
      · simp [lookup, same]
      · simp [lookup, same, Ne.symm same, ← ih]

/-! ### Storing several pairs -/

/-- What is read after pairs have been stored: what they say, and where they say nothing, what was
there before. -/
theorem get?_foldl_set (pairs : List (Text × α)) (dict : Dictionary α) (key : Text) :
    (pairs.foldl (fun dict pair => dict.set pair.1 pair.2) dict).get? key
      = ((ofList pairs).get? key).or (dict.get? key) := by
  induction pairs using List.reverseRecOn with
  | nil => rfl
  | append_singleton pairs pair ih =>
      have stored : ofList (pairs ++ [pair]) = (ofList pairs).set pair.1 pair.2 := by
        simp [ofList]
      rw [List.foldl_append, List.foldl_cons, List.foldl_nil, get?_set, ih, stored, get?_set]
      split
      · rfl
      · rfl

/-- The keys of a list of pairs are their first components. -/
theorem mem_keys_ofList {pairs : List (Text × α)} :
    key ∈ (ofList pairs).keys ↔ key ∈ pairs.map Prod.fst := by
  induction pairs using List.reverseRecOn with
  | nil => simp [ofList, keys, empty]
  | append_singleton pairs pair ih =>
      have stored : ofList (pairs ++ [pair]) = (ofList pairs).set pair.1 pair.2 := by
        simp [ofList]
      rw [stored, mem_keys_set, ih, List.map_append, List.mem_append, or_comm]
      simp

/-! ### Order -/

/-- Each key comes before those behind it. -/
def Ordered (dict : Dictionary α) : Prop :=
  dict.keys.Pairwise fun first later => Text.precedes first later = true

theorem ordered_empty : (empty : Dictionary α).Ordered := List.Pairwise.nil

theorem Ordered.nodup (ordered : dict.Ordered) : dict.keys.Nodup := by
  refine ordered.imp ?_
  rintro first _ before rfl
  rw [Text.precedes_irrefl] at before
  cases before

theorem Ordered.set (ordered : dict.Ordered) (key : Text) (value : α) :
    (dict.set key value).Ordered := by
  obtain ⟨entries⟩ := dict
  simp only [Ordered, keys, Dictionary.set] at ordered ⊢
  induction entries with
  | nil => exact List.pairwise_singleton _ _
  | cons entry rest ih =>
      obtain ⟨k, old⟩ := entry
      obtain ⟨first, behind⟩ := List.pairwise_cons.mp ordered
      rw [insert]
      split
      · rename_i same
        subst same
        exact List.pairwise_cons.mpr ⟨first, behind⟩
      · rename_i differs
        split
        · rename_i before
          refine List.pairwise_cons.mpr ⟨fun other member => ?_, ordered⟩
          rcases List.mem_cons.mp member with rfl | later
          · exact before
          · exact Text.precedes_trans before (first other later)
        · rename_i notBefore
          refine List.pairwise_cons.mpr ⟨fun other member => ?_, ih behind⟩
          have stored : other = key ∨ other ∈ rest.map (·.1) :=
            (mem_keys_set ⟨rest⟩ key other value).mp member
          rcases stored with rfl | later
          · rcases Text.precedes_total k other with before | same | behind
            · exact before
            · exact absurd same differs
            · exact absurd behind notBefore
          · exact first other later

theorem Ordered.erase (ordered : dict.Ordered) (key : Text) : (dict.erase key).Ordered := by
  obtain ⟨entries⟩ := dict
  exact List.Pairwise.sublist (List.filter_sublist.map _) ordered

end MarkPress.Dictionary
