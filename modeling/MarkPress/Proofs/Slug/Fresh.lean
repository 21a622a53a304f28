/-
Module: MarkPress.Proofs.Slug.Fresh
Purpose: The names of headings are new.
  Numbers are printed differently, so the candidates for a name all differ. One more candidate than
  there are issued names can not all be issued, so the search for a name ends, and no later than
  with the last of them.
Main exports:
  Text.ofNat_injective, Slug.candidate_injective, Slug.freshId_eq_candidate, Slug.Names,
  Slug.freshId_names
-/
import Mathlib.Data.List.Nodup
import Mathlib.Data.List.Perm.Subperm
import MarkPress.Slug.Anchor

namespace MarkPress

theorem Text.ofNat_injective {m n : Nat} (same : Text.ofNat m = Text.ofNat n) : m = n := by
  have read := congrArg (fun digits => Nat.ofDigitChars 10 digits 0) same
  simpa [Text.ofNat] using read

namespace Slug

variable {issued : List Text} {base id : Text} {m n : Nat}

/-! ### Candidates -/

theorem candidate_one (base : Text) : candidate base 1 = base := rfl

theorem candidate_of_two_le (two : 2 ≤ n) :
    candidate base n = base ++ '-' :: Text.ofNat n :=
  if_neg (by omega)

theorem candidate_injective (first : 1 ≤ m) (first' : 1 ≤ n)
    (same : candidate base m = candidate base n) : m = n := by
  rcases Nat.eq_or_lt_of_le first with rfl | two
  · rcases Nat.eq_or_lt_of_le first' with rfl | two'
    · rfl
    · simp [candidate_one, candidate_of_two_le two'] at same
  · rcases Nat.eq_or_lt_of_le first' with rfl | two'
    · simp [candidate_one, candidate_of_two_le two] at same
    · rw [candidate_of_two_le two, candidate_of_two_le two', List.append_cancel_left_eq,
        List.cons.injEq] at same
      exact Text.ofNat_injective same.2

theorem headingBase_ne_nil (title : Text) : headingBase title ≠ [] := by
  rw [headingBase]
  split
  · decide
  · assumption

/-! ### The search for a name -/

/-- Of one more candidate than there are issued names, one is new. -/
theorem exists_new_candidate (issued : List Text) (base : Text) :
    ∃ n, 1 ≤ n ∧ n < 1 + (issued.length + 1) ∧ candidate base n ∉ issued := by
  by_contra covered
  push Not at covered
  have distinct : ((List.range' 1 (issued.length + 1)).map (candidate base)).Nodup := by
    refine List.Nodup.map_on (fun a aMember b bMember same => ?_) List.nodup_range'
    rw [List.mem_range'_1] at aMember bMember
    exact candidate_injective aMember.1 bMember.1 same
  have among : (List.range' 1 (issued.length + 1)).map (candidate base) ⊆ issued := by
    intro id member
    obtain ⟨n, inRange, rfl⟩ := List.mem_map.mp member
    rw [List.mem_range'_1] at inRange
    exact covered n inRange.1 inRange.2
  have shorter := (List.subperm_of_subset distinct among).length_le
  rw [List.length_map, List.length_range'] at shorter
  omega

/-- The search stops at a candidate that is new, and all before it have been issued. -/
theorem freshId_eq_candidate (issued : List Text) (base : Text) :
    ∃ n, 1 ≤ n ∧ n ≤ issued.length + 1 ∧ freshId issued base = candidate base n
      ∧ candidate base n ∉ issued ∧ ∀ m, 1 ≤ m → m < n → candidate base m ∈ issued := by
  have stops : (List.range' 1 (issued.length + 1)).find? (fun n => candidate base n ∉ issued)
      ≠ none := by
    rw [ne_eq, List.find?_range'_eq_none]
    intro none
    obtain ⟨n, first, inRange, new⟩ := exists_new_candidate issued base
    simpa [new] using none n first inRange
  obtain ⟨n, found⟩ := Option.ne_none_iff_exists'.mp stops
  have freshEq : freshId issued base = candidate base n := by
    rw [freshId, List.find?_map]
    exact congrArg (fun found => (found.map (candidate base)).getD base) found
  rw [List.find?_range'_eq_some, List.mem_range'_1] at found
  obtain ⟨new, inRange, before⟩ := found
  refine ⟨n, inRange.1, by omega, freshEq, by simpa using new, fun m first less => ?_⟩
  simpa using before m first less

/-- The name of a heading, given the names of the headings before it: its base if none of them has
that name, and else the base with the smallest number from two on that makes a new name. As many
names are tried as the number says, at most one more than have been issued. -/
inductive Names (issued : List Text) (base : Text) : Text → Prop where
  | base (new : base ∉ issued) : Names issued base base
  | numbered {n : Nat} (taken : base ∈ issued) (two : 2 ≤ n)
      (new : base ++ '-' :: Text.ofNat n ∉ issued)
      (smallest : ∀ m, 2 ≤ m → m < n → base ++ '-' :: Text.ofNat m ∈ issued)
      (tries : n ≤ issued.length + 1) : Names issued base (base ++ '-' :: Text.ofNat n)

/-- The name that a heading gets is the one that it should get. -/
theorem freshId_names (issued : List Text) (base : Text) :
    Names issued base (freshId issued base) := by
  obtain ⟨n, first, tries, freshEq, new, before⟩ := freshId_eq_candidate issued base
  rw [freshEq]
  rcases Nat.eq_or_lt_of_le first with rfl | two
  · exact .base new
  · rw [candidate_of_two_le two] at new ⊢
    refine .numbered (before 1 (Nat.le_refl 1) two) two new (fun m two' less => ?_) tries
    rw [← candidate_of_two_le two']
    exact before m (by omega) less

namespace Names

theorem new (names : Names issued base id) : id ∉ issued := by
  cases names with
  | base new => exact new
  | numbered _ _ new => exact new

theorem filled (names : Names issued base id) (filled : base ≠ []) : id ≠ [] := by
  cases names with
  | base => exact filled
  | numbered => simp

end Names

end Slug

end MarkPress
