/-
Module: MarkPress.Proofs.Scan.Arena
Purpose: Reading, changing and cutting an arena at a region, under distinct serial numbers.
  With distinct numbers an arena splits in one way only at the region of a number, and every
  operation on that number is the obvious one on the three parts.
Main exports:
  Arena.holds_iff, Arena.get?_of_mem, Arena.update_split, Arena.above_split, Arena.downTo_split
-/
import MarkPress.Scan.Arena

namespace MarkPress.Scan

/-- The tag of the region of an entry. -/
def Entry.tag (entry : Entry) : Tag := entry.region.tag

/-- What an entry keeps whatever is written into its region. -/
def Entry.label (entry : Entry) : Nat × Tag := (entry.serial, entry.tag)

namespace Arena

variable {arena newer older : Arena} {entry : Entry} {serial : Nat}

theorem holds_iff : arena.holds serial = true ↔ serial ∈ arena.map Entry.serial := by
  simp [holds]

theorem get?_of_mem (distinct : (arena.map Entry.serial).Nodup) (member : entry ∈ arena) :
    arena.get? entry.serial = some entry.region := by
  induction arena with
  | nil => simp at member
  | cons first rest ih =>
      simp only [List.map_cons, List.nodup_cons] at distinct
      rcases List.mem_cons.mp member with rfl | later
      · simp [get?]
      · have differs : first.serial ≠ entry.serial := by
          intro same
          exact distinct.1 (same ▸ List.mem_map_of_mem later)
        rw [get?, if_neg differs, ih distinct.2 later]

theorem get?_append (left right : Arena) (serial : Nat) :
    get? (left ++ right) serial = (left.get? serial).or (right.get? serial) := by
  induction left with
  | nil => simp [get?]
  | cons first rest ih =>
      by_cases same : first.serial = serial
      · simp [get?, same]
      · simp [get?, same, ih]

theorem update_of_absent (absent : serial ∉ arena.map Entry.serial) (f : Region → Region) :
    arena.update serial f = arena := by
  induction arena with
  | nil => rfl
  | cons first rest ih =>
      simp only [List.map_cons, List.mem_cons, not_or] at absent
      have others := ih absent.2
      simp only [update] at others
      simp [update, Ne.symm absent.1, others]

theorem update_append (left right : Arena) (serial : Nat) (f : Region → Region) :
    update (left ++ right) serial f = left.update serial f ++ right.update serial f := by
  simp [update]

/-- The three parts of an arena at a region, with distinct numbers. -/
theorem not_mem_of_split (split : arena = newer ++ entry :: older)
    (distinct : (arena.map Entry.serial).Nodup) :
    entry.serial ∉ newer.map Entry.serial ∧ entry.serial ∉ older.map Entry.serial := by
  subst split
  simp only [List.map_append, List.map_cons, List.nodup_append, List.nodup_cons] at distinct
  refine ⟨fun member => ?_, distinct.2.1.1⟩
  exact distinct.2.2 _ member entry.serial (by simp) rfl

theorem update_split (split : arena = newer ++ entry :: older)
    (distinct : (arena.map Entry.serial).Nodup) (f : Region → Region) :
    arena.update entry.serial f = newer ++ { entry with region := f entry.region } :: older := by
  obtain ⟨before, behind⟩ := not_mem_of_split split distinct
  have olderEq := update_of_absent behind f
  rw [split, update_append, update_of_absent before]
  simp only [update] at olderEq
  simp [update, olderEq]

theorem above_split (split : arena = newer ++ entry :: older)
    (distinct : (arena.map Entry.serial).Nodup) : arena.above entry.serial = newer := by
  obtain ⟨before, -⟩ := not_mem_of_split split distinct
  have others : ∀ x ∈ newer, (x.serial != entry.serial) = true := by
    intro x member
    simp only [bne_iff_ne, ne_eq]
    exact fun same => before (same ▸ List.mem_map_of_mem member)
  rw [above, split, List.takeWhile_append_of_pos others]
  simp

theorem downTo_split (split : arena = newer ++ entry :: older)
    (distinct : (arena.map Entry.serial).Nodup) : arena.downTo entry.serial = entry :: older := by
  have whole := above_append_downTo arena entry.serial
  rw [above_split split distinct] at whole
  exact List.append_cancel_left (whole.trans split)

theorem above_of_absent (absent : serial ∉ arena.map Entry.serial) :
    arena.above serial = arena := by
  have others : ∀ x ∈ arena, (x.serial != serial) = true := by
    intro x member
    simp only [bne_iff_ne, ne_eq]
    exact fun same => absent (same ▸ List.mem_map_of_mem member)
  have whole : List.takeWhile (fun x => x.serial != serial) (arena ++ []) = arena ++ [] :=
    List.takeWhile_append_of_pos others
  simpa [above] using whole

theorem downTo_of_absent (absent : serial ∉ arena.map Entry.serial) : arena.downTo serial = [] := by
  have whole := above_append_downTo arena serial
  rw [above_of_absent absent] at whole
  simpa using whole

end Arena

end MarkPress.Scan
