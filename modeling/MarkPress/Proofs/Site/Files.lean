/-
Module: MarkPress.Proofs.Site.Files
Purpose: Files under their paths, and the listing of a folder.
  Files that were written are found under cleaned paths that end in a name. So the paths listed for
  a folder, written behind it, lead to the files that are there, and each is listed once.
Main exports:
  Files.Filed, Files.Filed.write, Files.get?_names, Files.list_eq, Files.mem_list_iff,
  Files.nodup_list, Files.list_pairwise, Files.writeAll, Files.get?_writeAll_of_absent
-/
import MarkPress.Proofs.Dictionary
import MarkPress.Proofs.Path
import MarkPress.Proofs.Text.Order
import MarkPress.Site.Files

namespace MarkPress

/-! ### The order of paths -/

namespace Path

/-- Paths stand in the dictionary order of their parts, each of which counts by its units. -/
theorem precedes_iff {left right : List Text} :
    precedes left right = true ↔ left.map Text.codeUnits < right.map Text.codeUnits := by
  induction left generalizing right with
  | nil => cases right <;> simp [precedes]
  | cons a left ih =>
      cases right with
      | nil => simp [precedes]
      | cons b right =>
          simp [precedes, ih, Text.precedes_iff, List.cons_lt_cons_iff,
            Text.codeUnits_injective.eq_iff]

end Path

namespace Files

variable {files : Files} {folder path source : Text} {sources : List Text}

/-! ### Files that were written -/

/-- Every file is stored under a cleaned path that ends in a name, and under one path only. -/
structure Filed (files : Files) : Prop where
  named : ∀ key ∈ files.texts.keys, Path.NamesFile key
  cleaned : ∀ key ∈ files.texts.keys, Path.clean key = key
  ordered : files.texts.Ordered

theorem filed_empty : Filed {} where
  named _ member := absurd member List.not_mem_nil
  cleaned _ member := absurd member List.not_mem_nil
  ordered := Dictionary.ordered_empty

theorem Filed.write (filed : files.Filed) (named : Path.NamesFile path) (text : Text) :
    (files.write path text).Filed where
  named key member := by
    rcases (Dictionary.mem_keys_set _ _ _ _).mp member with rfl | old
    · exact Path.namesFile_clean named
    · exact filed.named key old
  cleaned key member := by
    rcases (Dictionary.mem_keys_set _ _ _ _).mp member with rfl | old
    · exact Path.clean_clean named
    · exact filed.cleaned key old
  ordered := filed.ordered.set _ _

theorem Filed.remove (filed : files.Filed) (path : Text) : (files.remove path).Filed := by
  have kept : ∀ key ∈ (files.remove path).texts.keys, key ∈ files.texts.keys := fun key member =>
    (List.filter_sublist.map _).subset member
  exact
    { named := fun key member => filed.named key (kept key member)
      cleaned := fun key member => filed.cleaned key (kept key member)
      ordered := filed.ordered.erase _ }

/-! ### Listing a folder -/

/-- The file below a folder that names lead to. -/
theorem get?_names (folder : Text) {names : List Text} (are : Path.AreNames names) :
    files.get? (Path.join folder (Text.join '/' names))
      = files.texts.get? (Text.join '/' (Path.parts folder ++ names)) := by
  rw [get?, Path.clean_join folder are.namesFile, Path.join_names folder are]

theorem mem_below_iff (filed : files.Filed) {names : List Text} :
    names ∈ files.below folder ↔
      Path.AreNames names
        ∧ (files.get? (Path.join folder (Text.join '/' names))).isSome = true := by
  rw [below, List.mem_filterMap]
  constructor
  · rintro ⟨key, stored, isBelow⟩
    obtain ⟨are, whole⟩ := Path.below?_eq_some_iff.mp isBelow
    refine ⟨are, ?_⟩
    rw [get?_names folder are, ← whole, ← Path.clean_of_namesFile (filed.named key stored),
      filed.cleaned key stored]
    exact Dictionary.mem_keys_iff.mp stored
  · rintro ⟨are, there⟩
    rw [get?_names folder are] at there
    refine ⟨_, Dictionary.mem_keys_iff.mpr there, Path.below?_eq_some_iff.mpr ⟨are, ?_⟩⟩
    rw [← Path.join_names folder are, Path.parts_join_names folder are]

theorem nodup_below (filed : files.Filed) : (files.below folder).Nodup := by
  rw [below, List.Nodup, List.pairwise_filterMap]
  refine filed.ordered.nodup.imp_of_mem ?_
  rintro first later storedF storedL differ names belowF _ belowL rfl
  have partsF := (Path.below?_eq_some_iff.mp belowF).2
  have partsL := (Path.below?_eq_some_iff.mp belowL).2
  apply differ
  rw [← filed.cleaned first storedF, ← filed.cleaned later storedL,
    Path.clean_of_namesFile (filed.named first storedF),
    Path.clean_of_namesFile (filed.named later storedL), partsF, partsL]

/-- The paths of a listing, in parts. -/
def shown (files : Files) (folder : Text) : List (List Text) :=
  ((files.below folder).filter fun path => !path.any isHidden).mergeSort
    fun a b => !Path.precedes b a

/-- A folder that is there has a listing. -/
theorem list_eq (present : Path.parts folder ∈ files.folders) :
    files.list folder = .ok ((files.shown folder).map (Text.join '/')) := by
  rw [list, if_pos present]
  rfl

theorem list_eq_ok (listed : files.list folder = .ok sources) :
    sources = (files.shown folder).map (Text.join '/') := by
  rw [list] at listed
  split at listed
  · exact (Except.ok.inj listed).symm
  · cases listed

theorem mem_shown_iff (filed : files.Filed) {names : List Text} :
    names ∈ files.shown folder ↔
      Path.AreNames names ∧ (∀ name ∈ names, isHidden name = false)
        ∧ (files.get? (Path.join folder (Text.join '/' names))).isSome = true := by
  rw [shown, List.mem_mergeSort, List.mem_filter, mem_below_iff filed]
  simp only [Bool.not_eq_true', List.any_eq_false, Bool.not_eq_true]
  constructor
  · rintro ⟨⟨are, there⟩, visible⟩
    exact ⟨are, visible, there⟩
  · rintro ⟨are, visible, there⟩
    exact ⟨⟨are, there⟩, visible⟩

/-- A listing has the files whose path, as seen from the folder, has names none of which begins with
a dot. -/
theorem mem_list_iff (filed : files.Filed) (listed : files.list folder = .ok sources) :
    source ∈ sources ↔
      Path.AreNames (Text.split '/' source)
        ∧ (∀ name ∈ Text.split '/' source, isHidden name = false)
        ∧ (files.get? (Path.join folder source)).isSome = true := by
  rw [list_eq_ok listed, List.mem_map]
  constructor
  · rintro ⟨names, member, rfl⟩
    have found := (mem_shown_iff filed).mp member
    rwa [found.1.split]
  · intro found
    refine ⟨Text.split '/' source, (mem_shown_iff filed).mpr ?_, Text.join_split '/' source⟩
    rwa [Text.join_split]

/-- Every file is listed once. -/
theorem nodup_list (filed : files.Filed) (listed : files.list folder = .ok sources) :
    sources.Nodup := by
  have distinct : (files.shown folder).Nodup :=
    (List.mergeSort_perm _ _).nodup_iff.mpr ((nodup_below filed).filter _)
  rw [list_eq_ok listed]
  refine (List.nodup_map_iff_inj_on distinct).mpr fun first memberF later memberL same => ?_
  have areF := ((mem_shown_iff filed).mp memberF).1
  have areL := ((mem_shown_iff filed).mp memberL).1
  rw [← areF.split, ← areL.split, same]

/-- A listing is in the order of the parts of its paths. -/
theorem list_pairwise (filed : files.Filed) (listed : files.list folder = .ok sources) :
    sources.Pairwise fun first later =>
      ¬ (Text.split '/' later).map Text.codeUnits < (Text.split '/' first).map Text.codeUnits := by
  have sorted : (files.shown folder).Pairwise fun first later =>
      (!Path.precedes later first) = true := by
    apply List.pairwise_mergeSort
    · intro first middle later before behind
      rw [Bool.not_eq_true', ← Bool.not_eq_true, Path.precedes_iff] at before behind ⊢
      exact not_lt.mpr ((not_lt.mp before).trans (not_lt.mp behind))
    · intro first later
      rw [Bool.or_eq_true, Bool.not_eq_true', Bool.not_eq_true', ← Bool.not_eq_true,
        ← Bool.not_eq_true, Path.precedes_iff, Path.precedes_iff, not_lt, not_lt]
      exact le_total _ _
  rw [list_eq_ok listed, List.pairwise_map]
  refine sorted.imp_of_mem fun {first later} memberF memberL before => ?_
  have areF := ((mem_shown_iff filed).mp memberF).1
  have areL := ((mem_shown_iff filed).mp memberL).1
  rw [areF.split, areL.split, ← Path.precedes_iff, Bool.not_eq_true]
  exact (Bool.not_eq_true' _).mp before

/-! ### Many writes -/

theorem read_of_get? {text : Text} (there : files.get? path = some text) :
    files.read path = .ok text := by
  rw [read, there]

/-- Write files one after the other. -/
def writeAll (writes : List (Text × Text)) (files : Files) : Files :=
  writes.foldl (fun files written => files.write written.1 written.2) files

theorem writeAll_append (first later : List (Text × Text)) (files : Files) :
    files.writeAll (first ++ later) = (files.writeAll first).writeAll later :=
  List.foldl_append

/-- A file that none of the paths leads to stays as it is. -/
theorem get?_writeAll_of_absent {writes : List (Text × Text)}
    (absent : ∀ written ∈ writes, Path.clean written.1 ≠ Path.clean path) :
    (files.writeAll writes).get? path = files.get? path := by
  induction writes generalizing files with
  | nil => rfl
  | cons written writes ih =>
      have elsewhere := absent written List.mem_cons_self
      rw [writeAll, List.foldl_cons, ← writeAll,
        ih fun later member => absent later (List.mem_cons_of_mem _ member), get?_write,
        if_neg elsewhere]

/-- No write takes a file away. -/
theorem isSome_get?_writeAll (writes : List (Text × Text))
    (there : (files.get? path).isSome = true) :
    ((files.writeAll writes).get? path).isSome = true := by
  induction writes generalizing files with
  | nil => exact there
  | cons written writes ih =>
      refine @ih (files.write written.1 written.2) ?_
      rw [get?_write]
      split
      · rfl
      · exact there

theorem Filed.writeAll {writes : List (Text × Text)} (filed : files.Filed)
    (named : ∀ written ∈ writes, Path.NamesFile written.1) : (files.writeAll writes).Filed := by
  induction writes generalizing files with
  | nil => exact filed
  | cons written writes ih =>
      exact ih (filed.write (named written List.mem_cons_self) _)
        fun later member => named later (List.mem_cons_of_mem _ member)

end Files

end MarkPress
