/-
Module: MarkPress.Proofs.Path
Purpose: Paths and the parts that count.
  The parts of a path are a stack that each written part is pushed on. What is on the stack is there
  to stay: pushing it again in its order builds the same stack. So a cleaned path has the parts of
  the path it was made from, and a path below a folder has the parts of the folder before its own.
Main exports:
  Path.IsName, Path.NamesFile, Path.AreNames, Path.clean_of_namesFile, Path.parts_clean,
  Path.parts_join_names, Path.join_names, Path.below?_eq_some_iff
-/
import Mathlib.Data.List.Basic
import MarkPress.Path
import MarkPress.Proofs.Text.Pieces

namespace MarkPress.Path

/-! ### The stack of parts -/

/-- A part that names a file or a folder in the folder before it. -/
def IsName (part : Text) : Prop := part ≠ [] ∧ part ≠ ['.'] ∧ part ≠ ['.', '.']

instance (part : Text) : Decidable (IsName part) := inferInstanceAs (Decidable (_ ∧ _ ∧ _))

/-- The stacks that pushing parts leads to: the empty one, the root, and with each part more one on
which the part was pushed. -/
inductive Kept : List Text → Prop where
  | nothing : Kept []
  | root : Kept [[]]
  | part {kept : List Text} {part : Text} (before : Kept kept) (free : '/' ∉ part)
      (pushed : push kept part = part :: kept) : Kept (part :: kept)

theorem push_name {part : Text} (name : IsName part) (kept : List Text) :
    push kept part = part :: kept := by
  simp [push.eq_def, name.1, name.2.1, name.2.2]

theorem filled_of_push {kept : List Text} {part : Text} (pushed : push kept part = part :: kept) :
    part ≠ [] := by
  rintro rfl
  simp [push.eq_def] at pushed

theorem Kept.push {kept : List Text} {part : Text} (before : Kept kept) (free : '/' ∉ part) :
    Kept (push kept part) := by
  by_cases skipped : part = [] ∨ part = ['.']
  · have same : Path.push kept part = kept := by simp [push.eq_def, skipped]
    rw [same]
    exact before
  · by_cases up : part = ['.', '.']
    · subst up
      cases before with
      | nothing => exact .part .nothing free rfl
      | root => exact .root
      | @part kept last below lastFree pushed =>
          by_cases chain : last = ['.', '.']
          · subst chain
            exact .part (.part below lastFree pushed) free rfl
          · have popped : Path.push (last :: kept) ['.', '.'] = kept := by
              simp [push.eq_def, chain, filled_of_push pushed]
            rw [popped]
            exact below
    · have name : IsName part := ⟨fun e => skipped (.inl e), fun e => skipped (.inr e), up⟩
      rw [push_name name]
      exact .part before free (push_name name kept)

theorem Kept.foldl_push {kept written : List Text} (before : Kept kept)
    (free : ∀ part ∈ written, '/' ∉ part) : Kept (written.foldl Path.push kept) := by
  induction written generalizing kept with
  | nil => exact before
  | cons part written ih =>
      exact ih (before.push (free part List.mem_cons_self))
        fun other member => free other (List.mem_cons_of_mem _ member)

/-- Where a path begins: at the root, or nowhere. -/
def start (path : Text) : List Text := if Text.startsWith ['/'] path then [[]] else []

theorem kept_start (path : Text) : Kept (start path) := by
  rw [start]
  split
  · exact .root
  · exact .nothing

theorem parts_eq (path : Text) :
    parts path = ((Text.split '/' path).foldl push (start path)).reverse := rfl

/-- The parts of a path are the stack that it leads to, from the bottom. -/
theorem kept_parts (path : Text) : Kept (parts path).reverse := by
  rw [parts_eq, List.reverse_reverse]
  exact (kept_start path).foldl_push fun _ => Text.not_mem_of_mem_split

theorem Kept.free {kept : List Text} (stack : Kept kept) : ∀ part ∈ kept, '/' ∉ part := by
  induction stack with
  | nothing => simp
  | root => simp
  | part before free pushed ih =>
      intro other member
      rcases List.mem_cons.mp member with rfl | later
      · exact free
      · exact ih other later

/-- Pushing what is on a stack again builds the stack again. -/
theorem Kept.replay {kept : List Text} (stack : Kept kept) :
    kept.reverse.foldl Path.push (if [] ∈ kept then [[]] else []) = kept := by
  induction stack with
  | nothing => rfl
  | root => rfl
  | @part kept part before free pushed ih =>
      have filled := filled_of_push pushed
      simp [List.foldl_append, Ne.symm filled, ih, pushed]

/-! ### Joining the parts -/

theorem start_append {text : Text} (some : text ≠ []) (behind : Text) :
    start (text ++ behind) = start text := by
  cases text with
  | nil => exact absurd rfl some
  | cons c text => simp [start, Text.startsWith, Text.after?]

theorem start_of_free {text : Text} (free : '/' ∉ text) : start text = [] := by
  cases text with
  | nil => rfl
  | cons c text =>
      simp only [List.mem_cons, not_or] at free
      simp [start, Text.startsWith, Text.after?, free.1]

theorem join_part {kept : List Text} (some : kept ≠ []) (part : Text) :
    Text.join '/' (part :: kept).reverse = Text.join '/' kept.reverse ++ '/' :: part := by
  rw [List.reverse_cons, Text.join_append (by simpa using some) (by simp)]
  rfl

theorem Kept.join_ne_nil {kept : List Text} (stack : Kept kept) (some : kept ≠ [])
    (notRoot : kept ≠ [[]]) : Text.join '/' kept.reverse ≠ [] := by
  cases stack with
  | nothing => exact absurd rfl some
  | root => exact absurd rfl notRoot
  | @part kept part before free pushed =>
      by_cases alone : kept = []
      · subst alone
        exact filled_of_push pushed
      · rw [join_part alone]
        simp

theorem Kept.start_join {kept : List Text} (stack : Kept kept) (notRoot : kept ≠ [[]]) :
    start (Text.join '/' kept.reverse) = if [] ∈ kept then [[]] else [] := by
  induction stack with
  | nothing => rfl
  | root => exact absurd rfl notRoot
  | @part kept part before free pushed ih =>
      have filled := filled_of_push pushed
      by_cases alone : kept = []
      · subst alone
        rw [if_neg (by simpa using Ne.symm filled)]
        exact start_of_free free
      · rw [join_part alone]
        by_cases atRoot : kept = [[]]
        · subst atRoot
          simp [start, Text.join, Text.startsWith, Text.after?]
        · rw [start_append (before.join_ne_nil alone atRoot), ih atRoot]
          simp [Ne.symm filled]

/-- The parts of a path, joined, have the same parts. Only the root does not come back. -/
theorem Kept.parts_join {kept : List Text} (stack : Kept kept) (notRoot : kept ≠ [[]]) :
    parts (Text.join '/' kept.reverse) = kept.reverse := by
  by_cases empty : kept = []
  · subst empty
    rfl
  · have free : ∀ part ∈ kept.reverse, '/' ∉ part := fun part member =>
      stack.free part (List.mem_reverse.mp member)
    rw [parts_eq, Text.split_join (by simpa using empty) free, stack.start_join notRoot,
      stack.replay]

/-! ### Paths of files -/

/-- A path that ends in a name, as the path of a file does. -/
def NamesFile (path : Text) : Prop := ∃ name ∈ (Text.split '/' path).getLast?, IsName name

instance (path : Text) : Decidable (NamesFile path) := Option.decidableExistsMem _

section Named

variable {path : Text}

/-- The parts before the name of a file, and the name at the end of the path. -/
theorem NamesFile.exists_name (named : NamesFile path) :
    ∃ folders name, parts path = folders ++ [name] ∧ IsName name ∧ '/' ∉ name
      ∧ name <:+ path := by
  obtain ⟨name, last, isName⟩ := named
  obtain ⟨before, cut⟩ := List.getLast?_eq_some_iff.mp last
  have free : '/' ∉ name := Text.not_mem_of_mem_split (by rw [cut]; simp)
  have counted : parts path = (before.foldl push (start path)).reverse ++ [name] := by
    rw [parts_eq, cut, List.foldl_append, List.foldl_cons, List.foldl_nil, push_name isName,
      List.reverse_cons]
  have ended : name <:+ path := by
    rw [← Text.join_split '/' path, cut]
    by_cases alone : before = []
    · subst alone
      exact List.suffix_rfl
    · rw [Text.join_append alone (by simp)]
      exact (List.suffix_cons '/' name).trans (List.suffix_append _ _)
  exact ⟨_, name, counted, isName, free, ended⟩

/-- Cleaning the path of a file leaves the parts that count. -/
theorem clean_of_namesFile (named : NamesFile path) : clean path = Text.join '/' (parts path) := by
  obtain ⟨folders, name, counted, isName, free, before, ended⟩ := named.exists_name
  have noSlash : Text.endsWith ['/'] path = false := by
    cases reversed : name.reverse with
    | nil => exact absurd (List.reverse_eq_nil_iff.mp reversed) isName.1
    | cons c rest =>
        have differs : '/' ≠ c := by
          rintro rfl
          exact free (List.mem_reverse.mp (by rw [reversed]; exact List.mem_cons_self))
        rw [Text.endsWith, ← ended, List.reverse_append, reversed]
        simp [Text.startsWith, Text.after?, differs]
  rw [clean.eq_def, noSlash, counted]
  cases folders with
  | nil =>
      have filled := isName.1
      simp [filled]
  | cons first more => simp

theorem NamesFile.parts_ne_nil (named : NamesFile path) : parts path ≠ [] := by
  obtain ⟨folders, name, counted, -⟩ := named.exists_name
  simp [counted]

theorem parts_clean (named : NamesFile path) : parts (clean path) = parts path := by
  obtain ⟨folders, name, counted, isName, -⟩ := named.exists_name
  have notRoot : (parts path).reverse ≠ [[]] := by
    rw [counted]
    simp [isName.1]
  have joined := (kept_parts path).parts_join notRoot
  rwa [List.reverse_reverse, ← clean_of_namesFile named] at joined

theorem split_clean (named : NamesFile path) : Text.split '/' (clean path) = parts path := by
  have free : ∀ part ∈ parts path, '/' ∉ part := fun part member =>
    (kept_parts path).free part (List.mem_reverse.mpr member)
  rw [clean_of_namesFile named, Text.split_join named.parts_ne_nil free]

theorem namesFile_clean (named : NamesFile path) : NamesFile (clean path) := by
  obtain ⟨folders, name, counted, isName, -⟩ := named.exists_name
  rw [NamesFile, split_clean named, counted]
  exact ⟨name, by simp, isName⟩

/-- Cleaning a path twice is cleaning it once. -/
theorem clean_clean (named : NamesFile path) : clean (clean path) = clean path := by
  rw [clean_of_namesFile (namesFile_clean named), parts_clean named, clean_of_namesFile named]

theorem NamesFile.ne_nil (named : NamesFile path) : path ≠ [] := by
  rintro rfl
  revert named
  decide

/-- A path that is written behind a folder ends in the same part. -/
theorem getLast?_behind (folder path : Text) :
    (Text.split '/' (folder ++ '/' :: path)).getLast? = (Text.split '/' path).getLast? := by
  rw [Text.split_append, List.getLast?_append,
    List.getLast?_eq_some_getLast (Text.split_ne_nil '/' path)]
  rfl

theorem NamesFile.behind (named : NamesFile path) (folder : Text) :
    NamesFile (folder ++ '/' :: path) := by
  rwa [NamesFile, getLast?_behind]

theorem join_of_namesFile (folder : Text) (named : NamesFile path) :
    join folder path = if folder = [] then clean path else clean (folder ++ '/' :: path) := by
  cases folder <;> simp [join, named.ne_nil]

/-- Behind a folder the path of a file is the path of a file. -/
theorem namesFile_join (folder : Text) (named : NamesFile path) : NamesFile (join folder path) := by
  rw [join_of_namesFile folder named]
  split
  · exact namesFile_clean named
  · exact namesFile_clean (named.behind folder)

theorem clean_join (folder : Text) (named : NamesFile path) :
    clean (join folder path) = join folder path := by
  rw [join_of_namesFile folder named]
  split
  · exact clean_clean named
  · exact clean_clean (named.behind folder)

/-! ### Endings of names -/

/-- An ending without a slash is one of the name that a path ends in. -/
theorem suffix_iff_name {name ending : Text}
    (last : (Text.split '/' path).getLast? = some name) (free : '/' ∉ ending) :
    ending <:+ path ↔ ending <:+ name := by
  obtain ⟨before, cut⟩ := List.getLast?_eq_some_iff.mp last
  constructor
  · rintro ⟨stem, rfl⟩
    obtain ⟨others, piece, -, ended⟩ := Text.split_append_ending stem free
    rw [ended] at last
    obtain rfl : piece ++ ending = name := by simpa using last
    exact List.suffix_append _ _
  · intro ended
    rw [← Text.join_split '/' path, cut]
    by_cases alone : before = []
    · subst alone
      exact ended
    · rw [Text.join_append alone (by simp)]
      exact (ended.trans (List.suffix_cons '/' name)).trans (List.suffix_append _ _)

theorem suffix_clean_iff {ending : Text} (named : NamesFile path) (free : '/' ∉ ending) :
    ending <:+ clean path ↔ ending <:+ path := by
  obtain ⟨name, last, isName⟩ := id named
  obtain ⟨before, cut⟩ := List.getLast?_eq_some_iff.mp last
  have same : (Text.split '/' (clean path)).getLast? = some name := by
    rw [split_clean named, parts_eq, cut, List.foldl_append, List.foldl_cons, List.foldl_nil,
      push_name isName, List.reverse_cons, List.getLast?_append]
    rfl
  rw [suffix_iff_name same free, suffix_iff_name last free]

/-- A path that is written behind a folder keeps its ending. -/
theorem suffix_join_iff {ending : Text} (folder : Text) (named : NamesFile path)
    (free : '/' ∉ ending) : ending <:+ join folder path ↔ ending <:+ path := by
  rw [join_of_namesFile folder named]
  split
  · exact suffix_clean_iff named free
  · obtain ⟨name, last, -⟩ := id named
    have same : (Text.split '/' (folder ++ '/' :: path)).getLast? = some name := by
      rw [getLast?_behind, last]
    rw [suffix_clean_iff (named.behind folder) free, suffix_iff_name same free,
      suffix_iff_name last free]

/-- A long ending makes a name of whatever it ends. -/
theorem isName_append (stem : Text) {ending : Text} (long : 2 < ending.length) :
    IsName (stem ++ ending) := by
  have longer : 2 < (stem ++ ending).length := by
    rw [List.length_append]
    omega
  refine ⟨?_, ?_, ?_⟩ <;> intro short <;> rw [short] at longer <;> simp at longer

theorem namesFile_append (stem : Text) {ending : Text} (free : '/' ∉ ending)
    (long : 2 < ending.length) : NamesFile (stem ++ ending) := by
  obtain ⟨before, last, -, ended⟩ := Text.split_append_ending stem free
  exact ⟨last ++ ending, by rw [ended]; simp, isName_append last long⟩

end Named

/-! ### Paths below a folder -/

section Below

variable {folder path : Text} {names : List Text}

/-- Names of files and folders, one in another, that are written with a slash between them. -/
structure AreNames (names : List Text) : Prop where
  some : names ≠ []
  each : ∀ name ∈ names, IsName name
  free : ∀ name ∈ names, '/' ∉ name

instance (names : List Text) : Decidable (AreNames names) :=
  decidable_of_iff (names ≠ [] ∧ (∀ name ∈ names, IsName name) ∧ ∀ name ∈ names, '/' ∉ name)
    ⟨fun all => ⟨all.1, all.2.1, all.2.2⟩, fun are => ⟨are.some, are.each, are.free⟩⟩

theorem AreNames.split (are : AreNames names) : Text.split '/' (Text.join '/' names) = names :=
  Text.split_join are.some are.free

theorem AreNames.namesFile (are : AreNames names) : NamesFile (Text.join '/' names) := by
  have last := List.getLast?_eq_some_getLast are.some
  refine ⟨names.getLast are.some, ?_, are.each _ (List.getLast_mem are.some)⟩
  rw [are.split, last]
  rfl

theorem AreNames.start_join (are : AreNames names) : start (Text.join '/' names) = [] := by
  cases names with
  | nil => exact absurd rfl are.some
  | cons first more =>
      have free : '/' ∉ first := are.free first List.mem_cons_self
      cases more with
      | nil => exact start_of_free free
      | cons next more =>
          rw [Text.join, start_append (are.each first List.mem_cons_self).1, start_of_free free]
          simp

theorem AreNames.foldl_push (are : AreNames names) (kept : List Text) :
    names.foldl push kept = names.reverse ++ kept := by
  have all := are.each
  clear are
  induction names generalizing kept with
  | nil => rfl
  | cons name names ih =>
      rw [List.foldl_cons, push_name (all name List.mem_cons_self),
        ih _ fun other member => all other (List.mem_cons_of_mem _ member)]
      simp

theorem AreNames.parts (are : AreNames names) : parts (Text.join '/' names) = names := by
  rw [parts_eq, are.split, are.start_join, are.foldl_push]
  simp

/-- Names that are written behind a folder stand behind its parts. -/
theorem parts_join_names (folder : Text) (are : AreNames names) :
    Path.parts (join folder (Text.join '/' names)) = Path.parts folder ++ names := by
  rw [join_of_namesFile folder are.namesFile]
  split
  · rename_i empty
    subst empty
    rw [parts_clean are.namesFile, are.parts]
    rfl
  · rename_i some
    rw [parts_clean (are.namesFile.behind folder), parts_eq, Text.split_append,
      start_append some, List.foldl_append, are.split, are.foldl_push, List.reverse_append,
      List.reverse_reverse, ← parts_eq]

/-- A path that is made of names is the path of a file. -/
theorem namesFile_of_split (are : AreNames (Text.split '/' path)) : NamesFile path := by
  rw [← Text.join_split '/' path]
  exact are.namesFile

theorem parts_join_of_split (folder : Text) (are : AreNames (Text.split '/' path)) :
    Path.parts (join folder path) = Path.parts folder ++ Text.split '/' path := by
  rw [← parts_join_names folder are, Text.join_split]

/-- The file of that path. -/
theorem join_names (folder : Text) (are : AreNames names) :
    join folder (Text.join '/' names) = Text.join '/' (Path.parts folder ++ names) := by
  rw [← parts_join_names folder are, ← clean_of_namesFile (namesFile_join folder are.namesFile),
    clean_join folder are.namesFile]

/-- Only the root stands on nothing without having been pushed. -/
theorem Kept.of_some {kept : List Text} {part : Text} (stack : Kept (part :: kept))
    (some : kept ≠ []) : Kept kept ∧ Path.push kept part = part :: kept := by
  cases stack with
  | root => exact absurd rfl some
  | part before free pushed => exact ⟨before, pushed⟩

/-- What was pushed was no single dot, and two dots only behind nothing or behind two dots. -/
theorem isName_of_push {kept : List Text} {part : Text} (pushed : push kept part = part :: kept)
    (inside : part = ['.', '.'] → ∃ below name, kept = name :: below ∧ IsName name) :
    IsName part := by
  refine ⟨filled_of_push pushed, ?_, ?_⟩
  · rintro rfl
    simp [push.eq_def] at pushed
  · intro up
    obtain ⟨below, name, rfl, isName⟩ := inside up
    subst up
    have popped : push (name :: below) ['.', '.'] = below := by
      simp [push.eq_def, isName.1, isName.2.2]
    have long := congrArg List.length (popped.symm.trans pushed)
    simp only [List.length_cons] at long
    omega

/-- What was pushed behind a name was pushed as a name. -/
theorem Kept.isName {first : Text} {above base : List Text}
    (stack : Kept (above ++ first :: base)) (filled : first ≠ []) (inside : first ≠ ['.', '.']) :
    ∀ part ∈ above ++ [first], IsName part := by
  induction above with
  | nil =>
      intro part member
      rw [List.nil_append, List.mem_singleton] at member
      subst member
      cases stack with
      | root => exact absurd rfl filled
      | part before free pushed => exact isName_of_push pushed fun up => absurd up inside
  | cons last above ih =>
      obtain ⟨before, pushed⟩ := stack.of_some (by simp)
      have named := ih before
      intro part member
      rcases List.mem_cons.mp member with rfl | later
      · refine isName_of_push pushed fun _ => ?_
        cases above with
        | nil => exact ⟨base, first, rfl, named first (by simp)⟩
        | cons next above => exact ⟨above ++ first :: base, next, rfl, named next (by simp)⟩
      · exact named part later

/-- A path is below a folder if its parts are those of the folder and names behind them. -/
theorem below?_eq_some_iff :
    below? folder path = some names ↔
      AreNames names ∧ Path.parts path = Path.parts folder ++ names := by
  constructor
  · intro below
    rw [below?] at below
    split at below
    · rename_i first more cut
      split at below
      · cases below
      · rename_i proper
        rw [not_or] at proper
        obtain rfl := Option.some.inj below
        have whole := (List.isPrefixOf?_eq_some_iff_append_eq.mp cut).symm
        have stack := kept_parts path
        rw [whole, List.reverse_append, List.reverse_cons, List.append_assoc,
          List.singleton_append] at stack
        have named := stack.isName proper.1 proper.2
        refine ⟨⟨by simp, fun name member => ?_, fun name member => ?_⟩, whole⟩
        · exact named name (by simpa [or_comm] using member)
        · refine stack.free name (List.mem_append.mpr ?_)
          rcases List.mem_cons.mp member with rfl | later
          · exact .inr List.mem_cons_self
          · exact .inl (List.mem_reverse.mpr later)
    · cases below
  · rintro ⟨are, whole⟩
    have cut : (Path.parts folder).isPrefixOf? (Path.parts path) = some names :=
      List.isPrefixOf?_eq_some_iff_append_eq.mpr whole.symm
    rw [below?, cut]
    cases names with
    | nil => exact absurd rfl are.some
    | cons first more =>
        have name := are.each first List.mem_cons_self
        simp [name.1, name.2.2]

end Below

end MarkPress.Path
