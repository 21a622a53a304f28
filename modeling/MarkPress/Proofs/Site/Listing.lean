/-
Module: MarkPress.Proofs.Site.Listing
Purpose: Which files a build takes, and in which order.
  A folder is walked entry by entry: the entries are put in the order of their names, hidden ones
  are left out, and a folder is walked in its place. What the walk finds is the listing, however the
  entries of each folder are given, and the build takes the files in this order. The order is that
  of the names along a path, not that of the path as one text.
Main exports:
  Entry, Entry.Leads, Entry.Proper, Site.walk, Site.mem_walk_iff, Site.walk_pairwise,
  Files.HaveTree, Files.walk_eq_list, Site.build_lists
-/
import MarkPress.Proofs.Site.Build

namespace MarkPress

/-! ### Directory trees -/

/-- What a folder has under a name: a file, a folder, or something that is neither. -/
inductive Entry where
  | file (name : Text)
  | folder (name : Text) (entries : List Entry)
  | other (name : Text)

/-- A name that can stand between slashes. -/
def Path.IsPart (name : Text) : Prop := IsName name ∧ '/' ∉ name

instance (name : Text) : Decidable (Path.IsPart name) := inferInstanceAs (Decidable (_ ∧ _))

namespace Entry

def name : Entry → Text
  | .file name => name
  | .folder name _ => name
  | .other name => name

/-- The names on the way from an entry to a file. -/
inductive Leads : Entry → List Text → Prop where
  | file (name : Text) : Leads (.file name) [name]
  | folder (name : Text) {inner : List Entry} {entry : Entry} {names : List Text}
      (member : entry ∈ inner) (inside : Leads entry names) :
      Leads (.folder name inner) (name :: names)

/-- The path of a file to which names lead from an entry, none of them hidden, with names of folders
in front of it. -/
def Shows (entry : Entry) (front : List Text) (source : Text) : Prop :=
  ∃ names, entry.Leads names ∧ (∀ name ∈ names, Files.isHidden name = false)
    ∧ source = Text.join '/' (front ++ names)

/-- Entries of a folder, each under a name of its own, and so in every folder among them. -/
inductive Proper : List Entry → Prop where
  | made {entries : List Entry} (named : ∀ entry ∈ entries, Path.IsPart entry.name)
      (distinct : (entries.map name).Nodup)
      (inside : ∀ name inner, .folder name inner ∈ entries → Proper inner) : Proper entries

/-- Entries in the order of their names. -/
def sorted (entries : List Entry) : List Entry :=
  entries.mergeSort fun left right => Text.compare left.name right.name != .gt

variable {entries inner : List Entry} {entry : Entry} {name : Text} {names : List Text}

theorem leads_file_iff : (file name).Leads names ↔ names = [name] := by
  constructor
  · rintro ⟨⟩
    rfl
  · rintro rfl
    exact .file name

theorem leads_folder_iff :
    (folder name inner).Leads names ↔
      ∃ entry ∈ inner, ∃ rest, entry.Leads rest ∧ names = name :: rest := by
  constructor
  · rintro (_ | ⟨_, member, inside⟩)
    exact ⟨_, member, _, inside, rfl⟩
  · rintro ⟨entry, member, rest, inside, rfl⟩
    exact .folder name member inside

theorem not_leads_other : ¬ (other name).Leads names := nofun

/-- The first name is that of the entry. -/
theorem Leads.begins (leads : entry.Leads names) : ∃ below, names = entry.name :: below := by
  cases leads with
  | file name => exact ⟨[], rfl⟩
  | folder name member inside => exact ⟨_, rfl⟩

theorem Leads.isPart (leads : entry.Leads names) (proper : Proper entries)
    (member : entry ∈ entries) : ∀ name ∈ names, Path.IsPart name := by
  induction leads generalizing entries with
  | file name =>
      obtain ⟨named, -, -⟩ := proper
      intro part inNames
      obtain rfl := List.mem_singleton.mp inNames
      exact named _ member
  | folder name below _ ih =>
      obtain ⟨named, -, inside⟩ := proper
      intro part inNames
      rcases List.mem_cons.mp inNames with rfl | later
      · exact named _ member
      · exact ih (inside _ _ member) below part later

/-- Entries whose names differ are sorted by the units of these. -/
theorem sorted_pairwise (distinct : (entries.map Entry.name).Nodup) :
    (sorted entries).Pairwise fun first later =>
      Text.codeUnits first.name < Text.codeUnits later.name := by
  have le_iff (left right : Entry) : (Text.compare left.name right.name != .gt) = true ↔
      left.name.codeUnits ≤ right.name.codeUnits := by
    rw [bne_iff_ne]
    exact (Text.compare_compares _ _).ne_gt
  have weak : (sorted entries).Pairwise fun first later =>
      (Text.compare first.name later.name != .gt) = true := by
    apply List.pairwise_mergeSort
    · intro first middle later before behind
      rw [le_iff] at before behind ⊢
      exact before.trans behind
    · intro first later
      rw [Bool.or_eq_true, le_iff, le_iff]
      exact le_total _ _
  have apart : (sorted entries).Pairwise fun first later => first.name ≠ later.name :=
    List.pairwise_map.mp (((List.mergeSort_perm _ _).map Entry.name).nodup_iff.mpr distinct)
  refine weak.imp₂ (fun first later before differ => ?_) apart
  exact ((le_iff first later).mp before).lt_of_ne (Text.codeUnits_injective.ne differ)

end Entry

namespace Site

/-! ### Walking a tree -/

/-- The path of an entry of a folder, as seen from where the walk began. -/
def pathIn (folder name : Text) : Text := if folder = [] then name else Path.join folder name

/-- The paths of the files that are found from a folder on. Its entries are put in the order of
their names, hidden ones are left out, and a folder is walked in its place. -/
def walk (folder : Text) (entries : List Entry) : List Text :=
  (Entry.sorted entries).attach.flatMap fun ⟨entry, member⟩ =>
    if Files.isHidden entry.name then []
    else
      match entry, member with
      | .file name, _ => [pathIn folder name]
      | .folder name inner, _ => walk (pathIn folder name) inner
      | .other _, _ => []
termination_by sizeOf entries
decreasing_by
  rename_i member
  have smaller := List.sizeOf_lt_of_mem (List.mem_mergeSort.mp member)
  simp only [Entry.folder.sizeOf_spec] at smaller
  omega

/-- What a walk finds at one entry. -/
def foundAt (folder : Text) (entry : Entry) : List Text :=
  if Files.isHidden entry.name then []
  else
    match entry with
    | .file name => [pathIn folder name]
    | .folder name inner => walk (pathIn folder name) inner
    | .other _ => []

theorem foundAt_of_hidden {folder : Text} {entry : Entry}
    (hidden : Files.isHidden entry.name = true) : foundAt folder entry = [] := by
  rw [foundAt.eq_def, if_pos hidden]

theorem foundAt_of_shown {folder : Text} {entry : Entry} :
    Files.isHidden entry.name = false → foundAt folder entry =
      match entry with
      | .file name => [pathIn folder name]
      | .folder name inner => walk (pathIn folder name) inner
      | .other _ => [] := by
  intro shown
  rw [foundAt.eq_def, shown]
  rfl

theorem walk_eq (folder : Text) (entries : List Entry) :
    walk folder entries = (Entry.sorted entries).flatMap (foundAt folder) := by
  rw [walk]
  conv => rhs; rw [← List.attach_map_subtype_val (Entry.sorted entries), List.flatMap_map]
  congr 1
  funext ⟨entry, member⟩
  cases entry <;> rfl

variable {entries : List Entry} {entry : Entry} {front names : List Text} {name source : Text}

theorem areNames_of_isPart (some : names ≠ []) (are : ∀ name ∈ names, Path.IsPart name) :
    Path.AreNames names :=
  ⟨some, fun name member => (are name member).1, fun name member => (are name member).2⟩

theorem isPart_concat (are : ∀ other ∈ front, Path.IsPart other) (isPart : Path.IsPart name) :
    ∀ other ∈ front ++ [name], Path.IsPart other :=
  List.forall_mem_append.mpr ⟨are, List.forall_mem_singleton.mpr isPart⟩

/-- A walk writes the names on its way with slashes between them. -/
theorem pathIn_join (are : ∀ other ∈ front, Path.IsPart other) (isPart : Path.IsPart name) :
    pathIn (Text.join '/' front) name = Text.join '/' (front ++ [name]) := by
  have one : Path.AreNames [name] :=
    areNames_of_isPart (List.cons_ne_nil _ _) (List.forall_mem_singleton.mpr isPart)
  cases front with
  | nil => rfl
  | cons first more =>
      have folders : Path.AreNames (first :: more) := areNames_of_isPart (List.cons_ne_nil _ _) are
      have parts := folders.parts
      have some : Text.join '/' (first :: more) ≠ [] := by
        intro empty
        rw [empty] at parts
        cases parts
      rw [pathIn, if_neg some, ← parts]
      have joined := Path.join_names (Text.join '/' (first :: more)) one
      rwa [parts] at joined ⊢

/-- What a walk finds at an entry, if it finds in the folders below what it should. -/
theorem mem_foundAt_iff (are : ∀ other ∈ front, Path.IsPart other)
    (isPart : Path.IsPart entry.name)
    (below : ∀ name inner, entry = .folder name inner → ∀ source,
      source ∈ walk (Text.join '/' (front ++ [name])) inner ↔
        ∃ entry ∈ inner, entry.Shows (front ++ [name]) source) :
    source ∈ foundAt (Text.join '/' front) entry ↔ entry.Shows front source := by
  cases hidden : Files.isHidden entry.name with
  | true =>
      rw [foundAt_of_hidden hidden, iff_false_left List.not_mem_nil]
      rintro ⟨names, leads, visible, -⟩
      obtain ⟨below, rfl⟩ := leads.begins
      exact absurd hidden (by simp [visible entry.name List.mem_cons_self])
  | false =>
      rw [foundAt_of_shown hidden]
      cases entry with
      | other name =>
          refine iff_of_false List.not_mem_nil ?_
          rintro ⟨names, leads, -⟩
          exact Entry.not_leads_other leads
      | file name =>
          have isPart : Path.IsPart name := isPart
          dsimp only
          rw [pathIn_join are isPart, List.mem_singleton]
          constructor
          · rintro rfl
            exact ⟨[name], .file name, List.forall_mem_singleton.mpr hidden, rfl⟩
          · rintro ⟨names, leads, -, rfl⟩
            rw [Entry.leads_file_iff.mp leads]
      | folder name inner =>
          have isPart : Path.IsPart name := isPart
          dsimp only
          rw [pathIn_join are isPart, below name inner rfl]
          constructor
          · rintro ⟨entry, member, names, leads, visible, rfl⟩
            refine ⟨name :: names, .folder name member leads, ?_, by simp⟩
            exact List.forall_mem_cons.mpr ⟨hidden, visible⟩
          · rintro ⟨names, leads, visible, rfl⟩
            obtain ⟨entry, member, rest, inside, rfl⟩ := Entry.leads_folder_iff.mp leads
            exact ⟨entry, member, rest, inside, (List.forall_mem_cons.mp visible).2, by simp⟩

/-- A walk finds the files to which names lead, none of them hidden. -/
theorem mem_walk_iff (proper : Entry.Proper entries)
    (are : ∀ other ∈ front, Path.IsPart other) :
    source ∈ walk (Text.join '/' front) entries ↔ ∃ entry ∈ entries, entry.Shows front source := by
  induction proper generalizing front source with
  | @made entries named distinct inside ih =>
      simp only [walk_eq, List.mem_flatMap, Entry.sorted, List.mem_mergeSort]
      refine exists_congr fun entry => and_congr_right fun member => ?_
      refine mem_foundAt_iff are (named entry member) ?_
      rintro name inner rfl source
      exact ih name inner member (isPart_concat are (named _ member))

/-- What a walk finds at an entry has the name of the entry on its path. -/
theorem split_of_mem_foundAt (proper : Entry.Proper entries) (member : entry ∈ entries)
    (are : ∀ other ∈ front, Path.IsPart other)
    (found : source ∈ foundAt (Text.join '/' front) entry) :
    ∃ names, Text.split '/' source = front ++ entry.name :: names := by
  obtain ⟨named, -, inside⟩ := id proper
  have isPart := named entry member
  have below (name : Text) (inner : List Entry) (isFolder : entry = .folder name inner)
      (source : Text) :
      source ∈ walk (Text.join '/' (front ++ [name])) inner ↔
        ∃ entry ∈ inner, entry.Shows (front ++ [name]) source := by
    subst isFolder
    exact mem_walk_iff (inside name inner member) (isPart_concat are isPart)
  obtain ⟨names, leads, -, rfl⟩ := (mem_foundAt_iff are isPart below).mp found
  have parts := leads.isPart proper member
  obtain ⟨rest, rfl⟩ := leads.begins
  exact ⟨rest, (areNames_of_isPart (by simp) (List.forall_mem_append.mpr ⟨are, parts⟩)).split⟩

/-- Paths that a walk finds are in the order of the names along them. -/
theorem walk_pairwise (proper : Entry.Proper entries)
    (are : ∀ other ∈ front, Path.IsPart other) :
    (walk (Text.join '/' front) entries).Pairwise fun first later =>
      (Text.split '/' first).map Text.codeUnits < (Text.split '/' later).map Text.codeUnits := by
  induction proper generalizing front with
  | @made entries named distinct inside ih =>
      rw [walk_eq, List.pairwise_flatMap]
      constructor
      · intro entry inSorted
        have member : entry ∈ entries := List.mem_mergeSort.mp inSorted
        cases hidden : Files.isHidden entry.name with
        | true =>
            rw [foundAt_of_hidden hidden]
            exact .nil
        | false =>
            rw [foundAt_of_shown hidden]
            cases entry with
            | other name => exact .nil
            | file name => exact List.pairwise_singleton _ _
            | folder name inner =>
                have isPart : Path.IsPart name := named _ member
                dsimp only
                rw [pathIn_join are isPart]
                exact ih name inner member (isPart_concat are isPart)
      · refine (Entry.sorted_pairwise distinct).imp_of_mem ?_
        intro first later inF inL before source found other foundL
        have proper : Entry.Proper entries := .made named distinct inside
        obtain ⟨names, cutF⟩ := split_of_mem_foundAt proper (List.mem_mergeSort.mp inF) are found
        obtain ⟨others, cutL⟩ := split_of_mem_foundAt proper (List.mem_mergeSort.mp inL) are foundL
        rw [cutF, cutL, List.map_append, List.map_append]
        exact List.append_left_lt (List.Lex.rel before)

end Site

/-! ### The listing -/

namespace Files

variable {files : Files} {folder : Text} {sources : List Text} {entries : List Entry} {name : Text}

/-- A directory tree with the files that are below a folder. -/
structure HaveTree (files : Files) (folder : Text) (entries : List Entry) : Prop where
  proper : Entry.Proper entries
  same : ∀ names, (∃ entry ∈ entries, entry.Leads names) ↔
    Path.AreNames names ∧ (files.get? (Path.join folder (Text.join '/' names))).isSome = true

theorem isHidden_eq_false_iff : isHidden name = false ↔ name.head? ≠ some '.' := by
  rw [← Bool.not_eq_true, isHidden, Text.startsWith_iff]
  cases name <;> simp [List.cons_prefix_cons, eq_comm]

/-- No two paths of a listing stand at one place in its order. -/
theorem list_pairwise_lt (filed : files.Filed) (listed : files.list folder = .ok sources) :
    sources.Pairwise fun first later =>
      (Text.split '/' first).map Text.codeUnits < (Text.split '/' later).map Text.codeUnits := by
  refine (list_pairwise filed listed).imp₂ (fun first later before differ => ?_)
    (nodup_list filed listed)
  refine (not_lt.mp before).lt_of_ne fun same => differ ?_
  have parts := List.map_injective_iff.mpr Text.codeUnits_injective same
  rw [← Text.join_split '/' first, parts, Text.join_split]

/-- The walk over a tree with the files below a folder is the listing of the folder. -/
theorem walk_eq_list (filed : files.Filed) (listed : files.list folder = .ok sources)
    (tree : files.HaveTree folder entries) : Site.walk [] entries = sources := by
  have sortedW := @Site.walk_pairwise entries [] tree.proper nofun
  have sortedL := list_pairwise_lt filed listed
  have members (source : Text) : source ∈ Site.walk [] entries ↔ source ∈ sources := by
    have walked := @Site.mem_walk_iff entries [] source tree.proper nofun
    refine walked.trans (Iff.trans ?_ (mem_list_iff filed listed).symm)
    constructor
    · rintro ⟨entry, member, names, leads, visible, rfl⟩
      obtain ⟨are, there⟩ := (tree.same names).mp ⟨entry, member, leads⟩
      rw [List.nil_append, are.split]
      exact ⟨are, visible, there⟩
    · rintro ⟨are, visible, there⟩
      rw [← Text.join_split '/' source] at there
      obtain ⟨entry, member, leads⟩ := (tree.same _).mpr ⟨are, there⟩
      exact ⟨entry, member, _, leads, visible, (Text.join_split '/' source).symm⟩
  refine List.Perm.eq_of_pairwise (fun first later _ _ before behind => ?_) sortedW sortedL
    ((List.perm_ext_iff_of_nodup ?_ (nodup_list filed listed)).mpr members)
  · exact absurd behind (lt_asymm before)
  · refine sortedW.imp fun before same => ?_
    exact absurd before (same ▸ lt_irrefl _)

end Files

/-! ### A build in the order of its listing -/

namespace Site

variable {config : SiteConfig} {site : Site} {sources : List Text}

theorem log_of_list (listed : site.files.list site.config.sourceFolder = .ok sources) :
    site.build.log = startMessage sources.length site.config.sourceFolder
      :: (builds sources site.cleared).filterMap Built.message?
        ++ [endMessage (reportOf (builds sources site.cleared))] := by
  rw [build, listed]
  dsimp only
  rw [buildFiles, log_foldl, report_foldl]
  rfl

/-- A build takes every file below its source folder whose path has no name that begins with a dot,
and takes it once, in the dictionary order of the names along the paths, name by name. A walk over
the folder finds the same files in the same order, however the entries of each folder come. The log,
the report and the files say what became of them one after the other. -/
theorem build_lists (reached : Reached config site)
    (present : Path.parts config.sourceFolder ∈ site.files.folders) :
    ∃ sources, site.files.list config.sourceFolder = .ok sources
      ∧ (∀ source, source ∈ sources ↔
        Path.AreNames (Text.split '/' source)
          ∧ (∀ name ∈ Text.split '/' source, name.head? ≠ some '.')
          ∧ (site.files.get? (Path.join config.sourceFolder source)).isSome = true)
      ∧ sources.Nodup
      ∧ (sources.Pairwise fun first later =>
        (Text.split '/' first).map Text.codeUnits < (Text.split '/' later).map Text.codeUnits)
      ∧ (∀ entries, site.files.HaveTree config.sourceFolder entries → walk [] entries = sources)
      ∧ ∃ builts report, builts.map Built.source = sources ∧ (∀ built ∈ builts, built.Fits)
        ∧ builts = builds sources site.cleared ∧ site.build.site = afterAll sources site.cleared
        ∧ site.build.report = .ok report ∧ Accounted sources report
        ∧ report.pages = Page.sort (builts.filterMap Built.page?)
        ∧ report.copied = builts.filterMap Built.copied?
        ∧ report.failures = builts.filterMap Built.failure?
        ∧ site.build.log = startMessage sources.length config.sourceFolder
          :: builts.filterMap Built.message? ++ [endMessage report] := by
  have settled := reached.settled
  obtain ⟨sources, listed, done, report⟩ := build_eq_ok settled present
  have fits := fits_of_mem_builds settled listed
  have once := Files.nodup_list settled.filed listed
  have mapped : (builds sources site.cleared).map Built.source = sources := map_source_builds _ _
  have accounted := accounted_of_fits fits (mapped.symm ▸ once)
  rw [mapped] at accounted
  have found := listed
  rw [← settled.config_eq] at found
  have log := log_of_list found
  rw [settled.config_eq] at log
  refine ⟨sources, listed, fun source => ?_, once, Files.list_pairwise_lt settled.filed listed,
    fun entries tree => Files.walk_eq_list settled.filed listed tree, _, _, mapped, fits, rfl, done,
    report, accounted, rfl, rfl, rfl, log⟩
  simp only [Files.mem_list_iff settled.filed listed, Files.isHidden_eq_false_iff]

/-- A site of a folder next to files whose names go on behind that of the folder. -/
def shelf : Site :=
  ofFiles ⟨"content".toList, "public".toList, "templates".toList, "page".toList, []⟩
    (Files.writeAll
      [("content/a.txt".toList, "1".toList), ("content/a/x.txt".toList, "2".toList),
        ("content/a-b.txt".toList, "3".toList), ("content/.draft/b.txt".toList, "4".toList)] {})

/-- The entries of its source folder. -/
def shelfTree : List Entry :=
  [.file "a.txt".toList, .folder ".draft".toList [.file "b.txt".toList], .file "a-b.txt".toList,
    .folder "a".toList [.file "x.txt".toList]]

theorem below_shelf : shelf.files.below "content".toList =
    [[".draft".toList, "b.txt".toList], ["a-b.txt".toList], ["a.txt".toList],
      ["a".toList, "x.txt".toList]] := by
  decide

theorem list_shelf : shelf.files.list "content".toList
    = .ok ["a/x.txt".toList, "a-b.txt".toList, "a.txt".toList] := by
  rw [Files.list_eq (by decide), Files.shown, below_shelf]
  simp [List.mergeSort, List.MergeSort.Internal.splitInTwo, Files.isHidden, Text.startsWith,
    Text.after?, Path.precedes, Text.precedes, Text.rank, Text.join]

theorem haveTree_shelf (filed : shelf.files.Filed) :
    shelf.files.HaveTree "content".toList shelfTree where
  proper := by
    have leaf (name : Text) (isPart : Path.IsPart name) : Entry.Proper [.file name] :=
      .made (List.forall_mem_singleton.mpr isPart) (List.nodup_singleton _) (by simp)
    refine .made (by decide) (by decide) fun name inner member => ?_
    simp only [shelfTree, List.mem_cons, List.not_mem_nil, or_false, reduceCtorEq, false_or,
      Entry.folder.injEq] at member
    rcases member with ⟨-, rfl⟩ | ⟨-, rfl⟩ <;> exact leaf _ (by decide)
  same names := by
    rw [← Files.mem_below_iff filed, below_shelf]
    simp only [shelfTree, List.mem_cons, List.not_mem_nil, or_false, exists_eq_or_imp,
      exists_eq_left, Entry.leads_file_iff, Entry.leads_folder_iff]
    tauto

/-- A folder stands where its name does, before files whose paths as a whole would come first. -/
theorem build_lists_shelf :
    Reached shelf.config shelf ∧ shelf.files.HaveTree "content".toList shelfTree
      ∧ walk [] shelfTree = ["a/x.txt".toList, "a-b.txt".toList, "a.txt".toList]
      ∧ ∃ report, shelf.build.report = .ok report
        ∧ Accounted ["a/x.txt".toList, "a-b.txt".toList, "a.txt".toList] report := by
  have reached : Reached shelf.config shelf := reached_writeAll .start (by decide)
  have tree := haveTree_shelf reached.settled.filed
  obtain ⟨sources, listed, -, -, -, walks, _, report, -, -, -, -, built, accounted, -⟩ :=
    build_lists reached (by decide)
  obtain rfl := Except.ok.inj (listed.symm.trans list_shelf)
  exact ⟨reached, tree, walks _ tree, report, built, accounted⟩

end Site

end MarkPress
