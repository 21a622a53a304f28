/-
Module: MarkPress.Proofs.Site.History
Purpose: The sites that a history leads to, and a site while it is built.
  Files are written and removed, single documents are compiled, and the site is built, any number of
  times. While a site is built, no document and no file is lost, and a template is loaded as it was
  when the build began, unless a file is built into the place of a template.
Main exports:
  Site.Reached, Site.Reached.settled, Site.cleared, Site.build_of_list, Site.Tracks,
  Site.Tracks.next, Site.templatePath, Site.LoadsAs, Site.LoadsAs.next, Site.built_congr
-/
import MarkPress.Proofs.Site.Fate

namespace MarkPress.Site

variable {config : SiteConfig} {site start now other : Site} {source text : Text}
variable {sources : List Text} {files : Files}

/-! ### A build as a run over the sources -/

/-- The site at the beginning of a build. -/
def cleared (site : Site) : Site := { site with templates := site.templates.clear }

/-- A build reports what became of the listed files, and sorts the pages. -/
theorem build_of_list (listed : site.files.list site.config.sourceFolder = .ok sources) :
    site.build.site = afterAll sources site.cleared
      ∧ site.build.report = .ok
        { pages := Page.sort ((builds sources site.cleared).filterMap Built.page?)
          copied := (builds sources site.cleared).filterMap Built.copied?
          failures := (builds sources site.cleared).filterMap Built.failure? } := by
  rw [build, listed]
  dsimp only
  rw [buildFiles, site_foldl, report_foldl]
  exact ⟨rfl, rfl⟩

/-- Without the source folder nothing is built. -/
theorem build_of_error {error : FileError}
    (failed : site.files.list site.config.sourceFolder = .error error) :
    site.build.site = site.cleared ∧ site.build.report = .error error := by
  rw [build, failed]
  exact ⟨rfl, rfl⟩

/-! ### Where files are built -/

theorem path_of_write? {built : Built} {written : Text × Text}
    (writes : built.write? config = some written) :
    written.1 = Path.join config.outputFolder (targetOf built.source) := by
  rw [Built.write?] at writes
  split at writes
  · rw [← Option.some.inj writes]
  · rw [← Option.some.inj writes]
  · cases writes

theorem namesFile_targetOf (named : Path.NamesFile source) : Path.NamesFile (targetOf source) := by
  rw [targetOf]
  split
  · exact namesFile_outputOf source
  · exact named

/-- No file is built into the place of a document. -/
theorem clean_target_ne_document {document : Text} (named : Path.NamesFile source)
    (ends : Text.endsWith documentEnding document = true) (output folder : Text) :
    Path.clean (Path.join output (targetOf source)) ≠ Path.clean (Path.join folder document) := by
  have free : '/' ∉ documentEnding := by decide
  have target := namesFile_targetOf named
  have namedD := namesFile_document ends
  intro same
  apply not_document_targetOf source
  rw [← Path.suffix_join_iff output target free,
    ← Path.suffix_clean_iff (Path.namesFile_join output target) free, same,
    Path.suffix_clean_iff (Path.namesFile_join folder namedD) free,
    Path.suffix_join_iff folder namedD free]
  exact Text.endsWith_iff.mp ends

/-- Building files leaves every other path as it was. -/
theorem get?_afterAll_of_ne {path : Text}
    (elsewhere : ∀ source ∈ sources,
      Path.clean (Path.join site.config.outputFolder (targetOf source)) ≠ Path.clean path) :
    (afterAll sources site).files.get? path = site.files.get? path := by
  rw [files_afterAll]
  refine Files.get?_writeAll_of_absent fun written member => ?_
  obtain ⟨built, inBuilds, writes⟩ := List.mem_filterMap.mp member
  rw [path_of_write? writes]
  exact elsewhere built.source (mem_sources inBuilds)

theorem get?_next_of_ne {path : Text}
    (elsewhere : Path.clean (Path.join site.config.outputFolder (targetOf source))
      ≠ Path.clean path) :
    (site.next source).files.get? path = site.files.get? path := by
  have one : ∀ other ∈ [source],
      Path.clean (Path.join site.config.outputFolder (targetOf other)) ≠ Path.clean path := by
    intro other member
    obtain rfl := List.mem_singleton.mp member
    exact elsewhere
  exact get?_afterAll_of_ne one

theorem filed_next (filed : site.files.Filed) (named : Path.NamesFile source) :
    (site.next source).files.Filed := by
  rw [files_next]
  refine filed.writeAll fun written member => ?_
  have path := path_of_write? (Option.mem_toList.mp member)
  rw [path]
  exact Path.namesFile_join _ (namesFile_targetOf named)

/-! ### Histories -/

/-- The sites that a history leads to, from one without files on. -/
inductive Reached (config : SiteConfig) : Site → Prop where
  | start : Reached config (ofFiles config {})
  | write {site : Site} {path : Text} (before : Reached config site)
      (named : Path.NamesFile path) (text : Text) :
      Reached config { site with files := site.files.write path text }
  | remove {site : Site} (before : Reached config site) (path : Text) :
      Reached config { site with files := site.files.remove path }
  | compileFile {site after : Site} {source : Text} {page : Page} (before : Reached config site)
      (compiled : site.compileFile source = .ok (page, after)) : Reached config after
  | build {site : Site} (before : Reached config site) : Reached config site.build.site

/-- What holds of a site after every history. -/
structure Settled (config : SiteConfig) (site : Site) : Prop where
  config_eq : site.config = config
  filed : site.files.Filed
  folder_eq : site.templates.folder = config.templateFolder

theorem Settled.cleared (settled : Settled config site) : Settled config site.cleared :=
  ⟨settled.config_eq, settled.filed, settled.folder_eq⟩

theorem folder_next (site : Site) (source : Text) :
    (site.next source).templates.folder = site.templates.folder := by
  rcases (config_next site source).2 with same | ⟨name, text, loaded⟩
  · rw [same]
  · rcases TemplateCache.load_eq_ok_iff.mp loaded with ⟨-, same⟩ | ⟨-, -, -, same⟩ <;> rw [same]

theorem Settled.next (settled : Settled config site) (named : Path.NamesFile source) :
    Settled config (site.next source) where
  config_eq := (config_next site source).1.trans settled.config_eq
  filed := filed_next settled.filed named
  folder_eq := (folder_next site source).trans settled.folder_eq

/-- What is listed has the path of a file. -/
theorem namesFile_of_mem_list {folder : Text} (filed : files.Filed)
    (listed : files.list folder = .ok sources) (member : source ∈ sources) :
    Path.NamesFile source :=
  Path.namesFile_of_split ((Files.mem_list_iff filed listed).mp member).1

theorem Settled.build (settled : Settled config site) : Settled config site.build.site := by
  cases listed : site.files.list site.config.sourceFolder with
  | error error =>
      rw [(build_of_error listed).1]
      exact settled.cleared
  | ok sources =>
      rw [(build_of_list listed).1]
      refine afterAll_keeps (fun now source member before => ?_) settled.cleared
      exact before.next (namesFile_of_mem_list settled.filed listed member)

theorem Reached.settled (reached : Reached config site) : Settled config site := by
  induction reached with
  | start => exact ⟨rfl, Files.filed_empty, rfl⟩
  | write before named text ih => exact ⟨ih.config_eq, ih.filed.write named text, ih.folder_eq⟩
  | remove before path ih => exact ⟨ih.config_eq, ih.filed.remove path, ih.folder_eq⟩
  | @compileFile site after source page before compiled ih =>
      obtain ⟨text, html, templates, -, made, rfl⟩ := compileFile_eq_ok_iff.mp compiled
      obtain ⟨document, template, -, -, loaded, -⟩ := pageOf_eq_ok_iff.mp made
      have named : Path.NamesFile (Path.join site.config.outputFolder page.output) := by
        rw [(output_of_pageOf made).2]
        exact Path.namesFile_join _ (namesFile_outputOf source)
      refine ⟨ih.config_eq, ih.filed.write named html, ?_⟩
      rcases TemplateCache.load_eq_ok_iff.mp loaded with ⟨-, rfl⟩ | ⟨-, -, -, rfl⟩
      · exact ih.folder_eq
      · exact ih.folder_eq
  | build before ih => exact ih.build

/-! ### A site while it is built -/

/-- A site in the course of a build that began with another one. -/
structure Tracks (start now : Site) : Prop where
  config : now.config = start.config
  /-- No file was taken away. -/
  present : ∀ path, (start.files.get? path).isSome = true → (now.files.get? path).isSome = true
  /-- Every document is as it was. -/
  documents : ∀ document, Text.endsWith documentEnding document = true →
    now.files.get? (Path.join start.config.sourceFolder document)
      = start.files.get? (Path.join start.config.sourceFolder document)

theorem Tracks.refl (site : Site) : Tracks site site := ⟨rfl, fun _ => id, fun _ _ => rfl⟩

theorem Tracks.next (tracks : Tracks start now) (named : Path.NamesFile source) :
    Tracks start (now.next source) where
  config := (config_next now source).1.trans tracks.config
  present path there := by
    rw [files_next]
    exact Files.isSome_get?_writeAll _ (tracks.present path there)
  documents document ends := by
    rw [get?_next_of_ne (clean_target_ne_document named ends _ _)]
    exact tracks.documents document ends

/-- The file of a template. -/
def templatePath (config : SiteConfig) (name : Text) : Text :=
  Path.join config.templateFolder (name ++ ".html".toList)

/-- A site that loads every template as it stands in some files, whether it was loaded before or
not. -/
structure LoadsAs (config : SiteConfig) (files : Files) (now : Site) : Prop where
  folder : now.templates.folder = config.templateFolder
  held : ∀ name text, now.templates.texts.get? name = some text →
    IsTemplateName name ∧ files.get? (templatePath config name) = some text
  same : ∀ name, IsTemplateName name →
    now.files.get? (templatePath config name) = files.get? (templatePath config name)

theorem LoadsAs.pathOf_eq (loads : LoadsAs config files now) (name : Text) :
    now.templates.pathOf name = templatePath config name := by
  rw [TemplateCache.pathOf, loads.folder]
  rfl

/-- A build begins with templates as they are. -/
theorem loadsAs_cleared (settled : Settled config site)
    (same : ∀ name, IsTemplateName name →
      site.files.get? (templatePath config name) = files.get? (templatePath config name)) :
    LoadsAs config files site.cleared where
  folder := settled.folder_eq
  held name text cached := by cases cached
  same := same

theorem LoadsAs.next (loads : LoadsAs config files now) (sameConfig : now.config = config)
    (spared : ∀ name, IsTemplateName name →
      Path.clean (Path.join config.outputFolder (targetOf source))
        ≠ Path.clean (templatePath config name)) :
    LoadsAs config files (now.next source) where
  folder := (folder_next now source).trans loads.folder
  held name text cached := by
    rcases (config_next now source).2 with kept | ⟨asked, template, loaded⟩
    · rw [kept] at cached
      exact loads.held name text cached
    · rcases TemplateCache.load_eq_ok_iff.mp loaded with ⟨-, kept⟩ | ⟨-, valid, file, kept⟩
      · rw [kept] at cached
        exact loads.held name text cached
      · rw [kept] at cached
        simp only [Dictionary.get?_set] at cached
        split at cached
        · rename_i sameName
          subst sameName
          obtain rfl := Option.some.inj cached
          rw [loads.pathOf_eq, loads.same asked valid] at file
          exact ⟨valid, file⟩
        · exact loads.held name text cached
  same name valid := by
    rw [get?_next_of_ne (by rw [sameConfig]; exact spared name valid)]
    exact loads.same name valid

end MarkPress.Site
