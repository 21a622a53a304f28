/-
Module: MarkPress.Proofs.Site.Fate
Purpose: What becomes of each file in a build.
  A file becomes a page, a copy or a failure. The report of a build lists these, and its files are
  those from before with one write for each page and each copy, in the order of the sources.
Main exports:
  Fate, Built, Site.built, Site.next, Site.builds, Site.pageOf_eq_ok_iff, Site.report_foldl,
  Site.log_foldl, Site.files_afterAll, Site.exists_split_of_mem_builds, Site.afterAll_keeps
-/
import MarkPress.Proofs.Site.Files
import MarkPress.Proofs.Site.Target
import MarkPress.Proofs.Template.Cache

namespace MarkPress

/-- What a file can become. -/
inductive Fate where
  /-- A page, and the text that is written for it. -/
  | page (page : Page) (html : Text)
  /-- A file with the same text. -/
  | copy (text : Text)
  /-- Nothing. -/
  | failure (error : BuildError)

/-- A file and what became of it. -/
structure Built where
  source : Text
  fate : Fate

namespace Built

/-- The page that the report lists. -/
def page? (built : Built) : Option Page :=
  match built.fate with
  | .page page _ => some page
  | _ => none

/-- The path that the report lists among the copied ones. -/
def copied? (built : Built) : Option Text :=
  match built.fate with
  | .copy _ => some built.source
  | _ => none

/-- The failure that the report lists. -/
def failure? (built : Built) : Option BuildFailure :=
  match built.fate with
  | .failure error => some ⟨built.source, error.message⟩
  | _ => none

/-- The message that the log gets. -/
def message? (built : Built) : Option Log.Message :=
  match built.fate with
  | .page page _ =>
      some ⟨.debug, "compiled ".toList ++ page.source ++ " -> ".toList ++ page.output⟩
  | .copy _ => none
  | .failure error =>
      some ⟨.error, "failed to build ".toList ++ built.source ++ ": ".toList ++ error.message⟩

/-- The path and the text that are written. -/
def write? (config : SiteConfig) (built : Built) : Option (Text × Text) :=
  let path := Path.join config.outputFolder (Site.targetOf built.source)
  match built.fate with
  | .page _ html => some (path, html)
  | .copy text => some (path, text)
  | .failure _ => none

theorem filterMap_cons {α : Type} (f : Built → Option α) (built : Built) (rest : List Built) :
    (built :: rest).filterMap f = (f built).toList ++ rest.filterMap f := by
  cases found : f built <;> simp [found]

end Built

namespace Site

variable {site : Site} {source text : Text} {sources : List Text} {progress : Progress}

/-! ### One file -/

/-- What the page of a document becomes. -/
def pageFate : Except BuildError (Page × Text × TemplateCache) → Fate
  | .error error => .failure error
  | .ok (page, html, _) => .page page html

/-- What becomes of a file as things are. -/
def built (source : Text) (site : Site) : Built :=
  ⟨source,
    match site.files.read (Path.join site.config.sourceFolder source) with
    | .error error => .failure (.file error)
    | .ok text =>
        if Text.endsWith documentEnding source then pageFate (site.pageOf source text)
        else .copy text⟩

theorem built_document (document : Text.endsWith documentEnding source = true)
    (read : site.files.read (Path.join site.config.sourceFolder source) = .ok text) :
    site.built source = ⟨source, pageFate (site.pageOf source text)⟩ := by
  rw [built, read]
  dsimp only
  rw [if_pos document]

theorem built_other (other : Text.endsWith documentEnding source = false)
    (read : site.files.read (Path.join site.config.sourceFolder source) = .ok text) :
    site.built source = ⟨source, .copy text⟩ := by
  rw [built, read]
  dsimp only
  rw [other]
  rfl

/-- The site after one file was built. -/
def next (site : Site) (source : Text) : Site := (Progress.buildFile { site := site } source).site

/-- A document becomes a page if it compiles and its template is there. -/
theorem pageOf_eq_ok_iff {page : Page} {html : Text} {templates : TemplateCache} :
    site.pageOf source text = .ok (page, html, templates) ↔
      ∃ document template, Document.compile text = .ok document
        ∧ page = ⟨source, outputOf source,
          document.metadata.template.getD site.config.defaultTemplate, document.metadata⟩
        ∧ site.templates.load site.files page.template = .ok (template, templates)
        ∧ html = Template.fill template
          (Variables.ofDocument document.metadata document.html site.config.siteTitle) := by
  rw [pageOf]
  cases Document.compile text with
  | error error => simp
  | ok document =>
      dsimp only
      rw [TemplateCache.fillPage_eq]
      cases loaded : site.templates.load site.files
          (document.metadata.template.getD site.config.defaultTemplate) with
      | error error =>
          simp only [Except.map, reduceCtorEq, false_iff, not_exists]
          rintro compiled template ⟨same, rfl, found, -⟩
          obtain rfl := Except.ok.inj same
          rw [loaded] at found
          cases found
      | ok found =>
          obtain ⟨template, kept⟩ := found
          simp only [Except.map, Except.ok.injEq, Prod.mk.injEq]
          constructor
          · rintro ⟨rfl, rfl, rfl⟩
            exact ⟨document, template, rfl, rfl, loaded, rfl⟩
          · rintro ⟨compiled, text, rfl, rfl, again, rfl⟩
            obtain ⟨rfl, rfl⟩ := Prod.mk.inj (Except.ok.inj (loaded.symm.trans again))
            exact ⟨rfl, rfl, rfl⟩

/-- A step of the build depends on the site alone. -/
theorem site_buildFile (progress : Progress) (source : Text) :
    (progress.buildFile source).site = progress.site.next source := by
  rw [next, Progress.buildFile, Progress.buildFile]
  split
  · dsimp only
    cases progress.site.compileFile source <;> rfl
  · dsimp only
    cases progress.site.copyFile source <;> rfl

/-- A step of the build adds what became of the file to the report. -/
theorem report_buildFile (progress : Progress) (source : Text) :
    (progress.buildFile source).report =
      { pages := progress.report.pages ++ (progress.site.built source).page?.toList
        copied := progress.report.copied ++ (progress.site.built source).copied?.toList
        failures := progress.report.failures ++ (progress.site.built source).failure?.toList } := by
  cases document : Text.endsWith documentEnding source <;>
    cases read : progress.site.files.read (Path.join progress.site.config.sourceFolder source) with
    | error error =>
        simp [Progress.buildFile, document, compileFile, copyFile, read, Progress.fail, built,
          Built.page?, Built.copied?, Built.failure?]
    | ok text =>
        cases made : progress.site.pageOf source text <;>
          simp [Progress.buildFile, document, compileFile, copyFile, read, made, Progress.fail,
            built, pageFate, Built.page?, Built.copied?, Built.failure?]

/-- A step of the build adds what became of the file to the log. -/
theorem log_buildFile (progress : Progress) (source : Text) :
    (progress.buildFile source).log
      = progress.log ++ (progress.site.built source).message?.toList := by
  cases document : Text.endsWith documentEnding source <;>
    cases read : progress.site.files.read (Path.join progress.site.config.sourceFolder source) with
    | error error =>
        simp [Progress.buildFile, document, compileFile, copyFile, read, Progress.fail, built,
          Built.message?]
    | ok text =>
        cases made : progress.site.pageOf source text <;>
          simp [Progress.buildFile, document, compileFile, copyFile, read, made, Progress.fail,
            built, pageFate, Built.message?]

/-- The output of a page is where its text is written. -/
theorem output_of_pageOf {page : Page} {html : Text} {templates : TemplateCache}
    (made : site.pageOf source text = .ok (page, html, templates)) :
    page.source = source ∧ page.output = outputOf source := by
  obtain ⟨document, template, -, rfl, -⟩ := pageOf_eq_ok_iff.mp made
  exact ⟨rfl, rfl⟩

/-- A step of the build makes one write at most. -/
theorem files_next (site : Site) (source : Text) :
    (site.next source).files
      = site.files.writeAll ((site.built source).write? site.config).toList := by
  cases document : Text.endsWith documentEnding source <;>
    cases read : site.files.read (Path.join site.config.sourceFolder source) with
    | error error =>
        simp [next, Progress.buildFile, document, compileFile, copyFile, read, Progress.fail, built,
          Built.write?, Files.writeAll]
    | ok text =>
        cases made : site.pageOf source text with
        | error error =>
            simp [next, Progress.buildFile, document, compileFile, copyFile, read, made,
              Progress.fail, built, pageFate, Built.write?, Files.writeAll, targetOf]
        | ok result =>
            obtain ⟨page, html, templates⟩ := result
            have output := (output_of_pageOf made).2
            simp [next, Progress.buildFile, document, compileFile, copyFile, read, made, output,
              built, pageFate, Built.write?, Files.writeAll, targetOf]

theorem compileFile_eq_ok_iff {page : Page} {after : Site} :
    site.compileFile source = .ok (page, after) ↔
      ∃ text html templates, site.files.read (Path.join site.config.sourceFolder source) = .ok text
        ∧ site.pageOf source text = .ok (page, html, templates)
        ∧ after = { site with
            files := site.files.write (Path.join site.config.outputFolder page.output) html
            templates := templates } := by
  rw [compileFile]
  cases site.files.read (Path.join site.config.sourceFolder source) with
  | error error => simp
  | ok text =>
      cases made : site.pageOf source text with
      | error error => simp [made]
      | ok result =>
          simp only [made, Except.ok.injEq, Prod.mk.injEq]
          constructor
          · rintro ⟨rfl, rfl⟩
            exact ⟨text, result.2.1, result.2.2, rfl, made, rfl⟩
          · rintro ⟨again, html, templates, rfl, found, rfl⟩
            obtain rfl := Except.ok.inj (made.symm.trans found)
            exact ⟨rfl, rfl⟩

/-- A step of the build leaves the configuration, and asks for one template at most. -/
theorem config_next (site : Site) (source : Text) :
    (site.next source).config = site.config
      ∧ ((site.next source).templates = site.templates
        ∨ ∃ name text,
          site.templates.load site.files name = .ok (text, (site.next source).templates)) := by
  rw [next, Progress.buildFile]
  split
  · dsimp only
    cases compiled : site.compileFile source with
    | error error => exact ⟨rfl, .inl rfl⟩
    | ok result =>
        obtain ⟨text, html, templates, -, made, after⟩ := compileFile_eq_ok_iff.mp compiled
        obtain ⟨document, template, -, -, loaded, -⟩ := pageOf_eq_ok_iff.mp made
        dsimp only
        rw [after]
        exact ⟨rfl, .inr ⟨_, template, loaded⟩⟩
  · dsimp only [copyFile]
    cases site.files.read (Path.join site.config.sourceFolder source) with
    | error error => exact ⟨rfl, .inl rfl⟩
    | ok text => exact ⟨rfl, .inl rfl⟩

/-! ### All files -/

/-- The site after the files of a list were built. -/
def afterAll (sources : List Text) (site : Site) : Site := sources.foldl next site

/-- What becomes of the files of a list, one after the other. -/
def builds : List Text → Site → List Built
  | [], _ => []
  | source :: rest, site => site.built source :: builds rest (site.next source)

theorem map_source_builds (sources : List Text) (site : Site) :
    (builds sources site).map Built.source = sources := by
  induction sources generalizing site with
  | nil => rfl
  | cons source sources ih => exact congrArg (_ :: ·) (ih _)

theorem mem_sources {built : Built} (member : built ∈ builds sources site) :
    built.source ∈ sources := by
  rw [← map_source_builds sources site]
  exact List.mem_map_of_mem member

theorem site_foldl (sources : List Text) (progress : Progress) :
    (sources.foldl Progress.buildFile progress).site = afterAll sources progress.site := by
  induction sources generalizing progress with
  | nil => rfl
  | cons source sources ih =>
      rw [List.foldl_cons, ih, site_buildFile]
      rfl

/-- The report of a build lists what became of the files, in the order of the sources. -/
theorem report_foldl (sources : List Text) (progress : Progress) :
    (sources.foldl Progress.buildFile progress).report =
      { pages :=
          progress.report.pages ++ (builds sources progress.site).filterMap Built.page?
        copied :=
          progress.report.copied ++ (builds sources progress.site).filterMap Built.copied?
        failures :=
          progress.report.failures ++ (builds sources progress.site).filterMap Built.failure? } := by
  induction sources generalizing progress with
  | nil => simp [builds]
  | cons source sources ih =>
      rw [List.foldl_cons, ih, site_buildFile, report_buildFile, builds, Built.filterMap_cons,
        Built.filterMap_cons, Built.filterMap_cons]
      simp only [List.append_assoc]

/-- So does its log. -/
theorem log_foldl (sources : List Text) (progress : Progress) :
    (sources.foldl Progress.buildFile progress).log
      = progress.log ++ (builds sources progress.site).filterMap Built.message? := by
  induction sources generalizing progress with
  | nil => simp [builds]
  | cons source sources ih =>
      rw [List.foldl_cons, ih, site_buildFile, log_buildFile, builds, Built.filterMap_cons,
        List.append_assoc]

theorem config_afterAll (sources : List Text) (site : Site) :
    (afterAll sources site).config = site.config := by
  induction sources generalizing site with
  | nil => rfl
  | cons source sources ih => exact (ih _).trans (config_next site source).1

/-- The files after a build are those from before with one write for each file that did not fail. -/
theorem files_afterAll (sources : List Text) (site : Site) :
    (afterAll sources site).files
      = site.files.writeAll ((builds sources site).filterMap (Built.write? site.config)) := by
  induction sources generalizing site with
  | nil => rfl
  | cons source sources ih =>
      have later := ih (site.next source)
      rw [(config_next site source).1, files_next, ← Files.writeAll_append] at later
      refine later.trans (congrArg site.files.writeAll ?_)
      cases written : (site.built source).write? site.config <;> simp [builds, written]

/-- What becomes of a file is decided when the files before it were built. -/
theorem exists_split_of_mem_builds {built : Built} (member : built ∈ builds sources site) :
    ∃ before after, sources = before ++ built.source :: after
      ∧ built = (afterAll before site).built built.source := by
  induction sources generalizing site with
  | nil => exact absurd member List.not_mem_nil
  | cons source sources ih =>
      rcases List.mem_cons.mp member with rfl | later
      · exact ⟨[], sources, rfl, rfl⟩
      · obtain ⟨before, after, rfl, same⟩ := ih later
        exact ⟨source :: before, after, rfl, same⟩

theorem mem_of_mem_before {before after : List Text}
    (whole : sources = before ++ source :: after) : ∀ other ∈ before, other ∈ sources := by
  intro other inBefore
  rw [whole]
  exact List.mem_append_left _ inBefore

/-- What building each file of a list keeps, building all of them keeps. -/
theorem afterAll_keeps {P : Site → Prop}
    (step : ∀ now source, source ∈ sources → P now → P (now.next source)) (start : P site) :
    P (afterAll sources site) := by
  induction sources generalizing site with
  | nil => exact start
  | cons source sources ih =>
      have next : P (site.next source) := step site source List.mem_cons_self start
      exact ih (fun now other inRest => step now other (List.mem_cons_of_mem _ inRest)) next

end Site

end MarkPress
