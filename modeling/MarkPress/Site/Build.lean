/-
Module: MarkPress.Site.Build
Purpose: Building a site from its sources.
  Documents become pages and every other file is copied, one file after the other in the order of
  the listing. A document that can not be made into a page is reported and does not keep the others
  from being built.
Main exports:
  SiteConfig, Site, Site.compileFile, Site.copyFile, Site.build, BuildError, BuildReport, Build
-/
import MarkPress.Document
import MarkPress.Log.Message
import MarkPress.Site.Page
import MarkPress.Template.Cache
import MarkPress.Template.Page

namespace MarkPress

/-- Where a site is and what all of its pages share. -/
structure SiteConfig where
  sourceFolder : Text
  outputFolder : Text
  templateFolder : Text
  /-- The template of a document that names none. -/
  defaultTemplate : Text
  siteTitle : Text := []
deriving Repr, Inhabited, DecidableEq

/-- A site with its files and the templates loaded so far. -/
structure Site where
  config : SiteConfig
  files : Files
  templates : TemplateCache
deriving Repr, Inhabited, DecidableEq

/-- Why a file can not be built. -/
inductive BuildError where
  | file (error : FileError)
  | document (error : DocumentError)
  | template (error : TemplateError)
deriving Repr, Inhabited, DecidableEq

/-- The text that reports an error. -/
def BuildError.message : BuildError → Text
  | .file error => error.message
  | .document error => error.message
  | .template error => error.message

/-- A file that could not be built, with the text that reports why. -/
structure BuildFailure where
  source : Text
  error : Text
deriving Repr, Inhabited, DecidableEq

/-- What became of the files of a site. -/
structure BuildReport where
  pages : List Page := []
  /-- The paths of the files that were copied. -/
  copied : List Text := []
  failures : List BuildFailure := []
deriving Repr, Inhabited, DecidableEq

/-- A build: the site behind it, what was reported meanwhile, and the result. -/
structure Build where
  site : Site
  log : List Log.Message := []
  report : Except FileError BuildReport
deriving Inhabited

namespace Site

/-- A site of which no template has been loaded. -/
def ofFiles (config : SiteConfig) (files : Files) : Site :=
  ⟨config, files, { folder := config.templateFolder }⟩

/-! ### One file -/

/-- The ending of the names of documents. -/
def documentEnding : Text := ".agm".toList

/-- The page of a document, by the path of the document. -/
def outputOf (source : Text) : Text :=
  source.cut (source.width - documentEnding.length) ++ ".html".toList

/-- The page and the output that a text becomes, and the templates loaded meanwhile. -/
def pageOf (source text : Text) (site : Site) :
    Except BuildError (Page × Text × TemplateCache) :=
  match Document.compile text with
  | .error error => .error (.document error)
  | .ok document =>
      let template := document.metadata.template.getD site.config.defaultTemplate
      let values :=
        Variables.ofDocument document.metadata document.html site.config.siteTitle
      match site.templates.fillPage site.files template values with
      | .error error => .error (.template error)
      | .ok (html, templates) =>
          .ok (⟨source, outputOf source, template, document.metadata⟩, html, templates)

/-- Make a document into a page and write it. -/
def compileFile (source : Text) (site : Site) : Except BuildError (Page × Site) :=
  match site.files.read (Path.join site.config.sourceFolder source) with
  | .error error => .error (.file error)
  | .ok text =>
      match site.pageOf source text with
      | .error error => .error error
      | .ok (page, html, templates) =>
          let path := Path.join site.config.outputFolder page.output
          .ok (page, { site with files := site.files.write path html, templates := templates })

/-- Copy a file into the output. -/
def copyFile (source : Text) (site : Site) : Except BuildError Site :=
  match site.files.read (Path.join site.config.sourceFolder source) with
  | .error error => .error (.file error)
  | .ok text =>
      let path := Path.join site.config.outputFolder source
      .ok { site with files := site.files.write path text }

/-! ### All files -/

/-- A build that has come to a file: what is done so far. -/
structure Progress where
  site : Site
  log : List Log.Message := []
  report : BuildReport := {}
deriving Repr, Inhabited, DecidableEq

/-- Report that a file could not be built. -/
def Progress.fail (source : Text) (error : BuildError) (progress : Progress) : Progress :=
  let text := "failed to build ".toList ++ source ++ ": ".toList ++ error.message
  { progress with
    log := progress.log ++ [⟨.error, text⟩]
    report := { progress.report with
      failures := progress.report.failures ++ [⟨source, error.message⟩] } }

/-- Build one file. -/
def Progress.buildFile (progress : Progress) (source : Text) : Progress :=
  if Text.endsWith documentEnding source then
    match progress.site.compileFile source with
    | .error error => progress.fail source error
    | .ok (page, site) =>
        let text := "compiled ".toList ++ page.source ++ " -> ".toList ++ page.output
        { site := site
          log := progress.log ++ [⟨.debug, text⟩]
          report := { progress.report with pages := progress.report.pages ++ [page] } }
  else
    match progress.site.copyFile source with
    | .error error => progress.fail source error
    | .ok site =>
        { progress with
          site := site
          report := { progress.report with copied := progress.report.copied ++ [source] } }

/-- The message at the beginning of a build. -/
def startMessage (count : Nat) (folder : Text) : Log.Message :=
  ⟨.info, "building ".toList ++ Text.ofNat count ++ " files from ".toList ++ folder⟩

/-- The message at the end of a build. -/
def endMessage (report : BuildReport) : Log.Message :=
  ⟨.info,
    "built ".toList ++ Text.ofNat report.pages.length ++ " pages, copied ".toList
      ++ Text.ofNat report.copied.length ++ " files, ".toList
      ++ Text.ofNat report.failures.length ++ " failures".toList⟩

/-- Build the files of a list, one after the other. -/
def buildFiles (sources : List Text) (site : Site) : Progress :=
  sources.foldl Progress.buildFile { site := site }

/-- Build every file of the source folder, with templates as they are now. -/
def build (site : Site) : Build :=
  let site := { site with templates := site.templates.clear }
  match site.files.list site.config.sourceFolder with
  | .error error => { site := site, report := .error error }
  | .ok sources =>
      let done := buildFiles sources site
      let report := { done.report with pages := Page.sort done.report.pages }
      let start := startMessage sources.length site.config.sourceFolder
      { site := done.site
        log := start :: done.log ++ [endMessage report]
        report := .ok report }

end Site

end MarkPress
