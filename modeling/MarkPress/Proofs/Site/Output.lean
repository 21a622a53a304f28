/-
Module: MarkPress.Proofs.Site.Output
Purpose: What the output holds after a build.
  Two listed files are written to one path only if one is a document and the other one has the path
  of its page. The document is listed first then, so that the copy stays and the page is lost. Every
  other page and every copy is found as it was written.
Main exports:
  Site.document_before_page, Site.get?_afterAll_of_last, Site.SparesSources, Site.copy_written,
  Site.page_written, Site.build_outputs, Site.build_loses_page
-/
import Mathlib.Data.List.Permutation
import MarkPress.Proofs.Site.Build

namespace MarkPress.Site

variable {config : SiteConfig} {site now : Site} {source text : Text}
variable {sources before after : List Text}

/-! ### The order of writing -/

/-- In the order of a listing a document stands before the file with the path of its page. -/
theorem document_before_page (stem : Text) :
    (Text.split '/' (stem ++ documentEnding)).map Text.codeUnits
      < (Text.split '/' (stem ++ pageEnding)).map Text.codeUnits := by
  obtain ⟨folders, name, cutD, endedD⟩ :=
    Text.split_append_ending stem (show '/' ∉ documentEnding by decide)
  obtain ⟨others, again, cutP, endedP⟩ :=
    Text.split_append_ending stem (show '/' ∉ pageEnding by decide)
  obtain ⟨rfl, same⟩ := List.append_inj' (cutD.symm.trans cutP) rfl
  obtain rfl := (List.cons.inj same).1
  have endings : Text.codeUnits documentEnding < Text.codeUnits pageEnding := by decide
  have names : Text.codeUnits (name ++ documentEnding) < Text.codeUnits (name ++ pageEnding) := by
    simp only [Text.codeUnits, List.flatMap_append] at endings ⊢
    exact List.append_left_lt endings
  rw [endedD, endedP, List.map_append, List.map_append]
  exact List.append_left_lt (List.Lex.rel names)

/-- Behind a file that is no document no other one has its target. -/
theorem target_ne_of_after {files : Files} {folder : Text} (filed : files.Filed)
    (listed : files.list folder = .ok (before ++ source :: after))
    (other : Text.endsWith documentEnding source = false) :
    ∀ later ∈ after, targetOf later ≠ targetOf source := by
  intro later member same
  have once := Files.nodup_list filed listed
  have differ : later ≠ source := by
    rintro rfl
    exact (List.nodup_cons.mp (List.nodup_append.mp once).2.1).1 member
  have ordered := Files.list_pairwise filed listed
  have behind := (List.pairwise_cons.mp (List.pairwise_append.mp ordered).2.1).1 later member
  obtain ⟨stem, ⟨rfl, rfl⟩ | ⟨rfl, rfl⟩⟩ := (targetOf_eq_iff differ).mp same
  · exact behind (document_before_page stem)
  · rw [isDocument_iff.mpr ⟨stem, rfl⟩] at other
    cases other

theorem afterAll_split (before after : List Text) (source : Text) (site : Site) :
    afterAll (before ++ source :: after) site
      = afterAll after ((afterAll before site).next source) := by
  rw [afterAll, List.foldl_append]
  rfl

/-- What is written last to a path is found there. -/
theorem get?_afterAll_of_last {written : Text × Text}
    (writes : ((afterAll before site).built source).write? site.config = some written)
    (last : ∀ later ∈ after,
      Path.clean (Path.join site.config.outputFolder (targetOf later))
        ≠ Path.clean (Path.join site.config.outputFolder (targetOf source))) :
    (afterAll (before ++ source :: after) site).files.get?
        (Path.join site.config.outputFolder (targetOf source)) = some written.2 := by
  have sameConfig := config_afterAll before site
  have path : written.1 = Path.join site.config.outputFolder (targetOf source) :=
    path_of_write? writes
  have here : ((afterAll before site).next source).files.get? written.1 = some written.2 := by
    rw [files_next, sameConfig, writes]
    exact (Files.get?_write _ _ _ _).trans (if_pos rfl)
  have config : ((afterAll before site).next source).config = site.config :=
    (config_next _ source).1.trans sameConfig
  rw [afterAll_split, ← path, ← here]
  refine get?_afterAll_of_ne fun later member => ?_
  rw [config, path]
  exact last later member

/-! ### Sources and copies -/

/-- No file of a list is built into the place of one of its sources. -/
def SparesSources (config : SiteConfig) (sources : List Text) : Prop :=
  ∀ source ∈ sources, ∀ other ∈ sources,
    Path.clean (Path.join config.outputFolder (targetOf source))
      ≠ Path.clean (Path.join config.sourceFolder other)

/-- A build spares its sources if neither of the two folders is in the other. -/
theorem sparesSources_of_apart {files : Files} (filed : files.Filed)
    (listed : files.list config.sourceFolder = .ok sources)
    (outside : ¬ Path.parts config.outputFolder <+: Path.parts config.sourceFolder)
    (apart : ¬ Path.parts config.sourceFolder <+: Path.parts config.outputFolder) :
    SparesSources config sources := by
  intro source member other memberO same
  have areO := ((Files.mem_list_iff filed listed).mp memberO).1
  have areT := areNames_targetOf ((Files.mem_list_iff filed listed).mp member).1
  have parts := congrArg Path.parts same
  rw [Path.clean_join _ (Path.namesFile_of_split areT),
    Path.clean_join _ (Path.namesFile_of_split areO), Path.parts_join_of_split _ areT,
    Path.parts_join_of_split _ areO] at parts
  have inOutput := List.prefix_append (Path.parts config.outputFolder)
    (Text.split '/' (targetOf source))
  rw [parts] at inOutput
  rcases List.prefix_or_prefix_of_prefix inOutput (List.prefix_append _ _) with inside | around
  · exact outside inside
  · exact apart around

theorem get?_source (settled : Settled config site) (spares : SparesSources config sources)
    (within : ∀ source ∈ before, source ∈ sources) (member : source ∈ sources) :
    (afterAll before site.cleared).files.get? (Path.join config.sourceFolder source)
      = site.files.get? (Path.join config.sourceFolder source) := by
  refine get?_afterAll_of_ne fun other inBefore => ?_
  have sameConfig : site.cleared.config = config := settled.config_eq
  rw [sameConfig]
  exact spares other (within other inBefore) source member

theorem clean_target_ne (settled : Settled config site)
    (listed : site.files.list config.sourceFolder = .ok sources) {first later : Text}
    (inF : first ∈ sources) (inL : later ∈ sources) (differ : targetOf first ≠ targetOf later) :
    Path.clean (Path.join config.outputFolder (targetOf first))
      ≠ Path.clean (Path.join config.outputFolder (targetOf later)) := by
  have areF := ((Files.mem_list_iff settled.filed listed).mp inF).1
  have areL := ((Files.mem_list_iff settled.filed listed).mp inL).1
  rw [Path.clean_join _ (Path.namesFile_of_split (areNames_targetOf areF)),
    Path.clean_join _ (Path.namesFile_of_split (areNames_targetOf areL))]
  exact fun same => differ ((join_targetOf_eq_iff _ areF areL).mp same)

/-- Copies are the listed files that are no documents. -/
theorem mem_copied_iff (settled : Settled config site)
    (listed : site.files.list config.sourceFolder = .ok sources) :
    source ∈ (reportOf (builds sources site.cleared)).copied ↔
      source ∈ sources ∧ Text.endsWith documentEnding source = false := by
  have fits := fits_of_mem_builds settled listed
  constructor
  · intro copied
    obtain ⟨built, member, found⟩ := List.mem_filterMap.mp copied
    obtain ⟨rfl, text, copy⟩ := Built.copied?_eq_some_iff.mp found
    have fit := fits built member
    rw [Built.Fits, copy] at fit
    exact ⟨mem_sources member, fit⟩
  · rintro ⟨inSources, other⟩
    rw [← map_source_builds sources site.cleared] at inSources
    obtain ⟨built, member, rfl⟩ := List.mem_map.mp inSources
    have fit := fits built member
    cases fate : built.fate with
    | page page html =>
        rw [Built.Fits, fate] at fit
        exact absurd (other.symm.trans fit.1) Bool.false_ne_true
    | failure error =>
        rw [Built.Fits, fate] at fit
        exact absurd (other.symm.trans fit) Bool.false_ne_true
    | copy text =>
        exact List.mem_filterMap.mpr
          ⟨built, member, Built.copied?_eq_some_iff.mpr ⟨rfl, text, fate⟩⟩

/-- Every copy holds the text of its file. -/
theorem copy_written (settled : Settled config site)
    (listed : site.files.list config.sourceFolder = .ok sources)
    (spares : SparesSources config sources)
    (copied : source ∈ (reportOf (builds sources site.cleared)).copied) :
    ∃ text, site.files.get? (Path.join config.sourceFolder source) = some text
      ∧ (afterAll sources site.cleared).files.get? (Path.join config.outputFolder source)
        = some text := by
  obtain ⟨member, other⟩ := (mem_copied_iff settled listed).mp copied
  obtain ⟨before, after, whole⟩ := List.append_of_mem member
  have within := mem_of_mem_before whole
  obtain ⟨text, read, found⟩ :=
    (tracks_afterAll settled listed within).read settled listed member
  rw [get?_source settled spares within member] at found
  have sameConfig : site.cleared.config = config := settled.config_eq
  have writes : ((afterAll before site.cleared).built source).write? site.cleared.config
      = some (Path.join config.outputFolder (targetOf source), text) := by
    rw [built_other other read, sameConfig]
    rfl
  have last : ∀ later ∈ after, Path.clean (Path.join site.cleared.config.outputFolder
      (targetOf later)) ≠ Path.clean (Path.join site.cleared.config.outputFolder
        (targetOf source)) := by
    intro later inAfter
    have inSources : later ∈ sources := by
      rw [whole]
      exact List.mem_append_right _ (List.mem_cons_of_mem _ inAfter)
    rw [sameConfig]
    refine clean_target_ne settled listed inSources member ?_
    exact target_ne_of_after settled.filed (whole ▸ listed) other later inAfter
  have written := get?_afterAll_of_last writes last
  rw [sameConfig, targetOf_other other, ← whole] at written
  exact ⟨text, found, written⟩

/-! ### Pages -/

/-- The text of the page that a document becomes with the files of a site. -/
def Renders (config : SiteConfig) (files : Files) (page : Page) (html : Text) : Prop :=
  ∃ text document template,
    files.get? (Path.join config.sourceFolder page.source) = some text
      ∧ Document.compile text = .ok document
      ∧ files.get? (templatePath config page.template) = some template
      ∧ html = Template.fill template
        (Variables.ofDocument document.metadata document.html config.siteTitle)

theorem LoadsAs.get?_of_load {files : Files} (loads : LoadsAs config files now) {name : Text}
    {template : Text} {kept : TemplateCache}
    (loaded : now.templates.load now.files name = .ok (template, kept)) :
    files.get? (templatePath config name) = some template := by
  rcases TemplateCache.load_eq_ok_iff.mp loaded with ⟨cached, -⟩ | ⟨-, valid, file, -⟩
  · exact (loads.held name template cached).2
  · rwa [loads.pathOf_eq, loads.same name valid] at file

/-- A page was made from a document of the listing, and the text that was written for it is its
own. -/
theorem exists_renders (settled : Settled config site)
    (listed : site.files.list config.sourceFolder = .ok sources)
    (spares : SparesTemplates config sources) {page : Page}
    (inReport : page ∈ (reportOf (builds sources site.cleared)).pages) :
    ∃ before after html, sources = before ++ page.source :: after
      ∧ Text.endsWith documentEnding page.source = true ∧ page.output = targetOf page.source
      ∧ Renders config site.files page html
      ∧ ((afterAll before site.cleared).built page.source).write? config
        = some (Path.join config.outputFolder (targetOf page.source), html) := by
  obtain ⟨built, member, found⟩ := mem_pages_iff.mp inReport
  obtain ⟨html, made⟩ := Built.page?_eq_some_iff.mp found
  have fit := fits_of_mem_builds settled listed built member
  rw [Built.Fits, made] at fit
  obtain ⟨document, ofSource, output⟩ := fit
  obtain ⟨before, after, whole, same⟩ := exists_split_of_mem_builds member
  rw [← ofSource] at document output whole same
  have within := mem_of_mem_before whole
  have inSources : page.source ∈ sources := ofSource ▸ mem_sources member
  have tracks := tracks_afterAll settled listed within
  have loads := loadsAs_afterAll settled (fun _ _ => rfl)
    fun other inBefore => spares other (within other inBefore)
  obtain ⟨text, read, there⟩ := tracks.read settled listed inSources
  have sameConfig : site.cleared.config = config := settled.config_eq
  have asBegan := tracks.documents page.source document
  rw [sameConfig, there] at asBegan
  have fate : pageFate ((afterAll before site.cleared).pageOf page.source text)
      = .page page html := by
    rw [built_document document read] at same
    rw [← made, same]
  cases result : (afterAll before site.cleared).pageOf page.source text with
  | error error =>
      rw [result] at fate
      cases fate
  | ok triple =>
      obtain ⟨again, written, templates⟩ := triple
      rw [result] at fate
      obtain ⟨rfl, rfl⟩ := Fate.page.inj fate
      obtain ⟨compiled, template, compiles, -, loaded, filled⟩ := pageOf_eq_ok_iff.mp result
      rw [config_afterAll, sameConfig] at filled
      refine ⟨before, after, written, whole, document, output,
        ⟨text, compiled, template, asBegan.symm, compiles, loads.get?_of_load loaded, filled⟩, ?_⟩
      rw [built_document document read, result]
      rfl

/-- A page whose path no copy has is found in the output with its own text. -/
theorem page_written (settled : Settled config site)
    (listed : site.files.list config.sourceFolder = .ok sources)
    (spares : SparesTemplates config sources) {page : Page}
    (inReport : page ∈ (reportOf (builds sources site.cleared)).pages) :
    ∃ html, Renders config site.files page html
      ∧ (page.output ∉ (reportOf (builds sources site.cleared)).copied →
        (afterAll sources site.cleared).files.get?
          (Path.join config.outputFolder page.output) = some html) := by
  obtain ⟨before, after, html, whole, document, output, renders, writes⟩ :=
    exists_renders settled listed spares inReport
  refine ⟨html, renders, fun free => ?_⟩
  have sameConfig : site.cleared.config = config := settled.config_eq
  have inSources : page.source ∈ sources := by
    rw [whole]
    exact List.mem_append_right _ List.mem_cons_self
  have once := Files.nodup_list settled.filed listed
  rw [whole] at once
  have fresh := (List.nodup_cons.mp (List.nodup_append.mp once).2.1).1
  have last : ∀ later ∈ after, Path.clean (Path.join site.cleared.config.outputFolder
      (targetOf later)) ≠ Path.clean (Path.join site.cleared.config.outputFolder
        (targetOf page.source)) := by
    intro later inAfter
    have inLater : later ∈ sources := by
      rw [whole]
      exact List.mem_append_right _ (List.mem_cons_of_mem _ inAfter)
    rw [sameConfig]
    refine clean_target_ne settled listed inLater inSources fun same => ?_
    have differ : later ≠ page.source := fun equal => fresh (equal ▸ inAfter)
    cases documentL : Text.endsWith documentEnding later with
    | false =>
        apply free
        rw [output, ← same, targetOf_other documentL]
        exact (mem_copied_iff settled listed).mpr ⟨inLater, documentL⟩
    | true =>
        obtain ⟨stem, ⟨-, page'⟩ | ⟨page', -⟩⟩ := (targetOf_eq_iff differ).mp same
        · obtain ⟨other, again⟩ := isDocument_iff.mp document
          exact document_ne_page other stem (again.symm.trans page')
        · obtain ⟨other, again⟩ := isDocument_iff.mp documentL
          exact document_ne_page other stem (again.symm.trans page')
  rw [← sameConfig] at writes
  have written := get?_afterAll_of_last writes last
  rwa [sameConfig, ← output, ← whole] at written

/-- What the output holds after a build that spares its sources and templates. Every copy holds the
text of its file. A page holds the text of its own document in its template, unless a file with the
path of the page was copied, and then it holds that file. Two listed files have one path in the
output only if one is a document and the other one has the path of its page. -/
theorem build_outputs {report : BuildReport} (reached : Reached config site)
    (listed : site.files.list config.sourceFolder = .ok sources)
    (reported : site.build.report = .ok report)
    (templates : SparesTemplates config sources) (spares : SparesSources config sources) :
    (∀ source ∈ report.copied, ∃ text,
      site.files.get? (Path.join config.sourceFolder source) = some text
        ∧ site.build.site.files.get? (Path.join config.outputFolder source) = some text)
    ∧ (∀ page ∈ report.pages, ∃ html, Renders config site.files page html
      ∧ (page.output ∉ report.copied →
        site.build.site.files.get? (Path.join config.outputFolder page.output) = some html)
      ∧ (page.output ∈ report.copied →
        site.build.site.files.get? (Path.join config.outputFolder page.output)
          = site.files.get? (Path.join config.sourceFolder page.output)))
    ∧ ∀ first ∈ sources, ∀ later ∈ sources, first ≠ later →
      (Path.join config.outputFolder (targetOf first)
          = Path.join config.outputFolder (targetOf later) ↔
        ∃ stem, (first = stem ++ documentEnding ∧ later = stem ++ pageEnding)
          ∨ (first = stem ++ pageEnding ∧ later = stem ++ documentEnding)) := by
  have settled := reached.settled
  have found := listed
  rw [← settled.config_eq] at found
  obtain ⟨done, all⟩ := build_of_list found
  obtain rfl := Except.ok.inj (reported.symm.trans all)
  rw [done]
  have copies : ∀ source ∈ (reportOf (builds sources site.cleared)).copied, _ :=
    fun source copied => copy_written settled listed spares copied
  refine ⟨copies, fun page inReport => ?_, fun first inF later inL differ => ?_⟩
  · obtain ⟨html, renders, free⟩ := page_written settled listed templates inReport
    refine ⟨html, renders, free, fun copied => ?_⟩
    obtain ⟨text, ofSource, ofCopy⟩ := copies page.output copied
    rw [ofSource, ofCopy]
  · have areF := ((Files.mem_list_iff settled.filed listed).mp inF).1
    have areL := ((Files.mem_list_iff settled.filed listed).mp inL).1
    rw [join_targetOf_eq_iff _ areF areL, targetOf_eq_iff differ]

/-- A site with a document and a file that has the path of its page. -/
def collision : Site :=
  ofFiles ⟨"content".toList, "public".toList, "templates".toList, "page".toList, []⟩
    (Files.writeAll
      [("templates/page.html".toList, "\x7b\x7bbody\x7d\x7d".toList),
        ("content/a.agm".toList, "x".toList),
        ("content/a.html".toList, "y".toList)] {})

theorem build_outputs_collision :
    Reached collision.config collision
      ∧ ∃ sources report, collision.files.list collision.config.sourceFolder = .ok sources
        ∧ collision.build.report = .ok report
        ∧ SparesTemplates collision.config sources ∧ SparesSources collision.config sources
        ∧ ∀ page ∈ report.pages, page.output ∈ report.copied →
          collision.build.site.files.get?
              (Path.join collision.config.outputFolder page.output)
            = collision.files.get? (Path.join collision.config.sourceFolder page.output) := by
  have reached : Reached collision.config collision := reached_writeAll .start (by decide)
  obtain ⟨sources, listed, -, reported⟩ := build_eq_ok reached.settled (by decide)
  have templates : SparesTemplates collision.config sources :=
    sparesTemplates_of_apart reached.settled.filed listed (by decide)
  have spares : SparesSources collision.config sources :=
    sparesSources_of_apart reached.settled.filed listed (by decide) (by decide)
  obtain ⟨-, pages, -⟩ := build_outputs reached listed reported templates spares
  refine ⟨reached, sources, _, listed, reported, templates, spares, fun page inReport => ?_⟩
  obtain ⟨html, -, -, lost⟩ := pages page inReport
  exact lost

/-- The build of that site reports the page and the copy and no failure, and the page is lost. -/
theorem build_loses_page :
    (collision.build.report.map fun report =>
        (report.pages.map Page.output, report.copied, report.failures))
      = .ok (["a.html".toList], ["a.html".toList], [])
    ∧ (collision.pageOf "a.agm".toList "x".toList).map (fun made => made.2.1)
      = .ok "<section><p>x</p></section>".toList
    ∧ collision.build.site.files.get? "public/a.html".toList = some "y".toList := by
  have listed : collision.files.list collision.config.sourceFolder
      = .ok ["a.agm".toList, "a.html".toList] := by cbv
  have made : ((builds ["a.agm".toList, "a.html".toList] collision.cleared).filterMap
      Built.page?).map Page.output = ["a.html".toList] := by decide +kernel
  have others : ((builds ["a.agm".toList, "a.html".toList] collision.cleared).filterMap
        Built.copied?,
      (builds ["a.agm".toList, "a.html".toList] collision.cleared).filterMap Built.failure?)
      = (["a.html".toList], []) := by decide +kernel
  obtain ⟨done, report⟩ := build_of_list listed
  obtain ⟨page, only, output⟩ := List.map_eq_singleton_iff.mp made
  refine ⟨?_, by decide +kernel, ?_⟩
  · rw [report, only, Page.sort, List.mergeSort_singleton]
    exact congrArg Except.ok (Prod.ext (congrArg (List.cons · []) output) others)
  · rw [done]
    decide +kernel

end MarkPress.Site
