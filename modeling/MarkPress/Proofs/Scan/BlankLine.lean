/-
Module: MarkPress.Proofs.Scan.BlankLine
Purpose: Blank lines between sources without brackets and any other source.
  Behind a blank line a scan that has nothing open stands at the beginning of a paragraph, and what
  has been laid out before it is the output of the source before the blank line. So the output of
  two sources with a blank line between them is that of the first one, without the end of its last
  section, and what the second one adds.
Main exports:
  Scan.ended, Scan.Between, finish_eq, Scan.Spaced, step_spaced, Scan.Quiet, steps_quiet,
  Scan.Rests, Rests.blankLine, Rests.apart
-/
import MarkPress.Proofs.Scan.Continuation

namespace MarkPress.Scan

open Html

variable {s s' t : Scan} {calm : Prop}

/-! ### Behind the last paragraph or list -/

/-- The scan behind its last paragraph or list. -/
def ended (s : Scan) : Scan := if s.listLevel = 0 then s.endParagraph else s.changeLevel 0

/-- Between two blocks of a section, outside of lists. -/
structure Between (s : Scan) : Prop where
  laid : s.Laid .blocks
  grounded : s.Grounded
  paragraphOpen : s.paragraphOpen = false
  listLevel : s.listLevel = 0

theorem Flat.ended (flat : s.Flat) (coherent : s.Coherent calm) (bottom : s.openRegions = []) :
    s.ended.Between := by
  have grounded := coherent.sound.grounded
  by_cases outside : s.listLevel = 0
  · rw [Scan.ended, if_pos outside]
    have laid : s.Laid .prose := flat.laid_prose outside bottom
    exact {
      laid := laid.endParagraph (by decide)
      grounded := (Steady.refl grounded : Steady False s s).endParagraph.grounded
      paragraphOpen := rfl
      listLevel := outside }
  · rw [Scan.ended, if_neg outside]
    obtain ⟨laid, closed⟩ := flat.changeLevel coherent.sound coherent.writable bottom 0
    have entered : s.enterList = s := if_neg outside
    exact {
      laid := laid
      grounded := by
        rw [Scan.changeLevel, entered]
        exact grounded.of_labels (labels_put _ { s with listLevel := 0 }) rfl
      paragraphOpen := closed
      listLevel := rfl }

/-- A paragraph begins behind the last paragraph or list. -/
theorem leaveParagraph_eq (flat : s.Flat) (coherent : s.Coherent calm)
    (bottom : s.openRegions = []) :
    (if s.listLevel ≠ 0 then s.closeLists else .ok s.openParagraph)
      = .ok s.ended.openParagraph := by
  by_cases outside : s.listLevel = 0
  · have isOpen : s.paragraphOpen = true := flat.paragraph.mpr ⟨outside, bottom⟩
    rw [if_neg (by simp [outside]), ended, if_pos outside]
    congr 1
    rw [openParagraph, if_pos isOpen]
    rfl
  · have takes := coherent.sound.takesText coherent.writable
    rw [if_pos outside, closeLists, setListLevel_eq takes (Ne.symm outside), ended,
      if_neg outside]
    rfl

theorem finish_of_none (none : s.opened = []) :
    s.finish = s.closeLists >>= fun s => .ok (s.endParagraph.push .sectionEnd) := by
  rw [finish, none]
  rfl

/-- The end of a source where no tag is open. -/
theorem finish_eq (flat : s.Flat) (coherent : s.Coherent calm) (none : s.opened = []) :
    s.finish = .ok (if s.listLevel = 0 then s.ended.push .sectionEnd
      else s.ended.openParagraph.endParagraph.push .sectionEnd) := by
  have bottom : s.openRegions = [] := by rw [openRegions, none]; rfl
  have leaves := leaveParagraph_eq flat coherent bottom
  rw [finish_of_none none]
  by_cases outside : s.listLevel = 0
  · have stays : s.closeLists = .ok s := if_pos outside.symm
    rw [stays, if_pos outside, ended, if_pos outside]
    rfl
  · rw [if_pos outside] at leaves
    rw [leaves, if_neg outside]
    rfl

/-! ### The output between blocks -/

/-- Behind the blocks of a section the output goes on as it would there alone. -/
theorem Between.html_append (between : s.Between) (more : List Region) :
    Export.htmlIn [] (s.regions ++ more)
      = Export.htmlIn [] s.regions ++ Export.htmlIn [.sect] more :=
  between.laid.laid.html_append (by decide) more

theorem output_finish (flat : s.Flat) (coherent : s.Coherent calm) (none : s.opened = []) :
    output [] s.finish = .ok (Export.htmlIn [] s.ended.regions ++ "</section>".toList) := by
  have bottom : s.openRegions = [] := by rw [openRegions, none]; rfl
  have between := flat.ended coherent bottom
  rw [finish_eq flat coherent none, output]
  split
  · rw [regions_push, between.html_append]
    have last : Export.htmlIn [.sect] [.ofTag .sectionEnd] = "</section>".toList := by decide
    rw [last]
  · rw [regions_push, regions_endParagraph, regions_openParagraph between.paragraphOpen,
      List.append_assoc, List.append_assoc, between.html_append]
    have last : Export.htmlIn [.sect] ([.ofTag .paragraphBegin, .ofTag .text]
        ++ ([.ofTag .paragraphEnd] ++ [.ofTag .sectionEnd])) = "</section>".toList := by decide
    rw [last]

/-! ### Blank lines -/

/-- Since it began a paragraph behind another scan, a scan has only read lines. -/
def Resumes (t s : Scan) : Prop :=
  s = { t.openParagraph with
    rest := s.rest, blankRun := s.blankRun, lineBlank := s.lineBlank, indent := s.indent
    skipWhitespace := s.skipWhitespace }

/-- Since the last line break nothing but white space has been read, and behind two of them a
paragraph begins. -/
structure Spaced (s : Scan) : Prop where
  line : s.blankRun ≠ 0 → s.lineBlank = true ∧ s.escaped = false
  paragraph : 2 ≤ s.blankRun → ∃ t, t.Between ∧ Resumes t s

theorem Spaced.of_visible (visible : s.blankRun = 0) : s.Spaced where
  line := by simp [visible]
  paragraph := by simp [visible]

/-- The end of the last paragraph or list changes regions and flags of the paragraph alone. -/
theorem ended_same (s : Scan) :
    s.ended.blankRun = s.blankRun ∧ s.ended.escaped = s.escaped ∧ s.ended.opened = s.opened := by
  rw [ended]
  split
  · exact ⟨rfl, rfl, rfl⟩
  · rename_i inside
    have entered : s.enterList = s := if_neg inside
    rw [changeLevel, entered]
    exact ⟨rfl, rfl, rfl⟩

/-- A line has begun. -/
structure LineBegins (s s' : Scan) : Prop where
  spaced : s'.Spaced
  blankRun : s'.blankRun = s.blankRun + 1
  indent : s'.indent = 0
  lineBlank : s'.lineBlank = true
  skipWhitespace : s'.skipWhitespace = false
  opened : s'.opened.Sublist s.opened
  noLine : ∀ o ∈ s'.opened, o.tag.isSingleLine = false

/-- A line break behind the tags that end with their line. -/
def breakLine (s : Scan) : Outcome := do
  let s := { s with blankRun := s.blankRun + 1 }
  let s ←
    if s.blankRun = 1 then .ok { s with pendingSpace := true }
    else if s.blankRun = 2 then
      if s.listLevel ≠ 0 then s.closeLists else .ok s.openParagraph
    else .ok s
  return { s with lineBlank := true, indent := 0, skipWhitespace := false }

theorem newline_eq (s : Scan) :
    s.newline = closeAll ((s.opened.map OpenTag.tag).filter Tag.isSingleLine) s >>= breakLine :=
  rfl

theorem breakLine_first (first : s.blankRun = 0) :
    s.breakLine = .ok { s with
      blankRun := 1, pendingSpace := true, lineBlank := true, indent := 0
      skipWhitespace := false } := by
  simp only [breakLine, first]
  rfl

theorem breakLine_later (later : 2 ≤ s.blankRun) :
    s.breakLine = .ok { s with
      blankRun := s.blankRun + 1, lineBlank := true, indent := 0, skipWhitespace := false } := by
  have notFirst : s.blankRun + 1 ≠ 1 := by omega
  have notSecond : s.blankRun + 1 ≠ 2 := by omega
  simp only [breakLine, if_neg notFirst, if_neg notSecond]
  rfl

/-- The second line break in a row begins a paragraph. -/
theorem breakLine_second (flat : s.Flat) (coherent : s.Coherent calm) (bottom : s.openRegions = [])
    (second : s.blankRun = 1) :
    s.breakLine = .ok { ({ s with blankRun := 2 } : Scan).ended.openParagraph with
      lineBlank := true, indent := 0, skipWhitespace := false } := by
  have flat₂ : Flat { s with blankRun := 2 } := flat.flags rfl rfl rfl rfl rfl fun _ => id
  have coherent₂ : Coherent calm { s with blankRun := 2 } :=
    coherent.flags rfl (fun _ => id) rfl rfl { coherent.control with }
  have leaves := leaveParagraph_eq flat₂ coherent₂ bottom
  rw [breakLine, second]
  dsimp only
  rw [if_neg (by decide), if_pos rfl]
  by_cases outside : s.listLevel ≠ 0
  · rw [if_pos outside] at leaves ⊢
    rw [leaves]
    rfl
  · rw [if_neg outside, Except.ok.injEq] at leaves
    rw [if_neg outside, leaves]
    rfl

theorem newline_spaced (flat : s.Flat) (coherent : s.Coherent calm) (spaced : s.Spaced)
    (unescaped : s.escaped = false) (headings : ∀ o ∈ s.openRegions, o.tag.isHeading = true) :
    Meets (Refused calm) s.LineBegins s.newline := by
  rw [newline_eq]
  by_cases paused : 2 ≤ s.blankRun
  · -- no tag that ends with its line is open, so nothing ends
    obtain ⟨lineBlank, -⟩ := spaced.line (by omega)
    have noLine := coherent.control.blank lineBlank
    have tags : (s.opened.map OpenTag.tag).filter Tag.isSingleLine = [] := by
      rw [List.filter_eq_nil_iff]
      intro tag member
      obtain ⟨o, isOpened, rfl⟩ := List.mem_map.mp member
      simp [noLine o isOpened]
    have ends : (closeAll ((s.opened.map OpenTag.tag).filter Tag.isSingleLine) s >>= breakLine)
        = s.breakLine := by rw [tags]; rfl
    rw [ends, breakLine_later paused]
    obtain ⟨t, between, resumes⟩ := spaced.paragraph paused
    exact {
      spaced := {
        line := fun _ => ⟨rfl, unescaped⟩
        paragraph := fun _ => ⟨t, between, by
          rw [Resumes] at resumes ⊢
          rw [resumes]⟩ }
      blankRun := rfl
      indent := rfl
      lineBlank := rfl
      skipWhitespace := rfl
      opened := List.Sublist.refl _
      noLine := noLine }
  · have steady : Meets (fun _ => True) (Steady False s)
        (closeAll ((s.opened.map OpenTag.tag).filter Tag.isSingleLine) s) :=
      closeAll_steady _ coherent.sound.grounded
    apply Meets.bind (((closeLines_flat flat coherent headings).and
      (closeLines_meets coherent)).also steady)
    rintro s₁ ⟨⟨flat₁, coherent₁, closes, noLine⟩, steady⟩
    have unescaped₁ : s₁.escaped = false := steady.escaped.trans unescaped
    have bottom : s₁.openRegions = [] := by
      rw [List.eq_nil_iff_forall_not_mem]
      intro o member
      have fewer : s₁.openRegions.Sublist s.openRegions := closes.opened.filterMap _
      have single := Tag.isSingleLine_of_isHeading (headings o (fewer.subset member))
      rw [noLine _ (mem_openRegions.mp member)] at single
      cases single
    by_cases first : s.blankRun = 0
    · rw [breakLine_first (steady.blankRun.trans first)]
      exact {
        spaced := ⟨fun _ => ⟨rfl, unescaped₁⟩, fun many => by simp at many⟩
        blankRun := by simp [first]
        indent := rfl
        lineBlank := rfl
        skipWhitespace := rfl
        opened := closes.opened
        noLine := noLine }
    · have second : s₁.blankRun = 1 := by
        rw [steady.blankRun]
        omega
      have flat₂ : Flat { s₁ with blankRun := 2 } := flat₁.flags rfl rfl rfl rfl rfl fun _ => id
      have coherent₂ : Coherent calm { s₁ with blankRun := 2 } :=
        coherent₁.flags rfl (fun _ => id) rfl rfl { coherent₁.control with }
      have between := flat₂.ended coherent₂ bottom
      obtain ⟨blankRun, escaped, opened⟩ := ended_same { s₁ with blankRun := 2 }
      rw [breakLine_second flat₁ coherent₁ bottom second]
      generalize ({ s₁ with blankRun := 2 } : Scan).ended = t at between blankRun escaped opened
      have same := openParagraph_opened t
      have lines : Steady False t t.openParagraph := (Steady.refl between.grounded).openParagraph
      exact {
        spaced := {
          line := fun _ => ⟨rfl, (lines.escaped.trans escaped).trans unescaped₁⟩
          paragraph := fun _ => ⟨t, between, rfl⟩ }
        blankRun := (lines.blankRun.trans blankRun).trans (by rw [← steady.blankRun, second])
        indent := rfl
        lineBlank := rfl
        skipWhitespace := rfl
        opened := by
          change t.openParagraph.opened.Sublist s.opened
          rw [same, opened]
          exact closes.opened
        noLine := by
          change ∀ o ∈ t.openParagraph.opened, _
          rw [same, opened]
          exact noLine }

theorem Spaced.flags (spaced : s.Spaced) (same : s' = { s with
    rest := s'.rest, indent := s'.indent }) : s'.Spaced where
  line := by
    rw [same]
    exact spaced.line
  paragraph many := by
    rw [same] at many
    obtain ⟨t, between, resumes⟩ := spaced.paragraph many
    refine ⟨t, between, ?_⟩
    rw [Resumes] at resumes ⊢
    rw [same, resumes]

theorem newest_of_spaced (spaced : s.Spaced) (many : 2 ≤ s.blankRun) :
    ∃ entry older, s.arena = entry :: older ∧ entry.region.tag = .text := by
  obtain ⟨t, between, resumes⟩ := spaced.paragraph many
  rw [resumes]
  exact ⟨_, _, rfl, rfl⟩

/-- Characters that are read on a line leave it as it is. -/
theorem Spaced.advances (spaced : s.Spaced) (few : s.blankRun < 2) (advances : s.Advances s') :
    s'.Spaced where
  line := by
    rw [advances.blankRun, advances.lineBlank, advances.escaped]
    exact spaced.line
  paragraph many := by
    rw [advances.blankRun] at many
    omega

theorem whitespace_spaced (spaced : s.Spaced) (c : Char) : (s.whitespace c).Spaced := by
  by_cases visible : s.blankRun = 0
  · apply Spaced.of_visible
    rw [whitespace_eq]
    exact visible
  · obtain ⟨lineBlank, -⟩ := spaced.line visible
    rw [whitespace, if_pos lineBlank]
    exact spaced.flags rfl

/-- Every step keeps count of the lines. -/
theorem step_spaced (flat : s.Flat) (coherent : s.Coherent calm) (spaced : s.Spaced) :
    Meets (fun _ => True) Spaced s.step := by
  have grounded := coherent.sound.grounded
  refine step_keeps coherent.writable spaced fun {c rest} next => ?_
  have some : s.rest ≠ [] := by simp [next]
  have unescaped : Grounded { s with escaped := false } := grounded.of_labels rfl rfl
  exact {
    verbatim := by
      intro region newest verbatim
      have few : s.blankRun < 2 := by
        by_contra many
        obtain ⟨other, _, split, text⟩ := newest_of_spaced spaced (Nat.not_lt.mp many)
        rw [current, split, Except.ok.injEq] at newest
        rw [← newest, text] at verbatim
        cases verbatim
      exact (verbatimStep_follows grounded Frame.breaks_empty some c).meets.mono
        fun _ => spaced.advances few
    escaped := by
      intro isEscaped
      have visible : s.blankRun = 0 := by
        by_contra lines
        rw [(spaced.line lines).2] at isEscaped
        cases isEscaped
      exact (literal_advances unescaped some c).mono
        fun _ advances => .of_visible (advances.blankRun.trans visible)
    newline := by
      intro region newest plain unescaped _
      have headings := flat.open_heading_of_current coherent newest plain
      refine Meets.bind (newline_spaced flat coherent spaced unescaped headings).if_ok ?_
      exact fun s₁ line => line.spaced.flags rfl
    gap := (whitespace_spaced spaced c).flags rfl
    rule := fun _ _ => Meets.bind (meets_true _) fun s₁ _ => Spaced.of_visible rfl
    solid := (solidStep_follows grounded Frame.breaks_empty some c).meets.mono
      fun _ met => .of_visible met.2 }

/-! ### Sources without brackets -/

/-- What holds between two steps of a scan over a source without brackets. -/
structure Quiet (s : Scan) : Prop where
  flat : s.Flat
  coherent : s.Coherent True
  spaced : s.Spaced
  unfinished : s.finished = false

/-- A source without brackets has been read to its end, and only tags are open that end with their
line. -/
structure Rests (s : Scan) : Prop where
  quiet : s.Quiet
  read : s.rest = []
  lines : ∀ o ∈ s.opened, o.tag.isSingleLine = true
  unescaped : s.escaped = false

theorem Quiet.bottom (quiet : s.Quiet) (lines : ∀ o ∈ s.opened, o.tag.isSingleLine = true) :
    ∀ o ∈ s.openRegions, o.tag.isHeading = true := fun _ member =>
  Tag.isHeading_of_isSingleLine (lines _ (mem_openRegions.mp member))
    (quiet.coherent.sound.isRegion_of_open member)

theorem step_quiet (quiet : s.Quiet) : Meets (Refused True) Quiet s.step :=
  Meets.mono (((step_flat quiet.flat quiet.coherent).and (step_meets quiet.coherent)).also
    (step_spaced quiet.flat quiet.coherent quiet.spaced))
    fun _ ⟨⟨flat, goes⟩, spaced⟩ => ⟨flat, goes.1, spaced, goes.2.finished.trans quiet.unfinished⟩

theorem steps_quiet (n : Nat) (quiet : s.Quiet) : Meets (Refused True) Quiet (s.steps n) :=
  steps_keeps step_quiet n quiet

theorem newline_quiet (quiet : s.Quiet) (unescaped : s.escaped = false)
    (headings : ∀ o ∈ s.openRegions, o.tag.isHeading = true) :
    Meets (Refused True) (fun s' => s'.Quiet ∧ s.LineBegins s' ∧ s.Stays s') s.newline := by
  have lines := newline_spaced quiet.flat quiet.coherent quiet.spaced unescaped headings
  have stays := newline_stays quiet.coherent.sound.grounded
  refine Meets.mono ((((newline_flat quiet.flat quiet.coherent headings).and
    (newline_meets quiet.coherent)).and lines).also stays) ?_
  rintro s' ⟨⟨⟨flat, goes⟩, line⟩, stays⟩
  exact ⟨⟨flat, goes.1, line.spaced, goes.2.finished.trans quiet.unfinished⟩, line, stays⟩

/-! ### The output behind a blank line -/

theorem ended_regions (arena : s'.arena = s.arena) (listLevel : s'.listLevel = s.listLevel) :
    s'.ended.regions = s.ended.regions := by
  rw [ended, ended, listLevel]
  split
  · rw [regions_endParagraph, regions_endParagraph, regions, regions, arena]
  · rename_i inside
    have inside' : ¬ s'.listLevel = 0 := by rwa [listLevel]
    have entered : s.enterList = s := if_neg inside
    have entered' : s'.enterList = s' := if_neg inside'
    rw [changeLevel, changeLevel, entered, entered', listLevel, regions, regions, put, put]
    simp only [arena]

/-- The paragraph that has begun is empty. -/
theorem Resumes.html (between : t.Between) (resumes : Resumes t s) :
    Export.htmlIn [] s.ended.regions = Export.htmlIn [] t.regions := by
  have outside : s.listLevel = 0 := by
    rw [resumes]
    exact (openParagraph_listLevel t).trans between.listLevel
  have regions : s.regions = t.openParagraph.regions := by
    rw [resumes]
    rfl
  rw [ended, if_pos outside, regions_endParagraph, regions,
    regions_openParagraph between.paragraphOpen, List.append_assoc, between.html_append]
  have empty : Export.htmlIn [.sect] ([.ofTag .paragraphBegin, .ofTag .text]
      ++ [.ofTag .paragraphEnd]) = [] := by decide
  rw [empty, List.append_nil]

theorem breakLine_html (flat : s.Flat) (coherent : s.Coherent calm) (bottom : s.openRegions = [])
    (broken : s.breakLine = .ok s') :
    Export.htmlIn [] s'.ended.regions = Export.htmlIn [] s.ended.regions := by
  by_cases first : s.blankRun = 0
  · rw [breakLine_first first, Except.ok.injEq] at broken
    rw [← broken]
    exact congrArg (Export.htmlIn []) (ended_regions rfl rfl)
  · by_cases second : s.blankRun = 1
    · have flat₂ : Flat { s with blankRun := 2 } := flat.flags rfl rfl rfl rfl rfl fun _ => id
      have coherent₂ : Coherent calm { s with blankRun := 2 } :=
        coherent.flags rfl (fun _ => id) rfl rfl { coherent.control with }
      rw [breakLine_second flat coherent bottom second, Except.ok.injEq] at broken
      have resumes : Resumes ({ s with blankRun := 2 } : Scan).ended s' := by
        rw [← broken]
        rfl
      rw [resumes.html (flat₂.ended coherent₂ bottom)]
      exact congrArg (Export.htmlIn []) (ended_regions rfl rfl)
    · rw [breakLine_later (by omega), Except.ok.injEq] at broken
      rw [← broken]
      exact congrArg (Export.htmlIn []) (ended_regions rfl rfl)

/-- A line break behind a source does not change its output. -/
theorem newline_output (quiet : s.Quiet) (lines : ∀ o ∈ s.opened, o.tag.isSingleLine = true)
    (unescaped : s.escaped = false) :
    ∃ s', s.newline = .ok s' ∧ s'.Quiet ∧ s.LineBegins s' ∧ s.Stays s' ∧ s'.opened = []
      ∧ output [] s'.finish = output [] s.finish := by
  have meets := newline_quiet quiet unescaped (quiet.bottom lines)
  have all : (s.opened.map OpenTag.tag).filter Tag.isSingleLine = s.opened.map OpenTag.tag := by
    rw [List.filter_eq_self]
    intro tag member
    obtain ⟨o, isOpened, rfl⟩ := List.mem_map.mp member
    exact lines o isOpened
  have closes : Meets (Refused True) _ _ :=
    (closeAll_flat _ quiet.coherent.sound.once quiet.flat quiet.coherent
      (List.Sublist.refl _)).and (closeOpened_meets quiet.coherent)
  rw [newline_eq, all] at meets ⊢
  rw [finish]
  cases closed : closeAll (s.opened.map OpenTag.tag) s with
  | error halt =>
      rw [closed] at closes
      exact absurd trivial closes.1
  | ok s₁ =>
      rw [closed] at closes meets
      obtain ⟨flat₁, coherent₁, -, none⟩ := closes
      have bottom : s₁.openRegions = [] := by rw [openRegions, none]; rfl
      change ∃ s', s₁.breakLine = .ok s' ∧ _
      change Meets _ _ s₁.breakLine at meets
      cases broken : s₁.breakLine with
      | error halt =>
          rw [broken] at meets
          exact absurd trivial meets.1
      | ok s' =>
          rw [broken] at meets
          obtain ⟨quiet', line, stays⟩ := meets
          have none' : s'.opened = [] := by
            rw [List.eq_nil_iff_forall_not_mem]
            intro o member
            have single := lines o (line.opened.subset member)
            rw [line.noLine o member] at single
            cases single
          refine ⟨s', rfl, quiet', line, stays, none', ?_⟩
          have ends : output [] s₁.finish = _ := output_finish flat₁ coherent₁ none
          rw [finish_of_none none] at ends
          change _ = output [] (s₁.closeLists >>= _)
          refine (output_finish quiet'.flat quiet'.coherent none').trans (.trans ?_ ends.symm)
          congr 2
          exact breakLine_html flat₁ coherent₁ bottom broken

/-! ### A source behind a blank line -/

theorem inside_line (behind : Text) (s : Scan) :
    s.inside (.line behind) = { s with rest := s.rest ++ behind } := by
  have entries : Entry.renumber 0 = id := by
    funext entry
    simp [Entry.renumber]
  have tags : OpenTag.renumber 0 = id := by
    funext o
    simp [OpenTag.renumber]
  simp [inside, Frame.line, Frame.around, Arena.renumber, entries, tags]

/-- Where only tags are open that end with their line, the newest region is not verbatim. -/
theorem Quiet.plain (quiet : s.Quiet) (lines : ∀ o ∈ s.opened, o.tag.isSingleLine = true) :
    ∃ entry older, s.arena = entry :: older ∧ entry.region.tag.traits.isVerbatim = false := by
  have sound := quiet.coherent.sound
  obtain ⟨entry, older, split, isText | isOpen⟩ := quiet.coherent.writable
  · refine ⟨entry, older, split, ?_⟩
    have tag : entry.region.tag = .text := isText
    rw [tag]
    rfl
  · obtain ⟨o, member, serial⟩ := isOpen_iff.mp isOpen
    obtain ⟨e, eMember, eSerial, eTag⟩ := sound.entry_of_open member
    have same : e = entry := sound.entry_unique eMember (by simp [split]) (eSerial.trans serial)
    have tag : entry.region.tag = o.tag := same ▸ eTag
    have heading := quiet.bottom lines o member
    refine ⟨entry, older, split, ?_⟩
    rw [tag]
    generalize o.tag = tag at heading
    cases tag <;> first | rfl | cases heading

/-- A line break in the text behind the source is read like one at its end. -/
theorem step_line (quiet : s.Quiet) (lines : ∀ o ∈ s.opened, o.tag.isSingleLine = true)
    (unescaped : s.escaped = false) (read : s.rest = []) {s' : Scan} (broken : s.newline = .ok s')
    (stays : s.Stays s') (behind : Text) :
    complete (s.inside (.line ('\n' :: behind))) = complete (s'.inside (.line behind)) := by
  obtain ⟨entry, older, split, plain⟩ := quiet.plain lines
  have grounded := quiet.coherent.sound.grounded
  have framed := grounded.inside (Frame.line_firm ('\n' :: behind))
  have restEq : (s.inside (.line ('\n' :: behind))).rest = '\n' :: behind := by
    rw [inside_line, read]
    rfl
  have splitEq : (s.inside (.line ('\n' :: behind))).arena = entry :: older := by
    rw [inside_line]
    exact split
  have unescaped' : (s.inside (.line ('\n' :: behind))).escaped = false := unescaped
  have follows : Follows (.line ('\n' :: behind)) s.Stays s.newline
      (s.inside (.line ('\n' :: behind))).newline := newline_follows grounded
  rw [complete_step framed (by simp [restEq]), step_eq splitEq restEq, if_neg (by simp [plain]),
    if_neg (by simp [unescaped']), if_pos rfl]
  rw [broken] at follows
  cases framedNewline : (s.inside (.line ('\n' :: behind))).newline with
  | error halt =>
      rw [framedNewline] at follows
      exact follows.elim
  | ok t =>
      rw [framedNewline] at follows
      obtain ⟨rfl, -⟩ := follows
      have advanced : (s'.inside (.line ('\n' :: behind))).advance 1
          = s'.inside (.line behind) := by
        rw [inside_line, inside_line, advance, stays.rest, read]
        rfl
      change ((s'.inside (.line ('\n' :: behind))).advance 1).complete = _
      rw [advanced]

theorem openParagraph_flags (closed : s.paragraphOpen = false) (rest : Text)
    (blankRun indent : Nat) (lineBlank skipWhitespace : Bool) :
    { s.openParagraph with
        rest := rest, blankRun := blankRun, lineBlank := lineBlank, indent := indent
        skipWhitespace := skipWhitespace }
      = openParagraph { s with
          rest := rest, blankRun := blankRun, lineBlank := lineBlank, indent := indent
          skipWhitespace := skipWhitespace } := by
  simp only [openParagraph, closed, if_false, Bool.false_eq_true]
  rfl

theorem openParagraph_of_closed (closed : s.paragraphOpen = false) :
    s.openParagraph = { s with
      arena := ⟨s.nextSerial + 1, .ofTag .text⟩ :: ⟨s.nextSerial, .ofTag .paragraphBegin⟩ :: s.arena
      nextSerial := s.nextSerial + 2
      paragraphOpen := true, atBlockStart := true, pendingSpace := false } := by
  simp only [openParagraph, closed, if_false, Bool.false_eq_true]
  rfl

/-- A scan that resumes another one, with no tag open, has left it with nothing open. -/
theorem Resumes.still (resumes : Resumes t s) (quiet : s.Quiet) (between : t.Between)
    (none : s.opened = []) (unescaped : s.escaped = false) (rest : Text) :
    Still { t with
      rest := rest, blankRun := s.blankRun, lineBlank := true, indent := 0
      skipWhitespace := false } := by
  have outside : s.listLevel = 0 := by
    rw [resumes]
    exact (openParagraph_listLevel t).trans between.listLevel
  have closed : Closed { s with paragraphOpen := false } :=
    Control.closed { quiet.coherent.control with } quiet.coherent.anchored none outside rfl
  have whole := quiet.coherent.whole trivial
  have unfinished := quiet.unfinished
  have same := resumes
  rw [Resumes, openParagraph_of_closed between.paragraphOpen] at same
  exact {
    opened := (congrArg Scan.opened same).symm.trans none
    exclusive := (congrArg Scan.exclusive same).symm.trans closed.exclusive
    listLevel := between.listLevel
    bracketDepth := (congrArg Scan.bracketDepth same).symm.trans closed.bracketDepth
    afterFence := (congrArg Scan.afterFence same).symm.trans closed.afterFence
    anchor := (congrArg Scan.headingAnchorOpen same).symm.trans closed.anchor
    paragraphOpen := between.paragraphOpen
    detached := (congrArg Scan.detached same).symm.trans whole
    escaped := (congrArg Scan.escaped same).symm.trans unescaped
    lineBlank := rfl
    skipWhitespace := rfl
    finished := (congrArg Scan.finished same).symm.trans unfinished }

/-- Behind two line breaks nothing is left of the first source but its output and the names that it
has given. -/
theorem output_resumes (quiet : s.Quiet) (between : t.Between) (resumes : Resumes t s)
    (none : s.opened = []) (read : s.rest = []) (lineBlank : s.lineBlank = true)
    (indent : s.indent = 0) (skipWhitespace : s.skipWhitespace = false)
    (unescaped : s.escaped = false) (behind : Text) :
    output [] (s.inside (.line behind)).complete
      = (continuation s.anchorIds behind).map (Export.htmlIn [] t.regions ++ ·) := by
  let t' : Scan := { t with
    rest := behind, blankRun := s.blankRun, lineBlank := true, indent := 0
    skipWhitespace := false }
  have grounded : t'.Grounded := between.grounded.of_labels rfl rfl
  have sEq : s.inside (.line behind) = t'.openParagraph := by
    rw [← openParagraph_flags between.paragraphOpen, inside_line, read]
    conv_lhs => rw [resumes]
    rw [lineBlank, indent, skipWhitespace]
    rfl
  have still : t'.Still := resumes.still quiet between none unescaped behind
  have opens := openParagraph_eq_inside grounded still
  have follows := complete_inside
    (atParagraph_grounded t'.anchorIds t'.blankRun t'.indent false t'.rest) grounded.firm rfl
  have laid : Zone.margin.Lays (grounded.base.older.map Entry.region).reverse .blocks :=
    between.laid.laid
  have anchorIds : t'.anchorIds = s.anchorIds := by
    have same := resumes
    rw [Resumes, openParagraph_of_closed between.paragraphOpen] at same
    exact (congrArg Scan.anchorIds same).symm
  rw [sEq, opens]
  refine (follows.output laid).trans ?_
  rw [output_atParagraph, anchorIds]
  rfl

/-- What is read behind a blank line goes on behind the output of what was read before it. -/
theorem Rests.blankLine (rests : s.Rests) :
    ∃ before, output [] s.finish = .ok (before ++ "</section>".toList)
      ∧ ∀ behind, output [] (s.inside (.line ('\n' :: '\n' :: behind))).complete
        = (continuation s.anchorIds behind).map (before ++ ·) := by
  obtain ⟨quiet, read, lines, unescaped⟩ := rests
  obtain ⟨s₁, broken₁, quiet₁, line₁, stays₁, none₁, output₁⟩ :=
    newline_output quiet lines unescaped
  have unescaped₁ : s₁.escaped = false := by
    have counted := line₁.blankRun
    exact (line₁.spaced.line (by omega)).2
  obtain ⟨s₂, broken₂, quiet₂, line₂, stays₂, none₂, output₂⟩ :=
    newline_output quiet₁ (by simp [none₁]) unescaped₁
  have counted₁ := line₁.blankRun
  have counted₂ := line₂.blankRun
  have unescaped₂ : s₂.escaped = false := (line₂.spaced.line (by omega)).2
  obtain ⟨t, between, resumes⟩ := line₂.spaced.paragraph (by omega)
  have read₁ : s₁.rest = [] := stays₁.rest.trans read
  have read₂ : s₂.rest = [] := stays₂.rest.trans read₁
  refine ⟨Export.htmlIn [] t.regions, ?_, fun behind => ?_⟩
  · rw [← output₁, ← output₂, output_finish quiet₂.flat quiet₂.coherent none₂, resumes.html between]
  · rw [step_line quiet lines unescaped read broken₁ stays₁,
      step_line quiet₁ (by simp [none₁]) unescaped₁ read₁ broken₂ stays₂,
      output_resumes quiet₂ between resumes none₂ read₂ line₂.lineBlank line₂.indent
        line₂.skipWhitespace unescaped₂, stays₂.anchorIds, stays₁.anchorIds]

/-! ### Two sources with a blank line between them -/

variable {issued : List Text} {a b : Text}

theorem startAt_quiet (issued : List Text) (noReturn : '\r' ∉ a) (bare : '[' ∉ a) :
    (startAt issued a).Quiet := by
  have same : startAt issued a = { start a with anchorIds := issued } := by
    rw [start, Text.normalizeBreaks_eq noReturn]
    rfl
  have coherent := start_coherent a
  have named : (startAt issued a).Coherent (Plain a) := by
    rw [same]
    exact coherent.flags rfl (fun _ => id) rfl rfl { coherent.control with }
  exact {
    flat := by
      rw [same]
      exact (start_flat bare).flags rfl rfl rfl rfl rfl fun _ => id
    coherent := { named with
      oneKind := fun _ => named.oneKind (.inl bare)
      whole := fun _ => named.whole (.inl bare) }
    spaced := .of_visible rfl
    unfinished := rfl }

/-- Behind a blank line the output goes on with what the second source adds, given the names that
the first one has given. -/
theorem Rests.apart (rests : s.Rests) (read : (startAt issued a).reading = .ok s) :
    ∃ before, output [] (startAt issued a).complete = .ok (before ++ "</section>".toList)
      ∧ ∀ b, output [] (startAt issued (a ++ '\n' :: '\n' :: b)).complete
        = (continuation s.anchorIds b).map (before ++ ·) := by
  have grounded := startAt_grounded issued a
  obtain ⟨before, whole, goesOn⟩ := rests.blankLine
  refine ⟨before, ?_, fun b => ?_⟩
  · rw [complete, read]
    exact whole
  · have framed : startAt issued (a ++ '\n' :: '\n' :: b)
        = (startAt issued a).inside (.line ('\n' :: '\n' :: b)) := by
      rw [inside_line]
      rfl
    have breaks : (Frame.line ('\n' :: '\n' :: b)).Breaks := by
      intro c first
      cases first
      rfl
    obtain ⟨middle, follows, reads⟩ :=
      reading_inside grounded breaks (grounded.inside (Frame.line_firm _))
    rw [read] at follows
    cases middle with
    | error halt => exact follows.elim
    | ok t =>
        obtain ⟨rfl, -⟩ := follows
        rw [framed, complete, reads]
        exact goesOn b

end MarkPress.Scan
