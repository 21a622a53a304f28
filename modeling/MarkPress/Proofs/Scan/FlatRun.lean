/-
Module: MarkPress.Proofs.Scan.FlatRun
Purpose: A run over a source without brackets.
  Every step leaves the scan flat. At the end of the source everything closes, and the regions lead
  from the margin back to it.
Main exports:
  newline_flat, rule_flat, delimiterOrLiteral_flat, solidStep_flat, step_flat, steps_flat,
  finish_flat, start_flat, run_laid
-/
import MarkPress.Proofs.Scan.FlatTags

namespace MarkPress.Scan

variable {s s' : Scan} {fail : RegionError → Prop} {calm : Prop} {tag : Tag} {serial : Nat}

/-! ### Line breaks and white space -/

/-- Where the newest region is not verbatim, the open regions are headings. -/
theorem Flat.open_heading_of_current (flat : s.Flat) (coherent : s.Coherent calm) {region : Region}
    (newest : s.current = .ok region) (plain : region.tag.traits.isVerbatim = false) :
    ∀ o ∈ s.openRegions, o.tag.isHeading = true := by
  intro o member
  cases split : s.openRegions with
  | nil =>
      rw [split] at member
      cases member
  | cons first others =>
      rw [split] at member
      rcases List.mem_cons.mp member with rfl | later
      · obtain ⟨entry, older, arena, tagEq, -⟩ := flat.front_cons split
        rw [current, arena, Except.ok.injEq] at newest
        rcases flat.open_cases coherent.sound (split ▸ List.mem_cons_self) with block | heading
        · rw [← newest, tagEq, block] at plain
          cases plain
        · exact heading
      · exact (flat.others_heading coherent split).1 o later

/-- The tags that end with their line leave the scan flat. -/
theorem closeLines_flat (flat : s.Flat) (coherent : s.Coherent calm)
    (headings : ∀ o ∈ s.openRegions, o.tag.isHeading = true) :
    Meets (Refused calm) Flat
      (closeAll ((s.opened.map OpenTag.tag).filter Tag.isSingleLine) s) := by
  have atMostOne := coherent.control.single
  have among : ∀ tag ∈ (s.opened.map OpenTag.tag).filter Tag.isSingleLine,
      (∃ o ∈ s.opened, o.tag = tag) ∧ tag.isSingleLine = true := by
    intro tag member
    obtain ⟨mapped, single⟩ := List.mem_filter.mp member
    exact ⟨List.mem_map.mp mapped, single⟩
  generalize (s.opened.map OpenTag.tag).filter Tag.isSingleLine = tags at atMostOne among
  match tags with
  | [] => exact flat
  | [tag] =>
      obtain ⟨active, single⟩ := among tag (by simp)
      have mayEnd : s.MayEnd calm tag :=
        ⟨active, .inr (.inr single), fun _ => .inl single⟩
      have last : tag.traits.isRegion = true →
          ∃ serial others, s.openRegions = ⟨tag, serial⟩ :: others := by
        intro region
        obtain ⟨⟨_, opened⟩, isOpened, rfl⟩ := active
        have hasRegion := coherent.sound.regions _ isOpened
        simp only [region, Option.isSome_iff_exists] at hasRegion
        obtain ⟨serial, rfl⟩ := hasRegion
        have isOpen : (⟨_, serial⟩ : OpenRegion) ∈ s.openRegions := mem_openRegions.mpr isOpened
        cases split : s.openRegions with
        | nil =>
            rw [split] at isOpen
            cases isOpen
        | cons first others =>
            have heading := headings first (by simp [split])
            rw [split, (flat.others_heading coherent split).2 heading, List.mem_singleton] at isOpen
            exact ⟨serial, others, by rw [isOpen]⟩
      rw [closeAll, if_pos (isActive_iff.mpr active)]
      apply Meets.bind (closeTag_flat flat coherent mayEnd last)
      exact fun _ => id
  | first :: second :: rest => simp at atMostOne

theorem newline_flat (flat : s.Flat) (coherent : s.Coherent calm)
    (headings : ∀ o ∈ s.openRegions, o.tag.isHeading = true) :
    Meets (Refused calm) Flat s.newline := by
  rw [newline]
  apply Meets.bind ((closeLines_flat flat coherent headings).and (closeLines_meets coherent))
  rintro s₁ ⟨flat₁, coherent₁, closes, ended⟩
  have bottom : s₁.openRegions = [] := by
    rw [List.eq_nil_iff_forall_not_mem]
    intro o member
    have fewer : s₁.openRegions.Sublist s.openRegions := closes.opened.filterMap _
    have single := Tag.isSingleLine_of_isHeading (headings o (fewer.subset member))
    rw [ended _ (mem_openRegions.mp member)] at single
    cases single
  have counted : Flat { s₁ with blankRun := s₁.blankRun + 1 } :=
    flat₁.flags rfl rfl rfl rfl rfl fun _ => id
  have sound : Sound { s₁ with blankRun := s₁.blankRun + 1 } := coherent₁.sound.congr rfl
  have newLine : ∀ s₂ : Scan, s₂.Flat →
      Flat { s₂ with lineBlank := true, indent := 0, skipWhitespace := false } :=
    fun s₂ flat₂ => flat₂.flags rfl rfl rfl rfl rfl fun _ => id
  dsimp only
  split
  · exact newLine _ (flat₁.flags rfl rfl rfl rfl rfl fun _ => id)
  · split
    · split
      · apply Meets.bind (setListLevel_flat counted sound coherent₁.writable bottom 0)
        exact newLine
      · rename_i outside
        exact newLine _ (openParagraph_flat counted.laid sound bottom (by simpa using outside)
          flat₁.rest flat₁.bare)
    · exact newLine _ counted

theorem whitespace_flat (flat : s.Flat) (c : Char) : (s.whitespace c).Flat := by
  rw [whitespace_eq]
  exact flat.flags rfl rfl rfl rfl rfl fun _ => id

/-- Outside of lists, where no region is open, a paragraph is. -/
theorem Flat.laid_prose (flat : s.Flat) (outside : s.listLevel = 0) (bottom : s.openRegions = []) :
    s.Laid .prose := by
  have inProse : s.zone = .prose := if_pos (flat.paragraph.mpr ⟨outside, bottom⟩)
  exact inProse ▸ flat.laid

theorem rule_flat (flat : s.Flat) (coherent : s.Coherent calm) (bottom : s.openRegions = []) :
    Meets fail Flat s.rule := by
  have sound := coherent.sound
  rw [rule]
  apply Meets.bind ((setListLevel_flat flat sound coherent.writable bottom 0).and
    (closeLists_meets sound coherent.writable))
  rintro s₁ ⟨flat₁, adds, writable₁, outside⟩
  have bottom₁ : s₁.openRegions = [] := (openRegions_congr adds.keeps.opened).trans bottom
  have ruled : (s₁.endParagraph.push .rule).Laid (s₁.endParagraph.push .rule).zone :=
    ((flat₁.laid_prose outside bottom₁).endParagraph (by decide)).push .rule (by decide)
  have sound₁ := (s₁.endParagraph_adds.trans
    (push_adds s₁.endParagraph (show Tag.rule.traits.element ≠ some .p by decide))).sound
      (adds.sound sound)
  have flat₂ := openParagraph_flat ruled sound₁ bottom₁ outside flat₁.rest flat₁.bare
  exact (flat₂.advance 3).flags rfl rfl rfl rfl rfl fun _ => id

theorem literal_flat (flat : s.Flat) (sound : s.Sound) (writable : s.Writable) (c : Char) :
    Meets fail Flat (s.literal c) := by
  rw [literal]
  apply Meets.bind (appendLiteral_flat flat sound writable c)
  exact fun s₁ flat₁ => flat₁.advance 1

/-! ### Delimiters -/

/-- Without a bracket in the text and in the open tags, what begins here needs none. -/
theorem bare_of_opensHere (flat : s.Flat) {atLineStart : Bool}
    (opens : s.opensHere atLineStart tag = true) : tag.IsBare := by
  rw [opensHere] at opens
  cases found : tag.traits.opener with
  | none => simp [found] at opens
  | some opener =>
      simp only [found, Bool.and_eq_true] at opens
      obtain ⟨⟨-, hosts⟩, here⟩ := opens
      constructor
      · intro target
        exact flat.rest ((Text.startsWith_iff.mp here).subset (bracket_mem_opener found target))
      · rintro rfl
        rw [within_url] at hosts
        obtain ⟨host, target, active⟩ := List.any_eq_true.mp hosts
        obtain ⟨o, isOpened, rfl⟩ := isActive_iff.mp active
        exact (flat.bare o isOpened).1 target

/-- A region tag that was opened last has the region opened last. -/
theorem openRegions_of_head (sound : s.Sound) (region : tag.traits.isRegion = true)
    (head : (s.opened.map OpenTag.tag).head? = some tag) :
    ∃ serial others, s.openRegions = ⟨tag, serial⟩ :: others := by
  cases openedEq : s.opened with
  | nil => simp [openedEq] at head
  | cons o rest =>
      obtain ⟨other, opened⟩ := o
      rw [openedEq, List.map_cons, List.head?_cons, Option.some.injEq] at head
      subst head
      have hasRegion := sound.regions ⟨other, opened⟩ (by simp [openedEq])
      simp only [region, Option.isSome_iff_exists] at hasRegion
      obtain ⟨serial, rfl⟩ := hasRegion
      exact ⟨serial, _, by rw [openRegions, openedEq]; rfl⟩

/-- A region tag that ends with a delimiter is exclusive here, so it was opened last. -/
theorem last_of_nextClosing (flat : s.Flat) (coherent : s.Coherent calm)
    (next : s.nextClosing = some tag) (region : tag.traits.isRegion = true) :
    ∃ serial others, s.openRegions = ⟨tag, serial⟩ :: others := by
  obtain ⟨o, isOpened, rfl⟩ : ∃ o ∈ s.opened, o.tag = tag :=
    List.mem_map.mp (List.mem_of_find?_eq_some next)
  rcases (flat.bare o isOpened).region_cases (coherent.sound.openable o isOpened) region with
    block | heading
  · have exclusive := coherent.control.only o isOpened (by simp [block, Tag.traits])
    exact openRegions_of_head coherent.sound region (coherent.control.first _ exclusive).2
  · have several := several_of_nextClosing next
    rw [Tag.isSingleLine_of_isHeading heading] at several
    cases several

theorem delimiterOrLiteral_flat (flat : s.Flat) (coherent : s.Coherent calm) {atLineStart : Bool}
    (visible : s.exclusive = none → s.lineBlank = false)
    (alone : atLineStart = true → ∀ o ∈ s.opened, o.tag.isSingleLine = false)
    (outside : ∀ tag, s.nextOpening atLineStart = some tag → tag.isHeading = true →
      s.listLevel = 0) (c : Char) :
    Meets (Refused calm) Flat (s.delimiterOrLiteral atLineStart c) := by
  rw [delimiterOrLiteral]
  cases nextOpen : s.nextOpening atLineStart with
  | some tag =>
      have mayBegin := mayBegin_of_nextOpening coherent visible alone nextOpen
      have bare : tag.IsBare := by
        rw [nextOpening] at nextOpen
        split at nextOpen
        · cases nextOpen
        · exact bare_of_opensHere flat (List.find?_some nextOpen)
      exact openTag_flat (flat.advance _) (coherent.advance _) (mayBegin.advance _) bare
        (outside tag nextOpen)
  | none =>
      cases nextClose : s.nextClosing with
      | some tag =>
          have mayEnd := mayEnd_of_nextClosing coherent nextClose
          have last := last_of_nextClosing flat coherent nextClose
          exact closeTag_flat (flat.advance _) (coherent.advance _) (mayEnd.advance _) last
      | none => exact literal_flat flat coherent.sound coherent.writable c

/-! ### One step -/

theorem verbatimStep_flat (flat : s.Flat) (coherent : s.Coherent calm)
    (exclusive : s.exclusive ≠ none) (c : Char) : Meets (Refused calm) Flat (s.verbatimStep c) := by
  have unfenced : Flat { s with afterFence := false } :=
    flat.flags rfl rfl rfl rfl rfl fun _ => id
  have none : nextOpening s.lineBlank { s with afterFence := false } = none :=
    nextOpening_of_exclusive exclusive s.lineBlank
  rw [verbatimStep]
  split
  · exact unfenced.advance 1
  · refine delimiterOrLiteral_flat unfenced coherent.unfenced (fun free => absurd free exclusive)
      (fun lineBlank => coherent.control.blank lineBlank) ?_ c
    intro tag next
    rw [none] at next
    cases next

/-- A line that begins a heading where no list ends has no list before it. -/
theorem outside_of_stays
    (stays : ¬ (s.lineBlank && s.listLevel != 0 && s.exclusive.isNone
      && s.nextOpening true != some .listItem) = true)
    (next : s.nextOpening s.lineBlank = some tag) (heading : tag.isHeading = true) :
    s.listLevel = 0 := by
  have single := Tag.isSingleLine_of_isHeading heading
  have free : s.exclusive = none := by
    rw [nextOpening] at next
    split at next
    · cases next
    · rename_i shared
      simpa using shared
  have atLineStart : s.lineBlank = true := by
    rw [nextOpening, free] at next
    have opens := List.find?_some next
    rw [opensHere] at opens
    cases found : tag.traits.opener with
    | none => simp [found] at opens
    | some opener =>
        simp only [found, Bool.and_eq_true, single, Bool.not_true, Bool.false_or] at opens
        exact opens.1.1.2
  have other : tag ≠ .listItem := by
    rintro rfl
    cases heading
  rw [atLineStart] at next
  by_contra inList
  exact stays (by simp [atLineStart, free, next, other, inList])

/-- The first visible character of a line leaves lists that do not go on, so that a heading begins
outside of them. -/
theorem enterSolid_flat (flat : s.Flat) (coherent : s.Coherent calm) :
    Meets fail (fun s' => s'.Flat ∧ ∀ tag, s'.nextOpening s.lineBlank = some tag →
      tag.isHeading = true → s'.listLevel = 0) (s.enterSolid s.lineBlank) := by
  rw [enterSolid]
  split
  · rename_i leaves
    simp only [Bool.and_eq_true, Option.isNone_iff_eq_none] at leaves
    have bottom := flat.bottom coherent leaves.1.2 (coherent.control.blank leaves.1.1.1)
    apply Meets.bind ((setListLevel_flat flat coherent.sound coherent.writable bottom 0).and
      (closeLists_meets coherent.sound coherent.writable))
    rintro s₁ ⟨flat₁, -, -, outside⟩
    exact ⟨flat₁.flags rfl rfl rfl rfl rfl fun _ => id, fun _ _ _ => outside⟩
  · rename_i stays
    exact ⟨flat.flags rfl rfl rfl rfl rfl fun _ => id,
      fun tag next heading => outside_of_stays (s := s) stays next heading⟩

theorem solidStep_flat (flat : s.Flat) (coherent : s.Coherent calm) (c : Char) :
    Meets (Refused calm) Flat (s.solidStep c) := by
  refine solidStep_keeps coherent (enterSolid_flat flat coherent) ?_
  rintro s₁ ⟨flat₁, outside⟩ goes visible alone
  exact {
    escapes := flat₁.flags rfl rfl rfl rfl rfl fun _ member => List.mem_of_mem_drop member
    bracket := by
      intro depth _
      have counted : Flat { s₁ with bracketDepth := depth } :=
        flat₁.flags rfl rfl rfl rfl rfl fun _ => id
      exact literal_flat counted (goes.1.sound.congr rfl) goes.1.writable c
    delimiter := fun _ =>
      delimiterOrLiteral_flat flat₁ goes.1 (fun _ => visible) alone outside c }

/-- Every step of a flat scan leaves it flat. -/
theorem step_flat (flat : s.Flat) (coherent : s.Coherent calm) :
    Meets (Refused calm) Flat s.step := by
  refine step_keeps coherent.writable flat fun {c rest} next => ?_
  have unescaped : Flat { s with escaped := false } :=
    flat.flags rfl rfl rfl rfl rfl fun _ => id
  exact {
    verbatim := fun newest verbatim =>
      verbatimStep_flat flat coherent (exclusive_of_verbatim coherent newest verbatim) c
    escaped := fun _ => literal_flat unescaped (coherent.sound.congr rfl) coherent.writable c
    newline := fun newest plain _ _ =>
      have headings := flat.open_heading_of_current coherent newest plain
      Meets.bind (newline_flat flat coherent headings) fun s₁ flat₁ => flat₁.advance 1
    gap := (whitespace_flat flat c).advance 1
    rule := fun lineBlank free =>
      rule_flat flat coherent (flat.bottom coherent free (coherent.control.blank lineBlank))
    solid := solidStep_flat flat coherent c }

theorem steps_flat (n : Nat) (flat : s.Flat) (coherent : s.Coherent calm) :
    Meets (Refused calm) (fun s' => s'.Flat ∧ s'.Coherent calm) (steps n s) := by
  refine steps_keeps ?_ n ⟨flat, coherent⟩
  rintro s ⟨flat, coherent⟩
  exact Meets.mono ((step_flat flat coherent).and (step_meets coherent))
    fun s₁ ⟨flat₁, goes⟩ => ⟨flat₁, goes.1⟩

/-! ### The end of the source -/

/-- Tags that end in the order opposite to the one in which they were opened leave the scan flat. -/
theorem closeAll_flat (tags : List Tag) (distinct : tags.Nodup) (flat : s.Flat)
    (coherent : s.Coherent calm) (among : (s.opened.map OpenTag.tag).Sublist tags) :
    Meets (Refused calm) Flat (closeAll tags s) := by
  have whole : tags ++ [] = tags := List.append_nil tags
  refine Meets.mono (closeAll_newest ?_ tags (whole.symm ▸ distinct) coherent flat
    (whole.symm ▸ among)) fun _ met => met.1
  intro tag s₁ coherent₁ flat₁ _ head
  exact closeTag_flat flat₁ coherent₁ (mayEnd_of_head coherent₁ head) fun region =>
    openRegions_of_head coherent₁.sound region head

/-- At the end the regions lead back to the margin. -/
theorem finish_flat (flat : s.Flat) (coherent : s.Coherent calm) :
    Meets (Refused calm) (Laid .margin) s.finish := by
  rw [finish]
  apply Meets.bind ((closeAll_flat _ coherent.sound.once flat coherent (List.Sublist.refl _)).and
    (closeOpened_meets coherent))
  rintro s₁ ⟨flat₁, coherent₁, -, opened⟩
  have bottom : s₁.openRegions = [] := by rw [openRegions, opened]; rfl
  apply Meets.bind ((setListLevel_flat flat₁ coherent₁.sound coherent₁.writable bottom 0).and
    (closeLists_meets coherent₁.sound coherent₁.writable))
  rintro s₂ ⟨flat₂, adds, -, outside⟩
  have laid := flat₂.laid_prose outside ((openRegions_congr adds.keeps.opened).trans bottom)
  exact (laid.endParagraph (by decide)).push .sectionEnd (by decide)

/-- The scan of a source without brackets begins flat. -/
theorem start_flat {source : Text} (bare : '[' ∉ source) : (start source).Flat := by
  have first : Laid .margin { rest := source.normalizeBreaks } := ⟨.nil, rfl⟩
  have root : (root source).Laid (root source).zone :=
    first.push .sectionBegin (by decide)
  refine openParagraph_flat root (root_sound source) rfl rfl ?_ ?_
  · exact fun member => (Text.mem_normalizeBreaks member).elim bare (by decide)
  · intro o member
    cases member

/-- The run of a source without brackets ends, and its regions lead from the margin back to it. -/
theorem run_laid {source : Text} (bare : '[' ∉ source) :
    ∃ s, (start source).run = .ok s ∧ s.Laid .margin := by
  have coherent := start_coherent source
  have meets : Meets (Refused (Plain source)) (Laid .margin) (start source).run := by
    rw [run, if_neg (by simp [start_unfinished])]
    apply Meets.bind (steps_flat _ (start_flat bare) coherent)
    rintro s₁ ⟨flat₁, coherent₁⟩
    apply Meets.bind (finish_flat flat₁ coherent₁)
    exact fun s₂ laid => laid.congr rfl rfl
  cases ran : (start source).run with
  | ok s =>
      rw [ran] at meets
      exact ⟨s, rfl, meets⟩
  | error halt =>
      rw [ran] at meets
      exact absurd (.inl bare) meets.1

end MarkPress.Scan
