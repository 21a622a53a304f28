/-
Module: MarkPress.Proofs.Scan.SectionRun
Purpose: Sections in a whole run and in its output.
  No tag that a delimiter begins or ends is a section: only a heading that ends puts the boundaries
  of sections into the arena, an end and a beginning together. So every step leads from a scan
  inside of a section to one inside of a section, and what a run ends with leads out of the last
  one.
Main exports:
  closeTag_sectioned, openTag_sectioned, step_sectioned, run_sections, render_sections
-/
import MarkPress.Proofs.Scan.Sections

namespace MarkPress

open Html

namespace Scan

variable {s s' : Scan} {calm : Prop} {tag : Tag}

/-! ### The end of a tag -/

/-- The target of an address ends, once it has been described. -/
theorem closeTarget_sectioned (sound : s.Sound) (whole : calm → s.detached = [])
    (target : tag ∈ Tag.urlTargets) {serial : Nat}
    (isOpen : (⟨tag, serial⟩ : OpenRegion) ∈ s.openRegions)
    (apart : (s.forget tag).Apart calm serial) (edit : Edit (s.forget tag) (s'.forget tag))
    (described : ∃ arena next, s' = { s with arena := arena, nextSerial := next })
    (sectioned : s'.Sectioned) : StaysSectioned (closeTagWith (fun _ s => .ok s) tag s') := by
  obtain ⟨region, local_, noHeading⟩ := address_traits target
  obtain ⟨arena, next, rfl⟩ := described
  refine closeRegion_sectioned (edit.sound (sound.forget _)) sectioned whole _
    (serialOf_of_open sound isOpen) region local_ (fun heading => ?_) (apart.congr rfl rfl)
  rw [noHeading] at heading
  cases heading

theorem captureAddress_sectioned (sound : s.Sound) (sectioned : s.Sectioned)
    (whole : calm → s.detached = [])
    (shared : ∀ o ∈ s.openRegions, o.tag.traits.isExclusive = false)
    (targets : calm → ∀ o ∈ s.openRegions, o.tag ∈ Tag.urlTargets) (serial : Nat) :
    StaysSectioned (s.captureAddress serial) := by
  rw [captureAddress]
  cases targetEq : s.addressTarget? with
  | none => exact sectioned
  | some target =>
      obtain ⟨tagged, isOpen, newer, older, split, -⟩ := addressTarget_some sound targetEq
      have apart := target_apart sound whole shared targets targetEq
      dsimp only
      split
      · rename_i isLink
        have sameTag : target.tag = .link := isLink
        obtain ⟨s₁, okEq, edit, described⟩ := setLinkAddress_meets sound split isLink
          (((s.regionOf serial).map Region.inner).getD []).trim
        have sectioned₁ := (setLinkAddress_sectioned sound sectioned split isLink _).of_ok okEq
        rw [okEq]
        rw [← sameTag] at edit
        exact closeTarget_sectioned sound whole tagged isOpen apart edit described sectioned₁
      · rename_i notLink
        have image : target.tag ∈ Tag.images := (List.mem_cons.mp tagged).resolve_left notLink
        obtain ⟨s₁, okEq, edit, described⟩ := setImageAddress_meets sound split image isOpen
          (((s.regionOf serial).map Region.inner).getD []).trim
        have sectioned₁ := (setImageAddress_sectioned sound sectioned split image _).of_ok okEq
        rw [okEq]
        exact closeTarget_sectioned sound whole tagged isOpen apart edit described sectioned₁

theorem closeUrl_sectioned (coherent : s.Coherent calm) (mayEnd : s.MayEnd calm .url)
    (sectioned : s.Sectioned) : StaysSectioned (s.closeTag .url) := by
  have sound := coherent.sound
  have region : Tag.url.traits.isRegion = true := rfl
  obtain ⟨serial, found, member⟩ := mayEnd.serialOf_eq sound region
  have isOpened := mem_openRegions.mp member
  have shared := shared_of_url coherent (coherent.control.only _ isOpened rfl)
  have targets := targets_of_url coherent isOpened rfl shared
  rw [closeTag, closeTagWith, found, if_pos region]
  apply Meets.bind
    ((captureAddress_sectioned (sound.forget _) (sectioned.congr rfl) coherent.whole shared targets
      serial).also (captureAddress_meets (sound.forget _) coherent.whole shared targets serial))
  intro s₁ met
  obtain ⟨sectioned₁, closes, -⟩ := met
  have fewer : s₁.openRegions.Sublist (s.forget .url).openRegions := closes.opened.filterMap _
  have apart := (mayEnd.apart coherent found).of_fewer fewer fun o member =>
    shared o (fewer.subset member)
  exact leave_sectioned (closes.edits.sound (sound.forget _)) sectioned₁ apart

theorem closeTag_sectioned (coherent : s.Coherent calm) (mayEnd : s.MayEnd calm tag)
    (sectioned : s.Sectioned) : StaysSectioned (s.closeTag tag) := by
  have sound := coherent.sound
  cases region : tag.traits.isRegion with
  | false =>
      rw [closeTag, closeTagWith, if_neg (by simp [region])]
      exact write_sectioned (sectioned.congr rfl) (Tag.seam_closeHalf region)
  | true =>
      by_cases address : tag.traits.onClose = .address
      · obtain rfl := eq_url_of_address address
        exact closeUrl_sectioned coherent mayEnd sectioned
      · obtain ⟨serial, found, member⟩ := mayEnd.serialOf_eq sound region
        refine closeRegion_sectioned (sound.forget tag) sectioned coherent.whole captureAddress
          found region address (fun heading => ?_) (mayEnd.apart coherent found)
        exact sound.placed member
          (Tag.not_isExclusive_of_isSingleLine (Tag.isSingleLine_of_isHeading heading))

theorem endKeeps_sectioned : EndKeeps calm Sectioned := closeTag_sectioned

/-! ### The beginning of a tag -/

theorem beginAnchor_sectioned (sectioned : s.Sectioned) : StaysSectioned s.beginAnchor := by
  rw [beginAnchor]
  generalize Slug.freshId s.anchorIds (Slug.headingBase (s.rest.takeWhile (· != '\n'))) = id
  have named : Sectioned { s with anchorIds := id :: s.anchorIds } := sectioned.congr rfl
  apply Meets.bind (write_sectioned named
    (Tag.free_half (Tag.inner_of_inline rfl) (anchor_known id)))
  exact fun s₁ sectioned₁ => sectioned₁.congr rfl

theorem openRegion_sectioned (sectioned : s.Sectioned)
    (openable : tag.traits.opener.isSome = true) : StaysSectioned (s.openRegion tag) := by
  have left : (if s.startsBlock tag then s.endParagraph else s).Sectioned := by
    split
    · exact sectioned.endParagraph
    · exact sectioned
  rw [openRegion]
  generalize (if s.startsBlock tag then s.endParagraph else s) = s₁ at left
  have pushed : Sectioned { s₁.push tag with
      opened := ⟨tag, some s₁.nextSerial⟩ :: s₁.opened
      atBlockStart := false } :=
    (left.push (Tag.inner_of_opener openable)).congr rfl
  cases action : tag.traits.onOpen with
  | plain => exact pushed
  | block => exact pushed
  | item => exact pushed
  | heading => exact beginAnchor_sectioned pushed

theorem openHalf_sectioned (sectioned : s.Sectioned) (inline : tag.traits.isRegion = false) :
    StaysSectioned (s.write tag.openHalf >>= fun s => pure { s with atBlockStart := false }) := by
  apply Meets.bind (write_sectioned sectioned (Tag.seam_openHalf inline))
  exact fun s₁ sectioned₁ => sectioned₁.congr rfl

theorem openInline_sectioned (sectioned : s.Sectioned) (inline : tag.traits.isRegion = false) :
    StaysSectioned (s.openInline tag) := by
  have listed : Sectioned { s with opened := ⟨tag, none⟩ :: s.opened } := sectioned.congr rfl
  cases action : tag.traits.onOpen with
  | plain =>
      simp only [openInline, action]
      exact openHalf_sectioned listed inline
  | block =>
      simp only [openInline, action]
      exact openHalf_sectioned listed inline
  | item =>
      simp only [openInline, action]
      apply Meets.bind (setListLevel_sectioned listed _)
      exact fun s₁ sectioned₁ => openHalf_sectioned sectioned₁ inline
  | heading =>
      simp only [openInline, action]
      trivial

theorem openTag_sectioned (sectioned : s.Sectioned) (openable : tag.traits.opener.isSome = true) :
    StaysSectioned (s.openTag tag) := by
  have flagged : Sectioned { s with
      skipWhitespace := s.skipWhitespace || tag.isSingleLine
      pendingSpace := s.pendingSpace && !(tag.isSingleLine || s.startsBlock tag) } :=
    sectioned.congr rfl
  rw [openTag]
  apply Meets.bind (flushSpace_sectioned flagged)
  intro s₁ sectioned₁
  have entered : Sectioned { s₁ with
      exclusive := if tag.traits.isExclusive then some tag else s₁.exclusive
      afterFence := s₁.afterFence || tag.traits.isVerbatim } := sectioned₁.congr rfl
  dsimp only
  cases region : tag.traits.isRegion with
  | true => exact openRegion_sectioned entered openable
  | false => exact openInline_sectioned entered region

/-! ### One step -/

theorem newline_sectioned (coherent : s.Coherent calm) (sectioned : s.Sectioned) :
    StaysSectioned s.newline := by
  rw [newline]
  apply Meets.bind (closeLines_keeps endKeeps_sectioned coherent sectioned).if_ok
  intro s₁ met
  have counted : Sectioned { s₁ with blankRun := s₁.blankRun + 1 } := met.2.congr rfl
  dsimp only
  split
  · exact counted.congr rfl
  · split
    · split
      · apply Meets.bind (closeLists_sectioned counted)
        exact fun s₂ sectioned₂ => sectioned₂.congr rfl
      · exact counted.openParagraph.congr rfl
    · exact counted.congr rfl

theorem whitespace_sectioned (sectioned : s.Sectioned) (c : Char) : (s.whitespace c).Sectioned := by
  rw [whitespace_eq]
  exact sectioned.congr rfl

theorem rule_sectioned (sectioned : s.Sectioned) : StaysSectioned s.rule := by
  rw [rule]
  apply Meets.bind (closeLists_sectioned sectioned)
  intro s₁ sectioned₁
  have ruled := sectioned₁.endParagraph.push
    (show Tag.rule.traits.element ≠ some .sect by decide)
  exact ruled.openParagraph.congr rfl

theorem literal_sectioned (sectioned : s.Sectioned) (c : Char) : StaysSectioned (s.literal c) := by
  rw [literal]
  apply Meets.bind (appendLiteral_sectioned sectioned c)
  exact fun s₁ sectioned₁ => sectioned₁.congr rfl

theorem delimiterOrLiteral_sectioned (coherent : s.Coherent calm) (sectioned : s.Sectioned)
    (atLineStart : Bool) (c : Char) : StaysSectioned (s.delimiterOrLiteral atLineStart c) := by
  rw [delimiterOrLiteral]
  cases nextOpen : s.nextOpening atLineStart with
  | some tag =>
      obtain ⟨-, opener, found, -⟩ := opener_of_nextOpening nextOpen
      exact openTag_sectioned (sectioned.congr rfl) (by simp [found])
  | none =>
      cases nextClose : s.nextClosing with
      | some tag =>
          have mayEnd := mayEnd_of_nextClosing coherent nextClose
          exact closeTag_sectioned (coherent.advance _) (mayEnd.advance _) (sectioned.congr rfl)
      | none => exact literal_sectioned sectioned c

theorem verbatimStep_sectioned (coherent : s.Coherent calm) (sectioned : s.Sectioned) (c : Char) :
    StaysSectioned (s.verbatimStep c) := by
  rw [verbatimStep]
  split
  · exact sectioned.congr rfl
  · exact delimiterOrLiteral_sectioned coherent.unfenced (sectioned.congr rfl) _ c

theorem enterSolid_sectioned (sectioned : s.Sectioned) (atLineStart : Bool) :
    StaysSectioned (s.enterSolid atLineStart) := by
  rw [enterSolid]
  split
  · apply Meets.bind (closeLists_sectioned sectioned)
    exact fun s₁ sectioned₁ => sectioned₁.congr rfl
  · exact sectioned.congr rfl

theorem solidStep_sectioned (coherent : s.Coherent calm) (sectioned : s.Sectioned) (c : Char) :
    StaysSectioned (s.solidStep c) := by
  refine solidStep_keeps coherent (enterSolid_sectioned sectioned s.lineBlank) ?_
  intro s₁ sectioned₁ goes _ _
  exact {
    escapes := sectioned₁.congr rfl
    bracket := by
      intro depth _
      have counted : Sectioned { s₁ with bracketDepth := depth } := sectioned₁.congr rfl
      exact literal_sectioned counted c
    delimiter := fun _ => delimiterOrLiteral_sectioned goes.1 sectioned₁ _ c }

/-- Every step leads from inside of a section to inside of a section. -/
theorem step_sectioned (coherent : s.Coherent calm) (sectioned : s.Sectioned) :
    StaysSectioned s.step := by
  refine step_keeps coherent.writable sectioned fun {c rest} next => ?_
  have unescaped : Sectioned { s with escaped := false } := sectioned.congr rfl
  exact {
    verbatim := fun _ _ => verbatimStep_sectioned coherent sectioned c
    escaped := fun _ => literal_sectioned unescaped c
    newline := fun _ _ _ _ => Meets.bind (newline_sectioned coherent sectioned)
      fun s₁ sectioned₁ => sectioned₁.congr rfl
    gap := (whitespace_sectioned sectioned c).congr rfl
    rule := fun _ _ => rule_sectioned sectioned
    solid := solidStep_sectioned coherent sectioned c }

/-! ### A whole run -/

theorem steps_sectioned (n : Nat) (coherent : s.Coherent calm) (sectioned : s.Sectioned) :
    Meets (fun _ => True) (fun s' => s'.Coherent calm ∧ s'.Sectioned) (steps n s) := by
  refine steps_keeps ?_ n ⟨coherent, sectioned⟩
  rintro s ⟨coherent, sectioned⟩
  exact Meets.mono ((step_sectioned coherent sectioned).also (step_meets coherent))
    fun s₁ ⟨sectioned₁, goes⟩ => ⟨goes.1, sectioned₁⟩

/-- The end of a source leads out of the last section. -/
theorem finish_sections (coherent : s.Coherent calm) (sectioned : s.Sectioned) :
    Meets (fun _ => True) (fun s' => s'.regions ≠ [] ∧ Sewing false s'.regions false)
      s.finish := by
  rw [finish]
  apply Meets.bind (closeOpened_keeps endKeeps_sectioned coherent sectioned).if_ok
  intro s₁ met
  apply Meets.bind (closeLists_sectioned met.2)
  intro s₂ sectioned₂
  have regionsEq : regions (s₂.endParagraph.push .sectionEnd)
      = s₂.endParagraph.regions ++ [.ofTag .sectionEnd] := by
    simp [regions, push, pushRegion]
  change _ ≠ [] ∧ Sewing false (regions (s₂.endParagraph.push .sectionEnd)) false
  rw [regionsEq]
  refine ⟨by simp, Sewing.append_iff.mpr ⟨true, sectioned₂.endParagraph, ?_⟩⟩
  exact .single (Region.sewn_ofTag _) rfl

theorem root_sectioned (source : Text) : (root source).Sectioned :=
  .single (Region.sewn_ofTag _) rfl

theorem start_sectioned (source : Text) : (start source).Sectioned :=
  (root_sectioned source).openParagraph

/-- A run that returns leads through all its sections and out of the last one. -/
theorem run_sections (source : Text) :
    Meets (fun _ => True) (fun s' => s'.regions ≠ [] ∧ Sewing false s'.regions false)
      (start source).run := by
  rw [run, if_neg (by simp [start_unfinished])]
  apply Meets.bind (steps_sectioned _ (start_coherent source) (start_sectioned source))
  intro s₁ met
  obtain ⟨coherent, sectioned⟩ := met
  apply Meets.bind (finish_sections coherent sectioned)
  exact fun s₂ sewing => sewing

end Scan

/-- An output begins where a section begins and ends where one ends, and between them a section ends
wherever the next one begins. -/
theorem render_sections {source html : Text} (h : render source = .ok html) :
    "<section>".toList <+: html ∧ "</section>".toList <:+ html
      ∧ (sectionTags html).IsChain (· ≠ ·) := by
  rw [render, scan] at h
  cases ran : (Scan.start source).run with
  | error halt =>
      rw [ran] at h
      cases h
  | ok s =>
      rw [ran] at h
      cases h
      obtain ⟨filled, sewing⟩ := (Scan.run_sections source).of_ok ran
      obtain ⟨region, rest, regionsEq⟩ := List.exists_cons_of_ne_nil filled
      rw [regionsEq] at sewing ⊢
      exact sewing.html

/-- A heading inside of an image ends a section in the caption. -/
theorem render_sections_caption :
    ∃ html, render "![a\n# b\n c](u)".toList = .ok html ∧ "<section>".toList <+: html
      ∧ "</section>".toList <:+ html ∧ (sectionTags html).IsChain (· ≠ ·)
      ∧ sectionTags html = [true, false, true, false] := by
  have compiled : render "![a\n# b\n c](u)".toList
      = .ok ("<section><img alt=\"abc\" class=\"embed\" src=\"u\" />".toList
        ++ "<span class=\"caption\">a</p><h1><a href=\"#b\" id=\"b\">b</a></h1></p>".toList
        ++ "</section><section><p>c</span></section>".toList) := by
    decide +kernel
  obtain ⟨begins, ends, chain⟩ := render_sections compiled
  exact ⟨_, compiled, begins, ends, chain, by decide +kernel⟩

end MarkPress
