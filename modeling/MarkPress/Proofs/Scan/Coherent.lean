/-
Module: MarkPress.Proofs.Scan.Coherent
Purpose: What holds of a scan between two operations.
  The flags agree with the tags that are open, text has a region to go to, nothing is owed that no
  open tag will pay, and an exclusive region stays in the arena as long as a heading is open. A calm
  scan will not meet a heading and a bracket in one document, so its regions end in the order
  opposite to the one in which they began.
Main exports:
  Scan.Control, Scan.OneKind, Scan.Coherent, Scan.Closes, Scan.Control.forget, Scan.debt_forget
-/
import MarkPress.Proofs.Scan.Folding

namespace MarkPress

namespace Tag

theorem region_cases {tag : Tag} (openable : tag.traits.opener.isSome = true)
    (region : tag.traits.isRegion = true) :
    tag.traits.isExclusive = true ∨ tag.isHeading = true ∨ tag ∈ urlTargets := by
  cases tag <;> simp_all [traits, headingTraits, isHeading, urlTargets, images]

theorem isHeading_of_isSingleLine {tag : Tag} (single : tag.isSingleLine = true)
    (region : tag.traits.isRegion = true) : tag.isHeading = true := by
  cases tag <;> simp_all [traits, headingTraits, isHeading, isSingleLine]

theorem isSingleLine_of_isHeading {tag : Tag} (heading : tag.isHeading = true) :
    tag.isSingleLine = true := by
  cases tag <;> simp_all [traits, headingTraits, isHeading, isSingleLine]

theorem isRegion_of_isHeading {tag : Tag} (heading : tag.isHeading = true) :
    tag.traits.isRegion = true := by
  cases tag <;> simp_all [traits, headingTraits, isHeading]

theorem not_isExclusive_of_isSingleLine {tag : Tag} (single : tag.isSingleLine = true) :
    tag.traits.isExclusive = false := by
  cases tag <;> simp_all [traits, headingTraits, isSingleLine]

end Tag

namespace Scan

open Html

/-- The flags of a scan agree with the tags that are open. -/
structure Control (s : Scan) : Prop where
  first : ∀ tag, s.exclusive = some tag →
    tag.traits.isExclusive = true ∧ (s.opened.map OpenTag.tag).head? = some tag
  only : ∀ o ∈ s.opened, o.tag.traits.isExclusive = true → s.exclusive = some o.tag
  single : ((s.opened.map OpenTag.tag).filter Tag.isSingleLine).length ≤ 1
  blank : s.lineBlank = true → ∀ o ∈ s.opened, o.tag.isSingleLine = false
  fence : s.afterFence = true → ∃ o ∈ s.opened, o.tag.traits.isVerbatim = true
  bracket : s.bracketDepth ≠ 0 → ∃ o ∈ s.opened, o.tag ∈ Tag.images

/-- Of headings and brackets, the scan has at most one kind open and before it. -/
def OneKind (s : Scan) : Prop :=
  ('#' ∉ s.rest ∧ ∀ o ∈ s.opened, o.tag.isHeading = false)
  ∨ ('[' ∉ s.rest ∧ ∀ o ∈ s.opened, o.tag ∉ Tag.urlTargets ∧ o.tag ≠ .url)

/-- What holds of a scan between two operations. -/
structure Coherent (calm : Prop) (s : Scan) : Prop where
  sound : s.Sound
  writable : s.Writable
  control : s.Control
  settled : ∀ element, s.debt element = 0
  anchored : s.headingAnchorOpen = true → ∃ o ∈ s.opened, o.tag.isHeading = true
  /-- An exclusive region stays in the arena as long as a heading is open. -/
  held : ∀ o ∈ s.openRegions, o.tag.traits.isExclusive = true →
    (∃ h ∈ s.opened, h.tag.isHeading = true) → o.serial ∉ s.detached.map Entry.serial
  oneKind : calm → s.OneKind
  whole : calm → s.detached = []

/-- A scan goes on by edits that end tags. -/
structure Closes (s s' : Scan) : Prop where
  edits : Edits s s'
  rest : s'.rest = s.rest
  lineBlank : s'.lineBlank = s.lineBlank
  control : s.Control → s'.Control
  opened : s'.opened.Sublist s.opened
  debt : ∀ element, s'.debt element = s.debt element
  /-- The anchor stays open with the heading that it belongs to. -/
  anchor : s'.headingAnchorOpen = true →
    s.headingAnchorOpen = true ∧ ∀ o ∈ s.opened, o.tag.isHeading = true → o ∈ s'.opened

variable {s s' s'' : Scan} {calm : Prop} {tag : Tag}

/-- An open region is exclusive, or its tag is a heading, a link or an image. -/
theorem Sound.open_cases (sound : s.Sound) {o : OpenRegion} (member : o ∈ s.openRegions) :
    o.tag.traits.isExclusive = true ∨ o.tag.isHeading = true ∨ o.tag ∈ Tag.urlTargets :=
  Tag.region_cases (sound.openable _ (mem_openRegions.mp member)) (sound.isRegion_of_open member)

/-! ### Flags -/

theorem Control.keeps (control : s.Control) (keeps : Keeps s s') : s'.Control where
  first := by rw [keeps.exclusive, keeps.opened]; exact control.first
  only := by rw [keeps.exclusive, keeps.opened]; exact control.only
  single := by rw [keeps.opened]; exact control.single
  blank := by rw [keeps.lineBlank, keeps.opened]; exact control.blank
  fence := by rw [keeps.afterFence, keeps.opened]; exact control.fence
  bracket := by rw [keeps.bracketDepth, keeps.opened]; exact control.bracket

theorem Control.forget (control : s.Control) (tag : Tag) : (s.forget tag).Control where
  first := by
    intro other exclusive
    simp only [Scan.forget] at exclusive
    split at exclusive
    · cases exclusive
    · rename_i differs
      obtain ⟨isExclusive, head⟩ := control.first other exclusive
      refine ⟨isExclusive, ?_⟩
      have kept : other ≠ tag := fun same => differs (same ▸ exclusive)
      simp only [Scan.forget]
      cases openedEq : s.opened with
      | nil => simp [openedEq] at head
      | cons o rest =>
          simp only [openedEq, List.map_cons, List.head?_cons, Option.some.injEq] at head
          simp [head, kept]
  only := by
    intro o member isExclusive
    obtain ⟨isOpened, differs⟩ := mem_forget.mp member
    have exclusive := control.only o isOpened isExclusive
    simp only [Scan.forget, exclusive, Option.some.injEq, if_neg differs]
  single := by
    have fewer := ((s.forget_opened_sublist tag).map OpenTag.tag).filter Tag.isSingleLine
    exact Nat.le_trans fewer.length_le control.single
  blank := fun blank o member => control.blank blank o (mem_forget.mp member).1
  fence := by
    intro fence
    simp only [Scan.forget, Bool.and_eq_true, Bool.not_eq_true'] at fence
    obtain ⟨o, isOpened, isVerbatim⟩ := control.fence fence.1
    refine ⟨o, mem_forget.mpr ⟨isOpened, fun same => ?_⟩, isVerbatim⟩
    rw [same, fence.2] at isVerbatim
    cases isVerbatim
  bracket := by
    intro depth
    simp only [Scan.forget, ne_eq, ite_eq_left_iff, Classical.not_imp] at depth
    obtain ⟨o, isOpened, image⟩ := control.bracket depth.2
    exact ⟨o, mem_forget.mpr ⟨isOpened, fun same => depth.1 (same ▸ image)⟩, image⟩

/-- Two tags that end with their line are never open at once. -/
theorem Control.single_eq (control : s.Control) {a b : OpenTag} (ha : a ∈ s.opened)
    (hb : b ∈ s.opened) (singleA : a.tag.isSingleLine = true)
    (singleB : b.tag.isSingleLine = true) : a.tag = b.tag := by
  have inA : a.tag ∈ (s.opened.map OpenTag.tag).filter Tag.isSingleLine :=
    List.mem_filter.mpr ⟨List.mem_map_of_mem ha, singleA⟩
  have inB : b.tag ∈ (s.opened.map OpenTag.tag).filter Tag.isSingleLine :=
    List.mem_filter.mpr ⟨List.mem_map_of_mem hb, singleB⟩
  have atMostOne := control.single
  generalize (s.opened.map OpenTag.tag).filter Tag.isSingleLine = singles at inA inB atMostOne
  cases singles with
  | nil => cases inA
  | cons x rest =>
      cases rest with
      | nil => rw [List.mem_singleton.mp inA, List.mem_singleton.mp inB]
      | cons y rest => simp at atMostOne

/-! ### Owed halves -/

theorem countP_forget {opened : List OpenTag} (once : (opened.map OpenTag.tag).Nodup) {o : OpenTag}
    (member : o ∈ opened) (p : OpenTag → Bool) :
    opened.countP p = (opened.filter fun x => x.tag ≠ o.tag).countP p + if p o then 1 else 0 := by
  induction opened with
  | nil => cases member
  | cons first rest ih =>
      simp only [List.map_cons, List.nodup_cons] at once
      rcases List.mem_cons.mp member with rfl | later
      · have others : rest.filter (fun x => x.tag ≠ o.tag) = rest := by
          rw [List.filter_eq_self]
          intro x xMember
          have differs : x.tag ≠ o.tag := fun same => once.1 (same ▸ List.mem_map_of_mem xMember)
          simp [differs]
        rw [List.filter_cons_of_neg (by simp), others, List.countP_cons]
      · have differs : first.tag ≠ o.tag := fun same => once.1 (same ▸ List.mem_map_of_mem later)
        simp [List.countP_cons, differs, ih once.2 later]
        omega

/-- Forgetting an open tag leaves the half that it had still to write to be paid. -/
theorem debt_forget (sound : s.Sound) {o : OpenTag} (member : o ∈ s.opened) (element : Element) :
    (s.forget o.tag).debt element = s.debt element
      + if o.tag.traits.isRegion = false ∧ o.tag.traits.element = some element then 1 else 0 := by
  have count := countP_forget sound.once member fun o =>
    !o.tag.traits.isRegion && o.tag.traits.element == some element
  simp only [Bool.and_eq_true, Bool.not_eq_true', beq_iff_eq] at count
  have after : (s.forget o.tag).due element
      = ((s.opened.filter fun x => x.tag ≠ o.tag).countP fun o =>
          !o.tag.traits.isRegion && o.tag.traits.element == some element : Nat)
        + (if element = .ul then (s.listLevel : Int) else 0)
        + if element = .a ∧ s.headingAnchorOpen = true then 1 else 0 := rfl
  have written : (s.forget o.tag).written = s.written := rfl
  rw [debt, debt, after, written, due, count]
  by_cases paying : o.tag.traits.isRegion = false ∧ o.tag.traits.element = some element
  · simp only [paying, and_self, if_true]
    omega
  · simp only [paying, if_false]
    omega

/-! ### Changes that end no tag -/

/-- Edits that cut nothing from the arena keep a scan coherent. -/
theorem Coherent.adds (coherent : s.Coherent calm) (adds : s.Adds s') (writable : s'.Writable) :
    s'.Coherent calm where
  sound := adds.sound coherent.sound
  writable := writable
  control := coherent.control.keeps adds.keeps
  settled element := (adds.keeps.debt element).trans (coherent.settled element)
  anchored := by
    rw [adds.keeps.opened]
    exact fun anchorOpen => coherent.anchored (adds.keeps.anchor anchorOpen)
  held := by
    rw [openRegions_congr adds.keeps.opened, adds.keeps.opened, adds.detached]
    exact coherent.held
  oneKind := by
    rw [OneKind, adds.keeps.rest, adds.keeps.opened]
    exact coherent.oneKind
  whole isCalm := adds.detached.trans (coherent.whole isCalm)

/-- Other flags and less text to read keep a scan coherent if the flags agree with the open tags. -/
theorem Coherent.flags (coherent : s.Coherent calm) (content : s'.content = s.content)
    (rest : ∀ c ∈ s'.rest, c ∈ s.rest) (listLevel : s'.listLevel = s.listLevel)
    (anchor : s'.headingAnchorOpen = s.headingAnchorOpen) (control : s'.Control) :
    s'.Coherent calm := by
  have parts := content
  simp only [Scan.content, Prod.mk.injEq] at parts
  obtain ⟨arena, detached, -, opened, -, written, -⟩ := parts
  exact {
    sound := coherent.sound.congr content
    writable := by
      obtain ⟨entry, older, split, open_or_text⟩ := coherent.writable
      refine ⟨entry, older, arena.trans split, open_or_text.imp_right fun isOpen => ?_⟩
      rw [Scan.isOpen, opened]
      exact isOpen
    control := control
    settled := fun element =>
      (debt_congr written opened listLevel anchor).trans (coherent.settled element)
    anchored := by rw [anchor, opened]; exact coherent.anchored
    held := by rw [openRegions_congr opened, opened, detached]; exact coherent.held
    oneKind := by
      intro isCalm
      rw [OneKind, opened]
      rcases coherent.oneKind isCalm with ⟨noSharp, noHeading⟩ | ⟨noBracket, noTarget⟩
      · exact .inl ⟨fun sharp => noSharp (rest _ sharp), noHeading⟩
      · exact .inr ⟨fun bracket => noBracket (rest _ bracket), noTarget⟩
    whole := fun isCalm => detached.trans (coherent.whole isCalm) }

theorem Coherent.advance (coherent : s.Coherent calm) (n : Nat) : (s.advance n).Coherent calm :=
  coherent.flags rfl (fun _ member => List.mem_of_mem_drop member) rfl rfl
    { coherent.control with }

/-! ### Ending tags -/

namespace Closes

theorem refl (s : Scan) : Closes s s :=
  ⟨.refl s, rfl, rfl, id, List.Sublist.refl _, fun _ => rfl, fun h => ⟨h, fun _ member _ => member⟩⟩

theorem trans (first : Closes s s') (later : Closes s' s'') : Closes s s'' where
  edits := first.edits.trans later.edits
  rest := later.rest.trans first.rest
  lineBlank := later.lineBlank.trans first.lineBlank
  control := later.control ∘ first.control
  opened := later.opened.trans first.opened
  debt element := (later.debt element).trans (first.debt element)
  anchor := by
    intro anchorOpen
    obtain ⟨before, keptLater⟩ := later.anchor anchorOpen
    obtain ⟨start, keptFirst⟩ := first.anchor before
    exact ⟨start, fun o member heading => keptLater o (keptFirst o member heading) heading⟩

theorem of_extends (goesOn : Extends s s') : Closes s s' where
  edits := goesOn.edits
  rest := goesOn.keeps.rest
  lineBlank := goesOn.keeps.lineBlank
  control control := control.keeps goesOn.keeps
  opened := by rw [goesOn.keeps.opened]
  debt := goesOn.keeps.debt
  anchor anchorOpen := by
    rw [goesOn.keeps.opened]
    exact ⟨goesOn.keeps.anchor anchorOpen, fun _ member _ => member⟩

/-- A region tag is forgotten, and the scan goes on. The anchor of a heading ends before its tag
does. -/
theorem of_forget (sound : s.Sound) {o : OpenTag} (member : o ∈ s.opened)
    (region : o.tag.traits.isRegion = true) (goesOn : Extends (s.forget o.tag) s')
    (ended : o.tag.isHeading = true → s'.headingAnchorOpen = false) : Closes s s' where
  edits := .trans (.single (.forget s o.tag)) goesOn.edits
  rest := goesOn.keeps.rest
  lineBlank := goesOn.keeps.lineBlank
  control control := (control.forget o.tag).keeps goesOn.keeps
  opened := by
    rw [goesOn.keeps.opened]
    exact s.forget_opened_sublist o.tag
  debt element := by
    rw [goesOn.keeps.debt, debt_forget sound member]
    simp [region]
  anchor anchorOpen := by
    refine ⟨goesOn.keeps.anchor anchorOpen, fun other otherMember heading => ?_⟩
    rw [goesOn.keeps.opened]
    refine mem_forget.mpr ⟨otherMember, fun same => ?_⟩
    rw [same] at heading
    simp [ended heading] at anchorOpen

/-- An inline tag is forgotten, and the half that it owes is written. -/
theorem of_half (sound : s.Sound) {o : OpenTag} (member : o ∈ s.opened)
    (inline : o.tag.traits.isRegion = false) (edit : Edit (s.forget o.tag) s')
    (wrote : ∃ arena, s' = { s.forget o.tag with
      arena := arena, written := o.tag.closeHalf :: s.written }) : Closes s s' := by
  obtain ⟨arena, rfl⟩ := wrote
  exact {
    edits := .trans (.single (.forget s o.tag)) (.single edit)
    rest := rfl
    lineBlank := rfl
    control := fun control => { control.forget o.tag with }
    opened := s.forget_opened_sublist o.tag
    debt := by
      intro element
      have half := o.tag.balance_closeHalf element
      have forgotten := debt_forget sound member element
      simp only [inline, true_and] at forgotten
      change (s.written.map (balance element)).sum - (s.forget o.tag).due element = _ at forgotten
      change balance element o.tag.closeHalf + (s.written.map (balance element)).sum
        - (s.forget o.tag).due element = s.debt element
      rw [half]
      split at forgotten
      · rename_i own
        rw [if_pos own]
        omega
      · rename_i other
        rw [if_neg other]
        omega
    anchor := by
      intro anchorOpen
      refine ⟨anchorOpen, fun other otherMember heading => ?_⟩
      refine mem_forget.mpr ⟨otherMember, fun same => ?_⟩
      have region := Tag.isRegion_of_isHeading heading
      rw [same, inline] at region
      cases region }

end Closes

end Scan

end MarkPress
