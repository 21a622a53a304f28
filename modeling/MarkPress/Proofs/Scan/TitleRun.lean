/-
Module: MarkPress.Proofs.Scan.TitleRun
Purpose: A run to the end of the line of a heading.
  Every step leaves the scan on the line, whatever stands there. At the end of the source everything
  inside of the heading ends, the last opened first, then the heading with its anchor.
Main exports:
  delimiterOrLiteral_onLine, solidStep_onLine, step_onLine, steps_onLine, closeInner_onLine,
  complete_onLine
-/
import MarkPress.Proofs.Scan.TitleTags

namespace MarkPress.Scan

open Html

variable {title : Title} {s s' : Scan} {calm : Prop} {fail : RegionError → Prop} {tag : Tag}
  {c : Char} {rest : Text}

/-! ### Delimiters -/

theorem OnLine.lineBlank (onLine : s.OnLine title) : s.lineBlank = false := by
  obtain ⟨front, content, within⟩ := onLine
  exact within.solid

theorem literal_onLine (onLine : s.OnLine title) (takes : s.TakesText) (c : Char) :
    Meets fail (OnLine title) (s.literal c) := by
  rw [literal, appendLiteral_eq takes]
  exact (onLine.putLiteral c).advance 1

/-- A link begins only where nothing else is open inside of the heading: in the caption of an image
its delimiter stands for itself, and there is no second link. -/
theorem alone_of_link (onLine : s.OnLine title) (coherent : s.Coherent calm)
    (next : s.rest = c :: rest) (plain : s.captionBracket c = none)
    (free : s.exclusive = none) (opens : s.nextOpening false = some .link) :
    s.openRegions = [⟨title.tag, title.serial⟩] := by
  obtain ⟨closed, opener, found, here⟩ := opener_of_nextOpening opens
  obtain ⟨front, content, within⟩ := onLine
  cases front with
  | nil => exact within.regions
  | cons e front =>
      have isOpen : e.opening ∈ s.openRegions := by simp [within.regions]
      have active : s.isActive e.tag = true :=
        isActive_iff.mpr ⟨_, mem_openRegions.mp isOpen, rfl⟩
      have shared : ∀ o ∈ s.openRegions, o.tag.traits.isExclusive = false := by
        intro o member
        apply Bool.eq_false_iff.mpr
        intro exclusive
        have own := coherent.control.only _ (mem_openRegions.mp member) exclusive
        rw [free] at own
        cases own
      rcases List.mem_cons.mp (within.targets coherent.sound shared e List.mem_cons_self) with
        link | image
      · rw [link, closed] at active
        cases active
      · -- the bracket would be one of the caption
        cases found
        rw [next, show "[".toList = ['['] from rfl, List.cons_prefix_cons] at here
        have images : Tag.images.any s.isActive = true := List.any_eq_true.mpr ⟨_, image, active⟩
        rw [← here.1, captionBracket, free, images] at plain
        simp at plain

/-- A region tag that ends with a delimiter was opened last. -/
theorem last_of_nextClosing_onLine (onLine : s.OnLine title) (coherent : s.Coherent calm)
    (next : s.nextClosing = some tag) (inside : tag ≠ title.tag)
    (region : tag.traits.isRegion = true) :
    ∃ serial others, s.openRegions = ⟨tag, serial⟩ :: others := by
  have sound := coherent.sound
  have mayEnd := mayEnd_of_nextClosing coherent next
  cases exclusive : s.exclusive with
  | some other =>
      obtain ⟨-, head⟩ := coherent.control.first other exclusive
      have own : other = tag := by
        have turn := (closer_of_nextClosing next).1
        rw [exclusive] at turn
        simpa using turn
      rw [own] at head
      exact openRegions_of_head sound region head
  | none =>
      obtain ⟨front, content, within⟩ := onLine
      have shared : ∀ o ∈ s.openRegions, o.tag.traits.isExclusive = false := by
        intro o member
        apply Bool.eq_false_iff.mpr
        intro isExclusive
        have own := coherent.control.only _ (mem_openRegions.mp member) isExclusive
        rw [exclusive] at own
        cases own
      have targets := within.targets sound shared
      obtain ⟨serial, found, isOpen⟩ := mayEnd.serialOf_eq sound region
      have regions := within.regions
      cases front with
      | nil =>
          rw [regions, List.map_nil, List.nil_append, List.mem_singleton,
            OpenRegion.mk.injEq] at isOpen
          exact absurd isOpen.1 inside
      | cons e front =>
          have target : tag ∈ Tag.urlTargets := by
            rw [regions, List.mem_append, List.mem_singleton] at isOpen
            rcases isOpen with among | heading
            · obtain ⟨e', member, same⟩ := List.mem_map.mp among
              have tagEq : e'.tag = tag := congrArg OpenRegion.tag same
              exact tagEq ▸ targets e' member
            · exact absurd (congrArg OpenRegion.tag heading) inside
          -- both the newest region and the one that ends are links or images
          have openToo : e.opening ∈ s.openRegions := by simp [regions]
          have atMost := newest_target_of_nextClosing coherent exclusive target next found
            e.opening openToo (targets e List.mem_cons_self)
          have descending := sound.descending
          rw [regions, List.map_cons, List.cons_append] at isOpen descending
          rw [List.map_cons, List.pairwise_cons] at descending
          rcases List.mem_cons.mp isOpen with newest | older
          · exact ⟨serial, _, by rw [regions, newest]; rfl⟩
          · have below := descending.1 serial (List.mem_map_of_mem older)
            exact absurd atMost (Nat.not_le_of_lt below)

theorem delimiterOrLiteral_onLine (onLine : s.OnLine title) (coherent : s.Coherent calm)
    (next : s.rest = c :: rest) (plain : s.captionBracket c = none) :
    Meets fail (OnLine title) (s.delimiterOrLiteral s.lineBlank c) := by
  rw [onLine.lineBlank, delimiterOrLiteral]
  cases nextOpen : s.nextOpening false with
  | some tag =>
      have mayBegin := mayBegin_of_nextOpening coherent (fun _ => onLine.lineBlank)
        (fun atStart => by cases atStart) nextOpen
      have lone : tag = .link → s.openRegions = [⟨title.tag, title.serial⟩] := by
        rintro rfl
        exact alone_of_link onLine coherent next plain mayBegin.free nextOpen
      exact openTag_onLine (onLine.advance _) (coherent.advance _) (mayBegin.advance _)
        (several_of_nextOpening nextOpen) lone
  | none =>
      cases nextClose : s.nextClosing with
      | some tag =>
          have inside : tag ≠ title.tag := by
            rintro rfl
            have several := several_of_nextClosing nextClose
            rw [Tag.isSingleLine_of_isHeading title.isHeading] at several
            cases several
          have last := last_of_nextClosing_onLine onLine coherent nextClose inside
          exact closeTag_onLine (onLine.advance _) (coherent.advance _)
            ((mayEnd_of_nextClosing coherent nextClose).advance _) inside last
      | none => exact literal_onLine onLine (coherent.sound.takesText coherent.writable) c

/-! ### One step -/

theorem verbatimStep_onLine (onLine : s.OnLine title) (coherent : s.Coherent calm)
    (next : s.rest = c :: rest) (exclusive : s.exclusive ≠ none) :
    Meets fail (OnLine title) (s.verbatimStep c) := by
  have unfenced : OnLine title { s with afterFence := false } :=
    onLine.flags rfl rfl rfl rfl rfl fun _ => id
  have plain : captionBracket c { s with afterFence := false } = none := by
    rw [captionBracket, if_pos (by simp [Option.isSome_iff_ne_none, exclusive])]
  rw [verbatimStep]
  split
  · exact unfenced.advance 1
  · exact delimiterOrLiteral_onLine unfenced coherent.unfenced next plain

/-- Behind the delimiter of a heading the first visible character of a line only changes flags. -/
theorem solidStep_onLine (onLine : s.OnLine title) (coherent : s.Coherent calm)
    (next : s.rest = c :: rest) : Meets fail (OnLine title) (s.solidStep c) := by
  have blank := onLine.lineBlank
  let s₁ : Scan := { s with lineBlank := false, blankRun := 0, skipWhitespace := false }
  have onLine₁ : s₁.OnLine title := onLine.flags rfl rfl rfl rfl blank.symm fun _ => id
  have entered : s.enterSolid s.lineBlank = .ok s₁ := by
    rw [enterSolid, blank]
    rfl
  have enters : Meets fail (· = s₁) (s.enterSolid s.lineBlank) := by rw [entered]; rfl
  refine solidStep_keeps coherent enters ?_
  rintro s₂ rfl goes _ _
  exact {
    escapes := onLine₁.flags rfl rfl rfl rfl rfl fun _ member => List.mem_of_mem_drop member
    bracket := by
      intro depth _
      have counted : OnLine title { s₁ with bracketDepth := depth } :=
        onLine₁.flags rfl rfl rfl rfl rfl fun _ => id
      exact literal_onLine counted (coherent.sound.takesText coherent.writable) c
    delimiter := by
      intro plain
      rw [blank]
      exact delimiterOrLiteral_onLine onLine₁ goes.1 next plain }

/-- Every step on the line of a heading leaves the scan there. -/
theorem step_onLine (onLine : s.OnLine title) (coherent : s.Coherent calm) :
    Meets fail (OnLine title) s.step := by
  have blank := onLine.lineBlank
  refine step_keeps coherent.writable onLine fun {c rest} next => ?_
  have unescaped : OnLine title { s with escaped := false } :=
    onLine.flags rfl rfl rfl rfl rfl fun _ => id
  exact {
    verbatim := fun newest verbatim => verbatimStep_onLine onLine coherent next
      (exclusive_of_verbatim coherent newest verbatim)
    escaped := fun _ => literal_onLine unescaped (coherent.sound.takesText coherent.writable) c
    newline := by
      rintro - - - - rfl
      obtain ⟨front, content, within⟩ := onLine
      exact absurd (next ▸ List.mem_cons_self) within.line
    gap := by
      rw [whitespace_eq]
      exact onLine.flags rfl rfl rfl rfl rfl fun _ member => List.mem_of_mem_drop member
    rule := by
      intro lineBlank _
      rw [blank] at lineBlank
      cases lineBlank
    solid := solidStep_onLine onLine coherent next }

theorem steps_onLine (n : Nat) (onLine : s.OnLine title) (coherent : s.Coherent calm) :
    Meets fail (fun s' => s'.OnLine title ∧ s'.Coherent calm) (steps n s) := by
  refine steps_keeps ?_ n ⟨onLine, coherent⟩
  rintro s ⟨onLine, coherent⟩
  exact Meets.mono ((step_onLine onLine coherent).also (step_meets coherent))
    fun s₁ ⟨onLine₁, goes⟩ => ⟨onLine₁, goes.1⟩

/-! ### The end of the source -/

theorem closeAll_append (tags more : List Tag) (s : Scan) :
    closeAll (tags ++ more) s = closeAll tags s >>= closeAll more := by
  induction tags generalizing s with
  | nil => rfl
  | cons tag rest ih =>
      rw [List.cons_append, closeAll, closeAll]
      split
      · cases s.closeTag tag with
        | error halt => rfl
        | ok s => exact ih s
      · exact ih s

/-- At the end of the source everything inside of the heading ends, and the rest is as if it had
never been open. -/
theorem closeInner_onLine (onLine : s.OnLine title) (coherent : s.Coherent calm) :
    ∃ s' : Scan, s'.OnLine title ∧ s'.Coherent calm
      ∧ s'.opened = [⟨title.tag, some title.serial⟩] ∧ s.finish = s'.finish := by
  obtain ⟨front, content, within⟩ := onLine
  obtain ⟨newer, opened⟩ := within.first
  have tagsEq : s.opened.map OpenTag.tag = newer.map OpenTag.tag ++ [title.tag] := by
    rw [opened, List.map_append]
    rfl
  have once := coherent.sound.once
  rw [tagsEq] at once
  have keeps : ∀ {tag : Tag} {s : Scan}, s.Coherent calm → s.OnLine title → tag ∉ [title.tag] →
      (s.opened.map OpenTag.tag).head? = some tag →
      Meets (fun _ => False) (OnLine title) (s.closeTag tag) := by
    intro tag s coherent onLine above head
    exact closeTag_onLine onLine coherent (mayEnd_of_head coherent head)
      (fun same => above (same ▸ List.mem_singleton_self _))
      fun region => openRegions_of_head coherent.sound region head
  have ends := closeAll_newest keeps _ once coherent ⟨front, content, within⟩
    (tagsEq ▸ List.Sublist.refl _)
  cases closed : closeAll (newer.map OpenTag.tag) s with
  | error halt =>
      rw [closed] at ends
      exact ends.elim
  | ok s₁ =>
      rw [closed] at ends
      obtain ⟨onLine₁, coherent₁, fewer⟩ := ends
      have only : s₁.opened = [⟨title.tag, some title.serial⟩] := by
        obtain ⟨front₁, content₁, within₁⟩ := onLine₁
        obtain ⟨newer₁, opened₁⟩ := within₁.first
        have length := fewer.length_le
        rw [opened₁, List.length_map, List.length_append, List.length_singleton,
          List.length_singleton] at length
        have none : newer₁ = [] := List.eq_nil_of_length_eq_zero (by omega)
        rw [opened₁, none, List.nil_append]
      refine ⟨s₁, onLine₁, coherent₁, only, ?_⟩
      rw [finish, finish, tagsEq, closeAll_append, closed, only]
      rfl

/-- A heading that is the first thing in a source becomes one element with its anchors in turn, in
a section of its own. -/
theorem complete_onLine {issued : List Text} {source : Text} (onLine : s.OnLine title)
    (coherent : s.Coherent calm) (serial : title.serial = 4)
    (before : title.before = ⟨3, .ofTag .paragraphEnd⟩ :: (startAt issued source).arena) :
    ∃ content, Anchored title.id false content ∧ output [] s.complete = .ok ("<section>".toList
      ++ (title.tag.openHalf ++ content ++ title.tag.closeHalf) ++ "</section>".toList
      ++ "<section></section>".toList) := by
  have reads : Meets (fun _ => False) (fun s' => s'.OnLine title ∧ s'.Coherent calm) s.reading :=
    steps_onLine _ onLine coherent
  rw [complete]
  cases read : s.reading with
  | error halt =>
      rw [read] at reads
      exact reads.elim
  | ok s₁ =>
      rw [read] at reads
      obtain ⟨s₂, ⟨front, content, within⟩, coherent₂, opened, finishes⟩ :=
        closeInner_onLine reads.1 reads.2
      have regions : s₂.openRegions = [⟨title.tag, title.serial⟩] := by
        rw [openRegions, opened]
        rfl
      have none : front = [] := by
        rw [within.regions] at regions
        simpa using regions
      subst none
      have arena : s₂.arena = ⟨4, (Region.ofTag title.tag).extend content⟩
          :: ⟨3, .ofTag .paragraphEnd⟩ :: (startAt issued source).arena := by
        rw [within.arena, before, Title.entry, serial]
        rfl
      have whole := output_headed title.isHeading coherent₂.sound arena (serial ▸ opened)
        within.outside
      have anchored := within.anchored
      refine ⟨content ++ if s₂.headingAnchorOpen then "</a>".toList else [], ?_, ?_⟩
      · cases anchor : s₂.headingAnchorOpen with
        | false =>
            rw [anchor] at anchored
            simpa using anchored
        | true =>
            rw [anchor] at anchored
            exact anchored.ends
      · change output [] s₁.finish = _
        rw [finishes, whole]

end MarkPress.Scan
