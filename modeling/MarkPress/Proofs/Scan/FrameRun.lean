/-
Module: MarkPress.Proofs.Scan.FrameRun
Purpose: Steps and runs inside of a frame.
  No delimiter has a line break in it, so a step never sees the text behind the source. Every step
  reads at least one character, so a run inside of a frame comes to that text in the state that the
  run without the frame ends in.
Main exports:
  Scan.Reads, step_follows, Scan.reading, reading_step, reading_inside, reading_reads
-/
import MarkPress.Proofs.Scan.FrameTags

namespace MarkPress

/-- Without a line break in it, a beginning that stands here ends before the text behind. -/
theorem Text.after?_behind {start : Text} (inLine : '\n' ∉ start) (text : Text) {behind : Text}
    (breaks : ∀ c ∈ behind.head?, c = '\n') :
    after? start (text ++ behind) = (after? start text).map (· ++ behind) := by
  induction start generalizing text with
  | nil => rfl
  | cons a start ih =>
      simp only [List.mem_cons, not_or] at inLine
      cases text with
      | nil =>
          cases behind with
          | nil => rfl
          | cons c rest =>
              have other : a ≠ c := fun same => inLine.1 ((breaks c rfl).symm.trans same.symm)
              simp [after?, other]
      | cons c text =>
          simp only [List.cons_append, after?]
          split
          · exact ih inLine.2 text
          · rfl

theorem Text.startsWith_behind {start : Text} (inLine : '\n' ∉ start) (text : Text) {behind : Text}
    (breaks : ∀ c ∈ behind.head?, c = '\n') :
    startsWith start (text ++ behind) = startsWith start text := by
  rw [startsWith, after?_behind inLine text breaks, Option.isSome_map, startsWith]

/-- A delimiter has at least one character, and no line break. -/
theorem Tag.opener_inLine {tag : Tag} {opener : Text} (found : tag.traits.opener = some opener) :
    '\n' ∉ opener ∧ opener ≠ [] := by
  have all : ∀ t ∈ Tag.all, ∀ o ∈ t.traits.opener, '\n' ∉ o ∧ o ≠ [] := by decide
  exact all tag tag.mem_all opener found

theorem Tag.closer_inLine {tag : Tag} {closer : Text} (found : tag.traits.closer = some closer) :
    '\n' ∉ closer ∧ closer ≠ [] := by
  have all : ∀ t ∈ Tag.all, ∀ o ∈ t.traits.closer, '\n' ∉ o ∧ o ≠ [] := by decide
  exact all tag tag.mem_all closer found

namespace Scan

variable {frame : Frame} {s s' : Scan} {post mid : Scan → Prop} {tag : Tag}

/-! ### What stands here -/

theorem opensHere_inside (breaks : frame.Breaks) (s : Scan) (atLineStart : Bool) (tag : Tag) :
    (s.inside frame).opensHere atLineStart tag = s.opensHere atLineStart tag := by
  have active : (s.inside frame).isActive = s.isActive := by
    funext other
    exact isActive_inside frame s other
  rw [opensHere, opensHere]
  cases found : tag.traits.opener with
  | none => rfl
  | some opener =>
      have here : Text.startsWith opener (s.inside frame).rest = Text.startsWith opener s.rest :=
        Text.startsWith_behind (Tag.opener_inLine found).1 s.rest breaks
      simp only [active, here]

theorem nextOpening_inside (breaks : frame.Breaks) (s : Scan) (atLineStart : Bool) :
    (s.inside frame).nextOpening atLineStart = s.nextOpening atLineStart := by
  have here : (s.inside frame).opensHere atLineStart = s.opensHere atLineStart := by
    funext tag
    exact opensHere_inside breaks s atLineStart tag
  rw [nextOpening, nextOpening, here]
  rfl

theorem closesHere_inside (breaks : frame.Breaks) (s : Scan) (tag : Tag) :
    (s.inside frame).closesHere tag = s.closesHere tag := by
  rw [closesHere, closesHere]
  cases found : tag.traits.closer with
  | none => rfl
  | some closer =>
      have here : Text.startsWith closer (s.inside frame).rest = Text.startsWith closer s.rest :=
        Text.startsWith_behind (Tag.closer_inLine found).1 s.rest breaks
      simp only [here]
      rfl

theorem nextClosing_inside (breaks : frame.Breaks) (s : Scan) :
    (s.inside frame).nextClosing = s.nextClosing := by
  have here : (s.inside frame).closesHere = s.closesHere := by
    funext tag
    exact closesHere_inside breaks s tag
  rw [nextClosing, nextClosing, here, tags_inside]

theorem isRuleLine_inside (breaks : frame.Breaks) (s : Scan) :
    isRuleLine (s.inside frame).rest = isRuleLine s.rest := by
  have after : Text.after? "---".toList (s.inside frame).rest
      = (Text.after? "---".toList s.rest).map (· ++ frame.behind) :=
    Text.after?_behind (by decide) s.rest breaks
  rw [isRuleLine, isRuleLine, after]
  cases Text.after? "---".toList s.rest with
  | none => rfl
  | some behind =>
      rw [Option.map_some]
      simp only [breaks.takeWhile]

theorem captionBracket_inside (frame : Frame) (s : Scan) (c : Char) :
    (s.inside frame).captionBracket c = s.captionBracket c := by
  have active : (s.inside frame).isActive = s.isActive := by
    funext other
    exact isActive_inside frame s other
  rw [captionBracket, captionBracket, active]
  rfl

theorem advance_inside (frame : Frame) {n : Nat} (enough : n ≤ s.rest.length) :
    (s.inside frame).advance n = (s.advance n).inside frame := by
  have rest : (s.rest ++ frame.behind).drop n = s.rest.drop n ++ frame.behind :=
    List.drop_append_of_le_length enough
  simp only [advance, inside, rest]

theorem length_of_nextOpening {atLineStart : Bool} (next : s.nextOpening atLineStart = some tag) :
    0 < (tag.traits.opener.getD []).length
      ∧ (tag.traits.opener.getD []).length ≤ s.rest.length := by
  obtain ⟨-, opener, found, here⟩ := opener_of_nextOpening next
  rw [found]
  exact ⟨List.length_pos_of_ne_nil (Tag.opener_inLine found).2, here.length_le⟩

theorem length_of_nextClosing (next : s.nextClosing = some tag) :
    0 < (tag.traits.closer.getD []).length
      ∧ (tag.traits.closer.getD []).length ≤ s.rest.length := by
  obtain ⟨-, closer, found, here⟩ := closer_of_nextClosing next
  rw [found]
  exact ⟨List.length_pos_of_ne_nil (Tag.closer_inLine found).2, here.length_le⟩

theorem sharp_of_nextOpening {atLineStart : Bool} (next : s.nextOpening atLineStart = some tag)
    (heading : tag.isHeading = true) : '#' ∈ s.rest := by
  obtain ⟨-, opener, found, here⟩ := opener_of_nextOpening next
  exact here.subset (sharp_mem_opener found heading)

/-! ### One step -/

/-- A scan goes on, and has less left to read. -/
structure Reads (s s' : Scan) : Prop where
  shorter : s'.rest.length < s.rest.length
  suffix : s'.rest <:+ s.rest
  anchorIds : '#' ∉ s.rest → s'.anchorIds = s.anchorIds
  grounded : s'.Grounded

/-- A scan reads characters of a line. -/
structure Advances (s s' : Scan) : Prop extends Reads s s' where
  blankRun : s'.blankRun = s.blankRun
  lineBlank : s'.lineBlank = s.lineBlank
  escaped : s'.escaped = s.escaped

/-- A scan goes on where it is. -/
structure Stays (s s' : Scan) : Prop where
  rest : s'.rest = s.rest
  anchorIds : s'.anchorIds = s.anchorIds
  grounded : s'.Grounded

theorem Steady.stays (steady : Steady False s s') : s.Stays s' :=
  ⟨steady.rest, steady.anchorIds id, steady.grounded⟩

namespace Stays

variable {s'' : Scan}

theorem trans (first : Stays s s') (later : Stays s' s'') : Stays s s'' :=
  ⟨later.rest.trans first.rest, later.anchorIds.trans first.anchorIds, later.grounded⟩

/-- Flags can change that have nothing to do with what is read. -/
theorem flags (stays : Stays s s') (rest : s''.rest = s'.rest)
    (anchorIds : s''.anchorIds = s'.anchorIds) (arena : s''.arena = s'.arena)
    (nextSerial : s''.nextSerial = s'.nextSerial) : Stays s s'' :=
  stays.trans ⟨rest, anchorIds, stays.grounded.of_labels (by rw [arena]) nextSerial⟩

theorem refl (grounded : s.Grounded) : Stays s s := ⟨rfl, rfl, grounded⟩

theorem reads (stays : Stays s s') (reads : Reads s' s'') : Reads s s'' where
  shorter := stays.rest ▸ reads.shorter
  suffix := stays.rest ▸ reads.suffix
  anchorIds noSharp := (reads.anchorIds (stays.rest ▸ noSharp)).trans stays.anchorIds
  grounded := reads.grounded

end Stays

theorem Grounded.advance (grounded : s.Grounded) {n : Nat} (some : 0 < n)
    (enough : n ≤ s.rest.length) : s.Advances (s.advance n) where
  shorter := by
    rw [Scan.advance, List.length_drop]
    omega
  suffix := List.drop_suffix n s.rest
  anchorIds _ := rfl
  grounded := grounded.of_labels rfl rfl
  blankRun := rfl
  lineBlank := rfl
  escaped := rfl

theorem Advances.steady {s'' : Scan} (advances : Advances s s')
    (steady : Steady ('#' ∈ s.rest) s' s'') : Advances s s'' where
  shorter := steady.rest ▸ advances.shorter
  suffix := steady.rest ▸ advances.suffix
  anchorIds noSharp := (steady.anchorIds noSharp).trans (advances.anchorIds noSharp)
  grounded := steady.grounded
  blankRun := steady.blankRun.trans advances.blankRun
  lineBlank := steady.lineBlank.trans advances.lineBlank
  escaped := steady.escaped.trans advances.escaped

theorem newline_follows (grounded : s.Grounded) :
    Follows frame s.Stays s.newline (s.inside frame).newline := by
  have closed : Follows frame s.Stays
      (closeAll ((s.opened.map OpenTag.tag).filter Tag.isSingleLine) s)
      (closeAll ((s.opened.map OpenTag.tag).filter Tag.isSingleLine) (s.inside frame)) :=
    (closeAll_follows _ grounded).mono fun _ => Steady.stays
  rw [newline, newline, tags_inside]
  apply closed.bind
  intro s₁ stays
  have counted : s.Stays { s₁ with blankRun := s₁.blankRun + 1 } := stays.flags rfl rfl rfl rfl
  have next : ∀ s₂ : Scan, s.Stays s₂ → Follows frame s.Stays
      (.ok { s₂ with lineBlank := true, indent := 0, skipWhitespace := false })
      (.ok { s₂.inside frame with lineBlank := true, indent := 0, skipWhitespace := false }) :=
    fun s₂ stays₂ => .ok rfl (stays₂.flags rfl rfl rfl rfl)
  refine .ite (fun _ => next _ (counted.flags rfl rfl rfl rfl)) fun _ => ?_
  refine .ite (fun _ => .ite (fun _ => ?_) fun _ => ?_) fun _ => next _ counted
  · exact ((setListLevel_follows counted.grounded 0).mono fun _ steady =>
      counted.trans steady.stays).bind next
  · have opened := (Steady.refl counted.grounded).openParagraph.stays
    have framed := openParagraph_inside frame { s₁ with blankRun := s₁.blankRun + 1 }
    exact framed ▸ next _ (counted.trans opened)

theorem newline_stays (grounded : s.Grounded) : Meets (fun _ => True) s.Stays s.newline :=
  have follows : Follows (.line []) s.Stays s.newline (s.inside (.line [])).newline :=
    newline_follows grounded
  follows.meets

theorem whitespace_inside (frame : Frame) (s : Scan) (c : Char) :
    (s.inside frame).whitespace c = (s.whitespace c).inside frame := by
  by_cases blank : s.lineBlank
  · simp [whitespace, inside, blank]
  · by_cases skip : s.skipWhitespace
    · simp [whitespace, inside, blank, skip]
    · simp [whitespace, inside, blank, skip]

theorem whitespace_stays (grounded : s.Grounded) (c : Char) : s.Stays (s.whitespace c) := by
  rw [whitespace_eq]
  exact (Stays.refl grounded).flags rfl rfl rfl rfl

theorem rule_follows (grounded : s.Grounded) (enough : 3 ≤ s.rest.length) :
    Follows frame s.Reads s.rule (s.inside frame).rule := by
  apply (setListLevel_follows grounded 0).bind
  intro s₁ steady
  have opened := (steady.endParagraph.push .rule).openParagraph.stays
  have enough₂ : 3 ≤ ((s₁.endParagraph.push .rule).openParagraph).rest.length := by
    rw [opened.rest]
    exact enough
  have reads := opened.reads (opened.grounded.advance (by decide) enough₂).toReads
  refine .ok ?_ { reads with grounded := reads.grounded.of_labels rfl rfl }
  rw [endParagraph_inside, push_inside, openParagraph_inside, advance_inside frame enough₂]
  rfl

theorem enterSolid_follows (grounded : s.Grounded) (breaks : frame.Breaks) (atLineStart : Bool) :
    Follows frame (fun s' => s.Stays s' ∧ s'.blankRun = 0) (s.enterSolid atLineStart)
      ((s.inside frame).enterSolid atLineStart) := by
  have next : ∀ s₁ : Scan, s.Stays s₁ → Follows frame (fun s' => s.Stays s' ∧ s'.blankRun = 0)
      (.ok { s₁ with lineBlank := false, blankRun := 0, skipWhitespace := false })
      (.ok { s₁.inside frame with lineBlank := false, blankRun := 0, skipWhitespace := false }) :=
    fun s₁ stays₁ => .ok rfl ⟨stays₁.flags rfl rfl rfl rfl, rfl⟩
  rw [enterSolid, enterSolid, nextOpening_inside breaks]
  refine .ite (fun _ => ?_) fun _ => next s (.refl grounded)
  apply (setListLevel_follows grounded 0).bind
  exact fun s₁ steady => next s₁ steady.stays

theorem literal_follows (grounded : s.Grounded) (some : s.rest ≠ []) (c : Char) :
    Follows frame s.Advances (s.literal c) ((s.inside frame).literal c) := by
  have appended : Follows frame (Steady False s) (s.appendLiteral c)
      ((s.inside frame).appendLiteral c) := appendLiteral_follows grounded c
  apply appended.bind
  intro s₁ steady
  have enough : 1 ≤ s₁.rest.length := by
    rw [steady.rest]
    exact List.length_pos_of_ne_nil some
  refine .ok (advance_inside frame enough) ?_
  have advances := steady.grounded.advance (by decide) enough
  exact {
    shorter := steady.rest ▸ advances.shorter
    suffix := steady.rest ▸ advances.suffix
    anchorIds := fun _ => steady.anchorIds id
    grounded := advances.grounded
    blankRun := steady.blankRun
    lineBlank := steady.lineBlank
    escaped := steady.escaped }

theorem literal_advances (grounded : s.Grounded) (some : s.rest ≠ []) (c : Char) :
    Meets (fun _ => True) s.Advances (s.literal c) :=
  have follows : Follows (.line []) s.Advances (s.literal c)
      ((s.inside (.line [])).literal c) := literal_follows grounded some c
  follows.meets

theorem delimiterOrLiteral_follows (grounded : s.Grounded) (breaks : frame.Breaks)
    (some : s.rest ≠ []) (atLineStart : Bool) (c : Char) :
    Follows frame s.Advances (s.delimiterOrLiteral atLineStart c)
      ((s.inside frame).delimiterOrLiteral atLineStart c) := by
  rw [delimiterOrLiteral, delimiterOrLiteral, nextOpening_inside breaks, nextClosing_inside breaks]
  cases nextOpen : s.nextOpening atLineStart with
  | some tag =>
      obtain ⟨positive, enough⟩ := length_of_nextOpening nextOpen
      have advances := grounded.advance positive enough
      have named : tag.isHeading = true → '#' ∈ s.rest := sharp_of_nextOpening nextOpen
      simp only [advance_inside frame enough]
      exact (openTag_follows advances.grounded breaks named).mono fun _ => advances.steady
  | none =>
      cases nextClose : s.nextClosing with
      | some tag =>
          obtain ⟨positive, enough⟩ := length_of_nextClosing nextClose
          have advances := grounded.advance positive enough
          simp only [advance_inside frame enough]
          exact (closeTag_follows advances.grounded tag).mono fun _ => advances.steady
      | none => exact literal_follows grounded some c

theorem verbatimStep_follows (grounded : s.Grounded) (breaks : frame.Breaks) (some : s.rest ≠ [])
    (c : Char) : Follows frame s.Advances (s.verbatimStep c) ((s.inside frame).verbatimStep c) := by
  have unfenced : Grounded { s with afterFence := false } := grounded.of_labels rfl rfl
  have enough : 1 ≤ ({ s with afterFence := false } : Scan).rest.length :=
    List.length_pos_of_ne_nil some
  have same : ∀ s', Advances { s with afterFence := false } s' → s.Advances s' :=
    fun s' advances => { advances with }
  refine .mono (.ite (fun _ => .ok (advance_inside frame enough) ?_) fun _ => ?_) same
  · exact unfenced.advance (by decide) enough
  · exact delimiterOrLiteral_follows unfenced breaks some s.lineBlank c

theorem solidStep_follows (grounded : s.Grounded) (breaks : frame.Breaks) (some : s.rest ≠ [])
    (c : Char) :
    Follows frame (fun s' => s.Reads s' ∧ s'.blankRun = 0) (s.solidStep c)
      ((s.inside frame).solidStep c) := by
  apply (enterSolid_follows grounded breaks s.lineBlank).bind
  rintro s₁ ⟨stays, visible⟩
  have some₁ : s₁.rest ≠ [] := by
    rw [stays.rest]
    exact some
  have reads : ∀ s₂ s', s.Stays s₂ → s₂.blankRun = 0 → s₂.Advances s' →
      s.Reads s' ∧ s'.blankRun = 0 := fun s₂ s' stays₂ visible₂ advances =>
    ⟨stays₂.reads advances.toReads, advances.blankRun.trans visible₂⟩
  refine .ite (fun _ => ?_) fun _ => ?_
  · have escaped : s.Stays { s₁ with escaped := true } := stays.flags rfl rfl rfl rfl
    have enough : 1 ≤ ({ s₁ with escaped := true } : Scan).rest.length :=
      List.length_pos_of_ne_nil some₁
    exact .ok (advance_inside frame enough)
      (reads _ _ escaped visible (escaped.grounded.advance (by decide) enough))
  · rw [captionBracket_inside]
    cases s₁.captionBracket c with
    | some depth =>
        have counted : s.Stays { s₁ with bracketDepth := depth } := stays.flags rfl rfl rfl rfl
        exact (literal_follows counted.grounded some₁ c).mono fun s' =>
          reads _ s' counted visible
    | none =>
        exact (delimiterOrLiteral_follows stays.grounded breaks some₁ s.lineBlank c).mono
          fun s' => reads s₁ s' stays visible

theorem prefix_of_isRuleLine {text : Text} (ruled : isRuleLine text = true) :
    "---".toList <+: text := by
  apply Text.startsWith_iff.mp
  rw [Text.startsWith]
  rw [isRuleLine] at ruled
  cases found : Text.after? "---".toList text with
  | none =>
      rw [found] at ruled
      cases ruled
  | some behind => rfl

theorem length_of_isRuleLine {text : Text} (ruled : isRuleLine text = true) :
    3 ≤ text.length :=
  (prefix_of_isRuleLine ruled).length_le

/-- Every step inside of a frame follows the step without it, and reads at least one character. -/
theorem step_follows (grounded : s.Grounded) (breaks : frame.Breaks) (some : s.rest ≠ []) :
    Follows frame s.Reads s.step (s.inside frame).step := by
  cases split : s.arena with
  | nil => exact absurd split grounded.arena_ne_nil
  | cons entry older =>
      have split' : (s.inside frame).arena
          = entry.renumber frame.shift :: frame.around older := by
        simp only [inside, split]
        rfl
      cases restEq : s.rest with
      | nil => exact absurd restEq some
      | cons c rest =>
          have restEq' : (s.inside frame).rest = c :: (rest ++ frame.behind) := by
            simp only [inside, restEq, List.cons_append]
          have enough : ∀ s₁, s.Stays s₁ → 1 ≤ s₁.rest.length := by
            intro s₁ stays
            rw [stays.rest]
            exact List.length_pos_of_ne_nil some
          rw [step_eq split restEq, step_eq split' restEq', isRuleLine_inside breaks]
          refine .ite (fun _ => ?_) fun _ => .ite (fun _ => ?_) fun _ => .ite (fun _ => ?_) fun _ =>
            .ite (fun _ => ?_) fun _ => .ite (fun ruled => ?_) fun _ => ?_
          · exact (verbatimStep_follows grounded breaks some c).mono fun _ => Advances.toReads
          · have unescaped : s.Stays { s with escaped := false } :=
              (Stays.refl grounded).flags rfl rfl rfl rfl
            exact (literal_follows unescaped.grounded some c).mono
              fun _ advances => unescaped.reads advances.toReads
          · apply (newline_follows grounded).bind
            exact fun s₁ stays => .ok (advance_inside frame (enough s₁ stays))
              (stays.reads (stays.grounded.advance (by decide) (enough s₁ stays)).toReads)
          · have stays := whitespace_stays grounded c
            rw [whitespace_inside, advance_inside frame (enough _ stays)]
            exact .ok rfl
              (stays.reads (stays.grounded.advance (by decide) (enough _ stays)).toReads)
          · rw [Bool.and_eq_true] at ruled
            exact rule_follows grounded (length_of_isRuleLine ruled.2)
          · exact (solidStep_follows grounded breaks some c).mono fun _ => And.left

/-! ### Reading to the end -/

/-- An empty text begins on the next line. -/
theorem Frame.breaks_empty : (Frame.line []).Breaks := by simp [Frame.Breaks, Frame.line]

/-- The steps of a scan to the end of its source. -/
def reading (s : Scan) : Outcome := s.steps s.rest.length

/-- Every step reads at least one character. -/
theorem step_reads (grounded : s.Grounded) (some : s.rest ≠ []) :
    Meets (fun _ => True) s.Reads s.step :=
  (step_follows grounded Frame.breaks_empty some).meets

/-- More steps than there are characters change nothing. -/
theorem steps_enough (grounded : s.Grounded) {m n : Nat} (enough : s.rest.length ≤ m)
    (enough' : s.rest.length ≤ n) : s.steps m = s.steps n := by
  induction m generalizing s n with
  | zero =>
      have none : s.rest = [] := List.eq_nil_of_length_eq_zero (Nat.le_zero.mp enough)
      cases n <;> simp [steps, none]
  | succ m ih =>
      by_cases none : s.rest = []
      · cases n <;> simp [steps, none]
      · cases n with
        | zero => exact absurd (List.eq_nil_of_length_eq_zero (Nat.le_zero.mp enough')) none
        | succ n =>
            have unread : ¬ s.rest.isEmpty = true := by simpa using none
            rw [steps, steps, if_neg unread, if_neg unread]
            apply (step_reads grounded none).bind_congr
            intro s₁ reads
            have shorter := reads.shorter
            exact ih reads.grounded (by omega) (by omega)

theorem reading_nil (none : s.rest = []) : s.reading = .ok s := by
  rw [reading, none]
  rfl

theorem reading_step (grounded : s.Grounded) (some : s.rest ≠ []) :
    s.reading = s.step >>= reading := by
  have unread : ¬ s.rest.isEmpty = true := by simpa using some
  have more : s.reading = s.steps (s.rest.length + 1) :=
    steps_enough grounded (Nat.le_refl _) (Nat.le_succ _)
  rw [more, steps, if_neg unread]
  apply (step_reads grounded some).bind_congr
  intro s₁ reads
  exact steps_enough reads.grounded (Nat.le_of_lt reads.shorter) (Nat.le_refl _)

/-- A scan goes on to the end of its source. -/
structure ReadsAll (s s' : Scan) : Prop where
  rest : s'.rest = []
  anchorIds : '#' ∉ s.rest → s'.anchorIds = s.anchorIds
  grounded : s'.Grounded

/-- Reading inside of a frame comes to the text behind the source where the reading without the
frame ends. -/
theorem reading_inside (grounded : s.Grounded) (breaks : frame.Breaks)
    (framed : (s.inside frame).Grounded) :
    ∃ middle, Follows frame s.ReadsAll s.reading middle
      ∧ (s.inside frame).reading = middle >>= reading := by
  generalize lengthEq : s.rest.length = length
  induction length using Nat.strong_induction_on generalizing s with
  | _ length ih =>
      by_cases none : s.rest = []
      · refine ⟨.ok (s.inside frame), ?_, rfl⟩
        rw [reading_nil none]
        exact .ok rfl ⟨none, fun _ => rfl, grounded⟩
      · have some' : (s.inside frame).rest ≠ [] := by simp [inside, none]
        have steps := step_follows grounded breaks none
        have reads := step_reads framed some'
        rw [reading_step grounded none, reading_step framed some']
        cases stepped : s.step with
        | error halt =>
            rw [stepped] at steps
            cases stepped' : (s.inside frame).step with
            | ok t =>
                rw [stepped'] at steps
                exact steps.elim
            | error other =>
                rw [stepped'] at steps
                exact ⟨.error other, steps, rfl⟩
        | ok s₁ =>
            rw [stepped] at steps
            cases stepped' : (s.inside frame).step with
            | error other =>
                rw [stepped'] at steps
                exact steps.elim
            | ok t =>
                rw [stepped'] at steps reads
                obtain ⟨rfl, reads₁⟩ := steps
                obtain ⟨middle, follows, goesOn⟩ :=
                  ih _ (lengthEq ▸ reads₁.shorter) reads₁.grounded reads.grounded rfl
                refine ⟨middle, follows.mono fun s' all => ⟨all.rest, fun noSharp => ?_,
                  all.grounded⟩, goesOn⟩
                have noSharp₁ : '#' ∉ s₁.rest := fun sharp => noSharp (reads₁.suffix.subset sharp)
                exact (all.anchorIds noSharp₁).trans (reads₁.anchorIds noSharp)

theorem reading_reads (grounded : s.Grounded) :
    Meets (fun _ => True) s.ReadsAll s.reading := by
  obtain ⟨_, follows, -⟩ :=
    reading_inside grounded Frame.breaks_empty (grounded.inside (Frame.line_firm []))
  exact follows.meets

end Scan

end MarkPress
