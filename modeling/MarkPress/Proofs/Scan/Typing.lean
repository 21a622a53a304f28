/-
Module: MarkPress.Proofs.Scan.Typing
Purpose: Characters that stand for themselves.
  Where nothing begins or ends with the next character, it is written into the newest region, behind
  the space that was read before it. So a text of such characters comes to the end of that region,
  escaped, and changes nothing else but how the line stands.
Main exports:
  Scan.space, Scan.Typed, Scan.Ready, Scan.Solid, step_visible, step_solid, Scan.Inert, step_inert,
  Scan.Amid, reading_inert
-/
import MarkPress.Proofs.Html.Escape
import MarkPress.Proofs.Scan.FrameRun

namespace MarkPress

open Html

theorem Region.extend_extend (region : Region) (text more : Text) :
    (region.extend text).extend more = region.extend (text ++ more) := by
  simp [Region.extend]

/-- The text of a region is what has been written into it. -/
theorem Region.inner_extend_ofTag (tag : Tag) (text : Text) :
    ((ofTag tag).extend text).inner = text :=
  inner_extend text (ofTag tag)

namespace Scan

variable {s s' s₁ : Scan} {c : Char} {text more rest : Text}

/-! ### Typed text -/

/-- The space that is written before the next text. -/
def space (s : Scan) : Text := if s.pendingSpace && !s.atBlockStart then [' '] else []

/-- Text has been read on a line. It is at the end of the newest region, and nothing else has
changed but how much has been read and how the line stands. -/
def Typed (text : Text) (s s' : Scan) : Prop :=
  s' = { s with
    rest := s'.rest
    written := s'.written
    arena := (s.put text).arena
    lineBlank := false, blankRun := 0, skipWhitespace := false
    pendingSpace := false, atBlockStart := false }

theorem put_put_arena (s s₁ : Scan) (arena : s₁.arena = (s.put text).arena) :
    (s₁.put more).arena = (s.put (text ++ more)).arena := by
  cases split : s.arena with
  | nil =>
      simp only [put, split] at arena ⊢
      rw [arena]
  | cons entry older =>
      simp only [put, split] at arena ⊢
      rw [arena]
      simp [Region.extend]

theorem put_nil_arena (s : Scan) : (s.put []).arena = s.arena := by
  cases split : s.arena <;> simp [put, split, Region.extend]

theorem Typed.trans (first : Typed text s s₁) (later : Typed more s₁ s') :
    Typed (text ++ more) s s' := by
  rw [Typed] at first later ⊢
  have arena : s₁.arena = (s.put text).arena := by rw [first]
  rw [later, put_put_arena s s₁ arena]
  conv_lhs => rw [first]

/-- How the line stands, and how much has been read, does not matter to what is typed next. -/
theorem Typed.of_line (typed : Typed text s₁ s')
    (same : s₁ = { s with
      rest := s₁.rest, lineBlank := s₁.lineBlank, blankRun := s₁.blankRun
      skipWhitespace := s₁.skipWhitespace, pendingSpace := s₁.pendingSpace }) :
    Typed text s s' := by
  have arena : (s₁.put text).arena = (s.put text).arena := by
    rw [same]
    rfl
  rw [Typed] at typed ⊢
  rw [typed, arena]
  conv_lhs => rw [same]

theorem Typed.space (typed : Typed text s s') : s'.space = [] := by
  rw [typed]
  rfl

theorem Typed.lineBlank (typed : Typed text s s') : s'.lineBlank = false := by
  rw [typed]

theorem Typed.opened (typed : Typed text s s') : s'.opened = s.opened := by
  rw [typed]

theorem Typed.exclusive (typed : Typed text s s') : s'.exclusive = s.exclusive := by
  rw [typed]

theorem Typed.bracketDepth (typed : Typed text s s') : s'.bracketDepth = s.bracketDepth := by
  rw [typed]

/-- The state in which a text has been read on a line. -/
theorem Typed.eq (typed : Typed text s s') (next : s'.rest = rest) :
    ∃ written, s' = { s with
      rest := rest
      written := written
      arena := (s.put text).arena
      lineBlank := false, blankRun := 0, skipWhitespace := false
      pendingSpace := false, atBlockStart := false } :=
  ⟨s'.written, next ▸ typed⟩

/-! ### One character -/

/-- Text goes to the newest region, and the next character has its meaning. -/
structure Ready (s : Scan) : Prop where
  grounded : s.Grounded
  receives : ∃ entry older, s.arena = entry :: older ∧ entry.region.isSealed = false
    ∧ entry.region.tag.traits.isVerbatim = false
  escaped : s.escaped = false

theorem Ready.takesText (ready : s.Ready) : s.TakesText := by
  obtain ⟨entry, older, split, unsealed, -⟩ := ready.receives
  exact ⟨entry, older, split, unsealed⟩

theorem Ready.typed (ready : s.Ready) (typed : Typed text s s') : s'.Ready where
  grounded := by
    have labels := labels_put text s
    rw [typed]
    exact ready.grounded.of_labels labels rfl
  receives := by
    obtain ⟨entry, older, split, unsealed, plain⟩ := ready.receives
    refine ⟨{ entry with region := entry.region.extend text }, older, ?_, unsealed, plain⟩
    rw [typed, put, split]
  escaped := by
    rw [typed]
    exact ready.escaped

/-- The state at a visible character. -/
def entered (s : Scan) : Scan :=
  { s with lineBlank := false, blankRun := 0, skipWhitespace := false }

/-- A character that is next is a delimiter or stands for itself. -/
structure Solid (c : Char) (s : Scan) : Prop where
  visible : c ≠ '\n' ∧ c ≠ '\\' ∧ Text.isGap c = false
  /-- At the beginning of a line it ends no list and begins no rule. -/
  line : s.lineBlank = true → s.listLevel = 0 ∧ isRuleLine s.rest = false
  bracket : s.captionBracket c = none

/-- A visible character that leaves the lists open is a delimiter or stands for itself. -/
theorem step_visible (ready : s.Ready) (next : s.rest = c :: rest)
    (visible : c ≠ '\n' ∧ c ≠ '\\' ∧ Text.isGap c = false)
    (stays : s.lineBlank = true → s.listLevel = 0 ∨ s.nextOpening true = some .listItem)
    (noRule : s.lineBlank = true → isRuleLine s.rest = false)
    (bracket : s.captionBracket c = none) :
    s.step = s.entered.delimiterOrLiteral s.lineBlank c := by
  obtain ⟨entry, older, split, -, notVerbatim⟩ := ready.receives
  have stays' : (s.lineBlank && s.listLevel != 0 && s.exclusive.isNone
      && s.nextOpening true != some .listItem) = false := by
    cases blank : s.lineBlank with
    | false => rfl
    | true =>
        rcases stays blank with outside | item
        · simp [outside]
        · simp [item]
  have noRule' : (s.lineBlank && s.exclusive.isNone && isRuleLine s.rest) = false := by
    cases blank : s.lineBlank with
    | false => rfl
    | true => simp [noRule blank]
  have enters : s.enterSolid s.lineBlank = .ok s.entered := by
    rw [enterSolid, stays', if_neg Bool.false_ne_true]
    rfl
  have bracket' : s.entered.captionBracket c = none := bracket
  rw [step_eq split next, if_neg (by simp [notVerbatim]), if_neg (by simp [ready.escaped]),
    if_neg visible.1, if_neg (by simp [visible.2.2]), if_neg (by simp [noRule']), solidStep, enters]
  change (if c = '\\' then _ else _ : Outcome) = _
  rw [if_neg visible.2.1, bracket']

theorem step_solid (ready : s.Ready) (next : s.rest = c :: rest) (solid : s.Solid c) :
    s.step = s.entered.delimiterOrLiteral s.lineBlank c :=
  step_visible ready next solid.visible (fun blank => .inl (solid.line blank).1)
    (fun blank => (solid.line blank).2) solid.bracket

/-- Nothing begins or ends with a character that is next. -/
structure Inert (c : Char) (s : Scan) : Prop extends Solid c s where
  opening : s.nextOpening s.lineBlank = none
  closing : s.nextClosing = none

/-- A character that stands for itself is written, behind the space that was read before it. -/
theorem step_inert (ready : s.Ready) (next : s.rest = c :: rest) (inert : s.Inert c) :
    ∃ s', s.step = .ok s' ∧ Typed (s.space ++ escapeText [c]) s s' ∧ s'.rest = rest := by
  have opening : s.entered.nextOpening s.lineBlank = none := inert.opening
  have closing : s.entered.nextClosing = none := inert.closing
  have takes : s.entered.TakesText := ready.takesText
  have wrote : s.entered.literal c = .ok ((s.entered.putLiteral c).advance 1) := by
    rw [literal, appendLiteral_eq takes]
    rfl
  obtain ⟨entry, older, split, -⟩ := ready.receives
  refine ⟨(s.entered.putLiteral c).advance 1, ?_, ?_, ?_⟩
  · rw [step_solid ready next inert.toSolid, delimiterOrLiteral, opening, closing, wrote]
  · cases pending : s.pendingSpace <;> cases start : s.atBlockStart <;>
      simp [Typed, Scan.space, putLiteral, spaced, advance, put, entered, pending, start, split,
        Region.extend]
  · cases pending : s.pendingSpace <;> cases start : s.atBlockStart <;>
      simp [putLiteral, spaced, advance, put, entered, pending, start, next]

theorem reading_inert_step (ready : s.Ready) (next : s.rest = c :: rest) (inert : s.Inert c) :
    ∃ s', s.reading = s'.reading ∧ Typed (s.space ++ escapeText [c]) s s' ∧ s'.rest = rest := by
  obtain ⟨s', stepped, typed, next'⟩ := step_inert ready next inert
  refine ⟨s', ?_, typed, next'⟩
  rw [reading_step ready.grounded (by simp [next]), stepped]
  rfl

/-! ### A text of such characters -/

/-- Behind the first visible character of a block, with no white space to write. -/
def Amid (s : Scan) : Prop := Typed [] s s

theorem Typed.amid (typed : Typed text s s') : s'.Amid := by
  rw [Amid, Typed, put_nil_arena, typed]

/-- A text is written as it stands if each of its characters stands for itself where it is met. -/
theorem reading_inert (ready : s.Ready) (amid : s.Amid) (next : s.rest = text ++ rest)
    (inert : ∀ before d behind t, text = before ++ d :: behind → Typed (escapeText before) s t →
      t.rest = d :: (behind ++ rest) → t.Inert d) :
    ∃ s', s.reading = s'.reading ∧ Typed (escapeText text) s s' ∧ s'.rest = rest := by
  induction text generalizing s with
  | nil => exact ⟨s, rfl, amid, next⟩
  | cons c text ih =>
      obtain ⟨s₁, reads, typed, next₁⟩ :=
        reading_inert_step ready next (inert [] c text s rfl amid next)
      rw [Typed.space amid, List.nil_append] at typed
      obtain ⟨s', reads', typed', next'⟩ := ih (ready.typed typed) typed.amid next₁ <| by
        intro before d behind t split later
        have whole := typed.trans later
        rw [← escapeText_cons] at whole
        exact inert (c :: before) d behind t (congrArg (c :: ·) split) whole
      refine ⟨s', reads.trans reads', ?_, next'⟩
      rw [escapeText_cons]
      exact typed.trans typed'

end Scan

end MarkPress
