/-
Module: MarkPress.Proofs.Scan.Step
Purpose: Every step keeps a scan coherent.
  Each character is read by operations that begin or end tags where they may, or that write text and
  change flags. A step that does not keep the scan coherent is refused by a host that has been
  rendered, and a calm scan is never refused.
Main exports:
  Scan.Goes, newline_meets, rule_meets, literal_meets, delimiterOrLiteral_meets, verbatimStep_meets,
  Scan.SolidKeeps, solidStep_keeps, solidStep_meets, step_eq, Scan.StepKeeps, step_keeps, step_meets
-/
import MarkPress.Proofs.Scan.Delimiter

namespace MarkPress.Scan

open Html

variable {s s' : Scan} {calm : Prop}

/-- A scan goes on and is coherent. -/
def Goes (calm : Prop) (s s' : Scan) : Prop := s'.Coherent calm ∧ Edits s s'

theorem Goes.refl (coherent : s.Coherent calm) : s.Goes calm s := ⟨coherent, .refl s⟩

theorem Goes.trans {s'' : Scan} (first : s.Goes calm s') (later : s'.Goes calm s'') :
    s.Goes calm s'' :=
  ⟨later.1, first.2.trans later.2⟩

theorem Goes.flags (goes : s.Goes calm s') {s'' : Scan} (content : s''.content = s'.content)
    (rest : ∀ c ∈ s''.rest, c ∈ s'.rest) (listLevel : s''.listLevel = s'.listLevel)
    (anchor : s''.headingAnchorOpen = s'.headingAnchorOpen) (control : s''.Control) :
    s.Goes calm s'' :=
  ⟨goes.1.flags content rest listLevel anchor control, goes.2.trans (.single (.control content))⟩

theorem Goes.advance (goes : s.Goes calm s') (n : Nat) : s.Goes calm (s'.advance n) :=
  ⟨goes.1.advance n, goes.2.trans (.single (.control rfl))⟩

theorem Goes.adds (goes : s.Goes calm s') {s'' : Scan} (adds : s'.Adds s'')
    (writable : s''.Writable) : s.Goes calm s'' :=
  ⟨goes.1.adds adds writable, goes.2.trans adds.edits⟩

/-! ### Line breaks and white space -/

/-- A new line begins where no tag is open that ends with its line. -/
theorem Goes.newLine (goes : s.Goes calm s') (ended : ∀ o ∈ s'.opened, o.tag.isSingleLine = false) :
    s.Goes calm { s' with lineBlank := true, indent := 0, skipWhitespace := false } :=
  goes.flags rfl (fun _ => id) rfl rfl { goes.1.control with blank := fun _ => ended }

theorem newline_meets (coherent : s.Coherent calm) :
    Meets (Refused calm) (fun s' => s.Goes calm s') s.newline := by
  rw [newline]
  apply Meets.bind (closeLines_meets coherent)
  intro s₁ met
  obtain ⟨coherent₁, closes, ended⟩ := met
  have counted : s.Goes calm { s₁ with blankRun := s₁.blankRun + 1 } :=
    Goes.flags ⟨coherent₁, closes.edits⟩ rfl (fun _ => id) rfl rfl { coherent₁.control with }
  dsimp only
  split
  · have spaced : s.Goes calm { s₁ with blankRun := s₁.blankRun + 1, pendingSpace := true } :=
      counted.flags rfl (fun _ => id) rfl rfl { coherent₁.control with }
    exact spaced.newLine ended
  · split
    · split
      · apply Meets.bind (closeLists_meets counted.1.sound counted.1.writable)
        intro s₂ met
        obtain ⟨adds, writable, -⟩ := met
        refine (counted.adds adds writable).newLine ?_
        rw [adds.keeps.opened]
        exact ended
      · have adds := openParagraph_adds { s₁ with blankRun := s₁.blankRun + 1 }
        refine (counted.adds adds (openParagraph_writable _)).newLine ?_
        rw [adds.keeps.opened]
        exact ended
    · exact counted.newLine ended

theorem whitespace_goes (coherent : s.Coherent calm) (c : Char) : s.Goes calm (s.whitespace c) := by
  rw [whitespace_eq]
  exact (Goes.refl coherent).flags rfl (fun _ => id) rfl rfl { coherent.control with }

theorem rule_meets (coherent : s.Coherent calm) :
    Meets (Refused calm) (fun s' => s.Goes calm s') s.rule := by
  rw [rule]
  apply Meets.bind (closeLists_meets coherent.sound coherent.writable)
  intro s₁ met
  obtain ⟨adds₁, writable₁, -⟩ := met
  have ruled : s₁.Adds (s₁.endParagraph.push .rule) :=
    s₁.endParagraph_adds.trans (push_adds _ (by decide))
  have goes := ((Goes.refl coherent).adds adds₁ writable₁).adds
    (ruled.trans (openParagraph_adds _)) (openParagraph_writable _)
  have read := goes.advance 3
  exact read.flags rfl (fun _ => id) rfl rfl { read.1.control with }

theorem literal_meets (coherent : s.Coherent calm) (c : Char) :
    Meets (Refused calm) (fun s' => s.Goes calm s') (s.literal c) := by
  rw [literal]
  apply Meets.bind (appendLiteral_meets coherent.sound coherent.writable c)
  intro s₁ met
  obtain ⟨adds, writable⟩ := met
  exact ((Goes.refl coherent).adds adds writable).advance 1

/-! ### Delimiters -/

theorem delimiterOrLiteral_meets (coherent : s.Coherent calm) {atLineStart : Bool}
    (visible : s.exclusive = none → s.lineBlank = false)
    (alone : atLineStart = true → ∀ o ∈ s.opened, o.tag.isSingleLine = false) (c : Char) :
    Meets (Refused calm) (fun s' => s.Goes calm s') (s.delimiterOrLiteral atLineStart c) := by
  have read : ∀ n, s.Goes calm (s.advance n) := fun n => (Goes.refl coherent).advance n
  rw [delimiterOrLiteral]
  cases nextOpen : s.nextOpening atLineStart with
  | some tag =>
      have mayBegin := mayBegin_of_nextOpening coherent visible alone nextOpen
      exact Meets.mono (openTag_meets (read _).1 (mayBegin.advance _))
        fun s' goes => (read _).trans goes
  | none =>
      cases nextClose : s.nextClosing with
      | some tag =>
          have mayEnd := mayEnd_of_nextClosing coherent nextClose
          apply Meets.mono (closeTag_meets (read _).1 (mayEnd.advance _))
          intro s' met
          obtain ⟨coherent', closes, -⟩ := met
          exact (read _).trans ⟨coherent', closes.edits⟩
      | none => exact literal_meets coherent c

/-! ### One step -/

/-- Where the newest region is verbatim, its tag is the exclusive one. -/
theorem exclusive_eq_of_verbatim (coherent : s.Coherent calm) {region : Region}
    (newest : s.current = .ok region) (verbatim : region.tag.traits.isVerbatim = true) :
    s.exclusive = some region.tag := by
  obtain ⟨entry, older, split, open_or_text⟩ := coherent.writable
  simp only [current, split, Except.ok.injEq] at newest
  subst newest
  rcases open_or_text with isText | isOpen
  · simp only [Entry.tag] at isText
    rw [isText] at verbatim
    cases verbatim
  · obtain ⟨o, member, serial⟩ := isOpen_iff.mp isOpen
    obtain ⟨e, entryMember, eSerial, eTag⟩ := coherent.sound.entry_of_open member
    have same : e = entry := by
      have newestMember : entry ∈ s.arena ++ s.detached := by simp [split]
      exact coherent.sound.entry_unique entryMember newestMember (eSerial.trans serial)
    rw [same] at eTag
    have tag : o.tag = entry.region.tag := eTag.symm
    have exclusive : o.tag.traits.isExclusive = true := by
      rw [← tag] at verbatim
      revert verbatim
      cases o.tag <;> decide
    rw [coherent.control.only _ (mem_openRegions.mp member) exclusive, tag]

theorem exclusive_of_verbatim (coherent : s.Coherent calm) {region : Region}
    (newest : s.current = .ok region) (verbatim : region.tag.traits.isVerbatim = true) :
    s.exclusive ≠ none := by
  rw [exclusive_eq_of_verbatim coherent newest verbatim]
  simp

/-- Behind a fence its first line break is over. -/
theorem Coherent.unfenced (coherent : s.Coherent calm) :
    Coherent calm { s with afterFence := false } :=
  coherent.flags rfl (fun _ => id) rfl rfl
    { coherent.control with fence := fun fence => by cases fence }

theorem verbatimStep_meets (coherent : s.Coherent calm) (exclusive : s.exclusive ≠ none)
    (c : Char) :
    Meets (Refused calm) (fun s' => s.Goes calm s') (s.verbatimStep c) := by
  have unfenced : s.Goes calm { s with afterFence := false } :=
    (Goes.refl coherent).flags rfl (fun _ => id) rfl rfl coherent.unfenced.control
  rw [verbatimStep]
  split
  · exact unfenced.advance 1
  · refine Meets.mono (delimiterOrLiteral_meets unfenced.1 ?_ ?_ c)
      fun s' goes => unfenced.trans goes
    · exact fun free => absurd free exclusive
    · exact fun lineBlank => coherent.control.blank lineBlank

/-- The first visible character of a line finds no tag open that ends with its line. -/
theorem enterSolid_meets (coherent : s.Coherent calm) (atLineStart : Bool) :
    Meets (Refused calm) (fun s' => s.Goes calm s' ∧ s'.opened = s.opened ∧ s'.lineBlank = false)
      (s.enterSolid atLineStart) := by
  have enter : ∀ s₁, s.Adds s₁ → s₁.Writable →
      s.Goes calm { s₁ with lineBlank := false, blankRun := 0, skipWhitespace := false } := by
    intro s₁ adds writable
    have goes := (Goes.refl coherent).adds adds writable
    exact goes.flags rfl (fun _ => id) rfl rfl
      { goes.1.control with blank := fun blank => by cases blank }
  rw [enterSolid]
  split
  · apply Meets.bind (closeLists_meets coherent.sound coherent.writable)
    intro s₁ met
    obtain ⟨adds, writable, -⟩ := met
    exact ⟨enter s₁ adds writable, adds.keeps.opened, rfl⟩
  · exact ⟨enter s (.refl s) coherent.writable, rfl, rfl⟩

/-- What each kind of step that reads a visible character leads to, behind the beginning of its
line. -/
structure SolidKeeps (fail : RegionError → Prop) (kept : Scan → Prop) (atLineStart : Bool)
    (c : Char) (s : Scan) : Prop where
  escapes : kept (advance 1 { s with escaped := true })
  bracket : ∀ {depth}, s.captionBracket c = some depth →
    Meets fail kept (literal c { s with bracketDepth := depth })
  delimiter : s.captionBracket c = none → Meets fail kept (s.delimiterOrLiteral atLineStart c)

/-- What every kind of step leads to, the step at a visible character leads to. -/
theorem solidStep_keeps {fail : RegionError → Prop} {entered kept : Scan → Prop} {c : Char}
    (coherent : s.Coherent calm) (enters : Meets fail entered (s.enterSolid s.lineBlank))
    (kinds : ∀ {s₁ : Scan}, entered s₁ → s.Goes calm s₁ → s₁.lineBlank = false →
      (s.lineBlank = true → ∀ o ∈ s₁.opened, o.tag.isSingleLine = false) →
      s₁.SolidKeeps fail kept s.lineBlank c) :
    Meets fail kept (s.solidStep c) := by
  rw [solidStep]
  apply Meets.bind (enters.also (enterSolid_meets coherent s.lineBlank))
  rintro s₁ ⟨entered₁, goes, opened, visible⟩
  have kinds := kinds entered₁ goes visible (opened ▸ coherent.control.blank)
  split
  · exact kinds.escapes
  · cases bracket : s₁.captionBracket c with
    | some depth => exact kinds.bracket bracket
    | none => exact kinds.delimiter bracket

/-- Brackets are counted inside of an image only. -/
theorem image_of_captionBracket {c : Char} {depth : Nat}
    (bracket : s.captionBracket c = some depth) : ∃ o ∈ s.opened, o.tag ∈ Tag.images := by
  rw [captionBracket] at bracket
  split at bracket
  · cases bracket
  · rename_i inCaption
    simp only [Bool.or_eq_true, not_or, Bool.not_eq_true', Bool.not_eq_false] at inCaption
    obtain ⟨image, member, active⟩ := List.any_eq_true.mp inCaption.2
    obtain ⟨o, isOpened, rfl⟩ := isActive_iff.mp active
    exact ⟨o, isOpened, member⟩

theorem solidStep_meets (coherent : s.Coherent calm) (c : Char) :
    Meets (Refused calm) (fun s' => s.Goes calm s') (s.solidStep c) := by
  refine solidStep_keeps coherent (enterSolid_meets coherent s.lineBlank) ?_
  intro s₁ _ goes visible alone
  have escaped : s.Goes calm { s₁ with escaped := true } :=
    goes.flags rfl (fun _ => id) rfl rfl { goes.1.control with }
  exact {
    escapes := escaped.advance 1
    bracket := by
      intro depth bracket
      have images := image_of_captionBracket bracket
      have counted : s.Goes calm { s₁ with bracketDepth := depth } :=
        goes.flags rfl (fun _ => id) rfl rfl { goes.1.control with bracket := fun _ => images }
      exact Meets.mono (literal_meets counted.1 c) fun s' later => counted.trans later
    delimiter := fun _ => Meets.mono (delimiterOrLiteral_meets goes.1 (fun _ => visible) alone c)
      fun s' later => goes.trans later }

/-! ### Any step -/

/-- A step by the character that it reads. -/
theorem step_eq {entry : Entry} {older : Arena} {c : Char} {rest : Text}
    (split : s.arena = entry :: older) (restEq : s.rest = c :: rest) :
    s.step
      = if entry.region.tag.traits.isVerbatim then s.verbatimStep c
        else if s.escaped then literal c { s with escaped := false }
        else if c = '\n' then s.newline >>= fun s => .ok (s.advance 1)
        else if Text.isGap c then .ok ((s.whitespace c).advance 1)
        else if s.lineBlank && s.exclusive.isNone && isRuleLine s.rest then s.rule
        else s.solidStep c := by
  have newest : s.current = .ok entry.region := by rw [current, split]
  simp only [step, restEq, newest]
  rfl

/-- What each kind of step that can read a character leads to. -/
structure StepKeeps (fail : RegionError → Prop) (kept : Scan → Prop) (s : Scan) (c : Char) :
    Prop where
  verbatim : ∀ {region}, s.current = .ok region → region.tag.traits.isVerbatim = true →
    Meets fail kept (s.verbatimStep c)
  escaped : s.escaped = true → Meets fail kept (literal c { s with escaped := false })
  newline : ∀ {region}, s.current = .ok region → region.tag.traits.isVerbatim = false →
    s.escaped = false → c = '\n' → Meets fail kept (s.newline >>= fun s => .ok (s.advance 1))
  gap : kept ((s.whitespace c).advance 1)
  rule : s.lineBlank = true → s.exclusive = none → Meets fail kept s.rule
  solid : Meets fail kept (s.solidStep c)

/-- What every kind of step leads to, a step leads to. -/
theorem step_keeps {fail : RegionError → Prop} {kept : Scan → Prop} (writable : s.Writable)
    (done : kept s) (kinds : ∀ {c rest}, s.rest = c :: rest → s.StepKeeps fail kept c) :
    Meets fail kept s.step := by
  cases next : s.rest with
  | nil =>
      rw [step, next]
      exact done
  | cons c rest =>
      obtain ⟨entry, older, split, -⟩ := writable
      have newest : s.current = .ok entry.region := by rw [current, split]
      have kinds := kinds next
      rw [step_eq split next]
      split
      · rename_i verbatim
        exact kinds.verbatim newest verbatim
      · rename_i plain
        rw [Bool.not_eq_true] at plain
        split
        · rename_i escaped
          exact kinds.escaped escaped
        · rename_i unescaped
          split
          · rename_i lineBreak
            exact kinds.newline newest plain (by simpa using unescaped) lineBreak
          · split
            · exact kinds.gap
            · split
              · rename_i ruled
                simp only [Bool.and_eq_true, Option.isNone_iff_eq_none] at ruled
                exact kinds.rule ruled.1.1 ruled.1.2
              · exact kinds.solid

/-- Every step of a coherent scan leads to a coherent scan, or a host refuses. -/
theorem step_meets (coherent : s.Coherent calm) :
    Meets (Refused calm) (fun s' => s.Goes calm s') s.step := by
  refine step_keeps coherent.writable (.refl coherent) fun {c rest} next => ?_
  have unescaped : s.Goes calm { s with escaped := false } :=
    (Goes.refl coherent).flags rfl (fun _ => id) rfl rfl { coherent.control with }
  exact {
    verbatim := fun newest verbatim =>
      verbatimStep_meets coherent (exclusive_of_verbatim coherent newest verbatim) c
    escaped := fun _ =>
      Meets.mono (literal_meets unescaped.1 c) fun s' later => unescaped.trans later
    newline := fun _ _ _ _ => Meets.bind (newline_meets coherent) fun s₁ goes => goes.advance 1
    gap := (whitespace_goes coherent c).advance 1
    rule := fun _ _ => rule_meets coherent
    solid := solidStep_meets coherent c }

end MarkPress.Scan
