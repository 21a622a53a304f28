/-
Module: MarkPress.Proofs.Scan.Names
Purpose: The names of the headings of a source.
  Only the beginning of a heading gives out a name, so a step gives out one name or none, and the
  name it gives is made from the rest of the line on which the heading begins. Along a run every
  name is new, whether the run reads the whole source or stops on an error.
Main exports:
  Scan.Titled, Scan.Naming, step_naming, Scan.Heading, Named, run_names
-/
import MarkPress.Proofs.Scan.Continuation
import MarkPress.Proofs.Scan.Reached
import MarkPress.Proofs.Scan.Tacit
import MarkPress.Proofs.Slug.Fresh

namespace MarkPress.Scan

variable {s s' : Scan} {calm : Prop} {tag : Tag} {outcome : Outcome} {source : Text}

/-! ### The beginning of a tag -/

/-- The beginning of an anchor gives out the name that the rest of the line asks for. -/
theorem beginAnchor_last (s : Scan) :
    (last s.beginAnchor).rest = s.rest ∧ (last s.beginAnchor).opened = s.opened
      ∧ (last s.beginAnchor).anchorIds
        = Slug.freshId s.anchorIds (Slug.headingBase (s.rest.takeWhile (· != '\n')))
          :: s.anchorIds := by
  rw [beginAnchor]
  generalize Slug.freshId s.anchorIds (Slug.headingBase (s.rest.takeWhile (· != '\n'))) = id
  let attributes := Dictionary.ofList [("href".toList, some ('#' :: id)), ("id".toList, some id)]
  have tacit := write_tacit (Tag.anchor.write [] attributes .opening)
    { s with anchorIds := id :: s.anchorIds }
  have opened := write_opened (Tag.anchor.write [] attributes .opening)
    { s with anchorIds := id :: s.anchorIds }
  cases written : Scan.write (Tag.anchor.write [] attributes .opening)
      { s with anchorIds := id :: s.anchorIds } with
  | ok s₁ =>
      rw [written] at tacit opened
      exact ⟨tacit.rest, opened, tacit.anchorIds⟩
  | error halt =>
      rw [written] at tacit opened
      exact ⟨tacit.rest, opened, tacit.anchorIds⟩

/-- A tag that is no heading may be opened. -/
theorem Tacit.opens (tacit : s.Tacit s') (plain : tag.isHeading = false) {s'' : Scan}
    (rest : s''.rest = s'.rest) (anchorIds : s''.anchorIds = s'.anchorIds) {region : Option Nat}
    (opened : s''.opened = ⟨tag, region⟩ :: s'.opened) : s.Tacit s'' := by
  refine tacit.trans ⟨rest, anchorIds, fun o member heading => ?_⟩
  rw [opened] at member
  rcases List.mem_cons.mp member with rfl | old
  · simp only [plain] at heading
    cases heading
  · exact old

theorem openInline_tacit (plain : tag.isHeading = false) (s : Scan) :
    s.Tacit (last (s.openInline tag)) := by
  let s₁ : Scan := { s with opened := ⟨tag, none⟩ :: s.opened }
  have listed : s.Tacit s₁ := (Tacit.refl s).opens plain rfl rfl rfl
  have begun : ∀ s₂ : Scan, s₂.Tacit
      (last (s₂.write tag.openHalf >>= fun s => pure { s with atBlockStart := false })) :=
    fun s₂ => (write_tacit _ s₂).bind fun _ => .of_same rfl rfl rfl
  cases action : tag.traits.onOpen with
  | plain =>
      simp only [openInline, action]
      exact listed.trans (begun s₁)
  | block =>
      simp only [openInline, action]
      exact listed.trans (begun s₁)
  | item =>
      simp only [openInline, action]
      exact listed.trans ((setListLevel_tacit _ s₁).bind begun)
  | heading =>
      simp only [openInline, action]
      exact listed

theorem onOpen_of_isHeading (heading : tag.isHeading = true) : tag.traits.onOpen = .heading := by
  cases tag <;> first | rfl | cases heading

/-- The state in which a tag with a region is listed as open. -/
def listed (tag : Tag) (s : Scan) : Scan :=
  { s.push tag with
    opened := ⟨tag, some s.nextSerial⟩ :: s.opened
    atBlockStart := false }

theorem left_tacit (tag : Tag) (s : Scan) :
    s.Tacit (if s.startsBlock tag then s.endParagraph else s) := by
  split
  · exact s.endParagraph_tacit
  · exact .refl s

theorem openRegion_tacit (plain : tag.isHeading = false) (s : Scan) :
    s.Tacit (last (s.openRegion tag)) := by
  have left := s.left_tacit tag
  rw [openRegion]
  generalize (if s.startsBlock tag then s.endParagraph else s) = s₁ at left
  have opens : s.Tacit (s₁.listed tag) := left.opens plain rfl rfl rfl
  cases action : tag.traits.onOpen with
  | plain => exact opens
  | block => exact opens
  | item => exact opens
  | heading =>
      rw [isHeading_of_onOpen action] at plain
      cases plain

/-- The beginning of a tag that is no heading gives out no name. -/
theorem openTag_tacit (plain : tag.isHeading = false) (s : Scan) :
    s.Tacit (last (s.openTag tag)) := by
  have begins : ∀ s₁ : Scan, s₁.Tacit
      (last (if tag.traits.isRegion then s₁.openRegion tag else s₁.openInline tag)) := by
    intro s₁
    split
    · exact openRegion_tacit plain s₁
    · exact openInline_tacit plain s₁
  rw [openTag]
  exact Tacit.bind ((flushSpace_tacit _).behind rfl rfl rfl)
    fun s₁ => (begins _).behind rfl rfl rfl

/-- A heading is open behind its beginning, and has the name that the rest of the line asks for. -/
structure Titled (tag : Tag) (s s' : Scan) : Prop where
  rest : s'.rest = s.rest
  active : s'.isActive tag = true
  headings : ∀ o ∈ s'.opened, o.tag.isHeading = true → o.tag = tag ∨ o ∈ s.opened
  anchorIds : s'.anchorIds
    = Slug.freshId s.anchorIds (Slug.headingBase (s.rest.takeWhile (· != '\n'))) :: s.anchorIds

theorem openRegion_titled (heading : tag.isHeading = true) (s : Scan) :
    s.Titled tag (last (s.openRegion tag)) := by
  have left := s.left_tacit tag
  rw [openRegion]
  generalize (if s.startsBlock tag then s.endParagraph else s) = s₁ at left
  simp only [onOpen_of_isHeading heading]
  change s.Titled tag (last (s₁.listed tag).beginAnchor)
  obtain ⟨rest, opened, anchorIds⟩ := beginAnchor_last (s₁.listed tag)
  have restEq : (s₁.listed tag).rest = s.rest := left.rest
  have idsEq : (s₁.listed tag).anchorIds = s.anchorIds := left.anchorIds
  have openedEq : (last (s₁.listed tag).beginAnchor).opened
      = ⟨tag, some s₁.nextSerial⟩ :: s₁.opened := opened
  rw [restEq, idsEq] at anchorIds
  refine ⟨rest.trans restEq, ?_, fun o member isHeading => ?_, anchorIds⟩
  · exact isActive_iff.mpr ⟨_, openedEq.symm ▸ List.mem_cons_self, rfl⟩
  · rw [openedEq] at member
    rcases List.mem_cons.mp member with rfl | old
    · exact .inl rfl
    · exact .inr (left.headings o old isHeading)

/-- A heading begins, unless the space before it can not be written. -/
theorem openTag_titled (heading : tag.isHeading = true) (s : Scan) :
    s.Tacit (last (s.openTag tag)) ∨ s.Titled tag (last (s.openTag tag)) := by
  let s₁ : Scan := { s with
    skipWhitespace := s.skipWhitespace || tag.isSingleLine
    pendingSpace := s.pendingSpace && !(tag.isSingleLine || s.startsBlock tag) }
  have spaced : s.Tacit (last s₁.flushSpace) := (flushSpace_tacit s₁).behind rfl rfl rfl
  rw [openTag]
  change _ ∨ s.Titled tag (last (s₁.flushSpace >>= _))
  cases flushed : s₁.flushSpace with
  | error halt =>
      rw [flushed] at spaced
      exact .inl spaced
  | ok s₂ =>
      rw [flushed] at spaced
      right
      let s₃ : Scan := { s₂ with
        exclusive := if tag.traits.isExclusive then some tag else s₂.exclusive
        afterFence := s₂.afterFence || tag.traits.isVerbatim }
      have titled := openRegion_titled heading s₃
      have same : s.Tacit s₃ := spaced.trans (.of_same rfl rfl rfl)
      change s.Titled tag
        (last (if tag.traits.isRegion then s₃.openRegion tag else s₃.openInline tag))
      rw [if_pos (Tag.isRegion_of_isHeading heading)]
      refine ⟨titled.rest.trans same.rest, titled.active, fun o member isHeading => ?_, ?_⟩
      · exact (titled.headings o member isHeading).imp_right fun old =>
          same.headings o old isHeading
      · rw [titled.anchorIds, same.rest, same.anchorIds]

/-! ### One step -/

/-- A heading begins between two states, and no other. Its delimiter stands where the first of them
reads, and its title is the rest of the line behind the delimiter. -/
structure Begins (tag : Tag) (title : Text) (s s' : Scan) : Prop where
  heading : tag.isHeading = true
  closed : s.isActive tag = false
  active : s'.isActive tag = true
  headings : ∀ o ∈ s'.opened, o.tag.isHeading = true → o.tag = tag ∨ o ∈ s.opened
  line : ∃ opener behind, tag.traits.opener = some opener ∧ s.rest = opener ++ title ++ behind
    ∧ '\n' ∉ title ∧ (behind = [] ∨ ∃ later, behind = '\n' :: later)

/-- What is read between two states begins no heading, or it begins one that gets a name. -/
inductive Naming (s s' : Scan) : Prop where
  | silent (rest : s'.rest <:+ s.rest) (anchorIds : s'.anchorIds = s.anchorIds)
      (headings : ∀ o ∈ s'.opened, o.tag.isHeading = true → o ∈ s.opened)
  | titled (tag : Tag) (title : Text) (rest : s'.rest <:+ s.rest)
      (begins : s.Begins tag title s')
      (anchorIds : s'.anchorIds
        = Slug.freshId s.anchorIds (Slug.headingBase title) :: s.anchorIds)

namespace Naming

variable {s'' : Scan}

theorem suffix (naming : s.Naming s') : s'.rest <:+ s.rest := by
  cases naming with
  | silent rest => exact rest
  | titled _ _ rest => exact rest

/-- Other flags may be set before. -/
theorem behind (naming : s'.Naming s'') (rest : s'.rest = s.rest)
    (anchorIds : s'.anchorIds = s.anchorIds) (opened : s'.opened = s.opened) : s.Naming s'' := by
  have active : s'.isActive = s.isActive := by
    funext tag
    rw [isActive, isActive, opened]
  cases naming with
  | silent suffix ids headings =>
      exact .silent (rest ▸ suffix) (ids.trans anchorIds) (opened ▸ headings)
  | titled tag title suffix begins ids =>
      refine .titled tag title (rest ▸ suffix) ?_ (anchorIds ▸ ids)
      exact {
        heading := begins.heading
        closed := active ▸ begins.closed
        active := begins.active
        headings := opened ▸ begins.headings
        line := rest ▸ begins.line }

end Naming

theorem Tacit.naming (tacit : s.Tacit s') : s.Naming s' :=
  .silent (tacit.rest ▸ List.suffix_refl _) tacit.anchorIds tacit.headings

/-- Characters are read before or behind an operation that gives out no name. -/
theorem Tacit.naming_advance {n : Nat} (tacit : (s.advance n).Tacit s') : s.Naming s' :=
  .silent (tacit.rest ▸ List.drop_suffix n s.rest) tacit.anchorIds tacit.headings

theorem Tacit.advance_naming (tacit : s.Tacit (last outcome)) (n : Nat) :
    s.Naming (last (outcome >>= fun s => pure (s.advance n))) := by
  cases outcome with
  | ok s₁ =>
      have rest : s₁.rest = s.rest := tacit.rest
      exact .silent (rest ▸ List.drop_suffix n s₁.rest) tacit.anchorIds tacit.headings
  | error halt => exact tacit.naming

/-- An operation that gives out no name, and neither begins nor ends anything, comes before. -/
theorem Tacit.naming_bind (first : s.Tacit (last outcome))
    (opened : ∀ s₁ : Scan, outcome = .ok s₁ → s₁.opened = s.opened)
    (later : ∀ s₁ : Scan, s₁.Naming (last (next s₁))) :
    s.Naming (last (outcome >>= next)) := by
  cases outcome with
  | ok s₁ => exact (later s₁).behind first.rest first.anchorIds (opened s₁ rfl)
  | error halt => exact first.naming

theorem literal_naming (c : Char) (s : Scan) : s.Naming (last (s.literal c)) :=
  (appendLiteral_tacit c s).advance_naming 1

/-- A heading that begins behind its delimiter is named by the rest of the line. -/
theorem Titled.naming {opener : Text} (titled : (s.advance opener.length).Titled tag s')
    (heading : tag.isHeading = true) (closed : s.isActive tag = false)
    (found : tag.traits.opener = some opener) (here : opener <+: s.rest) : s.Naming s' := by
  obtain ⟨behind, restEq⟩ := here
  have read : (s.advance opener.length).rest = behind := by
    rw [advance, ← restEq]
    exact List.drop_left
  have begins : s.Begins tag (behind.takeWhile (· != '\n')) s' := {
    heading := heading
    closed := closed
    active := titled.active
    headings := titled.headings
    line := by
      refine ⟨opener, behind.dropWhile (· != '\n'), found, ?_, Text.not_mem_takeWhile behind,
        Text.dropWhile_eq behind⟩
      rw [List.append_assoc, List.takeWhile_append_dropWhile, restEq] }
  have ids := titled.anchorIds
  rw [read] at ids
  exact .titled tag _ (titled.rest ▸ List.drop_suffix opener.length s.rest) begins ids

theorem delimiterOrLiteral_naming (atLineStart : Bool) (c : Char) (s : Scan) :
    s.Naming (last (s.delimiterOrLiteral atLineStart c)) := by
  rw [delimiterOrLiteral]
  cases nextOpen : s.nextOpening atLineStart with
  | some tag =>
      cases heading : tag.isHeading with
      | false => exact (openTag_tacit heading _).naming_advance
      | true =>
          obtain ⟨closed, opener, found, here⟩ := opener_of_nextOpening nextOpen
          simp only [found, Option.getD_some]
          rcases openTag_titled heading (s.advance opener.length) with tacit | titled
          · exact tacit.naming_advance
          · exact titled.naming heading closed found here
  | none =>
      cases nextClose : s.nextClosing with
      | some tag => exact (closeTag_tacit tag _).naming_advance
      | none => exact literal_naming c s

theorem verbatimStep_naming (c : Char) (s : Scan) : s.Naming (last (s.verbatimStep c)) := by
  rw [verbatimStep]
  split
  · exact .silent (List.drop_suffix 1 s.rest) rfl fun _ member _ => member
  · exact (delimiterOrLiteral_naming _ c _).behind rfl rfl rfl

theorem rule_naming (s : Scan) : s.Naming (last s.rule) := by
  have left := closeLists_tacit s
  rw [rule]
  cases closed : s.closeLists with
  | error halt =>
      rw [closed] at left
      exact left.naming
  | ok s₁ =>
      rw [closed] at left
      have ruled := left.trans
        ((openParagraph_tacit (s₁.endParagraph.push .rule)).behind rfl rfl rfl)
      exact .silent (ruled.rest ▸ List.drop_suffix 3 _) ruled.anchorIds ruled.headings

theorem solidStep_naming (coherent : s.Coherent calm) (c : Char) :
    s.Naming (last (s.solidStep c)) := by
  have entered := enterSolid_meets coherent s.lineBlank
  rw [solidStep]
  refine (enterSolid_tacit s.lineBlank s).naming_bind
    (fun s₁ same => (entered.of_ok same).2.1) fun s₁ => ?_
  split
  · exact .silent (List.drop_suffix 1 s₁.rest) rfl fun _ member _ => member
  · cases s₁.captionBracket c with
    | some depth =>
        exact (literal_naming c { s₁ with bracketDepth := depth }).behind rfl rfl rfl
    | none => exact delimiterOrLiteral_naming _ c s₁

/-- A step gives out no name, or it begins a heading and gives it the name that the rest of the line
asks for. -/
theorem step_naming (coherent : s.Coherent calm) : s.Naming (last s.step) := by
  cases restEq : s.rest with
  | nil =>
      rw [step, restEq]
      exact (Tacit.refl s).naming
  | cons c rest =>
      obtain ⟨entry, older, split, -⟩ := coherent.writable
      rw [step_eq split restEq]
      split
      · exact verbatimStep_naming c s
      · split
        · exact (literal_naming c { s with escaped := false }).behind rfl rfl rfl
        · split
          · exact (newline_tacit s).advance_naming 1
          · split
            · have tacit := whitespace_tacit c s
              exact .silent (tacit.rest ▸ List.drop_suffix 1 _) tacit.anchorIds tacit.headings
            · split
              · exact rule_naming s
              · exact solidStep_naming coherent c

/-! ### A whole run -/

/-- Names are only added. -/
theorem Naming.grows (naming : s.Naming s') : s.anchorIds <:+ s'.anchorIds := by
  cases naming with
  | silent _ same => exact same ▸ List.suffix_refl _
  | titled _ _ _ _ ids => exact ids ▸ List.suffix_cons _ _

theorem steps_grows (n : Nat) (coherent : s.Coherent calm) :
    s.anchorIds <:+ (last (steps n s)).anchorIds := by
  induction n generalizing s with
  | zero => exact List.suffix_refl _
  | succ n ih =>
      rw [steps]
      split
      · exact List.suffix_refl _
      · have grows := (step_naming coherent).grows
        have meets := step_meets coherent
        cases stepped : s.step with
        | error halt =>
            rw [stepped] at grows
            exact grows
        | ok s₁ =>
            rw [stepped] at grows meets
            exact grows.trans (ih meets.1)

theorem reading_grows (coherent : s.Coherent calm) :
    (last s.step).anchorIds <:+ (last s.reading).anchorIds := by
  by_cases none : s.rest = []
  · have stays : s.step = .ok s := by rw [step, none]
    have same : last s.step = last s.reading := by rw [stays, reading_nil none]
    exact same ▸ List.suffix_refl _
  · have meets := step_meets coherent
    rw [reading_step coherent.sound.grounded none]
    cases stepped : s.step with
    | error halt => exact List.suffix_refl _
    | ok s₁ =>
        rw [stepped] at meets
        exact steps_grows _ meets.1

namespace Reached

theorem coherent (reached : Reached source s) : s.Coherent (Plain source) := reached.goes.1

theorem suffix (reached : Reached source s) : s.rest <:+ source.normalizeBreaks := by
  induction reached with
  | start => exact (openParagraph_tacit (root source)).rest ▸ List.suffix_refl _
  | step earlier stepped ih =>
      have naming := step_naming earlier.coherent
      rw [stepped] at naming
      exact naming.suffix.trans ih

/-- The run of a source goes through every state that is reached. -/
theorem reading_eq (reached : Reached source s) : (Scan.start source).reading = s.reading := by
  induction reached with
  | start => rfl
  | @step s s' earlier stepped ih =>
      by_cases none : s.rest = []
      · have stays : s.step = .ok s := by rw [Scan.step, none]
        rw [stays] at stepped
        cases stepped
        exact ih
      · rw [ih, reading_step earlier.coherent.sound.grounded none, stepped]
        rfl

/-- Steps lead to a state that is reached, or the step from one stops on an error. -/
theorem last_steps (reached : Reached source s) (n : Nat) :
    ∃ t, Reached source t ∧ (last (steps n s) = t ∨ last (steps n s) = last t.step) := by
  induction n generalizing s with
  | zero => exact ⟨s, reached, .inl rfl⟩
  | succ n ih =>
      rw [steps]
      split
      · exact ⟨s, reached, .inl rfl⟩
      · cases stepped : s.step with
        | error halt => exact ⟨s, reached, .inr (by rw [stepped]; rfl)⟩
        | ok s₁ => exact ih (.step reached stepped)

end Reached

/-- The end of a run gives out no name. -/
theorem run_anchorIds (unfinished : s.finished = false) :
    (last s.run).anchorIds = (last s.reading).anchorIds := by
  rw [run, if_neg (by simp [unfinished])]
  change (last (s.reading >>= _)).anchorIds = _
  cases s.reading with
  | error halt => rfl
  | ok s₁ =>
      have finishes : s₁.Tacit
          (last (s₁.finish >>= fun s => pure { s with finished := true })) :=
        (finish_tacit s₁).bind fun _ => .of_same rfl rfl rfl
      exact finishes.anchorIds

/-- A heading of a source: the step from a state that is reached begins it. -/
structure Heading (source : Text) (s : Scan) (tag : Tag) (title : Text) : Prop where
  reached : Reached source s
  suffix : s.rest <:+ source.normalizeBreaks
  begins : s.Begins tag title (last s.step)

/-- Every name of a list, the latest first, is the one that a heading of the source should get
behind the names before it. -/
def Named (source : Text) (ids : List Text) : Prop :=
  ∀ newer id older, ids = newer ++ id :: older → ∃ s tag title, Heading source s tag title
    ∧ s.anchorIds = older ∧ Slug.Names older (Slug.headingBase title) id

namespace Named

variable {ids : List Text}

theorem nil : Named source [] := fun newer id older split => by simp at split

theorem tail {id : Text} (named : Named source (id :: ids)) : Named source ids :=
  fun newer other older split => named (id :: newer) other older (by rw [split]; rfl)

theorem distinct (named : Named source ids) : ids.Nodup ∧ ∀ id ∈ ids, id ≠ [] := by
  induction ids with
  | nil => exact ⟨List.nodup_nil, fun _ member => absurd member List.not_mem_nil⟩
  | cons id ids ih =>
      obtain ⟨nodup, filled⟩ := ih named.tail
      obtain ⟨s, tag, title, -, -, names⟩ := named [] id ids rfl
      exact ⟨List.nodup_cons.mpr ⟨names.new, nodup⟩,
        List.forall_mem_cons.mpr ⟨names.filled (Slug.headingBase_ne_nil title), filled⟩⟩

/-- The name that a step gives out is the one that the heading should get. -/
theorem step (named : Named source s.anchorIds) (reached : Reached source s) :
    Named source (last s.step).anchorIds := by
  cases step_naming reached.coherent with
  | silent _ same => exact same ▸ named
  | titled tag title _ begins ids =>
      rw [ids]
      intro newer id older split
      cases newer with
      | nil =>
          cases split
          exact ⟨s, tag, title, ⟨reached, reached.suffix, begins⟩, rfl, Slug.freshId_names _ _⟩
      | cons first newer => exact named newer id older (List.cons.inj split).2

end Named

theorem Reached.named (reached : Reached source s) : Named source s.anchorIds := by
  induction reached with
  | start => exact (openParagraph_tacit (root source)).anchorIds ▸ Named.nil
  | step earlier stepped ih =>
      have later := ih.step earlier
      rw [stepped] at later
      exact later

/-- The names that the run of a source gives to headings are not empty and all different, whether it
reads the whole source or stops on an error. Each is the one that a heading of the source should get
behind the names before it, and every heading of the source gets one. -/
theorem run_names (source : Text) :
    let ids := (last (start source).run).anchorIds
    (ids.Nodup ∧ ∀ id ∈ ids, id ≠ []) ∧ Named source ids
      ∧ ∀ s tag, Reached source s → tag.isHeading = true → s.isActive tag = false →
        (last s.step).isActive tag = true →
        ∃ title id, Heading source s tag title ∧ Slug.Names s.anchorIds (Slug.headingBase title) id
          ∧ id :: s.anchorIds <:+ ids := by
  intro ids
  have idsEq : ids = (last (start source).reading).anchorIds :=
    run_anchorIds (start_unfinished source)
  have named : Named source ids := by
    have begun : Reached source (start source) := .start
    obtain ⟨t, reached, atEnd⟩ := begun.last_steps (start source).rest.length
    rw [idsEq, reading]
    rcases atEnd with here | failed
    · exact here ▸ reached.named
    · exact failed ▸ reached.named.step reached
  refine ⟨named.distinct, named, fun s tag reached heading closed active => ?_⟩
  obtain ⟨o, member, rfl⟩ := isActive_iff.mp active
  have unopened : o ∉ s.opened := fun old => by
    rw [isActive_iff.mpr ⟨o, old, rfl⟩] at closed
    cases closed
  cases step_naming reached.coherent with
  | silent _ _ headings => exact absurd (headings o member heading) unopened
  | titled tag title _ begins given =>
      rcases begins.headings o member heading with same | old
      · have grows := reading_grows reached.coherent
        rw [← reached.reading_eq, ← idsEq, given] at grows
        exact ⟨title, _, ⟨reached, reached.suffix, same ▸ begins⟩, Slug.freshId_names _ _, grows⟩
      · exact absurd old unopened

/-- A title that ends in a number takes the name of a numbered repeat, so the next repeat gets the
number behind it. -/
theorem run_names_repeat :
    ∃ source, (last (start source).run).anchorIds = ["a-3".toList, "a-2".toList, "a".toList]
      ∧ (last (start source).run).anchorIds.Nodup
      ∧ ∃ title id, Heading source (start source) .heading1 title
        ∧ Slug.Names [] (Slug.headingBase title) id := by
  let source : Text := "# A\n# A 2\n# A\n".toList
  have given : (last (start source).run).anchorIds
      = ["a-3".toList, "a-2".toList, "a".toList] := by
    decide +kernel
  obtain ⟨⟨distinct, -⟩, -, named⟩ := run_names source
  obtain ⟨title, id, heading, names, -⟩ :=
    named (start source) .heading1 .start rfl (by decide +kernel) (by decide +kernel)
  exact ⟨source, given, distinct, title, id, heading, names⟩

end MarkPress.Scan
