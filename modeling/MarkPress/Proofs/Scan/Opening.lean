/-
Module: MarkPress.Proofs.Scan.Opening
Purpose: The beginning of a tag.
  A tag may begin where no other is exclusive and where it is not open itself, and if it ends with
  its line, where no other such tag is open. Then nothing can fail, and what the tag will have to
  write when it ends is the only thing owed.
Main exports:
  Scan.MayBegin, openRegion_meets, openInline_meets, openTag_begins, openTag_meets
-/
import MarkPress.Proofs.Scan.Closing

namespace MarkPress.Scan

open Html

variable {s s' : Scan} {fail : RegionError → Prop} {calm : Prop} {tag : Tag}

/-- A tag may begin: it is not open, and no open tag keeps it from beginning. -/
structure MayBegin (calm : Prop) (tag : Tag) (s : Scan) : Prop where
  openable : tag.traits.opener.isSome = true
  closed : s.isActive tag = false
  free : s.exclusive = none
  visible : s.lineBlank = false
  alone : tag.isSingleLine = true → ∀ o ∈ s.opened, o.tag.isSingleLine = false
  oneKind : calm → OneKind { s with opened := ⟨tag, none⟩ :: s.opened }

/-- A scan in which a tag has been opened. -/
structure Begun (tag : Tag) (s s' : Scan) : Prop where
  edits : Edits s s'
  writable : s'.Writable
  opened : ∃ region, s'.opened = ⟨tag, region⟩ :: s.opened
    ∧ ∀ serial, region = some serial → serial ∉ s.detached.map Entry.serial
  rest : s'.rest = s.rest
  exclusive : s'.exclusive = s.exclusive
  lineBlank : s'.lineBlank = s.lineBlank
  afterFence : s'.afterFence = s.afterFence
  bracketDepth : s'.bracketDepth = s.bracketDepth
  detached : s'.detached = s.detached
  anchor : s'.headingAnchorOpen = true → s.headingAnchorOpen = true ∨ tag.isHeading = true
  debt : ∀ element, s'.debt element = s.debt element

/-- An inline tag that opens owes the half that it will write when it ends. -/
theorem debt_open (s : Scan) (o : OpenTag) (element : Element) :
    Scan.debt element { s with opened := o :: s.opened } = s.debt element
      - if o.tag.traits.isRegion = false ∧ o.tag.traits.element = some element then 1 else 0 := by
  have count : (o :: s.opened).countP (fun o =>
        !o.tag.traits.isRegion && o.tag.traits.element == some element)
      = s.opened.countP (fun o => !o.tag.traits.isRegion && o.tag.traits.element == some element)
        + if o.tag.traits.isRegion = false ∧ o.tag.traits.element = some element then 1 else 0 := by
    rw [List.countP_cons]
    simp
  rw [debt, debt, due, due, count]
  by_cases owing : o.tag.traits.isRegion = false ∧ o.tag.traits.element = some element
  · simp only [owing, and_self, if_true]
    omega
  · simp only [owing, if_false]
    omega

theorem openedRegion_writable {older : Arena} {entry : Entry} (split : s.arena = entry :: older)
    {o : OpenTag} (member : o ∈ s.opened) (region : o.region = some entry.serial) : s.Writable :=
  ⟨entry, older, split, .inr (List.any_eq_true.mpr ⟨o, member, by simp [region]⟩)⟩

/-- The region of a new tag has a number that nothing else has. -/
theorem next_not_mem (sound : s.Sound) : s.nextSerial ∉ (s.arena ++ s.detached).map Entry.serial :=
  fun member => Nat.lt_irrefl _ (sound.fresh _ member)

theorem isHeading_of_onOpen (action : tag.traits.onOpen = .heading) : tag.isHeading = true := by
  cases tag <;> first | rfl | cases action

/-! ### Tags with a region -/

/-- The attributes of the anchor of a heading. -/
theorem anchor_known (id : Text) :
    Attributes.Known (Dictionary.ofList
      [("href".toList, some ('#' :: id)), ("id".toList, some id)]) := by
  have none : Attributes.Known Dictionary.empty := by
    intro name member
    cases member
  have linked := none.set (some ('#' :: id)) (show "href".toList ∈ attributeNames by decide)
  exact linked.set (some id) (show "id".toList ∈ attributeNames by decide)

theorem balance_anchor (element : Element) {attributes : Attributes} (known : attributes.Known) :
    balance element (Tag.anchor.write [] attributes .opening)
      = if element = .a then 1 else 0 := by
  have half := Tag.anchor.balance_half element known (show Shape.opening ≠ .void by decide)
  simpa [Tag.traits, shapeBalance, eq_comm] using half

/-- The half that begins an anchor is owed until the anchor ends. -/
theorem debt_anchor {element : Element} (closed : s.headingAnchorOpen = false) {arena : Arena}
    {ids : List Text} {text : Text}
    (begins : balance element text = if element = .a then 1 else 0) :
    Scan.debt element { s with
      arena := arena, anchorIds := ids, written := text :: s.written, headingAnchorOpen := true }
      = s.debt element := by
  rw [debt, debt, due, due, List.map_cons, List.sum_cons, begins, closed]
  simp only [Bool.false_eq_true, and_false, if_false, and_true]
  split <;> omega

/-- The anchor of a heading begins in the newest region. -/
theorem beginAnchor_meets (sound : s.Sound) (writable : s.Writable) :
    Meets fail (fun s' => Edits s s' ∧ s'.Writable
      ∧ ∃ arena ids text, (∀ element, balance element text = if element = .a then 1 else 0)
        ∧ s' = { s with
          arena := arena, anchorIds := ids, written := text :: s.written
          headingAnchorOpen := true }) s.beginAnchor := by
  rw [beginAnchor]
  generalize Slug.freshId s.anchorIds
    (Slug.headingBase (s.rest.takeWhile (· != '\n'))) = id
  have known := anchor_known id
  have named : Edit s { s with anchorIds := id :: s.anchorIds } := .control rfl
  apply Meets.bind (write_meets (named.sound sound) writable
    (Tag.inline_half rfl known (by decide)))
  intro s₁ met
  obtain ⟨⟨arena, rfl⟩, edit, writable₁⟩ := met
  refine ⟨.trans (.single named) (.trans (.single edit) (.single (.control rfl))), writable₁, ?_⟩
  exact ⟨arena, _, _, fun element => balance_anchor element known, rfl⟩

/-- A region tag has begun once its region has been made and is listed as open. -/
theorem begun_push (sound : s.Sound) (openable : tag.traits.opener.isSome = true)
    (closed : s.isActive tag = false) (region : tag.traits.isRegion = true) (left : s.Adds s') :
    s.Begun tag { s'.push tag with
      opened := ⟨tag, some s'.nextSerial⟩ :: s'.opened
      atBlockStart := false } where
  edits := by
    have stillClosed : s'.isActive tag = false := by
      rw [isActive, left.keeps.opened]
      exact closed
    have opens := Edit.openRegion s' stillClosed openable region
    exact left.edits.trans (.trans (.single opens) (.single (.control rfl)))
  writable := openedRegion_writable rfl List.mem_cons_self rfl
  opened := by
    refine ⟨some s'.nextSerial, by rw [← left.keeps.opened], ?_⟩
    intro serial same member
    cases same
    apply next_not_mem (left.sound sound)
    rw [List.map_append, left.detached]
    exact List.mem_append_right _ member
  rest := left.keeps.rest
  exclusive := left.keeps.exclusive
  lineBlank := left.keeps.lineBlank
  afterFence := left.keeps.afterFence
  bracketDepth := left.keeps.bracketDepth
  detached := left.detached
  anchor := fun anchorOpen => .inl (left.keeps.anchor anchorOpen)
  debt := by
    intro element
    have opened := debt_open s' ⟨tag, some s'.nextSerial⟩ element
    simp only [region, Bool.true_eq_false, false_and, if_false, Int.sub_zero] at opened
    exact opened.trans (left.keeps.debt element)

theorem openRegion_meets (sound : s.Sound) (openable : tag.traits.opener.isSome = true)
    (closed : s.isActive tag = false) (region : tag.traits.isRegion = true)
    (anchorClosed : tag.isHeading = true → s.headingAnchorOpen = false) :
    Meets fail (fun s' => s.Begun tag s') (s.openRegion tag) := by
  have left : s.Adds (if s.startsBlock tag then s.endParagraph else s) := by
    split
    · exact s.endParagraph_adds
    · exact .refl s
  rw [openRegion]
  generalize (if s.startsBlock tag then s.endParagraph else s) = s₁ at left
  let s₂ : Scan := { s₁.push tag with
    opened := ⟨tag, some s₁.nextSerial⟩ :: s₁.opened
    atBlockStart := false }
  have begun : s.Begun tag s₂ := begun_push sound openable closed region left
  cases action : tag.traits.onOpen with
  | plain => exact begun
  | block => exact begun
  | item => exact begun
  | heading =>
      have heading := isHeading_of_onOpen action
      apply Meets.mono (beginAnchor_meets (begun.edits.sound sound) begun.writable)
      intro s₃ met
      obtain ⟨edits, writable, arena, ids, text, balances, rfl⟩ := met
      have anchor : s₂.headingAnchorOpen = false := left.anchorSame.trans (anchorClosed heading)
      exact { begun with
        edits := begun.edits.trans edits
        writable := writable
        anchor := fun _ => .inr heading
        debt := fun element =>
          (debt_anchor anchor (balances element)).trans (begun.debt element) }

/-! ### Inline tags -/

theorem writable_of_opened (writable : s.Writable) (o : OpenTag) :
    Writable { s with opened := o :: s.opened } := by
  obtain ⟨entry, older, split, open_or_text⟩ := writable
  refine ⟨entry, older, split, open_or_text.imp_right fun isOpen => ?_⟩
  obtain ⟨host, member, region⟩ := List.any_eq_true.mp isOpen
  exact List.any_eq_true.mpr ⟨host, List.mem_cons_of_mem _ member, region⟩

/-- The half that an inline tag writes where it opens makes up for the half that it owes. -/
theorem debt_openHalf {element : Element} (inline : tag.traits.isRegion = false)
    (owing : s.debt element = s'.debt element
      - if tag.traits.isRegion = false ∧ tag.traits.element = some element then 1 else 0)
    {arena : Arena} :
    Scan.debt element { s with
      arena := arena, written := tag.openHalf :: s.written, atBlockStart := false }
      = s'.debt element := by
  have half := tag.balance_openHalf element
  simp only [inline, true_and] at owing
  rw [← half, debt] at owing
  rw [debt, List.map_cons, List.sum_cons]
  change balance element tag.openHalf + (s.written.map (balance element)).sum - s.due element = _
  omega

/-- An inline tag has begun once it is listed as open and its half has been written. -/
theorem begun_openHalf (sound : s.Sound) (openable : tag.traits.opener.isSome = true)
    (closed : s.isActive tag = false) (inline : tag.traits.isRegion = false)
    (adds : Adds { s with opened := ⟨tag, none⟩ :: s.opened } s') (writable : s'.Writable) :
    Meets fail (fun s'' => s.Begun tag s'')
      (s'.write tag.openHalf >>= fun s => pure { s with atBlockStart := false }) := by
  have opens : Edit s { s with opened := ⟨tag, none⟩ :: s.opened } :=
    .openInline s closed openable inline
  have sound' := adds.sound (opens.sound sound)
  apply Meets.bind (write_meets sound' writable (Tag.inline_openHalf inline))
  intro s₁ met
  obtain ⟨⟨arena, rfl⟩, edit, writable₁⟩ := met
  have edits : Edits s' { s' with
      arena := arena, written := tag.openHalf :: s'.written, atBlockStart := false } :=
    .trans (.single edit) (.single (.control rfl))
  have owing : ∀ element, s'.debt element = s.debt element
      - if tag.traits.isRegion = false ∧ tag.traits.element = some element then 1 else 0 :=
    fun element => (adds.keeps.debt element).trans (debt_open s ⟨tag, none⟩ element)
  exact {
    edits := .trans (.single opens) (adds.edits.trans edits)
    writable := writable₁
    opened := ⟨none, adds.keeps.opened, by simp⟩
    rest := adds.keeps.rest
    exclusive := adds.keeps.exclusive
    lineBlank := adds.keeps.lineBlank
    afterFence := adds.keeps.afterFence
    bracketDepth := adds.keeps.bracketDepth
    detached := adds.detached
    anchor := fun anchorOpen => .inl (adds.keeps.anchor anchorOpen)
    debt := fun element => debt_openHalf inline (owing element) }

theorem openInline_meets (sound : s.Sound) (writable : s.Writable)
    (openable : tag.traits.opener.isSome = true) (closed : s.isActive tag = false)
    (inline : tag.traits.isRegion = false) :
    Meets fail (fun s' => s.Begun tag s') (s.openInline tag) := by
  have writableToo := writable_of_opened writable ⟨tag, none⟩
  cases action : tag.traits.onOpen with
  | plain =>
      simp only [openInline, action]
      exact begun_openHalf sound openable closed inline (.refl _) writableToo
  | block =>
      simp only [openInline, action]
      exact begun_openHalf sound openable closed inline (.refl _) writableToo
  | item =>
      simp only [openInline, action]
      have opens : Edit s { s with opened := ⟨tag, none⟩ :: s.opened } :=
        .openInline s closed openable inline
      apply Meets.bind (setListLevel_meets (opens.sound sound) writableToo _)
      intro s₁ met
      obtain ⟨adds, writable₁, -⟩ := met
      exact begun_openHalf sound openable closed inline adds writable₁
  | heading =>
      have region := Tag.isRegion_of_isHeading (isHeading_of_onOpen action)
      rw [inline] at region
      cases region

/-! ### The beginning of a tag -/

theorem Control.begin (control : s.Control) (mayBegin : s.MayBegin calm tag) (region : Option Nat) :
    Control { s with
      opened := ⟨tag, region⟩ :: s.opened
      exclusive := if tag.traits.isExclusive then some tag else s.exclusive
      afterFence := s.afterFence || tag.traits.isVerbatim } where
  first := by
    intro other exclusive
    simp only at exclusive
    split at exclusive
    · rename_i isExclusive
      rw [Option.some.injEq] at exclusive
      exact ⟨exclusive ▸ isExclusive, congrArg some exclusive⟩
    · rw [mayBegin.free] at exclusive
      cases exclusive
  only := by
    intro o member isExclusive
    rcases List.mem_cons.mp member with rfl | old
    · exact if_pos isExclusive
    · have other := control.only o old isExclusive
      rw [mayBegin.free] at other
      cases other
  single := by
    simp only [List.map_cons, List.filter_cons]
    split
    · rename_i single
      have none : (s.opened.map OpenTag.tag).filter Tag.isSingleLine = [] := by
        rw [List.filter_eq_nil_iff]
        intro other member
        obtain ⟨o, oMember, rfl⟩ := List.mem_map.mp member
        simp [mayBegin.alone single o oMember]
      simp [none]
    · exact control.single
  blank := by
    intro blank
    rw [mayBegin.visible] at blank
    cases blank
  fence := by
    intro fence
    simp only [Bool.or_eq_true] at fence
    rcases fence with old | verbatim
    · obtain ⟨o, member, isVerbatim⟩ := control.fence old
      exact ⟨o, List.mem_cons_of_mem _ member, isVerbatim⟩
    · exact ⟨⟨tag, region⟩, List.mem_cons_self, verbatim⟩
  bracket := by
    intro depth
    obtain ⟨o, member, image⟩ := control.bracket depth
    exact ⟨o, List.mem_cons_of_mem _ member, image⟩

/-- A scan in which a tag that may begin has been opened is coherent again. -/
theorem Coherent.begins (coherent : s.Coherent calm) (mayBegin : s.MayBegin calm tag)
    (begun : Begun tag { s with
      exclusive := if tag.traits.isExclusive then some tag else s.exclusive
      afterFence := s.afterFence || tag.traits.isVerbatim } s') : s'.Coherent calm := by
  obtain ⟨region, opened, fresh⟩ := begun.opened
  have opened' : s'.opened = ⟨tag, region⟩ :: s.opened := opened
  have shared : ∀ o ∈ s.opened, o.tag.traits.isExclusive = false := by
    intro o member
    apply Bool.eq_false_iff.mpr
    intro isExclusive
    have other := coherent.control.only o member isExclusive
    rw [mayBegin.free] at other
    cases other
  have control := coherent.control.begin mayBegin region
  exact {
    sound := begun.edits.sound (coherent.sound.congr rfl)
    writable := begun.writable
    control := {
      first := by rw [begun.exclusive, opened']; exact control.first
      only := by rw [begun.exclusive, opened']; exact control.only
      single := by rw [opened']; exact control.single
      blank := by rw [begun.lineBlank, opened']; exact control.blank
      fence := by rw [begun.afterFence, opened']; exact control.fence
      bracket := by rw [begun.bracketDepth, opened']; exact control.bracket }
    settled := fun element => (begun.debt element).trans (coherent.settled element)
    anchored := by
      intro anchorOpen
      rw [opened']
      rcases begun.anchor anchorOpen with before | heading
      · obtain ⟨o, member, heading⟩ := coherent.anchored before
        exact ⟨o, List.mem_cons_of_mem _ member, heading⟩
      · exact ⟨_, List.mem_cons_self, heading⟩
    held := by
      intro o member isExclusive heading
      have isOpened := mem_openRegions.mp member
      rw [opened'] at isOpened
      rw [begun.detached]
      rcases List.mem_cons.mp isOpened with new | old
      · have regionEq : region = some o.serial := (congrArg OpenTag.region new).symm
        exact fresh o.serial regionEq
      · rw [shared _ old] at isExclusive
        cases isExclusive
    oneKind := by
      intro isCalm
      have kinds := mayBegin.oneKind isCalm
      rw [OneKind] at kinds ⊢
      rw [begun.rest, opened']
      simpa using kinds
    whole := fun isCalm => begun.detached.trans (coherent.whole isCalm) }

theorem MayBegin.keeps (mayBegin : s.MayBegin calm tag) (keeps : s.Keeps s') :
    s'.MayBegin calm tag where
  openable := mayBegin.openable
  closed := by rw [isActive, keeps.opened]; exact mayBegin.closed
  free := keeps.exclusive.trans mayBegin.free
  visible := keeps.lineBlank.trans mayBegin.visible
  alone := by rw [keeps.opened]; exact mayBegin.alone
  oneKind := by
    intro isCalm
    have kinds := mayBegin.oneKind isCalm
    simp only [OneKind] at kinds ⊢
    rw [keeps.rest, keeps.opened]
    exact kinds

/-- Where a heading may begin no anchor is open: an anchor has a heading, and a heading begins
alone. -/
theorem MayBegin.anchor_closed (mayBegin : s.MayBegin calm tag) (coherent : s.Coherent calm)
    (heading : tag.isHeading = true) : s.headingAnchorOpen = false := by
  apply Bool.eq_false_iff.mpr
  intro anchorOpen
  obtain ⟨o, member, oHeading⟩ := coherent.anchored anchorOpen
  have single := mayBegin.alone (Tag.isSingleLine_of_isHeading heading) o member
  rw [Tag.isSingleLine_of_isHeading oHeading] at single
  cases single

/-- The beginning of a tag that may begin lists it as the one opened last. -/
theorem openTag_begins (coherent : s.Coherent calm) (mayBegin : s.MayBegin calm tag) :
    Meets fail (fun s' => (s'.Coherent calm ∧ Edits s s')
      ∧ ∃ region, s'.opened = ⟨tag, region⟩ :: s.opened) (s.openTag tag) := by
  let s₁ : Scan := { s with
    skipWhitespace := s.skipWhitespace || tag.isSingleLine
    pendingSpace := s.pendingSpace && !(tag.isSingleLine || s.startsBlock tag) }
  have adds₁ : s.Adds s₁ :=
    ⟨⟨.single (.control rfl), rfl, rfl, rfl, rfl, rfl, rfl, id, fun _ => rfl⟩, rfl, rfl⟩
  have coherent₁ := coherent.adds adds₁ coherent.writable
  rw [openTag]
  apply Meets.bind (flushSpace_meets coherent₁.sound coherent₁.writable)
  intro s₂ met
  obtain ⟨adds₂, writable₂⟩ := met
  have coherent₂ := coherent₁.adds adds₂ writable₂
  have mayBegin₂ := mayBegin.keeps (adds₁.keeps.trans adds₂.keeps)
  let s₃ : Scan := { s₂ with
    exclusive := if tag.traits.isExclusive then some tag else s₂.exclusive
    afterFence := s₂.afterFence || tag.traits.isVerbatim }
  have sound₃ : s₃.Sound := coherent₂.sound.congr rfl
  have edits₃ : Edits s s₃ :=
    (adds₁.edits.trans adds₂.edits).trans (.single (.control rfl))
  have begins : Meets fail (fun s' => s₃.Begun tag s')
      (if tag.traits.isRegion then s₃.openRegion tag else s₃.openInline tag) := by
    cases region : tag.traits.isRegion with
    | true =>
        exact openRegion_meets sound₃ mayBegin.openable mayBegin₂.closed region
          (mayBegin₂.anchor_closed coherent₂)
    | false => exact openInline_meets sound₃ writable₂ mayBegin.openable mayBegin₂.closed region
  apply Meets.mono begins
  intro s' begun
  obtain ⟨region, opened, -⟩ := begun.opened
  refine ⟨⟨coherent₂.begins mayBegin₂ begun, edits₃.trans begun.edits⟩, region, ?_⟩
  exact opened.trans (congrArg _ adds₂.keeps.opened)

/-- The beginning of a tag that may begin. -/
theorem openTag_meets (coherent : s.Coherent calm) (mayBegin : s.MayBegin calm tag) :
    Meets fail (fun s' => s'.Coherent calm ∧ Edits s s') (s.openTag tag) :=
  Meets.mono (openTag_begins coherent mayBegin) fun _ met => met.1

end MarkPress.Scan
