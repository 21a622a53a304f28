/-
Module: MarkPress.Proofs.Scan.Closing
Purpose: The end of a tag.
  A tag that may end here is the exclusive one, or none is exclusive, or it ends with its line. So a
  host is never exclusive, and ending a tag either works, and leaves a region that text can go to,
  or is refused by a host that has been rendered. In a calm scan the tag that ends has the newest of
  the open regions, so no open region is ever detached and nothing is refused.
Main exports:
  Scan.MayEnd, Scan.MayEnd.apart, Scan.Ended, closeInline_meets, closeLocal_meets, closeUrl_meets,
  closeTag_meets
-/
import MarkPress.Proofs.Scan.Address

namespace MarkPress.Scan

open Html

variable {s s' : Scan} {calm : Prop} {tag : Tag}

/-- A tag may end: it is open, and no other tag that is exclusive keeps it from ending. -/
structure MayEnd (calm : Prop) (tag : Tag) (s : Scan) : Prop where
  active : ∃ o ∈ s.opened, o.tag = tag
  turn : s.exclusive = none ∨ s.exclusive = some tag ∨ tag.isSingleLine = true
  newest : calm → tag.isSingleLine = true ∨
    ∀ serial, s.serialOf tag = some serial → ∀ o ∈ s.openRegions, o.serial ≤ serial

/-- A region tag that may end is open with a region of its own. -/
theorem MayEnd.serialOf_eq (mayEnd : s.MayEnd calm tag) (sound : s.Sound)
    (region : tag.traits.isRegion = true) :
    ∃ serial, s.serialOf tag = some serial ∧ (⟨tag, serial⟩ : OpenRegion) ∈ s.openRegions := by
  obtain ⟨⟨tag, opened⟩, isOpened, rfl⟩ := mayEnd.active
  have isRegion := sound.regions _ isOpened
  simp only at region isRegion
  rw [region, Option.isSome_iff_exists] at isRegion
  obtain ⟨serial, rfl⟩ := isRegion
  have member : (⟨tag, serial⟩ : OpenRegion) ∈ s.openRegions := mem_openRegions.mpr isOpened
  exact ⟨serial, serialOf_of_open sound member, member⟩

/-- The region of the tag that is open last is newer than all others. -/
theorem newest_of_head (sound : s.Sound) (head : (s.opened.map OpenTag.tag).head? = some tag)
    {serial : Nat} (member : (⟨tag, serial⟩ : OpenRegion) ∈ s.openRegions) :
    ∀ o ∈ s.openRegions, o.tag ≠ tag → o.serial < serial := by
  intro o oMember differs
  have oOpened := mem_openRegions.mp oMember
  cases openedEq : s.opened with
  | nil => simp [openedEq] at head
  | cons first older =>
      rw [openedEq, List.map_cons, List.head?_cons, Option.some.injEq] at head
      have firstEq : first = ⟨tag, some serial⟩ :=
        List.inj_on_of_nodup_map sound.once (by simp [openedEq]) (mem_openRegions.mp member) head
      rw [firstEq] at openedEq
      rw [openedEq] at oOpened
      rcases List.mem_cons.mp oOpened with same | later
      · exact absurd (congrArg OpenTag.tag same) differs
      · have split : s.opened = [] ++ ⟨tag, some serial⟩ :: older := openedEq
        exact sound.toListed.older_lt split later

/-- A tag that may end leaves no region open that could be a host it must not have. -/
theorem MayEnd.apart (mayEnd : s.MayEnd calm tag) (coherent : s.Coherent calm) {serial : Nat}
    (found : s.serialOf tag = some serial) : (s.forget tag).Apart calm serial := by
  have sound := coherent.sound
  have member := openRegion_of_serialOf found
  have isOpened := mem_openRegions.mp member
  have region := sound.isRegion_of_open member
  constructor
  · intro o oMember isExclusive
    obtain ⟨oOpened, differs⟩ := mem_forget.mp (mem_openRegions.mp oMember)
    have oRegion := mem_openRegions.mpr oOpened
    have exclusive := coherent.control.only _ oOpened isExclusive
    obtain ⟨-, head⟩ := coherent.control.first _ exclusive
    rcases mayEnd.turn with none | own | single
    · rw [exclusive] at none
      cases none
    · rw [exclusive, Option.some.injEq] at own
      exact absurd own differs
    · have heading := Tag.isHeading_of_isSingleLine single region
      refine ⟨coherent.held o oRegion isExclusive ⟨_, isOpened, heading⟩, ?_⟩
      exact newest_of_head sound head oRegion _ member (Ne.symm differs)
  · intro isCalm
    rcases mayEnd.newest isCalm with single | newest
    · -- the tag is a heading, so there are no brackets and no other heading
      have heading := Tag.isHeading_of_isSingleLine single region
      refine .inr fun o oMember => ?_
      obtain ⟨oOpened, differs⟩ := mem_forget.mp (mem_openRegions.mp oMember)
      rcases coherent.oneKind isCalm with ⟨-, noHeading⟩ | ⟨-, noBracket⟩
      · have closed := noHeading _ isOpened
        rw [heading] at closed
        cases closed
      · rcases sound.open_cases (mem_openRegions.mpr oOpened) with exclusive | other | target
        · exact exclusive
        · have same := coherent.control.single_eq oOpened isOpened
            (Tag.isSingleLine_of_isHeading other) single
          exact absurd same differs
        · exact absurd target (noBracket _ oOpened).1
    · refine .inl fun o oMember => ?_
      obtain ⟨oOpened, differs⟩ := mem_forget.mp (mem_openRegions.mp oMember)
      have oRegion := mem_openRegions.mpr oOpened
      have atMost := newest serial found o oRegion
      have apart : o.serial ≠ serial := fun same =>
        differs (tag_eq_of_serial_eq sound oRegion member same)
      omega

/-- A scan that has ended a tag is coherent again. -/
theorem Coherent.closes (coherent : s.Coherent calm) (closes : s.Closes s') (writable : s'.Writable)
    (whole : calm → s'.detached = s.detached)
    (held : ∀ o ∈ s'.openRegions, o.tag.traits.isExclusive = true →
      (∃ h ∈ s'.opened, h.tag.isHeading = true) → o.serial ∉ s'.detached.map Entry.serial) :
    s'.Coherent calm where
  sound := closes.edits.sound coherent.sound
  writable := writable
  control := closes.control coherent.control
  settled element := (closes.debt element).trans (coherent.settled element)
  anchored := by
    intro anchorOpen
    obtain ⟨before, kept⟩ := closes.anchor anchorOpen
    obtain ⟨o, member, heading⟩ := coherent.anchored before
    exact ⟨o, kept o member heading, heading⟩
  held := held
  oneKind := by
    intro isCalm
    rw [OneKind, closes.rest]
    rcases coherent.oneKind isCalm with ⟨noSharp, noHeading⟩ | ⟨noBracket, noTarget⟩
    · exact .inl ⟨noSharp, fun o member => noHeading o (closes.opened.subset member)⟩
    · exact .inr ⟨noBracket, fun o member => noTarget o (closes.opened.subset member)⟩
  whole isCalm := (whole isCalm).trans (coherent.whole isCalm)

/-- A scan after the end of a tag. -/
def Ended (calm : Prop) (tag : Tag) (s s' : Scan) : Prop :=
  s'.Coherent calm ∧ s.Closes s' ∧ ∀ o ∈ s'.opened, o.tag ≠ tag

theorem closeInline_meets (coherent : s.Coherent calm) (mayEnd : s.MayEnd calm tag)
    (inline : tag.traits.isRegion = false) :
    Meets (Refused calm) (fun s' => s.Ended calm tag s') (s.closeTag tag) := by
  have sound := coherent.sound
  obtain ⟨o, isOpened, rfl⟩ := mayEnd.active
  have writable : (s.forget o.tag).Writable := by
    -- the tag has no region, so the newest region stays open if it was
    obtain ⟨entry, older, split, open_or_text⟩ := coherent.writable
    refine ⟨entry, older, split, open_or_text.imp_right fun isOpen => ?_⟩
    obtain ⟨host, member, serial⟩ := isOpen_iff.mp isOpen
    have hostOpened := mem_openRegions.mp member
    refine isOpen_iff.mpr ⟨host, mem_openRegions.mpr (mem_forget.mpr ⟨hostOpened, ?_⟩), serial⟩
    intro same
    have region := sound.regions _ hostOpened
    have sameTag : host.tag = o.tag := same
    rw [Option.isSome_some, sameTag, inline] at region
    cases region
  rw [closeTag, closeTagWith, if_neg (by simp [inline])]
  apply Meets.mono (write_meets (sound.forget _) writable (Tag.inline_closeHalf inline))
  intro s' met
  obtain ⟨wrote, edit, writable'⟩ := met
  have closes : s.Closes s' := .of_half sound isOpened inline edit wrote
  obtain ⟨arena, rfl⟩ := wrote
  refine ⟨coherent.closes closes writable' (fun _ => rfl) ?_, closes, ?_⟩
  · intro other member isExclusive inside
    obtain ⟨h, hMember, heading⟩ := inside
    have otherOpened := (mem_forget.mp (mem_openRegions.mp member)).1
    exact coherent.held other (mem_openRegions.mpr otherOpened) isExclusive
      ⟨h, (mem_forget.mp hMember).1, heading⟩
  · exact fun other member => (mem_forget.mp member).2

/-- Once a region tag has ended, no exclusive tag is open inside a heading. -/
theorem MayEnd.clear (mayEnd : s.MayEnd calm tag) (coherent : s.Coherent calm)
    (region : tag.traits.isRegion = true) {o h : OpenTag} (isOpened : o ∈ s.opened)
    (differs : o.tag ≠ tag) (isExclusive : o.tag.traits.isExclusive = true) (hOpened : h ∈ s.opened)
    (hDiffers : h.tag ≠ tag) : h.tag.isHeading = false := by
  have exclusive := coherent.control.only o isOpened isExclusive
  rcases mayEnd.turn with none | own | single
  · rw [exclusive] at none
    cases none
  · rw [exclusive, Option.some.injEq] at own
    exact absurd own differs
  · obtain ⟨x, xOpened, rfl⟩ := mayEnd.active
    apply Bool.eq_false_iff.mpr
    intro heading
    exact hDiffers (coherent.control.single_eq hOpened xOpened
      (Tag.isSingleLine_of_isHeading heading) single)

theorem Ended.of_region (coherent : s.Coherent calm) (mayEnd : s.MayEnd calm tag)
    (region : tag.traits.isRegion = true) (closes : s.Closes s') (writable : s'.Writable)
    (whole : calm → s'.detached = s.detached) (ended : ∀ o ∈ s'.opened, o.tag ≠ tag) :
    s.Ended calm tag s' := by
  refine ⟨coherent.closes closes writable whole ?_, closes, ended⟩
  intro o member isExclusive inside
  obtain ⟨h, hMember, heading⟩ := inside
  have oMember := mem_openRegions.mp member
  have noHeading := mayEnd.clear coherent region (closes.opened.subset oMember) (ended _ oMember)
    isExclusive (closes.opened.subset hMember) (ended h hMember)
  rw [heading] at noHeading
  cases noHeading

theorem closeLocal_meets (coherent : s.Coherent calm) (mayEnd : s.MayEnd calm tag)
    (region : tag.traits.isRegion = true) (local_ : tag.traits.onClose ≠ .address) :
    Meets (Refused calm) (fun s' => s.Ended calm tag s') (s.closeTag tag) := by
  have sound := coherent.sound
  obtain ⟨serial, found, member⟩ := mayEnd.serialOf_eq sound region
  have isOpened := mem_openRegions.mp member
  have placed : tag.isHeading = true → (s.forget tag).Placed tag serial := by
    intro heading
    exact sound.placed member
      (Tag.not_isExclusive_of_isSingleLine (Tag.isSingleLine_of_isHeading heading))
  apply Meets.mono (closeRegion_meets (sound.forget tag) coherent.whole captureAddress found region
    local_ placed (mayEnd.apart coherent found))
  intro s' met
  obtain ⟨goesOn, writable, unchanged, anchorEnded⟩ := met
  have closes : s.Closes s' := .of_forget sound isOpened region goesOn anchorEnded
  refine Ended.of_region coherent mayEnd region closes writable unchanged ?_
  intro o oMember
  rw [goesOn.keeps.opened] at oMember
  exact (mem_forget.mp oMember).2

/-- While an address is being read no other exclusive tag is open. -/
theorem shared_of_url (coherent : s.Coherent calm) (own : s.exclusive = some .url) :
    ∀ o ∈ (s.forget .url).openRegions, o.tag.traits.isExclusive = false := by
  intro o member
  obtain ⟨isOpened, differs⟩ := mem_forget.mp (mem_openRegions.mp member)
  apply Bool.eq_false_iff.mpr
  intro isExclusive
  have other := coherent.control.only _ isOpened isExclusive
  rw [own, Option.some.injEq] at other
  exact differs other.symm

/-- In a calm scan an address has only links and images around it. -/
theorem targets_of_url (coherent : s.Coherent calm) {url : OpenTag} (isOpened : url ∈ s.opened)
    (isUrl : url.tag = .url)
    (shared : ∀ o ∈ (s.forget .url).openRegions, o.tag.traits.isExclusive = false) (isCalm : calm) :
    ∀ o ∈ (s.forget .url).openRegions, o.tag ∈ Tag.urlTargets := by
  have sound := coherent.sound
  intro o member
  have oOpened := (mem_forget.mp (mem_openRegions.mp member)).1
  rcases coherent.oneKind isCalm with ⟨-, noHeading⟩ | ⟨-, noBracket⟩
  · rcases sound.open_cases (mem_openRegions.mpr oOpened) with exclusive | heading | target
    · rw [shared o member] at exclusive
      cases exclusive
    · have closed := noHeading _ oOpened
      rw [heading] at closed
      cases closed
    · exact target
  · exact absurd isUrl (noBracket _ isOpened).2

theorem closeUrl_meets (coherent : s.Coherent calm) (mayEnd : s.MayEnd calm .url) :
    Meets (Refused calm) (fun s' => s.Ended calm .url s') (s.closeTag .url) := by
  have sound := coherent.sound
  have region : Tag.url.traits.isRegion = true := rfl
  obtain ⟨serial, found, member⟩ := mayEnd.serialOf_eq sound region
  have isOpened := mem_openRegions.mp member
  have shared := shared_of_url coherent (coherent.control.only _ isOpened rfl)
  have forgotten : s.Closes (s.forget .url) :=
    .of_forget sound isOpened region (.refl _) fun heading => by cases heading
  rw [closeTag, closeTagWith, found, if_pos region]
  apply Meets.bind (captureAddress_meets (sound.forget _) coherent.whole shared
    (targets_of_url coherent isOpened rfl shared) serial)
  intro s₁ met
  obtain ⟨closes, unchanged⟩ := met
  have sound₁ := closes.edits.sound (sound.forget _)
  have whole₁ : calm → s₁.detached = [] := fun isCalm =>
    (unchanged isCalm).trans (coherent.whole isCalm)
  have fewer : s₁.openRegions.Sublist (s.forget .url).openRegions := closes.opened.filterMap _
  have apart : s₁.Apart calm serial :=
    (mayEnd.apart coherent found).of_fewer fewer fun o member => shared o (fewer.subset member)
  apply Meets.mono (leave_meets sound₁ whole₁ apart)
  intro s₂ met
  obtain ⟨goesOn, writable, unchanged₂⟩ := met
  apply Ended.of_region coherent mayEnd region ((forgotten.trans closes).trans (.of_extends goesOn))
    writable
  · exact fun isCalm => (unchanged₂ isCalm).trans (unchanged isCalm)
  · intro o member
    rw [goesOn.keeps.opened] at member
    exact (mem_forget.mp (closes.opened.subset member)).2

theorem eq_url_of_address (address : tag.traits.onClose = .address) : tag = .url := by
  cases tag <;> first | rfl | cases address

/-- The end of a tag that may end. -/
theorem closeTag_meets (coherent : s.Coherent calm) (mayEnd : s.MayEnd calm tag) :
    Meets (Refused calm) (fun s' => s.Ended calm tag s') (s.closeTag tag) := by
  cases region : tag.traits.isRegion with
  | false => exact closeInline_meets coherent mayEnd region
  | true =>
      by_cases address : tag.traits.onClose = .address
      · obtain rfl := eq_url_of_address address
        exact closeUrl_meets coherent mayEnd
      · exact closeLocal_meets coherent mayEnd region address

end MarkPress.Scan
