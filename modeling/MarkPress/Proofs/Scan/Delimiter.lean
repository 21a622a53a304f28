/-
Module: MarkPress.Proofs.Scan.Delimiter
Purpose: What a delimiter in the source may begin or end.
  The tag whose beginning stands here may begin, and the open tag whose end stands here may end. Of
  the open tags that could end here the one that does is the newest, because where a calm scan has
  several open regions they all end with one delimiter.
Main exports:
  oneKind_of_opensHere, opener_of_nextOpening, host_of_nextOpening, nextOpening_of_exclusive,
  several_of_nextOpening, mayBegin_of_nextOpening,
  closer_of_nextClosing, several_of_nextClosing, newest_of_nextClosing, mayEnd_of_nextClosing
-/
import MarkPress.Proofs.Scan.Ending
import MarkPress.Proofs.Scan.Opening

namespace MarkPress.Scan

variable {s s' : Scan} {calm : Prop} {tag : Tag}

/-! ### Beginnings -/

theorem sharp_mem_opener {opener : Text} (found : tag.traits.opener = some opener)
    (heading : tag.isHeading = true) : '#' ∈ opener := by
  have all : ∀ t ∈ Tag.all, t.isHeading = true → '#' ∈ t.traits.opener.getD [] := by decide
  simpa [found] using all tag tag.mem_all heading

theorem bracket_mem_opener {opener : Text} (found : tag.traits.opener = some opener)
    (target : tag ∈ Tag.urlTargets) : '[' ∈ opener := by
  have all : ∀ t ∈ Tag.urlTargets, '[' ∈ t.traits.opener.getD [] := by decide
  simpa [found] using all tag target

theorem within_url : Tag.url.traits.within = some Tag.urlTargets := rfl

/-- What begins here is of the one kind that a calm scan has. -/
theorem oneKind_of_opensHere {atLineStart : Bool} (kind : s.OneKind)
    (opens : s.opensHere atLineStart tag = true) :
    OneKind { s with opened := ⟨tag, none⟩ :: s.opened } := by
  rw [opensHere] at opens
  cases found : tag.traits.opener with
  | none => simp [found] at opens
  | some opener =>
      simp only [found, Bool.and_eq_true] at opens
      obtain ⟨⟨-, hosts⟩, here⟩ := opens
      have read : ∀ c ∈ opener, c ∈ s.rest := fun c member =>
        (Text.startsWith_iff.mp here).subset member
      rcases kind with ⟨noSharp, noHeading⟩ | ⟨noBracket, noTarget⟩
      · refine .inl ⟨noSharp, fun o member => ?_⟩
        rcases List.mem_cons.mp member with rfl | old
        · apply Bool.eq_false_iff.mpr
          intro heading
          exact noSharp (read _ (sharp_mem_opener found heading))
        · exact noHeading o old
      · refine .inr ⟨noBracket, fun o member => ?_⟩
        rcases List.mem_cons.mp member with rfl | old
        · refine ⟨fun target => noBracket (read _ (bracket_mem_opener found target)), ?_⟩
          rintro rfl
          rw [within_url] at hosts
          obtain ⟨host, target, active⟩ := List.any_eq_true.mp hosts
          obtain ⟨o, isOpened, rfl⟩ := isActive_iff.mp active
          exact (noTarget o isOpened).1 target
        · exact noTarget o old

/-- What begins here is not open and has its delimiter here. -/
theorem opener_of_nextOpening {atLineStart : Bool} (next : s.nextOpening atLineStart = some tag) :
    s.isActive tag = false ∧ ∃ opener, tag.traits.opener = some opener ∧ opener <+: s.rest := by
  rw [nextOpening] at next
  split at next
  · cases next
  · have opens := List.find?_some next
    rw [opensHere] at opens
    cases found : tag.traits.opener with
    | none => simp [found] at opens
    | some opener =>
        simp only [found, Bool.and_eq_true, Bool.not_eq_true'] at opens
        exact ⟨opens.1.1.1, opener, rfl, Text.startsWith_iff.mp opens.2⟩

/-- An address begins only where a link or an image is open. -/
theorem host_of_nextOpening {atLineStart : Bool} (next : s.nextOpening atLineStart = some .url) :
    ∃ host ∈ Tag.urlTargets, s.isActive host = true := by
  rw [nextOpening] at next
  split at next
  · cases next
  · have opens := List.find?_some next
    simp only [opensHere, Tag.traits, Bool.and_eq_true] at opens
    exact List.any_eq_true.mp opens.1.2

/-- Inside of an exclusive tag nothing begins. -/
theorem nextOpening_of_exclusive (exclusive : s.exclusive ≠ none) (atLineStart : Bool) :
    s.nextOpening atLineStart = none :=
  if_pos (Option.isSome_iff_ne_none.mpr exclusive)

/-- What begins behind the beginning of a line does not end with the line. -/
theorem several_of_nextOpening (next : s.nextOpening false = some tag) :
    tag.isSingleLine = false := by
  rw [nextOpening] at next
  split at next
  · cases next
  · have opens := List.find?_some next
    rw [opensHere] at opens
    cases found : tag.traits.opener with
    | none => simp [found] at opens
    | some opener =>
        simp only [found, Bool.and_eq_true, Bool.or_false, Bool.not_eq_true'] at opens
        exact opens.1.1.2

theorem mayBegin_of_nextOpening (coherent : s.Coherent calm) {atLineStart : Bool}
    (visible : s.exclusive = none → s.lineBlank = false)
    (alone : atLineStart = true → ∀ o ∈ s.opened, o.tag.isSingleLine = false)
    (next : s.nextOpening atLineStart = some tag) : s.MayBegin calm tag := by
  rw [nextOpening] at next
  split at next
  · cases next
  · rename_i shared
    have free : s.exclusive = none := by simpa using shared
    have opens := List.find?_some next
    have kind := fun isCalm => oneKind_of_opensHere (coherent.oneKind isCalm) opens
    rw [opensHere] at opens
    cases found : tag.traits.opener with
    | none => simp [found] at opens
    | some opener =>
        simp only [found, Bool.and_eq_true, Bool.not_eq_true', Bool.or_eq_true] at opens
        obtain ⟨⟨⟨closed, lineStart⟩, -⟩, -⟩ := opens
        exact {
          openable := by simp [found]
          closed := closed
          free := free
          visible := visible free
          alone := by
            intro single
            rcases lineStart with notSingle | atStart
            · rw [single] at notSingle
              cases notSingle
            · exact alone atStart
          oneKind := kind }

theorem MayBegin.advance (mayBegin : s.MayBegin calm tag) (n : Nat) :
    (s.advance n).MayBegin calm tag := by
  refine { mayBegin with oneKind := fun isCalm => ?_ }
  rcases mayBegin.oneKind isCalm with ⟨noSharp, noHeading⟩ | ⟨noBracket, noTarget⟩
  · exact .inl ⟨fun sharp => noSharp (List.mem_of_mem_drop sharp), noHeading⟩
  · exact .inr ⟨fun bracket => noBracket (List.mem_of_mem_drop bracket), noTarget⟩

/-! ### Ends -/

/-- What ends here has its delimiter here, and no other tag is exclusive. -/
theorem closer_of_nextClosing (next : s.nextClosing = some tag) :
    (s.exclusive = none ∨ s.exclusive = some tag)
      ∧ ∃ closer, tag.traits.closer = some closer ∧ closer <+: s.rest := by
  have closes : s.closesHere tag = true := List.find?_some next
  rw [closesHere] at closes
  cases found : tag.traits.closer with
  | none => simp [found] at closes
  | some closer =>
      simp only [found, Bool.and_eq_true, Bool.or_eq_true, Option.isNone_iff_eq_none,
        beq_iff_eq] at closes
      exact ⟨closes.1, closer, rfl, Text.startsWith_iff.mp closes.2⟩

/-- What ends with its line has no delimiter to end with. -/
theorem several_of_nextClosing (next : s.nextClosing = some tag) : tag.isSingleLine = false := by
  obtain ⟨-, closer, found, -⟩ := closer_of_nextClosing next
  rw [Tag.isSingleLine, found]
  exact Bool.and_false _

/-- All links and images end with the same delimiter. -/
theorem closer_of_target {other : Tag} (target : tag ∈ Tag.urlTargets)
    (otherTarget : other ∈ Tag.urlTargets) : tag.traits.closer = other.traits.closer := by
  have all : ∀ a ∈ Tag.urlTargets, ∀ b ∈ Tag.urlTargets, a.traits.closer = b.traits.closer := by
    decide
  exact all tag target other otherTarget

/-- Where no tag is exclusive and no heading is open, every open region is a link or an image. -/
theorem target_of_open (coherent : s.Coherent calm) (free : s.exclusive = none)
    (noHeading : ∀ o ∈ s.opened, o.tag.isHeading = false) {o : OpenRegion}
    (member : o ∈ s.openRegions) : o.tag ∈ Tag.urlTargets := by
  have isOpened := mem_openRegions.mp member
  rcases coherent.sound.open_cases member with exclusive | heading | target
  · have other := coherent.control.only _ isOpened exclusive
    rw [free] at other
    cases other
  · have closed := noHeading _ isOpened
    rw [heading] at closed
    cases closed
  · exact target

/-- Of the open tags that could end here, the one that does is the last opened. So where a link or an
image ends, it is the newest of those that are open. -/
theorem newest_target_of_nextClosing (coherent : s.Coherent calm) (free : s.exclusive = none)
    (target : tag ∈ Tag.urlTargets) (next : s.nextClosing = some tag) {serial : Nat}
    (found : s.serialOf tag = some serial) :
    ∀ o ∈ s.openRegions, o.tag ∈ Tag.urlTargets → o.serial ≤ serial := by
  intro o member otherTarget
  have sound := coherent.sound
  have region := openRegion_of_serialOf found
  rw [nextClosing, List.find?_eq_some_iff_append] at next
  obtain ⟨closes, before, behind, tagsEq, others⟩ := next
  have closesToo : s.closesHere o.tag = true := by
    have same := closer_of_target otherTarget target
    rw [closesHere] at closes ⊢
    simpa only [same, free, Option.isNone_none, Bool.true_or, Bool.true_and] using closes
  obtain ⟨newer, later, openedEq, newerEq, laterEq⟩ := List.map_eq_append_iff.mp tagsEq
  obtain ⟨x, older, rfl, xTag, -⟩ := List.map_eq_cons_iff.mp laterEq
  have xEq : x = ⟨tag, some serial⟩ :=
    List.inj_on_of_nodup_map sound.once (by simp [openedEq]) (mem_openRegions.mp region) xTag
  rw [xEq] at openedEq
  have isOpened := mem_openRegions.mp member
  rw [openedEq] at isOpened
  rcases List.mem_append.mp isOpened with inNewer | inOlder
  · have apart := others o.tag (newerEq ▸ List.mem_map_of_mem inNewer)
    rw [closesToo] at apart
    cases apart
  · rcases List.mem_cons.mp inOlder with here | inOlder
    · have serialEq := congrArg OpenTag.region here
      simp only [Option.some.injEq] at serialEq
      exact Nat.le_of_eq serialEq
    · exact Nat.le_of_lt (sound.toListed.older_lt openedEq inOlder)

/-- Where all open regions end with one delimiter, the newest of them ends. -/
theorem newest_of_nextClosing (coherent : s.Coherent calm) (free : s.exclusive = none)
    (noHeading : ∀ o ∈ s.opened, o.tag.isHeading = false) (next : s.nextClosing = some tag)
    {serial : Nat} (found : s.serialOf tag = some serial) :
    ∀ o ∈ s.openRegions, o.serial ≤ serial := by
  intro o member
  have targets : ∀ o ∈ s.openRegions, o.tag ∈ Tag.urlTargets := fun o member =>
    target_of_open coherent free noHeading member
  have region := openRegion_of_serialOf found
  exact newest_target_of_nextClosing coherent free (targets _ region) next found o member
    (targets o member)

theorem mayEnd_of_nextClosing (coherent : s.Coherent calm) (next : s.nextClosing = some tag) :
    s.MayEnd calm tag := by
  have member := List.mem_of_find?_eq_some next
  rcases (closer_of_nextClosing next).1 with free | own
  · refine ⟨List.mem_map.mp member, .inl free, fun isCalm => .inr fun serial found => ?_⟩
    rcases coherent.oneKind isCalm with ⟨-, noHeading⟩ | ⟨-, noTarget⟩
    · exact newest_of_nextClosing coherent free noHeading next found
    · -- without brackets only headings have a region, and they have no closing delimiter
      have region := openRegion_of_serialOf found
      have isOpened := mem_openRegions.mp region
      rcases coherent.sound.open_cases region with exclusive | heading | target
      · have other := coherent.control.only _ isOpened exclusive
        rw [free] at other
        cases other
      · have several := several_of_nextClosing next
        rw [Tag.isSingleLine_of_isHeading heading] at several
        cases several
      · exact absurd target (noTarget _ isOpened).1
  · exact mayEnd_of_head coherent (coherent.control.first tag own).2

theorem MayEnd.advance (mayEnd : s.MayEnd calm tag) (n : Nat) : (s.advance n).MayEnd calm tag :=
  ⟨mayEnd.active, mayEnd.turn, mayEnd.newest⟩

end MarkPress.Scan
