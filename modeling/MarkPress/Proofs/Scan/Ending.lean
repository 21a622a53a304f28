/-
Module: MarkPress.Proofs.Scan.Ending
Purpose: Ending several tags, one after another.
  A line break ends the tags that end with their line, whatever else is open. The end of a source
  ends all tags, the one opened last first. Each tag comes to its turn while it is open, or has
  ended with one before it. What the end of each tag keeps, all of them keep.
Main exports:
  Scan.EndKeeps, closeAll_singles, closeLines_keeps, closeLines_meets, mayEnd_of_head,
  closeAll_newest, closeOpened_keeps, closeOpened_meets
-/
import MarkPress.Proofs.Scan.Closing

namespace MarkPress.Scan

variable {s s' : Scan} {calm : Prop} {tag : Tag}

/-- What the end of every tag that may end keeps, if it leads to a scan at all. -/
def EndKeeps (calm : Prop) (kept : Scan → Prop) : Prop :=
  ∀ {tag s}, s.Coherent calm → s.MayEnd calm tag → kept s →
    Meets (fun _ => True) kept (s.closeTag tag)

theorem endKeeps_true : EndKeeps calm fun _ => True := fun _ _ _ => meets_true _

/-- The tags that end with their line may end whatever else is open. -/
theorem closeAll_singles {kept : Scan → Prop} (keeps : EndKeeps calm kept) (tags : List Tag)
    (singles : ∀ tag ∈ tags, tag.isSingleLine = true) (coherent : s.Coherent calm)
    (holds : kept s) :
    Meets (Refused calm) (fun s' => s'.Coherent calm ∧ s.Closes s'
      ∧ (∀ o ∈ s'.opened, o.tag ∉ tags) ∧ kept s') (closeAll tags s) := by
  induction tags generalizing s with
  | nil => exact ⟨coherent, .refl s, fun _ _ => List.not_mem_nil, holds⟩
  | cons tag rest ih =>
      obtain ⟨single, singles'⟩ := List.forall_mem_cons.mp singles
      have next : ∀ s₁, s₁.Coherent calm → s.Closes s₁ → (∀ o ∈ s₁.opened, o.tag ≠ tag) →
          kept s₁ → Meets (Refused calm) (fun s' => s'.Coherent calm ∧ s.Closes s'
            ∧ (∀ o ∈ s'.opened, o.tag ∉ tag :: rest) ∧ kept s') (closeAll rest s₁) := by
        intro s₁ coherent₁ closes₁ ended holds₁
        apply Meets.mono (ih singles' coherent₁ holds₁)
        intro s₂ met
        obtain ⟨coherent₂, closes₂, others, holds₂⟩ := met
        refine ⟨coherent₂, closes₁.trans closes₂, fun o member inTags => ?_, holds₂⟩
        rcases List.mem_cons.mp inTags with same | inRest
        · exact ended o (closes₂.opened.subset member) same
        · exact others o member inRest
      rw [closeAll]
      split
      · rename_i active
        have mayEnd : s.MayEnd calm tag :=
          ⟨isActive_iff.mp active, .inr (.inr single), fun _ => .inl single⟩
        apply Meets.bind ((closeTag_meets coherent mayEnd).also (keeps coherent mayEnd holds))
        intro s₁ met
        obtain ⟨⟨coherent₁, closes₁, ended⟩, holds₁⟩ := met
        exact next s₁ coherent₁ closes₁ ended holds₁
      · rename_i inactive
        refine next s coherent (.refl s) (fun o member same => ?_) holds
        exact inactive (isActive_iff.mpr ⟨o, member, same⟩)

/-- A line break ends the tags that end with their line. -/
theorem closeLines_keeps {kept : Scan → Prop} (keeps : EndKeeps calm kept)
    (coherent : s.Coherent calm) (holds : kept s) :
    Meets (Refused calm) (fun s' => (s'.Coherent calm ∧ s.Closes s'
      ∧ ∀ o ∈ s'.opened, o.tag.isSingleLine = false) ∧ kept s')
      (closeAll ((s.opened.map OpenTag.tag).filter Tag.isSingleLine) s) := by
  have singles : ∀ tag ∈ (s.opened.map OpenTag.tag).filter Tag.isSingleLine,
      tag.isSingleLine = true := fun tag member => (List.mem_filter.mp member).2
  apply Meets.mono (closeAll_singles keeps _ singles coherent holds)
  intro s₁ met
  obtain ⟨coherent₁, closes, ended, holds₁⟩ := met
  refine ⟨⟨coherent₁, closes, fun o member => ?_⟩, holds₁⟩
  apply Bool.eq_false_iff.mpr
  intro single
  exact ended o member
    (List.mem_filter.mpr ⟨List.mem_map_of_mem (closes.opened.subset member), single⟩)

theorem closeLines_meets (coherent : s.Coherent calm) :
    Meets (Refused calm) (fun s' => s'.Coherent calm ∧ s.Closes s'
      ∧ ∀ o ∈ s'.opened, o.tag.isSingleLine = false)
      (closeAll ((s.opened.map OpenTag.tag).filter Tag.isSingleLine) s) :=
  Meets.mono (closeLines_keeps endKeeps_true coherent trivial) fun _ met => met.1

/-- The tag that was opened last may end. -/
theorem mayEnd_of_head (coherent : s.Coherent calm)
    (head : (s.opened.map OpenTag.tag).head? = some tag) : s.MayEnd calm tag := by
  obtain ⟨o, member, same⟩ : ∃ o ∈ s.opened, o.tag = tag :=
    List.mem_map.mp (List.mem_of_head? head)
  refine ⟨⟨o, member, same⟩, ?_, fun _ => .inr fun serial found other otherMember => ?_⟩
  · cases exclusive : s.exclusive with
    | none => exact .inl rfl
    | some other =>
        have first := (coherent.control.first other exclusive).2
        rw [head] at first
        exact .inr (.inl first.symm)
  · have region := openRegion_of_serialOf found
    by_cases own : other.tag = tag
    · have otherFound := serialOf_of_open coherent.sound otherMember
      rw [own, found, Option.some.injEq] at otherFound
      exact Nat.le_of_eq otherFound.symm
    · exact Nat.le_of_lt (newest_of_head coherent.sound head region other otherMember own)

/-- Tags that end in the order opposite to the one in which they were opened keep what the end of
the one opened last keeps. -/
theorem closeAll_newest {fail : RegionError → Prop} {kept : Scan → Prop} {bottom : List Tag}
    (keeps : ∀ {tag s}, s.Coherent calm → kept s → tag ∉ bottom →
      (s.opened.map OpenTag.tag).head? = some tag → Meets fail kept (s.closeTag tag))
    (tags : List Tag) (distinct : (tags ++ bottom).Nodup) (coherent : s.Coherent calm)
    (holds : kept s) (among : (s.opened.map OpenTag.tag).Sublist (tags ++ bottom)) :
    Meets fail (fun s' => kept s' ∧ s'.Coherent calm
      ∧ (s'.opened.map OpenTag.tag).Sublist bottom) (closeAll tags s) := by
  induction tags generalizing s with
  | nil => exact ⟨holds, coherent, among⟩
  | cons tag rest ih =>
      obtain ⟨fresh, distinct'⟩ := List.nodup_cons.mp distinct
      rw [closeAll]
      rcases List.sublist_cons_iff.mp among with later | ⟨tags, tagsEq, later⟩
      · have inactive : s.isActive tag ≠ true := by
          intro active
          obtain ⟨o, member, rfl⟩ := isActive_iff.mp active
          exact fresh (later.subset (List.mem_map_of_mem member))
        rw [if_neg inactive]
        exact ih distinct' coherent holds later
      · have head : (s.opened.map OpenTag.tag).head? = some tag := by rw [tagsEq]; rfl
        have mayEnd := mayEnd_of_head coherent head
        have active : s.isActive tag = true := isActive_iff.mpr mayEnd.active
        have above : tag ∉ bottom := fun below => fresh (List.mem_append_right _ below)
        rw [if_pos active]
        apply Meets.bind ((keeps coherent holds above head).also (closeTag_meets coherent mayEnd))
        rintro s₁ ⟨holds₁, coherent₁, closes, ended⟩
        refine ih distinct' coherent₁ holds₁ ?_
        have fewer := closes.opened.map OpenTag.tag
        rw [tagsEq] at fewer
        rcases List.sublist_cons_iff.mp fewer with others | ⟨kept, keptEq, -⟩
        · exact others.trans later
        · obtain ⟨o, member, same⟩ : ∃ o ∈ s₁.opened, o.tag = tag := by
            apply List.mem_map.mp
            rw [keptEq]
            exact List.mem_cons_self
          exact absurd same (ended o member)

/-- All tags may end, the one opened last first. -/
theorem closeOpened_keeps {kept : Scan → Prop} (keeps : EndKeeps calm kept)
    (coherent : s.Coherent calm) (holds : kept s) :
    Meets (Refused calm) (fun s' => (s'.Coherent calm ∧ s.Closes s' ∧ s'.opened = []) ∧ kept s')
      (closeAll (s.opened.map OpenTag.tag) s) := by
  have ends : ∀ {tag : Tag} {s₁ : Scan}, s₁.Coherent calm → s.Closes s₁ ∧ kept s₁ → tag ∉ [] →
      (s₁.opened.map OpenTag.tag).head? = some tag →
      Meets (Refused calm) (fun s' => s.Closes s' ∧ kept s') (s₁.closeTag tag) := by
    rintro tag s₁ coherent₁ ⟨closes₁, holds₁⟩ - head
    have mayEnd := mayEnd_of_head coherent₁ head
    apply Meets.mono ((closeTag_meets coherent₁ mayEnd).also (keeps coherent₁ mayEnd holds₁))
    rintro s₂ ⟨⟨-, closes₂, -⟩, holds₂⟩
    exact ⟨closes₁.trans closes₂, holds₂⟩
  have distinct : (s.opened.map OpenTag.tag ++ []).Nodup := by simpa using coherent.sound.once
  apply Meets.mono (closeAll_newest ends _ distinct coherent ⟨.refl s, holds⟩ (by simp))
  rintro s₁ ⟨⟨closes, holds₁⟩, coherent₁, noTags⟩
  exact ⟨⟨coherent₁, closes, by simpa using noTags⟩, holds₁⟩

theorem closeOpened_meets (coherent : s.Coherent calm) :
    Meets (Refused calm) (fun s' => s'.Coherent calm ∧ s.Closes s' ∧ s'.opened = [])
      (closeAll (s.opened.map OpenTag.tag) s) :=
  Meets.mono (closeOpened_keeps endKeeps_true coherent trivial) fun _ met => met.1

end MarkPress.Scan
