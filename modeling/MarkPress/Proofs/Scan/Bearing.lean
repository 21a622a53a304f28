/-
Module: MarkPress.Proofs.Scan.Bearing
Purpose: Where the region of an open address stands.
  It holds what the address has captured, as the newest region or behind others. A heading that ends
  around it puts other regions in front of it, folds it into nothing and leaves its text alone.
Main exports:
  Scan.Bears, Scan.Fills, Scan.Elsewhere, Bears.put, Bears.openParagraph, fold_bears,
  closeHeading_bears
-/
import MarkPress.Proofs.Scan.Layout

namespace MarkPress.Scan

variable {s s' : Scan} {calm : Prop} {tag : Tag} {text : Text} {url : Nat}

/-! ### Regions that hold a text -/

/-- The region of a number holds a text. -/
def Bears (serial : Nat) (text : Text) (s : Scan) : Prop :=
  ∃ e ∈ s.arena ++ s.detached, e.serial = serial ∧ e.region.inner = text

/-- The region of a number holds a text and is the newest one. -/
def Fills (serial : Nat) (text : Text) (s : Scan) : Prop :=
  ∃ e older, s.arena = e :: older ∧ e.serial = serial ∧ e.region.inner = text

/-- The newest region is not the one of a number. -/
def Elsewhere (serial : Nat) (s : Scan) : Prop := ∀ e ∈ s.arena.head?, e.serial ≠ serial

theorem Fills.bears (fills : s.Fills url text) : s.Bears url text := by
  obtain ⟨e, older, split, serial, inner⟩ := fills
  exact ⟨e, by simp [split], serial, inner⟩

theorem Fills.put (fills : s.Fills url text) (more : Text) :
    (s.put more).Fills url (text ++ more) := by
  obtain ⟨e, older, split, serial, rfl⟩ := fills
  exact ⟨{ e with region := e.region.extend more }, older, by rw [Scan.put, split], serial,
    Region.inner_extend more e.region⟩

theorem Bears.issued (bears : s.Bears url text) (sound : s.Sound) : url < s.nextSerial := by
  obtain ⟨e, member, rfl, -⟩ := bears
  exact sound.fresh _ (List.mem_map_of_mem member)

/-- New regions leave the others as they are. -/
theorem Bears.suffix (bears : s.Bears url text) (arena : s.arena <:+ s'.arena)
    (detached : s'.detached = s.detached) : s'.Bears url text := by
  obtain ⟨e, member, found⟩ := bears
  refine ⟨e, ?_, found⟩
  rw [detached]
  exact (List.mem_append.mp member).elim (fun here => List.mem_append_left _ (arena.subset here))
    (List.mem_append_right _)

/-- Text that goes to the newest region changes no other one. -/
theorem Bears.put (bears : s.Bears url text) (elsewhere : s.Elsewhere url) (more : Text) :
    (s.put more).Bears url text ∧ (s.put more).Elsewhere url := by
  obtain ⟨e, member, serial, inner⟩ := bears
  cases split : s.arena with
  | nil =>
      rw [split] at member
      refine ⟨⟨e, ?_, serial, inner⟩, ?_⟩
      · rw [Scan.put, split]
        exact member
      · rw [Scan.put, split, Elsewhere]
        simp
  | cons newest older =>
      have differs : newest.serial ≠ url := elsewhere newest (by simp [split])
      rw [split, List.cons_append, List.mem_cons] at member
      refine ⟨⟨e, ?_, serial, inner⟩, ?_⟩
      · rw [Scan.put, split]
        refine List.mem_cons_of_mem _ (member.resolve_left ?_)
        rintro rfl
        exact differs serial
      · rw [Scan.put, split, Elsewhere]
        simpa using differs

theorem openParagraph_arena (s : Scan) :
    s.arena <:+ s.openParagraph.arena
      ∧ ∀ e ∈ s.openParagraph.arena.head?, s.nextSerial ≤ e.serial := by
  rw [openParagraph]
  split
  · refine ⟨⟨[_, _, _], rfl⟩, ?_⟩
    rintro e ⟨⟩
    exact Nat.le_add_right _ 2
  · refine ⟨⟨[_, _], rfl⟩, ?_⟩
    rintro e ⟨⟩
    exact Nat.le_add_right _ 1

theorem Bears.openParagraph (bears : s.Bears url text) (issued : url < s.nextSerial) :
    s.openParagraph.Bears url text ∧ s.openParagraph.Elsewhere url := by
  obtain ⟨suffix, newer⟩ := openParagraph_arena s
  refine ⟨bears.suffix suffix (openParagraph_adds s).detached, fun e member => ?_⟩
  exact Nat.ne_of_gt (Nat.lt_of_lt_of_le issued (newer e member))

theorem Bears.nextSection (bears : s.Bears url text) (issued : url < s.nextSerial) :
    s.nextSection.Bears url text ∧ s.nextSection.Elsewhere url := by
  have begun : Bears url text ((s.endParagraph.push .sectionEnd).push .sectionBegin) :=
    bears.suffix ⟨[_, _, _], rfl⟩ rfl
  exact begun.openParagraph (Nat.lt_add_right 3 issued)

/-! ### The end of a heading around an address -/

theorem closeAnchor_bears (sound : s.Sound) {heading : Nat} (placed : s.Placed tag heading)
    (differs : heading ≠ url) (bears : s.Bears url text) :
    Meets (fun _ => True) (fun s' => s'.Bears url text ∧ s'.nextSerial = s.nextSerial)
      (s.closeAnchor heading) := by
  obtain ⟨e, member, serial, inner⟩ := bears
  rcases placed with ⟨newer, entry, older, split, rfl, -⟩ | ⟨-, entry, rendered, rfl, -, isSealed⟩
  · rw [closeAnchor_eq sound.distinct split (sound.unsealed entry (by simp [split]))]
    refine ⟨⟨e, ?_, serial, inner⟩, rfl⟩
    have other : e ≠ entry := by
      rintro rfl
      exact differs serial
    simp only [split, List.append_assoc, List.cons_append, List.mem_append, List.mem_cons,
      other, false_or] at member ⊢
    exact member.imp_right .inr
  · rw [closeAnchor_refused sound.distinct (List.mem_append_right _ rendered) isSealed]
    trivial

/-- A fold into another region leaves an open one in the arena or detaches it as it is. -/
theorem fold_bears (sound : s.Sound) {host : OpenRegion} (member : host ∈ s.openRegions)
    (shared : host.tag.traits.isExclusive = false) (closed : s.headingAnchorOpen = false)
    (differs : host.serial ≠ url) (isOpen : s.isOpen url = true) (bears : s.Bears url text) :
    Meets (fun _ => True) (fun s' => s'.Bears url text ∧ s'.Elsewhere url
      ∧ s'.nextSerial = s.nextSerial) (s.fold host) := by
  obtain ⟨tag, serial⟩ := host
  obtain ⟨e, eMember, eSerial, inner⟩ := bears
  rcases sound.placed member shared with ⟨nested, entry, older, split, rfl, uncaptioned⟩ | rendered
  · have stays : s.endsAnchor tag nested = false := by rw [endsAnchor, closed]; rfl
    rw [fold_into_eq sound split stays]
    refine ⟨?_, ?_, rfl⟩
    · rw [split, List.append_assoc, List.cons_append] at eMember
      simp only [Bears, folded, List.mem_append, List.mem_cons]
      simp only [List.mem_append, List.mem_cons] at eMember
      rcases eMember with wasNested | rfl | inArena | wasDetached
      · have kept : e.settled ∈ (nested.filter fun e => s.isOpen e.serial).map Entry.settled :=
          List.mem_map_of_mem (List.mem_filter.mpr ⟨wasNested, eSerial ▸ isOpen⟩)
        have settled : e.settled.region.inner = e.region.inner := by
          rw [Entry.settled]
          split <;> rfl
        exact ⟨e.settled, .inr (.inl kept), e.settled_serial.trans eSerial, settled.trans inner⟩
      · exact absurd eSerial differs
      · exact ⟨e, .inl (.inr inArena), eSerial, inner⟩
      · exact ⟨e, .inr (.inr wasDetached), eSerial, inner⟩
    · rintro e ⟨⟩
      exact differs
  · obtain ⟨hosting, entry, inDetached, rfl, rfl, isSealed⟩ := rendered
    obtain ⟨halt, foldEq, -⟩ := fold_refused sound inDetached isSealed entry.tag
    rw [foldEq]
    trivial

theorem leave_none_bears (bears : s.Bears url text) (elsewhere : s.Elsewhere url)
    (issued : url < s.nextSerial) :
    Meets (fun _ => True) (fun s' => s'.Bears url text ∧ s'.Elsewhere url) (s.leave none) := by
  simp only [leave, Option.bind_none, bind, Except.bind]
  cases s.arena with
  | nil => trivial
  | cons entry older =>
      change Scan.Bears url text (if _ then _ else _) ∧ _
      split
      · exact ⟨bears, elsewhere⟩
      · refine ⟨bears.suffix ⟨[_], rfl⟩ rfl, ?_⟩
        rintro e ⟨⟩
        exact Nat.ne_of_gt issued

/-- A heading that ends while an address is open in it puts a new section, or its host, in front of
the address. -/
theorem closeHeading_bears (coherent : s.Coherent calm) (own : s.exclusive = some .url)
    (heading : tag.isHeading = true) (active : s.isActive tag = true)
    (isOpened : ⟨.url, some url⟩ ∈ s.opened) (bears : s.Bears url text) :
    Meets (fun _ => True) (fun s' => s'.Bears url text ∧ s'.Elsewhere url) (s.closeTag tag) := by
  have sound := coherent.sound
  have single := Tag.isSingleLine_of_isHeading heading
  have region := Tag.isRegion_of_isHeading heading
  have action : tag.traits.onClose = .heading := by simpa [Tag.isHeading] using heading
  have mayEnd : s.MayEnd calm tag :=
    ⟨isActive_iff.mp active, .inr (.inr single), fun _ => .inl single⟩
  obtain ⟨serial, found, member⟩ := mayEnd.serialOf_eq sound region
  have urlMember : (⟨.url, url⟩ : OpenRegion) ∈ s.openRegions := mem_openRegions.mpr isOpened
  have older : serial < url := by
    refine newest_of_head sound (coherent.control.first _ own).2 urlMember _ member ?_
    rintro rfl
    cases heading
  have stays : ⟨.url, some url⟩ ∈ (s.forget tag).opened := by
    refine mem_forget.mpr ⟨isOpened, ?_⟩
    rintro rfl
    cases heading
  have issued : url < s.nextSerial := sound.open_lt_next urlMember
  have placed : (s.forget tag).Placed tag serial :=
    sound.placed member (Tag.not_isExclusive_of_isSingleLine single)
  have bears₀ : (s.forget tag).Bears url text := bears
  -- what the end of the heading does comes behind the address
  have ended : Meets (fun _ => True) (fun s' => s'.Bears url text ∧ s'.Elsewhere url
      ∧ url < s'.nextSerial) ((s.forget tag).endHeading serial) := by
    rw [endHeading_eq]
    have anchored : Meets (fun _ => True) (fun s' => s'.Bears url text ∧ url < s'.nextSerial)
        (if (s.forget tag).headingAnchorOpen then (s.forget tag).closeAnchor serial
          else .ok (s.forget tag)) := by
      split
      · apply Meets.mono (closeAnchor_bears (sound.forget tag) placed (Nat.ne_of_lt older) bears₀)
        exact fun s₁ met => ⟨met.1, met.2 ▸ issued⟩
      · exact ⟨bears₀, issued⟩
    apply Meets.bind anchored
    intro s₁ met
    obtain ⟨bears₁, issued₁⟩ := met
    have next := bears₁.nextSection issued₁
    exact ⟨next.1, next.2, Nat.lt_add_right 5 issued₁⟩
  rw [closeTag, closeTagWith, found, if_pos region]
  simp only [endRegion, action]
  have goesOn : Meets (Refused False) _ ((s.forget tag).endHeading serial) :=
    endHeading_meets (sound.forget tag) (fun whole => whole.elim) placed
  apply Meets.bind (goesOn.if_ok.and ended)
  rintro s₁ ⟨⟨goesOn, unchanged, closed⟩, bears₁, elsewhere₁, issued₁⟩
  have sound₁ := goesOn.sound (sound.forget tag)
  have apart : s₁.Apart calm serial :=
    (mayEnd.apart coherent found).congr goesOn.keeps.opened unchanged
  rw [leave, Option.bind_some]
  cases hostEq : s₁.hostOf (some serial) with
  | none => exact leave_none_bears bears₁ elsewhere₁ issued₁
  | some host =>
      obtain ⟨hostMember, -⟩ := hostOf_some hostEq
      have shared := apart.shared sound₁ hostEq
      have urlMember₁ : (⟨.url, url⟩ : OpenRegion) ∈ s₁.openRegions :=
        mem_openRegions.mpr (goesOn.keeps.opened ▸ stays)
      have isOpen₁ : s₁.isOpen url = true := isOpen_iff.mpr ⟨_, urlMember₁, rfl⟩
      have differs : host.serial ≠ url := by
        intro same
        rw [tag_eq_of_serial_eq sound₁ hostMember urlMember₁ same] at shared
        cases shared
      apply Meets.bind (fold_bears sound₁ hostMember shared closed differs isOpen₁ bears₁)
      intro s₂ met
      obtain ⟨bears₂, elsewhere₂, same⟩ := met
      exact leave_none_bears bears₂ elsewhere₂ (same ▸ issued₁)

end MarkPress.Scan
