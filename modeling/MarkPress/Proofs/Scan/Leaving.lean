/-
Module: MarkPress.Proofs.Scan.Leaving
Purpose: What happens to the region of a tag that ends.
  The region does what its closing action says and is folded into its host. What ends leaves no
  exclusive region open that could be its host, so the fold works or is refused, and afterwards text
  has a region to go to.
Main exports:
  Scan.Apart, leave_meets, leave_into_eq, endHeading_meets, endRegion_meets, closeRegion_meets
-/
import MarkPress.Proofs.Scan.Coherent

namespace MarkPress.Scan

variable {s s' : Scan} {calm : Prop} {tag : Tag}

/-! ### The region of a tag -/

theorem serialOf_of_open (sound : s.Sound) {o : OpenRegion} (member : o ∈ s.openRegions) :
    s.serialOf o.tag = some o.serial := by
  have isOpened := mem_openRegions.mp member
  rw [serialOf]
  cases foundEq : s.opened.find? fun x => x.tag = o.tag with
  | none =>
      have absent := List.find?_eq_none.mp foundEq _ isOpened
      simp at absent
  | some x =>
      have same : x.tag = o.tag := by simpa using List.find?_some foundEq
      have xMember := List.mem_of_find?_eq_some foundEq
      rw [List.inj_on_of_nodup_map sound.once xMember isOpened same]
      rfl

theorem openRegion_of_serialOf {serial : Nat} (h : s.serialOf tag = some serial) :
    (⟨tag, serial⟩ : OpenRegion) ∈ s.openRegions := by
  rw [serialOf, Option.bind_eq_some_iff] at h
  obtain ⟨x, found, region⟩ := h
  have same : x.tag = tag := by simpa using List.find?_some found
  have member := List.mem_of_find?_eq_some found
  apply mem_openRegions.mpr
  rw [← same, ← region]
  exact member

theorem tag_eq_of_serial_eq (sound : s.Sound) {a b : OpenRegion} (ha : a ∈ s.openRegions)
    (hb : b ∈ s.openRegions) (same : a.serial = b.serial) : a.tag = b.tag := by
  obtain ⟨x, xMember, xSerial, xTag⟩ := sound.entry_of_open ha
  obtain ⟨y, yMember, ySerial, yTag⟩ := sound.entry_of_open hb
  have one : x = y := sound.entry_unique xMember yMember (by rw [xSerial, ySerial, same])
  rw [← xTag, ← yTag, one]

/-- Forgetting the tag of an open region leaves the region without a tag. -/
theorem not_isOpen_forget (sound : s.Sound) {o : OpenRegion} (member : o ∈ s.openRegions) :
    (s.forget o.tag).isOpen o.serial = false := by
  apply Bool.eq_false_iff.mpr
  intro still
  obtain ⟨other, otherMember, same⟩ := isOpen_iff.mp still
  obtain ⟨isOpened, differs⟩ := mem_forget.mp (mem_openRegions.mp otherMember)
  exact differs (tag_eq_of_serial_eq sound (mem_openRegions.mpr isOpened) member same)

/-! ### Leaving a region -/

theorem hostOf_some {serial : Nat} {host : OpenRegion} (h : s.hostOf (some serial) = some host) :
    host ∈ s.openRegions
      ∧ (host.serial ∈ s.arena.map Entry.serial → host.serial < serial) := by
  simp only [hostOf] at h
  split at h
  · have found := List.find?_some h
    refine ⟨List.mem_of_find?_eq_some h, fun held => ?_⟩
    have holds := Arena.holds_iff.mpr held
    simpa [holds] using found
  · cases h

/-- What the region that ends leaves open. An exclusive region is newer and in the arena, so it is
no host. In a calm scan the region that ends is newer than all others, unless those are
exclusive. -/
structure Apart (calm : Prop) (serial : Nat) (s : Scan) : Prop where
  exclusive : ∀ o ∈ s.openRegions, o.tag.traits.isExclusive = true →
    o.serial ∉ s.detached.map Entry.serial ∧ serial < o.serial
  newest : calm → (∀ o ∈ s.openRegions, o.serial < serial)
    ∨ ∀ o ∈ s.openRegions, o.tag.traits.isExclusive = true

theorem Apart.congr {serial : Nat} (apart : s.Apart calm serial) (opened : s'.opened = s.opened)
    (detached : s'.detached = s.detached) : s'.Apart calm serial where
  exclusive := by rw [openRegions_congr opened, detached]; exact apart.exclusive
  newest := by rw [openRegions_congr opened]; exact apart.newest

/-- Fewer open regions, none of them exclusive, leave nothing open either. -/
theorem Apart.of_fewer {serial : Nat} (apart : s.Apart calm serial)
    (fewer : s'.openRegions.Sublist s.openRegions)
    (shared : ∀ o ∈ s'.openRegions, o.tag.traits.isExclusive = false) : s'.Apart calm serial where
  exclusive := by
    intro o member isExclusive
    rw [shared o member] at isExclusive
    cases isExclusive
  newest := by
    intro isCalm
    apply (apart.newest isCalm).imp
    · exact fun older o member => older o (fewer.subset member)
    · exact fun exclusive o member => exclusive o (fewer.subset member)

theorem Apart.shared {serial : Nat} (apart : s.Apart calm serial) (sound : s.Sound)
    {host : OpenRegion} (h : s.hostOf (some serial) = some host) :
    host.tag.traits.isExclusive = false := by
  obtain ⟨member, older⟩ := hostOf_some h
  apply Bool.eq_false_iff.mpr
  intro isExclusive
  obtain ⟨attached, newer⟩ := apart.exclusive host member isExclusive
  obtain ⟨entry, entryMember, serialEq, -⟩ := sound.entry_of_open member
  rcases List.mem_append.mp entryMember with inArena | inDetached
  · have := older (serialEq ▸ List.mem_map_of_mem inArena)
    omega
  · exact attached (serialEq ▸ List.mem_map_of_mem inDetached)

theorem Apart.host_newest {serial : Nat} (apart : s.Apart calm serial) (sound : s.Sound)
    (isCalm : calm) {host : OpenRegion} (h : s.hostOf (some serial) = some host) :
    ∀ o ∈ s.openRegions, o.serial ≤ host.serial := by
  have shared := apart.shared sound h
  rcases apart.newest isCalm with older | exclusive
  · -- the first open region is older, so it is the host
    intro o member
    have descending := sound.descending
    simp only [hostOf] at h
    cases openEq : s.openRegions with
    | nil => simp [openEq] at member
    | cons first rest =>
        have firstOlder := older first (by simp [openEq])
        simp only [openEq, List.find?_cons, firstOlder, decide_true, Bool.or_true] at h
        split at h
        · cases h
          rw [openEq, List.map_cons, List.pairwise_cons] at descending
          rcases List.mem_cons.mp (openEq ▸ member) with rfl | later
          · exact Nat.le_refl _
          · exact Nat.le_of_lt (descending.1 o.serial (List.mem_map_of_mem later))
        · cases h
  · obtain ⟨member, -⟩ := hostOf_some h
    have isExclusive := exclusive host member
    rw [shared] at isExclusive
    cases isExclusive

/-- Text has a region to go to once a text has been made where there is none. -/
theorem toText_adds {entry : Entry} {older : Arena} (split : s.arena = entry :: older) :
    s.Adds (if s.isOpen entry.serial || entry.region.tag == .text then s else s.push .text)
      ∧ (if s.isOpen entry.serial || entry.region.tag == .text then s
        else s.push .text).Writable := by
  split
  · rename_i takesText
    simp only [Bool.or_eq_true, beq_iff_eq] at takesText
    exact ⟨.refl s, entry, older, split, takesText.symm⟩
  · exact ⟨push_adds s (by decide), _, _, rfl, .inl rfl⟩

/-- Leaving without a host only makes sure that text has a region to go to. -/
theorem leave_none_meets (sound : s.Sound) (goesOn : s.Extends s')
    (unchanged : calm → s'.detached = s.detached) :
    Meets (Refused calm) (fun s' => s.Extends s' ∧ s'.Writable ∧ (calm → s'.detached = s.detached))
      (s'.leave none) := by
  simp only [leave, Option.bind_none, bind, Except.bind]
  cases arenaEq : s'.arena with
  | nil => exact absurd arenaEq (goesOn.sound sound).arena_ne_nil
  | cons entry older =>
      obtain ⟨adds, writable⟩ := toText_adds arenaEq
      refine ⟨goesOn.trans adds.toExtends, writable, fun isCalm => ?_⟩
      rw [adds.detached, unchanged isCalm]

theorem leave_meets (sound : s.Sound) (whole : calm → s.detached = []) {serial : Nat}
    (apart : s.Apart calm serial) :
    Meets (Refused calm) (fun s' => s.Extends s' ∧ s'.Writable ∧ (calm → s'.detached = s.detached))
      (s.leave (some serial)) := by
  rw [leave, Option.bind_some]
  cases hostEq : s.hostOf (some serial) with
  | none => exact leave_none_meets sound (.refl s) fun _ => rfl
  | some host =>
      obtain ⟨member, -⟩ := hostOf_some hostEq
      apply Meets.bind (fold_meets sound whole member (apart.shared sound hostEq))
      intro s₁ met
      obtain ⟨goesOn, -, unchanged⟩ := met
      exact leave_none_meets sound goesOn fun isCalm =>
        unchanged (apart.host_newest sound isCalm hostEq)

/-- The region opened last hosts what stands behind it. -/
theorem hostOf_last (sound : s.Sound) {nested older : Arena} {host : Entry} {serial : Nat}
    (split : s.arena = nested ++ host :: older) (among : serial ∈ nested.map Entry.serial)
    {others : List OpenRegion} (regions : s.openRegions = ⟨tag, host.serial⟩ :: others) :
    s.hostOf (some serial) = some ⟨tag, host.serial⟩ := by
  have older_lt : host.serial < serial := by
    have sorted := sound.sorted
    rw [split, List.map_append, List.pairwise_append] at sorted
    exact sorted.2.2 serial among host.serial (by simp)
  have held : s.arena.holds serial = true := by
    rw [Arena.holds_iff, split, List.map_append]
    exact List.mem_append_left _ among
  simp only [hostOf, held, if_true, regions, List.find?_cons, older_lt, decide_true, Bool.or_true]

/-- What stands behind the region opened last is folded into it, and text goes to it then. -/
theorem leave_into_eq (sound : s.Sound) {nested older : Arena} {host : Entry} {serial : Nat}
    (split : s.arena = nested ++ host :: older) (among : serial ∈ nested.map Entry.serial)
    {others : List OpenRegion} (regions : s.openRegions = ⟨tag, host.serial⟩ :: others) :
    s.leave (some serial) = s.fold ⟨tag, host.serial⟩ := by
  have member : (⟨tag, host.serial⟩ : OpenRegion) ∈ s.openRegions := by simp [regions]
  have isOpen : s.isOpen host.serial = true := isOpen_iff.mpr ⟨_, member, rfl⟩
  have uncaptioned := sound.uncaptioned _ member host (by simp [split]) rfl
  have settles : ∀ s' region, s.fold ⟨tag, host.serial⟩ = .ok s' →
      s'.arena = { host with region := region } :: older → s'.opened = s.opened →
      s.leave (some serial) = .ok s' := by
    intro s' region folds arena opened
    have stillOpen : s'.isOpen host.serial = true := by
      rw [Scan.isOpen, opened]
      exact isOpen
    rw [leave, Option.bind_some, hostOf_last sound split among regions]
    simp only [folds, bind, Except.bind, arena]
    rw [stillOpen]
    rfl
  cases ending : s.endsAnchor tag nested with
  | false =>
      have folds := fold_into_eq sound split ending
      rw [folds]
      exact settles _ _ folds rfl rfl
  | true =>
      have folds := fold_ends_eq sound split uncaptioned ending
      rw [folds]
      exact settles _ _ folds rfl rfl

/-! ### What the end of a region tag does besides -/

theorem endBlock_adds (region : Option Nat) (s : Scan) : s.Adds (s.endBlock region) := by
  rw [endBlock]
  split
  · exact .refl s
  · exact s.endParagraph_adds.trans (openParagraph_adds _)

/-- A section ends and the next one begins. -/
theorem nextSection_adds (s : Scan) :
    s.Adds ((s.endParagraph.push .sectionEnd).push .sectionBegin).openParagraph := by
  have ended : s.Adds (s.endParagraph.push .sectionEnd) :=
    s.endParagraph_adds.trans (push_adds _ (by decide))
  have begun : s.Adds ((s.endParagraph.push .sectionEnd).push .sectionBegin) :=
    ended.trans (push_adds _ (by decide))
  exact begun.trans (openParagraph_adds _)

theorem endHeading_meets (sound : s.Sound) (whole : calm → s.detached = []) {serial : Nat}
    (placed : s.Placed tag serial) :
    Meets (Refused calm) (fun s' => s.Extends s' ∧ s'.detached = s.detached
      ∧ s'.headingAnchorOpen = false) (s.endHeading serial) := by
  rw [endHeading]
  split
  · rename_i anchorOpen
    apply Meets.bind (closeAnchor_meets sound whole placed anchorOpen)
    intro s₁ met
    obtain ⟨goesOn, unchanged, closed⟩ := met
    have adds := s₁.nextSection_adds
    exact ⟨goesOn.trans adds.toExtends, adds.detached.trans unchanged, adds.anchorSame.trans closed⟩
  · rename_i closed
    have adds := s.nextSection_adds
    exact ⟨adds.toExtends, adds.detached, adds.anchorSame.trans (by simpa using closed)⟩

theorem endRegion_meets (sound : s.Sound) (whole : calm → s.detached = [])
    (address : Nat → Scan → Outcome) {serial : Nat} (local_ : tag.traits.onClose ≠ .address)
    (placed : tag.isHeading = true → s.Placed tag serial) :
    Meets (Refused calm) (fun s' => s.Extends s' ∧ s'.detached = s.detached
      ∧ (tag.isHeading = true → s'.headingAnchorOpen = false))
      (s.endRegion address tag (some serial)) := by
  cases action : tag.traits.onClose with
  | plain =>
      simp only [endRegion, action]
      refine ⟨.refl s, rfl, fun heading => ?_⟩
      simp [Tag.isHeading, action] at heading
  | heading =>
      simp only [endRegion, action]
      apply Meets.mono (endHeading_meets sound whole (placed (by simp [Tag.isHeading, action])))
      intro s' met
      obtain ⟨goesOn, unchanged, closed⟩ := met
      exact ⟨goesOn, unchanged, fun _ => closed⟩
  | block =>
      simp only [endRegion, action]
      have adds := s.endBlock_adds (some serial)
      refine ⟨adds.toExtends, adds.detached, fun heading => ?_⟩
      simp [Tag.isHeading, action] at heading
  | address => exact absurd action local_

/-- The end of a region tag that is not an address. -/
theorem closeRegion_meets (sound : (s.forget tag).Sound) (whole : calm → s.detached = [])
    (address : Nat → Scan → Outcome) {serial : Nat} (found : s.serialOf tag = some serial)
    (region : tag.traits.isRegion = true) (local_ : tag.traits.onClose ≠ .address)
    (placed : tag.isHeading = true → (s.forget tag).Placed tag serial)
    (apart : (s.forget tag).Apart calm serial) :
    Meets (Refused calm) (fun s' => (s.forget tag).Extends s' ∧ s'.Writable
      ∧ (calm → s'.detached = s.detached) ∧ (tag.isHeading = true → s'.headingAnchorOpen = false))
      (s.closeTagWith address tag) := by
  rw [closeTagWith, found, if_pos region]
  apply Meets.bind (endRegion_meets sound whole address local_ placed)
  intro s₁ met
  obtain ⟨goesOn, unchanged, closed⟩ := met
  have unchanged₁ : s₁.detached = s.detached := unchanged
  have whole₁ : calm → s₁.detached = [] := fun isCalm => unchanged₁.trans (whole isCalm)
  apply Meets.mono (leave_meets (goesOn.sound sound) whole₁
    (apart.congr goesOn.keeps.opened unchanged))
  intro s₂ met
  obtain ⟨left, writable, same⟩ := met
  refine ⟨goesOn.trans left, writable, fun isCalm => (same isCalm).trans unchanged₁, ?_⟩
  intro heading
  have ended := closed heading
  cases anchorOpen : s₂.headingAnchorOpen with
  | false => rfl
  | true =>
      have before := left.keeps.anchor anchorOpen
      rw [ended] at before
      cases before

end MarkPress.Scan
