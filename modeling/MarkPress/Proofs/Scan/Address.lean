/-
Module: MarkPress.Proofs.Scan.Address
Purpose: What the end of an address does.
  The captured address goes to the newest open link or image, and that tag ends with it. A link or
  an image in the arena always takes its address; only the end of its region can be refused.
Main exports:
  addressTarget_some, setLinkAddress_eq, setLinkAddress_meets, setImageAddress_eq,
  setImageAddress_meets, captureAddress_meets
-/
import MarkPress.Proofs.Scan.Leaving

namespace MarkPress.Scan

open Html

variable {s s' : Scan} {calm : Prop} {tag : Tag}

/-- The target of an address is the newest of the open links and images that are in the arena. -/
theorem addressTarget_some (sound : s.Sound) {target : Entry} (h : s.addressTarget? = some target) :
    target.tag ∈ Tag.urlTargets ∧ (⟨target.tag, target.serial⟩ : OpenRegion) ∈ s.openRegions
      ∧ ∃ newer older, s.arena = newer ++ target :: older
        ∧ ∀ e ∈ newer, e.tag ∈ Tag.urlTargets → s.isOpen e.serial = false := by
  rw [addressTarget?, List.find?_eq_some_iff_append] at h
  obtain ⟨isTarget, newer, older, split, others⟩ := h
  simp only [Bool.and_eq_true, decide_eq_true_eq] at isTarget
  obtain ⟨o, member, serial⟩ := isOpen_iff.mp isTarget.2
  obtain ⟨e, entryMember, eSerial, eTag⟩ := sound.entry_of_open member
  have same : e = target := by
    have targetMember : target ∈ s.arena ++ s.detached := by simp [split]
    exact sound.entry_unique entryMember targetMember (eSerial.trans serial)
  refine ⟨isTarget.1, ?_, newer, older, split, ?_⟩
  · rw [← serial, ← same, eTag]
    exact member
  · intro e eMember tagged
    have differs := others e eMember
    have tagged' : e.region.tag ∈ Tag.urlTargets := tagged
    simpa [tagged'] using differs

theorem setAttribute_of_open {region : Region} (unsealed : region.isSealed = false) {name : Text}
    (ordinary : name ≠ Dictionary.reservedKey) (value : Option Text) :
    region.setAttribute name value
      = .ok { region with attributes := region.attributes.set name value } := by
  rw [Region.setAttribute, Region.change_of_open unsealed, if_neg ordinary]

/-- A link in the arena takes its address. -/
theorem setLinkAddress_eq (sound : s.Sound) {newer older : Arena} {link : Entry}
    (split : s.arena = newer ++ link :: older) (address : Text) :
    s.setLinkAddress link.serial address = .ok { s with
      arena := newer ++ { link with region := { link.region with
        attributes := link.region.attributes.set "href".toList (some address) } } :: older } := by
  have unsealed : link.region.isSealed = false := sound.unsealed link (by simp [split])
  have described := setAttribute_of_open unsealed
    (show "href".toList ≠ Dictionary.reservedKey by decide) (some address)
  rw [setLinkAddress, changeRegion_eq sound.distinct split _ described]

/-- A link takes its address. -/
theorem setLinkAddress_meets (sound : s.Sound) {newer older : Arena} {link : Entry}
    (split : s.arena = newer ++ link :: older) (tagged : link.tag = .link) (address : Text) :
    ∃ s', s.setLinkAddress link.serial address = .ok s' ∧ Edit (s.forget .link) (s'.forget .link)
      ∧ ∃ arena next, s' = { s with arena := arena, nextSerial := next } := by
  have plain : ∀ region : Region, region.tag = .link → region.isCaptioned = false := by
    intro region tagged
    simp [Region.isCaptioned, tagged, Tag.images]
  rw [setLinkAddress_eq sound split]
  refine ⟨_, rfl, ?_, _, _, rfl⟩
  exact .describe (s.forget .link) split (plain _ tagged)
    (fun known => known.set (some address) (by decide)) (plain _ tagged)

/-- A caption goes behind an image that is not small as soon as its alternative text is known. -/
theorem isCaptioned_set (region : Region) (attributes : Attributes) (alternative : Text) :
    ({ region with
        attributes := attributes.set "alt".toList (some alternative) } : Region).isCaptioned
      = (region.tag ∈ Tag.images && region.tag != .embedSmall && !alternative.isEmpty) := by
  cases alternative <;> simp [Region.isCaptioned]

/-- What the attributes of an image become. -/
def imageAttributes (image : Region) (address : Text) : Attributes :=
  (image.attributes.set "src".toList (some address)).set "alt".toList
    (some (stripTags image.inner).trim)

/-- An image in the arena takes its address and its alternative text. -/
theorem setImageAddress_eq (sound : s.Sound) {newer older : Arena} {image : Entry}
    (split : s.arena = newer ++ image :: older) (address : Text) :
    s.setImageAddress image address
      = .ok (if image.region.tag != .embedSmall && !(stripTags image.region.inner).trim.isEmpty then
          pushRegion ((Region.ofTag .caption).extend image.region.inner) { s with
            arena := newer ++ { image with region := { image.region with
              attributes := imageAttributes image.region address } } :: older }
        else { s with
          arena := newer ++ { image with region := { image.region with
            attributes := imageAttributes image.region address } } :: older }) := by
  have unsealed : image.region.isSealed = false := sound.unsealed image (by simp [split])
  let first : Entry := { image with region := { image.region with
    attributes := image.region.attributes.set "src".toList (some address) } }
  have addressed := setAttribute_of_open unsealed
    (show "src".toList ≠ Dictionary.reservedKey by decide) (some address)
  have described := @setAttribute_of_open first.region unsealed "alt".toList (by decide)
    (some (stripTags image.region.inner).trim)
  have distinct : ((newer ++ first :: older ++ s.detached).map Entry.serial).Nodup := by
    have before := sound.distinct
    rw [split] at before
    simpa using before
  have changed := changeRegion_eq sound.distinct split
    (fun region => region.setAttribute "src".toList (some address)) addressed
  have changedAgain := changeRegion_eq (s := { s with arena := newer ++ first :: older }) distinct
    rfl (fun region => region.setAttribute "alt".toList (some (stripTags image.region.inner).trim))
    described
  rw [setImageAddress, changed]
  change (changeRegion first.serial _ { s with arena := newer ++ first :: older } >>= _) = _
  rw [changedAgain]
  rfl

/-- An image takes its address, its alternative text and, where it has one, a caption. -/
theorem setImageAddress_meets (sound : s.Sound) {newer older : Arena} {image : Entry}
    (split : s.arena = newer ++ image :: older) (tagged : image.tag ∈ Tag.images)
    (isOpen : (⟨image.tag, image.serial⟩ : OpenRegion) ∈ s.openRegions) (address : Text) :
    ∃ s', s.setImageAddress image address = .ok s'
      ∧ Edit (s.forget image.tag) (s'.forget image.tag)
      ∧ ∃ arena next, s' = { s with arena := arena, nextSerial := next } := by
  have uncaptioned : image.region.isCaptioned = false :=
    sound.uncaptioned _ isOpen image (by simp [split]) rfl
  have known : image.region.attributes.Known → (imageAttributes image.region address).Known := by
    intro known
    have addressed := known.set (some address) (show "src".toList ∈ attributeNames by decide)
    exact addressed.set _ (by decide)
  have captioned := isCaptioned_set image.region
    (image.region.attributes.set "src".toList (some address)) (stripTags image.region.inner).trim
  have isImage : image.region.tag ∈ Tag.images := tagged
  simp only [isImage, decide_true, Bool.true_and] at captioned
  rw [setImageAddress_eq sound split]
  refine ⟨_, rfl, ?_⟩
  split
  · rename_i shown
    rw [shown] at captioned
    refine ⟨?_, _, _, rfl⟩
    exact .caption (s.forget image.tag) split (not_isOpen_forget sound isOpen) uncaptioned known
      captioned
  · rename_i hidden
    rw [Bool.eq_false_iff.mpr hidden] at captioned
    refine ⟨?_, _, _, rfl⟩
    exact .describe (s.forget image.tag) split uncaptioned known captioned

theorem address_traits (target : tag ∈ Tag.urlTargets) :
    tag.traits.isRegion = true ∧ tag.traits.onClose ≠ .address ∧ tag.isHeading = false := by
  cases tag <;> revert target <;> decide

/-- Where only links and images are open, all that are open beside the target are behind it. -/
theorem target_apart (sound : s.Sound) (whole : calm → s.detached = [])
    (shared : ∀ o ∈ s.openRegions, o.tag.traits.isExclusive = false)
    (targets : calm → ∀ o ∈ s.openRegions, o.tag ∈ Tag.urlTargets) {target : Entry}
    (h : s.addressTarget? = some target) : (s.forget target.tag).Apart calm target.serial := by
  obtain ⟨-, -, newer, older, split, others⟩ := addressTarget_some sound h
  have fewer := (s.forget_openRegions_sublist target.tag).subset
  constructor
  · intro o member isExclusive
    rw [shared o (fewer member)] at isExclusive
    cases isExclusive
  · intro isCalm
    refine .inl fun o member => ?_
    obtain ⟨-, differs⟩ := mem_forget.mp (mem_openRegions.mp member)
    obtain ⟨e, entryMember, serialEq, tagEq⟩ := sound.entry_of_open (fewer member)
    have sorted := sound.sorted
    rw [whole isCalm, List.append_nil, split] at entryMember
    rw [split, List.map_append, List.map_cons, List.pairwise_append, List.pairwise_cons] at sorted
    rcases List.mem_append.mp entryMember with before | here | behind
    · -- an open link or image before the target would be the target
      have closed := others e before (tagEq ▸ targets isCalm o (fewer member))
      rw [serialEq, isOpen_iff.mpr ⟨o, fewer member, rfl⟩] at closed
      cases closed
    · exact absurd tagEq.symm differs
    · rw [← serialEq]
      exact sorted.2.1.1 e.serial (List.mem_map_of_mem (by assumption))

/-- The target of an address ends, once it has been described. -/
theorem closeTarget_meets (sound : s.Sound) (whole : calm → s.detached = [])
    (target : tag ∈ Tag.urlTargets) {serial : Nat}
    (isOpen : (⟨tag, serial⟩ : OpenRegion) ∈ s.openRegions)
    (apart : (s.forget tag).Apart calm serial) (edit : Edit (s.forget tag) (s'.forget tag))
    (described : ∃ arena next, s' = { s with arena := arena, nextSerial := next }) :
    Meets (Refused calm) (fun s'' => s.Closes s'' ∧ (calm → s''.detached = s.detached))
      (closeTagWith (fun _ s => .ok s) tag s') := by
  obtain ⟨region, local_, noHeading⟩ := address_traits target
  obtain ⟨arena, next, rfl⟩ := described
  have found := serialOf_of_open sound isOpen
  have heading : ∀ {P : Prop}, tag.isHeading = true → P := by
    intro P isHeading
    rw [noHeading] at isHeading
    cases isHeading
  apply Meets.mono (closeRegion_meets (edit.sound (sound.forget _)) whole _ found region local_
    heading (apart.congr rfl rfl))
  intro s₂ met
  obtain ⟨goesOn, -, unchanged, -⟩ := met
  have extends_ : (s.forget tag).Extends s₂ :=
    ⟨.trans (.single edit) goesOn.edits, { goesOn.keeps with }⟩
  exact ⟨.of_forget sound (mem_openRegions.mp isOpen) region extends_ heading, unchanged⟩

/-- The captured address goes to its target, and the target ends. -/
theorem captureAddress_meets (sound : s.Sound) (whole : calm → s.detached = [])
    (shared : ∀ o ∈ s.openRegions, o.tag.traits.isExclusive = false)
    (targets : calm → ∀ o ∈ s.openRegions, o.tag ∈ Tag.urlTargets) (serial : Nat) :
    Meets (Refused calm) (fun s' => s.Closes s' ∧ (calm → s'.detached = s.detached))
      (s.captureAddress serial) := by
  rw [captureAddress]
  cases targetEq : s.addressTarget? with
  | none => exact ⟨.refl s, fun _ => rfl⟩
  | some target =>
      obtain ⟨tagged, isOpen, newer, older, split, -⟩ := addressTarget_some sound targetEq
      have apart := target_apart sound whole shared targets targetEq
      dsimp only
      split
      · rename_i isLink
        have sameTag : target.tag = .link := isLink
        obtain ⟨s₁, okEq, edit, described⟩ := setLinkAddress_meets sound split isLink
          (((s.regionOf serial).map Region.inner).getD []).trim
        rw [okEq]
        rw [← sameTag] at edit
        exact closeTarget_meets sound whole tagged isOpen apart edit described
      · rename_i notLink
        have image : target.tag ∈ Tag.images := (List.mem_cons.mp tagged).resolve_left notLink
        obtain ⟨s₁, okEq, edit, described⟩ := setImageAddress_meets sound split image isOpen
          (((s.regionOf serial).map Region.inner).getD []).trim
        rw [okEq]
        exact closeTarget_meets sound whole tagged isOpen apart edit described

end MarkPress.Scan
