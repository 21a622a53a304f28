/-
Module: MarkPress.Proofs.Scan.Sections
Purpose: Sections in the regions of a scan.
  Between two operations the regions lead into a section: they begin with one, and where a heading
  ends, a section ends and the next one begins. Text that is written has no tags of sections, and
  what folding puts into a host stood inside of a section before. So the boundaries of sections stay
  in turn wherever they go: among the regions, in the text of a host or in a caption.
Main exports:
  Scan.Sectioned, Scan.StaysSectioned, write_sectioned, setListLevel_sectioned, leave_sectioned,
  closeRegion_sectioned, setLinkAddress_sectioned, setImageAddress_sectioned
-/
import MarkPress.Proofs.Render.Sections
import MarkPress.Proofs.Scan.Run

namespace MarkPress

open Html

/-! ### Texts that are written -/

namespace Tag

/-- Without the element of a section nothing that a tag writes opens or closes one. -/
theorem free_half {tag : Tag} (inner : tag.traits.element ≠ some .sect) {attributes : Attributes}
    (known : attributes.Known) {shape : Shape} : Seam (tag.write [] attributes shape) :=
  seam_nil.write (fun _ h => tag.name_mem_elementNames h) known inner shape

theorem inner_of_inline {tag : Tag} (inline : tag.traits.isRegion = false) :
    tag.traits.element ≠ some .sect :=
  element_inline inline (by decide)

theorem inner_of_opener {tag : Tag} (openable : tag.traits.opener.isSome = true) :
    tag.traits.element ≠ some .sect := by
  have all : ∀ t ∈ Tag.all, t.traits.opener.isSome = true → t.traits.element ≠ some .sect := by
    decide
  exact all tag tag.mem_all openable

theorem seam_closeHalf {tag : Tag} (inline : tag.traits.isRegion = false) : Seam tag.closeHalf :=
  free_half (inner_of_inline inline) tag.attributes_known

theorem seam_openHalf {tag : Tag} (inline : tag.traits.isRegion = false) : Seam tag.openHalf :=
  free_half (inner_of_inline inline) tag.attributes_known

end Tag

theorem Sewing.seam_shown {regions : List Region} {inside behind : Bool}
    (sewing : Sewing inside regions behind) :
    Tokenized (regions.flatMap Region.shownText)
      ∧ (sectionTags (regions.flatMap Region.shownText)).foldlM crossTag inside = some behind := by
  induction regions generalizing inside with
  | nil => exact ⟨tokenized_nil, sewing.order⟩
  | cons region rest ih =>
      rw [List.flatMap_cons, Region.shownText]
      split
      · obtain ⟨sewn, next, crossed, later⟩ := cons_iff.mp sewing
        obtain ⟨tokenized, followed⟩ := sewn.render crossed
        obtain ⟨laterTokenized, laterFollowed⟩ := ih later
        rw [sectionTags_append tokenized, List.foldlM_append, followed]
        exact ⟨tokenized.append laterTokenized, laterFollowed⟩
      · rename_i hidden
        exact ih (sewing.drop (inner_of_hidden (Bool.eq_false_iff.mpr hidden)))

namespace Scan

variable {s s' : Scan} {calm : Prop} {tag : Tag} {text : Text}

/-- The regions lead into a section. -/
def Sectioned (s : Scan) : Prop := Sewing false s.regions true

/-- An outcome that leads to a scan whose regions lead into a section, if it leads to one at all. -/
abbrev StaysSectioned (outcome : Outcome) : Prop := Meets (fun _ => True) Sectioned outcome

/-! ### Changes to the regions -/

theorem regions_split {newer older : Arena} {entry : Entry}
    (split : s.arena = newer ++ entry :: older) :
    s.regions
      = (older.map Entry.region).reverse ++ entry.region :: (newer.map Entry.region).reverse := by
  simp [regions, split]

namespace Sectioned

theorem congr (sectioned : s.Sectioned) (arena : s'.arena = s.arena) : s'.Sectioned := by
  rw [Sectioned, regions, arena]
  exact sectioned

theorem pushRegion (sectioned : s.Sectioned) {region : Region} (sewn : region.Sewn)
    (inner : region.tag.traits.element ≠ some .sect) : (s.pushRegion region).Sectioned := by
  have regionsEq : (s.pushRegion region).regions = s.regions ++ [region] := by
    simp [regions, Scan.pushRegion]
  rw [Sectioned, regionsEq]
  exact Sewing.append_iff.mpr ⟨true, sectioned, .single sewn (Tag.crossSection_inner inner)⟩

theorem push (sectioned : s.Sectioned) (inner : tag.traits.element ≠ some .sect) :
    (s.push tag).Sectioned :=
  sectioned.pushRegion (Region.sewn_ofTag tag) inner

theorem endParagraph (sectioned : s.Sectioned) : s.endParagraph.Sectioned :=
  (sectioned.push (show Tag.paragraphEnd.traits.element ≠ some .sect by decide)).congr rfl

theorem openParagraph (sectioned : s.Sectioned) : s.openParagraph.Sectioned := by
  have ended : (if s.paragraphOpen then s.endParagraph else s).Sectioned := by
    split
    · exact sectioned.endParagraph
    · exact sectioned
  have begun := ended.push (show Tag.paragraphBegin.traits.element ≠ some .sect by decide)
  have marked : Sectioned
      { Scan.push .paragraphBegin (if s.paragraphOpen then s.endParagraph else s) with
        paragraphOpen := true } := begun.congr rfl
  exact (marked.push (show Tag.text.traits.element ≠ some .sect by decide)).congr rfl

/-- A section ends, and the next one begins. -/
theorem nextSection (sectioned : s.Sectioned) :
    ((s.push .sectionEnd).push .sectionBegin).Sectioned := by
  have regionsEq : ((s.push .sectionEnd).push .sectionBegin).regions
      = s.regions ++ [.ofTag .sectionEnd, .ofTag .sectionBegin] := by
    simp [regions, Scan.push, Scan.pushRegion]
  rw [Sectioned, regionsEq]
  refine Sewing.append_iff.mpr ⟨true, sectioned, Sewing.cons_iff.mpr ?_⟩
  exact ⟨Region.sewn_ofTag _, false, rfl, .single (Region.sewn_ofTag _) rfl⟩

/-- One region of the arena gets another content or other attributes. -/
theorem replace (sectioned : s.Sectioned) {newer older : Arena} {entry : Entry} {region : Region}
    (split : s.arena = newer ++ entry :: older) (same : region.tag = entry.region.tag)
    (sewn : entry.region.Sewn → region.Sewn) :
    Sectioned { s with arena := newer ++ { entry with region := region } :: older } := by
  rw [Sectioned, regions_split split, Sewing.append_iff] at sectioned
  obtain ⟨middle, before, behind⟩ := sectioned
  obtain ⟨old, next, crossed, later⟩ := Sewing.cons_iff.mp behind
  rw [Sectioned, regions_split rfl, Sewing.append_iff]
  exact ⟨middle, before, Sewing.cons_iff.mpr ⟨sewn old, next, same ▸ crossed, later⟩⟩

theorem extend (sectioned : s.Sectioned) {newer older : Arena} {entry : Entry}
    (split : s.arena = newer ++ entry :: older) (seam : Seam text) :
    Sectioned { s with
      arena := newer ++ { entry with region := entry.region.extend text } :: older } :=
  sectioned.replace split rfl fun sewn => sewn.extend seam

/-- What is cut off behind a host that is no boundary stood inside of a section. -/
theorem folded (sectioned : s.Sectioned) {nested older : Arena} {host : Entry}
    (split : s.arena = nested ++ host :: older) (inner : host.tag.traits.element ≠ some .sect) :
    (s.folded nested host older).Sectioned := by
  rw [Sectioned, regions_split split, Sewing.append_iff] at sectioned
  obtain ⟨middle, before, behind⟩ := sectioned
  obtain ⟨sewn, next, crossed, later⟩ := Sewing.cons_iff.mp behind
  obtain ⟨rfl, rfl⟩ := Tag.inside_of_inner inner crossed
  obtain ⟨tokenized, followed⟩ := later.seam_shown
  rw [← List.map_reverse, List.flatMap_map] at tokenized followed
  have regionsEq : (s.folded nested host older).regions
      = (older.map Entry.region).reverse
        ++ [host.region.extend (nested.reverse.flatMap fun e => e.region.shownText)] := by
    simp [regions, Scan.folded]
  rw [Sectioned, regionsEq, Sewing.append_iff]
  exact ⟨true, before, .single (sewn.extend ⟨tokenized, followed⟩) crossed⟩

end Sectioned

/-! ### Writing -/

theorem write_sectioned (sectioned : s.Sectioned) (seam : Seam text) :
    StaysSectioned (s.write text) := by
  rw [write, changeCurrent]
  cases split : s.arena with
  | nil => trivial
  | cons entry older =>
      cases unsealed : entry.region.isSealed with
      | true => simp [Region.append, Region.change_of_sealed unsealed]; trivial
      | false =>
          have parted : s.arena = [] ++ entry :: older := split
          simp only [Region.append, Region.change_of_open unsealed]
          exact (sectioned.extend parted seam).congr rfl

theorem flushSpace_sectioned (sectioned : s.Sectioned) : StaysSectioned s.flushSpace := by
  rw [flushSpace]
  split
  · dsimp only
    split
    · exact sectioned.congr rfl
    · exact write_sectioned (sectioned.congr rfl) (seam_of_plain (by simp))
  · exact sectioned

theorem appendLiteral_sectioned (sectioned : s.Sectioned) (c : Char) :
    StaysSectioned (s.appendLiteral c) := by
  apply Meets.bind (flushSpace_sectioned sectioned)
  intro s₁ sectioned₁
  apply Meets.bind (write_sectioned sectioned₁ (seam_of_plain plain_escapeText))
  exact fun s₂ sectioned₂ => sectioned₂.congr rfl

theorem seam_levelChange (old new : Nat) : Seam (levelChange old new) :=
  (seam_replicate (Tag.seam_openHalf rfl) _).append (seam_replicate (Tag.seam_closeHalf rfl) _)

theorem setListLevel_sectioned (sectioned : s.Sectioned) (level : Nat) :
    StaysSectioned (s.setListLevel level) := by
  rw [setListLevel]
  split
  · exact sectioned
  · have entered : (if s.listLevel = 0 then s.endParagraph.push .text else s).Sectioned := by
      split
      · exact sectioned.endParagraph.push (by decide)
      · exact sectioned
    generalize (if s.listLevel = 0 then s.endParagraph.push .text else s) = s₁ at entered
    have levelled : Sectioned { s₁ with listLevel := level } := entered.congr rfl
    apply Meets.bind (write_sectioned levelled (seam_levelChange s₁.listLevel level))
    intro s₂ sectioned₂
    change Sectioned (if level = 0 then s₂.openParagraph else s₂)
    split
    · exact sectioned₂.openParagraph
    · exact sectioned₂

theorem closeLists_sectioned (sectioned : s.Sectioned) : StaysSectioned s.closeLists :=
  setListLevel_sectioned sectioned 0

/-! ### Leaving a region -/

/-- The anchor of a heading ends in its region, if it ends at all. -/
theorem closeAnchor_sectioned (sound : s.Sound) (sectioned : s.Sectioned) {serial : Nat}
    (placed : s.Placed tag serial) : StaysSectioned (s.closeAnchor serial) := by
  rcases placed with ⟨newer, entry, older, split, rfl, -⟩ | ⟨-, entry, member, rfl, -, isSealed⟩
  · rw [closeAnchor_eq sound.distinct split (sound.unsealed entry (by simp [split]))]
    exact (sectioned.extend split (Tag.seam_closeHalf rfl)).congr rfl
  · rw [closeAnchor_refused sound.distinct (List.mem_append_right _ member) isSealed]
    trivial

theorem fold_sectioned (sound : s.Sound) (sectioned : s.Sectioned) {host : OpenRegion}
    (member : host ∈ s.openRegions) (shared : host.tag.traits.isExclusive = false) :
    StaysSectioned (s.fold host) := by
  obtain ⟨tag, serial⟩ := host
  rcases sound.placed member shared with ⟨nested, entry, older, split, rfl, uncaptioned⟩ | rendered
  · have inner : entry.tag.traits.element ≠ some .sect := by
      obtain ⟨e, eMember, eSerial, eTag⟩ := sound.entry_of_open member
      have same : e = entry := sound.entry_unique eMember (by simp [split]) eSerial
      rw [← same, eTag]
      exact Tag.inner_of_opener (sound.openable _ (mem_openRegions.mp member))
    cases ending : s.endsAnchor tag nested with
    | false =>
        rw [fold_into_eq sound split ending]
        exact sectioned.folded split inner
    | true =>
        -- the anchor of the heading ends before, in the host
        rw [fold_ends_eq sound split uncaptioned ending]
        have seam : Seam Tag.anchor.closeHalf := Tag.seam_closeHalf rfl
        have anchored := sectioned.extend split seam
        exact (anchored.congr rfl).folded rfl inner
  · obtain ⟨-, entry, inDetached, rfl, rfl, isSealed⟩ := rendered
    obtain ⟨halt, foldEq, -⟩ := fold_refused sound inDetached isSealed entry.tag
    rw [foldEq]
    trivial

theorem leave_none_sectioned (sectioned : s.Sectioned) : StaysSectioned (s.leave none) := by
  simp only [leave, Option.bind_none, bind, Except.bind]
  cases s.arena with
  | nil => trivial
  | cons entry older =>
      change Sectioned (if _ then s else s.push .text)
      split
      · exact sectioned
      · exact sectioned.push (by decide)

theorem leave_sectioned (sound : s.Sound) (sectioned : s.Sectioned) {serial : Nat}
    (apart : s.Apart calm serial) : StaysSectioned (s.leave (some serial)) := by
  rw [leave, Option.bind_some]
  cases hostEq : s.hostOf (some serial) with
  | none => exact leave_none_sectioned sectioned
  | some host =>
      obtain ⟨member, -⟩ := hostOf_some hostEq
      apply Meets.bind (fold_sectioned sound sectioned member (apart.shared sound hostEq))
      exact fun s₁ sectioned₁ => leave_none_sectioned sectioned₁

/-! ### The end of a tag -/

theorem endHeading_sectioned (sound : s.Sound) (sectioned : s.Sectioned) {serial : Nat}
    (placed : s.Placed tag serial) : StaysSectioned (s.endHeading serial) := by
  rw [endHeading]
  split
  · apply Meets.bind (closeAnchor_sectioned sound sectioned placed)
    exact fun s₁ sectioned₁ => sectioned₁.endParagraph.nextSection.openParagraph
  · exact sectioned.endParagraph.nextSection.openParagraph

theorem endRegion_sectioned (sound : s.Sound) (sectioned : s.Sectioned)
    (address : Nat → Scan → Outcome) {serial : Nat} (local_ : tag.traits.onClose ≠ .address)
    (placed : tag.isHeading = true → s.Placed tag serial) :
    StaysSectioned (s.endRegion address tag (some serial)) := by
  cases action : tag.traits.onClose with
  | plain =>
      simp only [endRegion, action]
      exact sectioned
  | heading =>
      simp only [endRegion, action]
      exact endHeading_sectioned sound sectioned (placed (by simp [Tag.isHeading, action]))
  | block =>
      simp only [endRegion, action]
      change Sectioned (s.endBlock (some serial))
      rw [endBlock]
      split
      · exact sectioned
      · exact sectioned.endParagraph.openParagraph
  | address => exact absurd action local_

/-- The end of a region tag that is not an address. -/
theorem closeRegion_sectioned (sound : (s.forget tag).Sound) (sectioned : s.Sectioned)
    (whole : calm → s.detached = []) (address : Nat → Scan → Outcome) {serial : Nat}
    (found : s.serialOf tag = some serial) (region : tag.traits.isRegion = true)
    (local_ : tag.traits.onClose ≠ .address)
    (placed : tag.isHeading = true → (s.forget tag).Placed tag serial)
    (apart : (s.forget tag).Apart calm serial) :
    StaysSectioned (s.closeTagWith address tag) := by
  have forgotten : (s.forget tag).Sectioned := sectioned.congr rfl
  rw [closeTagWith, found, if_pos region]
  apply Meets.bind ((endRegion_sectioned sound forgotten address local_ placed).also
    (endRegion_meets sound whole address local_ placed))
  intro s₁ met
  obtain ⟨sectioned₁, goesOn, unchanged, -⟩ := met
  exact leave_sectioned (goesOn.sound sound) sectioned₁
    (apart.congr goesOn.keeps.opened unchanged)

/-- A region that is no boundary of a section gets other attributes. -/
theorem Sectioned.describe (sectioned : s.Sectioned) {newer older : Arena} {entry : Entry}
    (split : s.arena = newer ++ entry :: older) {attributes : Attributes}
    (inner : entry.tag.traits.element ≠ some .sect)
    (known : entry.region.attributes.Known → attributes.Known) :
    Sectioned { s with
      arena := newer ++
        { entry with region := { entry.region with attributes := attributes } } :: older } :=
  sectioned.replace split rfl fun sewn =>
    ⟨sewn.inner, known sewn.attributes, fun boundary => absurd boundary inner⟩

theorem setLinkAddress_sectioned (sound : s.Sound) (sectioned : s.Sectioned) {newer older : Arena}
    {link : Entry} (split : s.arena = newer ++ link :: older) (tagged : link.tag = .link)
    (address : Text) : StaysSectioned (s.setLinkAddress link.serial address) := by
  have unsealed : link.region.isSealed = false := sound.unsealed link (by simp [split])
  have described := setAttribute_of_open unsealed
    (show "href".toList ≠ Dictionary.reservedKey by decide) (some address)
  rw [setLinkAddress, changeRegion_eq sound.distinct split _ described]
  refine sectioned.describe split ?_ fun known => known.set (some address) (by decide)
  rw [tagged]
  decide

theorem setImageAddress_sectioned (sound : s.Sound) (sectioned : s.Sectioned) {newer older : Arena}
    {image : Entry} (split : s.arena = newer ++ image :: older) (tagged : image.tag ∈ Tag.images)
    (address : Text) : StaysSectioned (s.setImageAddress image address) := by
  have inner : image.tag.traits.element ≠ some .sect := by
    have all : ∀ t ∈ Tag.images, t.traits.element ≠ some .sect := by decide
    exact all image.tag tagged
  have kept : Attributes.Known image.region.attributes →
      Attributes.Known (imageAttributes image.region address) :=
    fun known => (known.set (some address) (by decide)).set _ (by decide)
  have described := sectioned.describe split inner kept
  have content : Seam image.region.inner := by
    rw [Sectioned, regions_split split] at sectioned
    exact (sectioned.sewn image.region (by simp)).inner
  rw [setImageAddress_eq sound split]
  change Sectioned (if _ then _ else _)
  split
  · exact described.pushRegion ((Region.sewn_ofTag .caption).extend content)
      (show Tag.caption.traits.element ≠ some .sect by decide)
  · exact described

end Scan

end MarkPress
