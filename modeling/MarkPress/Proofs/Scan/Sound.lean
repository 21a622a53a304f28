/-
Module: MarkPress.Proofs.Scan.Sound
Purpose: The regions of a scan and its open tags fit together.
  Every change to the content of a scan is one of a few kinds: a region is made, the content or the
  attributes of one are changed, a tag opens or is forgotten, or the arena is cut behind a host.
  Each kind keeps the invariant, whatever the rest of the state does.
Main exports:
  Scan.Stored, Scan.Listed, Scan.Linked, Scan.Sound, Scan.Sound.congr, Scan.Sound.push,
  Scan.Sound.replace, Scan.Sound.openRegion, Scan.Sound.openInline, Scan.Sound.forget,
  Scan.Sound.folded
-/
import MarkPress.Proofs.Scan.Arena
import MarkPress.Scan.Run

namespace MarkPress

/-- Of the tags that a text can open, those with a region that is not exclusive always appear. -/
theorem Tag.isShown_of_open {tag : Tag} (openable : tag.traits.opener.isSome = true)
    (region : tag.traits.isRegion = true) (shared : tag.traits.isExclusive = false) (empty : Bool) :
    tag.isShown empty = true := by
  cases tag <;> simp_all [isShown, traits, headingTraits]

namespace Region

/-- The text of a region in the output, nothing if it does not appear there. -/
def shownText (region : Region) : Text := if region.isShown then region.render else []

theorem isCaptioned_ofTag (tag : Tag) : (ofTag tag).isCaptioned = false := by
  cases tag <;> decide

end Region

namespace Scan

/-- The regions that a scan has made and not rendered are in the arena, the newest first, under
numbers of their own. -/
structure Stored (s : Scan) : Prop where
  /-- Newer regions have larger numbers. -/
  sorted : (s.arena.map Entry.serial).Pairwise fun newer older => older < newer
  fresh : ∀ serial ∈ (s.arena ++ s.detached).map Entry.serial, serial < s.nextSerial
  distinct : ((s.arena ++ s.detached).map Entry.serial).Nodup
  /-- What has been rendered is not in the arena any more. -/
  unsealed : ∀ e ∈ s.arena, e.region.isSealed = false
  rooted : (s.arena.map Entry.tag).getLast? = some .sectionBegin

/-- The open tags are different tags that can open, and the region tags among them have regions of
their own. -/
structure Listed (s : Scan) : Prop where
  once : (s.opened.map OpenTag.tag).Nodup
  openable : ∀ o ∈ s.opened, o.tag.traits.opener.isSome = true
  regions : ∀ o ∈ s.opened, o.region.isSome = o.tag.traits.isRegion
  /-- Tags opened later have larger numbers. -/
  descending : (s.openRegions.map OpenRegion.serial).Pairwise fun later earlier => earlier < later

/-- Every open region is in the arena or detached from it, under its tag. -/
structure Linked (s : Scan) : Prop where
  tracked : ∀ o ∈ s.openRegions, (o.serial, o.tag) ∈ (s.arena ++ s.detached).map Entry.label
  /-- An open region that is not in the arena has been rendered, unless its tag is exclusive. -/
  away : ∀ o ∈ s.openRegions, ∀ e ∈ s.detached, e.serial = o.serial →
    o.tag.traits.isExclusive = true ∨ e.region.isSealed = true
  uncaptioned : ∀ o ∈ s.openRegions, ∀ e ∈ s.arena, e.serial = o.serial →
    e.region.isCaptioned = false

/-- The regions of a scan and its open tags fit together. -/
structure Sound (s : Scan) : Prop extends Stored s, Listed s, Linked s

/-- An entry after its region has been rendered, if it appears in the output. -/
def Entry.settled (entry : Entry) : Entry :=
  if entry.region.isShown then { entry with region := entry.region.markSealed } else entry

theorem Entry.settled_label (entry : Entry) : entry.settled.label = entry.label := by
  rw [settled]
  split <;> rfl

theorem Entry.settled_serial (entry : Entry) : entry.settled.serial = entry.serial :=
  congrArg Prod.fst entry.settled_label

theorem Entry.map_settled_serial (entries : List Entry) :
    (entries.map Entry.settled).map Entry.serial = entries.map Entry.serial := by
  simp [Entry.settled_serial]

/-- A scan whose arena has been cut behind a host, with what was cut off rendered into it. -/
def folded (nested : Arena) (host : Entry) (older : Arena) (s : Scan) : Scan :=
  { s with
    arena :=
      { host with
        region := host.region.extend (nested.reverse.flatMap fun e => e.region.shownText) } :: older
    detached := (nested.filter fun e => s.isOpen e.serial).map Entry.settled ++ s.detached
    lost := nested.map (fun e => e.region.leftOut) ++ s.lost }

/-! ### Open regions -/

theorem mem_openRegions {s : Scan} {o : OpenRegion} :
    o ∈ s.openRegions ↔ ⟨o.tag, some o.serial⟩ ∈ s.opened := by
  simp only [openRegions, List.mem_filterMap, Option.map_eq_some_iff]
  constructor
  · rintro ⟨⟨tag, region⟩, member, serial, rfl, rfl⟩
    exact member
  · intro member
    exact ⟨_, member, o.serial, rfl, rfl⟩

theorem isOpen_iff {s : Scan} {serial : Nat} :
    s.isOpen serial = true ↔ ∃ o ∈ s.openRegions, o.serial = serial := by
  simp only [isOpen, List.any_eq_true, beq_iff_eq]
  constructor
  · rintro ⟨⟨tag, region⟩, member, rfl⟩
    exact ⟨⟨tag, serial⟩, mem_openRegions.mpr member, rfl⟩
  · rintro ⟨o, member, rfl⟩
    exact ⟨_, mem_openRegions.mp member, rfl⟩

theorem isActive_iff {s : Scan} {tag : Tag} :
    s.isActive tag = true ↔ ∃ o ∈ s.opened, o.tag = tag := by
  simp [isActive]

theorem openRegions_congr {s s' : Scan} (h : s'.opened = s.opened) :
    s'.openRegions = s.openRegions := by
  rw [openRegions, openRegions, h]

theorem mem_forget {s : Scan} {tag : Tag} {o : OpenTag} :
    o ∈ (s.forget tag).opened ↔ o ∈ s.opened ∧ o.tag ≠ tag := by
  simp [forget]

theorem forget_opened_sublist (s : Scan) (tag : Tag) :
    (s.forget tag).opened.Sublist s.opened :=
  List.filter_sublist

theorem forget_openRegions_sublist (s : Scan) (tag : Tag) :
    (s.forget tag).openRegions.Sublist s.openRegions :=
  (s.forget_opened_sublist tag).filterMap _

/-- What an invariant of the regions and the open tags can speak of. -/
def content (s : Scan) :=
  (s.arena, s.detached, s.nextSerial, s.opened, s.paragraphOpen, s.written, s.lost, s.surplusEnds,
    s.finished)

variable {s s' : Scan}

theorem Listed.congr (listed : s.Listed) (opened : s'.opened = s.opened) : s'.Listed where
  once := by rw [opened]; exact listed.once
  openable := by rw [opened]; exact listed.openable
  regions := by rw [opened]; exact listed.regions
  descending := by rw [openRegions_congr opened]; exact listed.descending

/-- A tag that is not open opens, with a region that is newer than the other open ones. -/
theorem Listed.opens (listed : s.Listed) {tag : Tag} {region : Option Nat}
    (closed : s.isActive tag = false) (openable : tag.traits.opener.isSome = true)
    (isRegion : region.isSome = tag.traits.isRegion)
    (newest : ∀ serial ∈ region, ∀ o ∈ s.openRegions, o.serial < serial)
    (opened : s'.opened = ⟨tag, region⟩ :: s.opened) : s'.Listed where
  once := by
    rw [opened, List.map_cons, List.nodup_cons]
    refine ⟨fun member => ?_, listed.once⟩
    obtain ⟨o, isOpened, same⟩ := List.mem_map.mp member
    have active : s.isActive tag = true := isActive_iff.mpr ⟨o, isOpened, same⟩
    rw [closed] at active
    cases active
  openable := by
    rw [opened]
    exact List.forall_mem_cons.mpr ⟨openable, listed.openable⟩
  regions := by
    rw [opened]
    exact List.forall_mem_cons.mpr ⟨isRegion, listed.regions⟩
  descending := by
    rw [openRegions, opened]
    cases region with
    | none => exact listed.descending
    | some serial =>
        simp only [List.filterMap_cons, Option.map_some, List.map_cons, List.pairwise_cons]
        refine ⟨fun other member => ?_, listed.descending⟩
        obtain ⟨o, isOpened, rfl⟩ := List.mem_map.mp member
        exact newest serial rfl o isOpened

/-- Of two open regions the one whose tag opened first has the smaller number. -/
theorem Listed.older_lt (listed : s.Listed) {newer older : List OpenTag} {tag : Tag} {serial : Nat}
    (split : s.opened = newer ++ ⟨tag, some serial⟩ :: older) {o : OpenRegion}
    (member : ⟨o.tag, some o.serial⟩ ∈ older) : o.serial < serial := by
  have descending := listed.descending
  rw [openRegions, split, List.filterMap_append, List.filterMap_cons, List.map_append,
    List.pairwise_append] at descending
  apply (List.pairwise_cons.mp descending.2.1).1
  exact List.mem_map.mpr ⟨o, List.mem_filterMap.mpr ⟨_, member, rfl⟩, rfl⟩

theorem Listed.forget (listed : s.Listed) (tag : Tag) : (s.forget tag).Listed where
  once := listed.once.sublist ((s.forget_opened_sublist tag).map _)
  openable := fun o member => listed.openable o ((s.forget_opened_sublist tag).subset member)
  regions := fun o member => listed.regions o ((s.forget_opened_sublist tag).subset member)
  descending := listed.descending.sublist ((s.forget_openRegions_sublist tag).map _)

namespace Sound

theorem congr (sound : s.Sound) (same : s'.content = s.content) : s'.Sound := by
  simp only [content, Prod.mk.injEq] at same
  obtain ⟨arena, detached, nextSerial, opened, -⟩ := same
  have openRegions := openRegions_congr opened
  exact {
    sorted := by rw [arena]; exact sound.sorted
    fresh := by rw [arena, detached, nextSerial]; exact sound.fresh
    distinct := by rw [arena, detached]; exact sound.distinct
    unsealed := by rw [arena]; exact sound.unsealed
    rooted := by rw [arena]; exact sound.rooted
    once := by rw [opened]; exact sound.once
    openable := by rw [opened]; exact sound.openable
    regions := by rw [opened]; exact sound.regions
    descending := by rw [openRegions]; exact sound.descending
    tracked := by rw [openRegions, arena, detached]; exact sound.tracked
    away := by rw [openRegions, detached]; exact sound.away
    uncaptioned := by rw [openRegions, arena]; exact sound.uncaptioned }

theorem arena_distinct (sound : s.Sound) : (s.arena.map Entry.serial).Nodup := by
  have := sound.distinct
  rw [List.map_append, List.nodup_append] at this
  exact this.1

theorem arena_ne_nil (sound : s.Sound) : s.arena ≠ [] := by
  intro empty
  have := sound.rooted
  simp [empty] at this

/-- An open region is in the arena or detached from it, under its tag. -/
theorem entry_of_open (sound : s.Sound) {o : OpenRegion} (member : o ∈ s.openRegions) :
    ∃ e ∈ s.arena ++ s.detached, e.serial = o.serial ∧ e.tag = o.tag := by
  obtain ⟨e, entryMember, label⟩ := List.mem_map.mp (sound.tracked o member)
  simp only [Entry.label, Prod.mk.injEq] at label
  exact ⟨e, entryMember, label.1, label.2⟩

theorem open_lt_next (sound : s.Sound) {o : OpenRegion} (member : o ∈ s.openRegions) :
    o.serial < s.nextSerial := by
  obtain ⟨e, entryMember, serial, -⟩ := sound.entry_of_open member
  rw [← serial]
  exact sound.fresh _ (List.mem_map_of_mem entryMember)

theorem isRegion_of_open (sound : s.Sound) {o : OpenRegion} (member : o ∈ s.openRegions) :
    o.tag.traits.isRegion = true :=
  (sound.regions _ (mem_openRegions.mp member)).symm

/-- Two entries with one number are the same. -/
theorem entry_unique (sound : s.Sound) {a b : Entry} (ha : a ∈ s.arena ++ s.detached)
    (hb : b ∈ s.arena ++ s.detached) (same : a.serial = b.serial) : a = b := by
  have readA := Arena.get?_of_mem sound.distinct ha
  have readB := Arena.get?_of_mem sound.distinct hb
  rw [same, readB] at readA
  cases a
  cases b
  simp_all

/-! ### A new region -/

theorem push (sound : s.Sound) {region : Region} (unsealed : region.isSealed = false) :
    (s.pushRegion region).Sound := by
  have newSerial : s.nextSerial ∉ (s.arena ++ s.detached).map Entry.serial :=
    fun member => Nat.lt_irrefl _ (sound.fresh _ member)
  have olderSerial : ∀ serial ∈ s.arena.map Entry.serial, serial < s.nextSerial := by
    intro serial member
    exact sound.fresh serial (by simp_all)
  exact {
    sorted := by simpa [pushRegion] using ⟨by simpa using olderSerial, sound.sorted⟩
    fresh := by
      intro serial member
      simp only [pushRegion, List.cons_append, List.map_cons, List.mem_cons] at member ⊢
      rcases member with rfl | old
      · exact Nat.lt_succ_self _
      · exact Nat.lt_succ_of_lt (sound.fresh serial old)
    distinct := by
      simp only [pushRegion, List.cons_append, List.map_cons, List.nodup_cons]
      exact ⟨newSerial, sound.distinct⟩
    unsealed := by
      intro e member
      rcases List.mem_cons.mp member with rfl | old
      · exact unsealed
      · exact sound.unsealed e old
    rooted := by
      simp only [pushRegion, List.map_cons, List.getLast?_cons, sound.rooted, Option.getD_some]
    toListed := sound.toListed.congr rfl
    tracked := by
      intro o member
      exact List.mem_cons_of_mem _ (sound.tracked o member)
    away := sound.away
    uncaptioned := by
      intro o member e entryMember serial
      rcases List.mem_cons.mp entryMember with rfl | old
      · exact absurd (sound.open_lt_next member) (by simp_all)
      · exact sound.uncaptioned o member e old serial }

/-! ### A change to one region -/

/-- The content or the attributes of one region of the arena change. -/
theorem replace (sound : s.Sound) {newer older : Arena} {entry : Entry} {region : Region}
    (split : s.arena = newer ++ entry :: older) (tag : region.tag = entry.region.tag)
    (unsealed : region.isSealed = false)
    (uncaptioned : s.isOpen entry.serial = true → region.isCaptioned = false) :
    Sound { s with arena := newer ++ { entry with region := region } :: older } := by
  have labels : (newer ++ { entry with region := region } :: older).map Entry.label
      = s.arena.map Entry.label := by
    rw [split]
    simp [Entry.label, Entry.tag, tag]
  have serials : (newer ++ { entry with region := region } :: older).map Entry.serial
      = s.arena.map Entry.serial := by
    rw [split]
    simp
  have tags : (newer ++ { entry with region := region } :: older).map Entry.tag
      = s.arena.map Entry.tag := by
    rw [split]
    simp [Entry.tag, tag]
  have members : ∀ e ∈ newer ++ { entry with region := region } :: older,
      e ∈ s.arena ∨ e = { entry with region := region } := by
    intro e member
    rw [split]
    simp only [List.mem_append, List.mem_cons] at member ⊢
    rcases member with before | here | behind
    · exact .inl (.inl before)
    · exact .inr here
    · exact .inl (.inr (.inr behind))
  exact {
    sorted := by rw [serials]; exact sound.sorted
    fresh := by
      rw [List.map_append, serials, ← List.map_append]
      exact sound.fresh
    distinct := by
      rw [List.map_append, serials, ← List.map_append]
      exact sound.distinct
    unsealed := by
      intro e member
      rcases members e member with old | rfl
      · exact sound.unsealed e old
      · exact unsealed
    rooted := by rw [tags]; exact sound.rooted
    toListed := sound.toListed.congr rfl
    tracked := by
      rw [List.map_append, labels, ← List.map_append]
      exact sound.tracked
    away := sound.away
    uncaptioned := by
      intro o member e entryMember serial
      rcases members e entryMember with old | rfl
      · exact sound.uncaptioned o member e old serial
      · exact uncaptioned (isOpen_iff.mpr ⟨o, member, serial.symm⟩) }

/-! ### Tags that open and end -/

theorem openRegion (sound : s.Sound) {tag : Tag} (closed : s.isActive tag = false)
    (openable : tag.traits.opener.isSome = true) (region : tag.traits.isRegion = true) :
    Sound { s.push tag with opened := ⟨tag, some s.nextSerial⟩ :: s.opened } := by
  have pushed : (s.push tag).Sound := sound.push (Region.ofTag_isSealed tag)
  have newSerial : ∀ e ∈ s.arena ++ s.detached, e.serial ≠ s.nextSerial := by
    intro e member
    exact Nat.ne_of_lt (sound.fresh _ (List.mem_map_of_mem member))
  have listed : Listed { s.push tag with opened := ⟨tag, some s.nextSerial⟩ :: s.opened } := by
    refine sound.toListed.opens closed openable ?_ ?_ rfl
    · exact region.symm
    · intro serial same o member
      cases same
      exact sound.open_lt_next member
  have members : ∀ o ∈ Scan.openRegions
      { s.push tag with opened := ⟨tag, some s.nextSerial⟩ :: s.opened },
      (o.serial = s.nextSerial ∧ o.tag = tag) ∨ o ∈ (s.push tag).openRegions := by
    intro o member
    rcases List.mem_cons.mp (mem_openRegions.mp member) with new | old
    · simp only [OpenTag.mk.injEq, Option.some.injEq] at new
      exact .inl ⟨new.2, new.1⟩
    · exact .inr (mem_openRegions.mpr old)
  exact {
    toStored := { pushed.toStored with }
    toListed := listed
    tracked := by
      intro o member
      rcases members o member with ⟨serial, rfl⟩ | old
      · rw [serial]
        exact List.mem_cons_self
      · exact pushed.tracked o old
    away := by
      intro o member e entryMember same
      rcases members o member with ⟨serial, -⟩ | old
      · exact absurd (same.trans serial) (newSerial e (List.mem_append_right _ entryMember))
      · exact sound.away o old e entryMember same
    uncaptioned := by
      intro o member e entryMember same
      rcases members o member with ⟨serial, -⟩ | old
      · rcases List.mem_cons.mp entryMember with rfl | oldEntry
        · exact Region.isCaptioned_ofTag tag
        · exact absurd (same.trans serial) (newSerial e (List.mem_append_left _ oldEntry))
      · exact pushed.uncaptioned o old e entryMember same }

theorem openInline (sound : s.Sound) {tag : Tag} (closed : s.isActive tag = false)
    (openable : tag.traits.opener.isSome = true) (inline : tag.traits.isRegion = false) :
    Sound { s with opened := ⟨tag, none⟩ :: s.opened } := by
  have listed : Listed { s with opened := ⟨tag, none⟩ :: s.opened } := by
    refine sound.toListed.opens closed openable ?_ ?_ rfl
    · exact inline.symm
    · intro serial none
      cases none
  exact {
    toStored := { sound.toStored with }
    toListed := listed
    toLinked := { sound.toLinked with } }

theorem forget (sound : s.Sound) (tag : Tag) : (s.forget tag).Sound := by
  have fewer := (s.forget_openRegions_sublist tag).subset
  exact {
    toStored := { sound.toStored with }
    toListed := sound.toListed.forget tag
    tracked := fun o member => sound.tracked o (fewer member)
    away := fun o member => sound.away o (fewer member)
    uncaptioned := fun o member => sound.uncaptioned o (fewer member) }

/-! ### Folding -/

/-- The numbers stay distinct when a part of the arena is cut off and some of it is detached. -/
theorem distinct_cut (sound : s.Sound) {nested kept : Arena} (split : s.arena = nested ++ kept)
    (chosen : Entry → Bool) :
    ((kept ++ (nested.filter chosen ++ s.detached)).map Entry.serial).Nodup := by
  have whole := sound.distinct
  rw [split, List.append_assoc, List.map_append, List.map_append] at whole
  rw [List.map_append, List.map_append, (List.perm_append_comm_assoc _ _ _).nodup_iff]
  exact whole.sublist ((List.filter_sublist.map _).append_right _)

theorem stored_folded (sound : s.Sound) {nested older : Arena} {host : Entry}
    (split : s.arena = nested ++ host :: older) : (s.folded nested host older).Stored := by
  have keptSerials : (s.folded nested host older).arena.map Entry.serial
      = (host :: older).map Entry.serial := rfl
  have keptTags : (s.folded nested host older).arena.map Entry.tag
      = (host :: older).map Entry.tag := rfl
  exact {
    sorted := by
      have sorted := sound.sorted
      rw [split, List.map_append, List.pairwise_append] at sorted
      rw [keptSerials]
      exact sorted.2.1
    fresh := by
      intro serial member
      apply sound.fresh serial
      simp only [List.map_append, List.mem_append, Scan.folded, Entry.map_settled_serial] at member
      simp only [split, List.map_append, List.mem_append]
      rcases member with inArena | wasNested | wasDetached
      · exact .inl (.inr inArena)
      · exact .inl (.inl ((List.filter_sublist.map _).subset wasNested))
      · exact .inr wasDetached
    distinct := by
      have cut := sound.distinct_cut split fun e => s.isOpen e.serial
      rw [List.map_append, List.map_append] at cut
      rw [List.map_append, keptSerials, Scan.folded, List.map_append, Entry.map_settled_serial]
      exact cut
    unsealed := by
      intro e member
      rcases List.mem_cons.mp member with rfl | old
      · exact sound.unsealed host (by simp [split])
      · exact sound.unsealed e (by simp [split, old])
    rooted := by
      have rooted := sound.rooted
      rw [split, List.map_append, List.getLast?_append] at rooted
      rw [keptTags]
      simpa only [List.map_cons, List.getLast?_cons, Option.some_or] using rooted }

/-- An open region that is cut off is detached. -/
theorem tracked_folded (sound : s.Sound) {nested older : Arena} {host : Entry}
    (split : s.arena = nested ++ host :: older) {o : OpenRegion} (member : o ∈ s.openRegions) :
    (o.serial, o.tag) ∈ ((s.folded nested host older).arena
      ++ (s.folded nested host older).detached).map Entry.label := by
  have kept : (s.folded nested host older).arena.map Entry.label
      = (host :: older).map Entry.label := rfl
  have labelled := sound.tracked o member
  simp only [split, List.map_append, List.mem_append] at labelled
  rw [List.map_append, List.mem_append, kept, Scan.folded, List.map_append, List.mem_append]
  rcases labelled with (wasNested | inArena) | wasDetached
  · obtain ⟨e, entryMember, label⟩ := List.mem_map.mp wasNested
    have serial : e.serial = o.serial := congrArg Prod.fst label
    have isOpen : s.isOpen e.serial = true := isOpen_iff.mpr ⟨o, member, serial.symm⟩
    have found : e ∈ nested.filter fun e => s.isOpen e.serial :=
      List.mem_filter.mpr ⟨entryMember, isOpen⟩
    rw [← label, ← e.settled_label]
    exact .inr (.inl (List.mem_map_of_mem (List.mem_map_of_mem found)))
  · exact .inl inArena
  · exact .inr (.inr wasDetached)

/-- Rendering seals the region of an open tag that is not exclusive, because it is shown. -/
theorem sealed_settled (sound : s.Sound) {o : OpenRegion} (member : o ∈ s.openRegions)
    {entry : Entry} (entryMember : entry ∈ s.arena) (serial : entry.serial = o.serial)
    (shared : o.tag.traits.isExclusive = false) : entry.settled.region.isSealed = true := by
  have isOpened := mem_openRegions.mp member
  obtain ⟨same, sameMember, sameSerial, sameTag⟩ := sound.entry_of_open member
  have tag : entry.region.tag = o.tag := by
    rw [sound.entry_unique (List.mem_append_left _ entryMember) sameMember
      (serial.trans sameSerial.symm)]
    exact sameTag
  have shown : entry.region.isShown = true := by
    rw [Region.isShown, tag]
    exact Tag.isShown_of_open (sound.openable _ isOpened) (sound.isRegion_of_open member) shared _
  rw [Entry.settled, if_pos shown]
  rfl

theorem folded (sound : s.Sound) {nested older : Arena} {host : Entry}
    (split : s.arena = nested ++ host :: older) (uncaptioned : host.region.isCaptioned = false) :
    (s.folded nested host older).Sound where
  toStored := sound.stored_folded split
  toListed := sound.toListed.congr rfl
  tracked := fun _ member => sound.tracked_folded split member
  away := by
    intro o member e entryMember serial
    rcases List.mem_append.mp entryMember with wasNested | wasDetached
    · obtain ⟨old, found, rfl⟩ := List.mem_map.mp wasNested
      have oldMember : old ∈ s.arena := by
        simp [split, (List.mem_filter.mp found).1]
      rw [Entry.settled_serial] at serial
      cases shared : o.tag.traits.isExclusive with
      | true => exact .inl rfl
      | false => exact .inr (sound.sealed_settled member oldMember serial shared)
    · exact sound.away o member e wasDetached serial
  uncaptioned := by
    intro o member e entryMember serial
    rcases List.mem_cons.mp entryMember with rfl | old
    · exact uncaptioned
    · exact sound.uncaptioned o member e (by simp [split, old]) serial

end Sound

end Scan

end MarkPress
