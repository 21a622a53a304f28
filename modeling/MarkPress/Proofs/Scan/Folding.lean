/-
Module: MarkPress.Proofs.Scan.Folding
Purpose: Writing into a region that is not the newest one, and folding regions into a host.
  An open region is in the arena and takes text, or a fold has detached it. If it is detached and
  not exclusive it has been rendered, so writing into it is refused. Folding into a host in the
  arena is one edit, after at most one half that ends an anchor; folding into a detached host is
  refused, because the region at the root of the arena always appears in the output.
Main exports:
  Tag.hosts, Scan.Refused, Scan.Placed, Scan.Sound.placed, changeRegion_eq, closeAnchor_meets,
  Scan.endsAnchor, fold_into_eq, fold_ends_eq, fold_meets
-/
import Mathlib.Data.List.Nodup
import MarkPress.Proofs.Scan.Writing

namespace MarkPress

/-- The tags of the regions that others are rendered into while they are open. -/
def Tag.hosts : List Tag :=
  [.heading1, .heading2, .heading3, .link, .embed, .embedSmall, .embedPixel]

theorem Tag.mem_hosts {tag : Tag} (openable : tag.traits.opener.isSome = true)
    (region : tag.traits.isRegion = true) (shared : tag.traits.isExclusive = false) :
    tag ∈ Tag.hosts := by
  cases tag <;> simp_all [hosts, traits, headingTraits]

namespace Scan

open Html

/-- An error about a host that has been rendered. A calm scan does not stop on it. -/
def Refused (calm : Prop) (error : RegionError) : Prop :=
  ¬ calm ∧ ∃ tag ∈ Tag.hosts, error = .sealed tag

/-- A region takes text, or it has been rendered. -/
def Placed (tag : Tag) (serial : Nat) (s : Scan) : Prop :=
  (∃ newer entry older, s.arena = newer ++ entry :: older ∧ entry.serial = serial ∧
    entry.region.isCaptioned = false)
  ∨ (tag ∈ Tag.hosts ∧
    ∃ entry ∈ s.detached, entry.serial = serial ∧ entry.tag = tag ∧ entry.region.isSealed = true)

variable {s s' : Scan} {calm : Prop}

theorem Sound.placed (sound : s.Sound) {o : OpenRegion} (member : o ∈ s.openRegions)
    (shared : o.tag.traits.isExclusive = false) : s.Placed o.tag o.serial := by
  obtain ⟨e, entryMember, serial, tag⟩ := sound.entry_of_open member
  have isOpened := mem_openRegions.mp member
  rcases List.mem_append.mp entryMember with inArena | inDetached
  · obtain ⟨newer, older, split⟩ := List.append_of_mem inArena
    exact .inl ⟨newer, e, older, split, serial, sound.uncaptioned o member e inArena serial⟩
  · have hosting : o.tag ∈ Tag.hosts :=
      Tag.mem_hosts (sound.openable _ isOpened) (sound.isRegion_of_open member) shared
    refine .inr ⟨hosting, e, inDetached, serial, tag, ?_⟩
    rcases sound.away o member e inDetached serial with exclusive | isSealed
    · simp [shared] at exclusive
    · exact isSealed

/-! ### One region -/

theorem regionOf_of_mem (distinct : ((s.arena ++ s.detached).map Entry.serial).Nodup)
    {entry : Entry} (member : entry ∈ s.arena ++ s.detached) :
    s.regionOf entry.serial = some entry.region := by
  rw [regionOf, ← Arena.get?_append]
  exact Arena.get?_of_mem distinct member

/-- A change to a region of the arena leaves everything else as it is. -/
theorem changeRegion_eq (distinct : ((s.arena ++ s.detached).map Entry.serial).Nodup)
    {newer older : Arena} {entry : Entry} (split : s.arena = newer ++ entry :: older)
    (f : Region → Except RegionError Region) {region : Region}
    (changed : f entry.region = .ok region) :
    s.changeRegion entry.serial f
      = .ok { s with arena := newer ++ { entry with region := region } :: older } := by
  have found : s.regionOf entry.serial = some entry.region :=
    regionOf_of_mem distinct (by simp [split])
  have parts := distinct
  rw [List.map_append, List.nodup_append] at parts
  have apart : entry.serial ∉ s.detached.map Entry.serial := by
    intro member
    exact parts.2.2 entry.serial (by simp [split]) entry.serial member rfl
  rw [changeRegion, found]
  simp only [changed]
  rw [Arena.update_split split parts.1, Arena.update_of_absent apart]

/-- A region that has been rendered refuses text. -/
theorem changeRegion_refused (distinct : ((s.arena ++ s.detached).map Entry.serial).Nodup)
    {entry : Entry} (member : entry ∈ s.arena ++ s.detached)
    (isSealed : entry.region.isSealed = true) (text : Text) :
    s.changeRegion entry.serial (fun region => region.append text)
      = .error ⟨.sealed entry.tag, s⟩ := by
  have refused : entry.region.append text = .error (.sealed entry.tag) :=
    Region.append_eq_error_iff.mpr ⟨isSealed, rfl⟩
  rw [changeRegion, regionOf_of_mem distinct member]
  simp only [refused]

theorem closeAnchor_eq (distinct : ((s.arena ++ s.detached).map Entry.serial).Nodup)
    {newer older : Arena} {entry : Entry} (split : s.arena = newer ++ entry :: older)
    (unsealed : entry.region.isSealed = false) :
    s.closeAnchor entry.serial = .ok { s with
      arena := newer ++ { entry with region := entry.region.extend Tag.anchor.closeHalf } :: older
      written := Tag.anchor.closeHalf :: s.written
      headingAnchorOpen := false } := by
  have appended : entry.region.append Tag.anchor.closeHalf
      = .ok (entry.region.extend Tag.anchor.closeHalf) := Region.change_of_open unsealed _
  rw [closeAnchor, writeTo, changeRegion_eq distinct split _ appended]
  rfl

theorem closeAnchor_refused (distinct : ((s.arena ++ s.detached).map Entry.serial).Nodup)
    {entry : Entry} (member : entry ∈ s.arena ++ s.detached)
    (isSealed : entry.region.isSealed = true) :
    s.closeAnchor entry.serial = .error ⟨.sealed entry.tag, s⟩ := by
  rw [closeAnchor, writeTo, changeRegion_refused distinct member isSealed]
  rfl

/-- Text is written into a region of the arena, and the anchor of a heading ends with it. -/
theorem Edits.closeAnchor {newer older : Arena} {entry : Entry}
    (split : s.arena = newer ++ entry :: older) (uncaptioned : entry.region.isCaptioned = false) :
    Edits s { s with
      arena := newer ++ { entry with region := entry.region.extend Tag.anchor.closeHalf } :: older
      written := Tag.anchor.closeHalf :: s.written
      headingAnchorOpen := false } :=
  .trans (.single (.write s split uncaptioned (Tag.inline_closeHalf rfl)))
    (.single (.control rfl))

/-- The half that ends an anchor pays for the anchor that was open. -/
theorem keeps_closeAnchor {arena detached : Arena} {lost : List Text}
    (anchorOpen : s.headingAnchorOpen = true) :
    Keeps s { s with
      arena := arena
      detached := detached
      lost := lost
      written := Tag.anchor.closeHalf :: s.written
      headingAnchorOpen := false } := by
  refine ⟨rfl, rfl, rfl, rfl, rfl, rfl, fun _ => anchorOpen, fun element => ?_⟩
  have half := Tag.anchor.balance_closeHalf element
  have linked : (Tag.anchor.traits.element = some element) ↔ element = .a := by
    simp [Tag.traits, eq_comm]
  simp only [linked] at half
  simp only [debt, due, List.map_cons, List.sum_cons, half, anchorOpen, and_true,
    Bool.false_eq_true, and_false, if_false]
  split <;> omega

/-- The anchor of a heading ends in the region of the heading, which refuses if it has been
rendered. -/
theorem closeAnchor_meets (sound : s.Sound) (attached : calm → s.detached = []) {tag : Tag}
    {serial : Nat} (placed : s.Placed tag serial) (anchorOpen : s.headingAnchorOpen = true) :
    Meets (Refused calm) (fun s' => s.Extends s' ∧ s'.detached = s.detached
      ∧ s'.headingAnchorOpen = false) (s.closeAnchor serial) := by
  rcases placed with ⟨newer, entry, older, split, rfl, uncaptioned⟩ | rendered
  · rw [closeAnchor_eq sound.distinct split (sound.unsealed entry (by simp [split]))]
    exact ⟨⟨.closeAnchor split uncaptioned, keeps_closeAnchor anchorOpen⟩, rfl, rfl⟩
  · obtain ⟨hosting, entry, member, rfl, rfl, isSealed⟩ := rendered
    rw [closeAnchor_refused sound.distinct (List.mem_append_right _ member) isSealed]
    refine ⟨fun isCalm => ?_, entry.tag, hosting, rfl⟩
    simp [attached isCalm] at member

/-! ### Rendering into a host -/

/-- The entries of an arena after those that others have been rendered are sealed, if they appear in
the output. -/
def Arena.sealShown (arena : Arena) (rendered : List Entry) : Arena :=
  arena.map fun e =>
    if rendered.any fun r => r.serial == e.serial && r.region.isShown then
      { e with region := e.region.markSealed }
    else e

theorem Arena.sealShown_nil (arena : Arena) : arena.sealShown [] = arena := by
  simp [sealShown]

theorem Arena.sealShown_cons (arena : Arena) (first : Entry) (rest : List Entry) :
    arena.sealShown (first :: rest)
      = (if first.region.isShown then arena.update first.serial Region.markSealed
        else arena).sealShown rest := by
  rw [sealShown, sealShown]
  split
  · rename_i shown
    rw [update, List.map_map]
    apply List.map_congr_left
    intro e _
    by_cases same : e.serial = first.serial
    · simp [shown, same, Region.markSealed]
    · simp [same, Ne.symm same]
  · rename_i hidden
    simp [hidden]

theorem Arena.update_serials (arena : Arena) (serial : Nat) (f : Region → Region) :
    (arena.update serial f).map Entry.serial = arena.map Entry.serial := by
  rw [update, List.map_map]
  apply List.map_congr_left
  intro e _
  simp only [Function.comp_apply]
  split <;> rfl

/-- What is rendered into a host stands in it in order, and what was open among it is sealed. -/
theorem renderInto_eq {rendered : List Entry} {host : Entry} {older : Arena}
    (split : s.arena = host :: older)
    (distinct : ((s.arena ++ s.detached).map Entry.serial).Nodup)
    (unsealed : host.region.isSealed = false) :
    s.renderInto host.serial rendered = .ok { s with
      arena :=
        { host with
          region := host.region.extend (rendered.flatMap fun e => e.region.shownText) } :: older
      detached := s.detached.sealShown rendered } := by
  induction rendered generalizing s host with
  | nil =>
      simp [renderInto, Region.extend, Arena.sealShown_nil, ← split]
  | cons first rest ih =>
      rw [renderInto, Arena.sealShown_cons]
      cases shown : first.region.isShown with
      | false =>
          simp only [Bool.false_eq_true, if_false]
          rw [ih split distinct unsealed]
          simp [Region.shownText, shown]
      | true =>
          have serials : (s.detached.update first.serial Region.markSealed).map Entry.serial
              = s.detached.map Entry.serial := Arena.update_serials _ _ _
          have appended : host.region.append first.region.render
              = .ok (host.region.extend first.region.render) := Region.change_of_open unsealed _
          have distinct₁ : ((({ s with
              detached := s.detached.update first.serial Region.markSealed } : Scan).arena
                ++ s.detached.update first.serial Region.markSealed).map Entry.serial).Nodup := by
            rw [List.map_append, serials, ← List.map_append]
            exact distinct
          have parted : s.arena = [] ++ host :: older := split
          have changed := changeRegion_eq distinct₁ parted
            (fun region => region.append first.region.render) appended
          simp only [if_true]
          rw [changed]
          have later := ih (s := { s with
              detached := s.detached.update first.serial Region.markSealed
              arena := { host with region := host.region.extend first.region.render } :: older })
            rfl (by
              simp only [List.map_append, List.map_cons, serials]
              rw [split] at distinct
              simpa using distinct) unsealed
          refine later.trans ?_
          simp [Region.shownText, shown, Region.extend, List.append_assoc]

theorem Arena.sealShown_of_mem {arena : Arena} {rendered : List Entry}
    (distinct : (rendered.map Entry.serial).Nodup) (among : ∀ e ∈ arena, e ∈ rendered) :
    arena.sealShown rendered = arena.map Entry.settled := by
  apply List.map_congr_left
  intro e member
  have only : (rendered.any fun r => r.serial == e.serial && r.region.isShown)
      = e.region.isShown := by
    apply Bool.eq_iff_iff.mpr
    simp only [List.any_eq_true, Bool.and_eq_true, beq_iff_eq]
    constructor
    · intro found
      obtain ⟨r, rMember, serial, shown⟩ := found
      rw [← List.inj_on_of_nodup_map distinct rMember (among e member) serial]
      exact shown
    · intro shown
      exact ⟨e, among e member, rfl, shown⟩
  rw [only, Entry.settled]

theorem Arena.sealShown_of_absent {arena : Arena} {rendered : List Entry}
    (absent : ∀ e ∈ arena, e.serial ∉ rendered.map Entry.serial) :
    arena.sealShown rendered = arena := by
  have same : arena.sealShown rendered = arena.map id := by
    apply List.map_congr_left
    intro e member
    have none : (rendered.any fun r => r.serial == e.serial && r.region.isShown) = false := by
      rw [List.any_eq_false]
      intro r rMember
      have differs : r.serial ≠ e.serial :=
        fun same => absent e member (same ▸ List.mem_map_of_mem rMember)
      simp [differs]
    simp [none]
  rw [same, List.map_id]

/-! ### Folding -/

/-- Rendering what has been cut off into a host in the arena gives the folded scan. -/
theorem renderInto_cut (sound : s.Sound) {nested older : Arena} {host : Entry}
    (split : s.arena = nested ++ host :: older) :
    renderInto host.serial nested.reverse { s with
      arena := host :: older
      detached := nested.filter (fun e => s.isOpen e.serial) ++ s.detached
      lost := nested.map (fun e => e.region.leftOut) ++ s.lost }
      = .ok (s.folded nested host older) := by
  have unsealed : host.region.isSealed = false := sound.unsealed host (by simp [split])
  have whole := sound.distinct
  rw [split, List.append_assoc, List.map_append, List.map_append] at whole
  have reversed : (nested.reverse.map Entry.serial).Nodup := by
    rw [List.map_reverse, List.nodup_reverse]
    exact (List.nodup_append.mp whole).1
  have distinct := sound.distinct_cut split fun e => s.isOpen e.serial
  have apart : ∀ e ∈ s.detached, e.serial ∉ nested.reverse.map Entry.serial := by
    intro e member inNested
    rw [List.map_reverse, List.mem_reverse] at inNested
    exact (List.nodup_append.mp whole).2.2 e.serial inNested e.serial
      (List.mem_append_right _ (List.mem_map_of_mem member)) rfl
  have cutOff : Arena.sealShown (nested.filter fun e => s.isOpen e.serial) nested.reverse
      = (nested.filter fun e => s.isOpen e.serial).map Entry.settled :=
    Arena.sealShown_of_mem reversed fun e member =>
      List.mem_reverse.mpr (List.mem_filter.mp member).1
  have sealedEq : Arena.sealShown (nested.filter (fun e => s.isOpen e.serial) ++ s.detached)
      nested.reverse
      = (nested.filter fun e => s.isOpen e.serial).map Entry.settled ++ s.detached := by
    have others := Arena.sealShown_of_absent apart
    simp only [Arena.sealShown] at cutOff others ⊢
    rw [List.map_append, cutOff, others]
  rw [renderInto_eq rfl distinct unsealed, folded, sealedEq]

/-- Whether the anchor of a heading has to end before regions are rendered into a host. -/
def endsAnchor (tag : Tag) (nested : Arena) (s : Scan) : Bool :=
  s.headingAnchorOpen && tag.isHeading && nested.any (·.region.tag == .link)

/-- Where no anchor has to end, folding into a host of the arena renders into it what has been cut
off. -/
theorem fold_into_eq (sound : s.Sound) {nested older : Arena} {entry : Entry} {tag : Tag}
    (split : s.arena = nested ++ entry :: older) (stays : s.endsAnchor tag nested = false) :
    s.fold ⟨tag, entry.serial⟩ = .ok (s.folded nested entry older) := by
  rw [endsAnchor] at stays
  rw [fold]
  simp only [Arena.above_split split sound.arena_distinct,
    Arena.downTo_split split sound.arena_distinct, stays, Bool.false_eq_true, if_false]
  exact renderInto_cut sound split

/-- Where an anchor has to end, it ends in the host before anything is rendered into it. -/
theorem fold_ends_eq (sound : s.Sound) {nested older : Arena} {entry : Entry} {tag : Tag}
    (split : s.arena = nested ++ entry :: older) (uncaptioned : entry.region.isCaptioned = false)
    (ends : s.endsAnchor tag nested = true) :
    s.fold ⟨tag, entry.serial⟩ = .ok (Scan.folded nested
      { entry with region := entry.region.extend Tag.anchor.closeHalf } older { s with
        arena :=
          nested ++ { entry with region := entry.region.extend Tag.anchor.closeHalf } :: older
        written := Tag.anchor.closeHalf :: s.written
        headingAnchorOpen := false }) := by
  have unsealed : entry.region.isSealed = false := sound.unsealed entry (by simp [split])
  let s₁ : Scan := { s with
    arena := nested ++ { entry with region := entry.region.extend Tag.anchor.closeHalf } :: older
    written := Tag.anchor.closeHalf :: s.written
    headingAnchorOpen := false }
  have edits₁ : Edits s s₁ := .closeAnchor split uncaptioned
  have cut := renderInto_cut (edits₁.sound sound) (s := s₁) rfl
  have parted : entry :: older = [] ++ entry :: older := rfl
  have anchored := closeAnchor_eq (s := { s with
    arena := entry :: older
    detached := nested.filter (fun e => s.isOpen e.serial) ++ s.detached
    lost := nested.map (fun e => e.region.leftOut) ++ s.lost })
    (sound.distinct_cut split fun e => s.isOpen e.serial) parted unsealed
  rw [endsAnchor] at ends
  rw [fold]
  simp only [Arena.above_split split sound.arena_distinct,
    Arena.downTo_split split sound.arena_distinct, ends, if_true]
  rw [anchored]
  exact cut

/-- Folding into a host of the arena is one edit, after the anchor of a heading has ended if it has
to. -/
theorem fold_attached (sound : s.Sound) {nested older : Arena} {entry : Entry} (tag : Tag)
    (split : s.arena = nested ++ entry :: older) (uncaptioned : entry.region.isCaptioned = false) :
    ∃ s', s.fold ⟨tag, entry.serial⟩ = .ok s' ∧ s.Extends s'
      ∧ (∃ region, s'.arena = { entry with region := region } :: older)
      ∧ s'.detached
        = (nested.filter fun e => s.isOpen e.serial).map Entry.settled ++ s.detached := by
  cases ending : s.endsAnchor tag nested with
  | false =>
      refine ⟨_, fold_into_eq sound split ending, ?_, ⟨_, rfl⟩, rfl⟩
      exact ⟨.single (.fold s split uncaptioned), rfl, rfl, rfl, rfl, rfl, rfl, id, fun _ => rfl⟩
  | true =>
      have anchorOpen : s.headingAnchorOpen = true := by
        rw [endsAnchor, Bool.and_eq_true, Bool.and_eq_true] at ending
        exact ending.1.1
      refine ⟨_, fold_ends_eq sound split uncaptioned ending, ?_, ⟨_, rfl⟩, rfl⟩
      exact ⟨Edits.trans (.closeAnchor split uncaptioned) (.single (.fold _ rfl uncaptioned)),
        keeps_closeAnchor anchorOpen⟩

theorem Sound.root (sound : s.Sound) :
    ∃ newer root, s.arena = newer ++ [root] ∧ root.region.isShown = true := by
  obtain ⟨newer, root, split⟩ : ∃ newer root, s.arena = newer ++ [root] :=
    ⟨_, _, (List.dropLast_append_getLast sound.arena_ne_nil).symm⟩
  have rooted := sound.rooted
  simp only [split, List.map_append, List.map_cons, List.map_nil, List.getLast?_append,
    List.getLast?_singleton, Option.some_or, Option.some.injEq, Entry.tag] at rooted
  refine ⟨newer, root, split, ?_⟩
  rw [Region.isShown, rooted]
  rfl

theorem renderInto_refused {host : Entry} {rendered : List Entry} {first : Entry}
    (distinct : ((s.arena ++ s.detached).map Entry.serial).Nodup) (member : host ∈ s.detached)
    (isSealed : host.region.isSealed = true) (shown : first.region.isShown = true)
    (differs : host.serial ≠ first.serial) :
    ∃ halt, s.renderInto host.serial (first :: rendered) = .error halt
      ∧ halt.error = .sealed host.tag := by
  have serials : (s.detached.update first.serial Region.markSealed).map Entry.serial
      = s.detached.map Entry.serial := Arena.update_serials _ _ _
  have distinct₁ : ((s.arena ++ s.detached.update first.serial Region.markSealed).map
      Entry.serial).Nodup := by
    rw [List.map_append, serials, ← List.map_append]
    exact distinct
  have still : host ∈ s.arena ++ s.detached.update first.serial Region.markSealed := by
    refine List.mem_append_right _ (List.mem_map.mpr ⟨host, member, ?_⟩)
    simp [differs]
  have refused := changeRegion_refused (s := { s with
    detached := s.detached.update first.serial Region.markSealed }) distinct₁ still isSealed
    first.region.render
  rw [renderInto]
  simp only [shown, if_true, refused]
  exact ⟨_, rfl, rfl⟩

/-- Folding into a host that has been detached is refused at the first region that appears in the
output, and the region at the root does. -/
theorem fold_refused (sound : s.Sound) {entry : Entry} (member : entry ∈ s.detached)
    (isSealed : entry.region.isSealed = true) (tag : Tag) :
    ∃ halt, s.fold ⟨tag, entry.serial⟩ = .error halt ∧ halt.error = .sealed entry.tag := by
  have absent : entry.serial ∉ s.arena.map Entry.serial := by
    intro inArena
    have whole := sound.distinct
    rw [List.map_append, List.nodup_append] at whole
    exact whole.2.2 _ inArena _ (List.mem_map_of_mem member) rfl
  obtain ⟨newer, root, split, shown⟩ := sound.root
  have differs : entry.serial ≠ root.serial := by
    intro same
    exact absent (same ▸ List.mem_map_of_mem (by simp [split]))
  have distinct := sound.distinct_cut (List.append_nil s.arena).symm fun e => s.isOpen e.serial
  have detached : entry ∈ s.arena.filter (fun e => s.isOpen e.serial) ++ s.detached :=
    List.mem_append_right _ member
  have reversed : s.arena.reverse = root :: newer.reverse := by simp [split]
  rw [fold]
  simp only [Arena.above_of_absent absent, Arena.downTo_of_absent absent]
  split
  · have refused := closeAnchor_refused (s := { s with
      arena := []
      detached := s.arena.filter (fun e => s.isOpen e.serial) ++ s.detached
      lost := s.arena.map (fun e => e.region.leftOut) ++ s.lost }) distinct detached isSealed
    rw [refused]
    exact ⟨_, rfl, rfl⟩
  · rw [reversed]
    exact renderInto_refused (s := { s with
      arena := []
      detached := s.arena.filter (fun e => s.isOpen e.serial) ++ s.detached
      lost := s.arena.map (fun e => e.region.leftOut) ++ s.lost }) distinct detached isSealed shown
      differs

/-- An open region that is not exclusive takes what is folded into it and is the newest one then, or
it has been rendered and refuses. -/
theorem fold_meets (sound : s.Sound) (attached : calm → s.detached = []) {host : OpenRegion}
    (member : host ∈ s.openRegions) (shared : host.tag.traits.isExclusive = false) :
    Meets (Refused calm) (fun s' => s.Extends s' ∧ s'.Writable
      ∧ ((∀ o ∈ s.openRegions, o.serial ≤ host.serial) → s'.detached = s.detached))
      (s.fold host) := by
  obtain ⟨tag, serial⟩ := host
  rcases sound.placed member shared with ⟨nested, entry, older, split, rfl, uncaptioned⟩ | rendered
  · obtain ⟨s', foldEq, goesOn, ⟨region, arenaEq⟩, detachedEq⟩ :=
      fold_attached sound tag split uncaptioned
    rw [foldEq]
    have isOpen : s.isOpen entry.serial = true := isOpen_iff.mpr ⟨_, member, rfl⟩
    have still : s'.isOpen entry.serial = true := by
      rw [Scan.isOpen, goesOn.keeps.opened]
      exact isOpen
    refine ⟨goesOn, ⟨_, older, arenaEq, .inr still⟩, fun newest => ?_⟩
    have newerOnly := sound.sorted
    rw [split, List.map_append, List.pairwise_append] at newerOnly
    have none : (nested.filter fun e => s.isOpen e.serial) = [] := by
      rw [List.filter_eq_nil_iff]
      intro e inNested isOpen
      obtain ⟨o, oMember, oSerial⟩ := isOpen_iff.mp isOpen
      have above := newerOnly.2.2 e.serial (List.mem_map_of_mem inNested) entry.serial (by simp)
      have below := newest o oMember
      simp only at below
      omega
    rw [detachedEq, none]
    rfl
  · obtain ⟨hosting, entry, inDetached, rfl, rfl, isSealed⟩ := rendered
    obtain ⟨halt, foldEq, errorEq⟩ := fold_refused sound inDetached isSealed entry.tag
    rw [foldEq]
    refine ⟨fun isCalm => ?_, entry.tag, hosting, errorEq⟩
    simp [attached isCalm] at inDetached

end Scan

end MarkPress
