/-
Module: MarkPress.Proofs.Scan.FrameTags
Purpose: The beginnings and ends of tags inside of a frame.
  A fold cuts the arena behind a host and never reaches the regions of the frame, unless the host
  has been taken out of the arena before. Then the scan stops, with or without the frame, and the
  error depends on the host alone.
Main exports:
  fold_follows, leave_follows, closeTag_follows, closeAll_follows, openTag_follows
-/
import MarkPress.Proofs.Scan.Frame

namespace MarkPress.Scan

variable {frame : Frame} {s s' : Scan} {post mid : Scan → Prop} {naming : Prop} {tag : Tag}

/-! ### Folding -/

theorem closeAnchor_follows (grounded : s.Grounded) (heading : Nat) :
    Follows frame (Steady naming s) (s.closeAnchor heading)
      ((s.inside frame).closeAnchor (frame.shift + heading)) := by
  apply (writeTo_follows grounded heading _).step
  intro s₁ grounded₁
  exact .ok rfl ((Steady.refl grounded₁).flags rfl)

theorem renderInto_follows (host : Nat) (entries : List Entry) (grounded : s.Grounded) :
    Follows frame (Steady naming s) (renderInto host entries s)
      (renderInto (frame.shift + host) (entries.map (Entry.renumber frame.shift))
        (s.inside frame)) := by
  induction entries generalizing s with
  | nil => exact .ok rfl (.refl grounded)
  | cons entry newer ih =>
      rw [List.map_cons, renderInto, renderInto]
      refine .ite (fun _ => ?_) fun _ => ih grounded
      have marked : Steady naming s
          { s with detached := s.detached.update entry.serial Region.markSealed } :=
        (Steady.refl grounded).flags rfl
      have same : { s.inside frame with
          detached := (s.inside frame).detached.update (frame.shift + entry.serial)
            Region.markSealed }
          = ({ s with detached := s.detached.update entry.serial Region.markSealed } : Scan).inside
            frame := by
        simp only [inside, Arena.update_renumber]
      have changed : Follows frame (Steady naming s)
          (changeRegion host (fun region => region.append entry.region.render)
            { s with detached := s.detached.update entry.serial Region.markSealed })
          (changeRegion (frame.shift + host) (fun region => region.append entry.region.render)
            { s.inside frame with
              detached := (s.inside frame).detached.update (frame.shift + entry.serial)
                Region.markSealed }) := by
        rw [same]
        exact (changeRegion_follows marked.grounded host (keepsTag_append _)).mono
          fun _ => marked.trans
      exact changed.step fun s₁ grounded₁ => ih grounded₁

/-- The arena of a scan cut behind a host, with what was cut off taken out of it. -/
def cut (host : Nat) (s : Scan) : Scan :=
  { s with
    arena := s.arena.downTo host
    detached := (s.arena.above host).filter (fun entry => s.isOpen entry.serial) ++ s.detached
    lost := (s.arena.above host).map (fun entry => entry.region.leftOut) ++ s.lost }

theorem cut_inside {host : Nat} (held : s.arena.holds host = true) :
    (s.inside frame).cut (frame.shift + host) = (s.cut host).inside frame := by
  have above : (s.inside frame).arena.above (frame.shift + host)
      = (s.arena.above host).renumber frame.shift := frame.above_around held
  have downTo : (s.inside frame).arena.downTo (frame.shift + host)
      = frame.around (s.arena.downTo host) := frame.downTo_around held
  have stillOpen : (fun entry => (s.inside frame).isOpen entry.serial)
      ∘ Entry.renumber frame.shift = fun entry => s.isOpen entry.serial := by
    funext entry
    exact isOpen_inside frame s entry.serial
  simp only [cut, above, downTo, Arena.renumber, List.filter_map, List.map_map, stillOpen]
  simp only [inside, Arena.renumber, List.map_append, List.append_assoc]
  rfl

theorem cut_steady (grounded : s.Grounded) {host : Nat} (held : s.arena.holds host = true) :
    Steady naming s (s.cut host) := by
  obtain ⟨entry, member, rfl⟩ := List.mem_map.mp (Arena.holds_iff.mp held)
  obtain ⟨newer, older, split⟩ := List.append_of_mem member
  have downTo := Arena.downTo_split split grounded.distinct
  have suffix : s.arena.downTo entry.serial <:+ s.arena := ⟨newer, by rw [downTo, split]⟩
  refine ⟨rfl, rfl, rfl, rfl, fun _ => rfl, ?_, ?_, ?_⟩
  · exact grounded.distinct.sublist (suffix.sublist.map _)
  · exact fun other isOther => grounded.fresh other (suffix.subset isOther)
  · obtain ⟨label, last, shown⟩ := grounded.root
    refine ⟨label, ?_, shown⟩
    rw [split, List.map_append, List.getLast?_append, List.map_cons, List.getLast?_cons] at last
    rw [cut, downTo, List.map_cons, List.getLast?_cons]
    exact last

theorem fold_eq (host : OpenRegion) (s : Scan) :
    s.fold host
      = (if s.headingAnchorOpen && host.tag.isHeading
            && (s.arena.above host.serial).any (fun entry => entry.region.tag == .link) then
          (s.cut host.serial).closeAnchor host.serial
        else .ok (s.cut host.serial))
        >>= renderInto host.serial (s.arena.above host.serial).reverse := by
  rw [fold]
  dsimp only
  split <;> rfl

theorem fold_follows (grounded : s.Grounded) {host : OpenRegion}
    (held : s.arena.holds host.serial = true) :
    Follows frame (Steady naming s) (s.fold host)
      ((s.inside frame).fold (host.renumber frame.shift)) := by
  have above : (s.inside frame).arena.above (frame.shift + host.serial)
      = (s.arena.above host.serial).renumber frame.shift := frame.above_around held
  have links : ((s.arena.above host.serial).renumber frame.shift).any
      (fun entry => entry.region.tag == .link)
        = (s.arena.above host.serial).any fun entry => entry.region.tag == .link := by
    rw [Arena.renumber, List.any_map]
    rfl
  have steady : Steady naming s (s.cut host.serial) := cut_steady grounded held
  rw [fold_eq, fold_eq, OpenRegion.renumber]
  dsimp only
  rw [above, links, cut_inside held]
  have closed : Follows frame (Steady naming s)
      (if s.headingAnchorOpen && host.tag.isHeading
          && (s.arena.above host.serial).any (fun entry => entry.region.tag == .link) then
        (s.cut host.serial).closeAnchor host.serial
      else .ok (s.cut host.serial))
      (if (s.inside frame).headingAnchorOpen && host.tag.isHeading
          && (s.arena.above host.serial).any (fun entry => entry.region.tag == .link) then
        ((s.cut host.serial).inside frame).closeAnchor (frame.shift + host.serial)
      else .ok ((s.cut host.serial).inside frame)) :=
    .ite (fun _ => (closeAnchor_follows steady.grounded host.serial).mono fun _ => steady.trans)
      fun _ => .ok rfl steady
  apply closed.step
  intro s₁ grounded₁
  have reversed : ((s.arena.above host.serial).renumber frame.shift).reverse
      = (s.arena.above host.serial).reverse.map (Entry.renumber frame.shift) :=
    List.map_reverse.symm
  rw [reversed]
  exact renderInto_follows host.serial _ grounded₁

/-! ### Folding into a host that is gone -/

/-- The error on which a scan stops that folds everything into a host taken out of its arena: the
host refuses if it has been rendered, and otherwise no region is left to go on with. -/
def goneError : Option Region → RegionError
  | some host => if host.isSealed then .sealed host.tag else .outOfRange "-1".toList
  | none => .outOfRange "-1".toList

theorem get?_update_self (arena : Arena) (serial : Nat) (f : Region → Region) :
    (arena.update serial f).get? serial = (arena.get? serial).map f := by
  induction arena with
  | nil => rfl
  | cons entry older ih =>
      by_cases here : entry.serial = serial
      · simp [Arena.update, Arena.get?, here]
      · simpa [Arena.update, Arena.get?, here] using ih

theorem get?_update_of_ne (arena : Arena) {serial other : Nat} (differs : serial ≠ other)
    (f : Region → Region) : (arena.update serial f).get? other = arena.get? other := by
  induction arena with
  | nil => rfl
  | cons entry older ih =>
      by_cases here : entry.serial = serial
      · have apart : entry.serial ≠ other := fun same => differs (here ▸ same)
        simpa [Arena.update, Arena.get?, here, differs] using ih
      · by_cases there : entry.serial = other
        · simp [Arena.update, Arena.get?, there, Ne.symm differs]
        · simpa [Arena.update, Arena.get?, here, there] using ih

/-- The arena is used up, and the host that is gone has been rendered or not. -/
structure Spent (host : Nat) (old : Option Region) (s : Scan) : Prop where
  arena : s.arena = []
  isSealed : ((s.detached.get? host).map Region.isSealed) = old.map Region.isSealed
  tag : ((s.detached.get? host).map Region.tag) = old.map Region.tag

theorem Spent.regionOf {host : Nat} {old : Option Region} (spent : s.Spent host old) :
    s.regionOf host = s.detached.get? host := by
  rw [Scan.regionOf, spent.arena]
  exact Option.none_or

/-- Text for a host that is gone is refused if it has been rendered. Otherwise nothing but its
content changes. -/
theorem Spent.changeRegion {host : Nat} {old : Option Region} (spent : s.Spent host old)
    (text : Text) :
    Meets (· = goneError old) (fun s' => s'.Spent host old ∧ old.map Region.isSealed ≠ some true)
      (s.changeRegion host fun region => region.append text) := by
  have sealedEq := spent.isSealed
  have tagEq := spent.tag
  rw [Scan.changeRegion, spent.regionOf]
  cases found : s.detached.get? host with
  | none =>
      rw [found] at sealedEq
      refine ⟨spent, fun isSealed => ?_⟩
      rw [isSealed] at sealedEq
      cases sealedEq
  | some region =>
      rw [found, Option.map_some] at sealedEq tagEq
      cases isSealed : region.isSealed with
      | true =>
          rw [isSealed] at sealedEq
          simp only [Region.append, Region.change_of_sealed isSealed]
          cases old with
          | none => cases tagEq
          | some host =>
              simp only [Option.map_some, Option.some.injEq] at sealedEq tagEq
              simp [Meets, goneError, ← sealedEq, tagEq]
      | false =>
          simp only [Region.append, Region.change_of_open isSealed]
          have found' : (s.detached.update host fun _ => region.extend text).get? host
              = some (region.extend text) := by rw [get?_update_self, found]; rfl
          refine ⟨⟨by simp [spent.arena, Arena.update], ?_, ?_⟩, ?_⟩
          · rw [found', ← sealedEq]
            rfl
          · rw [found', ← tagEq]
            rfl
          · rw [← sealedEq, isSealed]
            decide

theorem Spent.closeAnchor {host : Nat} {old : Option Region} (spent : s.Spent host old) :
    Meets (· = goneError old) (Spent host old) (s.closeAnchor host) := by
  have wrote : Meets (· = goneError old) (Spent host old) (s.writeTo host Tag.anchor.closeHalf) :=
    (spent.changeRegion Tag.anchor.closeHalf).bind fun s₁ met =>
      (⟨met.1.arena, met.1.isSealed, met.1.tag⟩ : Spent host old
        { s₁ with written := Tag.anchor.closeHalf :: s₁.written })
  exact wrote.bind fun s₁ spent₁ =>
    (⟨spent₁.arena, spent₁.isSealed, spent₁.tag⟩ : Spent host old
      { s₁ with headingAnchorOpen := false })

/-- What appears is refused by a host that is gone and has been rendered. -/
theorem Spent.renderInto {host : Nat} {old : Option Region} (spent : s.Spent host old)
    (entries : List Entry) (apart : ∀ entry ∈ entries, entry.serial ≠ host) :
    Meets (· = goneError old) (fun s' => s'.Spent host old
        ∧ ((∃ entry ∈ entries, entry.region.isShown = true) → old.map Region.isSealed ≠ some true))
      (renderInto host entries s) := by
  induction entries generalizing s with
  | nil => exact ⟨spent, by simp⟩
  | cons entry newer ih =>
      have others : ∀ entry ∈ newer, entry.serial ≠ host := fun entry member =>
        apart entry (List.mem_cons_of_mem _ member)
      rw [Scan.renderInto]
      split
      · have marked : Spent host old
            { s with detached := s.detached.update entry.serial Region.markSealed } := by
          have kept := get?_update_of_ne s.detached (apart entry (by simp)) Region.markSealed
          exact ⟨spent.arena, by rw [kept]; exact spent.isSealed, by rw [kept]; exact spent.tag⟩
        refine (marked.changeRegion entry.region.render).bind ?_
        rintro s₁ ⟨spent₁, unsealed⟩
        exact (ih spent₁ others).mono fun s₂ met => ⟨met.1, fun _ => unsealed⟩
      · rename_i hidden
        refine (ih spent others).mono fun s₂ met => ⟨met.1, ?_⟩
        rintro ⟨first, member, shown⟩
        rcases List.mem_cons.mp member with rfl | later
        · exact absurd shown hidden
        · exact met.2 ⟨first, later, shown⟩

/-- Leaving a region whose host is gone stops on an error that depends on the host alone. -/
theorem leave_gone {region : Option Nat} {host : OpenRegion}
    (hosted : (region.bind fun serial => s.hostOf (some serial)) = some host)
    (gone : s.arena.holds host.serial = false)
    (shown : ∃ entry ∈ s.arena, entry.region.isShown = true) :
    Meets (· = goneError (s.detached.get? host.serial)) (fun _ => False) (s.leave region) := by
  have absent : host.serial ∉ s.arena.map Entry.serial := by
    intro member
    rw [Arena.holds_iff.mpr member] at gone
    cases gone
  have apart : ∀ entry ∈ s.arena.reverse, entry.serial ≠ host.serial := by
    intro entry member same
    exact absent (same ▸ List.mem_map_of_mem (List.mem_reverse.mp member))
  generalize oldEq : s.detached.get? host.serial = old
  have spent : (s.cut host.serial).Spent host.serial old := by
    have kept : (s.cut host.serial).detached.get? host.serial = old := by
      rw [cut, Arena.get?_append, oldEq, Arena.get?_of_absent, Option.none_or]
      intro member
      obtain ⟨entry, filtered, same⟩ := List.mem_map.mp member
      have inArena := (List.takeWhile_sublist _).subset (List.mem_of_mem_filter filtered)
      exact absent (same ▸ List.mem_map_of_mem inArena)
    exact ⟨Arena.downTo_of_absent absent, by rw [kept], by rw [kept]⟩
  rw [leave, hosted]
  simp only [fold_eq, Arena.above_of_absent absent]
  have closed : Meets (· = goneError old) (Spent host.serial old)
      (if s.headingAnchorOpen && host.tag.isHeading
          && s.arena.any (fun entry => entry.region.tag == .link) then
        (s.cut host.serial).closeAnchor host.serial
      else .ok (s.cut host.serial)) := by
    split
    · exact spent.closeAnchor
    · exact spent
  refine (closed.bind fun s₁ spent₁ => spent₁.renderInto s.arena.reverse apart).bind ?_
  rintro s₂ ⟨spent₂, unsealed⟩
  obtain ⟨entry, member, appears⟩ := shown
  have unsealed := unsealed ⟨entry, List.mem_reverse.mpr member, appears⟩
  simp only [spent₂.arena]
  cases old with
  | none => rfl
  | some region =>
      have isOpen : region.isSealed = false := by simpa using unsealed
      simp [Meets, goneError, isOpen]

/-! ### The end of a tag -/

theorem Grounded.exists_shown (grounded : s.Grounded) :
    ∃ entry ∈ s.arena, entry.region.isShown = true := by
  obtain ⟨label, last, shown⟩ := grounded.root
  obtain ⟨entry, member, rfl⟩ := List.mem_map.mp (List.mem_of_getLast? last)
  exact ⟨entry, member, shown _⟩

theorem isNested_inside (frame : Frame) (s : Scan) (region : Option Nat) :
    (s.inside frame).isNested (region.map (frame.shift + ·)) = s.isNested region := by
  simp only [isNested, hostOf_inside, Option.isSome_map]
  rfl

/-- Text that is written next has a region to go to. -/
theorem toText_follows (grounded : s.Grounded) :
    Follows frame (Steady naming s)
      (match s.arena with
        | [] => .error ⟨.outOfRange "-1".toList, s⟩
        | entry :: _ =>
            return if s.isOpen entry.serial || entry.region.tag == .text then s else s.push .text)
      (match (s.inside frame).arena with
        | [] => .error ⟨.outOfRange "-1".toList, s.inside frame⟩
        | entry :: _ =>
            return if (s.inside frame).isOpen entry.serial || entry.region.tag == .text then
              s.inside frame else (s.inside frame).push .text) := by
  cases split : s.arena with
  | nil => exact absurd split grounded.arena_ne_nil
  | cons entry older =>
      have framed : (s.inside frame).arena
          = entry.renumber frame.shift :: frame.around older := by
        simp only [inside, split]
        rfl
      simp only [framed, Entry.renumber, isOpen_inside, push_inside]
      refine .ok ?_ ?_
      · split <;> rfl
      · split
        · exact .refl grounded
        · exact (Steady.refl grounded).push .text

theorem leave_follows (grounded : s.Grounded) (region : Option Nat) :
    Follows frame (Steady naming s) (s.leave region)
      ((s.inside frame).leave (region.map (frame.shift + ·))) := by
  have hosts : ((region.map (frame.shift + ·)).bind fun serial =>
      (s.inside frame).hostOf (some serial))
        = (region.bind fun serial => s.hostOf (some serial)).map
            (OpenRegion.renumber frame.shift) := by
    cases region with
    | none => rfl
    | some serial => exact hostOf_inside frame s (some serial)
  cases hosted : region.bind fun serial => s.hostOf (some serial) with
  | none =>
      rw [hosted] at hosts
      rw [leave, leave, hosted, hosts]
      exact toText_follows grounded
  | some host =>
      rw [hosted, Option.map_some] at hosts
      cases held : s.arena.holds host.serial with
      | true =>
          rw [leave, leave, hosted, hosts]
          exact (fold_follows grounded held).step fun s₁ grounded₁ => toText_follows grounded₁
      | false =>
          have gone : (s.inside frame).arena.holds (host.renumber frame.shift).serial = false :=
            (frame.holds_around s.arena host.serial).trans held
          have shown : ∃ entry ∈ (s.inside frame).arena, entry.region.isShown = true := by
            obtain ⟨entry, member, appears⟩ := grounded.exists_shown
            exact ⟨entry.renumber frame.shift,
              List.mem_append_left _ (List.mem_map_of_mem member), appears⟩
          have stops := leave_gone hosted held grounded.exists_shown
          have framed := leave_gone hosts gone shown
          have found : (s.inside frame).detached.get? (host.renumber frame.shift).serial
              = s.detached.get? host.serial := Arena.get?_renumber _ _ _
          rw [found] at framed
          cases left : s.leave region with
          | ok s₁ => exact (left ▸ stops).elim
          | error halt =>
              cases left' : (s.inside frame).leave (region.map (frame.shift + ·)) with
              | ok s₁ => exact (left' ▸ framed).elim
              | error other =>
                  rw [left] at stops
                  rw [left'] at framed
                  exact framed.trans stops.symm

theorem nextSection_inside (frame : Frame) (s : Scan) :
    (s.inside frame).nextSection = s.nextSection.inside frame := by
  rw [nextSection, endParagraph_inside, push_inside, push_inside, openParagraph_inside, nextSection]

theorem Steady.nextSection (steady : Steady naming s s') : Steady naming s s'.nextSection :=
  ((steady.endParagraph.push .sectionEnd).push .sectionBegin).openParagraph

theorem endHeading_follows (grounded : s.Grounded) (serial : Nat) :
    Follows frame (Steady naming s) (s.endHeading serial)
      ((s.inside frame).endHeading (frame.shift + serial)) := by
  have anchor : Follows frame (Steady naming s)
      (if s.headingAnchorOpen then s.closeAnchor serial else .ok s)
      (if (s.inside frame).headingAnchorOpen then
        (s.inside frame).closeAnchor (frame.shift + serial) else .ok (s.inside frame)) :=
    .ite (fun _ => closeAnchor_follows grounded serial) fun _ => .ok rfl (.refl grounded)
  rw [endHeading_eq, endHeading_eq]
  apply anchor.step
  intro s₁ grounded₁
  exact .ok (nextSection_inside frame s₁) (Steady.refl grounded₁).nextSection

theorem endBlock_inside (frame : Frame) (s : Scan) (region : Option Nat) :
    (s.inside frame).endBlock (region.map (frame.shift + ·))
      = (s.endBlock region).inside frame := by
  rw [endBlock, endBlock, isNested_inside, endParagraph_inside, openParagraph_inside]
  exact (apply_ite (Scan.inside frame) _ _ _).symm

theorem Steady.endBlock (steady : Steady naming s s') (region : Option Nat) :
    Steady naming s (s'.endBlock region) := by
  rw [Scan.endBlock]
  split
  · exact steady
  · exact steady.endParagraph.openParagraph

/-- What is done with the region of an address follows as well. -/
def AddressFollows (frame : Frame) (naming : Prop) (address address' : Nat → Scan → Outcome) :
    Prop :=
  ∀ serial (s : Scan), s.Grounded → Follows frame (Steady naming s) (address serial s)
    (address' (frame.shift + serial) (s.inside frame))

theorem endRegion_follows (grounded : s.Grounded) {address address' : Nat → Scan → Outcome}
    (follows : AddressFollows frame naming address address') (tag : Tag) (region : Option Nat) :
    Follows frame (Steady naming s) (s.endRegion address tag region)
      ((s.inside frame).endRegion address' tag (region.map (frame.shift + ·))) := by
  cases action : tag.traits.onClose with
  | plain =>
      simp only [endRegion, action]
      exact .ok rfl (.refl grounded)
  | heading =>
      cases region with
      | none =>
          simp only [endRegion, action, Option.map_none]
          rfl
      | some serial =>
          simp only [endRegion, action, Option.map_some]
          exact endHeading_follows grounded serial
  | block =>
      simp only [endRegion, action]
      exact .ok (endBlock_inside frame s region) ((Steady.refl grounded).endBlock region)
  | address =>
      cases region with
      | none =>
          simp only [endRegion, action, Option.map_none]
          rfl
      | some serial =>
          simp only [endRegion, action, Option.map_some]
          exact follows serial s grounded

theorem closeTagWith_follows (grounded : s.Grounded) {address address' : Nat → Scan → Outcome}
    (follows : AddressFollows frame naming address address') (tag : Tag) :
    Follows frame (Steady naming s) (s.closeTagWith address tag)
      ((s.inside frame).closeTagWith address' tag) := by
  have forgotten : Steady naming s (s.forget tag) := (Steady.refl grounded).flags rfl
  simp only [closeTagWith, serialOf_inside, forget_inside]
  refine .mono ?_ fun _ => forgotten.trans
  refine .ite (fun _ => ?_) fun _ => write_follows forgotten.grounded tag.closeHalf
  apply (endRegion_follows forgotten.grounded follows tag (s.serialOf tag)).step
  intro s₁ grounded₁
  exact leave_follows grounded₁ _

/-! ### Addresses -/

theorem keepsTag_setAttribute (name : Text) (value : Option Text) :
    KeepsTag fun region => region.setAttribute name value := by
  apply keepsTag_change
  intro region
  split <;> rfl

theorem addressTarget_inside (frame : Frame) (s : Scan) :
    (s.inside frame).addressTarget? = s.addressTarget?.map (Entry.renumber frame.shift) := by
  have own : (fun entry : Entry => decide (entry.region.tag ∈ Tag.urlTargets)
        && (s.inside frame).isOpen entry.serial) ∘ Entry.renumber frame.shift
      = fun entry => decide (entry.region.tag ∈ Tag.urlTargets) && s.isOpen entry.serial := by
    funext entry
    exact congrArg (decide (entry.region.tag ∈ Tag.urlTargets) && ·)
      (isOpen_inside frame s entry.serial)
  have others : frame.older.find? (fun entry => decide (entry.region.tag ∈ Tag.urlTargets)
        && (s.inside frame).isOpen entry.serial) = none := by
    rw [List.find?_eq_none]
    intro entry member
    have below := frame.below entry member
    have closed : (s.inside frame).isOpen entry.serial = false := by
      apply Bool.eq_false_iff.mpr
      intro isOpen
      obtain ⟨o, isOpened, same⟩ := List.any_eq_true.mp isOpen
      obtain ⟨old, -, rfl⟩ := List.mem_map.mp isOpened
      simp only [OpenTag.renumber, beq_iff_eq, Option.map_eq_some_iff] at same
      obtain ⟨number, -, same⟩ := same
      omega
    simp [closed]
  have split : (s.inside frame).arena = s.arena.map (Entry.renumber frame.shift) ++ frame.older :=
    rfl
  rw [addressTarget?, split, List.find?_append, others, Option.or_none, List.find?_map, own]
  rfl

theorem setLinkAddress_follows (grounded : s.Grounded) (link : Nat) (address : Text) :
    Follows frame (Steady naming s) (s.setLinkAddress link address)
      ((s.inside frame).setLinkAddress (frame.shift + link) address) :=
  changeRegion_follows grounded link (keepsTag_setAttribute _ _)

theorem setImageAddress_follows (grounded : s.Grounded) (image : Entry) (address : Text) :
    Follows frame (Steady naming s) (s.setImageAddress image address)
      ((s.inside frame).setImageAddress (image.renumber frame.shift) address) := by
  apply (changeRegion_follows grounded image.serial (keepsTag_setAttribute _ _)).step
  intro s₁ grounded₁
  apply (changeRegion_follows grounded₁ image.serial (keepsTag_setAttribute _ _)).step
  intro s₂ grounded₂
  refine .ok ?_ ?_
  · rw [pushRegion_inside]
    exact (apply_ite (Scan.inside frame) _ _ _).symm
  · split
    · exact (Steady.refl grounded₂).pushRegion _
    · exact .refl grounded₂

theorem captureAddress_follows : AddressFollows frame naming captureAddress captureAddress := by
  intro serial s grounded
  rw [captureAddress, captureAddress, addressTarget_inside, regionOf_inside]
  cases s.addressTarget? with
  | none => exact .ok rfl (.refl grounded)
  | some target =>
      simp only [Option.map_some]
      generalize (((s.regionOf serial).map Region.inner).getD []).trim = address
      have closed : ∀ s₁ : Scan, s₁.Grounded → Follows frame (Steady naming s₁)
          (closeTagWith (fun _ s => .ok s) target.region.tag s₁)
          (closeTagWith (fun _ s => .ok s) target.region.tag (s₁.inside frame)) :=
        fun s₁ grounded₁ => closeTagWith_follows grounded₁
          (fun _ _ grounded₂ => .ok rfl (.refl grounded₂)) target.region.tag
      exact .ite (fun _ => (setLinkAddress_follows grounded target.serial address).step closed)
        fun _ => (setImageAddress_follows grounded target address).step closed

theorem closeTag_follows (grounded : s.Grounded) (tag : Tag) :
    Follows frame (Steady naming s) (s.closeTag tag) ((s.inside frame).closeTag tag) :=
  closeTagWith_follows grounded captureAddress_follows tag

theorem closeAll_follows (tags : List Tag) (grounded : s.Grounded) :
    Follows frame (Steady naming s) (closeAll tags s) (closeAll tags (s.inside frame)) := by
  induction tags generalizing s with
  | nil => exact .ok rfl (.refl grounded)
  | cons tag rest ih =>
      rw [closeAll, closeAll, isActive_inside]
      exact .ite (fun _ => (closeTag_follows grounded tag).step fun _ => ih) fun _ => ih grounded

theorem closeAll_steady (tags : List Tag) (grounded : s.Grounded) :
    Meets (fun _ => True) (Steady naming s) (closeAll tags s) :=
  have follows : Follows (.line []) (Steady naming s) (closeAll tags s)
      (closeAll tags (s.inside (.line []))) := closeAll_follows tags grounded
  follows.meets

/-! ### The beginning of a tag -/

/-- The line that is read ends before the text behind the source. -/
theorem Frame.Breaks.takeWhile (breaks : frame.Breaks) (line : Text) :
    (line ++ frame.behind).takeWhile (· != '\n') = line.takeWhile (· != '\n') := by
  induction line with
  | nil =>
      cases behind : frame.behind with
      | nil => rfl
      | cons c rest =>
          have first := breaks c (by rw [behind]; rfl)
          simp [first]
  | cons c rest ih =>
      rw [List.cons_append, List.takeWhile_cons, List.takeWhile_cons, ih]

theorem beginAnchor_follows (grounded : s.Grounded) (breaks : frame.Breaks) (named : naming) :
    Follows frame (Steady naming s) s.beginAnchor (s.inside frame).beginAnchor := by
  have title : (s.inside frame).rest.takeWhile (· != '\n') = s.rest.takeWhile (· != '\n') :=
    breaks.takeWhile s.rest
  rw [beginAnchor, beginAnchor, title]
  generalize Slug.headingBase (s.rest.takeWhile (· != '\n')) = base
  have steady : Steady naming s
      { s with anchorIds := Slug.freshId s.anchorIds base :: s.anchorIds } :=
    ⟨rfl, rfl, rfl, rfl, absurd named, grounded.of_labels rfl rfl⟩
  refine .mono ?_ fun _ => steady.trans
  apply (write_follows steady.grounded _).step
  intro s₁ grounded₁
  exact .ok rfl ((Steady.refl grounded₁).flags rfl)

theorem startsBlock_inside (frame : Frame) (s : Scan) (tag : Tag) :
    (s.inside frame).startsBlock tag = s.startsBlock tag := by
  have nested : (s.inside frame).isNested none = s.isNested none := isNested_inside frame s none
  simp only [startsBlock, nested]

theorem openRegion_follows (grounded : s.Grounded) (breaks : frame.Breaks)
    (named : tag.isHeading = true → naming) :
    Follows frame (Steady naming s) (s.openRegion tag) ((s.inside frame).openRegion tag) := by
  have left : (if (s.inside frame).startsBlock tag then (s.inside frame).endParagraph
      else s.inside frame)
        = (if s.startsBlock tag then s.endParagraph else s).inside frame := by
    rw [startsBlock_inside, endParagraph_inside]
    exact (apply_ite (Scan.inside frame) _ _ _).symm
  have steady : Steady naming s (if s.startsBlock tag then s.endParagraph else s) := by
    split
    · exact (Steady.refl grounded).endParagraph
    · exact .refl grounded
  rw [openRegion, openRegion, left]
  generalize (if s.startsBlock tag then s.endParagraph else s) = s₁ at steady
  have opened : Steady naming s { s₁.push tag with
      opened := ⟨tag, some s₁.nextSerial⟩ :: s₁.opened
      atBlockStart := false } := (steady.push tag).flags rfl
  cases action : tag.traits.onOpen with
  | heading =>
      have heading := named (isHeading_of_onOpen action)
      exact (beginAnchor_follows opened.grounded breaks heading).mono fun _ => opened.trans
  | plain => exact .ok rfl opened
  | block => exact .ok rfl opened
  | item => exact .ok rfl opened

theorem openInline_follows (grounded : s.Grounded) (tag : Tag) :
    Follows frame (Steady naming s) (s.openInline tag) ((s.inside frame).openInline tag) := by
  have opened : Steady naming s { s with opened := ⟨tag, none⟩ :: s.opened } :=
    (Steady.refl grounded).flags rfl
  have half : ∀ s₁ : Scan, s₁.Grounded → Follows frame (Steady naming s₁)
      (s₁.write tag.openHalf >>= fun s => .ok { s with atBlockStart := false })
      ((s₁.inside frame).write tag.openHalf >>= fun s => .ok { s with atBlockStart := false }) :=
    fun s₁ grounded₁ => (write_follows grounded₁ _).step fun s₂ grounded₂ =>
      .ok rfl ((Steady.refl grounded₂).flags rfl)
  rw [openInline, openInline]
  refine .mono ?_ fun _ => opened.trans
  cases tag.traits.onOpen with
  | plain => exact half _ opened.grounded
  | block => exact half _ opened.grounded
  | item => exact (setListLevel_follows opened.grounded _).step half
  | heading => rfl

theorem openTag_follows (grounded : s.Grounded) (breaks : frame.Breaks)
    (named : tag.isHeading = true → naming) :
    Follows frame (Steady naming s) (s.openTag tag) ((s.inside frame).openTag tag) := by
  have spaced : Steady naming s { s with
      skipWhitespace := s.skipWhitespace || tag.isSingleLine
      pendingSpace := s.pendingSpace && !(tag.isSingleLine || s.startsBlock tag) } :=
    (Steady.refl grounded).flags rfl
  rw [openTag, openTag, startsBlock_inside]
  refine .mono ?_ fun _ => spaced.trans
  apply (flushSpace_follows spaced.grounded).step
  intro s₁ grounded₁
  have exclusive : Steady naming s₁ { s₁ with
      exclusive := if tag.traits.isExclusive then some tag else s₁.exclusive
      afterFence := s₁.afterFence || tag.traits.isVerbatim } :=
    (Steady.refl grounded₁).flags rfl
  refine .mono ?_ fun _ => exclusive.trans
  exact .ite (fun _ => openRegion_follows exclusive.grounded breaks named)
    fun _ => openInline_follows exclusive.grounded tag

end MarkPress.Scan
