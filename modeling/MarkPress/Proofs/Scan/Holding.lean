/-
Module: MarkPress.Proofs.Scan.Holding
Purpose: Properties of texts that the regions of a scan keep.
  Text comes into a region as a character, as half of an element, folded from another region or
  copied into a caption. A property that passes to texts put together and from the content of a
  region to its rendered text therefore holds of the content of every region, and of everything that
  folding leaves out.
Main exports:
  Lasting, Region.Holds, Scan.Holds, Scan.Edit.holds, Scan.Edits.holds
-/
import MarkPress.Proofs.Scan.Run

namespace MarkPress

open Html

/-- The content of a region has a property, and its attributes are known. -/
structure Region.Holds (property : Text → Prop) (region : Region) : Prop where
  inner : property region.inner
  attributes : region.attributes.Known

/-- A property of texts that lasts when texts are put together and regions are rendered. -/
structure Lasting (property : Text → Prop) : Prop where
  append : ∀ {left right : Text}, property left → property right → property (left ++ right)
  inline : ∀ {text : Text}, Inline text → property text
  render : ∀ {region : Region}, region.Holds property → property region.render

variable {property : Text → Prop}

namespace Lasting

theorem nil (lasting : Lasting property) : property [] :=
  lasting.inline (inline_of_plain fun _ member => absurd member List.not_mem_nil)

theorem flatMap (lasting : Lasting property) {α : Type} {items : List α} {f : α → Text}
    (each : ∀ item ∈ items, property (f item)) : property (items.flatMap f) := by
  induction items with
  | nil => exact lasting.nil
  | cons first rest ih =>
      rw [List.flatMap_cons]
      apply lasting.append
      · exact each first List.mem_cons_self
      · exact ih fun item member => each item (List.mem_cons_of_mem _ member)

variable {region : Region}

theorem ofTag (lasting : Lasting property) (tag : Tag) : (Region.ofTag tag).Holds property :=
  ⟨lasting.nil, tag.attributes_known⟩

theorem extend (lasting : Lasting property) (holds : region.Holds property) {text : Text}
    (added : property text) : (region.extend text).Holds property := by
  refine ⟨?_, holds.attributes⟩
  rw [Region.inner_extend]
  exact lasting.append holds.inner added

theorem shownText (lasting : Lasting property) (holds : region.Holds property) :
    property region.shownText := by
  rw [Region.shownText]
  split
  · exact lasting.render holds
  · exact lasting.nil

theorem leftOut (lasting : Lasting property) (holds : region.Holds property) :
    property region.leftOut := by
  rw [Region.leftOut]
  split
  · exact lasting.nil
  · exact holds.inner

end Lasting

namespace Scan

/-- Every region of a scan holds texts of a property, and so does everything left out by folding. -/
structure Holds (property : Text → Prop) (s : Scan) : Prop where
  regions : ∀ e ∈ s.arena, e.region.Holds property
  lost : ∀ text ∈ s.lost, property text

variable {s s' : Scan}

theorem Holds.push (holds : s.Holds property) {region : Region} (new : region.Holds property) :
    (s.pushRegion region).Holds property where
  lost := holds.lost
  regions := by
    intro e member
    rcases List.mem_cons.mp member with rfl | old
    · exact new
    · exact holds.regions e old

theorem Holds.entry (holds : s.Holds property) {newer older : Arena} {entry : Entry}
    (split : s.arena = newer ++ entry :: older) : entry.region.Holds property :=
  holds.regions entry (by simp [split])

theorem Holds.replace (holds : s.Holds property) {newer older : Arena} {entry : Entry}
    {region : Region} (split : s.arena = newer ++ entry :: older) (new : region.Holds property) :
    Holds property { s with arena := newer ++ { entry with region := region } :: older } where
  lost := holds.lost
  regions := by
    intro e member
    rcases List.mem_append.mp member with before | here
    · exact holds.regions e (split ▸ List.mem_append_left _ before)
    · rcases List.mem_cons.mp here with rfl | behind
      · exact new
      · exact holds.regions e
          (split ▸ List.mem_append_right _ (List.mem_cons_of_mem _ behind))

theorem Holds.folded (lasting : Lasting property) (holds : s.Holds property)
    {nested older : Arena} {host : Entry} (split : s.arena = nested ++ host :: older) :
    (s.folded nested host older).Holds property := by
  have each : ∀ e ∈ nested, e.region.Holds property := fun e member =>
    holds.regions e (split ▸ List.mem_append_left _ member)
  constructor
  · intro e member
    rcases List.mem_cons.mp member with rfl | old
    · apply lasting.extend (holds.entry split)
      exact lasting.flatMap fun e inNested =>
        lasting.shownText (each e (List.mem_reverse.mp inNested))
    · exact holds.regions e (split ▸ List.mem_append_right _ (List.mem_cons_of_mem _ old))
  · intro text member
    rcases List.mem_append.mp member with new | old
    · obtain ⟨e, inNested, rfl⟩ := List.mem_map.mp new
      exact lasting.leftOut (each e inNested)
    · exact holds.lost text old

/-- Every edit keeps what the regions hold. -/
theorem Edit.holds (lasting : Lasting property) (edit : Edit s s') (holds : s.Holds property) :
    s'.Holds property := by
  cases edit with
  | control same =>
      simp only [content, Prod.mk.injEq] at same
      obtain ⟨arena, -, -, -, -, -, lost, -⟩ := same
      exact ⟨by rw [arena]; exact holds.regions, by rw [lost]; exact holds.lost⟩
  | push tag => exact { holds.push (lasting.ofTag tag) with }
  | endParagraph => exact { holds.push (lasting.ofTag .paragraphEnd) with }
  | beginParagraph => exact { holds.push (lasting.ofTag .paragraphBegin) with }
  | write split uncaptioned inline =>
      have added := lasting.extend (holds.entry split) (lasting.inline inline)
      exact { holds.replace split added with }
  | describe split uncaptioned known still =>
      have old := holds.entry split
      exact holds.replace split ⟨old.inner, known old.attributes⟩
  | @caption newer older entry split ended uncaptioned attributes known captioned =>
      have image := holds.entry split
      have described : Holds property { s with
          arena := newer ++
            { entry with region := { entry.region with attributes := attributes } } :: older } :=
        holds.replace split ⟨image.inner, known image.attributes⟩
      exact described.push (lasting.extend (lasting.ofTag .caption) image.inner)
  | fold split uncaptioned => exact holds.folded lasting split
  | @openRegion tag closed openable region => exact { holds.push (lasting.ofTag tag) with }
  | openInline => exact { holds with }
  | forget tag => exact { holds with }

theorem root_holds (lasting : Lasting property) (source : Text) : (root source).Holds property := by
  have empty : Holds property { rest := source.normalizeBreaks } :=
    ⟨fun e member => absurd member List.not_mem_nil, fun t member => absurd member List.not_mem_nil⟩
  exact empty.push (lasting.ofTag .sectionBegin)

theorem Edits.holds {source : Text} (lasting : Lasting property) (edits : Edits (root source) s) :
    s.Holds property :=
  (edits.keeps (fun _ _ edit _ holds => edit.holds lasting holds) (root_sound source)
    (root_holds lasting source)).2

theorem Holds.mem_regions (holds : s.Holds property) {region : Region}
    (member : region ∈ s.regions) : region.Holds property := by
  obtain ⟨e, entryMember, rfl⟩ := List.mem_map.mp (List.mem_reverse.mp member)
  exact holds.regions e entryMember

end Scan

end MarkPress
