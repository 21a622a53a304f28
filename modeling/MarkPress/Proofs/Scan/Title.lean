/-
Module: MarkPress.Proofs.Scan.Title
Purpose: Scans on the line of a heading.
  Behind a heading stand the regions inside of it that are open, and behind these the ones that have
  ended and wait to be folded. The heading begins with its anchor, and the tags of anchors in it can
  be followed up to where the scan is. Only the outermost region inside of a heading may be a link,
  so no link is ever folded into anything but the heading.
Main exports:
  Title, Anchored, Scan.Within, Scan.OnLine, Within.leave, OnLine.put, OnLine.putLiteral
-/
import MarkPress.Proofs.Render.Insets
import MarkPress.Proofs.Scan.Headings

namespace MarkPress

open Html

/-! ### The content of a heading -/

/-- A heading that a scan is inside of, with the regions before it. -/
structure Title where
  tag : Tag
  isHeading : tag.isHeading = true
  /-- The name of the heading. -/
  id : Text
  serial : Nat
  before : Scan.Arena

namespace Title

variable (title : Title)

/-- The region of the heading with its content. -/
def entry (content : Text) : Scan.Entry :=
  ⟨title.serial, (Region.ofTag title.tag).extend content⟩

theorem not_inset : title.tag ∉ Tag.insets := by
  have all : ∀ t ∈ Tag.insets, t.isHeading = false := by decide
  intro member
  have other := all _ member
  rw [title.isHeading] at other
  cases other

theorem uncaptioned (content : Text) : (title.entry content).region.isCaptioned = false := by
  have all : ∀ t ∈ Tag.all, t.isHeading = true → t ∉ Tag.images := by decide
  have noImage : (title.entry content).region.tag ∉ Tag.images :=
    all _ title.tag.mem_all title.isHeading
  simp [Region.isCaptioned, noImage]

end Title

namespace Scan

theorem anchorHalf_openTag (id : Text) : anchorHalf id = Element.a.openTag
    (Dictionary.ofList [("href".toList, some ('#' :: id)), ("id".toList, some id)]) :=
  List.append_nil _

theorem tokenized_anchorHalf (id : Text) : Tokenized (anchorHalf id) := by
  have named := Tag.name_mem_elementNames (rfl : Tag.anchor.traits.element = some .a)
  rw [anchorHalf_openTag]
  exact tokenized_openTag named (anchor_known id)

theorem anchorTags_anchorHalf (id : Text) : anchorTags (anchorHalf id) = [true] := by
  rw [anchorHalf_openTag]
  exact anchorTags_openTag (anchor_known id) (List.cons_ne_nil _ _)

end Scan

/-- The content of a heading: tokens, the anchor with its name first. The tags of anchors in it lead
from outside of an anchor into one or to the outside. -/
structure Anchored (id : Text) (anchorOpen : Bool) (content : Text) : Prop where
  begins : Scan.anchorHalf id <+: content
  tokenized : Tokenized content
  followed : (anchorTags content).foldlM crossTag false = some anchorOpen

namespace Anchored

variable {id content text : Text} {anchorOpen after : Bool}

theorem append (anchored : Anchored id anchorOpen content) (tokenized : Tokenized text)
    (followed : (anchorTags text).foldlM crossTag anchorOpen = some after) :
    Anchored id after (content ++ text) where
  begins := List.prefix_append_of_prefix anchored.begins
  tokenized := anchored.tokenized.append tokenized
  followed := by
    rw [anchorTags_append anchored.tokenized, List.foldlM_append, anchored.followed]
    exact followed

/-- Text without anchors stands inside of an anchor as well as outside. -/
theorem append_free (anchored : Anchored id anchorOpen content) (tokenized : Tokenized text)
    (free : Free [.a] text) : Anchored id anchorOpen (content ++ text) :=
  anchored.append tokenized (by rw [anchorTags_of_free free]; rfl)

/-- The anchor ends. -/
theorem ends (anchored : Anchored id true content) :
    Anchored id false (content ++ Tag.anchor.closeHalf) := by
  refine anchored.append Tag.anchor.tokenized_closeHalf ?_
  rw [show Tag.anchor.closeHalf = Element.a.closeTag from rfl, anchorTags_closeTag]
  rfl

/-- A heading begins in its anchor. -/
theorem begin (id : Text) : Anchored id true (Scan.anchorHalf id) where
  begins := List.prefix_rfl
  tokenized := Scan.tokenized_anchorHalf id
  followed := by rw [Scan.anchorTags_anchorHalf]; rfl

theorem anchorTags_ne_nil (anchored : Anchored id anchorOpen content) : anchorTags content ≠ [] := by
  obtain ⟨behind, rfl⟩ := anchored.begins
  rw [anchorTags_append (Scan.tokenized_anchorHalf id), Scan.anchorTags_anchorHalf]
  exact List.cons_ne_nil _ _

end Anchored

namespace Scan

variable {title : Title} {cut front : Arena} {content text : Text} {s s' : Scan}

/-! ### The line of a heading -/

/-- An entry of an open region as such. -/
def Entry.opening (entry : Entry) : OpenRegion := ⟨entry.tag, entry.serial⟩

/-- A scan on the line of a heading, with what is open inside of the heading and what has ended
there. -/
structure Within (title : Title) (cut front : Arena) (content : Text) (s : Scan) : Prop where
  arena : s.arena = cut ++ front ++ title.entry content :: title.before
  regions : s.openRegions = front.map Entry.opening ++ [⟨title.tag, title.serial⟩]
  /-- The heading was opened before everything that is open. -/
  first : ∃ newer, s.opened = newer ++ [⟨title.tag, some title.serial⟩]
  insets : ∀ e ∈ cut ++ front, e.region.Inset
  /-- Only the outermost region inside of the heading may be a link. -/
  others : ∀ e ∈ (cut ++ front).dropLast, e.tag ≠ .link
  anchored : Anchored title.id s.headingAnchorOpen content
  outside : s.listLevel = 0
  solid : s.lineBlank = false
  line : '\n' ∉ s.rest

/-- A scan on the line of a heading where nothing waits to be folded. -/
def OnLine (title : Title) (s : Scan) : Prop :=
  ∃ front content, s.Within title [] front content

namespace Within

/-- Changes to other flags and less text to read leave a scan where it is. -/
theorem flags (within : s.Within title cut front content) (arena : s'.arena = s.arena)
    (opened : s'.opened = s.opened) (anchor : s'.headingAnchorOpen = s.headingAnchorOpen)
    (listLevel : s'.listLevel = s.listLevel) (lineBlank : s'.lineBlank = s.lineBlank)
    (rest : ∀ c ∈ s'.rest, c ∈ s.rest) : s'.Within title cut front content where
  arena := arena.trans within.arena
  regions := (openRegions_congr opened).trans within.regions
  first := by rw [opened]; exact within.first
  insets := within.insets
  others := within.others
  anchored := by rw [anchor]; exact within.anchored
  outside := listLevel.trans within.outside
  solid := lineBlank.trans within.solid
  line := fun member => within.line (rest _ member)

/-- The region opened last, with what stands behind it. -/
theorem newest (within : s.Within title cut front content) :
    ∃ host older tag others, s.arena = cut ++ host :: older
      ∧ s.openRegions = ⟨tag, host.serial⟩ :: others := by
  have arena := within.arena
  have regions := within.regions
  cases front with
  | nil => exact ⟨title.entry content, title.before, title.tag, [], by simpa using arena, regions⟩
  | cons e front => exact ⟨e, _, e.tag, _, by simpa using arena, regions⟩

theorem tag_of_front (within : s.Within title cut front content) {e : Entry} (member : e ∈ front) :
    e.tag ∈ Tag.insets :=
  (within.insets e (List.mem_append_right _ member)).tag

theorem ne_title (within : s.Within title cut front content) {e : Entry} (member : e ∈ front) :
    e.tag ≠ title.tag :=
  fun same => title.not_inset (same ▸ within.tag_of_front member)

/-- Text without anchors goes to the region opened last. -/
theorem put (within : s.Within title [] front content) (tokenized : Tokenized text)
    (free : Free [.a] text) : (s.put text).OnLine title := by
  have arena := within.arena
  have regions := within.regions
  cases front with
  | nil =>
      refine ⟨[], content ++ text, { within with arena := ?_, anchored := ?_ }⟩
      · rw [Scan.put, arena]
        simp only [List.nil_append, Title.entry, Region.extend_extend]
      · exact within.anchored.append_free tokenized free
  | cons e front =>
      let filled : Entry := { e with region := e.region.extend text }
      have insets := List.forall_mem_cons.mp within.insets
      have others := within.others
      refine ⟨filled :: front, content, { within with arena := ?_, insets := ?_, others := ?_ }⟩
      · rw [Scan.put, arena]
        rfl
      · exact List.forall_mem_cons.mpr ⟨insets.1.extend tokenized free, insets.2⟩
      · cases front with
        | nil => exact List.forall_mem_nil _
        | cons next front =>
            rw [List.nil_append, List.dropLast_cons_cons] at others ⊢
            exact List.forall_mem_cons.mpr (List.forall_mem_cons.mp others)

/-- What has ended inside of the heading itself is folded into it. If a link is among it, the anchor
ends before. -/
theorem leave_title (within : s.Within title cut [] content) (sound : s.Sound) {serial : Nat}
    (among : serial ∈ cut.map Entry.serial) :
    ∃ s', s.leave (some serial) = .ok s' ∧ s'.OnLine title
      ∧ s'.arena.map Entry.serial = (title.entry content :: title.before).map Entry.serial := by
  have split : s.arena = cut ++ title.entry content :: title.before := by
    simpa using within.arena
  have insets : ∀ e ∈ cut, e.region.Inset := by simpa using within.insets
  have others : ∀ e ∈ cut.dropLast, e.tag ≠ .link := by simpa using within.others
  have tokenized := tokenized_shown insets
  have followed := followed_shown insets others
  have left : s.leave (some serial) = s.fold ⟨title.tag, title.serial⟩ :=
    leave_into_eq sound split among within.regions
  rw [left]
  cases ending : s.endsAnchor title.tag cut with
  | false =>
      refine ⟨_, fold_into_eq sound split ending, ⟨[], _, { within with
        arena := by
          simp only [folded, Title.entry, Region.extend_extend]
          rfl
        insets := List.forall_mem_nil _
        others := List.forall_mem_nil _
        anchored := ?_ }⟩, rfl⟩
      refine within.anchored.append tokenized ?_
      change _ = some s.headingAnchorOpen
      cases anchor : s.headingAnchorOpen with
      | false => exact followed
      | true =>
          -- the anchor stays open because no link is among what has ended
          have noLink : ∀ e ∈ cut, e.tag ≠ .link := by
            rw [endsAnchor, anchor, title.isHeading, Bool.true_and, Bool.true_and,
              List.any_eq_false] at ending
            intro e member
            have differs : e.region.tag ≠ .link := by simpa using ending e member
            exact differs
          rw [anchorTags_of_free (free_shown insets noLink)]
          rfl
  | true =>
      have anchor : s.headingAnchorOpen = true := by
        rw [endsAnchor, Bool.and_eq_true, Bool.and_eq_true] at ending
        exact ending.1.1
      have anchored := within.anchored
      rw [anchor] at anchored
      refine ⟨_, fold_ends_eq sound split (title.uncaptioned content) ending, ⟨[], _, { within with
        arena := by
          simp only [folded, Title.entry, Region.extend_extend]
          rfl
        insets := List.forall_mem_nil _
        others := List.forall_mem_nil _
        anchored := anchored.ends.append tokenized followed }⟩, rfl⟩

/-- What has ended inside of a region that is open is folded into that. -/
theorem leave_inset {e : Entry} (within : s.Within title cut (e :: front) content) (sound : s.Sound)
    {serial : Nat} (among : serial ∈ cut.map Entry.serial) :
    ∃ s', s.leave (some serial) = .ok s' ∧ s'.OnLine title ∧ s'.arena.map Entry.serial
      = (e :: front ++ title.entry content :: title.before).map Entry.serial := by
  have split : s.arena = cut ++ e :: (front ++ title.entry content :: title.before) := by
    simpa using within.arena
  have notHeading : e.tag.isHeading = false := by
    have all : ∀ t ∈ Tag.insets, t.isHeading = false := by decide
    exact all _ (within.tag_of_front List.mem_cons_self)
  have stays : s.endsAnchor e.tag cut = false := by simp [endsAnchor, notHeading]
  have cutInsets : ∀ c ∈ cut, c.region.Inset := fun c member =>
    within.insets c (List.mem_append_left _ member)
  have openInsets := List.forall_mem_cons.mp fun c member =>
    within.insets c (List.mem_append_right cut member)
  have others := within.others
  rw [List.dropLast_append_of_ne_nil (List.cons_ne_nil e front)] at others
  have noLink : ∀ c ∈ cut, c.tag ≠ .link := fun c member =>
    others c (List.mem_append_left _ member)
  let filled : Entry := { e with
    region := e.region.extend (cut.reverse.flatMap fun c => c.region.shownText) }
  have left : s.leave (some serial) = s.fold ⟨e.tag, e.serial⟩ :=
    leave_into_eq sound split among within.regions
  rw [left]
  refine ⟨_, fold_into_eq sound split stays, ⟨filled :: front, content, { within with
    arena := rfl
    insets := ?_
    others := ?_ }⟩, by simp [folded]⟩
  · exact List.forall_mem_cons.mpr ⟨openInsets.1.extend (tokenized_shown cutInsets)
      (free_shown cutInsets noLink), openInsets.2⟩
  · cases front with
    | nil => exact List.forall_mem_nil _
    | cons next front =>
        have older := fun c member => others c (List.mem_append_right cut member)
        rw [List.dropLast_cons_cons] at older
        rw [List.nil_append, List.dropLast_cons_cons]
        exact List.forall_mem_cons.mpr (List.forall_mem_cons.mp older)

/-- What has ended on the line is folded into the region opened last. -/
theorem leave (within : s.Within title cut front content) (sound : s.Sound) {serial : Nat}
    (among : serial ∈ cut.map Entry.serial) :
    ∃ s', s.leave (some serial) = .ok s' ∧ s'.OnLine title ∧ s'.arena.map Entry.serial
      = (front ++ title.entry content :: title.before).map Entry.serial := by
  cases front with
  | nil => exact within.leave_title sound among
  | cons e front => exact within.leave_inset sound among

end Within

namespace OnLine

theorem flags (onLine : s.OnLine title) (arena : s'.arena = s.arena)
    (opened : s'.opened = s.opened) (anchor : s'.headingAnchorOpen = s.headingAnchorOpen)
    (listLevel : s'.listLevel = s.listLevel) (lineBlank : s'.lineBlank = s.lineBlank)
    (rest : ∀ c ∈ s'.rest, c ∈ s.rest) : s'.OnLine title := by
  obtain ⟨front, content, within⟩ := onLine
  exact ⟨front, content, within.flags arena opened anchor listLevel lineBlank rest⟩

theorem advance (onLine : s.OnLine title) (n : Nat) : (s.advance n).OnLine title :=
  onLine.flags rfl rfl rfl rfl rfl fun _ member => List.mem_of_mem_drop member

theorem put (onLine : s.OnLine title) (tokenized : Tokenized text) (free : Free [.a] text) :
    (s.put text).OnLine title := by
  obtain ⟨front, content, within⟩ := onLine
  exact within.put tokenized free

theorem put_plain (onLine : s.OnLine title) (plain : ∀ c ∈ text, c ≠ '<' ∧ c ≠ '>') :
    (s.put text).OnLine title :=
  onLine.put (tokenized_of_plain plain) (free_plain fun member => (plain _ member).1 rfl)

theorem spaced (onLine : s.OnLine title) : s.spaced.OnLine title := by
  have cleared : OnLine title { s with pendingSpace := false } :=
    onLine.flags rfl rfl rfl rfl rfl fun _ => id
  rw [Scan.spaced]
  split
  · split
    · exact cleared
    · exact cleared.put_plain (by simp)
  · exact onLine

theorem putLiteral (onLine : s.OnLine title) (c : Char) : (s.putLiteral c).OnLine title := by
  have wrote : (s.spaced.put (escapeText [c])).OnLine title :=
    onLine.spaced.put_plain plain_escapeText
  exact wrote.flags rfl rfl rfl rfl rfl fun _ => id

end OnLine

end Scan

end MarkPress
