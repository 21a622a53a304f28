/-
Module: MarkPress.Proofs.Scan.Frame
Purpose: Scans inside of a frame: older regions before the first one, and a text behind the source.
  A scan knows its regions by numbers, and reads no further than the line it stands on. So what it
  does inside of a frame, with its numbers shifted, follows what it does alone: it goes to the same
  state inside of the frame or stops on the same error. This module has the operations that write
  text and make regions.
Main exports:
  Frame, Scan.inside, Scan.Grounded, Scan.Steady, Scan.Follows, Follows.bind, Frame.Firm,
  Grounded.inside, Frame.line, changeRegion_follows, write_follows, appendLiteral_follows,
  setListLevel_follows
-/
import MarkPress.Proofs.Scan.Layout

namespace MarkPress

namespace Scan

/-- What stands around a scan: regions that are older than its own, and a text behind its source. -/
structure Frame where
  older : Arena := []
  shift : Nat := 0
  behind : Text := []
  written : List Text := []
  lost : List Text := []
  surplusEnds : Nat := 0
  below : ∀ entry ∈ older, entry.serial < shift

/-- The text behind the source begins on the next line. -/
def Frame.Breaks (frame : Frame) : Prop := ∀ c ∈ frame.behind.head?, c = '\n'

def Entry.renumber (shift : Nat) (entry : Entry) : Entry :=
  { entry with serial := shift + entry.serial }

end Scan

def OpenTag.renumber (shift : Nat) (o : OpenTag) : OpenTag :=
  { o with region := o.region.map (shift + ·) }

def OpenRegion.renumber (shift : Nat) (o : OpenRegion) : OpenRegion :=
  { o with serial := shift + o.serial }

namespace Scan

variable {frame : Frame} {s s' : Scan} {post mid : Scan → Prop} {naming : Prop}

/-! ### Numbers in a frame -/

namespace Arena

variable (shift : Nat) (arena : Arena) (serial : Nat)

/-- An arena under shifted numbers. -/
def renumber : Arena := arena.map (Entry.renumber shift)

theorem holds_renumber : (arena.renumber shift).holds (shift + serial) = arena.holds serial := by
  simp only [holds, renumber, List.any_map]
  congr 1
  funext entry
  simp [Entry.renumber, Bool.beq_eq_decide_eq]

theorem get?_renumber : (arena.renumber shift).get? (shift + serial) = arena.get? serial := by
  induction arena with
  | nil => rfl
  | cons entry older ih =>
      simp only [renumber, List.map_cons, get?, Entry.renumber, Nat.add_left_cancel_iff]
      split
      · rfl
      · exact ih

theorem update_renumber (f : Region → Region) :
    (arena.renumber shift).update (shift + serial) f = (arena.update serial f).renumber shift := by
  simp only [update, renumber, List.map_map]
  apply List.map_congr_left
  intro entry _
  simp only [Function.comp_apply, Entry.renumber, Nat.add_left_cancel_iff]
  split <;> rfl

theorem above_renumber :
    (arena.renumber shift).above (shift + serial) = (arena.above serial).renumber shift := by
  simp only [above, renumber, List.takeWhile_map]
  congr 2
  funext entry
  simp [Entry.renumber, bne, Nat.add_left_cancel_iff]

theorem downTo_renumber :
    (arena.renumber shift).downTo (shift + serial) = (arena.downTo serial).renumber shift := by
  simp only [downTo, renumber, List.dropWhile_map]
  congr 2
  funext entry
  simp [Entry.renumber, bne, Nat.add_left_cancel_iff]

variable {arena serial}

theorem get?_of_absent (absent : serial ∉ arena.map Entry.serial) : arena.get? serial = none := by
  induction arena with
  | nil => rfl
  | cons entry older ih =>
      simp only [List.map_cons, List.mem_cons, not_or] at absent
      rw [get?, if_neg (Ne.symm absent.1), ih absent.2]

theorem above_append_of_holds {left : Arena} (held : left.holds serial = true) (right : Arena) :
    above (left ++ right) serial = left.above serial := by
  induction left with
  | nil => cases held
  | cons entry rest ih =>
      by_cases here : entry.serial = serial
      · simp [above, here]
      · have later : holds rest serial = true := by simpa [holds, here] using held
        have others := ih later
        simp only [above] at others
        simp [above, here, others]

theorem downTo_append_of_holds {left : Arena} (held : left.holds serial = true) (right : Arena) :
    downTo (left ++ right) serial = left.downTo serial ++ right := by
  induction left with
  | nil => cases held
  | cons entry rest ih =>
      by_cases here : entry.serial = serial
      · simp [downTo, here]
      · have later : holds rest serial = true := by simpa [holds, here] using held
        have others := ih later
        simp only [downTo] at others
        simp [downTo, here, others]

end Arena

namespace Frame

variable (frame : Frame) (arena : Arena) (serial : Nat)

/-- An arena behind the older regions of a frame. -/
def around : Arena := arena.renumber frame.shift ++ frame.older

theorem not_holds_older : frame.older.holds (frame.shift + serial) = false := by
  apply Bool.eq_false_iff.mpr
  intro held
  obtain ⟨entry, member, same⟩ := List.mem_map.mp (Arena.holds_iff.mp held)
  have below := frame.below entry member
  omega

theorem not_mem_older : frame.shift + serial ∉ frame.older.map Entry.serial := by
  intro member
  have held := Arena.holds_iff.mpr member
  rw [frame.not_holds_older] at held
  cases held

theorem get?_older : frame.older.get? (frame.shift + serial) = none :=
  Arena.get?_of_absent (frame.not_mem_older serial)

theorem holds_around : (frame.around arena).holds (frame.shift + serial) = arena.holds serial := by
  have older := frame.not_holds_older serial
  have own := arena.holds_renumber frame.shift serial
  simp only [Arena.holds] at older own ⊢
  rw [around, List.any_append, older, own, Bool.or_false]

theorem get?_around : (frame.around arena).get? (frame.shift + serial) = arena.get? serial := by
  rw [around, Arena.get?_append, Arena.get?_renumber, frame.get?_older, Option.or_none]

theorem update_around (f : Region → Region) :
    (frame.around arena).update (frame.shift + serial) f
      = frame.around (arena.update serial f) := by
  rw [around, Arena.update_append, Arena.update_renumber,
    Arena.update_of_absent (frame.not_mem_older serial), around]

variable {arena serial}

theorem above_around (held : arena.holds serial = true) :
    (frame.around arena).above (frame.shift + serial)
      = (arena.above serial).renumber frame.shift := by
  rw [← Arena.above_renumber, around, Arena.above_append_of_holds]
  rw [Arena.holds_renumber, held]

theorem downTo_around (held : arena.holds serial = true) :
    (frame.around arena).downTo (frame.shift + serial) = frame.around (arena.downTo serial) := by
  rw [around, Arena.downTo_append_of_holds, Arena.downTo_renumber, around]
  rw [Arena.holds_renumber, held]

end Frame

/-- A scan inside of a frame. -/
def inside (frame : Frame) (s : Scan) : Scan :=
  { s with
    rest := s.rest ++ frame.behind
    arena := frame.around s.arena
    detached := s.detached.renumber frame.shift
    nextSerial := frame.shift + s.nextSerial
    opened := s.opened.map (OpenTag.renumber frame.shift)
    written := s.written ++ frame.written
    lost := s.lost ++ frame.lost
    surplusEnds := frame.surplusEnds + s.surplusEnds }

theorem tags_inside (frame : Frame) (s : Scan) :
    (s.inside frame).opened.map OpenTag.tag = s.opened.map OpenTag.tag := by
  simp only [inside, List.map_map]
  rfl

theorem isActive_inside (frame : Frame) (s : Scan) (tag : Tag) :
    (s.inside frame).isActive tag = s.isActive tag := by
  simp only [isActive, inside, List.any_map]
  rfl

theorem openRegions_inside (frame : Frame) (s : Scan) :
    (s.inside frame).openRegions = s.openRegions.map (OpenRegion.renumber frame.shift) := by
  simp only [openRegions, inside, List.filterMap_map, List.map_filterMap]
  congr 1
  funext o
  obtain ⟨tag, region⟩ := o
  cases region <;> rfl

theorem isOpen_inside (frame : Frame) (s : Scan) (serial : Nat) :
    (s.inside frame).isOpen (frame.shift + serial) = s.isOpen serial := by
  simp only [isOpen, inside, List.any_map]
  congr 1
  funext o
  obtain ⟨tag, region⟩ := o
  cases region with
  | none => rfl
  | some number => simp [OpenTag.renumber, Bool.beq_eq_decide_eq]

theorem serialOf_inside (frame : Frame) (s : Scan) (tag : Tag) :
    (s.inside frame).serialOf tag = (s.serialOf tag).map (frame.shift + ·) := by
  simp only [serialOf, inside, List.find?_map]
  have same : (fun o : OpenTag => decide (o.tag = tag)) ∘ OpenTag.renumber frame.shift
      = fun o => decide (o.tag = tag) := rfl
  rw [same]
  cases s.opened.find? fun o => decide (o.tag = tag) <;> rfl

theorem regionOf_inside (frame : Frame) (s : Scan) (serial : Nat) :
    (s.inside frame).regionOf (frame.shift + serial) = s.regionOf serial := by
  simp only [regionOf, inside, frame.get?_around, Arena.get?_renumber]

theorem forget_inside (frame : Frame) (s : Scan) (tag : Tag) :
    (s.inside frame).forget tag = (s.forget tag).inside frame := by
  simp only [forget, inside, List.filter_map]
  rfl

theorem hostOf_inside (frame : Frame) (s : Scan) (region : Option Nat) :
    (s.inside frame).hostOf (region.map (frame.shift + ·))
      = (s.hostOf region).map (OpenRegion.renumber frame.shift) := by
  cases region with
  | none =>
      simp only [hostOf, Option.map_none, openRegions_inside, List.head?_map]
  | some serial =>
      have held : ∀ number, (s.inside frame).arena.holds (frame.shift + number)
          = s.arena.holds number := frame.holds_around s.arena
      simp only [hostOf, Option.map_some, openRegions_inside, held]
      split
      · rw [List.find?_map]
        congr 2
        funext o
        simp [OpenRegion.renumber, held]
      · rfl

/-! ### Following an operation inside of a frame -/

/-- The regions of a scan have numbers of their own, and the oldest one appears in the output. -/
structure Grounded (s : Scan) : Prop where
  distinct : (s.arena.map Entry.serial).Nodup
  fresh : ∀ entry ∈ s.arena, entry.serial < s.nextSerial
  root : ∃ label ∈ (s.arena.map Entry.label).getLast?, ∀ empty, label.2.isShown empty = true

/-- An operation reads nothing and leaves the lines of the source alone. It names no heading, unless
it may. -/
structure Steady (naming : Prop) (s s' : Scan) : Prop where
  rest : s'.rest = s.rest
  blankRun : s'.blankRun = s.blankRun
  lineBlank : s'.lineBlank = s.lineBlank
  escaped : s'.escaped = s.escaped
  anchorIds : ¬ naming → s'.anchorIds = s.anchorIds
  grounded : s'.Grounded

/-- What a steady operation leaves alone, apart from what is in the regions. -/
def footing (s : Scan) :=
  (s.rest, s.blankRun, s.lineBlank, s.escaped, s.anchorIds, s.arena, s.nextSerial)

/-- An outcome inside of a frame follows an outcome without it: it is the same error, or the same
state inside of the frame. -/
def Follows (frame : Frame) (post : Scan → Prop) : Outcome → Outcome → Prop
  | .ok s, .ok t => t = s.inside frame ∧ post s
  | .error halt, .error other => other.error = halt.error
  | _, _ => False

theorem Follows.bind {outcome framed : Outcome} (first : Follows frame mid outcome framed)
    {next next' : Scan → Outcome}
    (later : ∀ s, mid s → Follows frame post (next s) (next' (s.inside frame))) :
    Follows frame post (outcome >>= next) (framed >>= next') := by
  cases outcome with
  | ok s =>
      cases framed with
      | ok t =>
          obtain ⟨rfl, met⟩ := first
          exact later s met
      | error halt => exact first.elim
  | error halt =>
      cases framed with
      | ok t => exact first.elim
      | error other => exact first

theorem Follows.mono {outcome framed : Outcome} (follows : Follows frame mid outcome framed)
    (weaker : ∀ s, mid s → post s) : Follows frame post outcome framed := by
  cases outcome with
  | ok s =>
      cases framed with
      | ok t => exact ⟨follows.1, weaker s follows.2⟩
      | error halt => exact follows.elim
  | error halt =>
      cases framed with
      | ok t => exact follows.elim
      | error other => exact follows

theorem Follows.meets {outcome framed : Outcome} (follows : Follows frame post outcome framed) :
    Meets (fun _ => True) post outcome := by
  cases outcome with
  | ok s =>
      cases framed with
      | ok t => exact follows.2
      | error halt => exact follows.elim
  | error halt => trivial

theorem Follows.ok {t : Scan} (same : t = s.inside frame) (met : post s) :
    Follows frame post (.ok s) (.ok t) :=
  ⟨same, met⟩

namespace Steady

theorem refl (grounded : s.Grounded) : Steady naming s s :=
  ⟨rfl, rfl, rfl, rfl, fun _ => rfl, grounded⟩

theorem trans {s'' : Scan} (first : Steady naming s s') (later : Steady naming s' s'') :
    Steady naming s s'' where
  rest := later.rest.trans first.rest
  blankRun := later.blankRun.trans first.blankRun
  lineBlank := later.lineBlank.trans first.lineBlank
  escaped := later.escaped.trans first.escaped
  anchorIds noName := (later.anchorIds noName).trans (first.anchorIds noName)
  grounded := later.grounded

end Steady

/-- What is written into regions leaves them where they are. -/
theorem Grounded.of_labels (grounded : s.Grounded)
    (labels : s'.arena.map Entry.label = s.arena.map Entry.label)
    (nextSerial : s'.nextSerial = s.nextSerial) : s'.Grounded where
  distinct := by
    have serials := congrArg (List.map Prod.fst) labels
    simp only [List.map_map] at serials
    exact serials ▸ grounded.distinct
  fresh := by
    intro entry member
    have label : entry.label ∈ s.arena.map Entry.label := labels ▸ List.mem_map_of_mem member
    obtain ⟨old, oldMember, same⟩ := List.mem_map.mp label
    have serial : old.serial = entry.serial := congrArg Prod.fst same
    rw [nextSerial, ← serial]
    exact grounded.fresh old oldMember
  root := by
    rw [labels]
    exact grounded.root

/-- The regions of a frame have numbers of their own, and the oldest one appears in the output. -/
structure Frame.Firm (frame : Frame) : Prop where
  distinct : (frame.older.map Entry.serial).Nodup
  root : ∀ label ∈ (frame.older.map Entry.label).getLast?, ∀ empty, label.2.isShown empty = true

theorem Grounded.inside (grounded : s.Grounded) (firm : frame.Firm) :
    (s.inside frame).Grounded where
  distinct := by
    have own : ((s.arena.renumber frame.shift).map Entry.serial).Nodup := by
      have serials : (s.arena.renumber frame.shift).map Entry.serial
          = (s.arena.map Entry.serial).map (frame.shift + ·) := by
        simp only [Arena.renumber, List.map_map]
        rfl
      rw [serials]
      exact grounded.distinct.map fun _ _ => Nat.add_left_cancel
    have apart : ∀ a ∈ (s.arena.renumber frame.shift).map Entry.serial,
        ∀ b ∈ frame.older.map Entry.serial, a ≠ b := by
      intro a aMember b bMember
      obtain ⟨entry, member, rfl⟩ := List.mem_map.mp aMember
      obtain ⟨old, -, rfl⟩ := List.mem_map.mp member
      obtain ⟨older, olderMember, rfl⟩ := List.mem_map.mp bMember
      have below := frame.below older olderMember
      simp only [Entry.renumber]
      omega
    change ((s.arena.renumber frame.shift ++ frame.older).map Entry.serial).Nodup
    rw [List.map_append]
    exact List.nodup_append.mpr ⟨own, firm.distinct, apart⟩
  fresh := by
    intro entry member
    change entry.serial < frame.shift + s.nextSerial
    rcases List.mem_append.mp member with own | older
    · obtain ⟨old, oldMember, rfl⟩ := List.mem_map.mp own
      have fresh := grounded.fresh old oldMember
      simp only [Entry.renumber]
      omega
    · have below := frame.below entry older
      omega
  root := by
    have labels : (s.inside frame).arena.map Entry.label
        = (s.arena.renumber frame.shift).map Entry.label ++ frame.older.map Entry.label :=
      List.map_append
    rw [labels, List.getLast?_append]
    cases last : (frame.older.map Entry.label).getLast? with
    | some label => exact ⟨label, rfl, firm.root label last⟩
    | none =>
        obtain ⟨label, isLast, shown⟩ := grounded.root
        refine ⟨(frame.shift + label.1, label.2), ?_, shown⟩
        have renumbered : (s.arena.renumber frame.shift).map Entry.label
            = (s.arena.map Entry.label).map fun label => (frame.shift + label.1, label.2) := by
          simp only [Arena.renumber, List.map_map]
          rfl
        rw [Option.none_or, renumbered, List.getLast?_map, Option.mem_def.mp isLast]
        rfl

/-- A frame with a text behind the source and nothing else. -/
def Frame.line (behind : Text) : Frame := { behind := behind, below := by simp }

theorem Frame.line_firm (behind : Text) : (Frame.line behind).Firm where
  distinct := List.Pairwise.nil
  root := by simp [Frame.line]

/-- Changes to other flags keep a scan steady. -/
theorem Steady.flags {s'' : Scan} (steady : Steady naming s s') (same : s''.footing = s'.footing) :
    Steady naming s s'' := by
  have parts := same
  simp only [Scan.footing, Prod.mk.injEq] at parts
  obtain ⟨rest, blankRun, lineBlank, escaped, anchorIds, arena, nextSerial⟩ := parts
  exact steady.trans ⟨rest, blankRun, lineBlank, escaped, fun _ => anchorIds,
    steady.grounded.of_labels (by rw [arena]) nextSerial⟩

theorem Grounded.arena_ne_nil (grounded : s.Grounded) : s.arena ≠ [] := by
  obtain ⟨label, last, -⟩ := grounded.root
  intro none
  rw [none] at last
  cases last

theorem Follows.ite {c : Prop} [Decidable c] {yes yes' no no' : Outcome}
    (met : c → Follows frame post yes yes') (unmet : ¬ c → Follows frame post no no') :
    Follows frame post (if c then yes else no) (if c then yes' else no') := by
  split
  · exact met ‹_›
  · exact unmet ‹_›

/-- A step of a chain of operations, each of which is steady. -/
theorem Follows.step {outcome framed : Outcome}
    (first : Follows frame (Steady naming s) outcome framed) {next next' : Scan → Outcome}
    (later : ∀ s', s'.Grounded →
      Follows frame (Steady naming s') (next s') (next' (s'.inside frame))) :
    Follows frame (Steady naming s) (outcome >>= next) (framed >>= next') :=
  first.bind fun s₁ steady =>
    (later s₁ steady.grounded).mono fun _ further => steady.trans further

/-! ### Regions -/

theorem pushRegion_inside (frame : Frame) (s : Scan) (region : Region) :
    (s.inside frame).pushRegion region = (s.pushRegion region).inside frame := rfl

theorem push_inside (frame : Frame) (s : Scan) (tag : Tag) :
    (s.inside frame).push tag = (s.push tag).inside frame := rfl

theorem Grounded.pushRegion (grounded : s.Grounded) (region : Region) :
    (s.pushRegion region).Grounded where
  distinct := by
    refine List.nodup_cons.mpr ⟨fun member => ?_, grounded.distinct⟩
    obtain ⟨entry, entryMember, same⟩ := List.mem_map.mp member
    have old : entry.serial < s.nextSerial := grounded.fresh entry entryMember
    simp only at same
    omega
  fresh := by
    intro entry member
    rcases List.mem_cons.mp member with rfl | old
    · exact Nat.lt_succ_self _
    · exact Nat.lt_succ_of_lt (grounded.fresh entry old)
  root := by
    obtain ⟨label, last, shown⟩ := grounded.root
    refine ⟨label, ?_, shown⟩
    simp only [Scan.pushRegion, List.map_cons, List.getLast?_cons, Option.mem_def.mp last]
    rfl

theorem Steady.pushRegion (steady : Steady naming s s') (region : Region) :
    Steady naming s (s'.pushRegion region) :=
  steady.trans ⟨rfl, rfl, rfl, rfl, fun _ => rfl, steady.grounded.pushRegion region⟩

theorem Steady.push (steady : Steady naming s s') (tag : Tag) : Steady naming s (s'.push tag) :=
  steady.pushRegion _

/-- A change that keeps the tags of regions. -/
def KeepsTag (f : Region → Except RegionError Region) : Prop :=
  ∀ region after, f region = .ok after → after.tag = region.tag

theorem keepsTag_change {g : Region → Region} (same : ∀ region, (g region).tag = region.tag) :
    KeepsTag fun region => region.change g := by
  intro region after changed
  simp only [Region.change] at changed
  split at changed
  · cases changed
  · cases changed
    exact same region

theorem changeCurrent_follows (grounded : s.Grounded) {f : Region → Except RegionError Region}
    (keeps : KeepsTag f) :
    Follows frame (Steady naming s) (s.changeCurrent f) ((s.inside frame).changeCurrent f) := by
  cases split : s.arena with
  | nil => exact absurd split grounded.arena_ne_nil
  | cons entry older =>
      have framed : (s.inside frame).arena
          = entry.renumber frame.shift :: frame.around older := by
        simp only [inside, split]
        rfl
      simp only [changeCurrent, split, framed, Entry.renumber]
      cases changed : f entry.region with
      | ok region =>
          refine .ok rfl ⟨rfl, rfl, rfl, rfl, fun _ => rfl, grounded.of_labels ?_ rfl⟩
          have same : region.tag = entry.region.tag := keeps _ _ changed
          simp [split, Entry.label, Entry.tag, same]
      | error error => rfl

/-- In an arena with distinct numbers a region can be exchanged for one of its tag. -/
theorem Arena.labels_update {arena : Arena} (distinct : (arena.map Entry.serial).Nodup)
    {serial : Nat} {region : Region} (same : ∀ old ∈ arena.get? serial, region.tag = old.tag) :
    (arena.update serial fun _ => region).map Entry.label = arena.map Entry.label := by
  rw [update, List.map_map]
  apply List.map_congr_left
  intro entry member
  simp only [Function.comp_apply]
  split
  · rename_i here
    have found := Arena.get?_of_mem distinct member
    rw [here] at found
    simp only [Entry.label, Entry.tag, same entry.region found]
  · rfl

theorem changeRegion_follows (grounded : s.Grounded) (serial : Nat)
    {f : Region → Except RegionError Region} (keeps : KeepsTag f) :
    Follows frame (Steady naming s) (s.changeRegion serial f)
      ((s.inside frame).changeRegion (frame.shift + serial) f) := by
  simp only [changeRegion, regionOf_inside]
  cases found : s.regionOf serial with
  | none => exact .ok rfl (.refl grounded)
  | some old =>
      simp only
      cases changed : f old with
      | ok region =>
          refine .ok ?_ ⟨rfl, rfl, rfl, rfl, fun _ => rfl,
            grounded.of_labels (Arena.labels_update grounded.distinct ?_) rfl⟩
          · simp only [inside, frame.update_around, Arena.update_renumber]
          · intro held isHeld
            rw [regionOf, Option.mem_def.mp isHeld, Option.some_or, Option.some.injEq] at found
            rw [found]
            exact keeps old region changed
      | error error => rfl

/-! ### Writing -/

theorem keepsTag_append (text : Text) : KeepsTag fun region => region.append text :=
  keepsTag_change fun _ => rfl

theorem write_follows (grounded : s.Grounded) (text : Text) :
    Follows frame (Steady naming s) (s.write text) ((s.inside frame).write text) := by
  apply (changeCurrent_follows grounded (keepsTag_append text)).step
  intro s₁ grounded₁
  exact .ok rfl ((Steady.refl grounded₁).flags rfl)

theorem writeTo_follows (grounded : s.Grounded) (serial : Nat) (text : Text) :
    Follows frame (Steady naming s) (s.writeTo serial text)
      ((s.inside frame).writeTo (frame.shift + serial) text) := by
  apply (changeRegion_follows grounded serial (keepsTag_append text)).step
  intro s₁ grounded₁
  exact .ok rfl ((Steady.refl grounded₁).flags rfl)

theorem endParagraph_inside (frame : Frame) (s : Scan) :
    (s.inside frame).endParagraph = s.endParagraph.inside frame := by
  simp only [endParagraph, push_inside]
  by_cases isOpen : s.paragraphOpen
  · simp [inside, isOpen]
  · simp [inside, isOpen, Nat.add_assoc]

theorem Steady.endParagraph (steady : Steady naming s s') :
    Steady naming s s'.endParagraph :=
  (steady.push .paragraphEnd).flags rfl

theorem openParagraph_inside (frame : Frame) (s : Scan) :
    (s.inside frame).openParagraph = s.openParagraph.inside frame := by
  have ended : (if (s.inside frame).paragraphOpen then (s.inside frame).endParagraph
      else s.inside frame) = (if s.paragraphOpen then s.endParagraph else s).inside frame := by
    rw [endParagraph_inside]
    split <;> simp_all [inside]
  simp only [openParagraph, ended]
  rfl

theorem Steady.openParagraph (steady : Steady naming s s') :
    Steady naming s s'.openParagraph := by
  have ended : Steady naming s (if s'.paragraphOpen then s'.endParagraph else s') := by
    split
    · exact steady.endParagraph
    · exact steady
  have begun : Steady naming s
      { (if s'.paragraphOpen then s'.endParagraph else s').push .paragraphBegin with
        paragraphOpen := true } :=
    (ended.push .paragraphBegin).flags rfl
  exact (begun.push .text).flags rfl

theorem flushSpace_follows (grounded : s.Grounded) :
    Follows frame (Steady naming s) s.flushSpace (s.inside frame).flushSpace := by
  have cleared : Steady naming s { s with pendingSpace := false } :=
    (Steady.refl grounded).flags rfl
  refine .ite (fun _ => ?_) fun _ => .ok rfl (.refl grounded)
  refine .ite (fun _ => .ok rfl cleared) fun _ => ?_
  exact (write_follows cleared.grounded [' ']).mono fun _ => cleared.trans

theorem appendLiteral_follows (grounded : s.Grounded) (c : Char) :
    Follows frame (Steady naming s) (s.appendLiteral c) ((s.inside frame).appendLiteral c) := by
  apply (flushSpace_follows grounded).step
  intro s₁ grounded₁
  apply (write_follows grounded₁ _).step
  intro s₂ grounded₂
  exact .ok rfl ((Steady.refl grounded₂).flags rfl)

theorem setListLevel_follows (grounded : s.Grounded) (level : Nat) :
    Follows frame (Steady naming s) (s.setListLevel level)
      ((s.inside frame).setListLevel level) := by
  refine .ite (fun _ => .ok rfl (.refl grounded)) fun _ => ?_
  have entered : (if (s.inside frame).listLevel = 0 then (s.inside frame).endParagraph.push .text
      else s.inside frame)
        = (if s.listLevel = 0 then s.endParagraph.push .text else s).inside frame := by
    rw [endParagraph_inside, push_inside]
    exact (apply_ite (Scan.inside frame) (s.listLevel = 0) _ _).symm
  have steady : Steady naming s (if s.listLevel = 0 then s.endParagraph.push .text else s) := by
    split
    · exact (Steady.refl grounded).endParagraph.push .text
    · exact .refl grounded
  dsimp only
  rw [entered]
  generalize (if s.listLevel = 0 then s.endParagraph.push .text else s) = s₁ at steady
  have levelled : Steady naming s { s₁ with listLevel := level } := steady.flags rfl
  have wrote : Follows frame (Steady naming s)
      (write (levelChange s₁.listLevel level) { s₁ with listLevel := level })
      (write (levelChange s₁.listLevel level)
        { s₁.inside frame with listLevel := level }) :=
    (write_follows levelled.grounded _).mono fun _ => levelled.trans
  apply wrote.step
  intro s₂ grounded₂
  by_cases outside : level = 0
  · simp only [outside, if_true, openParagraph_inside]
    exact .ok rfl (Steady.refl grounded₂).openParagraph
  · simp only [outside, if_false]
    exact .ok rfl (.refl grounded₂)

end Scan

end MarkPress
