/-
Module: MarkPress.Scan.State
Purpose: The state of a scan that turns a source text into a sequence of regions.
  Text always goes to the newest region. Paragraphs and sections are marked by regions of their own,
  so nesting shows only in the order of the regions. A region tag that closes while another region
  is open is rendered into that other region, its host.
Main exports:
  OpenTag, Scan, Halt, Outcome, Scan.regions, Scan.current, Scan.isActive, Scan.regionOf,
  Scan.changeCurrent, Scan.changeRegion, Scan.write, Scan.writeTo, Scan.push
-/
import MarkPress.Scan.Arena
import MarkPress.Slug.Anchor
import MarkPress.Text.Blank

namespace MarkPress

/-- A tag that has begun and not ended, with the number of its region if it has one. -/
structure OpenTag where
  tag : Tag
  region : Option Nat := none
deriving Repr, Inhabited, DecidableEq

/-- What a scan knows between two steps. -/
structure Scan where
  /-- The source text that has not been read. -/
  rest : Text
  /-- The regions so far, the newest first. -/
  arena : Scan.Arena := []
  /-- Regions that were open when a fold took them out of the arena. -/
  detached : Scan.Arena := []
  /-- The number for the next region. -/
  nextSerial : Nat := 0
  /-- The open tags, the one opened last first. -/
  opened : List OpenTag := []
  /-- The open tag that keeps every other delimiter from counting. -/
  exclusive : Option Tag := none
  /-- Whether a backslash stands directly before the next character. -/
  escaped : Bool := false
  /-- The number of line breaks since the last visible character. -/
  blankRun : Nat := 0
  /-- Whether no visible character has stood on the line so far. -/
  lineBlank : Bool := true
  /-- The width of the white space before the first visible character of the line. -/
  indent : Nat := 0
  /-- The number of lists that are open inside each other. -/
  listLevel : Nat := 0
  /-- Whether white space has been read that is not written yet. -/
  pendingSpace : Bool := false
  /-- Whether nothing has been written since the current block began. -/
  atBlockStart : Bool := true
  /-- Whether white space is dropped, as behind the delimiter of a heading. -/
  skipWhitespace : Bool := false
  paragraphOpen : Bool := false
  /-- Whether the fence of a code block has just been read. -/
  afterFence : Bool := false
  /-- The number of brackets open in the caption of an image. -/
  bracketDepth : Nat := 0
  headingAnchorOpen : Bool := false
  finished : Bool := false
  /-- The names given to headings, the latest first. -/
  anchorIds : List Text := []
  /-- Everything written so far, the latest first. -/
  written : List Text := []
  /-- What folding has left out of the output so far, the latest first. -/
  lost : List Text := []
  /-- The number of paragraph ends that came while no paragraph was open. -/
  surplusEnds : Nat := 0
deriving Repr, Inhabited, DecidableEq

/-- A scan that stopped on an error, in the state that the failing step had reached. -/
structure Halt where
  error : RegionError
  state : Scan
deriving Repr, Inhabited, DecidableEq

/-- The state after a step that may fail. -/
abbrev Outcome := Except Halt Scan

namespace Scan

/-- The regions in the order in which they were made. -/
def regions (s : Scan) : List Region := (s.arena.map Entry.region).reverse

/-- The newest region, or the error that there is none. -/
def current (s : Scan) : Except Halt Region :=
  match s.arena with
  | [] => .error ⟨.outOfRange "-1".toList, s⟩
  | entry :: _ => .ok entry.region

/-- Whether a tag is open. -/
def isActive (s : Scan) (tag : Tag) : Bool := s.opened.any fun o => o.tag == tag

/-- Whether the region of a number belongs to an open tag. -/
def isOpen (s : Scan) (serial : Nat) : Bool := s.opened.any fun o => o.region == some serial

/-- The region of a number, in the arena or detached from it. -/
def regionOf (s : Scan) (serial : Nat) : Option Region :=
  (s.arena.get? serial).or (s.detached.get? serial)

/-- Change the newest region. -/
def changeCurrent (f : Region → Except RegionError Region) (s : Scan) : Outcome :=
  match s.arena with
  | [] => .error ⟨.outOfRange "-1".toList, s⟩
  | entry :: older =>
      match f entry.region with
      | .ok region => .ok { s with arena := { entry with region := region } :: older }
      | .error error => .error ⟨error, s⟩

/-- Change the region of a number, in the arena or detached from it. -/
def changeRegion (serial : Nat) (f : Region → Except RegionError Region) (s : Scan) : Outcome :=
  match s.regionOf serial with
  | none => .ok s
  | some old =>
      match f old with
      | .ok region =>
          .ok { s with
            arena := s.arena.update serial fun _ => region
            detached := s.detached.update serial fun _ => region }
      | .error error => .error ⟨error, s⟩

/-- Write text into the newest region. -/
def write (text : Text) (s : Scan) : Outcome := do
  let s ← s.changeCurrent fun region => region.append text
  return { s with written := text :: s.written }

/-- Write text into the region of a number. -/
def writeTo (serial : Nat) (text : Text) (s : Scan) : Outcome := do
  let s ← s.changeRegion serial fun region => region.append text
  return { s with written := text :: s.written }

/-- Make a region the newest one. -/
def pushRegion (region : Region) (s : Scan) : Scan :=
  { s with arena := ⟨s.nextSerial, region⟩ :: s.arena, nextSerial := s.nextSerial + 1 }

/-- Make a new region of a tag the newest one. -/
def push (tag : Tag) (s : Scan) : Scan := s.pushRegion (Region.ofTag tag)

/-- Leave out a number of characters of the source. -/
def advance (n : Nat) (s : Scan) : Scan := { s with rest := s.rest.drop n }

end Scan

end MarkPress
