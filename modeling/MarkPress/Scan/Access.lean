/-
Module: MarkPress.Scan.Access
Purpose: Reaching the regions of a scan by their positions.
  Positions are numbers, counted from zero at the oldest region. A number that is not the position
  of a region, be it too large, negative or a fraction, is out of range.
Main exports:
  Scan.regionAt, Scan.appendAt
-/
import MarkPress.Number.Shortest
import MarkPress.Scan.State

namespace MarkPress.Scan

/-- The place of a position in the arena, which begins with the newest region. -/
def placeOf? (s : Scan) (position : Binary64) : Option Nat :=
  match position.toNat? with
  | none => none
  | some n => if n < s.arena.length then some (s.arena.length - 1 - n) else none

/-- The entry at a position with its place. -/
def entryAt (s : Scan) (position : Binary64) : Except RegionError (Nat × Entry) :=
  match (s.placeOf? position).bind fun place => s.arena[place]?.map fun entry => (place, entry) with
  | some found => .ok found
  | none => .error (.outOfRange position.toText)

/-- The region at a position. -/
def regionAt (s : Scan) (position : Binary64) : Except RegionError Region := do
  let (_, entry) ← s.entryAt position
  return entry.region

/-- Add text to the region at a position. -/
def appendAt (s : Scan) (position : Binary64) (text : Text) : Except RegionError Scan := do
  let (place, entry) ← s.entryAt position
  let region ← entry.region.append text
  return { s with arena := s.arena.set place { entry with region := region } }

end MarkPress.Scan
