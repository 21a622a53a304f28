/-
Module: MarkPress.Scan.Arena
Purpose: The regions of a scan in the order in which they were made.
  Each region has the serial number under which it was made. Newer regions have larger numbers and
  stand nearer to the head of the list, so comparing numbers compares positions.
Main exports:
  Entry, Arena, Arena.holds, Arena.get?, Arena.update, Arena.above, Arena.downTo
-/
import MarkPress.Region

namespace MarkPress.Scan

/-- A region under its serial number. -/
structure Entry where
  serial : Nat
  region : Region
deriving Repr, Inhabited, DecidableEq

/-- Regions, the newest first. -/
abbrev Arena := List Entry

namespace Arena

/-- Whether the region of a number is in the arena. -/
def holds (arena : Arena) (serial : Nat) : Bool := arena.any fun entry => entry.serial == serial

/-- The region of a number. -/
def get? (arena : Arena) (serial : Nat) : Option Region :=
  match arena with
  | [] => none
  | entry :: older => if entry.serial = serial then some entry.region else get? older serial

/-- Change the region of a number. -/
def update (arena : Arena) (serial : Nat) (f : Region → Region) : Arena :=
  arena.map fun entry => if entry.serial = serial then { entry with region := f entry.region }
    else entry

/-- The entries that are newer than the region of a number: all of them if it is not there. -/
def above (arena : Arena) (serial : Nat) : Arena :=
  arena.takeWhile fun entry => entry.serial != serial

/-- The region of a number and the entries older than it: none of them if it is not there. -/
def downTo (arena : Arena) (serial : Nat) : Arena :=
  arena.dropWhile fun entry => entry.serial != serial

/-- The two parts of an arena at a region make up the whole. -/
theorem above_append_downTo (arena : Arena) (serial : Nat) :
    arena.above serial ++ arena.downTo serial = arena :=
  List.takeWhile_append_dropWhile

end Arena

end MarkPress.Scan
