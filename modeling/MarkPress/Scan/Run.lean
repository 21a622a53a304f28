/-
Module: MarkPress.Scan.Run
Purpose: A whole scan.
  Every step reads at least one character, so as many steps as there are characters read the whole
  source. A scan that stopped on an error goes on from the state it had reached.
Main exports:
  Scan.steps, Scan.finish, Scan.run, Scan.exported, scan, render
-/
import MarkPress.Export
import MarkPress.Scan.Step

namespace MarkPress

namespace Scan

/-- Take steps until the source is read, at most a given number of them. -/
def steps : Nat → Scan → Outcome
  | 0, s => .ok s
  | n + 1, s =>
      if s.rest.isEmpty then .ok s
      else do
        let s ← s.step
        steps n s

/-- The end of the source: everything that is open ends. -/
def finish (s : Scan) : Outcome := do
  let s ← closeAll (s.opened.map OpenTag.tag) s
  let s ← s.closeLists
  return s.endParagraph.push .sectionEnd

/-- Read the rest of the source and finish. A finished scan stays as it is. -/
def run (s : Scan) : Outcome :=
  if s.finished then .ok s
  else do
    let s ← s.steps s.rest.length
    let s ← s.finish
    return { s with finished := true }

/-- The output of the regions so far, and the state in which those that were rendered are sealed. -/
def exported (s : Scan) : Text × Scan :=
  let items := Export.selection Entry.region s.arena.reverse
  let serials := items.map Entry.serial
  (items.flatMap fun entry => entry.region.render,
    { s with arena := s.arena.map fun entry =>
        if entry.serial ∈ serials then { entry with region := entry.region.markSealed }
        else entry })

end Scan

/-- The regions of a source. -/
def scan (source : Text) : Except RegionError (List Region) :=
  match (Scan.start source).run with
  | .ok s => .ok s.regions
  | .error halt => .error halt.error

/-- The output of a source. -/
def render (source : Text) : Except RegionError Text := (scan source).map Export.html

end MarkPress
