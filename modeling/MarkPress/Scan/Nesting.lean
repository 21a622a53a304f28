/-
Module: MarkPress.Scan.Nesting
Purpose: Hosts, and folding regions into them.
  The host of a region is the open region that was opened last among those older than it. A region
  that was taken out of the arena while it was open still counts as older than all that are there.
  Folding cuts the arena behind the host and renders what was cut off into the host, oldest first.
Main exports:
  OpenRegion, Scan.openRegions, Scan.hostOf, Scan.isNested, Scan.closeAnchor, Scan.fold
-/
import MarkPress.Scan.Block

namespace MarkPress

/-- An open tag that has a region. -/
structure OpenRegion where
  tag : Tag
  serial : Nat
deriving Repr, Inhabited, DecidableEq

namespace Scan

/-- The open tags that have a region, the one opened last first. -/
def openRegions (s : Scan) : List OpenRegion :=
  s.opened.filterMap fun o => o.region.map fun serial => ⟨o.tag, serial⟩

/-- The host of a region, or of a region that would be made now if none is given. A region that is
not in the arena has none. -/
def hostOf (region : Option Nat) (s : Scan) : Option OpenRegion :=
  match region with
  | none => s.openRegions.head?
  | some serial =>
      if s.arena.holds serial then
        s.openRegions.find? fun o => !s.arena.holds o.serial || o.serial < serial
      else none

/-- Whether a region, or one that would be made now, is inside a list or an open region. -/
def isNested (region : Option Nat) (s : Scan) : Bool :=
  s.listLevel != 0 || (s.hostOf region).isSome

/-- Write the closing half of the anchor of a heading. -/
def closeAnchor (heading : Nat) (s : Scan) : Outcome := do
  let s ← s.writeTo heading Tag.anchor.closeHalf
  return { s with headingAnchorOpen := false }

/-- Render regions into a host, in the order given. A region is sealed before its text is added,
and one that does not appear in the output is passed over. -/
def renderInto (host : Nat) : List Entry → Scan → Outcome
  | [], s => .ok s
  | entry :: newer, s =>
      if entry.region.isShown then do
        let s := { s with detached := s.detached.update entry.serial Region.markSealed }
        let s ← s.changeRegion host fun region => region.append entry.region.render
        renderInto host newer s
      else renderInto host newer s

/-- Fold everything newer than a host into it. If a link is among it, the anchor of a heading that
is the host ends before. -/
def fold (host : OpenRegion) (s : Scan) : Outcome := do
  let nested := s.arena.above host.serial
  let s := { s with
    arena := s.arena.downTo host.serial
    detached := nested.filter (fun entry => s.isOpen entry.serial) ++ s.detached
    lost := nested.map (·.region.leftOut) ++ s.lost }
  let s ←
    if s.headingAnchorOpen && host.tag.isHeading && nested.any (·.region.tag == .link) then
      s.closeAnchor host.serial
    else .ok s
  renderInto host.serial nested.reverse s

end Scan

end MarkPress
