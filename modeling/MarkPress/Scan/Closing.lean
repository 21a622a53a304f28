/-
Module: MarkPress.Scan.Closing
Purpose: The end of a tag.
  An inline tag writes its closing half. A region tag does what its closing action says and is then
  folded into its host, if it has one. The end of an address gives the captured text to the newest
  open link or image and closes that as well, so closing goes at most two levels deep.
Main exports:
  Scan.endHeading, Scan.endBlock, Scan.leave, Scan.endRegion, Scan.serialOf, Scan.addressTarget?,
  Scan.captureAddress, Scan.closeTag
-/
import MarkPress.Scan.Nesting

namespace MarkPress.Scan

/-- Forget an open tag and what it kept in force. -/
def forget (tag : Tag) (s : Scan) : Scan :=
  { s with
    opened := s.opened.filter fun o => o.tag ≠ tag
    exclusive := if s.exclusive = some tag then none else s.exclusive
    afterFence := s.afterFence && !tag.traits.isVerbatim
    bracketDepth := if tag ∈ Tag.images then 0 else s.bracketDepth }

/-- Do what the end of a heading does: the anchor, the paragraph and the section end, and a new
section begins. -/
def endHeading (serial : Nat) (s : Scan) : Outcome := do
  let s ← if s.headingAnchorOpen then s.closeAnchor serial else .ok s
  return ((s.endParagraph.push .sectionEnd).push .sectionBegin).openParagraph

/-- Do what the end of a block does: a new paragraph begins, unless the block is nested. -/
def endBlock (region : Option Nat) (s : Scan) : Scan :=
  if s.isNested region then s else s.endParagraph.openParagraph

/-- Fold a region that has ended into its host, and make sure that text written next has a region
to go to. -/
def leave (region : Option Nat) (s : Scan) : Outcome := do
  let s ←
    match region.bind fun serial => s.hostOf (some serial) with
    | some host => s.fold host
    | none => .ok s
  match s.arena with
  | [] => .error ⟨.outOfRange "-1".toList, s⟩
  | entry :: _ =>
      return if s.isOpen entry.serial || entry.region.tag == .text then s else s.push .text

/-- Do what the end of a region tag does besides, given what is done with the region of an
address. -/
def endRegion (address : Nat → Scan → Outcome) (tag : Tag) (region : Option Nat) (s : Scan) :
    Outcome :=
  match tag.traits.onClose, region with
  | .plain, _ => .ok s
  | .heading, some serial => s.endHeading serial
  | .heading, none => .error ⟨.missingRegion "headingEnd".toList, s⟩
  | .block, region => .ok (s.endBlock region)
  | .address, some serial => address serial s
  | .address, none => .error ⟨.missingRegion "urlEnd".toList, s⟩

/-- The number of the region of a tag, if the tag is open and has one. -/
def serialOf (tag : Tag) (s : Scan) : Option Nat :=
  (s.opened.find? fun o => o.tag = tag).bind OpenTag.region

/-- The end of a tag, given what is done with the region of an address. -/
def closeTagWith (address : Nat → Scan → Outcome) (tag : Tag) (s : Scan) : Outcome :=
  let region := s.serialOf tag
  let s := s.forget tag
  if tag.traits.isRegion then do
    let s ← s.endRegion address tag region
    s.leave region
  else s.write tag.closeHalf

/-- The newest open link or image. -/
def addressTarget? (s : Scan) : Option Entry :=
  s.arena.find? fun entry => entry.region.tag ∈ Tag.urlTargets && s.isOpen entry.serial

/-- Give an address to a link. -/
def setLinkAddress (link : Nat) (address : Text) (s : Scan) : Outcome :=
  s.changeRegion link fun region => region.setAttribute "href".toList (some address)

/-- Give an address to an image. Its content becomes the alternative text, without tags, and for
all but small images also a caption behind it, unless there is no text. -/
def setImageAddress (image : Entry) (address : Text) (s : Scan) : Outcome := do
  let alternative := (Html.stripTags image.region.inner).trim
  let s ← s.changeRegion image.serial fun region =>
    region.setAttribute "src".toList (some address)
  let s ← s.changeRegion image.serial fun region =>
    region.setAttribute "alt".toList (some alternative)
  return if image.region.tag != .embedSmall && !alternative.isEmpty then
    s.pushRegion ((Region.ofTag .caption).extend image.region.inner)
  else s

/-- Do what the end of an address does. -/
def captureAddress (serial : Nat) (s : Scan) : Outcome :=
  match s.addressTarget? with
  | none => .ok s
  | some target => do
      let address := ((s.regionOf serial).map Region.inner).getD [] |>.trim
      let s ←
        if target.region.tag = .link then s.setLinkAddress target.serial address
        else s.setImageAddress target address
      closeTagWith (fun _ s => .ok s) target.region.tag s

/-- The end of a tag. -/
def closeTag (tag : Tag) (s : Scan) : Outcome := closeTagWith captureAddress tag s

/-- End every tag of a list that is still open. -/
def closeAll : List Tag → Scan → Outcome
  | [], s => .ok s
  | tag :: rest, s => do
      let s ← if s.isActive tag then s.closeTag tag else .ok s
      closeAll rest s

end MarkPress.Scan
