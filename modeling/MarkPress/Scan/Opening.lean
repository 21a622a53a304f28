/-
Module: MarkPress.Scan.Opening
Purpose: The beginning of a tag.
  A block that is not nested leaves the paragraph first. A heading always does, and begins with an
  anchor that is named after the rest of its line.
Main exports:
  Scan.startsBlock, Scan.beginAnchor, Scan.openTag
-/
import MarkPress.Scan.Closing

namespace MarkPress.Scan

/-- Whether a tag that began now would begin a block of its own. -/
def startsBlock (tag : Tag) (s : Scan) : Bool :=
  match tag.traits.onOpen with
  | .heading => true
  | .block => !s.isNested none
  | .plain | .item => false

/-- Begin the anchor of a heading, in the newest region. Its name is made from the rest of the
line. -/
def beginAnchor (s : Scan) : Outcome := do
  let title := s.rest.takeWhile (· != '\n')
  let id := Slug.freshId s.anchorIds (Slug.headingBase title)
  let attributes :=
    Dictionary.ofList [("href".toList, some ('#' :: id)), ("id".toList, some id)]
  let s ← { s with anchorIds := id :: s.anchorIds }.write
    (Tag.anchor.write [] attributes .opening)
  return { s with headingAnchorOpen := true }

/-- Begin a tag that has a region. -/
def openRegion (tag : Tag) (s : Scan) : Outcome :=
  let s := if s.startsBlock tag then s.endParagraph else s
  let s := { s.push tag with
    opened := ⟨tag, some s.nextSerial⟩ :: s.opened
    atBlockStart := false }
  match tag.traits.onOpen with
  | .heading => s.beginAnchor
  | .plain | .block | .item => .ok s

/-- Begin a tag that writes two halves into the current region. -/
def openInline (tag : Tag) (s : Scan) : Outcome := do
  let s := { s with opened := ⟨tag, none⟩ :: s.opened }
  let s ←
    match tag.traits.onOpen with
    | .item => s.setListLevel (s.indent / 2 + 1)
    | .heading => .error ⟨.missingRegion "headingBegin".toList, s⟩
    | .plain | .block => .ok s
  let s ← s.write tag.openHalf
  return { s with atBlockStart := false }

/-- The beginning of a tag. -/
def openTag (tag : Tag) (s : Scan) : Outcome := do
  let s := { s with
    skipWhitespace := s.skipWhitespace || tag.isSingleLine
    pendingSpace := s.pendingSpace && !(tag.isSingleLine || s.startsBlock tag) }
  let s ← s.flushSpace
  let s := { s with
    exclusive := if tag.traits.isExclusive then some tag else s.exclusive
    afterFence := s.afterFence || tag.traits.isVerbatim }
  if tag.traits.isRegion then s.openRegion tag else s.openInline tag

end MarkPress.Scan
