/-
Module: MarkPress.Scan.Block
Purpose: Paragraphs, lists and the white space between words.
  White space is collected and written as one space before the next piece of text, but never at the
  beginning of a block. A list level is one element inside the previous one, and going from one
  level to another writes only the halves between them.
Main exports:
  Scan.start, Scan.endParagraph, Scan.openParagraph, Scan.flushSpace, Scan.appendLiteral,
  Scan.setListLevel, Scan.closeLists
-/
import MarkPress.Scan.State

namespace MarkPress.Scan

/-! ### Paragraphs -/

/-- End the paragraph. An end that comes while no paragraph is open is surplus. -/
def endParagraph (s : Scan) : Scan :=
  { s.push .paragraphEnd with
    paragraphOpen := false
    surplusEnds := if s.paragraphOpen then s.surplusEnds else s.surplusEnds + 1 }

/-- Begin a paragraph, and end the one before if it has not ended. -/
def openParagraph (s : Scan) : Scan :=
  let s := if s.paragraphOpen then s.endParagraph else s
  let s := { s.push .paragraphBegin with paragraphOpen := true }
  { s.push .text with atBlockStart := true, pendingSpace := false }

/-- The state before the first character of a source: one section and one paragraph are open. -/
def start (source : Text) : Scan :=
  (push .sectionBegin { rest := source.normalizeBreaks }).openParagraph

/-! ### Text -/

/-- Write the space that stands for the white space read before, unless a block begins here. -/
def flushSpace (s : Scan) : Outcome :=
  if s.pendingSpace then
    let s := { s with pendingSpace := false }
    if s.atBlockStart then .ok s else s.write [' ']
  else .ok s

/-- Write a character that stands for itself. -/
def appendLiteral (c : Char) (s : Scan) : Outcome := do
  let s ← s.flushSpace
  let s ← s.write (Html.escapeText [c])
  return { s with atBlockStart := false }

/-! ### Lists -/

/-- The halves that lead from one list level to another. -/
def levelChange (old new : Nat) : Text :=
  (List.replicate (new - old) Tag.list.openHalf).flatten
    ++ (List.replicate (old - new) Tag.list.closeHalf).flatten

/-- Go to a list level. Level zero is outside of every list: leaving it ends the paragraph, and
coming back to it begins one. -/
def setListLevel (level : Nat) (s : Scan) : Outcome :=
  if level = s.listLevel then .ok s
  else do
    let s := if s.listLevel = 0 then s.endParagraph.push .text else s
    let s ← { s with listLevel := level }.write (levelChange s.listLevel level)
    return if level = 0 then s.openParagraph else s

/-- Leave every list. -/
def closeLists (s : Scan) : Outcome := s.setListLevel 0

end MarkPress.Scan
