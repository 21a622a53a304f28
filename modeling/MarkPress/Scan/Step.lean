/-
Module: MarkPress.Scan.Step
Purpose: What the next character of the source means.
  Inside a verbatim tag only its closing delimiter means anything. Elsewhere a backslash takes the
  meaning from the character behind it, line breaks and white space shape the blocks, three hyphens
  alone on a line are a rule, and of the delimiters that match here a beginning is preferred to an
  end, in the order of `Tag.all`.
Main exports:
  Scan.newline, Scan.whitespace, Scan.isRuleLine, Scan.nextOpening, Scan.nextClosing, Scan.step
-/
import MarkPress.Scan.Opening

namespace MarkPress.Scan

/-! ### Line breaks and white space -/

/-- A line break: tags that end with their line end, and the second break in a row ends the lists
or the paragraph. -/
def newline (s : Scan) : Outcome := do
  let s ← closeAll ((s.opened.map OpenTag.tag).filter Tag.isSingleLine) s
  let s := { s with blankRun := s.blankRun + 1 }
  let s ←
    if s.blankRun = 1 then .ok { s with pendingSpace := true }
    else if s.blankRun = 2 then
      if s.listLevel ≠ 0 then s.closeLists else .ok s.openParagraph
    else .ok s
  return { s with lineBlank := true, indent := 0, skipWhitespace := false }

/-- A space or a tab: indentation at the beginning of a line, and a gap between words elsewhere. -/
def whitespace (c : Char) (s : Scan) : Scan :=
  if s.lineBlank then { s with indent := s.indent + if c = '\t' then 2 else 1 }
  else if s.skipWhitespace then s
  else { s with pendingSpace := true }

/-- White space changes nothing but the indentation and whether a space is pending. -/
theorem whitespace_eq (c : Char) (s : Scan) : s.whitespace c = { s with
    indent := (s.whitespace c).indent
    pendingSpace := (s.whitespace c).pendingSpace } := by
  rw [whitespace]
  split
  · rfl
  · split <;> rfl

/-! ### Rules -/

/-- Whether a text begins with three hyphens and has nothing else but gaps on its first line. -/
def isRuleLine (text : Text) : Bool :=
  match Text.after? "---".toList text with
  | none => false
  | some behind => (behind.takeWhile (· != '\n')).all Text.isGap

/-- A rule between two blocks. -/
def rule (s : Scan) : Outcome := do
  let s ← s.closeLists
  let s := (s.endParagraph.push .rule).openParagraph
  return { s.advance 3 with blankRun := 0 }

/-! ### Delimiters -/

/-- Whether the beginning of a tag stands here. -/
def opensHere (atLineStart : Bool) (s : Scan) (tag : Tag) : Bool :=
  match tag.traits.opener with
  | none => false
  | some opener =>
      !s.isActive tag
        && (!tag.isSingleLine || atLineStart)
        && (match tag.traits.within with
            | none => true
            | some hosts => hosts.any s.isActive)
        && Text.startsWith opener s.rest

/-- The tag that begins here. -/
def nextOpening (atLineStart : Bool) (s : Scan) : Option Tag :=
  if s.exclusive.isSome then none else Tag.all.find? (s.opensHere atLineStart)

/-- Whether the end of an open tag stands here. -/
def closesHere (s : Scan) (tag : Tag) : Bool :=
  match tag.traits.closer with
  | none => false
  | some closer =>
      (s.exclusive.isNone || s.exclusive == some tag) && Text.startsWith closer s.rest

/-- The open tag that ends here; of several, the one opened last. -/
def nextClosing (s : Scan) : Option Tag := (s.opened.map OpenTag.tag).find? s.closesHere

/-- The first visible character of a line that does not go on with the list ends all lists. -/
def enterSolid (atLineStart : Bool) (s : Scan) : Outcome := do
  let s ←
    if atLineStart && s.listLevel != 0 && s.exclusive.isNone
        && s.nextOpening true != some .listItem then
      s.closeLists
    else .ok s
  return { s with lineBlank := false, blankRun := 0, skipWhitespace := false }

/-- The bracket depth behind a character that is a bracket of its own in the caption of an image.
Brackets there pair up among themselves. -/
def captionBracket (c : Char) (s : Scan) : Option Nat :=
  if s.exclusive.isSome || !Tag.images.any s.isActive then none
  else if c = '[' then some (s.bracketDepth + 1)
  else if c = ']' ∧ s.bracketDepth ≠ 0 then some (s.bracketDepth - 1)
  else none

/-! ### One step -/

/-- A character that stands for itself. -/
def literal (c : Char) (s : Scan) : Outcome := do
  let s ← s.appendLiteral c
  return s.advance 1

/-- A character that may begin a delimiter. -/
def delimiterOrLiteral (atLineStart : Bool) (c : Char) (s : Scan) : Outcome :=
  match s.nextOpening atLineStart with
  | some tag => (s.advance (tag.traits.opener.getD []).length).openTag tag
  | none =>
      match s.nextClosing with
      | some tag => (s.advance (tag.traits.closer.getD []).length).closeTag tag
      | none => s.literal c

/-- A character inside a verbatim tag. The line break directly behind the fence is not content. -/
def verbatimStep (c : Char) (s : Scan) : Outcome :=
  let first := s.afterFence
  let atLineStart := s.lineBlank
  let s := { s with afterFence := false }
  if first && c == '\n' then .ok (s.advance 1) else s.delimiterOrLiteral atLineStart c

/-- A visible character outside of verbatim tags. -/
def solidStep (c : Char) (s : Scan) : Outcome := do
  let atLineStart := s.lineBlank
  let s ← s.enterSolid atLineStart
  if c = '\\' then return ({ s with escaped := true } : Scan).advance 1
  else
    match s.captionBracket c with
    | some depth => literal c { s with bracketDepth := depth }
    | none => s.delimiterOrLiteral atLineStart c

/-- Read the next character, with as many behind it as belong to its delimiter. -/
def step (s : Scan) : Outcome :=
  match s.rest with
  | [] => .ok s
  | c :: _ => do
      let region ← s.current
      if region.tag.traits.isVerbatim then s.verbatimStep c
      else if s.escaped then literal c { s with escaped := false }
      else if c = '\n' then
        let s ← s.newline
        return s.advance 1
      else if Text.isGap c then return (s.whitespace c).advance 1
      else if s.lineBlank && s.exclusive.isNone && isRuleLine s.rest then s.rule
      else s.solidStep c

end MarkPress.Scan
