/-
Module: MarkPress.Header.Basic
Purpose: The header of a document: lines of a key and a value before a separator line.
  A header counts only if a separator is found and everything before it is blank or a header line.
  Otherwise the whole text is the body.
Main exports:
  HeaderLine, Header.readLine?, Header.isSeparator, SplitDocument, Header.split
-/
import MarkPress.Text.Blank

namespace MarkPress

/-- A line of a header with its number, counted from one. -/
structure HeaderLine where
  text : Text
  number : Int
deriving Repr, Inhabited, DecidableEq

/-- A document cut into its header lines and its body. -/
structure SplitDocument where
  header : List HeaderLine := []
  body : Text
deriving Repr, Inhabited, DecidableEq

namespace Header

/-- The characters of a key. The first one has to be a letter. -/
def isKeyChar (c : Char) : Bool := c.isLower || c.isDigit || c == '_' || c == '-'

/-- A value without the white space around it, if anything else is in it. -/
def nonblank? (value : Text) : Option Text :=
  if value.isBlankText then none else some value.trim

/-- The key and the value of a header line. Between them stand spaces or tabs, and the value
reaches to the end of the line, so no line terminator may be in it. -/
def readLine? (text : Text) : Option (Text × Option Text) :=
  let key := text.takeWhile isKeyChar
  match key, text.dropWhile isKeyChar with
  | first :: _, [] => if first.isLower then some (key, none) else none
  | first :: _, c :: behind =>
      if first.isLower ∧ Text.isGap c ∧ ¬ behind.any Text.isTerminator then
        some (key, nonblank? behind)
      else none
  | [], _ => none

/-- Whether a line ends the header: three hyphens and white space behind them. -/
def isSeparator (line : Text) : Bool :=
  match Text.after? "---".toList line with
  | none => false
  | some behind => behind.isBlankText

/-- The header lines before the separator and the lines behind it. The first line has the number
given. -/
def splitLines (number : Nat) : List Text → Option (List HeaderLine × List Text)
  | [] => none
  | line :: rest =>
      if isSeparator line then some ([], rest)
      else if line.isBlankText then splitLines (number + 1) rest
      else if (readLine? line.trimEnd).isNone then none
      else
        (splitLines (number + 1) rest).map fun (header, body) =>
          (⟨line.trimEnd, number⟩ :: header, body)

/-- Cut a document into header and body. Without a header the body is the text as it is. -/
def split (text : Text) : SplitDocument :=
  match splitLines 1 text.normalizeBreaks.lines with
  | some (header, body) => ⟨header, Text.unlines body⟩
  | none => ⟨[], text⟩

end Header

end MarkPress
