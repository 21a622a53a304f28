/-
Module: MarkPress.Text.Basic
Purpose: Text as a list of characters, its lines, and the decimal text of whole numbers.
  Every stage of the compiler reads and writes this one type, so that a proof can follow a text
  character by character.
Main exports:
  Text, Text.after?, Text.replace, Text.normalizeBreaks, Text.split, Text.join, Text.lines,
  Text.unlines, Text.join_split, Text.ofNat, Text.ofInt
-/

namespace MarkPress

/-- A text, as the list of its characters. -/
abbrev Text := List Char

namespace Text

/-- The rest of a text behind a fixed beginning, if the text begins so. -/
def after? : Text → Text → Option Text
  | [], text => some text
  | _ :: _, [] => none
  | a :: start, c :: text => if a = c then after? start text else none

/-- Behind the beginning of a text stands the rest of it. -/
theorem after?_append (start text : Text) : after? start (start ++ text) = some text := by
  induction start with
  | nil => rfl
  | cons c start ih => simp [after?, ih]

/-- Whether a text begins with a fixed beginning. -/
def startsWith (start text : Text) : Bool := (after? start text).isSome

/-- Whether a text ends with a fixed ending. -/
def endsWith (ending text : Text) : Bool := startsWith ending.reverse text.reverse

/-- Write a replacement for every occurrence of one character. -/
def replace (text : Text) (c : Char) (replacement : Text) : Text :=
  text.flatMap fun x => if x = c then replacement else [x]

/-! ### Lines -/

/-- Every line break becomes a line feed: a carriage return with or without a line feed behind it
counts as one break. -/
def normalizeBreaks : Text → Text
  | [] => []
  | '\r' :: '\n' :: rest => '\n' :: normalizeBreaks rest
  | c :: rest => (if c = '\r' then '\n' else c) :: normalizeBreaks rest

/-- The pieces of a text between the occurrences of one character. There is always at least one,
possibly empty. -/
def split (c : Char) : Text → List Text
  | [] => [[]]
  | x :: rest =>
      if x = c then [] :: split c rest
      else
        match split c rest with
        | [] => [[x]]
        | piece :: more => (x :: piece) :: more

/-- Pieces with one character between each two of them. -/
def join (c : Char) : List Text → Text
  | [] => []
  | [piece] => piece
  | piece :: more => piece ++ c :: join c more

/-- The lines of a text, cut at line feeds. -/
def lines (text : Text) : List Text := split '\n' text

/-- Lines joined by line feeds. -/
def unlines (lines : List Text) : Text := join '\n' lines

theorem split_ne_nil (c : Char) (text : Text) : split c text ≠ [] := by
  cases text with
  | nil => simp [split]
  | cons x rest =>
      simp only [split]
      split
      · simp
      · split <;> simp

/-- Cutting a text into pieces and joining them again gives the text back. -/
theorem join_split (c : Char) (text : Text) : join c (split c text) = text := by
  induction text with
  | nil => rfl
  | cons x rest ih =>
      simp only [split]
      split
      · rename_i hx
        cases hs : split c rest with
        | nil => exact absurd hs (split_ne_nil c rest)
        | cons piece more => rw [hs] at ih; simp [join, hx, ih]
      · cases hs : split c rest with
        | nil => exact absurd hs (split_ne_nil c rest)
        | cons piece more =>
            rw [hs] at ih
            cases more with
            | nil => simpa [join] using ih
            | cons next more => simpa [join] using ih

/-- Cutting a text into lines and joining them again gives the text back. -/
theorem unlines_lines (text : Text) : unlines (lines text) = text := join_split '\n' text

/-! ### Numbers -/

/-- The decimal digits of a natural number, without leading zeros. -/
def ofNat (n : Nat) : Text := Nat.toDigits 10 n

/-- The decimal digits of an integer, behind a minus sign if it is negative. -/
def ofInt : Int → Text
  | .ofNat n => ofNat n
  | .negSucc n => '-' :: ofNat (n + 1)

end Text

end MarkPress
