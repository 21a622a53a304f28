/-
Module: MarkPress.Log.Value
Purpose: The values that a log record is written in, and reading them back.
  A value is null, a truth value, a number, a string, a list or a record of named members. Reading
  is strict: no other spelling of a number, no control character in a string, and nothing but white
  space around the value. What a number is worth is never asked, so only its text is kept.
Main exports:
  LogValue, LogValue.read?, LogValue.member?
-/
import MarkPress.Text.Basic

namespace MarkPress

/-- A value of a log record. -/
inductive LogValue where
  | null
  | bool (value : Bool)
  | number (text : Text)
  | string (text : Text)
  | list (items : List LogValue)
  | record (members : List (Text × LogValue))
deriving Repr, Inhabited

namespace LogValue

/-! ### Strings -/

/-- A piece of a string: a character, or a 16-bit unit written as four hexadecimal digits. -/
inductive Piece where
  | char (c : Char)
  | unit (n : Nat)
deriving Repr, Inhabited, DecidableEq

/-- The character of a 16-bit unit. Half of a pair stands for no character. -/
def unitChar (n : Nat) : Char :=
  if 0xD800 ≤ n ∧ n < 0xE000 then '\uFFFD' else Char.ofNat n

/-- Put pieces together. Two units next to each other may make up one character. -/
def joinPieces : List Piece → Text
  | [] => []
  | .char c :: rest => c :: joinPieces rest
  | .unit high :: .unit low :: rest =>
      if 0xD800 ≤ high ∧ high < 0xDC00 ∧ 0xDC00 ≤ low ∧ low < 0xE000 then
        Char.ofNat (0x10000 + (high - 0xD800) * 0x400 + (low - 0xDC00)) :: joinPieces rest
      else unitChar high :: joinPieces (.unit low :: rest)
  | .unit n :: rest => unitChar n :: joinPieces rest

/-- The character that a letter behind a backslash stands for. -/
def escape? (c : Char) : Option Char :=
  if c = '"' ∨ c = '\\' ∨ c = '/' then some c
  else if c = 'b' then some '\x08'
  else if c = 'f' then some '\x0c'
  else if c = 'n' then some '\n'
  else if c = 'r' then some '\r'
  else if c = 't' then some '\t'
  else none

/-- The value of a hexadecimal digit. -/
def hexDigit? (c : Char) : Option Nat :=
  if c.isDigit then some (c.toNat - '0'.toNat)
  else if 'a' ≤ c ∧ c ≤ 'f' then some (c.toNat - 'a'.toNat + 10)
  else if 'A' ≤ c ∧ c ≤ 'F' then some (c.toNat - 'A'.toNat + 10)
  else none

/-- The 16-bit unit that four hexadecimal digits stand for. -/
def unit? (a b c d : Char) : Option Nat := do
  let a ← hexDigit? a
  let b ← hexDigit? b
  let c ← hexDigit? c
  let d ← hexDigit? d
  return ((a * 16 + b) * 16 + c) * 16 + d

/-- The pieces of a string up to its closing quote, and the text behind it. -/
def pieces? : Text → Option (List Piece × Text)
  | [] => none
  | '"' :: rest => some ([], rest)
  | '\\' :: 'u' :: a :: b :: c :: d :: rest =>
      match unit? a b c d, pieces? rest with
      | some n, some (pieces, behind) => some (.unit n :: pieces, behind)
      | _, _ => none
  | '\\' :: c :: rest =>
      match escape? c, pieces? rest with
      | some c, some (pieces, behind) => some (.char c :: pieces, behind)
      | _, _ => none
  | c :: rest =>
      if c = '\\' ∨ c.toNat < 0x20 then none
      else (pieces? rest).map fun (pieces, behind) => (.char c :: pieces, behind)

/-- A string whose opening quote has been read, and the text behind it. -/
def string? (text : Text) : Option (Text × Text) :=
  (pieces? text).map fun (pieces, behind) => (joinPieces pieces, behind)

/-! ### Numbers -/

/-- Cut a text behind the digits at its beginning, if there is one. -/
def digits? (text : Text) : Option (Text × Text) :=
  match text.takeWhile Char.isDigit with
  | [] => none
  | digits => some (digits, text.dropWhile Char.isDigit)

/-- The digits before the point: a single zero, or digits that do not begin with zero. -/
def wholePart? : Text → Option (Text × Text)
  | '0' :: rest => some (['0'], rest)
  | text => digits? text

/-- The point and the digits behind it, if a point stands here. -/
def fractionPart? : Text → Option (Text × Text)
  | '.' :: rest => (digits? rest).map fun (digits, behind) => ('.' :: digits, behind)
  | text => some ([], text)

/-- The power of ten, if its letter stands here. -/
def powerPart? : Text → Option (Text × Text)
  | [] => some ([], [])
  | c :: rest =>
      if c = 'e' ∨ c = 'E' then
        match rest with
        | '+' :: more => (digits? more).map fun (digits, behind) => (c :: '+' :: digits, behind)
        | '-' :: more => (digits? more).map fun (digits, behind) => (c :: '-' :: digits, behind)
        | more => (digits? more).map fun (digits, behind) => (c :: digits, behind)
      else some ([], c :: rest)

/-- A number without a sign, and the text behind it. -/
def unsigned? (text : Text) : Option (Text × Text) := do
  let (whole, text) ← wholePart? text
  let (fraction, text) ← fractionPart? text
  let (power, text) ← powerPart? text
  return (whole ++ fraction ++ power, text)

/-- A number, and the text behind it. -/
def number? : Text → Option (Text × Text)
  | '-' :: rest => (unsigned? rest).map fun (written, behind) => ('-' :: written, behind)
  | text => unsigned? text

/-! ### Values -/

/-- A text without the white space before it. -/
def skipSpace (text : Text) : Text :=
  text.dropWhile fun c => c == ' ' || c == '\t' || c == '\n' || c == '\r'

/-- A value that consists of one word or one number. -/
def atom? (text : Text) : Option (LogValue × Text) :=
  match Text.after? "null".toList text with
  | some behind => some (.null, behind)
  | none =>
    match Text.after? "true".toList text with
    | some behind => some (.bool true, behind)
    | none =>
      match Text.after? "false".toList text with
      | some behind => some (.bool false, behind)
      | none => (number? text).map fun (written, behind) => (.number written, behind)

mutual
/-- A value and the text behind it, to a depth of reading. -/
def value? : Nat → Text → Option (LogValue × Text)
  | 0, _ => none
  | n + 1, text =>
      match skipSpace text with
      | '{' :: rest =>
          match skipSpace rest with
          | '}' :: behind => some (.record [], behind)
          | rest => (members? n rest).map fun (members, behind) => (.record members, behind)
      | '[' :: rest =>
          match skipSpace rest with
          | ']' :: behind => some (.list [], behind)
          | rest => (items? n rest).map fun (items, behind) => (.list items, behind)
      | '"' :: rest => (string? rest).map fun (text, behind) => (.string text, behind)
      | rest => atom? rest

/-- The items of a list up to its closing bracket, and the text behind it. -/
def items? : Nat → Text → Option (List LogValue × Text)
  | 0, _ => none
  | n + 1, text =>
      match value? n text with
      | none => none
      | some (item, behind) =>
          match skipSpace behind with
          | ',' :: rest => (items? n rest).map fun (items, behind) => (item :: items, behind)
          | ']' :: rest => some ([item], rest)
          | _ => none

/-- The members of a record up to its closing brace, and the text behind it. -/
def members? : Nat → Text → Option (List (Text × LogValue) × Text)
  | 0, _ => none
  | n + 1, text =>
      match skipSpace text with
      | '"' :: rest =>
          match string? rest with
          | none => none
          | some (name, behind) =>
              match skipSpace behind with
              | ':' :: rest =>
                  match value? n rest with
                  | none => none
                  | some (value, behind) =>
                      match skipSpace behind with
                      | ',' :: rest =>
                          (members? n rest).map fun (members, behind) =>
                            ((name, value) :: members, behind)
                      | '}' :: rest => some ([(name, value)], rest)
                      | _ => none
              | _ => none
      | _ => none
end

/-- The value that a whole text is written for. Two levels of depth for each character are
enough, since each bracket opens a list or record and a first item. -/
def read? (text : Text) : Option LogValue :=
  match value? (2 * text.length + 2) text with
  | some (value, behind) => if (skipSpace behind).isEmpty then some value else none
  | none => none

/-- The value of a member; of several with one name, the last. A value that is not a record has no
members. -/
def member? (name : Text) : LogValue → Option LogValue
  | .record members => (members.reverse.find? fun member => member.1 = name).map Prod.snd
  | _ => none

end LogValue

end MarkPress
