/-
Module: MarkPress.Proofs.Log.Value
Purpose: Where the breaks in the strings of a log record come from.
  A string is read piece by piece, each in one of three spellings, and control characters do not
  stand for themselves. So a string that is read has a line feed or a carriage return only if the
  text has an escape of one. A reader takes a beginning of its text and leaves the rest, so that
  holds of every string of a record.
Main exports:
  Text.Unbroken, LogValue.breakEscapes, LogValue.Spelled, LogValue.exists_spellings,
  LogValue.Leaves, LogValue.ReadAs, LogValue.leaves_value?, LogValue.unbroken_member?
-/
import Mathlib.Data.List.Forall2
import Mathlib.Data.List.Infix
import MarkPress.Log.Value
import MarkPress.Proofs.Text.Ends

namespace MarkPress

/-- A text with neither a line feed nor a carriage return. -/
def Text.Unbroken (text : Text) : Prop := ∀ c ∈ text, c ≠ '\n' ∧ c ≠ '\r'

instance : DecidablePred Text.Unbroken :=
  fun text => List.decidableBAll (fun c => c ≠ '\n' ∧ c ≠ '\r') text

namespace LogValue

/-- The escapes of a line feed and of a carriage return in a string. -/
def breakEscapes : List Text :=
  ["\\n".toList, "\\u000a".toList, "\\u000A".toList, "\\r".toList, "\\u000d".toList,
    "\\u000D".toList]

/-- A text without an escape of a break. -/
def Unescaped (text : Text) : Prop := ∀ escape ∈ breakEscapes, ¬ escape <:+: text

instance : DecidablePred Unescaped :=
  fun text => List.decidableBAll (fun escape => ¬ escape <:+: text) breakEscapes

/-- How a piece is spelled in a string. -/
inductive Spelled : Text → Piece → Prop where
  | itself {c : Char} (visible : 0x20 ≤ c.toNat) : Spelled [c] (.char c)
  | escape {c d : Char} (means : escape? c = some d) : Spelled ['\\', c] (.char d)
  | unit {a b c d : Char} {n : Nat} (means : unit? a b c d = some n) :
      Spelled ['\\', 'u', a, b, c, d] (.unit n)

/-- A piece that is a line feed or a carriage return. -/
inductive IsBreak : Piece → Prop where
  | lineFeed : IsBreak (.char '\n')
  | carriageReturn : IsBreak (.char '\r')
  | lineFeedUnit : IsBreak (.unit 10)
  | carriageReturnUnit : IsBreak (.unit 13)

variable {α β : Type} {text behind written : Text} {pieces : List Piece} {piece : Piece} {n : Nat}
  {c : Char}

/-! ### Strings -/

/-- A string that is read is the spellings of its pieces up to a quote. -/
theorem exists_spellings (read : pieces? text = some (pieces, behind)) :
    ∃ spellings, List.Forall₂ Spelled spellings pieces
      ∧ text = spellings.flatten ++ '"' :: behind := by
  induction text using pieces?.induct generalizing pieces behind with
  | case1 => cases read
  | case2 rest =>
      cases read
      exact ⟨[], .nil, rfl⟩
  | case3 a b c d rest n more after inner means ih =>
      rw [pieces?, means, inner] at read
      cases read
      obtain ⟨spellings, spelled, rfl⟩ := ih inner
      exact ⟨_ :: spellings, .cons (.unit means) spelled, rfl⟩
  | case4 a b c d rest refused ih =>
      rw [pieces?] at read
      split at read
      · exact absurd ‹_› (refused _ _ _ ‹_›)
      · cases read
  | case5 c rest other d more after inner means ih =>
      rw [pieces?, means, inner] at read
      · cases read
        obtain ⟨spellings, spelled, rfl⟩ := ih inner
        exact ⟨_ :: spellings, .cons (.escape means) spelled, rfl⟩
      · exact other
  | case6 c rest other refused ih =>
      rw [pieces?] at read
      · split at read
        · exact absurd ‹_› (refused _ _ _ ‹_›)
        · cases read
      · exact other
  | case7 c rest notQuote notUnit notEscape refused =>
      rw [pieces?, if_pos refused] at read
      · cases read
      · exact notQuote
      · exact notUnit
      · exact notEscape
  | case8 c rest notQuote notUnit notEscape accepted ih =>
      rw [pieces?, if_neg accepted] at read
      · obtain ⟨⟨more, after⟩, inner, same⟩ := Option.map_eq_some_iff.mp read
        cases same
        obtain ⟨spellings, spelled, rfl⟩ := ih inner
        rw [not_or, Nat.not_lt] at accepted
        exact ⟨_ :: spellings, .cons (.itself accepted.2) spelled, rfl⟩
      · exact notQuote
      · exact notUnit
      · exact notEscape

theorem exists_infix {spellings : List Text} (spelled : List.Forall₂ Spelled spellings pieces)
    (member : piece ∈ pieces) :
    ∃ written, Spelled written piece ∧ written <:+: spellings.flatten := by
  induction spelled with
  | nil => cases member
  | @cons written first spellings pieces head more ih =>
      rcases List.mem_cons.mp member with rfl | later
      · exact ⟨written, head, List.infix_append' [] written _⟩
      · obtain ⟨other, spells, inside⟩ := ih later
        exact ⟨other, spells, inside.trans (List.suffix_append written _).isInfix⟩

/-! ### Breaks in strings -/

/-- A hexadecimal digit is a decimal one, or a small or capital letter. -/
theorem toNat_of_hexDigit? {digit : Nat} (means : hexDigit? c = some digit) :
    digit < 10 ∧ c.toNat = 48 + digit
      ∨ 10 ≤ digit ∧ digit < 16 ∧ (c.toNat = 87 + digit ∨ c.toNat = 55 + digit) := by
  have zero : '0'.toNat = 48 ∧ 'a'.toNat = 97 ∧ 'A'.toNat = 65 := by decide
  rw [hexDigit?, zero.1, zero.2.1, zero.2.2] at means
  split at means
  · rename_i decimal
    have range : 48 ≤ c.toNat ∧ c.toNat ≤ 57 := by
      simpa [Char.isDigit, UInt32.le_iff_toNat_le] using decimal
    cases means
    omega
  split at means
  · rename_i small
    have range : 97 ≤ c.toNat ∧ c.toNat ≤ 102 := small
    cases means
    omega
  split at means
  · rename_i capital
    have range : 65 ≤ c.toNat ∧ c.toNat ≤ 70 := capital
    cases means
    omega
  · cases means

/-- The escapes of a unit below sixteen: three zeros and the digit. -/
theorem eq_of_unit? {a b c d : Char} (means : unit? a b c d = some n) (low : n < 16) :
    a = '0' ∧ b = '0' ∧ c = '0' ∧ hexDigit? d = some n := by
  simp only [unit?, Option.bind_eq_bind, Option.bind_eq_some_iff, Option.pure_def,
    Option.some.injEq] at means
  obtain ⟨first, isFirst, second, isSecond, third, isThird, last, isLast, rfl⟩ := means
  have zero : ∀ x : Char, hexDigit? x = some 0 → x = '0' := by
    intro x isZero
    have := toNat_of_hexDigit? isZero
    exact Char.toNat_inj.mp (by rw [show '0'.toNat = 48 from rfl]; omega)
  obtain rfl : first = 0 := by omega
  obtain rfl : second = 0 := by omega
  obtain rfl : third = 0 := by omega
  exact ⟨zero a isFirst, zero b isSecond, zero c isThird, by simpa using isLast⟩

/-- The letters of the breaks behind a backslash. -/
theorem eq_of_escape? {d : Char} (means : escape? c = some d) (isBreak : d = '\n' ∨ d = '\r') :
    c = 'n' ∨ c = 'r' := by
  rw [escape?] at means
  split at means
  · rename_i itself
    cases means
    rcases isBreak with rfl | rfl <;> simp at itself
  · grind

/-- A break is spelled by one of its escapes, since control characters do not spell themselves. -/
theorem Spelled.mem_breakEscapes (spelled : Spelled written piece) (isBreak : IsBreak piece) :
    written ∈ breakEscapes := by
  cases spelled with
  | itself visible =>
      cases isBreak with
      | lineFeed => exact absurd visible (by decide)
      | carriageReturn => exact absurd visible (by decide)
  | @escape c d means =>
      have which : d = '\n' ∨ d = '\r' := by
        cases isBreak with
        | lineFeed => exact .inl rfl
        | carriageReturn => exact .inr rfl
      rcases eq_of_escape? means which with rfl | rfl
      · decide
      · decide
  | @unit a b c d n means =>
      have which : n = 10 ∨ n = 13 := by
        cases isBreak with
        | lineFeedUnit => exact .inl rfl
        | carriageReturnUnit => exact .inr rfl
      obtain ⟨rfl, rfl, rfl, last⟩ := eq_of_unit? means (by omega)
      have letter : d.toNat = 87 + n ∨ d.toNat = 55 + n := by
        have := toNat_of_hexDigit? last
        omega
      rcases which with rfl | rfl
      · rcases letter with small | capital
        · obtain rfl : d = 'a' := Char.toNat_inj.mp small
          decide
        · obtain rfl : d = 'A' := Char.toNat_inj.mp capital
          decide
      · rcases letter with small | capital
        · obtain rfl : d = 'd' := Char.toNat_inj.mp small
          decide
        · obtain rfl : d = 'D' := Char.toNat_inj.mp capital
          decide

theorem eq_of_ofNat {m : Nat} (same : Char.ofNat m = c) (visible : c ≠ '\x00') : m = c.toNat := by
  by_cases valid : m.isValidChar
  · rw [Char.ofNat, dif_pos valid] at same
    rw [← same]
    rfl
  · rw [Char.ofNat, dif_neg valid] at same
    exact absurd same.symm visible

/-- Only the units of the breaks stand for them. -/
theorem unitChar_ne (none : ¬ IsBreak (.unit n)) : unitChar n ≠ '\n' ∧ unitChar n ≠ '\r' := by
  have visible : '\n' ≠ '\x00' ∧ '\r' ≠ '\x00' := by decide
  rw [unitChar]
  split
  · decide
  · refine ⟨fun feed => none ?_, fun carriage => none ?_⟩
    · rw [eq_of_ofNat feed visible.1]
      exact .lineFeedUnit
    · rw [eq_of_ofNat carriage visible.2]
      exact .carriageReturnUnit

/-- A joined string has no breaks but those of its pieces. -/
theorem unbroken_joinPieces (none : ∀ piece ∈ pieces, ¬ IsBreak piece) :
    Text.Unbroken (joinPieces pieces) := by
  induction pieces using joinPieces.induct with
  | case1 => exact nofun
  | case2 c rest ih =>
      rw [List.forall_mem_cons] at none
      rw [joinPieces]
      refine List.forall_mem_cons.mpr ⟨⟨?_, ?_⟩, ih none.2⟩
      · rintro rfl
        exact none.1 .lineFeed
      · rintro rfl
        exact none.1 .carriageReturn
  | case3 high low rest pair ih =>
      simp only [List.forall_mem_cons] at none
      rw [joinPieces, if_pos pair]
      refine List.forall_mem_cons.mpr ⟨⟨fun feed => ?_, fun carriage => ?_⟩, ih none.2.2⟩
      · have low : _ = 10 := eq_of_ofNat feed (by decide)
        omega
      · have low : _ = 13 := eq_of_ofNat carriage (by decide)
        omega
  | case4 high low rest single ih =>
      rw [List.forall_mem_cons] at none
      rw [joinPieces, if_neg single]
      exact List.forall_mem_cons.mpr ⟨unitChar_ne none.1, ih none.2⟩
  | case5 n rest last ih =>
      rw [List.forall_mem_cons] at none
      rw [joinPieces]
      · exact List.forall_mem_cons.mpr ⟨unitChar_ne none.1, ih none.2⟩
      · exact last

/-- A string has no breaks if the text that it is read from has no escape of one. -/
theorem unbroken_string? {string : Text} (unescaped : Unescaped text)
    (read : string? text = some (string, behind)) : string.Unbroken := by
  obtain ⟨⟨pieces, rest⟩, inner, same⟩ := Option.map_eq_some_iff.mp read
  cases same
  obtain ⟨spellings, spelled, rfl⟩ := exists_spellings inner
  refine unbroken_joinPieces fun piece member isBreak => ?_
  obtain ⟨written, spells, inside⟩ := exists_infix spelled member
  exact unescaped written (spells.mem_breakEscapes isBreak)
    (inside.trans (List.prefix_append _ _).isInfix)

/-! ### What readers leave -/

/-- A reader that leaves an end of the text it is given. -/
def Leaves (read : Text → Option (α × Text)) : Prop :=
  ∀ {text result behind}, read text = some (result, behind) → behind <:+ text

theorem suffix_of_map {read : Text → Option (α × Text)} {f : α × Text → β × Text} {result : β}
    (leaves : Leaves read) (keeps : ∀ a rest, (f (a, rest)).2 = rest)
    (found : (read text).map f = some (result, behind)) : behind <:+ text := by
  obtain ⟨⟨a, rest⟩, inner, same⟩ := Option.map_eq_some_iff.mp found
  have kept := keeps a rest
  rw [same] at kept
  obtain rfl : behind = rest := kept
  exact leaves inner

theorem leaves_string? : Leaves string? := by
  intro text string behind read
  obtain ⟨⟨pieces, rest⟩, inner, same⟩ := Option.map_eq_some_iff.mp read
  cases same
  obtain ⟨spellings, -, rfl⟩ := exists_spellings inner
  exact (List.suffix_cons '"' behind).trans (List.suffix_append _ _)

theorem skipSpace_suffix (text : Text) : skipSpace text <:+ text := List.dropWhile_suffix _

theorem leaves_digits? : Leaves digits? := by
  intro text result behind read
  rw [digits?] at read
  split at read
  · cases read
  · cases read
    exact List.dropWhile_suffix _

theorem leaves_wholePart? : Leaves wholePart? := by
  intro text result behind read
  rw [wholePart?.eq_def] at read
  split at read
  · cases read
    exact List.suffix_cons _ _
  · exact leaves_digits? read

theorem leaves_fractionPart? : Leaves fractionPart? := by
  intro text result behind read
  rw [fractionPart?.eq_def] at read
  split at read
  · exact (suffix_of_map leaves_digits? (fun _ _ => rfl) read).trans (List.suffix_cons _ _)
  · cases read
    exact List.suffix_rfl

theorem leaves_powerPart? : Leaves powerPart? := by
  intro text result behind read
  rw [powerPart?.eq_def] at read
  split at read
  · cases read
    exact List.suffix_rfl
  split at read
  · refine List.IsSuffix.trans ?_ (List.suffix_cons _ _)
    split at read
    · exact (suffix_of_map leaves_digits? (fun _ _ => rfl) read).trans (List.suffix_cons _ _)
    · exact (suffix_of_map leaves_digits? (fun _ _ => rfl) read).trans (List.suffix_cons _ _)
    · exact suffix_of_map leaves_digits? (fun _ _ => rfl) read
  · cases read
    exact List.suffix_rfl

theorem leaves_unsigned? : Leaves unsigned? := by
  intro text result behind read
  simp only [unsigned?, Option.bind_eq_bind, Option.bind_eq_some_iff, Option.pure_def,
    Option.some.injEq, Prod.mk.injEq, Prod.exists] at read
  obtain ⟨whole, afterWhole, isWhole, fraction, afterFraction, isFraction, power, last, isPower, -,
    rfl⟩ := read
  exact (leaves_powerPart? isPower).trans
    ((leaves_fractionPart? isFraction).trans (leaves_wholePart? isWhole))

theorem leaves_number? : Leaves number? := by
  intro text result behind read
  rw [number?.eq_def] at read
  split at read
  · exact (suffix_of_map leaves_unsigned? (fun _ _ => rfl) read).trans (List.suffix_cons _ _)
  · exact leaves_unsigned? read

theorem leaves_atom? : Leaves atom? := by
  intro text result behind read
  have word (start : Text) {rest : Text} (after : Text.after? start text = some rest) :
      rest <:+ text := ⟨start, (Text.after?_eq_some_iff.mp after).symm⟩
  rw [atom?] at read
  split at read
  · cases read
    exact word _ ‹_›
  split at read
  · cases read
    exact word _ ‹_›
  split at read
  · cases read
    exact word _ ‹_›
  · exact suffix_of_map leaves_number? (fun _ _ => rfl) read

/-- What stands behind a character that is found behind white space. -/
theorem suffix_of_skipSpace {rest : Text} (found : skipSpace text = c :: rest) : rest <:+ text :=
  (List.suffix_cons c rest).trans (found ▸ skipSpace_suffix text)

/-- What a value can be read as, to a depth of reading: what stands behind the character that opens
it, or a word or number. -/
inductive ReadAs (n : Nat) (text : Text) : LogValue → Text → Prop where
  | noMembers {behind : Text} (left : behind <:+ text) : ReadAs n text (.record []) behind
  | members {rest behind : Text} {members : List (Text × LogValue)} (inside : rest <:+ text)
      (read : members? n rest = some (members, behind)) : ReadAs n text (.record members) behind
  | noItems {behind : Text} (left : behind <:+ text) : ReadAs n text (.list []) behind
  | items {rest behind : Text} {items : List LogValue} (inside : rest <:+ text)
      (read : items? n rest = some (items, behind)) : ReadAs n text (.list items) behind
  | string {rest behind string : Text} (inside : rest <:+ text)
      (read : string? rest = some (string, behind)) : ReadAs n text (.string string) behind
  | atom {rest behind : Text} {value : LogValue} (inside : rest <:+ text)
      (read : atom? rest = some (value, behind)) : ReadAs n text value behind

theorem readAs_of_value?_succ {value : LogValue}
    (read : value? (n + 1) text = some (value, behind)) : ReadAs n text value behind := by
  rw [value?] at read
  split at read
  · rename_i rest opens
    have inside := suffix_of_skipSpace opens
    split at read
    · rename_i closes
      cases read
      exact .noMembers ((suffix_of_skipSpace closes).trans inside)
    · obtain ⟨⟨members, after⟩, inner, same⟩ := Option.map_eq_some_iff.mp read
      cases same
      exact .members ((skipSpace_suffix rest).trans inside) inner
  · rename_i rest opens
    have inside := suffix_of_skipSpace opens
    split at read
    · rename_i closes
      cases read
      exact .noItems ((suffix_of_skipSpace closes).trans inside)
    · obtain ⟨⟨items, after⟩, inner, same⟩ := Option.map_eq_some_iff.mp read
      cases same
      exact .items ((skipSpace_suffix rest).trans inside) inner
  · rename_i rest opens
    obtain ⟨⟨string, after⟩, inner, same⟩ := Option.map_eq_some_iff.mp read
    cases same
    exact .string (suffix_of_skipSpace opens) inner
  · exact .atom (skipSpace_suffix text) read

theorem leaves_value?_succ (items : Leaves (items? n)) (members : Leaves (members? n)) :
    Leaves (value? (n + 1)) := by
  intro text result behind read
  cases readAs_of_value?_succ read with
  | noMembers left => exact left
  | members inside inner => exact (members inner).trans inside
  | noItems left => exact left
  | items inside inner => exact (items inner).trans inside
  | string inside inner => exact (leaves_string? inner).trans inside
  | atom inside inner => exact (leaves_atom? inner).trans inside

theorem leaves_items?_succ (value : Leaves (value? n)) (items : Leaves (items? n)) :
    Leaves (items? (n + 1)) := by
  intro text result behind read
  rw [items?] at read
  split at read
  · cases read
  rename_i item after isItem
  refine List.IsSuffix.trans ?_ (value isItem)
  split at read
  · rename_i rest comma
    exact (suffix_of_map items (fun _ _ => rfl) read).trans (suffix_of_skipSpace comma)
  · rename_i rest closes
    cases read
    exact suffix_of_skipSpace closes
  · cases read

/-- The parts of a record from its next member on: its name, the value, and the member or the brace
behind it. -/
theorem members?_succ_cases {members : List (Text × LogValue)}
    (read : members? (n + 1) text = some (members, behind)) :
    ∃ opened name afterName valued value afterValue more,
      opened <:+ text ∧ string? opened = some (name, afterName) ∧ valued <:+ afterName
        ∧ value? n valued = some (value, afterValue) ∧ members = (name, value) :: more
        ∧ ((∃ next, next <:+ afterValue ∧ members? n next = some (more, behind))
          ∨ more = [] ∧ behind <:+ afterValue) := by
  rw [members?] at read
  split at read
  case h_2 => cases read
  rename_i opened opens
  split at read
  · cases read
  rename_i name afterName isName
  split at read
  case h_2 => cases read
  rename_i valued colon
  split at read
  · cases read
  rename_i value afterValue isValue
  refine ⟨opened, name, afterName, valued, value, afterValue, ?_⟩
  split at read
  · rename_i next comma
    obtain ⟨⟨more, rest⟩, inner, same⟩ := Option.map_eq_some_iff.mp read
    cases same
    exact ⟨more, suffix_of_skipSpace opens, isName, suffix_of_skipSpace colon, isValue, rfl,
      .inl ⟨next, suffix_of_skipSpace comma, inner⟩⟩
  · rename_i rest closes
    cases read
    exact ⟨[], suffix_of_skipSpace opens, isName, suffix_of_skipSpace colon, isValue, rfl,
      .inr ⟨rfl, suffix_of_skipSpace closes⟩⟩
  · cases read

theorem leaves_members?_succ (value : Leaves (value? n)) (members : Leaves (members? n)) :
    Leaves (members? (n + 1)) := by
  intro text result behind read
  obtain ⟨opened, name, afterName, valued, _, afterValue, more, opens, isName, colon, isValue, -,
    next⟩ := members?_succ_cases read
  have front : afterValue <:+ text :=
    (value isValue).trans (colon.trans ((leaves_string? isName).trans opens))
  rcases next with ⟨rest, comma, later⟩ | ⟨-, closes⟩
  · exact (members later).trans (comma.trans front)
  · exact closes.trans front

/-- Values, items and members leave an end of their text, by induction on the depth of reading. -/
theorem leaves_value? (n : Nat) : Leaves (value? n) ∧ Leaves (items? n) ∧ Leaves (members? n) := by
  induction n with
  | zero =>
      refine ⟨?_, ?_, ?_⟩ <;> intro text result behind read
      · rw [value?] at read
        cases read
      · rw [items?] at read
        cases read
      · rw [members?] at read
        cases read
  | succ n ih =>
      obtain ⟨value, items, members⟩ := ih
      exact ⟨leaves_value?_succ items members, leaves_items?_succ value items,
        leaves_members?_succ value members⟩

/-! ### Breaks in members -/

theorem Unescaped.of_suffix {rest : Text} (unescaped : Unescaped text) (suffix : rest <:+ text) :
    Unescaped rest :=
  fun escape known inside => unescaped escape known (inside.trans suffix.isInfix)

/-- A word or a number is neither a string nor a record. -/
theorem other_of_atom? {value : LogValue} (read : atom? text = some (value, behind)) :
    (∀ string, value ≠ .string string) ∧ ∀ members, value ≠ .record members := by
  rw [atom?] at read
  split at read
  · cases read
    exact ⟨nofun, nofun⟩
  split at read
  · cases read
    exact ⟨nofun, nofun⟩
  split at read
  · cases read
    exact ⟨nofun, nofun⟩
  · obtain ⟨_, -, same⟩ := Option.map_eq_some_iff.mp read
    cases same
    exact ⟨nofun, nofun⟩

theorem exists_readAs {value : LogValue} (read : value? n text = some (value, behind)) :
    ∃ depth, ReadAs depth text value behind := by
  cases n with
  | zero =>
      rw [value?] at read
      cases read
  | succ n => exact ⟨n, readAs_of_value?_succ read⟩

theorem unbroken_of_value? {string : Text} (unescaped : Unescaped text)
    (read : value? n text = some (.string string, behind)) : string.Unbroken := by
  obtain ⟨depth, readAs⟩ := exists_readAs read
  cases readAs with
  | string inside isString => exact unbroken_string? (unescaped.of_suffix inside) isString
  | atom _ isAtom => exact absurd rfl ((other_of_atom? isAtom).1 _)

theorem unbroken_of_mem_members? {members : List (Text × LogValue)} {name string : Text}
    (unescaped : Unescaped text) (read : members? n text = some (members, behind))
    (member : (name, .string string) ∈ members) : string.Unbroken := by
  induction n generalizing text members with
  | zero =>
      rw [members?] at read
      cases read
  | succ n ih =>
      obtain ⟨opened, first, afterName, valued, value, afterValue, more, opens, isName, colon,
        isValue, rfl, next⟩ := members?_succ_cases read
      have unescapedValue : Unescaped valued :=
        unescaped.of_suffix (colon.trans ((leaves_string? isName).trans opens))
      rcases List.mem_cons.mp member with here | later
      · cases here
        exact unbroken_of_value? unescapedValue isValue
      · rcases next with ⟨rest, comma, isRest⟩ | ⟨rfl, -⟩
        · have left := comma.trans ((leaves_value? n).1 isValue)
          exact ih (unescapedValue.of_suffix left) isRest later
        · cases later

theorem unbroken_of_mem_record {members : List (Text × LogValue)} {name string : Text}
    (unescaped : Unescaped text) (read : value? n text = some (.record members, behind))
    (member : (name, .string string) ∈ members) : string.Unbroken := by
  obtain ⟨depth, readAs⟩ := exists_readAs read
  cases readAs with
  | noMembers _ => cases member
  | members inside inner =>
      exact unbroken_of_mem_members? (unescaped.of_suffix inside) inner member
  | atom _ isAtom => exact absurd rfl ((other_of_atom? isAtom).2 _)

/-- The strings of a record are on one line if the record is written without escapes of breaks. -/
theorem unbroken_member? {value : LogValue} {name string : Text} (unescaped : Unescaped text)
    (read : read? text = some value) (member : member? name value = some (.string string)) :
    string.Unbroken := by
  rw [read?] at read
  split at read
  · rename_i found after isValue
    rw [Option.ite_none_right_eq_some] at read
    obtain ⟨-, same⟩ := read
    cases same
    rw [member?.eq_def] at member
    split at member
    · rename_i members
      obtain ⟨⟨key, held⟩, isFound, same⟩ := Option.map_eq_some_iff.mp member
      cases same
      have inside := List.mem_reverse.mp (List.mem_of_find?_eq_some isFound)
      exact unbroken_of_mem_record unescaped isValue inside
    · cases member
  · cases read

end LogValue

end MarkPress
