/-
Module: MarkPress.Proofs.Document.Split
Purpose: Which documents have a header, and what it is.
  The first separator ends a header if every line in front of it is blank or has the form of a
  header line. One line of another form, however far down, makes the whole text the body.
Main exports:
  Header.IsSeparatorLine, Header.Headed, Header.headerLines, Header.splitLines_headed,
  Header.headed_of_splitLines, Header.split_grammar
-/
import MarkPress.Proofs.Document.Metadata
import MarkPress.Proofs.Text.Ends

namespace MarkPress.Header

/-- A line that ends a header: three hyphens and white space behind them. -/
def IsSeparatorLine (line : Text) : Prop :=
  ∃ blanks, line = "---".toList ++ blanks ∧ ∀ c ∈ blanks, Text.isBlank c = true

/-- A blank line, or one of the form of a header line but for the white space behind it. -/
def IsHeaderLine (line : Text) : Prop :=
  line.trim = [] ∨ ∃ key value, Tells line.trimEnd key value

/-- Lines that begin with a header: those in front of their first separator and those behind it. -/
structure Headed (lines before behind : List Text) : Prop where
  split : ∃ separator, IsSeparatorLine separator ∧ lines = before ++ separator :: behind
  first : ∀ line ∈ before, ¬ IsSeparatorLine line
  formed : ∀ line ∈ before, IsHeaderLine line

/-- The lines of a header that are not blank, without the white space behind them, each with its
number if the first one has the number given. -/
def headerLines (number : Nat) (lines : List Text) : List HeaderLine :=
  ((lines.zipIdx number).filter fun (line, _) => line.trim ≠ []).map fun (line, n) =>
    ⟨line.trimEnd, n⟩

variable {lines before behind : List Text} {line : Text} {header : List HeaderLine} {number : Nat}

theorem isSeparator_iff : isSeparator line = true ↔ IsSeparatorLine line := by
  constructor
  · intro ends
    rw [isSeparator] at ends
    cases after : Text.after? "---".toList line with
    | none =>
        rw [after] at ends
        cases ends
    | some behind =>
        rw [after] at ends
        exact ⟨behind, Text.after?_eq_some_iff.mp after, List.all_eq_true.mp ends⟩
  · rintro ⟨blanks, rfl, blank⟩
    rw [isSeparator, Text.after?_append]
    exact List.all_eq_true.mpr blank

theorem headerLines_cons (number : Nat) (line : Text) (rest : List Text) :
    headerLines number (line :: rest)
      = if line.trim = [] then headerLines (number + 1) rest
        else ⟨line.trimEnd, number⟩ :: headerLines (number + 1) rest := by
  by_cases blank : line.trim = [] <;> simp [headerLines, blank]

theorem mem_headerLines {line : HeaderLine} (member : line ∈ headerLines number lines) :
    ∃ (index : Nat) (source : Text), lines[index]? = some source ∧ line.number = number + index
      ∧ line.text = source.trimEnd ∧ source.trim ≠ [] := by
  obtain ⟨⟨source, n⟩, kept, rfl⟩ := List.mem_map.mp member
  obtain ⟨numbered, visible⟩ := List.mem_filter.mp kept
  obtain ⟨least, found⟩ := List.mem_zipIdx_iff_le_and_getElem?_sub.mp numbered
  refine ⟨n - number, source, found, ?_, rfl, by simpa using visible⟩
  change number ≤ n at least
  change (n : Int) = number + (n - number : Nat)
  omega

namespace Headed

theorem separator (isSeparator : IsSeparatorLine line) : Headed (line :: behind) [] behind where
  split := ⟨line, isSeparator, rfl⟩
  first := List.forall_mem_nil _
  formed := List.forall_mem_nil _

theorem cons (headed : Headed lines before behind) (other : ¬ IsSeparatorLine line)
    (formed : IsHeaderLine line) : Headed (line :: lines) (line :: before) behind where
  split := by
    obtain ⟨separator, isSeparator, whole⟩ := headed.split
    exact ⟨separator, isSeparator, congrArg (line :: ·) whole⟩
  first := List.forall_mem_cons.mpr ⟨other, headed.first⟩
  formed := List.forall_mem_cons.mpr ⟨formed, headed.formed⟩

end Headed

/-! ### Splitting lines -/

/-- A header is found with the numbers of its lines. -/
theorem splitLines_headed (headed : Headed lines before behind) (number : Nat) :
    splitLines number lines = some (headerLines number before, behind) := by
  obtain ⟨⟨separator, ends, rfl⟩, first, formed⟩ := headed
  induction before generalizing number with
  | nil =>
      rw [List.nil_append, splitLines, if_pos (isSeparator_iff.mpr ends)]
      rfl
  | cons line before ih =>
      obtain ⟨notSeparator, laterFirst⟩ := List.forall_mem_cons.mp first
      obtain ⟨form, laterFormed⟩ := List.forall_mem_cons.mp formed
      have later := ih (number + 1) laterFirst laterFormed
      rw [List.cons_append, splitLines, if_neg (mt isSeparator_iff.mp notSeparator), later,
        headerLines_cons]
      by_cases blank : line.trim = []
      · rw [if_pos blank, if_pos (Text.trim_eq_nil_iff.mp blank)]
      · obtain ⟨key, value, told⟩ := form.resolve_left blank
        rw [if_neg blank, if_neg (mt Text.trim_eq_nil_iff.mpr blank), readLine?_of_tells told]
        rfl

/-- Nothing but a header is found. -/
theorem headed_of_splitLines (found : splitLines number lines = some (header, behind)) :
    ∃ before, Headed lines before behind ∧ header = headerLines number before := by
  induction lines generalizing number header with
  | nil => cases found
  | cons line lines ih =>
      rw [splitLines] at found
      split at found
      · rename_i ends
        cases found
        exact ⟨[], .separator (isSeparator_iff.mp ends), rfl⟩
      · rename_i goesOn
        have other := mt isSeparator_iff.mpr goesOn
        split at found
        · rename_i blank
          have blank' := Text.trim_eq_nil_iff.mpr blank
          obtain ⟨before, headed, rfl⟩ := ih found
          refine ⟨line :: before, headed.cons other (.inl blank'), ?_⟩
          rw [headerLines_cons, if_pos blank']
        · rename_i visible
          split at found
          · cases found
          · rename_i formed
            obtain ⟨⟨key, value⟩, read⟩ := Option.ne_none_iff_exists'.mp (by simpa using formed)
            obtain ⟨⟨later, _⟩, foundLater, same⟩ := Option.map_eq_some_iff.mp found
            cases same
            obtain ⟨before, headed, rfl⟩ := ih foundLater
            refine ⟨line :: before, headed.cons other (.inr ⟨key, value, ?_⟩), ?_⟩
            · exact readLine?_eq_some_iff.mp read
            · rw [headerLines_cons, if_neg (mt Text.trim_eq_nil_iff.mp visible)]

/-- Without a header nothing is found. -/
theorem splitLines_eq_none_iff :
    splitLines number lines = none ↔ ¬ ∃ before behind, Headed lines before behind := by
  constructor
  · rintro missing ⟨before, behind, headed⟩
    rw [splitLines_headed headed] at missing
    cases missing
  · intro headless
    rw [Option.eq_none_iff_forall_not_mem]
    rintro ⟨header, behind⟩ found
    obtain ⟨before, headed, -⟩ := headed_of_splitLines found
    exact headless ⟨before, behind, headed⟩

/-! ### Splitting a text -/

variable {text : Text}

theorem split_headed (headed : Headed text.normalizeBreaks.lines before behind) :
    split text = ⟨headerLines 1 before, Text.unlines behind⟩ := by
  rw [split, splitLines_headed headed]

theorem split_headless
    (headless : ¬ ∃ before behind, Headed text.normalizeBreaks.lines before behind) :
    split text = ⟨[], text⟩ := by
  rw [split, splitLines_eq_none_iff.mpr headless]

/-- Every line of a header is a line of the text, without the white space behind it, and has the
form of a header line. -/
theorem mem_split_header {line : HeaderLine} (member : line ∈ (split text).header) :
    ∃ (index : Nat) (source : Text), text.normalizeBreaks.lines[index]? = some source
      ∧ line.number = index + 1 ∧ line.text = source.trimEnd
      ∧ ∃ key value, Tells line.text key value := by
  by_cases some : ∃ before behind, Headed text.normalizeBreaks.lines before behind
  · obtain ⟨before, behind, headed⟩ := some
    rw [split_headed headed] at member
    obtain ⟨index, source, found, number, trimmed, visible⟩ := mem_headerLines member
    obtain ⟨separator, -, whole⟩ := headed.split
    obtain ⟨inside, same⟩ := List.getElem?_eq_some_iff.mp found
    refine ⟨index, source, ?_, by omega, trimmed, ?_⟩
    · rw [whole, List.getElem?_append_left inside, found]
    · rw [trimmed]
      exact (headed.formed source (List.mem_of_getElem? found)).resolve_left visible
  · rw [split_headless some] at member
    cases member

/-- Splitting a document finds the header that its lines begin with: the lines in front of the
separator that are not blank, each with its number, and behind it the body. A document without a
header is all body. So the form of a line is never what is wrong with the header of a document. -/
theorem split_grammar (text : Text) :
    (∀ before behind, Headed text.normalizeBreaks.lines before behind →
      split text = ⟨headerLines 1 before, Text.unlines behind⟩)
    ∧ ((¬ ∃ before behind, Headed text.normalizeBreaks.lines before behind) →
      split text = ⟨[], text⟩)
    ∧ ∀ error, Metadata.ofLines (split text).header = .error error →
      error.fault ≠ .invalidLine := by
  refine ⟨fun before behind => split_headed, split_headless, fun error refused isForm => ?_⟩
  obtain ⟨line, member, faulty, -⟩ := Metadata.faulty_of_ofLines refused
  obtain ⟨-, -, -, -, -, key, value, told⟩ := mem_split_header member
  rw [isForm] at faulty
  cases faulty with
  | form formless => exact formless key value told
  | undated told refused => exact Date.parse_ne_invalidLine _ refused

/-- A header with a blank line in it and all kinds of breaks, and a rule below words that are none.
-/
theorem split_grammar_breaks :
    Headed (Text.normalizeBreaks "title A \r\n \t\rstatic\t\n--- \t\rx\r\n---\ny".toList).lines
        ["title A ".toList, " \t".toList, "static\t".toList]
        ["x".toList, "---".toList, "y".toList]
      ∧ split "title A \r\n \t\rstatic\t\n--- \t\rx\r\n---\ny".toList
        = ⟨[⟨"title A".toList, 1⟩, ⟨"static".toList, 3⟩], "x\n---\ny".toList⟩
      ∧ (¬ ∃ before behind,
        Headed (Text.normalizeBreaks "a\r\nB\n---\nx".toList).lines before behind)
      ∧ split "a\r\nB\n---\nx".toList = ⟨[], "a\r\nB\n---\nx".toList⟩ := by
  have separator : IsSeparatorLine "--- \t".toList := ⟨" \t".toList, rfl, List.all_eq_true.mp rfl⟩
  have title : IsHeaderLine "title A ".toList :=
    .inr ⟨"title".toList, some "A".toList, readLine?_eq_some_iff.mp rfl⟩
  have blank : IsHeaderLine " \t".toList := .inl rfl
  have static : IsHeaderLine "static\t".toList :=
    .inr ⟨"static".toList, none, readLine?_eq_some_iff.mp rfl⟩
  have other : ∀ {line : Text}, isSeparator line = false → ¬ IsSeparatorLine line := fun goesOn =>
    mt isSeparator_iff.mpr (by simp [goesOn])
  have ends : Headed ["--- \t".toList, "x".toList, "---".toList, "y".toList] []
      ["x".toList, "---".toList, "y".toList] := .separator separator
  have headed : Headed
      (Text.normalizeBreaks "title A \r\n \t\rstatic\t\n--- \t\rx\r\n---\ny".toList).lines _ _ :=
    ((ends.cons (other rfl) static).cons (other rfl) blank).cons (other rfl) title
  have headless : splitLines 1 (Text.normalizeBreaks "a\r\nB\n---\nx".toList).lines = none := rfl
  have headless' := splitLines_eq_none_iff.mp headless
  exact ⟨headed, (split_grammar _).1 _ _ headed, headless', (split_grammar _).2.1 headless'⟩

end MarkPress.Header
