/-
Module: MarkPress.Proofs.Html.Marks
Purpose: The places of a text where something opens or closes, read from left to right.
  Whether a place counts is told by the token that begins there, so behind a text of whole tokens
  the places of the rest are those that it has alone. A reader who knows what is open follows the
  places as long as nothing opens that is open already or closes that is not.
Main exports:
  marks, TokenTest, marks_append, marks_of_free, crossTag, isChain_of_crossTag,
  getLast_of_crossTag
-/
import Mathlib.Data.List.Chain
import MarkPress.Proofs.Html.Reading

namespace MarkPress.Html

/-- The places of a text where something opens or closes, from left to right: `true` for one where
it opens, `false` for one where it closes. What follows at a place is tested. -/
def marks (opens closes : Text → Bool) : Text → List Bool
  | [] => []
  | c :: rest =>
      if opens (c :: rest) then true :: marks opens closes rest
      else if closes (c :: rest) then false :: marks opens closes rest
      else marks opens closes rest

/-- A test on what follows at a place that the token there decides. -/
structure TokenTest (here : Text → Bool) : Prop where
  bracket : ∀ c rest, here (c :: rest) = true → c = '<'
  isLocal : ∀ (token : Token) (rest : Text), here (token.toText ++ rest) = here token.toText

/-- The beginning of a tag, with at most the end of the tag as its last character. -/
theorem tokenTest_startsWith {start : Text} (plain : '>' ∉ start) (last : Char) :
    TokenTest (Text.startsWith ('<' :: start ++ [last])) where
  bracket := by
    intro c rest starts
    rw [Text.startsWith_iff, List.cons_append, List.cons_prefix_cons] at starts
    exact starts.1.symm
  isLocal := startsWith_token plain

section

variable {opens closes : Text → Bool} (opensTest : TokenTest opens) (closesTest : TokenTest closes)
include opensTest closesTest

theorem marks_plain_append {left : Text} (plain : '<' ∉ left) (right : Text) :
    marks opens closes (left ++ right) = marks opens closes right := by
  induction left with
  | nil => rfl
  | cons c left ih =>
      simp only [List.mem_cons, not_or] at plain
      have notHere : ∀ {here : Text → Bool}, TokenTest here → here (c :: (left ++ right)) = false :=
        fun test => Bool.eq_false_iff.mpr fun found => plain.1 (test.bracket _ _ found).symm
      rw [List.cons_append, marks, notHere opensTest, notHere closesTest, if_neg (by simp),
        if_neg (by simp), ih plain.2]

/-- A place is found at the beginning of a token or not at all. -/
theorem marks_token_append (token : Token) (rest : Text) :
    marks opens closes (token.toText ++ rest)
      = marks opens closes token.toText ++ marks opens closes rest := by
  have opened := opensTest.isLocal token rest
  have closed := closesTest.isLocal token rest
  rcases token.toText_cases with ⟨c, bracket, textEq⟩ | ⟨body, noOpening, -, textEq⟩
  · have plain : '<' ∉ [c] := by simpa using Ne.symm bracket
    have alone := marks_plain_append opensTest closesTest plain []
    rw [textEq, marks_plain_append opensTest closesTest plain rest]
    rw [List.append_nil] at alone
    rw [alone, marks, List.nil_append]
  · -- behind the opening bracket of a tag nothing is found before the tag ends
    have plain : '<' ∉ body ++ ['>'] := by simp [noOpening]
    have behind := marks_plain_append opensTest closesTest plain rest
    have alone := marks_plain_append opensTest closesTest plain []
    rw [List.append_nil] at alone
    rw [textEq, List.cons_append] at opened closed ⊢
    rw [List.cons_append] at opened closed ⊢
    rw [marks, marks, opened, closed, behind, alone]
    split
    · rfl
    · split <;> rfl

/-- Behind a text of whole tokens the places of the rest are those that it has alone. -/
theorem marks_append {left : Text} (tokenized : Tokenized left) (right : Text) :
    marks opens closes (left ++ right) = marks opens closes left ++ marks opens closes right := by
  refine Tokenized.induct
    (motive := fun left => marks opens closes (left ++ right)
      = marks opens closes left ++ marks opens closes right)
    ?_ ?_ tokenized
  · rfl
  · intro token rest _ ih
    rw [List.append_assoc, marks_token_append opensTest closesTest,
      marks_token_append opensTest closesTest, ih, List.append_assoc]

end

/-- Where the places are tags of an element, a text without such tags has none. -/
theorem marks_of_free {opens closes : Text → Bool} {element : Element}
    (opening : ∀ text, opens text = true → opensAt element text = true)
    (closing : ∀ text, closes text = true → closesAt element text = true) {text : Text}
    (free : Free [element] text) : marks opens closes text = [] := by
  induction text with
  | nil => rfl
  | cons c rest ih =>
      obtain ⟨opened, closed⟩ := free element (by simp)
      rw [openings, Text.countAt, Nat.add_eq_zero_iff] at opened
      rw [closings, Text.countAt, Nat.add_eq_zero_iff] at closed
      have later : Free [element] rest := by
        intro other member
        rw [List.mem_singleton.mp member]
        exact ⟨opened.2, closed.2⟩
      have noOpening : opens (c :: rest) ≠ true := by
        intro found
        simp [opening _ found] at opened
      have noClosing : closes (c :: rest) ≠ true := by
        intro found
        simp [closing _ found] at closed
      rw [marks, if_neg noOpening, if_neg noClosing, ih later]

/-! ### Tags that alternate -/

/-- Whether something is open behind a tag, given whether it is open before it. There is no answer
if the tag opens what is open or closes what is not. -/
def crossTag (inside opens : Bool) : Option Bool := if opens = inside then none else some opens

/-- Tags that can be followed alternate. -/
theorem isChain_of_crossTag {inside after : Bool} {tags : List Bool}
    (followed : tags.foldlM crossTag inside = some after) : (inside :: tags).IsChain (· ≠ ·) := by
  induction tags generalizing inside with
  | nil => exact List.isChain_singleton _
  | cons opens rest ih =>
      rw [List.foldlM_cons, Option.bind_eq_bind, Option.bind_eq_some_iff] at followed
      obtain ⟨behind, crossed, later⟩ := followed
      simp only [crossTag, Option.ite_none_left_eq_some, Option.some.injEq] at crossed
      obtain ⟨differs, rfl⟩ := crossed
      exact List.isChain_cons_cons.mpr ⟨Ne.symm differs, ih later⟩

/-- What is open behind tags that can be followed, the last of them tells. -/
theorem getLast_of_crossTag {inside after : Bool} {tags : List Bool}
    (followed : tags.foldlM crossTag inside = some after) :
    (inside :: tags).getLast? = some after := by
  induction tags generalizing inside with
  | nil => exact followed
  | cons opens rest ih =>
      rw [List.foldlM_cons, Option.bind_eq_bind, Option.bind_eq_some_iff] at followed
      obtain ⟨behind, crossed, later⟩ := followed
      simp only [crossTag, Option.ite_none_left_eq_some, Option.some.injEq] at crossed
      obtain ⟨-, rfl⟩ := crossed
      rw [List.getLast?_cons_cons]
      exact ih later

end MarkPress.Html
