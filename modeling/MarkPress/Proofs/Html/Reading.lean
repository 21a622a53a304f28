/-
Module: MarkPress.Proofs.Html.Reading
Purpose: Reading a text tag by tag, from left to right.
  `Text.delete` leaves out the places where one of some pieces stands. `readParagraphs` follows the
  tags of paragraphs and stops at a tag that may not stand where it does. Both look at the
  beginnings of the text one after another, and behind a text of whole tokens they go on as if the
  rest stood alone.
Main exports:
  Text.delete, blockTags, delete_append, blockElements, readParagraphs,
  readParagraphs_append, Free, free_openTag, free_closeTag, free_write, readParagraphs_of_free,
  emptyParagraph, emptyParagraph_infix_append
-/
import Mathlib.Tactic.ByContra
import MarkPress.Proofs.Html.Balance

namespace MarkPress

namespace Text

/-- A text without the pieces that stand in it, given how many characters are still to be left out
of the piece that was found last. -/
def deleteFrom (pieces : List Text) : Nat → Text → Text
  | _, [] => []
  | left + 1, _ :: rest => deleteFrom pieces left rest
  | 0, c :: rest =>
      match pieces.find? fun piece => startsWith piece (c :: rest) with
      | some piece => deleteFrom pieces (piece.length - 1) rest
      | none => c :: deleteFrom pieces 0 rest

/-- A text without the pieces that stand in it, found from left to right. -/
def delete (pieces : List Text) (text : Text) : Text := deleteFrom pieces 0 text

variable {pieces : List Text}

/-- What is left of a piece is left out, and what follows is read as if it stood alone. -/
theorem deleteFrom_length (left right : Text) :
    deleteFrom pieces left.length (left ++ right) = delete pieces right := by
  induction left with
  | nil => rfl
  | cons c left ih => exact ih

end Text

namespace Html

/-! ### Leaving out tags -/

/-- The tags of the elements that make up the blocks of an output. -/
def blockTags : List Text :=
  ["<section>".toList, "</section>".toList, "<p>".toList, "</p>".toList, "<h1>".toList,
    "</h1>".toList, "<h2>".toList, "</h2>".toList, "<h3>".toList, "</h3>".toList,
    "<pre class=\"code\">".toList, "</pre>".toList, "<hr />".toList]

/-- A text that has its brackets at its two ends and nowhere else. -/
def Bracketed (piece : Text) : Prop :=
  ∃ body, '<' ∉ body ∧ '>' ∉ body ∧ piece = '<' :: body ++ ['>']

theorem bracketed_blockTags : ∀ piece ∈ blockTags, Bracketed piece := by
  intro piece member
  have all : ∀ piece ∈ blockTags, '<' ∉ piece.tail.dropLast ∧ '>' ∉ piece.tail.dropLast
      ∧ piece = '<' :: piece.tail.dropLast ++ ['>'] := by decide
  exact ⟨_, all piece member⟩

/-- A bracketed text is the beginning of another one only if they are the same. -/
theorem Bracketed.eq_of_prefix {left right : Text} (hleft : Bracketed left)
    (hright : Bracketed right) (h : left <+: right) : left = right := by
  obtain ⟨leftBody, -, -, rfl⟩ := hleft
  obtain ⟨rightBody, -, noClosing, rfl⟩ := hright
  obtain ⟨more, moreEq⟩ := h
  rcases List.eq_nil_or_concat more with rfl | ⟨init, last, rfl⟩
  · simpa using moreEq
  · -- the closing bracket of the first one stands before the end of the second one
    have bodies : leftBody ++ ['>'] ++ init = rightBody := by
      rw [List.concat_eq_append, ← List.append_assoc] at moreEq
      simpa using (List.append_inj' moreEq rfl).1
    exact absurd (bodies ▸ by simp : '>' ∈ rightBody) noClosing

/-- A bracketed text stands at the place of a token only if it is that token. -/
theorem startsWith_bracketed {piece : Text} (bracketed : Bracketed piece) (token : Token)
    (rest : Text) :
    Text.startsWith piece (token.toText ++ rest) = true ↔ piece = token.toText := by
  have start : Text.startsWith piece (token.toText ++ rest)
      = Text.startsWith piece token.toText := by
    obtain ⟨body, -, noClosing, rfl⟩ := bracketed
    exact startsWith_token noClosing token rest
  rw [start, Text.startsWith_iff]
  constructor
  · intro h
    rcases token.toText_cases with ⟨c, bracket, textEq⟩ | tag
    · obtain ⟨body, -, -, rfl⟩ := bracketed
      rw [textEq, List.cons_append, List.cons_prefix_cons] at h
      exact absurd h.1.symm bracket
    · exact bracketed.eq_of_prefix tag h
  · rintro rfl
    exact List.prefix_refl _

section Delete

variable {pieces : List Text} (tags : ∀ piece ∈ pieces, Bracketed piece)
include tags

/-- Nothing is left out of a text without tags. -/
theorem delete_plain_append {left : Text} (plain : '<' ∉ left) (right : Text) :
    Text.delete pieces (left ++ right) = left ++ Text.delete pieces right := by
  induction left with
  | nil => rfl
  | cons c left ih =>
      simp only [List.mem_cons, not_or] at plain
      have none :
          (pieces.find? fun piece => Text.startsWith piece (c :: (left ++ right))) = none := by
        rw [List.find?_eq_none]
        intro piece member starts
        obtain ⟨body, -, -, rfl⟩ := tags piece member
        rw [Text.startsWith_iff, List.cons_append, List.cons_prefix_cons] at starts
        exact plain.1 starts.1
      rw [List.cons_append, Text.delete, Text.deleteFrom, none]
      exact congrArg (c :: ·) (ih plain.2)

/-- A token that is one of the tags is left out, and every other one stays. -/
theorem delete_token_append (token : Token) (rest : Text) :
    Text.delete pieces (token.toText ++ rest)
      = (if token.toText ∈ pieces then [] else token.toText) ++ Text.delete pieces rest := by
  have here := fun piece member => startsWith_bracketed (tags piece member) token rest
  rcases token.toText_cases with ⟨c, bracket, textEq⟩ | ⟨body, noOpening, noClosing, textEq⟩
  · have other : token.toText ∉ pieces := by
      intro member
      obtain ⟨body, -, -, piece⟩ := tags _ member
      rw [textEq] at piece
      exact bracket (List.cons.inj piece).1
    rw [if_neg other, textEq]
    exact delete_plain_append tags (by simpa using Ne.symm bracket) rest
  · rw [textEq, List.cons_append, List.cons_append, Text.delete, Text.deleteFrom]
    rw [textEq, List.cons_append, List.cons_append] at here
    split
    · -- a piece was found, and it is the token
      rename_i piece found
      have member := List.mem_of_find?_eq_some found
      have same := (here piece member).mp (List.find?_eq_some_iff_append.mp found).1
      have inPieces : '<' :: (body ++ ['>']) ∈ pieces := same ▸ member
      have length : piece.length - 1 = (body ++ ['>']).length := by simp [same]
      rw [if_pos inPieces, length, Text.deleteFrom_length]
      rfl
    · rename_i none
      have other : '<' :: (body ++ ['>']) ∉ pieces := by
        intro member
        have starts := (here _ member).mpr rfl
        exact absurd starts (by simpa using List.find?_eq_none.mp none _ member)
      have plain : '<' ∉ body ++ ['>'] := by simp [noOpening]
      have inner := delete_plain_append tags plain rest
      rw [if_neg other]
      exact congrArg ('<' :: ·) inner

/-- Behind a text of whole tokens the rest is read as if it stood alone. -/
theorem delete_append {left : Text} (tokenized : Tokenized left) (right : Text) :
    Text.delete pieces (left ++ right) = Text.delete pieces left ++ Text.delete pieces right := by
  refine Tokenized.induct
    (motive := fun left =>
      Text.delete pieces (left ++ right) = Text.delete pieces left ++ Text.delete pieces right)
    ?_ ?_ tokenized
  · rfl
  · intro token rest _ ih
    rw [List.append_assoc, delete_token_append tags, delete_token_append tags, ih,
      List.append_assoc]

end Delete

/-! ### Following the paragraphs -/

/-- The elements whose tags stand outside of paragraphs. -/
def blockElements : List Element := [.sect, .h1, .h2, .h3, .pre, .hr, .ul]

/-- Whether a paragraph is open behind the tag at the beginning of a text, given whether one is open
before it. A paragraph begins only where none is open and ends only where one is, and the tags of
blocks stand where none is. -/
def paragraphBehind (inside : Bool) (text : Text) : Option Bool :=
  if opensAt .p text then if inside then none else some true
  else if closesAt .p text then if inside then some false else none
  else if inside && blockElements.any fun e => opensAt e text || closesAt e text then none
  else some inside

/-- Whether a paragraph is open behind a text, read from left to right, given whether one is open
before it. There is no answer if a tag stands where it may not. -/
def readParagraphs : Bool → Text → Option Bool
  | inside, [] => some inside
  | inside, c :: rest =>
      (paragraphBehind inside (c :: rest)).bind fun after => readParagraphs after rest

theorem paragraphBehind_of_no_bracket (inside : Bool) {c : Char} (plain : c ≠ '<') (rest : Text) :
    paragraphBehind inside (c :: rest) = some inside := by
  have opens : ∀ element, opensAt element (c :: rest) = false := fun element =>
    Bool.eq_false_iff.mpr fun h => plain (opensAt_bracket c rest h)
  have closes : ∀ element, closesAt element (c :: rest) = false := fun element =>
    Bool.eq_false_iff.mpr fun h => plain (closesAt_bracket c rest h)
  simp [paragraphBehind, opens, closes]

theorem paragraphBehind_token (inside : Bool) (token : Token) (rest : Text) :
    paragraphBehind inside (token.toText ++ rest) = paragraphBehind inside token.toText := by
  simp only [paragraphBehind, opensAt_token, closesAt_token]

theorem readParagraphs_plain_append (inside : Bool) {left : Text} (plain : '<' ∉ left)
    (right : Text) : readParagraphs inside (left ++ right) = readParagraphs inside right := by
  induction left with
  | nil => rfl
  | cons c left ih =>
      simp only [List.mem_cons, not_or] at plain
      rw [List.cons_append, readParagraphs, paragraphBehind_of_no_bracket inside (Ne.symm plain.1),
        Option.bind_some, ih plain.2]

theorem readParagraphs_token_append (inside : Bool) (token : Token) (rest : Text) :
    readParagraphs inside (token.toText ++ rest)
      = (paragraphBehind inside token.toText).bind fun after => readParagraphs after rest := by
  have here := paragraphBehind_token inside token rest
  rcases token.toText_cases with ⟨c, -, textEq⟩ | ⟨body, noOpening, -, textEq⟩
  · rw [textEq] at here ⊢
    rw [← here]
    rfl
  · -- behind the opening bracket of a tag nothing is found before the tag ends
    rw [textEq, List.cons_append, List.cons_append] at here ⊢
    rw [readParagraphs, here]
    congr
    funext after
    exact readParagraphs_plain_append after (by simp [noOpening]) rest

/-- Behind a text of whole tokens the rest is read as if it stood alone. -/
theorem readParagraphs_append (inside : Bool) {left : Text} (tokenized : Tokenized left)
    (right : Text) :
    readParagraphs inside (left ++ right)
      = (readParagraphs inside left).bind fun after => readParagraphs after right := by
  revert inside
  refine Tokenized.induct
    (motive := fun left => ∀ inside, readParagraphs inside (left ++ right)
      = (readParagraphs inside left).bind fun after => readParagraphs after right)
    ?_ ?_ tokenized
  · intro inside
    rfl
  · intro token rest _ ih inside
    rw [List.append_assoc, readParagraphs_token_append, readParagraphs_token_append,
      Option.bind_assoc]
    simp only [ih]

/-! ### Texts without the tags of some elements -/

/-- A text in which no tag opens or closes one of the elements. -/
def Free (elements : List Element) (text : Text) : Prop :=
  ∀ element ∈ elements, openings element text = 0 ∧ closings element text = 0

variable {elements : List Element}

theorem free_plain {text : Text} (plain : '<' ∉ text) : Free elements text := by
  intro element _
  have opened := Text.countAt_append_of_no_bracket (@opensAt_bracket element) plain []
  have closed := Text.countAt_append_of_no_bracket (@closesAt_bracket element) plain []
  rw [List.append_nil] at opened closed
  exact ⟨opened, closed⟩

theorem free_nil : Free elements [] := free_plain List.not_mem_nil

theorem Free.append {left right : Text} (tokenized : Tokenized left) (hleft : Free elements left)
    (hright : Free elements right) : Free elements (left ++ right) := by
  intro element member
  obtain ⟨leftOpens, leftCloses⟩ := hleft element member
  obtain ⟨rightOpens, rightCloses⟩ := hright element member
  constructor
  · rw [openings, countAt_append opensAt_bracket (opensAt_token element) tokenized]
    exact Nat.add_eq_zero_iff.mpr ⟨leftOpens, rightOpens⟩
  · rw [closings, countAt_append closesAt_bracket (closesAt_token element) tokenized]
    exact Nat.add_eq_zero_iff.mpr ⟨leftCloses, rightCloses⟩

theorem Free.of_append {left right : Text} (tokenized : Tokenized left)
    (free : Free elements (left ++ right)) : Free elements left ∧ Free elements right := by
  have parts : ∀ e ∈ elements, (openings e left = 0 ∧ openings e right = 0)
      ∧ closings e left = 0 ∧ closings e right = 0 := by
    intro e member
    obtain ⟨opens, closes⟩ := free e member
    rw [openings, countAt_append opensAt_bracket (opensAt_token e) tokenized] at opens
    rw [closings, countAt_append closesAt_bracket (closesAt_token e) tokenized] at closes
    exact ⟨Nat.add_eq_zero_iff.mp opens, Nat.add_eq_zero_iff.mp closes⟩
  exact ⟨fun e member => ⟨(parts e member).1.1, (parts e member).2.1⟩,
    fun e member => ⟨(parts e member).1.2, (parts e member).2.2⟩⟩

theorem Free.mono {fewer : List Element} {text : Text} (free : Free elements text)
    (subset : ∀ e ∈ fewer, e ∈ elements) : Free fewer text :=
  fun element member => free element (subset element member)

/-- A token opens or closes the element that it begins with, and no other one. -/
theorem free_token {token : Token}
    (opens : ∀ e ∈ elements, opensAt e token.toText = false)
    (closes : ∀ e ∈ elements, closesAt e token.toText = false) : Free elements token.toText := by
  intro element member
  have opened := countAt_token_append opensAt_bracket (opensAt_token element token) []
  have closed := countAt_token_append closesAt_bracket (closesAt_token element token) []
  rw [List.append_nil, opens element member] at opened
  rw [List.append_nil, closes element member] at closed
  exact ⟨opened, closed⟩

theorem free_named {other : Element} (differs : other ∉ elements) {token : Token} {d : Char}
    {rest : Text} (hd : EndsName d) (textEq : token.toText = '<' :: other.name ++ d :: rest) :
    Free elements token.toText := by
  refine free_token (fun e member => ?_) (fun e _ => ?_)
  · rw [textEq, opensAt_tag e other hd, decide_eq_false_iff_not]
    rintro rfl
    exact differs member
  · rw [textEq, closesAt_tag e other hd]

theorem free_openTag {other : Element} (differs : other ∉ elements)
    (named : other.name ∈ elementNames) {attributes : Attributes} (known : attributes.Known) :
    Free elements (other.openTag attributes) := by
  obtain ⟨written, writtenEq⟩ := known.toText_eq
  have textEq : other.openTag attributes = (Token.opening other.name named written).toText := by
    rw [Element.openTag, writtenEq]
    rfl
  obtain ⟨d, rest, hd, restEq⟩ := fields_endsName written ['>'] ⟨'>', [], .inl rfl, rfl⟩
  rw [textEq]
  apply free_named differs hd
  rw [Token.toText, List.append_assoc, restEq]

theorem free_voidTag {elements : List Element} {other : Element} (differs : other ∉ elements)
    (named : other.name ∈ elementNames) {attributes : Attributes} (known : attributes.Known) :
    Free elements (other.voidTag attributes) := by
  obtain ⟨written, writtenEq⟩ := known.toText_eq
  have textEq : other.voidTag attributes = (Token.void other.name named written).toText := by
    rw [Element.voidTag, writtenEq]
    rfl
  obtain ⟨d, rest, hd, restEq⟩ :=
    fields_endsName written " />".toList ⟨' ', "/>".toList, .inr rfl, rfl⟩
  rw [textEq]
  apply free_named differs hd
  rw [Token.toText, List.append_assoc, restEq]

theorem free_closeTag {other : Element} (differs : other ∉ elements)
    (named : other.name ∈ elementNames) : Free elements other.closeTag := by
  have textEq : other.closeTag = (Token.closing other.name named).toText := rfl
  rw [textEq]
  refine free_token (fun e _ => ?_) (fun e member => ?_)
  · rw [← textEq, opensAt_closeTag]
  · rw [← textEq, closesAt_closeTag, decide_eq_false_iff_not]
    rintro rfl
    exact differs member

/-- Around a text without the tags of some elements every other element leaves such a text. -/
theorem free_write {element : Option Element} (other : ∀ e, element = some e → e ∉ elements)
    (named : ∀ e, element = some e → e.name ∈ elementNames) {attributes : Attributes}
    (known : attributes.Known) {content : Text} (tokenized : Tokenized content)
    (free : Free elements content) (shape : Shape) :
    Free elements (write element attributes content shape) := by
  cases element with
  | none =>
      cases shape with
      | void => exact free_nil
      | whole | opening | closing => exact free
  | some e =>
      have beginsTokenized := tokenized_openTag (named e rfl) known
      have begins := free_openTag (other e rfl) (named e rfl) known
      have ends := free_closeTag (other e rfl) (named e rfl)
      cases shape with
      | void => exact free_voidTag (other e rfl) (named e rfl) known
      | whole =>
          exact .append (beginsTokenized.append tokenized) (.append beginsTokenized begins free)
            ends
      | opening => exact .append beginsTokenized begins free
      | closing => exact .append tokenized free ends

/-- A text without the tags of paragraphs, and without the tags of blocks where a paragraph is open,
leaves the flag as it is. -/
theorem readParagraphs_of_free {inside : Bool} {text : Text}
    (free : Free (.p :: if inside then blockElements else []) text) :
    readParagraphs inside text = some inside := by
  induction text with
  | nil => rfl
  | cons c rest ih =>
      have here : ∀ e ∈ Element.p :: (if inside then blockElements else []),
          opensAt e (c :: rest) = false ∧ closesAt e (c :: rest) = false := by
        intro e member
        obtain ⟨opens, closes⟩ := free e member
        rw [openings, Text.countAt] at opens
        rw [closings, Text.countAt] at closes
        constructor
        · by_contra found
          simp [Bool.not_eq_false _ ▸ found] at opens
        · by_contra found
          simp [Bool.not_eq_false _ ▸ found] at closes
      have later : Free (.p :: if inside then blockElements else []) rest := by
        intro e member
        obtain ⟨opens, closes⟩ := free e member
        rw [openings, Text.countAt] at opens
        rw [closings, Text.countAt] at closes
        exact ⟨(Nat.add_eq_zero_iff.mp opens).2, (Nat.add_eq_zero_iff.mp closes).2⟩
      have flag : paragraphBehind inside (c :: rest) = some inside := by
        have noParagraph := here .p List.mem_cons_self
        have noBlock : (inside
            && blockElements.any fun e => opensAt e (c :: rest) || closesAt e (c :: rest))
            = false := by
          cases inside with
          | false => rfl
          | true =>
              rw [Bool.true_and, List.any_eq_false]
              intro e member
              simp [here e (List.mem_cons_of_mem _ member)]
        simp [paragraphBehind, noParagraph, noBlock]
      rw [readParagraphs, flag, Option.bind_some, ih later]

/-! ### Empty paragraphs -/

/-- A paragraph with nothing in it. -/
def emptyParagraph : Text := "<p></p>".toList

theorem emptyParagraph_infix_plain {left right : Text} (plain : '<' ∉ left) :
    emptyParagraph <:+: left ++ right ↔ emptyParagraph <:+: right := by
  induction left with
  | nil => rfl
  | cons c left ih =>
      simp only [List.mem_cons, not_or] at plain
      have notHere : ¬ emptyParagraph <+: c :: (left ++ right) := by
        intro here
        exact plain.1 (List.cons_prefix_cons.mp here).1
      rw [List.cons_append, List.infix_cons_iff, or_iff_right notHere, ih plain.2]

/-- An empty paragraph begins at a token only if the token begins a paragraph. -/
theorem emptyParagraph_infix_token (token : Token) (rest : Text) :
    emptyParagraph <:+: token.toText ++ rest ↔
      (token.toText = "<p>".toList ∧ "</p>".toList <+: rest) ∨ emptyParagraph <:+: rest := by
  rcases token.toText_cases with ⟨c, bracket, textEq⟩ | ⟨body, noOpening, noClosing, textEq⟩
  · have other : ¬ (token.toText = "<p>".toList ∧ "</p>".toList <+: rest) := by
      rintro ⟨same, -⟩
      rw [textEq] at same
      cases same
    rw [or_iff_right other, textEq]
    exact emptyParagraph_infix_plain (by simpa using Ne.symm bracket)
  · have here : emptyParagraph <+: token.toText ++ rest
        ↔ token.toText = "<p>".toList ∧ "</p>".toList <+: rest := by
      have parts : emptyParagraph = "<p>".toList ++ "</p>".toList := rfl
      constructor
      · intro begins
        have opening : "<p>".toList = token.toText := by
          refine (startsWith_bracketed (bracketed_blockTags _ (by decide)) token rest).mp ?_
          rw [Text.startsWith_iff]
          exact (parts ▸ List.prefix_append _ _ : "<p>".toList <+: emptyParagraph).trans begins
        rw [← opening, parts, List.prefix_append_right_inj] at begins
        exact ⟨opening.symm, begins⟩
      · rintro ⟨same, closes⟩
        rw [same, parts, List.prefix_append_right_inj]
        exact closes
    have inner : emptyParagraph <:+: body ++ ['>'] ++ rest ↔ emptyParagraph <:+: rest :=
      emptyParagraph_infix_plain (by simp [noOpening])
    rw [← here, textEq, List.cons_append, List.cons_append, List.infix_cons_iff, inner]

/-- A text without paragraphs adds no empty one to what stands behind it. -/
theorem emptyParagraph_infix_append {left right : Text} (tokenized : Tokenized left)
    (free : Free [.p] left) : emptyParagraph <:+: left ++ right ↔ emptyParagraph <:+: right := by
  refine Tokenized.induct (motive := fun left => Free [.p] left →
    (emptyParagraph <:+: left ++ right ↔ emptyParagraph <:+: right)) ?_ ?_ tokenized free
  · exact fun _ => Iff.rfl
  · intro token rest _ ih free
    obtain ⟨here, later⟩ := free.of_append (tokenized_token token)
    have other : ¬ (token.toText = "<p>".toList ∧ "</p>".toList <+: rest ++ right) := by
      rintro ⟨same, -⟩
      have none := (here .p (by simp)).1
      rw [same] at none
      cases none
    rw [List.append_assoc, emptyParagraph_infix_token, or_iff_right other]
    exact ih later

/-- A text that is not empty and has no paragraphs does not begin with the end of one. -/
theorem not_closing_prefix {left : Text} (tokenized : Tokenized left) (filled : left ≠ [])
    (free : Free [.p] left) (right : Text) : ¬ "</p>".toList <+: left ++ right := by
  obtain ⟨tokens, rfl⟩ := tokenized
  cases tokens with
  | nil => exact absurd rfl filled
  | cons token rest =>
      intro begins
      rw [List.flatMap_cons, List.append_assoc, ← Text.startsWith_iff,
        startsWith_bracketed (bracketed_blockTags _ (by decide))] at begins
      rw [List.flatMap_cons] at free
      have closes := ((free.of_append (tokenized_token token)).1 .p (by simp)).2
      rw [← begins] at closes
      cases closes

end Html

end MarkPress
