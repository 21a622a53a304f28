/-
Module: MarkPress.Proofs.Html.Balance
Purpose: Counting the tags of a text.
  `openings` and `closings` count the places of a text where a tag of an element begins. A place is
  found by its first characters alone, so a count of two texts set side by side need not be the sum
  of their counts. It is if the left one consists of tokens: no tag goes over the boundary then.
Main exports:
  openings, closings, balance, balance_append, balance_write, balance_of_plain, Inline,
  Tag.balance_half, Tag.inline_half
-/
import MarkPress.Proofs.Html.Token
import MarkPress.Proofs.Text.Ends

namespace MarkPress

namespace Text

/-- The number of places of a text that pass a test on what follows there. -/
def countAt (here : Text → Bool) : Text → Nat
  | [] => 0
  | c :: rest => (if here (c :: rest) then 1 else 0) + countAt here rest

/-- Places that only an opening bracket can pass are not found before the first one. -/
theorem countAt_append_of_no_bracket {here : Text → Bool}
    (bracket : ∀ c rest, here (c :: rest) = true → c = '<') {left : Text}
    (plain : '<' ∉ left) (right : Text) : countAt here (left ++ right) = countAt here right := by
  induction left with
  | nil => rfl
  | cons c left ih =>
      simp only [List.mem_cons, not_or] at plain
      have noPlace : here (c :: (left ++ right)) = false := by
        cases place : here (c :: (left ++ right)) with
        | false => rfl
        | true => exact absurd (bracket c _ place).symm plain.1
      simp [countAt, noPlace, ih plain.2]

end Text

namespace Html

/-! ### Counts -/

/-- Whether a text begins with a tag that opens an element. -/
def opensAt (element : Element) (text : Text) : Bool :=
  Text.startsWith ('<' :: element.name ++ ['>']) text
    || Text.startsWith ('<' :: element.name ++ [' ']) text

/-- Whether a text begins with a tag that closes an element. -/
def closesAt (element : Element) (text : Text) : Bool :=
  Text.startsWith ('<' :: '/' :: element.name ++ ['>']) text

/-- The number of tags in a text that open an element. -/
def openings (element : Element) (text : Text) : Nat := Text.countAt (opensAt element) text

/-- The number of tags in a text that close an element. -/
def closings (element : Element) (text : Text) : Nat := Text.countAt (closesAt element) text

/-- How many more tags of a text open an element than close it. -/
def balance (element : Element) (text : Text) : Int := openings element text - closings element text

/-! ### Names -/

theorem Element.name_injective {left right : Element} (h : left.name = right.name) :
    left = right := by
  cases left <;> cases right <;> first | rfl | exact absurd h (by decide)

/-- A character that can stand behind the name in a tag. -/
def EndsName (c : Char) : Prop := c = '>' ∨ c = ' '

theorem Element.name_plain (element : Element) :
    ∀ c ∈ element.name, c ≠ '<' ∧ c ≠ '/' ∧ ¬EndsName c := by
  unfold EndsName
  have all : element.name.all
      (fun c => decide (c ≠ '<' ∧ c ≠ '/' ∧ ¬(c = '>' ∨ c = ' '))) = true := by
    cases element <;> decide
  intro c member
  exact of_decide_eq_true (List.all_eq_true.mp all c member)

theorem plain_of_mem_elementNames {name : Text} (known : name ∈ elementNames) :
    ∀ c ∈ name, c ≠ '<' ∧ c ≠ '/' ∧ ¬EndsName c := by
  simp only [elementNames, List.mem_map] at known
  obtain ⟨element, -, rfl⟩ := known
  exact element.name_plain

/-- Names that are followed by the end of a name are equal if one is the beginning of the other. -/
theorem name_eq_of_prefix {left right : Text} {c d : Char} {rest : Text}
    (leftPlain : ∀ x ∈ left, ¬EndsName x) (rightPlain : ∀ x ∈ right, ¬EndsName x)
    (hc : EndsName c) (hd : EndsName d) (h : left ++ [c] <+: right ++ d :: rest) :
    left = right ∧ c = d := by
  induction left generalizing right with
  | nil =>
      cases right with
      | nil => simpa using h
      | cons x right =>
          simp only [List.nil_append, List.cons_append, List.cons_prefix_cons] at h
          exact absurd (h.1 ▸ hc) (rightPlain x (by simp))
  | cons x left ih =>
      cases right with
      | nil =>
          simp only [List.nil_append, List.cons_append, List.cons_prefix_cons] at h
          exact absurd (h.1 ▸ hd) (leftPlain x (by simp))
      | cons y right =>
          simp only [List.cons_append, List.cons_prefix_cons] at h
          obtain ⟨rfl, rfl⟩ := ih (fun z hz => leftPlain z (by simp [hz]))
            (fun z hz => rightPlain z (by simp [hz])) h.2
          exact ⟨by rw [h.1], rfl⟩

/-! ### Tokens side by side -/

theorem TagAttribute.no_bracket (field : TagAttribute) :
    '<' ∉ field.toText ∧ '>' ∉ field.toText := by
  have namePlain : '<' ∉ field.name ∧ '>' ∉ field.name := by
    have : ∀ name ∈ attributeNames, '<' ∉ name ∧ '>' ∉ name := by decide
    exact this field.name field.known
  constructor
  · have : '<' ∉ field.value := fun member => (field.plain _ member).1 rfl
    simp [toText, namePlain, this]
  · have : '>' ∉ field.value := fun member => (field.plain _ member).2.1 rfl
    simp [toText, namePlain, this]

/-- A tag has its brackets at its two ends and nowhere else. -/
theorem Token.toText_cases (token : Token) :
    (∃ c, c ≠ '<' ∧ token.toText = [c]) ∨
      ∃ body, '<' ∉ body ∧ '>' ∉ body ∧ token.toText = '<' :: body ++ ['>'] := by
  have fields : ∀ written : List TagAttribute,
      '<' ∉ written.flatMap TagAttribute.toText ∧ '>' ∉ written.flatMap TagAttribute.toText := by
    intro written
    simp only [List.mem_flatMap, not_exists, not_and]
    exact ⟨fun field _ => field.no_bracket.1, fun field _ => field.no_bracket.2⟩
  have names : ∀ name ∈ elementNames, '<' ∉ name ∧ '>' ∉ name := by
    intro name known
    have plain := plain_of_mem_elementNames known
    exact ⟨fun member => (plain _ member).1 rfl, fun member => (plain _ member).2.2 (.inl rfl)⟩
  cases token with
  | char c plain => exact .inl ⟨c, plain.1, rfl⟩
  | opening name known written =>
      refine .inr ⟨name ++ written.flatMap TagAttribute.toText, ?_, ?_, by simp [toText]⟩
      · simp only [List.mem_append, not_or]
        exact ⟨(names name known).1, (fields written).1⟩
      · simp only [List.mem_append, not_or]
        exact ⟨(names name known).2, (fields written).2⟩
  | void name known written =>
      refine .inr ⟨name ++ written.flatMap TagAttribute.toText ++ [' ', '/'], ?_, ?_,
        by simp [toText]⟩
      · simp only [List.mem_append, not_or]
        exact ⟨⟨(names name known).1, (fields written).1⟩, by decide⟩
      · simp only [List.mem_append, not_or]
        exact ⟨⟨(names name known).2, (fields written).2⟩, by decide⟩
  | closing name known =>
      refine .inr ⟨'/' :: name, ?_, ?_, by simp [toText]⟩
      · simp [(names name known).1]
      · simp [(names name known).2]

/-- A beginning with at most one closing bracket, at its end, does not go beyond the first closing
bracket of a text. -/
theorem prefix_of_prefix_append {start body rest : Text} {last : Char} (plain : '>' ∉ start)
    (h : start ++ [last] <+: body ++ '>' :: rest) : start ++ [last] <+: body ++ ['>'] := by
  rcases Nat.lt_or_ge body.length (start ++ [last]).length with longer | shorter
  · -- the bracket behind the body lies within the beginning, so it is its last character
    have whole : body ++ ['>'] <+: body ++ '>' :: rest := by simp
    have covers : body ++ ['>'] <+: start ++ [last] :=
      List.prefix_of_prefix_length_le whole h (by
        simp only [List.length_append, List.length_singleton] at longer ⊢
        omega)
    rcases Nat.lt_or_ge (body ++ ['>']).length (start ++ [last]).length with more | same
    · have inside : body ++ ['>'] <+: start :=
        List.prefix_of_prefix_length_le covers (List.prefix_append _ _) (by
          simp only [List.length_append, List.length_singleton] at more ⊢
          omega)
      exact absurd (inside.subset (by simp)) plain
    · have equal : body ++ ['>'] = start ++ [last] := covers.eq_of_length_le same
      exact equal ▸ List.prefix_refl _
  · have : start ++ [last] <+: body :=
      List.prefix_of_prefix_length_le h (List.prefix_append _ _) shorter
    exact List.prefix_append_of_prefix this

/-- Whether a beginning stands at the place of a token does not depend on what follows it. -/
theorem startsWith_token {start : Text} {last : Char} (plain : '>' ∉ start) (token : Token)
    (rest : Text) :
    Text.startsWith ('<' :: start ++ [last]) (token.toText ++ rest)
      = Text.startsWith ('<' :: start ++ [last]) token.toText := by
  apply Bool.eq_iff_iff.mpr
  rw [Text.startsWith_iff, Text.startsWith_iff]
  rcases token.toText_cases with ⟨c, bracket, textEq⟩ | ⟨body, -, -, textEq⟩
  · rw [textEq]
    simp [Ne.symm bracket]
  · rw [textEq]
    constructor
    · intro h
      have whole : '<' :: start ++ [last] <+: ('<' :: body) ++ '>' :: rest := by simpa using h
      exact prefix_of_prefix_append (by simp [plain]) whole
    · exact fun h => List.prefix_append_of_prefix h

theorem countAt_token_append {here : Text → Bool}
    (bracket : ∀ c rest, here (c :: rest) = true → c = '<') {token : Token}
    (isLocal : ∀ rest, here (token.toText ++ rest) = here token.toText) (rest : Text) :
    Text.countAt here (token.toText ++ rest)
      = (if here token.toText then 1 else 0) + Text.countAt here rest := by
  have whole := isLocal rest
  rcases token.toText_cases with ⟨c, -, textEq⟩ | ⟨body, noBracket, -, textEq⟩
  · rw [textEq] at whole ⊢
    simp only [List.cons_append, List.nil_append, Text.countAt] at whole ⊢
    rw [whole]
  · rw [textEq] at whole ⊢
    simp only [List.cons_append, Text.countAt] at whole ⊢
    rw [whole, Text.countAt_append_of_no_bracket bracket (by simp [noBracket])]

theorem opensAt_bracket {element : Element} (c : Char) (rest : Text)
    (h : opensAt element (c :: rest) = true) : c = '<' := by
  simp only [opensAt, Bool.or_eq_true, Text.startsWith_iff, List.cons_append,
    List.cons_prefix_cons] at h
  rcases h with ⟨rfl, -⟩ | ⟨rfl, -⟩ <;> rfl

theorem closesAt_bracket {element : Element} (c : Char) (rest : Text)
    (h : closesAt element (c :: rest) = true) : c = '<' := by
  simp only [closesAt, Text.startsWith_iff, List.cons_append, List.cons_prefix_cons] at h
  exact h.1.symm

theorem Element.not_mem_name (element : Element) : '>' ∉ element.name :=
  fun member => (element.name_plain _ member).2.2 (.inl rfl)

theorem opensAt_token (element : Element) (token : Token) (rest : Text) :
    opensAt element (token.toText ++ rest) = opensAt element token.toText := by
  simp only [opensAt, startsWith_token element.not_mem_name]

theorem closesAt_token (element : Element) (token : Token) (rest : Text) :
    closesAt element (token.toText ++ rest) = closesAt element token.toText := by
  have slashed : '>' ∉ '/' :: element.name := by simp [element.not_mem_name]
  exact startsWith_token slashed token rest

/-- Behind a text that consists of tokens the places in another text count as they do alone. -/
theorem countAt_append {here : Text → Bool}
    (bracket : ∀ c rest, here (c :: rest) = true → c = '<')
    (isLocal : ∀ (token : Token) rest, here (token.toText ++ rest) = here token.toText)
    {left : Text} (tokenized : Tokenized left) (right : Text) :
    Text.countAt here (left ++ right) = Text.countAt here left + Text.countAt here right := by
  refine Tokenized.induct
    (motive := fun left =>
      Text.countAt here (left ++ right) = Text.countAt here left + Text.countAt here right)
    ?_ ?_ tokenized
  · simp [Text.countAt]
  · intro first rest _ ih
    rw [List.append_assoc, countAt_token_append bracket (isLocal first), ih,
      countAt_token_append bracket (isLocal first), Nat.add_assoc]

theorem balance_append (element : Element) {left : Text} (tokenized : Tokenized left)
    (right : Text) :
    balance element (left ++ right) = balance element left + balance element right := by
  have opened : openings element (left ++ right) = openings element left + openings element right :=
    countAt_append opensAt_bracket (opensAt_token element) tokenized right
  have closed : closings element (left ++ right) = closings element left + closings element right :=
    countAt_append closesAt_bracket (closesAt_token element) tokenized right
  rw [balance, balance, balance, opened, closed]
  omega

theorem balance_nil (element : Element) : balance element [] = 0 := rfl

/-! ### Single tags -/

theorem opensAt_tag (element other : Element) {d : Char} (hd : EndsName d) (rest : Text) :
    opensAt element ('<' :: other.name ++ d :: rest) = decide (element = other) := by
  apply Bool.eq_iff_iff.mpr
  simp only [opensAt, Bool.or_eq_true, Text.startsWith_iff, decide_eq_true_eq, List.cons_append,
    List.prefix_cons_inj]
  constructor
  · have named : ∀ c, EndsName c → element.name ++ [c] <+: other.name ++ d :: rest →
        element = other := by
      intro c hc h
      have same := name_eq_of_prefix (fun x hx => (element.name_plain x hx).2.2)
        (fun x hx => (other.name_plain x hx).2.2) hc hd h
      exact Element.name_injective same.1
    rintro (h | h)
    · exact named '>' (.inl rfl) h
    · exact named ' ' (.inr rfl) h
  · rintro rfl
    rcases hd with rfl | rfl
    · exact .inl (by simp)
    · exact .inr (by simp)

theorem closesAt_tag (element other : Element) {d : Char} (hd : EndsName d) (rest : Text) :
    closesAt element ('<' :: other.name ++ d :: rest) = false := by
  apply Bool.eq_false_iff.mpr
  simp only [closesAt, ne_eq, Text.startsWith_iff, List.cons_append, List.prefix_cons_inj]
  intro h
  cases nameEq : other.name with
  | nil =>
      simp only [nameEq, List.nil_append, List.cons_prefix_cons] at h
      rcases hd with rfl | rfl <;> exact absurd h.1 (by decide)
  | cons c name =>
      simp only [nameEq, List.cons_append, List.cons_prefix_cons] at h
      exact (other.name_plain c (by simp [nameEq])).2.1 h.1.symm

theorem opensAt_closeTag (element other : Element) : opensAt element other.closeTag = false := by
  have noSlash : ∀ c, EndsName c → ¬element.name ++ [c] <+: '/' :: (other.name ++ ['>']) := by
    intro c hc h
    cases nameEq : element.name with
    | nil =>
        simp only [nameEq, List.nil_append, List.cons_prefix_cons] at h
        rcases hc with rfl | rfl <;> exact absurd h.1 (by decide)
    | cons d name =>
        simp only [nameEq, List.cons_append, List.cons_prefix_cons] at h
        exact (element.name_plain d (by simp [nameEq])).2.1 h.1
  have closeTagEq : other.closeTag = '<' :: '/' :: (other.name ++ ['>']) := rfl
  apply Bool.eq_false_iff.mpr
  simp only [opensAt, ne_eq, Bool.or_eq_true, Text.startsWith_iff, closeTagEq, List.cons_append,
    List.prefix_cons_inj, not_or]
  exact ⟨noSlash '>' (.inl rfl), noSlash ' ' (.inr rfl)⟩

theorem closesAt_closeTag (element other : Element) :
    closesAt element other.closeTag = decide (element = other) := by
  have closeTagEq : other.closeTag = '<' :: '/' :: (other.name ++ ['>']) := rfl
  apply Bool.eq_iff_iff.mpr
  simp only [closesAt, Text.startsWith_iff, closeTagEq, List.cons_append, List.prefix_cons_inj,
    decide_eq_true_eq]
  constructor
  · intro h
    have same := name_eq_of_prefix (fun x hx => (element.name_plain x hx).2.2)
      (fun x hx => (other.name_plain x hx).2.2) (.inl rfl) (.inl rfl) h
    exact Element.name_injective same.1
  · rintro rfl
    exact List.prefix_refl _

/-- Behind the name of a tag with attributes stands a space or the end of the tag. -/
theorem fields_endsName (written : List TagAttribute) (last : Text)
    (ends : ∃ d rest, EndsName d ∧ last = d :: rest) :
    ∃ d rest, EndsName d ∧ written.flatMap TagAttribute.toText ++ last = d :: rest := by
  cases written with
  | nil => exact ends
  | cons field others =>
      exact ⟨' ', _, .inr rfl, rfl⟩

/-- A token opens or closes an element at its beginning or not at all. -/
theorem balance_token (element : Element) (token : Token) :
    balance element token.toText
      = (if opensAt element token.toText then 1 else 0)
        - if closesAt element token.toText then 1 else 0 := by
  have opened := countAt_token_append opensAt_bracket (opensAt_token element token) []
  have closed := countAt_token_append closesAt_bracket (closesAt_token element token) []
  rw [List.append_nil] at opened closed
  rw [balance, openings, closings, opened, closed]
  simp only [Text.countAt, Nat.add_zero]
  split <;> split <;> rfl

/-- A token that begins with the name of an element opens that element. -/
theorem balance_named (element : Element) {other : Element} {token : Token} {d : Char} {rest : Text}
    (hd : EndsName d) (named : token.toText = '<' :: other.name ++ d :: rest) :
    balance element token.toText = if element = other then 1 else 0 := by
  rw [balance_token, named, opensAt_tag element other hd, closesAt_tag element other hd]
  simp

theorem balance_openTag (element other : Element) (named : other.name ∈ elementNames)
    {attributes : Attributes} (known : attributes.Known) :
    balance element (other.openTag attributes) = if element = other then 1 else 0 := by
  obtain ⟨written, writtenEq⟩ := known.toText_eq
  let token : Token := .opening other.name named written
  have textEq : other.openTag attributes = token.toText := by
    rw [Element.openTag, writtenEq]
    rfl
  obtain ⟨d, rest, hd, restEq⟩ := fields_endsName written ['>'] ⟨'>', [], .inl rfl, rfl⟩
  have placeEq : token.toText = '<' :: other.name ++ d :: rest := by
    rw [← restEq]
    simp [token, Token.toText]
  rw [textEq]
  exact balance_named element hd placeEq

theorem balance_voidTag {element other : Element} (different : element ≠ other)
    (named : other.name ∈ elementNames) {attributes : Attributes} (known : attributes.Known) :
    balance element (other.voidTag attributes) = 0 := by
  obtain ⟨written, writtenEq⟩ := known.toText_eq
  let token : Token := .void other.name named written
  have textEq : other.voidTag attributes = token.toText := by
    rw [Element.voidTag, writtenEq]
    rfl
  obtain ⟨d, rest, hd, restEq⟩ :=
    fields_endsName written " />".toList ⟨' ', "/>".toList, .inr rfl, rfl⟩
  have placeEq : token.toText = '<' :: other.name ++ d :: rest := by
    rw [← restEq]
    simp [token, Token.toText]
  rw [textEq, balance_named element hd placeEq, if_neg different]

theorem balance_closeTag (element other : Element) (named : other.name ∈ elementNames) :
    balance element other.closeTag = if element = other then -1 else 0 := by
  have textEq : other.closeTag = (Token.closing other.name named).toText := rfl
  rw [textEq, balance_token, ← textEq, opensAt_closeTag, closesAt_closeTag]
  by_cases same : element = other <;> simp [same]

/-! ### Elements with content -/

/-- How many more tags the parts of an element open than they close. -/
def shapeBalance : Shape → Int
  | .opening => 1
  | .closing => -1
  | .whole | .void => 0

/-- Written around a content, an element adds what its shape says, and the void shape drops what the
content had. -/
theorem balance_write (element : Element) {other : Option Element}
    (named : ∀ e, other = some e → e.name ∈ elementNames) {attributes : Attributes}
    (known : attributes.Known) {content : Text} (tokenized : Tokenized content) {shape : Shape}
    (void : shape = .void → other ≠ some element) :
    balance element (write other attributes content shape)
      = (if other = some element then shapeBalance shape else 0)
        + if shape = .void then 0 else balance element content := by
  cases other with
  | none => cases shape <;> simp [write, balance_nil]
  | some e =>
      have begins := tokenized_openTag (named e rfl) known
      have opened := balance_openTag element e (named e rfl) known
      have closed := balance_closeTag element e (named e rfl)
      have same : (some e = some element) ↔ element = e := by simp [eq_comm]
      cases shape with
      | void =>
          have different : element ≠ e := fun h => void rfl (same.mpr h)
          simp [write, shapeBalance, balance_voidTag different (named e rfl) known]
      | whole =>
          simp only [write, shapeBalance, same, reduceCtorEq, if_false]
          rw [balance_append _ (begins.append tokenized), balance_append _ begins, opened, closed]
          split <;> omega
      | opening =>
          simp only [write, shapeBalance, same, reduceCtorEq, if_false]
          rw [balance_append _ begins, opened]
      | closing =>
          simp only [write, shapeBalance, same, reduceCtorEq, if_false]
          rw [balance_append _ tokenized, closed]
          exact Int.add_comm _ _

/-- Texts without tags are in balance. -/
theorem balance_of_plain (element : Element) {text : Text} (plain : '<' ∉ text) :
    balance element text = 0 := by
  have opened := Text.countAt_append_of_no_bracket (@opensAt_bracket element) plain []
  have closed := Text.countAt_append_of_no_bracket (@closesAt_bracket element) plain []
  rw [List.append_nil] at opened closed
  simp [balance, openings, closings, opened, closed, Text.countAt]

theorem balance_escapeText (element : Element) (text : Text) :
    balance element (escapeText text) = 0 :=
  balance_of_plain element fun member => (plain_escapeText _ member).1 rfl

/-! ### Text that goes into regions -/

/-- The elements whose halves are written into regions as text. -/
def inlineElements : List Element := [.code, .a, .strong, .em, .li, .ul]

/-- A text that may go into a region: whole tokens, balanced but for the inline elements. -/
structure Inline (text : Text) : Prop where
  tokenized : Tokenized text
  neutral : ∀ element, element ∉ inlineElements → balance element text = 0

theorem inline_of_plain {text : Text} (plain : ∀ c ∈ text, c ≠ '<' ∧ c ≠ '>') : Inline text :=
  ⟨tokenized_of_plain plain,
    fun element _ => balance_of_plain element fun member => (plain _ member).1 rfl⟩

theorem Inline.append {left right : Text} (hleft : Inline left) (hright : Inline right) :
    Inline (left ++ right) := by
  refine ⟨hleft.tokenized.append hright.tokenized, fun element block => ?_⟩
  rw [balance_append element hleft.tokenized, hleft.neutral element block,
    hright.neutral element block]
  rfl

end Html

namespace Tag

open Html

/-- A half of the element of a tag counts for that element only. -/
theorem balance_half (tag : Tag) (element : Element) {attributes : Attributes}
    (known : attributes.Known) {shape : Shape} (half : shape ≠ .void) :
    balance element (tag.write [] attributes shape)
      = if tag.traits.element = some element then shapeBalance shape else 0 := by
  have named : ∀ e, tag.traits.element = some e → e.name ∈ elementNames :=
    fun _ h => tag.name_mem_elementNames h
  rw [write, Html.balance_write element named known tokenized_nil fun void => absurd void half,
    balance_nil]
  simp

theorem balance_openHalf (tag : Tag) (element : Element) :
    balance element tag.openHalf = if tag.traits.element = some element then 1 else 0 :=
  tag.balance_half element tag.attributes_known (by decide)

theorem balance_closeHalf (tag : Tag) (element : Element) :
    balance element tag.closeHalf = if tag.traits.element = some element then -1 else 0 :=
  tag.balance_half element tag.attributes_known (by decide)

theorem element_inline {tag : Tag} (inline : tag.traits.isRegion = false) {element : Element}
    (block : element ∉ inlineElements) : tag.traits.element ≠ some element := by
  have all : ∀ t ∈ Tag.all, t.traits.isRegion = false →
      t.traits.element.all (fun e => decide (e ∈ inlineElements)) = true := by decide
  intro same
  have listed := all tag tag.mem_all inline
  rw [same] at listed
  exact block (of_decide_eq_true listed)

theorem inline_half {tag : Tag} (inline : tag.traits.isRegion = false) {attributes : Attributes}
    (known : attributes.Known) {shape : Shape} (half : shape ≠ .void) :
    Inline (tag.write [] attributes shape) := by
  refine ⟨tag.tokenized_write known tokenized_nil shape, fun element block => ?_⟩
  rw [tag.balance_half element known half, if_neg (element_inline inline block)]

theorem inline_openHalf {tag : Tag} (inline : tag.traits.isRegion = false) : Inline tag.openHalf :=
  inline_half inline tag.attributes_known (by decide)

theorem inline_closeHalf {tag : Tag} (inline : tag.traits.isRegion = false) :
    Inline tag.closeHalf :=
  inline_half inline tag.attributes_known (by decide)

end Tag

end MarkPress
