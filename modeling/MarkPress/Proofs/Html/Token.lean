/-
Module: MarkPress.Proofs.Html.Token
Purpose: The grammar that compiled output keeps to.
  A token is one character other than an angle bracket, or one complete tag of a known element with
  known attributes whose values hold neither angle brackets nor double quotes. A text that is a
  concatenation of tokens has no other markup in it, and such texts are closed under everything that
  the markup writes.
Main exports:
  elementNames, attributeNames, TagAttribute, Token, Tokenized, Tokenized.append,
  plain_escapeText, tokenized_write, Tag.tokenized_write
-/
import MarkPress.Region

namespace MarkPress.Html

/-! ### Tokens -/

/-- The names of the elements that the tags of the markup become. -/
def elementNames : List Text :=
  (Tag.all.filterMap fun tag => tag.traits.element).map Element.name

/-- The names of the attributes that the markup gives to its elements. -/
def attributeNames : List Text :=
  ["alt".toList, "class".toList, "href".toList, "id".toList, "src".toList]

/-- One attribute of a tag. Its value can end neither itself nor the tag. -/
structure TagAttribute where
  name : Text
  value : Text
  known : name ∈ attributeNames
  plain : ∀ c ∈ value, c ≠ '<' ∧ c ≠ '>' ∧ c ≠ '"'

/-- An attribute as it stands in a tag. -/
def TagAttribute.toText (field : TagAttribute) : Text :=
  ' ' :: field.name ++ "=\"".toList ++ field.value ++ ['"']

/-- The pieces of the output: characters that are not markup, and complete tags. -/
inductive Token where
  | char (c : Char) (plain : c ≠ '<' ∧ c ≠ '>')
  | opening (name : Text) (known : name ∈ elementNames) (attributes : List TagAttribute)
  | void (name : Text) (known : name ∈ elementNames) (attributes : List TagAttribute)
  | closing (name : Text) (known : name ∈ elementNames)

/-- A token as it is written. -/
def Token.toText : Token → Text
  | .char c _ => [c]
  | .opening name _ attributes => '<' :: name ++ attributes.flatMap TagAttribute.toText ++ ['>']
  | .void name _ attributes =>
      '<' :: name ++ attributes.flatMap TagAttribute.toText ++ " />".toList
  | .closing name _ => "</".toList ++ name ++ ['>']

/-- A text that consists of tokens. -/
def Tokenized (text : Text) : Prop := ∃ tokens : List Token, text = tokens.flatMap Token.toText

/-! ### Texts that consist of tokens -/

theorem tokenized_nil : Tokenized [] := ⟨[], rfl⟩

theorem tokenized_token (token : Token) : Tokenized token.toText := ⟨[token], by simp⟩

theorem Tokenized.append {left right : Text} (hleft : Tokenized left) (hright : Tokenized right) :
    Tokenized (left ++ right) := by
  obtain ⟨leftTokens, rfl⟩ := hleft
  obtain ⟨rightTokens, rfl⟩ := hright
  exact ⟨leftTokens ++ rightTokens, by simp⟩

theorem tokenized_flatMap {α : Type} {f : α → Text} {items : List α}
    (each : ∀ item ∈ items, Tokenized (f item)) : Tokenized (items.flatMap f) := by
  induction items with
  | nil => exact tokenized_nil
  | cons item rest ih =>
      simp only [List.flatMap_cons]
      apply Tokenized.append
      · exact each item (by simp)
      · exact ih fun other member => each other (by simp [member])

/-- Induction over the tokens of a text, from the first one on. -/
theorem Tokenized.induct {motive : Text → Prop} (nil : motive [])
    (token : ∀ (token : Token) (rest : Text), Tokenized rest → motive rest →
      motive (token.toText ++ rest)) {text : Text} (tokenized : Tokenized text) : motive text := by
  obtain ⟨tokens, rfl⟩ := tokenized
  induction tokens with
  | nil => exact nil
  | cons first rest ih => exact token first _ ⟨rest, rfl⟩ ih

/-- A text without angle brackets consists of its characters. -/
theorem tokenized_of_plain {text : Text} (plain : ∀ c ∈ text, c ≠ '<' ∧ c ≠ '>') :
    Tokenized text := by
  induction text with
  | nil => exact tokenized_nil
  | cons c rest ih =>
      have first : Tokenized [c] := tokenized_token (.char c (plain c (by simp)))
      have others : Tokenized rest := ih fun other member => plain other (by simp [member])
      exact first.append others

/-! ### Escaped texts -/

theorem plain_escapeText {text : Text} : ∀ c ∈ escapeText text, c ≠ '<' ∧ c ≠ '>' := by
  intro c member
  simp only [escapeText, Text.replace, List.mem_flatMap] at member
  obtain ⟨inner, ⟨original, -, fromOriginal⟩, fromInner⟩ := member
  -- what the first replacement writes has no opening bracket, and the second one adds none
  have noOpening : inner ≠ '<' := by
    rintro rfl
    split at fromOriginal
    · simp at fromOriginal
    · rename_i other
      simp only [List.mem_singleton] at fromOriginal
      exact other fromOriginal.symm
  split at fromInner
  · constructor <;> (rintro rfl; simp at fromInner)
  · rename_i noClosing
    simp only [List.mem_singleton] at fromInner
    subst fromInner
    exact ⟨noOpening, noClosing⟩

theorem plain_escapeAttribute {value : Text} :
    ∀ c ∈ escapeAttribute value, c ≠ '<' ∧ c ≠ '>' ∧ c ≠ '"' := by
  intro c member
  simp only [escapeAttribute, Text.replace, List.mem_flatMap] at member
  obtain ⟨inner, fromValue, fromInner⟩ := member
  obtain ⟨noOpening, noClosing⟩ := plain_escapeText inner fromValue
  split at fromInner
  · refine ⟨?_, ?_, ?_⟩ <;> (rintro rfl; simp at fromInner)
  · rename_i noQuote
    simp only [List.mem_singleton] at fromInner
    subst fromInner
    exact ⟨noOpening, noClosing, noQuote⟩

/-! ### Elements -/

/-- Every name of a dictionary is a known name of an attribute. -/
def Attributes.Known (attributes : Attributes) : Prop :=
  ∀ name ∈ attributes.keys, name ∈ attributeNames

/-- What is written for attributes is a list of attributes of a tag. -/
theorem Attributes.Known.toText_eq {attributes : Attributes} (known : attributes.Known) :
    ∃ written : List TagAttribute, attributes.toText = written.flatMap TagAttribute.toText := by
  obtain ⟨entries⟩ := attributes
  simp only [Attributes.Known, Dictionary.keys] at known
  simp only [Attributes.toText]
  induction entries with
  | nil => exact ⟨[], rfl⟩
  | cons entry rest ih =>
      obtain ⟨name, value⟩ := entry
      obtain ⟨written, writtenEq⟩ := ih fun other member => known other (by simp_all)
      cases value with
      | none => exact ⟨written, by simpa using writtenEq⟩
      | some value =>
          let first : TagAttribute :=
            { name := name, value := escapeAttribute value, known := known name (by simp)
              plain := plain_escapeAttribute }
          have firstEq : attributeText name value = first.toText := rfl
          exact ⟨first :: written, by simp only [List.flatMap_cons, writtenEq, firstEq]⟩

theorem Attributes.Known.set {attributes : Attributes} (known : attributes.Known) {name : Text}
    (value : Option Text) (nameKnown : name ∈ attributeNames) :
    Attributes.Known (Dictionary.set attributes name value) := by
  intro other member
  rcases (Dictionary.mem_keys_set attributes name other value).mp member with rfl | old
  · exact nameKnown
  · exact known other old

theorem tokenized_openTag {element : Element} (named : element.name ∈ elementNames)
    {attributes : Attributes} (known : attributes.Known) :
    Tokenized (element.openTag attributes) := by
  obtain ⟨written, writtenEq⟩ := known.toText_eq
  rw [Element.openTag, writtenEq]
  exact tokenized_token (.opening element.name named written)

theorem tokenized_voidTag {element : Element} (named : element.name ∈ elementNames)
    {attributes : Attributes} (known : attributes.Known) :
    Tokenized (element.voidTag attributes) := by
  obtain ⟨written, writtenEq⟩ := known.toText_eq
  rw [Element.voidTag, writtenEq]
  exact tokenized_token (.void element.name named written)

theorem tokenized_closeTag {element : Element} (named : element.name ∈ elementNames) :
    Tokenized element.closeTag :=
  tokenized_token (.closing element.name named)

/-- Whatever parts of an element are written, they consist of tokens if the content does. -/
theorem tokenized_write {element : Option Element}
    (named : ∀ e, element = some e → e.name ∈ elementNames) {attributes : Attributes}
    (known : attributes.Known) {content : Text} (tokenized : Tokenized content) (shape : Shape) :
    Tokenized (write element attributes content shape) := by
  cases element with
  | none =>
      cases shape with
      | void => exact tokenized_nil
      | whole | opening | closing => exact tokenized
  | some e =>
      have begins := tokenized_openTag (named e rfl) known
      have ends : Tokenized e.closeTag := tokenized_closeTag (named e rfl)
      cases shape with
      | void => exact tokenized_voidTag (named e rfl) known
      | whole => exact (begins.append tokenized).append ends
      | opening => exact begins.append tokenized
      | closing => exact tokenized.append ends

end MarkPress.Html

namespace MarkPress

open Html

/-! ### Tags and regions -/

theorem Tag.name_mem_elementNames {tag : Tag} {element : Element}
    (h : tag.traits.element = some element) : element.name ∈ elementNames := by
  simp only [elementNames, List.mem_map, List.mem_filterMap]
  exact ⟨element, ⟨tag, tag.mem_all, h⟩, rfl⟩

theorem Tag.attributes_known (tag : Tag) : tag.traits.attributes.Known := by
  cases tag <;> (unfold Attributes.Known; decide)

/-- A tag writes tokens around content that consists of tokens. -/
theorem Tag.tokenized_write (tag : Tag) {attributes : Attributes} (known : attributes.Known)
    {content : Text} (tokenized : Tokenized content) (shape : Shape) :
    Tokenized (tag.write content attributes shape) :=
  Html.tokenized_write (fun _ h => tag.name_mem_elementNames h) known tokenized shape

theorem Tag.tokenized_openHalf (tag : Tag) : Tokenized tag.openHalf :=
  tag.tokenized_write tag.attributes_known tokenized_nil _

theorem Tag.tokenized_closeHalf (tag : Tag) : Tokenized tag.closeHalf :=
  tag.tokenized_write tag.attributes_known tokenized_nil _

end MarkPress
