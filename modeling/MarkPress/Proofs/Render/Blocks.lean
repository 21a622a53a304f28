/-
Module: MarkPress.Proofs.Render.Blocks
Purpose: The output of documents that consist of blocks of plain words.
  Paragraphs, headings, rules, flat lists and blocks of code with a blank line between each two of
  them are rendered one after the other, each as it would be alone, but for the names of headings,
  which differ from those given before.
Main exports:
  CodeText, HeadingLevel, Block, Block.source, Block.html, document, documentHtml, render_document
-/
import MarkPress.Proofs.Scan.CodeBlocks
import MarkPress.Proofs.Scan.Headings
import MarkPress.Proofs.Scan.Lists
import MarkPress.Proofs.Text.Pieces

namespace MarkPress

open Html Scan

/-! ### Documents of blocks -/

/-- The content of a block of code. -/
structure CodeText where
  text : Text
  noReturn : '\r' ∉ text
  noFence : ¬ fence <:+: text

/-- No fence ends with the line break behind the last line of code. -/
theorem CodeText.noFence_line (content : CodeText) : ¬ fence <:+: content.text ++ ['\n'] := by
  rw [List.infix_concat_iff, not_or]
  refine ⟨fun ends => ?_, content.noFence⟩
  obtain ⟨front, same⟩ := ends
  have last := congrArg List.getLast? same
  simp [fence] at last

/-- The level of a heading. -/
inductive HeadingLevel where
  | one
  | two
  | three
deriving Repr, Inhabited, DecidableEq

namespace HeadingLevel

def toNat : HeadingLevel → Nat
  | .one => 1
  | .two => 2
  | .three => 3

def tag : HeadingLevel → Tag
  | .one => .heading1
  | .two => .heading2
  | .three => .heading3

/-- The signs in front of a heading. -/
def signs (level : HeadingLevel) : Text := List.replicate level.toNat '#'

/-- The name of the element of a heading. -/
def element (level : HeadingLevel) : Text := 'h' :: Text.ofNat level.toNat

end HeadingLevel

/-- A piece of a document between blank lines. -/
inductive Block where
  | paragraph (phrase : Phrase)
  | heading (level : HeadingLevel) (title : Phrase)
  | rule
  | list (items : List Phrase) (nonempty : items ≠ [])
  | code (content : CodeText)

namespace Block

/-- A block as it is written in a source. -/
def source : Block → Text
  | .paragraph phrase => phrase.text
  | .heading level title => level.signs ++ ' ' :: title.text
  | .rule => "---".toList
  | .list items _ => Text.unlines (items.map fun item => "- ".toList ++ item.text)
  | .code content => fence ++ '\n' :: (content.text ++ '\n' :: fence)

/-- The name of a heading, given those that are taken. -/
def name (issued : List Text) (title : Phrase) : Text :=
  Slug.freshId issued (Slug.headingBase title.text)

/-- The names that are taken behind a block. -/
def issues (issued : List Text) : Block → List Text
  | .heading _ title => name issued title :: issued
  | .paragraph _ | .rule | .list _ _ | .code _ => issued

/-- A heading in the output: it ends its section, and the next one begins. -/
def headingHtml (element id title : Text) : Text :=
  '<' :: element ++ "><a href=\"#".toList ++ id ++ "\" id=\"".toList ++ id ++ "\">".toList
    ++ escapeText title ++ "</a></".toList ++ element ++ "></section><section>".toList

/-- A block as it stands in the output, given the names that are taken. -/
def html (issued : List Text) : Block → Text
  | .paragraph phrase => "<p>".toList ++ escapeText phrase.text ++ "</p>".toList
  | .heading level title => headingHtml level.element (name issued title) title.text
  | .rule => "<hr />".toList
  | .list items _ =>
      "<ul>".toList
        ++ (items.flatMap fun item => "<li>".toList ++ escapeText item.text ++ "</li>".toList)
        ++ "</ul>".toList
  | .code content => "<pre class=\"code\">".toList ++ escapeText content.text ++ "\n</pre>".toList

end Block

/-- Blocks with a blank line between each two of them. -/
def document (blocks : List Block) : Text :=
  List.intercalate "\n\n".toList (blocks.map Block.source)

/-- The output of blocks, one after the other, given the names that are taken. -/
def documentHtml (issued : List Text) : List Block → Text
  | [] => []
  | block :: rest => block.html issued ++ documentHtml (block.issues issued) rest

/-! ### Single blocks -/

namespace HeadingLevel

variable (level : HeadingLevel)

theorem isHeading_tag : level.tag.isHeading = true := by cases level <;> decide

theorem opener_tag : level.tag.traits.opener.getD [] = level.signs := by cases level <;> decide

theorem openHalf_tag : level.tag.openHalf = '<' :: level.element ++ ">".toList := by
  cases level <;> decide

theorem closeHalf_tag : level.tag.closeHalf = "</".toList ++ level.element ++ ">".toList := by
  cases level <;> decide

theorem noReturn : '\r' ∉ level.signs := by cases level <;> decide

end HeadingLevel

namespace Block

theorem headingHtml_eq (level : HeadingLevel) (id title : Text) :
    headingHtml level.element id title
      = level.tag.openHalf ++ ("<a href=\"#".toList ++ id ++ "\" id=\"".toList ++ id
          ++ "\">".toList) ++ escapeText title ++ "</a>".toList ++ level.tag.closeHalf
        ++ "</section><section>".toList := by
  rw [level.openHalf_tag, level.closeHalf_tag, headingHtml]
  simp only [List.append_assoc]
  rfl

/-- A phrase as an item that is not indented. -/
def listItem (phrase : Phrase) : ListItem :=
  ⟨[], [' '], phrase.words, phrase.text, List.forall_mem_nil _, List.forall_mem_singleton.mpr rfl,
    phrase.wordLine⟩

theorem listItem_depth (phrase : Phrase) : (listItem phrase).depth = 0 := by
  simp [listItem, ListItem.depth, Text.indentWidth]

theorem levelChange_self (level : Nat) : levelChange level level = [] := by simp [levelChange]

theorem listHtml_flat (items : List Phrase) :
    listHtml 0 (items.map listItem)
      = (items.flatMap fun item => "<li>".toList ++ escapeText item.text ++ "</li>".toList)
        ++ "</ul>".toList := by
  induction items with
  | nil => rfl
  | cons item items ih =>
      have first : listHtml ((1 : Nat) - 1) (listItem item :: items.map listItem) = _ :=
        listHtml_cons 1 (listItem item) (items.map listItem)
      rw [listItem_depth, levelChange_self, Nat.cast_zero, Nat.cast_one, sub_self, ih] at first
      rw [List.map_cons, first, List.flatMap_cons]
      simp only [List.append_assoc, List.nil_append]
      rfl

/-- Items that are not indented make up one list. -/
theorem list_html (issued : List Text) {items : List Phrase} (nonempty : items ≠ []) :
    listHtml (-1) (items.map listItem) = (list items nonempty).html issued := by
  obtain ⟨item, items, rfl⟩ := List.exists_cons_of_ne_nil nonempty
  have first : listHtml ((0 : Nat) - 1) (listItem item :: items.map listItem) = _ :=
    listHtml_cons 0 (listItem item) (items.map listItem)
  have begins : levelChange 0 (0 + 1) = "<ul>".toList := by decide
  rw [listItem_depth, begins, Nat.cast_zero, listHtml_flat, zero_sub] at first
  have single : (list (item :: items) nonempty).html issued = "<ul>".toList
      ++ ((item :: items).flatMap fun item => "<li>".toList ++ escapeText item.text
        ++ "</li>".toList)
      ++ "</ul>".toList := rfl
  rw [List.map_cons, first, single, List.flatMap_cons]
  simp only [List.append_assoc]
  rfl

/-- Every block adds its output and leaves the names that it says. -/
theorem compiles (block : Block) (issued : List Text) :
    Compiles issued block.source (block.html issued) (block.issues issued) := by
  cases block with
  | paragraph phrase => exact compiles_paragraph phrase
  | heading level title =>
      have whole : Compiles issued _ _ (name issued title :: issued) :=
        compiles_heading level.isHeading_tag title rfl
      rw [level.opener_tag, ← headingHtml_eq] at whole
      exact whole
  | rule => exact compiles_rule
  | list items nonempty =>
      have some : items.map listItem ≠ [] := mt List.map_eq_nil_iff.mp nonempty
      have whole : Compiles issued _ _ issued := compiles_list some
      rw [list_html issued nonempty, List.map_map] at whole
      exact whole
  | code content =>
      have ending : (content.text ++ ['\n']).getLast? ≠ some '\x60' := by simp
      have whole : Compiles issued _ _ issued :=
        compiles_code (by simp) content.noFence_line ending
      have lastBreak : escapeText (content.text ++ ['\n']) = escapeText content.text ++ ['\n'] :=
        escapeText_append ..
      rw [lastBreak, List.append_assoc, List.append_assoc, List.append_assoc] at whole
      have htmlEq : (code content).html issued = "<pre class=\"code\">".toList
          ++ (escapeText content.text ++ (['\n'] ++ "</pre>".toList)) := List.append_assoc ..
      rw [htmlEq]
      exact whole

theorem noReturn (block : Block) : '\r' ∉ block.source := by
  cases block with
  | paragraph phrase => exact phrase.noReturn
  | heading level title =>
      simp [source, title.noReturn, level.noReturn]
  | rule => decide
  | list items nonempty =>
      cases items with
      | nil => exact absurd rfl nonempty
      | cons first more =>
          rw [source, Text.unlines, List.map_cons, Text.join_cons]
          simp [Phrase.noReturn]
  | code content => simp [source, content.noReturn, fence]

end Block

/-! ### Documents -/

theorem document_cons (block next : Block) (rest : List Block) :
    document (block :: next :: rest) = block.source ++ '\n' :: '\n' :: document (next :: rest) := by
  simp [document, List.intercalate]

theorem document_noReturn (blocks : List Block) : '\r' ∉ document blocks := by
  induction blocks with
  | nil => simp [document, List.intercalate]
  | cons block rest ih =>
      cases rest with
      | nil => simpa [document, List.intercalate] using block.noReturn
      | cons next rest =>
          rw [document_cons]
          simp [block.noReturn, ih]

/-- What the blocks of a document add to a section, given the names that are taken. -/
theorem continuation_document (issued : List Text) (blocks : List Block) :
    continuation issued (document blocks)
      = .ok (documentHtml issued blocks ++ "</section>".toList) := by
  induction blocks generalizing issued with
  | nil => rfl
  | cons block rest ih =>
      cases rest with
      | nil =>
          have alone : document [block] = block.source := by simp [document, List.intercalate]
          rw [alone, (block.compiles issued).continuation_eq, documentHtml, documentHtml]
          simp
      | cons next rest =>
          rw [document_cons, (block.compiles issued).continuation_apart, ih]
          exact congrArg Except.ok (List.append_assoc ..).symm

/-- A document of blocks is rendered block by block, all in one section as long as no heading
ends it. -/
theorem render_document (blocks : List Block) :
    render (document blocks)
      = .ok ("<section>".toList ++ documentHtml [] blocks ++ "</section>".toList) := by
  rw [render_eq_continuation, Text.normalizeBreaks_eq (document_noReturn blocks),
    continuation_document, List.append_assoc]
  rfl

example :
    documentHtml [] [.heading .one ⟨["a".toList], by decide, by decide⟩, .rule,
      .heading .two ⟨["a".toList], by decide, by decide⟩,
      .list [⟨["b".toList, "<c>".toList], by decide, by decide⟩] (by decide),
      .code ⟨"[d".toList, by decide, by decide⟩]
    = ("<h1><a href=\"#a\" id=\"a\">a</a></h1></section><section><hr /><h2><a href=\"#a-2\""
      ++ " id=\"a-2\">a</a></h2></section><section><ul><li>b &lt;c&gt;</li></ul>"
      ++ "<pre class=\"code\">[d\n</pre>").toList := by
  decide +kernel

end MarkPress
