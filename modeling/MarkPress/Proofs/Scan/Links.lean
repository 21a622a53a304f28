/-
Module: MarkPress.Proofs.Scan.Links
Purpose: Reading links and images.
  In the text of a link no delimiter begins but the one of its address, and in the caption of an
  image brackets pair up among themselves. In an address every delimiter stands for itself but the
  one that ends it, and that gives the address to the link or image around it.
Main exports:
  Text.linkMarks, Text.captionMarks, Text.addressMarks, Text.Avoids, Caption, Scan.inLink,
  Scan.inCaption, Scan.inAddress, reading_linkText, reading_caption, reading_address, reading_link,
  reading_image
-/
import MarkPress.Proofs.Scan.Blocks

namespace MarkPress

open Html

/-! ### What may stand in a link and in an image -/

/-- What ends the text of a link, begins something in it or takes a meaning away. -/
def Text.linkMarks : Text := [' ', '\t', '\n', '\r', '\x60', '*', '/', '[', ']', '\\']

/-- What begins or ends something in a caption or takes a meaning away. -/
def Text.captionMarks : Text := [' ', '\t', '\n', '\r', '\x60', '*', '/', '!', '\\', '[', ']']

/-- What ends an address or takes a meaning away. -/
def Text.addressMarks : Text := [' ', '\t', '\n', '\r', ')', '\\']

/-- No character of a text is one of some marks. -/
def Text.Avoids (text marks : Text) : Prop := ∀ c ∈ text, c ∉ marks

instance (text marks : Text) : Decidable (text.Avoids marks) := List.decidableBAll (· ∉ marks) text

theorem Text.Avoids.not_mem {text marks : Text} {c : Char} (avoids : text.Avoids marks)
    (mark : c ∈ marks) : c ∉ text :=
  fun member => avoids c member mark

/-- A text without marks in which brackets pair up. -/
inductive Caption : Text → Prop where
  | nil : Caption []
  | plain {c : Char} {rest : Text} (plain : c ∉ Text.captionMarks) (behind : Caption rest) :
      Caption (c :: rest)
  | brackets {inside rest : Text} (within : Caption inside) (behind : Caption rest) :
      Caption ('[' :: inside ++ ']' :: rest)

theorem Caption.noReturn {text : Text} (caption : Caption text) : '\r' ∉ text := by
  induction caption with
  | nil => exact List.not_mem_nil
  | plain plain behind ih =>
      rw [List.mem_cons, not_or]
      exact ⟨fun same => plain (same ▸ by decide), ih⟩
  | brackets within behind inside rest => simp [inside, rest]

/-! ### Delimiters that do not stand here -/

/-- A delimiter that begins behind the beginning of a line begins with a mark or has a bracket that
nothing ends. -/
theorem Tag.opener_linkMarked {tag : Tag} {opener : Text} (found : tag.traits.opener = some opener)
    (several : tag.isSingleLine = false) :
    (∃ m ∈ Text.linkMarks, opener.head? = some m) ∨ ('[' ∈ opener ∧ ']' ∉ opener) := by
  have all : ∀ t ∈ Tag.all, ∀ o ∈ t.traits.opener, t.isSingleLine = false →
      o.head? ∈ Text.linkMarks.map some ∨ ('[' ∈ o ∧ ']' ∉ o) := by decide
  refine (all tag tag.mem_all opener found several).imp_left fun marked => ?_
  obtain ⟨mark, isMark, first⟩ := List.mem_map.mp marked
  exact ⟨mark, isMark, first.symm⟩

theorem Tag.opener_captionMarked {tag : Tag} {opener : Text}
    (found : tag.traits.opener = some opener) (several : tag.isSingleLine = false) :
    ∃ m ∈ Text.captionMarks, opener.head? = some m := by
  have all : ∀ t ∈ Tag.all, ∀ o ∈ t.traits.opener, t.isSingleLine = false →
      o.head? ∈ Text.captionMarks.map some := by decide
  obtain ⟨mark, isMark, first⟩ := List.mem_map.mp (all tag tag.mem_all opener found several)
  exact ⟨mark, isMark, first.symm⟩

theorem Tag.closer_of_target {tag : Tag} (target : tag ∈ Tag.urlTargets) :
    tag.traits.closer = some [']'] := by
  have all : ∀ t ∈ Tag.urlTargets, t.traits.closer = some [']'] := by decide
  exact all tag target

/-- A text that begins another one up to a character it does not have stands before that
character. -/
theorem Text.prefix_of_behind {start text behind : Text} {c : Char} (absent : c ∉ start)
    (begins : start <+: text ++ c :: behind) : start <+: text := by
  have whole : text ++ [c] <+: text ++ c :: behind := ⟨behind, by simp⟩
  rcases List.prefix_or_prefix_of_prefix begins whole with before | past
  · rcases List.prefix_concat_iff.mp before with same | inText
    · exact absurd (by simp [same]) absent
    · exact inText
  · exact absurd (past.subset (by simp)) absent

namespace Scan

variable {s : Scan} {c : Char} {text rest html : Text} {written : List Text} {depth : Nat}

theorem nextOpening_eq_none (apart : ∀ {tag : Tag} {opener : Text},
    tag.traits.opener = some opener → tag.isSingleLine = false → ¬ opener <+: s.rest) :
    s.nextOpening false = none := by
  rw [Option.eq_none_iff_forall_ne_some]
  intro tag opens
  obtain ⟨-, opener, found, here⟩ := opener_of_nextOpening opens
  exact apart found (several_of_nextOpening opens) here

/-- Where one link or image is open, only a bracket ends something. -/
theorem nextClosing_eq_none {o : OpenTag} (target : o.tag ∈ Tag.urlTargets)
    (opened : s.opened = [o]) (next : s.rest = c :: rest) (other : c ≠ ']') :
    s.nextClosing = none := by
  rw [Option.eq_none_iff_forall_ne_some]
  intro tag closes
  obtain ⟨-, closer, found, here⟩ := closer_of_nextClosing closes
  have member := List.mem_of_find?_eq_some closes
  rw [opened] at member
  rcases List.mem_singleton.mp member with rfl
  rw [Tag.closer_of_target target, Option.some.injEq] at found
  rw [← found, next] at here
  exact other (List.cons_prefix_cons.mp here).1.symm

theorem captionBracket_eq_none (notBegin : c ≠ '[') (notEnd : c ≠ ']') (s : Scan) :
    s.captionBracket c = none := by
  simp [captionBracket, notBegin, notEnd]

/-! ### The text of a link -/

/-- The state in the text of a link. -/
def inLink (html : Text) (written : List Text) (source : Text) : Scan :=
  { startAt [] source with
    arena := ⟨3, (Region.ofTag .link).extend html⟩ :: (startAt [] source).arena
    nextSerial := 4
    opened := [⟨.link, some 3⟩]
    lineBlank := false, atBlockStart := false
    written := written }

theorem inLink_ready (html : Text) (written : List Text) (source : Text) :
    (inLink html written source).Ready where
  grounded := ((startAt_grounded [] source).pushRegion _).of_labels rfl rfl
  receives := ⟨_, _, rfl, rfl, rfl⟩
  escaped := rfl

theorem reading_linkBegin (source : Text) :
    (startAt [] ('[' :: source)).reading = (inLink [] [] source).reading := by
  have begins : (startAt [] ('[' :: source)).step = .ok (inLink [] [] source) := rfl
  rw [reading_step (startAt_grounded ..) (List.cons_ne_nil _ _), begins]
  rfl

/-- The text of a link goes on with no beginning and no end until its bracket. -/
theorem inert_linkText (opened : s.opened = [⟨.link, some 3⟩]) (within : s.lineBlank = false)
    (next : s.rest = c :: text ++ ']' :: rest)
    (plain : Text.Avoids (c :: text) Text.linkMarks) : s.Inert c where
  visible := Text.visible_of_not_mem (by decide) (plain c List.mem_cons_self)
  line blank := by
    rw [within] at blank
    cases blank
  bracket := by
    have notBegin : c ≠ '[' := fun same => plain c List.mem_cons_self (same ▸ by decide)
    have notEnd : c ≠ ']' := fun same => plain c List.mem_cons_self (same ▸ by decide)
    exact captionBracket_eq_none notBegin notEnd s
  opening := by
    rw [within]
    refine nextOpening_eq_none fun {tag opener} found several here => ?_
    rw [next] at here
    rcases Tag.opener_linkMarked found several with ⟨mark, isMark, first⟩ | ⟨bracket, unended⟩
    · have same := head?_of_begins (Tag.opener_inLine found).2 here
      rw [first, Option.some.injEq] at same
      exact plain c List.mem_cons_self (same ▸ isMark)
    · exact plain '[' ((Text.prefix_of_behind unended here).subset bracket) (by decide)
  closing :=
    nextClosing_eq_none (o := ⟨.link, some 3⟩) (by decide) opened next
      fun same => plain c List.mem_cons_self (same ▸ by decide)

/-- The text of a link is written as it stands. -/
theorem reading_linkText (plain : text.Avoids Text.linkMarks) (rest : Text) :
    ∃ written', (inLink [] [] (text ++ ']' :: rest)).reading
      = (inLink (escapeText text) written' (']' :: rest)).reading := by
  obtain ⟨s', reads, typed, next⟩ :=
    reading_inert (inLink_ready [] [] (text ++ ']' :: rest)) rfl rfl
    fun before d behind t split typed next => by
      refine inert_linkText (typed.opened) typed.lineBlank
        (next.trans (List.cons_append ..).symm) fun e member => plain e ?_
      rw [split]
      exact List.mem_append_right before member
  obtain ⟨written', rfl⟩ := typed.eq next
  exact ⟨written', reads⟩

/-! ### The caption of an image -/

/-- The state in the caption of an image, inside of some brackets. -/
def inCaption (depth : Nat) (html : Text) (written : List Text) (source : Text) : Scan :=
  { inBlock [] ⟨.embed, some 4⟩ ((Region.ofTag .embed).extend html) written source with
    bracketDepth := depth }

theorem inCaption_ready (depth : Nat) (html : Text) (written : List Text) (source : Text) :
    (inCaption depth html written source).Ready where
  grounded := (inBlock_grounded [] ⟨.embed, some 4⟩ ((Region.ofTag .embed).extend html) written
    source).of_labels rfl rfl
  receives := ⟨_, _, rfl, rfl, rfl⟩
  escaped := rfl

theorem reading_imageBegin (source : Text) :
    (startAt [] ("![".toList ++ source)).reading = (inCaption 0 [] [] source).reading := by
  have begins : (startAt [] ("![".toList ++ source)).step = .ok (inCaption 0 [] [] source) := rfl
  rw [reading_step (startAt_grounded ..) (by simp), begins]
  rfl

theorem reading_captionChar (plain : c ∉ Text.captionMarks) (depth : Nat) (html : Text)
    (written : List Text) (rest : Text) :
    ∃ written', (inCaption depth html written (c :: rest)).reading
      = (inCaption depth (html ++ escapeText [c]) written' rest).reading := by
  have notBegin : c ≠ '[' := fun same => plain (same ▸ by decide)
  have notEnd : c ≠ ']' := fun same => plain (same ▸ by decide)
  have inert : (inCaption depth html written (c :: rest)).Inert c := {
    visible := Text.visible_of_not_mem (by decide) plain
    line := nofun
    bracket := captionBracket_eq_none notBegin notEnd _
    opening := by
      refine nextOpening_eq_none fun {tag opener} found several here => ?_
      obtain ⟨mark, isMark, first⟩ := Tag.opener_captionMarked found several
      have same := head?_of_begins (Tag.opener_inLine found).2 here
      rw [first, Option.some.injEq] at same
      exact plain (same ▸ isMark)
    closing := nextClosing_eq_none (o := ⟨.embed, some 4⟩) (by decide) rfl rfl notEnd }
  obtain ⟨s', reads, typed, next⟩ := reading_inert_step (inCaption_ready ..) rfl inert
  obtain ⟨written', rfl⟩ := typed.eq next
  refine ⟨written', reads.trans ?_⟩
  simp only [inCaption, inBlock, ← Region.extend_extend]
  rfl

/-- A bracket that begins in a caption stands for itself and goes one level deeper. -/
theorem reading_bracketBegin :
    (inCaption depth html written ('[' :: rest)).reading
      = (inCaption (depth + 1) (html ++ ['[']) (['['] :: written) rest).reading := by
  have literal : (inCaption depth html written ('[' :: rest)).step
      = .ok (inCaption (depth + 1) (html ++ ['[']) (['['] :: written) rest) := by
    simp only [inCaption, inBlock, ← Region.extend_extend]
    rfl
  rw [reading_step (inCaption_ready ..).grounded (List.cons_ne_nil _ _), literal]
  rfl

/-- The bracket that ends a pair stands for itself too. -/
theorem reading_bracketEnd :
    (inCaption (depth + 1) html written (']' :: rest)).reading
      = (inCaption depth (html ++ [']']) ([']'] :: written) rest).reading := by
  have literal : (inCaption (depth + 1) html written (']' :: rest)).step
      = .ok (inCaption depth (html ++ [']']) ([']'] :: written) rest) := by
    simp only [inCaption, inBlock, ← Region.extend_extend]
    rfl
  rw [reading_step (inCaption_ready ..).grounded (List.cons_ne_nil _ _), literal]
  rfl

/-- A caption is written as it stands, and as many brackets are open behind it as before. -/
theorem reading_caption (caption : Caption text) (depth : Nat) (html : Text)
    (written : List Text) (rest : Text) :
    ∃ written', (inCaption depth html written (text ++ rest)).reading
      = (inCaption depth (html ++ escapeText text) written' rest).reading := by
  induction caption generalizing depth html written rest with
  | nil =>
      refine ⟨written, ?_⟩
      rw [show escapeText [] = [] from rfl, List.append_nil]
      rfl
  | @plain c text plain behind ih =>
      obtain ⟨written₁, reads₁⟩ := reading_captionChar plain depth html written (text ++ rest)
      obtain ⟨written', reads'⟩ := ih depth (html ++ escapeText [c]) written₁ rest
      refine ⟨written', reads₁.trans (reads'.trans ?_)⟩
      rw [escapeText_cons c text, List.append_assoc]
  | @brackets inside text within behind ihInside ihRest =>
      obtain ⟨written₁, reads₁⟩ := ihInside (depth + 1) (html ++ ['[']) (['['] :: written)
        (']' :: (text ++ rest))
      obtain ⟨written', reads'⟩ := ihRest depth (html ++ ['['] ++ escapeText inside ++ [']'])
        ([']'] :: written₁) rest
      have source : '[' :: inside ++ ']' :: text ++ rest
          = '[' :: (inside ++ ']' :: (text ++ rest)) := by simp
      have content : html ++ escapeText ('[' :: inside ++ ']' :: text)
          = html ++ ['['] ++ escapeText inside ++ [']'] ++ escapeText text := by
        rw [escapeText_append, escapeText_cons '[', escapeText_cons ']']
        simp only [List.append_assoc]
        rfl
      refine ⟨written', ?_⟩
      rw [source, reading_bracketBegin, reads₁, reading_bracketEnd, reads', content]

/-! ### The address -/

/-- The state in the address of the link or image that is open in another state. -/
def inAddress (s : Scan) (html : Text) (written : List Text) (source : Text) : Scan :=
  { s.pushRegion ((Region.ofTag .url).extend html) with
    rest := source
    opened := ⟨.url, some s.nextSerial⟩ :: s.opened
    exclusive := some .url
    written := written }

theorem inAddress_ready (ready : s.Ready) (html : Text) (written : List Text) (source : Text) :
    (inAddress s html written source).Ready where
  grounded := (ready.grounded.pushRegion _).of_labels rfl rfl
  receives := ⟨_, _, rfl, rfl, rfl⟩
  escaped := ready.escaped

/-- In an address nothing begins, and only one delimiter ends something. -/
theorem inert_address (exclusive : s.exclusive = some .url) (within : s.lineBlank = false)
    (next : s.rest = c :: rest) (plain : c ∉ Text.addressMarks) : s.Inert c := by
  have ends : Tag.url.traits.closer = some [')'] := rfl
  refine inert_exclusive exclusive ends within
    (Text.visible_of_not_mem (by decide) plain) fun here => ?_
  rw [next] at here
  exact plain ((List.cons_prefix_cons.mp here).1 ▸ by decide)

/-- An address is captured as it stands. -/
theorem reading_address (ready : s.Ready) (amid : s.Amid)
    (plain : text.Avoids Text.addressMarks) (written : List Text) (rest : Text) :
    ∃ written', (inAddress s [] written (text ++ rest)).reading
      = (inAddress s (escapeText text) written' rest).reading := by
  have amid' : (inAddress s [] written (text ++ rest)).Amid := by
    rw [Amid, Typed, put_nil_arena]
    rw [Amid, Typed, put_nil_arena] at amid
    rw [inAddress, pushRegion, amid]
  obtain ⟨s', reads, typed, next⟩ := reading_inert (inAddress_ready ready ..) amid' rfl
    fun before d behind t split typed next => by
      refine inert_address typed.exclusive typed.lineBlank next (plain d ?_)
      rw [split]
      exact List.mem_append_right before List.mem_cons_self
  obtain ⟨written', rfl⟩ := typed.eq next
  refine ⟨written', reads.trans ?_⟩
  rw [Amid, Typed, put_nil_arena] at amid
  rw [amid]
  rfl

/-! ### Whole links and images -/

variable {address : Text}

/-- A link is read up to the end of its address. -/
theorem reading_link (plain : text.Avoids Text.linkMarks)
    (captured : address.Avoids Text.addressMarks) :
    ∃ written written', (startAt [] ('[' :: (text ++ ']' :: '(' :: (address ++ [')'])))).reading
      = (inAddress (inLink (escapeText text) written []) (escapeText address) written'
          [')']).reading := by
  obtain ⟨written, readsText⟩ := reading_linkText plain ('(' :: (address ++ [')']))
  have ready := inLink_ready (escapeText text) written
  have turns : (inLink (escapeText text) written (']' :: '(' :: (address ++ [')']))).step
      = .ok (inAddress (inLink (escapeText text) written []) [] written (address ++ [')'])) := rfl
  obtain ⟨written', readsAddress⟩ := reading_address (ready []) rfl captured written [')']
  refine ⟨written, written', ?_⟩
  rw [reading_linkBegin, readsText, reading_step (ready _).grounded (List.cons_ne_nil _ _), turns]
  exact readsAddress

/-- An image is read up to the end of its address. -/
theorem reading_image {caption : Text} (balanced : Caption caption)
    (captured : address.Avoids Text.addressMarks) :
    ∃ written written',
      (startAt [] ("![".toList ++ (caption ++ ']' :: '(' :: (address ++ [')'])))).reading
        = (inAddress (inCaption 0 (escapeText caption) written []) (escapeText address) written'
            [')']).reading := by
  obtain ⟨written, readsCaption⟩ := reading_caption balanced 0 [] []
    (']' :: '(' :: (address ++ [')']))
  have ready := inCaption_ready 0 (escapeText caption) written
  have turns : (inCaption 0 (escapeText caption) written (']' :: '(' :: (address ++ [')']))).step
      = .ok (inAddress (inCaption 0 (escapeText caption) written []) [] written
          (address ++ [')'])) := rfl
  obtain ⟨written', readsAddress⟩ := reading_address (ready []) rfl captured written [')']
  refine ⟨written, written', ?_⟩
  rw [reading_imageBegin, readsCaption, List.nil_append,
    reading_step (ready _).grounded (List.cons_ne_nil _ _), turns]
  exact readsAddress

end Scan

end MarkPress
