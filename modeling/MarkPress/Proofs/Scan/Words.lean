/-
Module: MarkPress.Proofs.Scan.Words
Purpose: Reading plain words.
  A word is plain if it has no white space and no character that begins a delimiter. Where only tags
  are open that end with their line, such words are written as they stand, with the angle brackets
  escaped and one space between each two of them.
Main exports:
  Text.IsPlain, Text.indentWidth, Phrase, WordLine, Html.escapeText_join, inert_plain,
  inert_exclusive, Scan.Lined, reading_plain, reading_word, step_gap, reading_gaps, reading_indent,
  reading_line, reading_phrase
-/
import MarkPress.Proofs.Scan.Flat
import MarkPress.Proofs.Scan.Typing
import MarkPress.Proofs.Text.Pieces

namespace MarkPress

open Html

/-- White space, the characters that begin a delimiter, and the one that takes a meaning away. -/
def Text.marks : Text := [' ', '\t', '\n', '\r', '\x60', '#', '*', '/', '-', '[', '\\']

/-- A word that stands for itself. -/
def Text.IsPlain (word : Text) : Prop := word ≠ [] ∧ ∀ c ∈ word, c ∉ marks

instance (word : Text) : Decidable word.IsPlain :=
  haveI : Decidable (∀ c ∈ word, c ∉ Text.marks) := List.decidableBAll (· ∉ Text.marks) word
  instDecidableAnd

/-- The width of white space in front of a line: a tab is as wide as two spaces. -/
def Text.indentWidth (gap : Text) : Nat := gap.count ' ' + 2 * gap.count '\t'

theorem Html.escapeText_join (words : List Text) :
    escapeText (Text.join ' ' words) = Text.join ' ' (words.map escapeText) := by
  cases words with
  | nil => rfl
  | cons word words =>
      rw [List.map_cons, Text.join_cons, Text.join_cons, escapeText_append]
      congr 1
      induction words with
      | nil => rfl
      | cons next words ih =>
          rw [List.flatMap_cons, escapeText_append, ih]
          rfl

/-- Plain words with one space between each two of them. -/
structure Phrase where
  words : List Text
  nonempty : words ≠ []
  plain : ∀ word ∈ words, word.IsPlain

namespace Phrase

def text (phrase : Phrase) : Text := Text.join ' ' phrase.words

/-- A phrase has no marks but the spaces between its words. -/
theorem not_mem_text (phrase : Phrase) {c : Char} (mark : c ∈ Text.marks) (solid : c ≠ ' ') :
    c ∉ phrase.text := by
  obtain ⟨words, _, plain⟩ := phrase
  change c ∉ Text.join ' ' words
  induction words using Text.join.induct with
  | case1 => simp [Text.join]
  | case2 word => exact fun member => (plain word (by simp)).2 c member mark
  | case3 word words notSingle ih =>
      rw [Text.join]
      · simp only [List.mem_append, List.mem_cons, not_or]
        exact ⟨fun member => (plain word (by simp)).2 c member mark, solid,
          ih notSingle fun w member => plain w (by simp [member])⟩
      · exact notSingle

theorem bare (phrase : Phrase) : '[' ∉ phrase.text := phrase.not_mem_text (by decide) (by decide)

theorem noReturn (phrase : Phrase) : '\r' ∉ phrase.text :=
  phrase.not_mem_text (by decide) (by decide)

theorem text_ne_nil (phrase : Phrase) : phrase.text ≠ [] := by
  obtain ⟨words, nonempty, plain⟩ := phrase
  cases words with
  | nil => exact absurd rfl nonempty
  | cons word words =>
      have filled := (plain word (by simp)).1
      cases words with
      | nil => exact filled
      | cons => simp [text, Text.join]

end Phrase

/-- Words on one line, as they are written: between each two of them stand spaces and tabs. -/
inductive WordLine : List Text → Text → Prop where
  | word {word : Text} (plain : word.IsPlain) : WordLine [word] word
  | words {word gap rest : Text} {words : List Text} (plain : word.IsPlain) (some : gap ≠ [])
      (gaps : ∀ c ∈ gap, Text.isGap c = true) (behind : WordLine words rest) :
      WordLine (word :: words) (word ++ gap ++ rest)

namespace WordLine

variable {words : List Text} {text : Text}

theorem nonempty (line : WordLine words text) : words ≠ [] := by
  cases line <;> exact List.cons_ne_nil _ _

/-- Words on a line have no marks but the spaces and tabs between them. -/
theorem not_mem (line : WordLine words text) {c : Char} (mark : c ∈ Text.marks)
    (solid : Text.isGap c = false) : c ∉ text := by
  induction line with
  | word plain => exact fun member => plain.2 c member mark
  | words plain some gaps behind ih =>
      simp only [List.mem_append, not_or]
      refine ⟨⟨fun member => plain.2 c member mark, fun member => ?_⟩, ih⟩
      rw [gaps c member] at solid
      cases solid

/-- The first character is that of a word. -/
theorem head (line : WordLine words text) : ∃ c rest, text = c :: rest ∧ c ∉ Text.marks := by
  have first : ∀ {word : Text}, word.IsPlain → ∀ behind,
      ∃ c rest, word ++ behind = c :: rest ∧ c ∉ Text.marks := by
    intro word plain behind
    cases word with
    | nil => exact absurd rfl plain.1
    | cons c word => exact ⟨c, word ++ behind, rfl, plain.2 c List.mem_cons_self⟩
  cases line with
  | word plain =>
      obtain ⟨c, rest, same, unmarked⟩ := first plain []
      exact ⟨c, rest, (List.append_nil _).symm.trans same, unmarked⟩
  | words plain =>
      rw [List.append_assoc]
      exact first plain _

end WordLine

/-- The words of a phrase stand on one line. -/
theorem Phrase.wordLine (phrase : Phrase) : WordLine phrase.words phrase.text := by
  obtain ⟨words, nonempty, plain⟩ := phrase
  change WordLine words (Text.join ' ' words)
  induction words using Text.join.induct with
  | case1 => exact absurd rfl nonempty
  | case2 word => exact .word (plain word (by simp))
  | case3 word words notSingle ih =>
      rw [Text.join]
      · have behind := ih notSingle fun w member => plain w (by simp [member])
        have line := WordLine.words (plain word (by simp)) (List.cons_ne_nil ' ' [])
          (List.forall_mem_singleton.mpr rfl) behind
        rwa [List.append_assoc] at line
      · exact notSingle

/-- A delimiter that is tried in the text begins with a mark or has a bracket in it, apart from the
one that begins an address. -/
theorem Tag.opener_marked {tag : Tag} {opener : Text} (found : tag.traits.opener = some opener) :
    '[' ∈ opener ∨ tag = .url ∨ ∃ m ∈ Text.marks, opener.head? = some m := by
  have all : ∀ t ∈ Tag.all, ∀ o ∈ t.traits.opener,
      '[' ∈ o ∨ t = .url ∨ o.head? ∈ Text.marks.map some := by decide
  refine (all tag tag.mem_all opener found).imp_right (Or.imp_right fun marked => ?_)
  obtain ⟨mark, isMark, first⟩ := List.mem_map.mp marked
  exact ⟨mark, isMark, first.symm⟩

/-- A tag that begins without a bracket ends with a mark. -/
theorem Tag.IsBare.closer_marked {tag : Tag} (bare : tag.IsBare) {closer : Text}
    (found : tag.traits.closer = some closer) : ∃ m ∈ Text.marks, closer.head? = some m := by
  have all : ∀ t ∈ Tag.all, t ∈ Tag.urlTargets ∨ t = .url ∨
      ∀ o ∈ t.traits.closer, o.head? ∈ Text.marks.map some := by decide
  rcases all tag tag.mem_all with target | url | marked
  · exact absurd target bare.1
  · exact absurd url bare.2
  · obtain ⟨mark, isMark, first⟩ := List.mem_map.mp (marked closer found)
    exact ⟨mark, isMark, first.symm⟩

/-- A character that is none of some marks is neither white space nor a backslash if these are among
them. -/
theorem Text.visible_of_not_mem {marks : Text} (known : [' ', '\t', '\n', '\\'] ⊆ marks) {c : Char}
    (plain : c ∉ marks) : c ≠ '\n' ∧ c ≠ '\\' ∧ Text.isGap c = false := by
  refine ⟨?_, ?_, ?_⟩
  · rintro rfl
    exact plain (known (by decide))
  · rintro rfl
    exact plain (known (by decide))
  · apply Bool.eq_false_iff.mpr
    intro gap
    simp only [Text.isGap, Bool.or_eq_true, beq_iff_eq] at gap
    rcases gap with rfl | rfl <;> exact plain (known (by decide))

namespace Scan

variable {s s' s₁ : Scan} {c : Char} {text more word gap rest : Text} {words : List Text}

/-! ### Characters that are no marks -/

theorem isRuleLine_plain (plain : c ∉ Text.marks) (rest : Text) :
    isRuleLine (c :: rest) = false := by
  have other : '-' ≠ c := by
    rintro rfl
    exact plain (by decide)
  have differs : Text.after? "---".toList (c :: rest) = none := if_neg other
  rw [isRuleLine, differs]

/-- A delimiter that is met begins with the next character. -/
theorem head?_of_begins {delimiter : Text} (some : delimiter ≠ [])
    (here : delimiter <+: c :: rest) :
    delimiter.head? = .some c := by
  cases delimiter with
  | nil => exact absurd rfl some
  | cons d more => rw [(List.cons_prefix_cons.mp here).1, List.head?_cons]

/-- Outside of images a bracket is none of a caption. -/
theorem captionBracket_bare (bare : ∀ o ∈ s.opened, o.tag.IsBare) (c : Char) :
    s.captionBracket c = none := by
  have inactive : Tag.images.any s.isActive = false := by
    rw [List.any_eq_false]
    intro tag image active
    obtain ⟨o, member, rfl⟩ := isActive_iff.mp active
    exact (bare o member).1 (List.mem_cons_of_mem _ image)
  rw [captionBracket, inactive]
  simp

/-- Where no link, image or address is open and none begins, nothing begins or ends with a character
that is no mark. -/
theorem inert_plain (bare : ∀ o ∈ s.opened, o.tag.IsBare) (next : s.rest = c :: rest)
    (plain : c ∉ Text.marks)
    (apart : ∀ {tag : Tag} {opener : Text}, tag.traits.opener = some opener → '[' ∈ opener →
      ¬ opener <+: s.rest)
    (outside : s.lineBlank = true → s.listLevel = 0) : s.Inert c where
  visible := Text.visible_of_not_mem (by decide) plain
  line blank := ⟨outside blank, next ▸ isRuleLine_plain plain rest⟩
  bracket := captionBracket_bare bare c
  opening := by
    rw [Option.eq_none_iff_forall_ne_some]
    intro tag opens
    obtain ⟨-, opener, found, here⟩ := opener_of_nextOpening opens
    rcases Tag.opener_marked found with bracket | rfl | ⟨mark, isMark, first⟩
    · exact apart found bracket here
    · obtain ⟨host, target, active⟩ := host_of_nextOpening opens
      obtain ⟨o, member, rfl⟩ := isActive_iff.mp active
      exact (bare o member).1 target
    · have same := head?_of_begins (Tag.opener_inLine found).2 (next ▸ here)
      rw [first, Option.some.injEq] at same
      exact plain (same ▸ isMark)
  closing := by
    rw [Option.eq_none_iff_forall_ne_some]
    intro tag closes
    obtain ⟨-, closer, found, here⟩ := closer_of_nextClosing closes
    obtain ⟨o, member, rfl⟩ := List.mem_map.mp (List.mem_of_find?_eq_some closes)
    obtain ⟨mark, isMark, first⟩ := (bare o member).closer_marked found
    have same := head?_of_begins (Tag.closer_inLine found).2 (next ▸ here)
    rw [first, Option.some.injEq] at same
    exact plain (same ▸ isMark)

/-- While a tag is open that keeps every other delimiter from counting, only its own end is one. -/
theorem inert_exclusive {tag : Tag} {closer : Text} (exclusive : s.exclusive = some tag)
    (ends : tag.traits.closer = some closer) (within : s.lineBlank = false)
    (visible : c ≠ '\n' ∧ c ≠ '\\' ∧ Text.isGap c = false) (apart : ¬ closer <+: s.rest) :
    s.Inert c where
  visible := visible
  line blank := by
    rw [within] at blank
    cases blank
  bracket := by simp [captionBracket, exclusive]
  opening := nextOpening_of_exclusive (by simp [exclusive]) _
  closing := by
    rw [Option.eq_none_iff_forall_ne_some]
    intro other closes
    obtain ⟨free | own, found, isCloser, here⟩ := closer_of_nextClosing closes
    · rw [exclusive] at free
      cases free
    · rw [exclusive, Option.some.injEq] at own
      subst own
      rw [ends, Option.some.injEq] at isCloser
      exact apart (isCloser ▸ here)

/-! ### Lines -/

/-- Only tags are open that end with their line, text goes to the newest region, and there is no
bracket to come. -/
structure Lined (s : Scan) : Prop where
  grounded : s.Grounded
  receives : ∃ entry older, s.arena = entry :: older ∧ entry.region.isSealed = false
    ∧ entry.region.tag.traits.isVerbatim = false
  lines : ∀ o ∈ s.opened, o.tag.isSingleLine = true
  free : s.exclusive = none
  escaped : s.escaped = false
  bare : '[' ∉ s.rest

theorem Lined.ready (lined : s.Lined) : s.Ready := ⟨lined.grounded, lined.receives, lined.escaped⟩

theorem Lined.typed (lined : s.Lined) (typed : Typed text s s') (bare : '[' ∉ s'.rest) :
    s'.Lined where
  grounded := (lined.ready.typed typed).grounded
  receives := (lined.ready.typed typed).receives
  lines := typed.opened ▸ lined.lines
  free := typed.exclusive.trans lined.free
  escaped := (lined.ready.typed typed).escaped
  bare := bare

/-- A character that is no mark is written, behind the space that was read before it. -/
theorem reading_plain (lined : s.Lined) (next : s.rest = c :: rest) (plain : c ∉ Text.marks)
    (outside : s.lineBlank = true → s.listLevel = 0) :
    ∃ s', s.reading = s'.reading ∧ Typed (s.space ++ escapeText [c]) s s' ∧ s'.rest = rest := by
  have single : ∀ t ∈ Tag.all, t.isSingleLine = true → t ∉ Tag.urlTargets ∧ t ≠ .url := by decide
  have bare : ∀ o ∈ s.opened, o.tag.IsBare := fun o member =>
    single o.tag o.tag.mem_all (lined.lines o member)
  exact reading_inert_step lined.ready next
    (inert_plain bare next plain (fun _ bracket here => lined.bare (here.subset bracket)) outside)

/-! ### Words -/

/-- A plain word is written as it stands. -/
theorem reading_word (lined : s.Lined) (plain : word.IsPlain) (next : s.rest = word ++ rest)
    (outside : s.lineBlank = true → s.listLevel = 0) :
    ∃ s', s.reading = s'.reading ∧ Typed (s.space ++ escapeText word) s s' ∧ s'.rest = rest := by
  obtain ⟨some, marks⟩ := plain
  induction word generalizing s with
  | nil => exact absurd rfl some
  | cons c word ih =>
      obtain ⟨s₁, reads, typed, next₁⟩ := reading_plain lined next (marks c (by simp)) outside
      by_cases last : word = []
      · subst last
        exact ⟨s₁, reads, typed, next₁⟩
      · have bare₁ : '[' ∉ s₁.rest := by
          intro member
          rw [next₁] at member
          exact lined.bare (next ▸ .tail _ member)
        obtain ⟨s₂, reads₂, typed₂, next₂⟩ :=
          ih (lined.typed typed bare₁) next₁ (by simp [typed.lineBlank]) last
            fun d member => marks d (by simp [member])
        refine ⟨s₂, reads.trans reads₂, ?_, next₂⟩
        rw [typed.space, List.nil_append] at typed₂
        rw [escapeText_cons, ← List.append_assoc]
        exact typed.trans typed₂

theorem step_whitespace (ready : s.Ready) (next : s.rest = c :: rest)
    (gap : Text.isGap c = true) : s.step = .ok ((s.whitespace c).advance 1) := by
  obtain ⟨entry, older, split, -, notVerbatim⟩ := ready.receives
  have visible : c ≠ '\n' := by
    rintro rfl
    cases gap
  rw [step_eq split next, if_neg (by simp [notVerbatim]), if_neg (by simp [ready.escaped]),
    if_neg visible, if_pos gap]

/-- Between two words white space is read. -/
theorem step_gap (ready : s.Ready) (next : s.rest = c :: rest) (gap : Text.isGap c = true)
    (within : s.lineBlank = false) :
    s.step = .ok ({ s with
      rest := rest, pendingSpace := s.pendingSpace || !s.skipWhitespace }) := by
  rw [step_whitespace ready next gap]
  cases skips : s.skipWhitespace <;> simp [whitespace, advance, within, next, skips]

/-- White space between two words is one space to be written. -/
theorem reading_gaps (ready : s.Ready) (gaps : ∀ c ∈ gap, Text.isGap c = true)
    (next : s.rest = gap ++ rest) (within : s.lineBlank = false) :
    s.reading = reading { s with
      rest := rest, pendingSpace := s.pendingSpace || (!gap.isEmpty && !s.skipWhitespace) } := by
  induction gap generalizing s with
  | nil =>
      have same : s.rest = rest := next
      simp [← same]
  | cons c gap ih =>
      let s₁ : Scan := { s with
        rest := gap ++ rest, pendingSpace := s.pendingSpace || !s.skipWhitespace }
      have stepped : s.step = .ok s₁ := step_gap ready next (gaps c List.mem_cons_self) within
      have ready₁ : s₁.Ready := { ready with grounded := ready.grounded.of_labels rfl rfl }
      rw [reading_step ready.grounded (by simp [next]), stepped]
      change s₁.reading = _
      rw [ih ready₁ (fun d member => gaps d (List.mem_cons_of_mem c member)) rfl within]
      cases skips : s.skipWhitespace <;> simp [s₁, skips]

/-- White space in front of the first visible character of a line is its indentation. -/
theorem reading_indent (ready : s.Ready) (gaps : ∀ c ∈ gap, Text.isGap c = true)
    (next : s.rest = gap ++ rest) (blank : s.lineBlank = true) :
    s.reading = reading { s with rest := rest, indent := s.indent + gap.indentWidth } := by
  induction gap generalizing s with
  | nil =>
      have same : s.rest = rest := next
      simp [← same, Text.indentWidth]
  | cons c gap ih =>
      let s₁ : Scan := { s with
        rest := gap ++ rest, indent := s.indent + if c = '\t' then 2 else 1 }
      have isGap := gaps c List.mem_cons_self
      have stepped : s.step = .ok s₁ := by
        rw [step_whitespace ready next isGap]
        simp [whitespace, advance, blank, next, s₁]
      have ready₁ : s₁.Ready := { ready with grounded := ready.grounded.of_labels rfl rfl }
      have width : s₁.indent + Text.indentWidth gap = s.indent + Text.indentWidth (c :: gap) := by
        simp only [Text.isGap, Bool.or_eq_true, beq_iff_eq] at isGap
        rcases isGap with rfl | rfl <;> simp [s₁, Text.indentWidth] <;> omega
      rw [reading_step ready.grounded (by simp [next]), stepped, ← width]
      exact ih ready₁ (fun d member => gaps d (List.mem_cons_of_mem c member)) rfl blank

/-- Words on a line are written with one space between each two of them. -/
theorem reading_line (line : WordLine words text) (lined : s.Lined) (next : s.rest = text ++ rest)
    (outside : s.lineBlank = true → s.listLevel = 0) :
    ∃ s', s.reading = s'.reading
      ∧ Typed (s.space ++ escapeText (Text.join ' ' words)) s s' ∧ s'.rest = rest := by
  induction line generalizing s with
  | word plain => exact reading_word lined plain next outside
  | @words word gap behind words plain some gaps line ih =>
      rw [List.append_assoc, List.append_assoc] at next
      obtain ⟨s₁, reads₁, typed₁, next₁⟩ := reading_word lined plain next outside
      have bare₁ : '[' ∉ s₁.rest := by
        rw [next₁]
        exact fun member => lined.bare (next ▸ List.mem_append_right _ member)
      have lined₁ := lined.typed typed₁ bare₁
      let s₂ : Scan := { s₁ with rest := behind ++ rest, pendingSpace := true }
      have reads₂ : s₁.reading = s₂.reading := by
        have skips : s₁.skipWhitespace = false := by rw [typed₁]
        have waits : (s₁.pendingSpace || (!gap.isEmpty && !s₁.skipWhitespace)) = true := by
          simpa [skips] using .inr some
        rw [reading_gaps lined₁.ready gaps next₁ typed₁.lineBlank, waits]
      have lined₂ : s₂.Lined := { lined₁ with
        grounded := lined₁.grounded.of_labels rfl rfl
        bare := fun member => bare₁ (next₁ ▸ List.mem_append_right gap member) }
      have started : s₁.atBlockStart = false := by rw [typed₁]
      have space₂ : s₂.space = [' '] := by simp [s₂, Scan.space, started]
      obtain ⟨s', reads', typed', next'⟩ :=
        ih lined₂ rfl (by simp [s₂, typed₁.lineBlank])
      refine ⟨s', (reads₁.trans reads₂).trans reads', ?_, next'⟩
      have apart : Typed (' ' :: escapeText (Text.join ' ' words)) s₁ s' := by
        rw [space₂] at typed'
        exact typed'.of_line rfl
      have joined : Text.join ' ' (word :: words) = word ++ ' ' :: Text.join ' ' words :=
        Text.join_append (List.cons_ne_nil word []) line.nonempty
      rw [joined, escapeText_append, escapeText_cons ' ', ← List.append_assoc]
      exact typed₁.trans apart

/-- A phrase is written as it stands. -/
theorem reading_phrase (phrase : Phrase) (lined : s.Lined) (next : s.rest = phrase.text ++ rest)
    (outside : s.lineBlank = true → s.listLevel = 0) :
    ∃ s', s.reading = s'.reading ∧ Typed (s.space ++ escapeText phrase.text) s s'
      ∧ s'.rest = rest :=
  reading_line phrase.wordLine lined next outside

end Scan

end MarkPress
