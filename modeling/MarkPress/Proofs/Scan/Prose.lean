/-
Module: MarkPress.Proofs.Scan.Prose
Purpose: Reading words with any white space between them.
  White space behind a word is one space before the next one, whatever it consists of. The second
  line break in it ends the paragraph, and what comes before the first word of the next one leaves
  nothing but the indentation of its line, which plain words have no use for.
Main exports:
  Text.IsSpacing, Passage, Scan.Margin, Scan.inProse, reading_spacing, reading_passage,
  output_secondBreak, output_spacing, output_apart, output_trailing
-/
import MarkPress.Proofs.Scan.Blocks
import MarkPress.Proofs.Text.Pieces

namespace MarkPress

open Html

/-! ### White space and words -/

/-- White space of the markup: spaces, tabs and line breaks. -/
def Text.IsSpacing (text : Text) : Prop := ∀ c ∈ text, c ∈ [' ', '\t', '\n']

instance (text : Text) : Decidable text.IsSpacing := List.decidableBAll (· ∈ [' ', '\t', '\n']) text

/-- A paragraph as it is written: between each two words stands white space with at most one line
break. -/
inductive Passage : List Text → Text → Prop where
  | word {word : Text} (plain : word.IsPlain) : Passage [word] word
  | words {word gap rest : Text} {words : List Text} (plain : word.IsPlain) (some : gap ≠ [])
      (spacing : gap.IsSpacing) (line : gap.count '\n' ≤ 1) (behind : Passage words rest) :
      Passage (word :: words) (word ++ gap ++ rest)

theorem Text.IsSpacing.part {gap part : Text} (spacing : gap.IsSpacing) (within : part ⊆ gap) :
    part.IsSpacing :=
  fun c member => spacing c (within member)

theorem Text.IsSpacing.not_mem {gap : Text} (spacing : gap.IsSpacing) {c : Char}
    (solid : c ∉ [' ', '\t', '\n']) : c ∉ gap :=
  fun member => solid (spacing c member)

/-- White space with two line breaks is cut at the second one. -/
theorem Text.second_break {gap : Text} (blank : 2 ≤ gap.count '\n') :
    ∃ before behind, gap = before ++ '\n' :: behind ∧ before.count '\n' = 1 := by
  obtain ⟨line, more, rfl, first⟩ := List.eq_append_cons_of_mem
    (List.count_pos_iff.mp (show 0 < gap.count '\n' by omega))
  have none := List.count_eq_zero.mpr first
  have again : 0 < more.count '\n' := by
    rw [List.count_append, List.count_cons_self, none] at blank
    omega
  obtain ⟨second, behind, rfl, unbroken⟩ :=
    List.eq_append_cons_of_mem (List.count_pos_iff.mp again)
  refine ⟨line ++ '\n' :: second, behind, by simp, ?_⟩
  rw [List.count_append, List.count_cons_self, none, List.count_eq_zero.mpr unbroken]

/-- A paragraph has no marks but white space. -/
theorem Passage.not_mem {words : List Text} {text : Text} (passage : Passage words text) {c : Char}
    (mark : c ∈ Text.marks) (solid : c ∉ [' ', '\t', '\n']) : c ∉ text := by
  induction passage with
  | word plain => exact fun member => plain.2 c member mark
  | words plain some spacing line behind ih =>
      have wordFree := fun member => plain.2 c member mark
      exact List.not_mem_append (List.not_mem_append wordFree (spacing.not_mem solid)) ih

theorem Passage.nonempty {words : List Text} {text : Text} (passage : Passage words text) :
    words ≠ [] := by
  cases passage <;> exact List.cons_ne_nil _ _

theorem Passage.filled {words : List Text} {text : Text} (passage : Passage words text) :
    Text.join ' ' words ≠ [] := by
  cases passage with
  | word plain => exact plain.1
  | words plain =>
      rw [Text.join_cons]
      exact List.append_ne_nil_of_left_ne_nil plain.1 _

namespace Scan

variable {issued : List Text} {html gap rest text word : Text} {words : List Text}
  {written : List Text}

/-! ### The state in a paragraph -/

/-- How the line stands in a paragraph. -/
structure Margin where
  blankRun : Nat := 0
  indent : Nat := 0
  lineBlank : Bool := false
  pendingSpace : Bool := false
  atBlockStart : Bool := false

/-- The space that is written before the next word. -/
def Margin.space (margin : Margin) : Text :=
  if margin.pendingSpace && !margin.atBlockStart then [' '] else []

variable {margin : Margin}

/-- The state in a paragraph of words. -/
def inProse (issued : List Text) (margin : Margin) (html : Text) (written : List Text)
    (source : Text) : Scan :=
  { atParagraph issued margin.blankRun margin.indent margin.pendingSpace source with
    arena := ⟨1, (Region.ofTag .text).extend html⟩ :: [⟨0, .ofTag .paragraphBegin⟩]
    lineBlank := margin.lineBlank, atBlockStart := margin.atBlockStart
    written := written }

theorem inProse_lined (issued : List Text) (margin : Margin) (html : Text) (written : List Text)
    (bare : '[' ∉ rest) : (inProse issued margin html written rest).Lined where
  grounded := (atParagraph_grounded issued margin.blankRun margin.indent margin.pendingSpace
    rest).of_labels rfl rfl
  receives := ⟨_, _, rfl, rfl, rfl⟩
  lines := List.forall_mem_nil _
  free := rfl
  escaped := rfl
  bare := bare

theorem reading_inProse {margin' : Margin} {c : Char} (bare : '[' ∉ c :: rest)
    (step : (inProse issued margin html written (c :: rest)).step
      = .ok (inProse issued margin' html written rest)) :
    (inProse issued margin html written (c :: rest)).reading
      = (inProse issued margin' html written rest).reading := by
  rw [reading_step (inProse_lined _ _ _ _ bare).grounded (List.cons_ne_nil _ _), step]
  rfl

/-! ### White space in a paragraph -/

/-- White space in front of a second line break leaves a space to be written. -/
theorem reading_blank (issued : List Text) (html : Text) (written : List Text) {c : Char}
    (blank : c ∈ [' ', '\t', '\n'])
    (pends : margin.lineBlank = true → margin.pendingSpace = true)
    (few : margin.blankRun + [c].count '\n' < 2) (bare : '[' ∉ rest) :
    ∃ margin' : Margin, (inProse issued margin html written (c :: rest)).reading
        = (inProse issued margin' html written rest).reading
      ∧ margin'.blankRun = margin.blankRun + [c].count '\n' ∧ margin'.pendingSpace = true
      ∧ margin'.atBlockStart = margin.atBlockStart := by
  obtain ⟨blankRun, indent, lineBlank, pendingSpace, atBlockStart⟩ := margin
  have bare' : '[' ∉ c :: rest := by
    have solid : '[' ≠ c := by
      rintro rfl
      exact absurd blank (by decide)
    simp [solid, bare]
  simp only [List.mem_cons, List.not_mem_nil, or_false] at blank
  rcases blank with rfl | rfl | rfl
  · cases lineBlank with
    | false =>
        exact ⟨⟨blankRun, indent, false, true, atBlockStart⟩, reading_inProse bare' rfl, rfl, rfl,
          rfl⟩
    | true =>
        exact ⟨⟨blankRun, indent + 1, true, pendingSpace, atBlockStart⟩, reading_inProse bare' rfl,
          rfl, pends rfl, rfl⟩
  · cases lineBlank with
    | false =>
        exact ⟨⟨blankRun, indent, false, true, atBlockStart⟩, reading_inProse bare' rfl, rfl, rfl,
          rfl⟩
    | true =>
        exact ⟨⟨blankRun, indent + 2, true, pendingSpace, atBlockStart⟩, reading_inProse bare' rfl,
          rfl, pends rfl, rfl⟩
  · have first : blankRun = 0 := by
      change blankRun + 1 < 2 at few
      omega
    subst first
    exact ⟨⟨1, 0, true, true, atBlockStart⟩, reading_inProse bare' rfl, rfl, rfl, rfl⟩

/-- All white space up to a second line break is one space to be written. -/
theorem reading_spacing (issued : List Text) (margin : Margin) (html : Text)
    (written : List Text) (spacing : gap.IsSpacing)
    (pends : margin.lineBlank = true → margin.pendingSpace = true)
    (few : margin.blankRun + gap.count '\n' < 2) (bare : '[' ∉ rest) :
    ∃ margin' : Margin, (inProse issued margin html written (gap ++ rest)).reading
        = (inProse issued margin' html written rest).reading
      ∧ margin'.blankRun = margin.blankRun + gap.count '\n'
      ∧ (margin.pendingSpace = true ∨ gap ≠ [] → margin'.pendingSpace = true)
      ∧ margin'.atBlockStart = margin.atBlockStart := by
  induction gap generalizing margin with
  | nil => exact ⟨margin, rfl, rfl, fun pending => pending.resolve_right (absurd rfl), rfl⟩
  | cons c gap ih =>
      have later : Text.IsSpacing gap := spacing.part (List.subset_cons_self c gap)
      have counted : (c :: gap).count '\n' = [c].count '\n' + gap.count '\n' := by
        rw [← List.singleton_append, List.count_append]
      rw [counted] at few ⊢
      have bare' := List.not_mem_append (later.not_mem (by decide)) bare
      obtain ⟨m, reads, blankRun, pending, start⟩ := reading_blank issued html written
        (spacing c List.mem_cons_self) pends (by omega) bare'
      obtain ⟨m', reads', blankRun', pending', start'⟩ := ih m later (fun _ => pending)
        (by omega)
      exact ⟨m', reads.trans reads', by omega, fun _ => pending' (.inl pending), start'.trans start⟩

/-! ### The words of a paragraph -/

/-- A word is written behind the space before it. -/
theorem reading_proseWord (issued : List Text) (margin : Margin) (html : Text)
    (written : List Text) (plain : word.IsPlain) (bare : '[' ∉ word ++ rest) :
    ∃ written', (inProse issued margin html written (word ++ rest)).reading
      = (inProse issued { indent := margin.indent } (html ++ margin.space ++ escapeText word)
          written' rest).reading := by
  obtain ⟨s', reads, typed, next⟩ :=
    reading_word (inProse_lined issued margin html written bare) plain rfl fun _ => rfl
  obtain ⟨written', rfl⟩ := typed.eq next
  have content : (Region.ofTag .text).extend (html ++ margin.space ++ escapeText word)
      = ((Region.ofTag .text).extend html).extend (margin.space ++ escapeText word) := by
    rw [Region.extend_extend, List.append_assoc]
  refine ⟨written', reads.trans ?_⟩
  conv_rhs => rw [inProse, content]
  rfl

/-- The words of a paragraph are written with one space between each two of them. -/
theorem reading_passage (issued : List Text) (margin : Margin) (html : Text)
    (written : List Text) (passage : Passage words text) (bare : '[' ∉ rest) :
    ∃ indent written', (inProse issued margin html written (text ++ rest)).reading
      = (inProse issued { indent := indent }
          (html ++ margin.space ++ escapeText (Text.join ' ' words)) written' rest).reading := by
  have bracket : ∀ {words text}, Passage words text → '[' ∉ text := fun passage =>
    passage.not_mem (by decide) (by decide)
  induction passage generalizing margin html written with
  | word plain =>
      have bareWord := List.not_mem_append (bracket (.word plain)) bare
      obtain ⟨written', reads⟩ := reading_proseWord issued margin html written plain bareWord
      exact ⟨_, written', reads⟩
  | @words word gap rest' words plain some spacing line behind ih =>
      have bareRest := List.not_mem_append (bracket behind) bare
      have bareGap := List.not_mem_append (spacing.not_mem (by decide)) bareRest
      have bareWord := List.not_mem_append (bracket (.word plain)) bareGap
      obtain ⟨written₁, reads₁⟩ := reading_proseWord issued margin html written plain bareWord
      obtain ⟨m, reads₂, -, pending, start⟩ := reading_spacing issued { indent := margin.indent }
        (html ++ margin.space ++ escapeText word) written₁ spacing nofun
        (Nat.lt_succ_of_le (by simpa using line)) bareRest
      obtain ⟨indent, written', reads₃⟩ := ih m (html ++ margin.space ++ escapeText word) written₁
      have space : m.space = [' '] := by
        rw [Margin.space, pending (.inr some), start]
        rfl
      have joined : escapeText (Text.join ' ' (word :: words))
          = escapeText word ++ ([' '] ++ escapeText (Text.join ' ' words)) := by
        have apart : Text.join ' ' ([word] ++ words) = word ++ ' ' :: Text.join ' ' words :=
          Text.join_append (List.cons_ne_nil _ _) behind.nonempty
        rw [List.singleton_append] at apart
        rw [apart, escapeText_append, escapeText_cons ' ']
        rfl
      refine ⟨indent, written', ?_⟩
      rw [List.append_assoc, List.append_assoc, reads₁, reads₂, reads₃, space, joined]
      simp only [List.append_assoc]

/-- The words of a paragraph are read from the beginning of its first line on. -/
theorem reading_paragraph (issued : List Text) (passage : Passage words text) (bare : '[' ∉ rest)
    (indent : Nat) :
    ∃ indent' written, (atParagraph issued 0 indent false (text ++ rest)).reading
      = (inProse issued { indent := indent' } (escapeText (Text.join ' ' words)) written
          rest).reading :=
  reading_passage issued ⟨0, indent, true, false, true⟩ [] [] passage bare

/-! ### The end of a paragraph -/

/-- A paragraph that is open at the end of a source ends with its section. -/
theorem output_lastParagraph (filled : html ≠ []) :
    output [.sect] (inProse issued margin html written []).complete
      = .ok ("<p>".toList ++ html ++ "</p>".toList ++ "</section>".toList) := by
  have regions : (inProse issued margin html written []).regions
        ++ [Region.ofTag .paragraphEnd, .ofTag .sectionEnd]
      = .ofTag .paragraphBegin :: (Region.ofTag .text).extend html :: .ofTag .paragraphEnd
        :: [.ofTag .sectionEnd] := rfl
  change output [.sect] (inProse issued margin html written []).finish = _
  rw [output_finish_outside rfl rfl, regions, Export.htmlIn_paragraph filled,
    Export.htmlIn_sectionEnd]
  rfl

/-- The second line break ends a paragraph, and what stands behind it goes on as it would alone. -/
theorem output_secondBreak (plain : ∀ c ∈ html, c ≠ '<' ∧ c ≠ '>') (filled : html ≠ [])
    (second : margin.blankRun = 1) (bare : '[' ∉ rest) :
    output [.sect] (inProse issued margin html written ('\n' :: rest)).complete
      = (continuation issued rest).map ("<p>".toList ++ html ++ "</p>".toList ++ ·) := by
  let s : Scan := { (inProse issued margin html written rest).endParagraph with
    blankRun := 2, lineBlank := true, indent := 0, atBlockStart := true }
  have bareLine : '[' ∉ '\n' :: rest := by simpa using bare
  have lined := inProse_lined issued margin html written bareLine
  have step : (inProse issued margin html written ('\n' :: rest)).step = .ok s.openParagraph := by
    obtain ⟨blankRun, indent, lineBlank, pendingSpace, atBlockStart⟩ := margin
    cases second
    rfl
  have grounded : s.Grounded :=
    (lined.grounded.pushRegion (.ofTag .paragraphEnd)).of_labels rfl rfl
  have still : s.Still := by
    constructor <;> first | rfl | (constructor <;> rfl)
  have inner := Region.inner_extend_ofTag .text html
  have begins : (Region.ofTag .paragraphBegin).Fits .blocks := Region.fits_ofTag (by decide)
  have fits : ((Region.ofTag .text).extend html).Fits .prose := {
    tag := show Tag.text ∈ Zone.prose.tags by decide
    attributes := rfl
    tokenized := inner.symm ▸ tokenized_of_plain plain
    free := inner.symm ▸ free_plain fun member => (plain _ member).1 rfl
    marker := fun other => absurd rfl other }
  have ends : (Region.ofTag .paragraphEnd).Fits .prose := Region.fits_ofTag (by decide)
  have laid : Zone.blocks.Lays (grounded.base.older.map Entry.region).reverse .blocks :=
    .cons begins (.cons fits (.single ends))
  have follows := complete_inside (atParagraph_grounded issued 2 0 false rest) grounded.firm rfl
  have regions : (grounded.base.older.map Entry.region).reverse
      = .ofTag .paragraphBegin :: (Region.ofTag .text).extend html
        :: [.ofTag .paragraphEnd] := rfl
  have content : Export.htmlIn [.sect] (.ofTag .paragraphBegin :: (Region.ofTag .text).extend html
        :: [.ofTag .paragraphEnd]) = "<p>".toList ++ html ++ "</p>".toList :=
    (Export.htmlIn_paragraph filled).trans (List.append_nil _)
  have opens : s.openParagraph = (atParagraph issued 2 0 false rest).inside grounded.base :=
    openParagraph_eq_inside grounded still
  rw [complete_step lined.grounded (List.cons_ne_nil _ _), step]
  change output [.sect] s.openParagraph.complete = _
  rw [opens]
  refine (follows.output laid).trans ?_
  rw [output_atParagraph, regions]
  change (continuation issued rest).map (Export.htmlIn [.sect] _ ++ ·) = _
  rw [content]

/-- White space in front of a paragraph adds nothing. -/
theorem output_spacing (issued : List Text) (spacing : gap.IsSpacing) (indent : Nat)
    (rest : Text) :
    ∃ indent', output [.sect] (atParagraph issued 0 indent false (gap ++ rest)).complete
      = output [.sect] (atParagraph issued 0 indent' false rest).complete := by
  induction gap generalizing indent with
  | nil => exact ⟨indent, rfl⟩
  | cons c gap ih =>
      have later : Text.IsSpacing gap := spacing.part (List.subset_cons_self c gap)
      rw [List.cons_append, complete_step (atParagraph_grounded ..) (List.cons_ne_nil _ _)]
      by_cases breaks : c = '\n'
      · subst breaks
        obtain ⟨indent', same⟩ := ih later 0
        refine ⟨indent', Eq.trans ?_ same⟩
        rw [atParagraph_newline_zero]
        exact output_atParagraph
      · have isGap : Text.isGap c = true := by
          have blank := spacing c List.mem_cons_self
          simpa [Text.isGap, breaks] using blank
        obtain ⟨indent', same⟩ := ih later (indent + if c = '\t' then 2 else 1)
        refine ⟨indent', Eq.trans ?_ same⟩
        rw [atParagraph_gap isGap]
        rfl

/-- White space with a second line break in it ends the paragraph before it, and leaves only the
indentation of the line behind it. -/
theorem output_apart (issued : List Text) (written : List Text)
    (plain : ∀ c ∈ html, c ≠ '<' ∧ c ≠ '>') (filled : html ≠ [])
    (spacing : gap.IsSpacing) (blank : 2 ≤ gap.count '\n') (bare : '[' ∉ rest) (indent : Nat) :
    ∃ indent', output [.sect] (inProse issued { indent := indent } html written
        (gap ++ rest)).complete
      = (output [.sect] (atParagraph issued 0 indent' false rest).complete).map
          ("<p>".toList ++ html ++ "</p>".toList ++ ·) := by
  obtain ⟨before, behind, rfl, once⟩ := Text.second_break blank
  have spacing₁ : Text.IsSpacing before := spacing.part (List.subset_append_left _ _)
  have spacing₂ : Text.IsSpacing behind :=
    spacing.part (List.subset_append_of_subset_right _ (List.subset_cons_self _ _))
  have bareBehind := List.not_mem_append (spacing₂.not_mem (by decide)) bare
  have bareLine : '[' ∉ '\n' :: (behind ++ rest) := by simpa using bareBehind
  obtain ⟨margin, reads, blankRun, -⟩ := reading_spacing issued { indent := indent } html written
    spacing₁ nofun (by rw [once]; exact Nat.one_lt_two) bareLine
  have second : margin.blankRun = 1 := by rw [blankRun, once]
  obtain ⟨indent', same⟩ := output_spacing issued spacing₂ 0 rest
  refine ⟨indent', ?_⟩
  rw [List.append_assoc, List.cons_append, complete, reads]
  refine (output_secondBreak plain filled second bareBehind).trans ?_
  rw [continuation, same]

/-- White space behind the last paragraph adds nothing. -/
theorem output_trailing (plain : ∀ c ∈ html, c ≠ '<' ∧ c ≠ '>') (filled : html ≠ [])
    (spacing : gap.IsSpacing) (indent : Nat) :
    output [.sect] (inProse issued { indent := indent } html written gap).complete
      = .ok ("<p>".toList ++ html ++ "</p>".toList ++ "</section>".toList) := by
  rw [← List.append_nil gap]
  by_cases blank : 2 ≤ gap.count '\n'
  · obtain ⟨indent', ends⟩ := output_apart issued written plain filled spacing blank
      List.not_mem_nil indent
    rw [ends]
    rfl
  · have few : 0 + gap.count '\n' < 2 := by omega
    obtain ⟨margin, reads, -⟩ := reading_spacing issued { indent := indent } html written spacing
      nofun few List.not_mem_nil
    rw [complete, reads]
    exact output_lastParagraph filled

end Scan

end MarkPress
