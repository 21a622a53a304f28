/-
Module: MarkPress.Proofs.Render.Code
Purpose: The output of code.
  Between the fences of a block every character stands for itself, line breaks, backslashes and the
  delimiters of other tags included; between two backticks every one does that is neither white
  space nor a backslash. Code that is not ended ends with the source.
Main exports:
  Text.spanMarks, Scan.inSpan, reading_span, output_span, render_codeBlock, render_codeSpan,
  render_verbatim
-/
import MarkPress.Proofs.Scan.CodeBlocks
import MarkPress.Proofs.Scan.Links

namespace MarkPress

open Html Scan

/-- White space, the backslash and the delimiter of code in a line. -/
def Text.spanMarks : Text := ['\x60', '\\', ' ', '\t', '\n', '\r']

namespace Scan

variable {c : Char} {text html rest : Text} {written : List Text}

/-! ### Code in a line -/

/-- The state in the code with which a source begins. -/
def inSpan (html : Text) (written : List Text) (source : Text) : Scan :=
  { startAt [] source with
    arena := ⟨2, (Region.ofTag .text).extend html⟩ :: ⟨1, .ofTag .paragraphBegin⟩
      :: [⟨0, .ofTag .sectionBegin⟩]
    opened := [⟨.code, none⟩]
    exclusive := some .code
    lineBlank := false, atBlockStart := false
    written := written }

theorem inSpan_ready (html : Text) (written : List Text) (source : Text) :
    (inSpan html written source).Ready where
  grounded := (startAt_grounded [] source).of_labels rfl rfl
  receives := ⟨_, _, rfl, rfl, rfl⟩
  escaped := rfl

/-- A backtick that begins no fence begins code in a line. -/
theorem step_spanBegin (apart : c ≠ '\x60') (rest : Text) :
    (startAt [] ('\x60' :: c :: rest)).step
      = .ok (inSpan "<code>".toList ["<code>".toList] (c :: rest)) := by
  let s : Scan := startAt [] ('\x60' :: c :: rest)
  have ready : s.Ready := ⟨startAt_grounded .., ⟨_, _, rfl, rfl, rfl⟩, rfl⟩
  have solid : s.Solid '\x60' := ⟨by decide, fun _ => ⟨rfl, rfl⟩, rfl⟩
  have noFence : s.entered.opensHere true .codeBlock = false := by
    have differs : Text.startsWith fence ('\x60' :: c :: rest) = false := by
      simp [Text.startsWith, Text.after?, fence, apart.symm]
    exact differs
  have opening : s.entered.nextOpening true = some .code := by
    change Tag.all.find? (s.entered.opensHere true) = some .code
    rw [Tag.all, List.find?_cons_of_neg (by simp [noFence])]
    rfl
  have begins : s.step = s.entered.delimiterOrLiteral true '\x60' := step_solid ready rfl solid
  rw [begins, delimiterOrLiteral, opening]
  rfl

/-- Code in a line is written as it stands. -/
theorem reading_span (plain : text.Avoids Text.spanMarks) (html : Text) (written : List Text)
    (rest : Text) :
    ∃ written', (inSpan html written (text ++ rest)).reading
      = (inSpan (html ++ escapeText text) written' rest).reading := by
  obtain ⟨s', reads, typed, next⟩ := reading_inert (inSpan_ready html written (text ++ rest)) rfl
    rfl fun before d behind t split typed next => by
      have unmarked : d ∉ Text.spanMarks := plain d (split ▸ by simp)
      have ends : Tag.code.traits.closer = some ['\x60'] := rfl
      refine inert_exclusive typed.exclusive ends typed.lineBlank
        (Text.visible_of_not_mem (by decide) unmarked) fun here => ?_
      rw [next] at here
      exact unmarked ((List.cons_prefix_cons.mp here).1 ▸ by decide)
  obtain ⟨written', rfl⟩ := typed.eq next
  refine ⟨written', reads.trans ?_⟩
  simp only [inSpan, ← Region.extend_extend]
  rfl

/-- The state behind code in a line. -/
def afterSpan (html : Text) (written : List Text) : Scan :=
  { inSpan html written [] with opened := [], exclusive := none }

theorem step_spanEnd (html : Text) (written : List Text) :
    (inSpan html written ['\x60']).step
      = .ok (afterSpan (html ++ "</code>".toList) ("</code>".toList :: written)) := by
  simp only [afterSpan, inSpan, ← Region.extend_extend]
  rfl

/-- Code in a line that has no second backtick ends with the source. -/
theorem closeTag_span (html : Text) (written : List Text) :
    (inSpan html written []).closeTag .code
      = .ok (afterSpan (html ++ "</code>".toList) ("</code>".toList :: written)) := by
  simp only [afterSpan, inSpan, ← Region.extend_extend]
  rfl

theorem reading_codeSpan (filled : text ≠ []) (plain : text.Avoids Text.spanMarks) (rest : Text) :
    ∃ written, (startAt [] ('\x60' :: (text ++ rest))).reading
      = (inSpan ("<code>".toList ++ escapeText text) written rest).reading := by
  cases text with
  | nil => exact absurd rfl filled
  | cons c text =>
      have apart : c ≠ '\x60' := fun same => plain c List.mem_cons_self (same ▸ by decide)
      obtain ⟨written, reads⟩ := reading_span plain "<code>".toList ["<code>".toList] rest
      refine ⟨written, Eq.trans ?_ reads⟩
      rw [reading_step (startAt_grounded ..) (by simp), List.cons_append, step_spanBegin apart]
      rfl

/-- Code in a line is an element of its own, whether it is ended or not. -/
theorem output_span (filled : text ≠ []) (plain : text.Avoids Text.spanMarks) (rest : Text)
    (ends : rest = ['\x60'] ∨ rest = []) :
    output [] (startAt [] ('\x60' :: (text ++ rest))).complete
      = .ok ("<section>".toList ++ ("<p>".toList ++ ("<code>".toList ++ escapeText text
        ++ "</code>".toList) ++ "</p>".toList) ++ "</section>".toList) := by
  obtain ⟨written, reads⟩ := reading_codeSpan filled plain rest
  have whole : output [] (afterSpan ("<code>".toList ++ escapeText text ++ "</code>".toList)
      ("</code>".toList :: written)).finish = _ := output_paragraph (by simp) rfl rfl rfl
  rw [complete, reads]
  rcases ends with rfl | rfl
  · rw [reading_step (inSpan_ready ..).grounded (List.cons_ne_nil _ _), step_spanEnd]
    exact whole
  · have closed : (inSpan ("<code>".toList ++ escapeText text) written []).finish = _ :=
      finish_of_single rfl (closeTag_span _ _) rfl
    change output [] (inSpan ("<code>".toList ++ escapeText text) written []).finish = _
    rw [closed]
    exact whole

end Scan

/-! ### Code -/

variable {text : Text}

theorem render_codeBlock (filled : text ≠ []) (noReturn : '\r' ∉ text)
    (noFence : ¬ fence <:+: text) (ending : text.getLast? ≠ some '\x60') :
    render (fence ++ '\n' :: (text ++ fence))
        = .ok ("<section><pre class=\"code\">".toList ++ escapeText text
          ++ "</pre></section>".toList)
      ∧ render (fence ++ '\n' :: text)
        = .ok ("<section><pre class=\"code\">".toList ++ escapeText text
          ++ "</pre></section>".toList) := by
  have whole : "<section>".toList ++ ("<pre class=\"code\">".toList ++ escapeText text
      ++ "</pre>".toList) ++ "</section>".toList = "<section><pre class=\"code\">".toList
        ++ escapeText text ++ "</pre></section>".toList := by
    simp
  have inFence : '\r' ∉ fence := by decide
  rw [← whole]
  constructor
  · exact (compiles_code filled noFence ending).render_eq (by simp [noReturn, inFence])
  · rw [render_eq_output, Text.normalizeBreaks_eq (by simp [noReturn, inFence])]
    exact output_openCode filled noFence ending

theorem render_codeSpan (filled : text ≠ []) (plain : text.Avoids Text.spanMarks) {rest : Text}
    (ends : rest = ['\x60'] ∨ rest = []) :
    render ('\x60' :: (text ++ rest))
      = .ok ("<section><p><code>".toList ++ escapeText text
        ++ "</code></p></section>".toList) := by
  have whole : "<section>".toList ++ ("<p>".toList ++ ("<code>".toList ++ escapeText text
      ++ "</code>".toList) ++ "</p>".toList) ++ "</section>".toList
        = "<section><p><code>".toList ++ escapeText text ++ "</code></p></section>".toList := by
    simp
  have noReturn : '\r' ∉ text := fun member => plain _ member (by decide)
  have noReturn' : '\r' ∉ '\x60' :: (text ++ rest) := by
    rcases ends with rfl | rfl <;> simp [noReturn]
  rw [← whole, render_eq_output, Text.normalizeBreaks_eq noReturn']
  exact output_span filled plain rest ends

/-- Code stands in the output as it is written, with the angle brackets escaped. A block of code
keeps all but the line break behind its first fence, and neither a block nor code in a line has to
be ended. -/
theorem render_verbatim (filled : text ≠ []) :
    ('\r' ∉ text → ¬ fence <:+: text → text.getLast? ≠ some '\x60' →
      render (fence ++ '\n' :: (text ++ fence))
          = .ok ("<section><pre class=\"code\">".toList ++ escapeText text
            ++ "</pre></section>".toList)
        ∧ render (fence ++ '\n' :: text)
          = .ok ("<section><pre class=\"code\">".toList ++ escapeText text
            ++ "</pre></section>".toList))
    ∧ (text.Avoids Text.spanMarks →
      render ('\x60' :: (text ++ ['\x60']))
          = .ok ("<section><p><code>".toList ++ escapeText text
            ++ "</code></p></section>".toList)
        ∧ render ('\x60' :: text)
          = .ok ("<section><p><code>".toList ++ escapeText text
            ++ "</code></p></section>".toList)) := by
  refine ⟨render_codeBlock filled, fun plain => ⟨render_codeSpan filled plain (.inl rfl), ?_⟩⟩
  have alone := render_codeSpan filled plain (.inr rfl)
  rwa [List.append_nil] at alone

/-- A block of code with a blank line, two backticks and delimiters in it, and code in a line that
looks like a link. -/
theorem render_verbatim_delimiters :
    ("\n[\\<# \x60\x60-".toList ≠ [] ∧ '\r' ∉ "\n[\\<# \x60\x60-".toList
      ∧ ¬ fence <:+: "\n[\\<# \x60\x60-".toList
      ∧ "\n[\\<# \x60\x60-".toList.getLast? ≠ some '\x60'
      ∧ render "\x60\x60\x60\n\n[\\<# \x60\x60-\x60\x60\x60".toList
        = .ok "<section><pre class=\"code\">\n[\\&lt;# \x60\x60-</pre></section>".toList)
    ∧ ("[*](>".toList ≠ [] ∧ Text.Avoids "[*](>".toList Text.spanMarks
      ∧ render "\x60[*](>".toList
        = .ok "<section><p><code>[*](&gt;</code></p></section>".toList) := by
  have noFence : ¬ fence <:+: "\n[\\<# \x60\x60-".toList := by decide +kernel
  have plain : Text.Avoids "[*](>".toList Text.spanMarks := by decide
  have block := (@render_verbatim "\n[\\<# \x60\x60-".toList (by decide)).1 (by decide) noFence
    (by decide)
  have span := (@render_verbatim "[*](>".toList (by decide)).2 plain
  exact ⟨⟨by decide, by decide, noFence, by decide, block.1⟩, by decide, plain, span.2⟩

end MarkPress
