/-
Module: MarkPress.Proofs.Render.Emphasis
Purpose: The output of a paragraph of emphasized text.
  Plain characters, escaped characters and the signs of bold and italic text make up one paragraph.
  What is still open at its end ends there, the one opened last first.
Main exports:
  output_tokens, render_inline
-/
import MarkPress.Proofs.Scan.Emphasis

namespace MarkPress

open Html Scan

namespace Scan

variable {opened : List Emphasis} {html : Text} {written : List Text}

/-- Tokens add their output, and what is open behind them ends. -/
theorem output_tokens (tokens : List InlineToken) (once : opened.Nodup)
    (filled : html ++ inlineHtml opened tokens ≠ []) :
    output [] (inEmphasis true opened html written (tokens.flatMap InlineToken.source)).complete
      = .ok ("<section>".toList ++ ("<p>".toList ++ (html ++ inlineHtml opened tokens)
          ++ "</p>".toList) ++ "</section>".toList) := by
  induction tokens generalizing opened html written with
  | nil =>
      obtain ⟨written', closes⟩ := closeAll_emphasis once html written
      have tags : (inEmphasis true opened html written []).opened.map OpenTag.tag
          = opened.map Emphasis.tag := by
        rw [inEmphasis, List.map_map]
        rfl
      have ends : (inEmphasis true opened html written []).finish = _ :=
        finish_of_closeAll (tags ▸ closes) rfl
      change output [] (inEmphasis true opened html written []).finish = _
      rw [ends]
      exact output_paragraph filled rfl rfl rfl
  | cons token tokens ih =>
      obtain ⟨written', reads⟩ := reading_token true html written token tokens fun unread =>
        absurd unread (by decide)
      have grows : html ++ inlineHtml opened (token :: tokens)
          = html ++ token.html opened ++ inlineHtml (token.opens opened) tokens :=
        (List.append_assoc ..).symm
      rw [grows] at filled ⊢
      rw [complete, reads]
      exact ih (token.nodup_opens once) filled

end Scan

/-! ### Marked paragraphs -/

/-- Emphasized text is one paragraph: every character stands for itself, and bold and italic text
begin and end in turn, in the order in which their signs stand. -/
theorem render_inline (tokens : List InlineToken) (some : tokens ≠ []) :
    render (tokens.flatMap InlineToken.source)
      = .ok ("<section><p>".toList ++ inlineHtml [] tokens ++ "</p></section>".toList) := by
  cases tokens with
  | nil => exact absurd rfl some
  | cons token tokens =>
      obtain ⟨written', reads⟩ := reading_token false [] [] token tokens fun _ => rfl
      have filled : token.html [] ++ inlineHtml (token.opens []) tokens ≠ [] := by
        simp [token.html_ne_nil]
      rw [render_eq_output, Text.normalizeBreaks_eq (InlineToken.noReturn _)]
      change output [] (inEmphasis false [] [] []
        ((token :: tokens).flatMap InlineToken.source)).complete = _
      rw [complete, reads]
      refine (output_tokens tokens (token.nodup_opens List.nodup_nil) filled).trans ?_
      rw [inlineHtml]
      simp only [List.append_assoc]
      rfl

/-- Bold text that begins with an escaped line break and ends in italic text that is not ended. -/
theorem render_inline_overlap :
    [InlineToken.toggle .bold, .escaped '\n' (by decide), .escaped '-' (by decide),
        .toggle .italic, .plain '<' (by decide), .toggle .bold, .escaped '[' (by decide)] ≠ []
      ∧ render "*\\\n\\-/<*\\[".toList
        = .ok "<section><p><strong>\n-<em>&lt;</strong>[</em></p></section>".toList :=
  ⟨by simp, render_inline [.toggle .bold, .escaped '\n' (by decide), .escaped '-' (by decide),
    .toggle .italic, .plain '<' (by decide), .toggle .bold, .escaped '[' (by decide)] (by simp)⟩

end MarkPress
