/-
Module: MarkPress.Proofs.Render.Tokens
Purpose: The output consists of tokens.
  Every region of a scan holds whole tokens and known attributes only. An alternative text or an
  address is cut out of such text, but it is a value of an attribute then and escaped as one.
Main exports:
  lasting_tokenized, tokenized_html, render_tokenized
-/
import MarkPress.Proofs.Render.Selection
import MarkPress.Proofs.Scan.Holding

namespace MarkPress

open Html

theorem lasting_tokenized : Lasting Tokenized where
  append := Tokenized.append
  inline := Inline.tokenized
  render := fun {region} holds => region.tag.tokenized_write holds.attributes holds.inner _

/-- The output of regions of whole tokens consists of tokens. -/
theorem tokenized_html {regions : List Region} (clean : ∀ r ∈ regions, r.Holds Tokenized) :
    Tokenized (Export.html regions) := by
  rw [Export.html]
  apply tokenized_flatMap
  intro r member
  have inRegions : r ∈ regions := (Export.selection_sublist _).subset member
  exact lasting_tokenized.render (clean r inRegions)

/-- Whatever a source holds, its output is a concatenation of characters other than angle brackets
and of complete tags of known elements with known attributes and escaped values. -/
theorem render_tokenized {source html : Text} (h : render source = .ok html) : Tokenized html := by
  have run := Scan.run_start_meets source
  rw [render, scan] at h
  cases ran : (Scan.start source).run with
  | error halt =>
      rw [ran] at h
      cases h
  | ok s =>
      rw [ran] at h run
      obtain ⟨s₁, rfl, -, -, edits⟩ := run
      cases h
      apply tokenized_html
      intro r member
      exact (edits.holds lasting_tokenized).mem_regions member

/-- Angle brackets and a quote in a heading, a caption and an address. -/
theorem render_tokenized_angles :
    render "# a<b\n![*x*>](\"<u>)".toList
        = .ok ("<section><h1><a href=\"#a-b\" id=\"a-b\">a&lt;b</a></h1></section><section>".toList
          ++ "<img alt=\"x&gt;\" class=\"embed\" src=\"&quot;&lt;u&gt;\" />".toList
          ++ "<span class=\"caption\"><strong>x</strong>&gt;</span></section>".toList)
      ∧ Tokenized
        ("<section><h1><a href=\"#a-b\" id=\"a-b\">a&lt;b</a></h1></section><section>".toList
          ++ "<img alt=\"x&gt;\" class=\"embed\" src=\"&quot;&lt;u&gt;\" />".toList
          ++ "<span class=\"caption\"><strong>x</strong>&gt;</span></section>".toList) := by
  have compiled : render "# a<b\n![*x*>](\"<u>)".toList
      = .ok ("<section><h1><a href=\"#a-b\" id=\"a-b\">a&lt;b</a></h1></section><section>".toList
        ++ "<img alt=\"x&gt;\" class=\"embed\" src=\"&quot;&lt;u&gt;\" />".toList
        ++ "<span class=\"caption\"><strong>x</strong>&gt;</span></section>".toList) := by
    decide +kernel
  exact ⟨compiled, render_tokenized compiled⟩

end MarkPress
