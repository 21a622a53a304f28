/-
Module: MarkPress.Proofs.Render.Balance
Purpose: When the output is balanced.
  At the end of a run nothing is owed, so what the output lacks for balance is exactly what has been
  left out: the inner texts that are not shown, the text that folding leaves out, and the closing
  halves of paragraphs that no opening half stands before. What is only ever written whole is always
  balanced.
Main exports:
  wholeElements, Scan.omitted, balance_html, balance_omitted, balance_whole, render_balanced_iff
-/
import MarkPress.Proofs.Render.Ledger

namespace MarkPress

open Html

/-- The elements that are only ever written whole. -/
def wholeElements : List Element := [.h1, .h2, .h3, .pre, .span]

theorem whole_paired {element : Element} (whole : element ∈ wholeElements) :
    element ∈ pairedElements ∧ element ≠ .p ∧ element ∉ inlineElements := by
  revert whole
  cases element <;> decide

namespace Scan

variable {s : Scan} {element : Element}

/-- Where everything is closed and nothing is owed, the halves written are balanced. -/
theorem Closed.written (closed : s.Closed) (settled : s.debt element = 0) :
    (s.written.map (balance element)).sum = 0 := by
  have none : s.due element = 0 := by
    simp [due, closed.opened, closed.listLevel, closed.anchor]
  rw [debt, none] at settled
  omega

/-- All that the output of a scan leaves out: what folding has left out, what the regions at the end
leave out, and the closing halves without an opening half. -/
def omitted (s : Scan) : Text :=
  s.lost.flatten ++ s.regions.flatMap Region.leftOut
    ++ (Export.orphans id s.regions).flatMap Region.render

end Scan

/-! ### The output -/

namespace Region

variable {region : Region} {element : Element}

theorem inner_of_prunable (prunable : region.isPrunable = true) : region.inner = [] := by
  have empty : region.isEmpty = true := by
    rw [isPrunable, Tag.isPrunable] at prunable
    split at prunable
    · exact prunable
    · exact prunable
    · cases prunable
    · cases prunable
  rw [isEmpty_eq] at empty
  exact List.isEmpty_iff.mp empty

end Region

/-- The two halves of an empty pair cancel each other. -/
theorem balance_emptyPair {left right : Region} {element : Element}
    (cleanLeft : left.Holds Tokenized) (cleanRight : right.Holds Tokenized)
    (paired : element ∈ pairedElements) (empty : Export.isEmptyPair left right = true) :
    balance element left.render + balance element right.render = 0 := by
  simp only [Export.isEmptyPair, Export.isPair, Bool.and_eq_true, beq_iff_eq] at empty
  obtain ⟨⟨prunableLeft, prunableRight⟩, ⟨⟨-, same⟩, opening⟩, closing⟩ := empty
  have halfLeft := Region.balance_render cleanLeft paired
  have halfRight := Region.balance_render cleanRight paired
  rw [Region.inner_of_prunable prunableLeft, opening, balance_nil] at halfLeft
  rw [Region.inner_of_prunable prunableRight, closing, balance_nil] at halfRight
  rw [halfLeft, halfRight, Tag.half, Tag.half, same, opening, closing]
  split <;> simp [shapeBalance]

/-- The output and the orphaned halves together are all that is shown. -/
theorem balance_html {regions : List Region} {element : Element}
    (clean : ∀ r ∈ regions, r.Holds Tokenized) (paired : element ∈ pairedElements) :
    balance element (Export.html regions)
        + balance element ((Export.orphans id regions).flatMap Region.render)
      = (regions.map fun r => balance element r.shownText).sum := by
  have rendered : ∀ r ∈ regions, Tokenized r.render := fun r member =>
    lasting_tokenized.render (clean r member)
  have selected := Export.sum_selection id (fun r => balance element r.render)
    fun left hleft right hright empty =>
      balance_emptyPair (clean left hleft) (clean right hright) paired empty
  have shown : ((regions.filter fun r => (id r).isShown).map fun r => balance element r.render).sum
      = (regions.map fun r => balance element r.shownText).sum := by
    clear selected rendered clean
    induction regions with
    | nil => rfl
    | cons first rest ih =>
        rw [List.map_cons, List.sum_cons, ← ih, List.filter_cons, Region.shownText]
        simp only [id]
        split
        · rw [List.map_cons, List.sum_cons]
        · rw [balance_nil, Int.zero_add]
  have inOutput : ∀ r ∈ Export.selection id regions, Tokenized r.render := fun r member =>
    rendered r ((Export.selection_sublist _).subset member)
  have inOrphans : ∀ r ∈ Export.orphans id regions, Tokenized r.render := fun r member =>
    rendered r ((Export.orphans_sublist _).subset member)
  rw [Export.html, balance_flatMap inOutput, balance_flatMap inOrphans, selected, shown]

/-- The account of a finished scan: the output and what it leaves out lack, together, what the
surplus paragraph ends closed. -/
theorem balance_omitted {s : Scan} {source : Text} {element : Element} (closed : s.Closed)
    (settled : s.debt element = 0) (edits : Scan.Edits (Scan.root source) s)
    (paired : element ∈ pairedElements) :
    balance element (Export.html s.regions) + balance element s.omitted
      = if element = .p then -(s.surplusEnds : Int) else 0 := by
  have holds := edits.holds lasting_tokenized
  have clean : ∀ r ∈ s.regions, r.Holds Tokenized := fun r member => holds.mem_regions member
  have left : ∀ r ∈ s.regions, Tokenized r.leftOut := fun r member =>
    lasting_tokenized.leftOut (clean r member)
  have html := balance_html clean paired
  have account := edits.ledger paired
  have written := closed.written settled
  have weights : (s.arena.map fun e => e.region.weight element).sum
      = (s.regions.map fun r => balance element r.shownText).sum
        + (s.regions.map fun r => balance element r.leftOut).sum := by
    have inOrder : (s.arena.map fun e => e.region.weight element).sum
        = (s.regions.map fun r => r.weight element).sum := by
      rw [Scan.regions, List.map_reverse, List.sum_reverse, List.map_map]
      rfl
    rw [inOrder]
    exact List.sum_map_add
  have omitted : balance element s.omitted
      = (s.lost.map (balance element)).sum
        + (s.regions.map fun r => balance element r.leftOut).sum
        + balance element ((Export.orphans id s.regions).flatMap Region.render) := by
    have lostText : Tokenized s.lost.flatten := by
      rw [← List.flatMap_id]
      exact tokenized_flatMap holds.lost
    have lostBalance : balance element s.lost.flatten = (s.lost.map (balance element)).sum := by
      rw [← List.flatMap_id]
      exact balance_flatMap holds.lost
    rw [Scan.omitted, balance_append element (lostText.append (tokenized_flatMap left)),
      balance_append element lostText, lostBalance, balance_flatMap left]
  rw [Scan.ledger, Scan.paragraphs, closed.paragraphOpen, written, weights] at account
  simp only [Bool.false_eq_true, if_false, Int.zero_sub] at account
  omega

/-- Text that is balanced for an element that is only ever written whole. -/
theorem lasting_level {element : Element} (whole : element ∈ wholeElements) :
    Lasting fun text => Tokenized text ∧ balance element text = 0 where
  append := by
    intro left right levelledLeft levelledRight
    obtain ⟨tokenizedLeft, levelLeft⟩ := levelledLeft
    obtain ⟨tokenizedRight, levelRight⟩ := levelledRight
    refine ⟨tokenizedLeft.append tokenizedRight, ?_⟩
    rw [balance_append element tokenizedLeft, levelLeft, levelRight]
    rfl
  inline := fun inline => ⟨inline.tokenized, inline.neutral element (whole_paired whole).2.2⟩
  render := by
    intro region holds
    obtain ⟨paired, notParagraph, -⟩ := whole_paired whole
    have clean : region.Holds Tokenized := ⟨holds.inner.1, holds.attributes⟩
    refine ⟨lasting_tokenized.render clean, ?_⟩
    rw [Region.balance_render clean paired, Tag.half_eq_zero paired (.inr notParagraph),
      holds.inner.2]
    split <;> rfl

/-- Elements that are only ever written whole are balanced in every output. -/
theorem balance_whole {s : Scan} {source : Text} {element : Element}
    (edits : Scan.Edits (Scan.root source) s) (whole : element ∈ wholeElements) :
    balance element (Export.html s.regions) = 0 := by
  have lasting := lasting_level whole
  have holds := edits.holds lasting
  have level : Tokenized (Export.html s.regions)
      ∧ balance element (Export.html s.regions) = 0 := by
    apply lasting.flatMap
    intro r member
    exact lasting.render (holds.mem_regions ((Export.selection_sublist _).subset member))
  exact level.2

/-- An output is balanced for an element exactly if what it leaves out is, each surplus end of a
paragraph counted as one more opening tag there. Headings, code blocks and captions are balanced in
every output. -/
theorem render_balanced_iff {source html : Text} (h : render source = .ok html) :
    ∃ s, (Scan.start source).run = .ok s ∧ html = Export.html s.regions
      ∧ (∀ element ∈ pairedElements, openings element html = closings element html ↔
          openings element s.omitted + (if element = .p then s.surplusEnds else 0)
            = closings element s.omitted)
      ∧ ∀ element ∈ wholeElements, openings element html = closings element html := by
  have run := Scan.run_start_meets source
  rw [render, scan] at h
  cases ran : (Scan.start source).run with
  | error halt =>
      rw [ran] at h
      cases h
  | ok s =>
      rw [ran] at h run
      obtain ⟨s₁, rfl, closed, settled, edits⟩ := run
      cases h
      refine ⟨_, rfl, rfl, fun element paired => ?_, fun element whole => ?_⟩
      · have account := balance_omitted closed (settled element) edits paired
        have omitted : Scan.omitted { s₁ with finished := true } = s₁.omitted := rfl
        have regions : Scan.regions { s₁ with finished := true } = s₁.regions := rfl
        have surplus : Scan.surplusEnds { s₁ with finished := true } = s₁.surplusEnds := rfl
        rw [omitted, regions, surplus]
        rw [balance, balance] at account
        by_cases paragraph : element = .p
        · rw [if_pos paragraph] at account ⊢
          omega
        · rw [if_neg paragraph] at account ⊢
          omega
      · have level := balance_whole edits whole
        rw [balance] at level
        have regions : Scan.regions { s₁ with finished := true } = s₁.regions := rfl
        rw [regions]
        omega

/-- The inner text of a small image is not shown, so what opens in there has an end only. A
paragraph that ends inside of a link has two. -/
theorem render_balanced_iff_small :
    render "!small[*a](u)".toList
        = .ok ("<section><p><img alt=\"a\" class=\"embed-small\" src=\"u\" />".toList
          ++ "</strong></p></section>".toList)
      ∧ (∃ s, (Scan.start "!small[*a](u)".toList).run = .ok s
        ∧ openings .strong s.omitted ≠ closings .strong s.omitted)
      ∧ ∃ html, render "[a\n# b\n c]".toList = .ok html ∧ openings .p html < closings .p html := by
  have compiled : render "!small[*a](u)".toList
      = .ok ("<section><p><img alt=\"a\" class=\"embed-small\" src=\"u\" />".toList
        ++ "</strong></p></section>".toList) := by
    decide +kernel
  have second : render "[a\n# b\n c]".toList
      = .ok ("<section><p><a class=\"link\">a</p><h1><a href=\"#b\" id=\"b\">b</a></h1></p>".toList
        ++ "</section><section><p>c</a></p></section>".toList) := by
    decide +kernel
  obtain ⟨s, ran, -, balanced, -⟩ := render_balanced_iff compiled
  have strong := balanced .strong (by decide)
  rw [if_neg (by decide), Nat.add_zero] at strong
  refine ⟨compiled, ⟨s, ran, fun same => ?_⟩, _, second, by decide +kernel⟩
  exact absurd (strong.mpr same) (by decide +kernel)

end MarkPress
