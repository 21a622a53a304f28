/-
Module: MarkPress.Proofs.Scan.CodeBlocks
Purpose: What a block of code becomes.
  Its content is any text without the delimiter, brackets included. So what holds of a scan without
  brackets is shown here for the state in the block, whatever has been read there.
Main exports:
  Scan.fence, Scan.inCode, reading_code, compiles_code, output_openCode
-/
import MarkPress.Proofs.Scan.Blocks

namespace MarkPress

open Html

namespace Scan

variable {issued : List Text} {source html rest : Text}

/-- The delimiter of a block of code. -/
def fence : Text := ['\x60', '\x60', '\x60']

/-- The state in a block of code. -/
def inCode (issued : List Text) (html : Text) (written : List Text) (source : Text) : Scan :=
  { inBlock issued ⟨.codeBlock, some 4⟩ ((Region.ofTag .codeBlock).extend html) written source with
    exclusive := some .codeBlock }

theorem inCode_grounded (issued : List Text) (html : Text) (written : List Text) (source : Text) :
    (inCode issued html written source).Grounded :=
  (inBlock_grounded issued ⟨.codeBlock, some 4⟩ ((Region.ofTag .codeBlock).extend html) written
    source).of_labels rfl rfl

/-- In front of a block of code the empty paragraph ends, and the line break behind the fence is not
content. -/
theorem reading_fence (issued : List Text) (source : Text) :
    (startAt issued (fence ++ '\n' :: source)).reading = (inCode issued [] [] source).reading := by
  have opens : (startAt issued (fence ++ '\n' :: source)).step
      = .ok { inCode issued [] [] ('\n' :: source) with afterFence := true } := rfl
  have grounded : Grounded { inCode issued [] [] ('\n' :: source) with afterFence := true } :=
    (inCode_grounded issued [] [] ('\n' :: source)).of_labels rfl rfl
  rw [reading_step (startAt_grounded ..) (by simp [fence]), opens]
  refine (reading_step grounded (List.cons_ne_nil _ _)).trans ?_
  rfl

/-- Inside of a block of code every character in front of the fence stands for itself. -/
theorem step_code {written : List Text} {c : Char}
    (inside : Text.startsWith fence (c :: rest) = false) :
    (inCode issued html written (c :: rest)).step
      = .ok (inCode issued (html ++ escapeText [c]) (escapeText [c] :: written) rest) := by
  have closing : (inCode issued html written (c :: rest)).nextClosing = none := by
    have closes : (inCode issued html written (c :: rest)).closesHere .codeBlock = false := by
      change (true && Text.startsWith fence (c :: rest)) = false
      rw [inside]
      rfl
    change [Tag.codeBlock].find? _ = none
    simp [closes]
  have literal : (inCode issued html written (c :: rest)).step
      = (inCode issued html written (c :: rest)).delimiterOrLiteral false c := rfl
  have opening : (inCode issued html written (c :: rest)).nextOpening false = none := rfl
  rw [literal, delimiterOrLiteral, opening, closing]
  simp only [inCode, ← Region.extend_extend]
  rfl

theorem inCode_quiet {written : List Text}
    (quiet : (inCode issued html written source).Quiet) (c : Char) :
    (inCode issued (html ++ escapeText [c]) (escapeText [c] :: written) source).Quiet := by
  have wrote : (inCode issued html written source).appendLiteral c
      = .ok (inCode issued (html ++ escapeText [c]) (escapeText [c] :: written) source) := by
    simp only [inCode, ← Region.extend_extend]
    rfl
  have coherent := quiet.coherent
  have flat : Meets (fun _ => True) Flat _ :=
    appendLiteral_flat quiet.flat coherent.sound coherent.writable c
  have adds : Meets (fun _ => True) _ _ := appendLiteral_meets coherent.sound coherent.writable c
  rw [wrote] at flat adds
  exact ⟨flat, coherent.adds adds.1 adds.2, .of_visible rfl, rfl⟩

/-- Where a text has no fence and does not end with a backtick, no fence begins at its first
character, whatever stands behind it. -/
theorem startsWith_fence {code : Text} (filled : code ≠ []) (noFence : ¬ fence <:+: code)
    (ending : code.getLast? ≠ some '\x60') (rest : Text) :
    Text.startsWith fence (code ++ rest) = false := by
  apply Bool.eq_false_iff.mpr
  intro starts
  rcases List.prefix_or_prefix_of_prefix (Text.startsWith_iff.mp starts)
    (List.prefix_append code rest) with begins | part
  · exact noFence begins.isInfix
  · obtain ⟨c, last⟩ := Option.ne_none_iff_exists'.mp (mt List.getLast?_eq_none_iff.mp filled)
    have backticks : ∀ d ∈ fence, d = '\x60' := by simp [fence]
    exact ending (backticks c (part.subset (List.mem_of_getLast? last)) ▸ last)

/-- A text without a fence that does not end with a backtick is content as it stands. -/
theorem reading_code {code : Text} (issued : List Text) (html : Text) (written : List Text)
    (noFence : ¬ fence <:+: code) (ending : code.getLast? ≠ some '\x60') (rest : Text) :
    ∃ written', (inCode issued html written (code ++ rest)).reading
        = (inCode issued (html ++ escapeText code) written' rest).reading
      ∧ ((inCode issued html written fence).Quiet →
        (inCode issued (html ++ escapeText code) written' fence).Quiet) := by
  induction code generalizing html written with
  | nil =>
      rw [show escapeText [] = [] from rfl, List.append_nil]
      exact ⟨written, rfl, id⟩
  | cons c code ih =>
      have inside : Text.startsWith fence (c :: (code ++ rest)) = false :=
        startsWith_fence (List.cons_ne_nil c code) noFence ending rest
      have later : ¬ fence <:+: code := fun inCode =>
        noFence (inCode.trans (List.suffix_cons c code).isInfix)
      have laterEnding : code.getLast? ≠ some '\x60' := by
        cases code with
        | nil => simp
        | cons d code => rwa [List.getLast?_cons_cons] at ending
      obtain ⟨written', reads, quiet⟩ :=
        ih (html ++ escapeText [c]) (escapeText [c] :: written) later laterEnding
      rw [escapeText_cons c code, ← List.append_assoc]
      refine ⟨written', ?_, fun before => quiet (inCode_quiet before c)⟩
      refine (reading_step (inCode_grounded ..) (List.cons_ne_nil _ _)).trans ?_
      change (inCode issued html written (c :: (code ++ rest))).step >>= reading = _
      rw [step_code inside]
      exact reads

/-- The first line of a block of code leaves the scan inside of it. -/
theorem inCode_start (issued : List Text) : (inCode issued [] [] fence).Quiet := by
  have reads : (startAt issued (fence ++ '\n' :: fence)).steps 2
      = .ok (inCode issued [] [] fence) := rfl
  have quiet := startAt_quiet issued (by decide : '\r' ∉ fence ++ '\n' :: fence) (by decide)
  exact (steps_quiet 2 quiet).of_ok reads

/-- The state behind a block of code. -/
def afterCode (issued : List Text) (html : Text) (written : List Text) : Scan :=
  ((inCode issued html written []).forget .codeBlock).endParagraph.openParagraph

/-- The end of a block of code, at its second fence or at the end of the source. -/
theorem closeTag_code {written : List Text}
    (quiet : (inCode issued html written fence).Quiet) :
    (inCode issued html written []).closeTag .codeBlock = .ok (afterCode issued html written) := by
  have sound : (inCode issued html written []).Sound := (quiet.coherent.advance 3).sound
  exact closeTag_block_eq sound rfl rfl

theorem step_closingFence {written : List Text}
    (quiet : (inCode issued html written fence).Quiet) :
    (inCode issued html written fence).step = .ok (afterCode issued html written) :=
  closeTag_code quiet

theorem output_afterCode {written : List Text} (filled : html ≠ []) :
    output [] (afterCode issued html written).finish
      = .ok ("<section>".toList ++ ("<pre class=\"code\">".toList ++ html ++ "</pre>".toList)
        ++ "</section>".toList) := by
  let region := (Region.ofTag .codeBlock).extend html
  have shown : region.isShown = true := by
    have some : region.isEmpty = false := by simp [Region.isEmpty_eq, region, filled]
    rw [Region.isShown, some]
    rfl
  have rendered : region.render = "<pre class=\"code\">".toList ++ html ++ "</pre>".toList := by
    have inner : region.inner = html := by simp [region]
    rw [Region.render, inner]
    rfl
  have regions : (afterCode issued html written).regions
        ++ [Region.ofTag .paragraphEnd, .ofTag .sectionEnd]
      = .ofTag .sectionBegin :: .ofTag .paragraphBegin :: .ofTag .text :: .ofTag .paragraphEnd
        :: region :: .ofTag .paragraphEnd :: .ofTag .paragraphBegin :: .ofTag .text
        :: .ofTag .paragraphEnd :: [.ofTag .sectionEnd] := rfl
  rw [output_finish_outside rfl rfl, regions, Export.htmlIn_sectionBegin,
    Export.htmlIn_emptyParagraph, Export.htmlIn_whole shown (.inl rfl), rendered,
    Export.htmlIn_surplusEnd (by decide), Export.htmlIn_emptyParagraph, Export.htmlIn_sectionEnd]
  simp only [List.append_assoc]
  rfl

theorem compiles_code {code : Text} (filled : code ≠ []) (noFence : ¬ fence <:+: code)
    (ending : code.getLast? ≠ some '\x60') :
    Compiles issued (fence ++ '\n' :: (code ++ fence))
      ("<pre class=\"code\">".toList ++ escapeText code ++ "</pre>".toList) issued := by
  obtain ⟨written, reads, quiet⟩ := reading_code issued [] [] noFence ending fence
  rw [List.nil_append] at reads quiet
  have inside := quiet (inCode_start issued)
  have closes := step_closingFence inside
  have ended : (startAt issued (fence ++ '\n' :: (code ++ fence))).reading
      = .ok (afterCode issued (escapeText code) written) := by
    rw [reading_fence, reads, reading_step (inCode_grounded ..) (by simp [inCode, inBlock, fence]),
      closes]
    rfl
  have rests : (afterCode issued (escapeText code) written).Rests := {
    quiet := (step_quiet inside).of_ok closes
    read := rfl
    lines := List.forall_mem_nil _
    unescaped := rfl }
  exact ⟨_, ended, rests, rfl, output_afterCode (escapeText_ne_nil filled)⟩

/-- A block of code that has no second fence ends with the source. -/
theorem output_openCode {code : Text} (filled : code ≠ []) (noFence : ¬ fence <:+: code)
    (ending : code.getLast? ≠ some '\x60') :
    output [] (startAt issued (fence ++ '\n' :: code)).complete
      = .ok ("<section>".toList ++ ("<pre class=\"code\">".toList ++ escapeText code
        ++ "</pre>".toList) ++ "</section>".toList) := by
  obtain ⟨written, reads, quiet⟩ := reading_code issued [] [] noFence ending []
  rw [List.nil_append, List.append_nil] at reads
  have inside := quiet (inCode_start issued)
  have ends : (inCode issued (escapeText code) written []).finish
      = (afterCode issued (escapeText code) written).finish :=
    finish_of_single rfl (closeTag_code inside) rfl
  rw [complete, reading_fence, reads]
  change output [] (inCode issued (escapeText code) written []).finish = _
  rw [ends, output_afterCode (escapeText_ne_nil filled)]

end Scan

end MarkPress
