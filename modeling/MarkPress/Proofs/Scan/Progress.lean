/-
Module: MarkPress.Proofs.Scan.Progress
Purpose: Every step goes on in the source, and none goes beyond its end.
  A step reads a delimiter or one character, and what it reads stands next in the source. That asks
  nothing of the state but that something is left to read, so it holds of malformed sources too, and
  of a scan that goes on behind an error. So a run takes no more steps than there are characters.
Main exports:
  Scan.lexeme, lexeme_begins, step_consumes, Scan.Loops, exists_loops, Scan.Visited, Scan.offset,
  Scan.Progress, visited_progress
-/
import MarkPress.Proofs.Scan.Names
import MarkPress.Scan.Access

namespace MarkPress.Scan

variable {s s' : Scan} {c : Char} {rest text : Text} {outcome outcome' : Outcome} {m n : Nat}
  {source : Text}

/-! ### What the next step reads -/

/-- The delimiter of the tag that begins or ends here. Without one, the character stands for
itself. -/
def delimiterText (atLineStart : Bool) (c : Char) (s : Scan) : Text :=
  match s.nextOpening atLineStart with
  | some tag => tag.traits.opener.getD []
  | none =>
      match s.nextClosing with
      | some tag => tag.traits.closer.getD []
      | none => [c]

/-- Whether white space and line breaks are content here. -/
def inVerbatim (s : Scan) : Bool :=
  s.arena.head?.any fun entry => entry.region.tag.traits.isVerbatim

/-- The text that the next step reads: the hyphens of a rule, a delimiter, or one character. -/
def lexeme (s : Scan) : Text :=
  match s.rest with
  | [] => []
  | c :: _ =>
      if s.inVerbatim then
        if s.afterFence && c == '\n' then [c] else s.delimiterText s.lineBlank c
      else if s.escaped || c == '\n' || Text.isGap c then [c]
      else if s.lineBlank && s.exclusive.isNone && isRuleLine s.rest then "---".toList
      else if c == '\\' || (s.captionBracket c).isSome then [c]
      else s.delimiterText s.lineBlank c

theorem lexeme_eq (here : s.rest = c :: rest) :
    s.lexeme
      = if s.inVerbatim then
          if s.afterFence && c == '\n' then [c] else s.delimiterText s.lineBlank c
        else if s.escaped || c == '\n' || Text.isGap c then [c]
        else if s.lineBlank && s.exclusive.isNone && isRuleLine s.rest then "---".toList
        else if c == '\\' || (s.captionBracket c).isSome then [c]
        else s.delimiterText s.lineBlank c := by
  simp only [lexeme, here]

theorem singleton_begins (here : s.rest = c :: rest) : [c] <+: s.rest ∧ [c] ≠ [] :=
  ⟨⟨rest, here.symm⟩, List.cons_ne_nil c []⟩

theorem delimiterText_begins (here : s.rest = c :: rest) (atLineStart : Bool) :
    s.delimiterText atLineStart c <+: s.rest ∧ s.delimiterText atLineStart c ≠ [] := by
  rw [delimiterText]
  cases nextOpen : s.nextOpening atLineStart with
  | some tag =>
      obtain ⟨-, opener, found, begins⟩ := opener_of_nextOpening nextOpen
      simp only [found, Option.getD_some]
      exact ⟨begins, (Tag.opener_inLine found).2⟩
  | none =>
      cases nextClose : s.nextClosing with
      | some tag =>
          obtain ⟨-, closer, found, ends⟩ := closer_of_nextClosing nextClose
          simp only [found, Option.getD_some]
          exact ⟨ends, (Tag.closer_inLine found).2⟩
      | none => exact singleton_begins here

/-- What the next step reads stands next in the source, and it is not empty. -/
theorem lexeme_begins (unread : s.rest ≠ []) : s.lexeme <+: s.rest ∧ s.lexeme ≠ [] := by
  cases here : s.rest with
  | nil => exact absurd here unread
  | cons c rest =>
      rw [← here, lexeme_eq here]
      split
      · split
        · exact singleton_begins here
        · exact delimiterText_begins here s.lineBlank
      · split
        · exact singleton_begins here
        · split
          · rename_i ruled
            rw [Bool.and_eq_true] at ruled
            exact ⟨prefix_of_isRuleLine ruled.2, by decide⟩
          · split
            · exact singleton_begins here
            · exact delimiterText_begins here s.lineBlank

/-! ### What decides which delimiter stands here -/

/-- The part of a state that delimiters are looked up by. -/
def outlook (s : Scan) : Text × List OpenTag × Option Tag × Nat :=
  (s.rest, s.opened, s.exclusive, s.bracketDepth)

/-- Delimiters and brackets are found by the outlook alone. -/
theorem found_congr (same : s'.outlook = s.outlook) (c : Char) :
    (∀ atLineStart, s'.delimiterText atLineStart c = s.delimiterText atLineStart c)
      ∧ s'.captionBracket c = s.captionBracket c := by
  cases s
  cases s'
  simp only [outlook, Prod.mk.injEq] at same
  obtain ⟨rfl, rfl, rfl, rfl⟩ := same
  exact ⟨fun _ => rfl, rfl⟩

/-- An outcome has the outlook of a scan, if it is a scan at all. -/
def Outlooks (s : Scan) (outcome : Outcome) : Prop :=
  Meets (fun _ => True) (fun s' => s'.outlook = s.outlook) outcome

theorem write_outlooks (text : Text) (s : Scan) : s.Outlooks (s.write text) := by
  have changed : s.Outlooks (s.changeCurrent fun region => region.append text) := by
    rw [changeCurrent]
    split
    · trivial
    · split
      · rfl
      · trivial
  exact Meets.bind changed fun _ same => same

theorem openParagraph_outlook (s : Scan) : s.openParagraph.outlook = s.outlook := by
  rw [openParagraph]
  split <;> rfl

theorem closeLists_outlooks (s : Scan) : s.Outlooks s.closeLists := by
  rw [closeLists, setListLevel]
  split
  · rfl
  · have entered : (if s.listLevel = 0 then s.endParagraph.push .text else s).outlook
        = s.outlook := by
      split <;> rfl
    generalize (if s.listLevel = 0 then s.endParagraph.push .text else s) = s₁ at entered
    have written := write_outlooks (levelChange s₁.listLevel 0) { s₁ with listLevel := 0 }
    refine Meets.bind written fun s₂ same => ?_
    exact (openParagraph_outlook s₂).trans (same.trans entered)

/-- The lists that end before a visible character do not change what stands here. -/
theorem enterSolid_outlooks (atLineStart : Bool) (s : Scan) :
    s.Outlooks (s.enterSolid atLineStart) := by
  rw [enterSolid]
  split
  · exact Meets.bind (closeLists_outlooks s) fun _ same => same
  · rfl

/-! ### One step -/

/-- An outcome leaves of a text what stands behind the beginning of it that was read. An operation
that stops on an error may have read nothing. -/
def Consumes (unread text : Text) : Outcome → Prop
  | .ok s => unread = text ++ s.rest
  | .error halt => halt.state.rest = unread ∨ unread = text ++ halt.state.rest

/-- A text is read, and then something is done that reads nothing. -/
theorem consumes_before (here : text <+: s.rest)
    (keeps : (last outcome).rest = (s.advance text.length).rest) :
    Consumes s.rest text outcome := by
  obtain ⟨behind, split⟩ := here
  have left : (s.advance text.length).rest = behind := by
    rw [advance, ← split]
    exact List.drop_left
  rw [left] at keeps
  cases outcome with
  | ok s₁ => exact (keeps ▸ split).symm
  | error halt => exact .inr (keeps ▸ split).symm

/-- Something is done that reads nothing, and then a text is read. -/
theorem consumes_behind (here : text <+: s.rest) (keeps : (last outcome).rest = s.rest)
    {next : Scan → Outcome}
    (reads : ∀ s₁ : Scan, (last (next s₁)).rest = (s₁.advance text.length).rest) :
    Consumes s.rest text (outcome >>= next) := by
  cases outcome with
  | ok s₁ =>
      have same : s₁.rest = s.rest := keeps
      rw [← same] at here ⊢
      exact consumes_before here (reads s₁)
  | error halt => exact .inl keeps

theorem literal_consumes (here : s.rest = c :: rest) : Consumes s.rest [c] (s.literal c) :=
  consumes_behind (singleton_begins here).1 (appendLiteral_tacit c s).rest fun _ => rfl

/-- The beginning of a tag reads nothing behind its delimiter. -/
theorem openTag_rest (tag : Tag) (s : Scan) : (last (s.openTag tag)).rest = s.rest := by
  cases heading : tag.isHeading with
  | false => exact (openTag_tacit heading s).rest
  | true =>
      rcases openTag_titled heading s with tacit | titled
      · exact tacit.rest
      · exact titled.rest

theorem delimiterOrLiteral_consumes (here : s.rest = c :: rest) (atLineStart : Bool) :
    Consumes s.rest (s.delimiterText atLineStart c) (s.delimiterOrLiteral atLineStart c) := by
  have stands := (delimiterText_begins here atLineStart).1
  rw [delimiterText] at stands ⊢
  rw [delimiterOrLiteral]
  cases nextOpen : s.nextOpening atLineStart with
  | some tag =>
      simp only [nextOpen] at stands
      exact consumes_before stands (openTag_rest tag _)
  | none =>
      cases nextClose : s.nextClosing with
      | some tag =>
          simp only [nextOpen, nextClose] at stands
          exact consumes_before stands (closeTag_tacit tag _).rest
      | none => exact literal_consumes here

theorem rule_consumes (ruled : isRuleLine s.rest = true) :
    Consumes s.rest "---".toList s.rule := by
  rw [rule]
  refine consumes_behind (prefix_of_isRuleLine ruled) (closeLists_tacit s).rest fun s₁ => ?_
  have opened := (openParagraph_tacit (s₁.endParagraph.push .rule)).rest
  change (openParagraph _).rest.drop 3 = _
  rw [opened]
  rfl

theorem verbatimStep_consumes (here : s.rest = c :: rest) :
    Consumes s.rest (if s.afterFence && c == '\n' then [c] else s.delimiterText s.lineBlank c)
      (s.verbatimStep c) := by
  rw [verbatimStep]
  split
  · exact consumes_before (singleton_begins here).1 rfl
  · have unfenced : Scan.outlook { s with afterFence := false } = s.outlook := rfl
    rw [← (found_congr unfenced c).1]
    exact delimiterOrLiteral_consumes (s := { s with afterFence := false }) here s.lineBlank

theorem solidStep_consumes (here : s.rest = c :: rest) :
    Consumes s.rest
      (if c == '\\' || (s.captionBracket c).isSome then [c] else s.delimiterText s.lineBlank c)
      (s.solidStep c) := by
  have looks := enterSolid_outlooks s.lineBlank s
  have tacit := enterSolid_tacit s.lineBlank s
  rw [solidStep]
  cases entered : s.enterSolid s.lineBlank with
  | error halt =>
      rw [entered] at tacit
      exact .inl tacit.rest
  | ok s₁ =>
      rw [entered] at looks
      have same : s₁.rest = s.rest := congrArg Prod.fst looks
      have here₁ : s₁.rest = c :: rest := same.trans here
      -- delimiters are looked up behind the end of the lists, and what is found there is the same
      obtain ⟨delimiter, bracket⟩ := found_congr looks c
      rw [← bracket, ← delimiter, ← same]
      change Consumes _ _ (if c = '\\' then _ else _)
      by_cases escape : c = '\\'
      · rw [if_pos escape, if_pos (by simp [escape])]
        exact consumes_before (singleton_begins here₁).1 rfl
      · rw [if_neg escape]
        cases caption : s₁.captionBracket c with
        | some depth =>
            rw [if_pos (by simp)]
            exact literal_consumes (s := { s₁ with bracketDepth := depth }) here₁
        | none =>
            rw [if_neg (by simp [escape])]
            exact delimiterOrLiteral_consumes here₁ s.lineBlank

/-- A step reads the text that stands next for it to read, and no more. -/
theorem step_consumes (unread : s.rest ≠ []) : Consumes s.rest s.lexeme s.step := by
  cases here : s.rest with
  | nil => exact absurd here unread
  | cons c rest =>
      cases split : s.arena with
      | nil =>
          simp only [step, here, current, split]
          exact .inl here
      | cons entry older =>
          have verbatim : s.inVerbatim = entry.region.tag.traits.isVerbatim := by
            rw [inVerbatim, split]
            rfl
          rw [← here, lexeme_eq here, step_eq split here, verbatim]
          split
          · exact verbatimStep_consumes here
          · by_cases escaped : s.escaped = true
            · rw [if_pos escaped, if_pos (by simp [escaped])]
              exact literal_consumes (s := { s with escaped := false }) here
            · rw [if_neg escaped]
              by_cases lineBreak : c = '\n'
              · rw [if_pos lineBreak, if_pos (by simp [lineBreak])]
                exact consumes_behind (singleton_begins here).1 (newline_tacit s).rest fun _ => rfl
              · rw [if_neg lineBreak]
                by_cases gap : Text.isGap c = true
                · have same := (whitespace_tacit c s).rest
                  rw [if_pos gap, if_pos (by simp [gap]), ← same]
                  exact consumes_before (singleton_begins (same.trans here)).1 rfl
                · rw [if_neg gap, if_neg (by simp [escaped, lineBreak, gap])]
                  split
                  · rename_i ruled
                    rw [Bool.and_eq_true] at ruled
                    exact rule_consumes ruled.2
                  · exact solidStep_consumes here

theorem shorter_of_step (unread : s.rest ≠ []) (stepped : s.step = .ok s') :
    s'.rest.length < s.rest.length := by
  have consumes := step_consumes unread
  rw [stepped] at consumes
  have read : s.rest = s.lexeme ++ s'.rest := consumes
  have positive := List.length_pos_of_ne_nil (lexeme_begins unread).2
  rw [read, List.length_append]
  omega

/-- A step leaves an end of what there was to read, also where it stops on an error. -/
theorem step_suffix (s : Scan) : (last s.step).rest <:+ s.rest := by
  by_cases nothing : s.rest = []
  · have stays : s.step = .ok s := by rw [step, nothing]
    rw [stays]
    exact List.suffix_refl _
  · have consumes := step_consumes nothing
    cases stepped : s.step with
    | ok s' =>
        rw [stepped] at consumes
        exact ⟨s.lexeme, Eq.symm consumes⟩
    | error halt =>
        rw [stepped] at consumes
        rcases consumes with same | read
        · exact same ▸ List.suffix_refl _
        · exact ⟨s.lexeme, read.symm⟩

/-! ### A whole run -/

/-- Steps are taken for as long as something is left to read. The number counts them, with the one
that stops on an error. -/
inductive Loops : Nat → Scan → Outcome → Prop where
  | done {s : Scan} (nothing : s.rest = []) : Loops 0 s (.ok s)
  | stopped {s : Scan} {halt : Halt} (unread : s.rest ≠ []) (stopped : s.step = .error halt) :
      Loops 1 s (.error halt)
  | next {n : Nat} {s s' : Scan} {outcome : Outcome} (unread : s.rest ≠ [])
      (stepped : s.step = .ok s') (later : Loops n s' outcome) : Loops (n + 1) s outcome

namespace Loops

theorem length_le (loops : Loops n s outcome) : n ≤ s.rest.length := by
  induction loops with
  | done => exact Nat.zero_le _
  | stopped unread => exact List.length_pos_of_ne_nil unread
  | next unread stepped _ ih => exact Nat.lt_of_le_of_lt ih (shorter_of_step unread stepped)

theorem suffix (loops : Loops n s outcome) : (last outcome).rest <:+ s.rest := by
  induction loops with
  | done => exact List.suffix_refl _
  | @stopped s halt _ stopped =>
      have suffix := s.step_suffix
      rw [stopped] at suffix
      exact suffix
  | @next n s s' outcome _ stepped _ ih =>
      have suffix := s.step_suffix
      rw [stepped] at suffix
      exact ih.trans suffix

/-- The steps that a run allows for are enough. -/
theorem steps_eq (loops : Loops n s outcome) (enough : s.rest.length ≤ m) :
    s.steps m = outcome := by
  induction loops generalizing m with
  | done nothing => cases m <;> simp [steps, nothing]
  | @stopped s halt unread stopped =>
      have some := List.length_pos_of_ne_nil unread
      obtain ⟨m, rfl⟩ := Nat.exists_eq_add_one.mpr (Nat.lt_of_lt_of_le some enough)
      rw [steps, if_neg (by simpa using unread), stopped]
      rfl
  | @next n s s' outcome unread stepped _ ih =>
      have shorter := shorter_of_step unread stepped
      obtain ⟨m, rfl⟩ := Nat.exists_eq_add_one.mpr (Nat.lt_of_lt_of_le (by omega) enough)
      rw [steps, if_neg (by simpa using unread), stepped]
      exact ih (by omega)

end Loops

/-- The steps come to an end: they read the whole source, or one of them stops on an error. -/
theorem exists_loops (s : Scan) : ∃ n outcome, Loops n s outcome := by
  generalize lengthEq : s.rest.length = length
  induction length using Nat.strong_induction_on generalizing s with
  | _ length ih =>
      by_cases nothing : s.rest = []
      · exact ⟨0, .ok s, .done nothing⟩
      · cases stepped : s.step with
        | error halt => exact ⟨1, .error halt, .stopped nothing stepped⟩
        | ok s₁ =>
            obtain ⟨n, outcome, later⟩ :=
              ih _ (lengthEq ▸ shorter_of_step nothing stepped) s₁ rfl
            exact ⟨n + 1, outcome, .next nothing stepped later⟩

theorem run_suffix (s : Scan) : (last s.run).rest <:+ s.rest := by
  obtain ⟨n, outcome, loops⟩ := exists_loops s
  have suffix := loops.suffix
  rw [run, loops.steps_eq (Nat.le_refl _)]
  split
  · exact List.suffix_refl _
  · cases outcome with
    | error halt => exact suffix
    | ok s₁ =>
        have finished := (finish_tacit s₁).rest
        refine List.IsSuffix.trans ?_ suffix
        change (last (s₁.finish >>= fun s => pure { s with finished := true })).rest <:+ s₁.rest
        cases ended : s₁.finish with
        | ok s₂ =>
            rw [ended] at finished
            exact finished ▸ List.suffix_refl _
        | error halt =>
            rw [ended] at finished
            exact finished ▸ List.suffix_refl _

/-! ### The states of a scan -/

/-- The states that a scan of a source can come to. Steps lead from one to another, also those that
stop on an error, and so do runs; between them, text may be added to a region and what is there may
be exported. -/
inductive Visited (source : Text) : Scan → Prop where
  | start : Visited source (Scan.start source)
  | step {s : Scan} (visited : Visited source s) : Visited source (last s.step)
  | run {s : Scan} (visited : Visited source s) : Visited source (last s.run)
  | appendAt {s s' : Scan} {position : Binary64} {text : Text} (visited : Visited source s)
      (appended : s.appendAt position text = .ok s') : Visited source s'
  | exported {s : Scan} (visited : Visited source s) : Visited source s.exported.2

theorem appendAt_rest {position : Binary64} (appended : s.appendAt position text = .ok s') :
    s'.rest = s.rest := by
  rw [appendAt] at appended
  cases found : s.entryAt position with
  | error error =>
      rw [found] at appended
      cases appended
  | ok entry =>
      rw [found] at appended
      change (entry.2.region.append text >>= _) = _ at appended
      cases added : entry.2.region.append text with
      | error error =>
          rw [added] at appended
          cases appended
      | ok region =>
          rw [added] at appended
          cases appended
          rfl

theorem Visited.suffix (visited : Visited source s) : s.rest <:+ source.normalizeBreaks := by
  induction visited with
  | start => exact (openParagraph_tacit (root source)).rest ▸ List.suffix_refl _
  | step _ ih => exact (step_suffix _).trans ih
  | run _ ih => exact (run_suffix _).trans ih
  | appendAt _ appended ih => exact appendAt_rest appended ▸ ih
  | exported _ ih => exact ih

/-- The number of characters of a source that have been read. -/
def offset (source : Text) (s : Scan) : Nat := source.normalizeBreaks.length - s.rest.length

/-- From one state to another a scan moves on in its source by the text that a step reads, and this
text ends within the source. -/
structure Progress (source : Text) (s s' : Scan) : Prop where
  read : s.rest = s.lexeme ++ s'.rest
  moved : s'.offset source = s.offset source + s.lexeme.length
  forward : s.offset source < s'.offset source
  within : s.offset source + s.lexeme.length ≤ source.normalizeBreaks.length

theorem Visited.offset_add (visited : Visited source s) :
    s.offset source + s.rest.length = source.normalizeBreaks.length :=
  Nat.sub_add_cancel visited.suffix.length_le

theorem Visited.rest_eq (visited : Visited source s) :
    s.rest = source.normalizeBreaks.drop (s.offset source) :=
  List.suffix_iff_eq_drop.mp visited.suffix

/-- A step that does not stop on an error is progress. -/
theorem Visited.progress (visited : Visited source s) (unread : s.rest ≠ [])
    (stepped : s.step = .ok s') : Progress source s s' := by
  have consumes := step_consumes unread
  rw [stepped] at consumes
  have read : s.rest = s.lexeme ++ s'.rest := consumes
  have restLength : s.rest.length = s.lexeme.length + s'.rest.length := by
    rw [← List.length_append, ← read]
  have positive := List.length_pos_of_ne_nil (lexeme_begins unread).2
  have whole := visited.offset_add
  have moved : s'.offset source = s.offset source + s.lexeme.length := by
    rw [offset]
    omega
  exact ⟨read, moved, by omega, by omega⟩

/-- Whatever the source, in every state that a scan of it can come to, it has been read up to some
offset. If that is not its end, a step stops on an error or moves on, by a text that ends within the
source. So the steps of a run come to an end, and there are no more of them than there were
characters left. -/
theorem visited_progress (source : Text) (s : Scan) (visited : Visited source s) :
    s.rest = source.normalizeBreaks.drop (s.offset source)
      ∧ (s.offset source < source.normalizeBreaks.length →
          (∃ halt, s.step = .error halt) ∨ ∃ s', s.step = .ok s' ∧ Progress source s s')
      ∧ (∃ n outcome, Loops n s outcome)
      ∧ ∀ n outcome, Loops n s outcome →
          s.offset source + n ≤ source.normalizeBreaks.length
            ∧ s.run = if s.finished then .ok s else do
                let s ← outcome
                let s ← s.finish
                return { s with finished := true } := by
  have whole := visited.offset_add
  refine ⟨visited.rest_eq, fun left => ?_, exists_loops s, fun n outcome loops => ⟨?_, ?_⟩⟩
  · have unread : s.rest ≠ [] := List.ne_nil_of_length_pos (by omega)
    cases stepped : s.step with
    | error halt => exact .inl ⟨halt, rfl⟩
    | ok s' => exact .inr ⟨s', rfl, visited.progress unread stepped⟩
  · have few := loops.length_le
    omega
  · rw [run, loops.steps_eq (Nat.le_refl _)]

/-- A run that is refused at the line break behind a heading, and the step from there. -/
theorem visited_progress_refused :
    ∃ source halt s', (Scan.start source).run = .error halt ∧ halt.error = .sealed .heading1
      ∧ Visited source halt.state ∧ halt.state.offset source = 14
      ∧ source.normalizeBreaks.length = 16
      ∧ halt.state.step = .ok s' ∧ Progress source halt.state s'
      ∧ ∃ n outcome, Loops n halt.state outcome ∧ 14 + n ≤ 16 := by
  let source : Text := "[a ![b\n# c](u)\n!".toList
  have refused : (match (Scan.start source).run with
      | .ok _ => false
      | .error halt => halt.error == .sealed .heading1 && halt.state.offset source == 14
          && halt.state.step.toOption.isSome) = true := by
    decide +kernel
  have visited : Visited source (last (Scan.start source).run) := .run .start
  have lengthEq : source.normalizeBreaks.length = 16 := by decide +kernel
  cases ran : (Scan.start source).run with
  | ok s =>
      rw [ran] at refused
      cases refused
  | error halt =>
      rw [ran] at refused visited
      simp only [Bool.and_eq_true, beq_iff_eq] at refused
      obtain ⟨⟨errorEq, offsetEq⟩, steps⟩ := refused
      have holds := visited_progress source halt.state visited
      rw [offsetEq, lengthEq] at holds
      obtain ⟨-, moves, ⟨n, outcome, loops⟩, few⟩ := holds
      rcases moves (by decide) with ⟨stopped, stepped⟩ | ⟨s', stepped, progress⟩
      · rw [stepped] at steps
        cases steps
      · exact ⟨source, halt, s', ran, errorEq, visited, offsetEq, lengthEq, stepped, progress,
          n, outcome, loops, (few n outcome loops).1⟩

end MarkPress.Scan
