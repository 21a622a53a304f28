/-
Module: MarkPress.Proofs.Scan.Emphasis
Purpose: Reading emphasized text.
  Each sign of bold or italic text begins and ends its element in turn, whatever the other one does,
  and behind a backslash every character stands for itself, a line break and a delimiter at the
  beginning of a line included.
Main exports:
  Emphasis, InlineToken, InlineToken.source, InlineToken.html, inlineHtml, Scan.inEmphasis,
  reading_token, closeAll_emphasis
-/
import MarkPress.Proofs.Scan.Blocks

namespace MarkPress

open Html Scan

/-! ### Emphasized text -/

/-- The kinds of emphasis that a single character begins and ends. -/
inductive Emphasis where
  | bold
  | italic
deriving Repr, DecidableEq

namespace Emphasis

def sign : Emphasis → Char
  | .bold => '*'
  | .italic => '/'

def opening : Emphasis → Text
  | .bold => "<strong>".toList
  | .italic => "<em>".toList

def closing : Emphasis → Text
  | .bold => "</strong>".toList
  | .italic => "</em>".toList

def tag : Emphasis → Tag
  | .bold => .bold
  | .italic => .italic

end Emphasis

/-- A piece of emphasized text. -/
inductive InlineToken where
  /-- A character that is no mark. -/
  | plain (c : Char) (plain : c ∉ Text.marks)
  /-- A character behind a backslash. -/
  | escaped (c : Char) (noReturn : c ≠ '\r')
  | toggle (emphasis : Emphasis)

namespace InlineToken

/-- A token as it is written in a source. -/
def source : InlineToken → Text
  | .plain c _ => [c]
  | .escaped c _ => ['\\', c]
  | .toggle emphasis => [emphasis.sign]

/-- What is open behind a token, the one opened last first. -/
def opens (opened : List Emphasis) : InlineToken → List Emphasis
  | .toggle emphasis =>
      if emphasis ∈ opened then opened.filter (· ≠ emphasis) else emphasis :: opened
  | .plain _ _ | .escaped _ _ => opened

/-- A token in the output, given what is open before it. -/
def html (opened : List Emphasis) : InlineToken → Text
  | .plain c _ | .escaped c _ => escapeText [c]
  | .toggle emphasis => if emphasis ∈ opened then emphasis.closing else emphasis.opening

end InlineToken

/-- The output of tokens, given what is open before them: behind the last token all that is open
ends, the one opened last first. -/
def inlineHtml (opened : List Emphasis) : List InlineToken → Text
  | [] => opened.flatMap Emphasis.closing
  | token :: rest => token.html opened ++ inlineHtml (token.opens opened) rest

/-! ### Delimiters -/

namespace Emphasis

variable {tag : Tag}

theorem bare (emphasis : Emphasis) : emphasis.tag.IsBare := by
  cases emphasis <;> exact ⟨by decide, by decide⟩

theorem tag_injective : Function.Injective Emphasis.tag := by
  intro emphasis other same
  cases emphasis <;> cases other <;> first | rfl | cases same

/-- No other tag begins with the sign. -/
theorem tag_of_opener (emphasis : Emphasis) {opener : Text}
    (found : tag.traits.opener = some opener) (first : opener.head? = some emphasis.sign) :
    tag = emphasis.tag := by
  have all : ∀ t ∈ Tag.all, ∀ o ∈ t.traits.opener, o.head? = some emphasis.sign →
      t = emphasis.tag := by
    cases emphasis <;> decide
  exact all tag tag.mem_all opener found first

/-- No other tag ends with the sign. -/
theorem tag_of_closer (emphasis : Emphasis) {closer : Text}
    (found : tag.traits.closer = some closer) (first : closer.head? = some emphasis.sign) :
    tag = emphasis.tag := by
  have all : ∀ t ∈ Tag.all, ∀ o ∈ t.traits.closer, o.head? = some emphasis.sign →
      t = emphasis.tag := by
    cases emphasis <;> decide
  exact all tag tag.mem_all closer found first

end Emphasis

/-- Where a bracket stands in tokens, a backslash stands before it. So no delimiter with a bracket
is met there. -/
theorem InlineToken.bracket_apart (tokens : List InlineToken) {opener : Text}
    (bracket : '[' ∈ opener) (noBackslash : '\\' ∉ opener) :
    ¬ opener <+: tokens.flatMap source := by
  induction tokens generalizing opener with
  | nil =>
      intro here
      rw [List.flatMap_nil, List.prefix_nil] at here
      subst here
      cases bracket
  | cons token tokens ih =>
      intro here
      cases opener with
      | nil => cases bracket
      | cons d opener =>
          simp only [List.mem_cons, not_or] at noBackslash
          have behind : ∀ c, c ≠ '[' → ¬ (d :: opener) <+: c :: tokens.flatMap source := by
            intro c other starts
            obtain ⟨rfl, later⟩ := List.cons_prefix_cons.mp starts
            rcases List.mem_cons.mp bracket with same | inOpener
            · exact other same.symm
            · exact ih inOpener noBackslash.2 later
          cases token with
          | plain c plain =>
              have noBracket : c ≠ '[' := by
                rintro rfl
                exact plain (by decide)
              exact behind c noBracket here
          | escaped c noReturn =>
              have starts : d :: opener <+: '\\' :: c :: tokens.flatMap source := here
              exact noBackslash.1 (List.cons_prefix_cons.mp starts).1.symm
          | toggle emphasis =>
              have noBracket : emphasis.sign ≠ '[' := by cases emphasis <;> decide
              exact behind emphasis.sign noBracket here

namespace InlineToken

/-- Each emphasis is open at most once. -/
theorem nodup_opens (token : InlineToken) {opened : List Emphasis} (once : opened.Nodup) :
    (token.opens opened).Nodup := by
  cases token with
  | plain | escaped => exact once
  | toggle emphasis =>
      rw [opens]
      split
      · exact once.filter _
      · rename_i closed
        exact List.nodup_cons.mpr ⟨closed, once⟩

theorem html_ne_nil (token : InlineToken) (opened : List Emphasis) : token.html opened ≠ [] := by
  cases token with
  | plain | escaped => exact escapeText_ne_nil (List.cons_ne_nil _ _)
  | toggle emphasis =>
      rw [html]
      split <;> cases emphasis <;> decide

theorem noReturn (tokens : List InlineToken) : '\r' ∉ tokens.flatMap source := by
  rw [List.mem_flatMap]
  rintro ⟨token, -, member⟩
  cases token with
  | plain c plain => exact plain (List.mem_singleton.mp member ▸ by decide)
  | escaped c noReturn =>
      rcases List.mem_cons.mp member with same | later
      · cases same
      · exact noReturn (List.mem_singleton.mp later).symm
  | toggle emphasis => cases emphasis <;> cases List.mem_singleton.mp member

end InlineToken

namespace Scan

variable {s : Scan} {begun : Bool} {opened : List Emphasis} {html rest : Text} {written : List Text}
  {emphasis : Emphasis}

/-! ### The state between two tokens -/

/-- The state in a paragraph of emphasized text, and whether any of it has been read. -/
def inEmphasis (begun : Bool) (opened : List Emphasis) (html : Text) (written : List Text)
    (source : Text) : Scan :=
  { startAt [] source with
    arena := ⟨2, (Region.ofTag .text).extend html⟩ :: ⟨1, .ofTag .paragraphBegin⟩
      :: [⟨0, .ofTag .sectionBegin⟩]
    opened := opened.map fun emphasis => ⟨emphasis.tag, none⟩
    lineBlank := !begun, atBlockStart := !begun
    written := written }

theorem inEmphasis_ready (begun : Bool) (opened : List Emphasis) (html : Text)
    (written : List Text) (source : Text) :
    (inEmphasis begun opened html written source).Ready where
  grounded := (startAt_grounded [] source).of_labels rfl rfl
  receives := ⟨_, _, rfl, rfl, rfl⟩
  escaped := rfl

theorem reading_inEmphasis (begun : Bool) (opened : List Emphasis) (html : Text)
    (written : List Text) (c : Char) (rest : Text) :
    (inEmphasis begun opened html written (c :: rest)).reading
      = (inEmphasis begun opened html written (c :: rest)).step >>= reading :=
  reading_step (inEmphasis_ready ..).grounded (List.cons_ne_nil _ _)

/-- The tags of emphasis are open, and no others. -/
theorem isActive_emphasis (openedEq : s.opened = opened.map fun e => ⟨e.tag, none⟩) :
    s.isActive emphasis.tag = true ↔ emphasis ∈ opened := by
  rw [isActive_iff, openedEq]
  constructor
  · rintro ⟨o, member, same⟩
    obtain ⟨other, isOpened, rfl⟩ := List.mem_map.mp member
    exact Emphasis.tag_injective same ▸ isOpened
  · exact fun member => ⟨_, List.mem_map_of_mem member, rfl⟩

theorem bare_of_emphasis (openedEq : s.opened = opened.map fun e => ⟨e.tag, none⟩) :
    ∀ o ∈ s.opened, o.tag.IsBare := by
  rw [openedEq]
  intro o member
  obtain ⟨emphasis, -, rfl⟩ := List.mem_map.mp member
  exact emphasis.bare

/-! ### One token -/

theorem reading_plainToken {c : Char} (plain : c ∉ Text.marks) (tokens : List InlineToken)
    (next : rest = tokens.flatMap InlineToken.source) :
    ∃ written', (inEmphasis begun opened html written (c :: rest)).reading
      = (inEmphasis true opened (html ++ escapeText [c]) written' rest).reading := by
  have apart : ∀ {tag : Tag} {opener : Text}, tag.traits.opener = some opener → '[' ∈ opener →
      ¬ opener <+: c :: rest := by
    intro tag opener found bracket
    have all : ∀ t ∈ Tag.all, ∀ o ∈ t.traits.opener, '\\' ∉ o := by decide
    have whole : c :: rest = (.plain c plain :: tokens).flatMap InlineToken.source :=
      congrArg (c :: ·) next
    rw [whole]
    exact InlineToken.bracket_apart _ bracket (all tag tag.mem_all opener found)
  obtain ⟨s', reads, typed, next'⟩ := reading_inert_step (inEmphasis_ready ..) rfl
    (inert_plain (bare_of_emphasis rfl) rfl plain apart fun _ => rfl)
  obtain ⟨written', rfl⟩ := typed.eq next'
  refine ⟨written', reads.trans ?_⟩
  simp only [inEmphasis, ← Region.extend_extend]
  rfl

/-- Behind a backslash any character stands for itself. -/
theorem reading_escapedToken (c : Char) :
    (inEmphasis begun opened html written ('\\' :: c :: rest)).reading
      = (inEmphasis true opened (html ++ escapeText [c]) (escapeText [c] :: written)
          rest).reading := by
  let s : Scan := { inEmphasis begun opened html written (c :: rest) with
    lineBlank := false, escaped := true }
  have escapes : (inEmphasis begun opened html written ('\\' :: c :: rest)).step = .ok s := by
    cases begun <;> rfl
  have writes : s.step
      = .ok (inEmphasis true opened (html ++ escapeText [c]) (escapeText [c] :: written)
          rest) := by
    simp only [inEmphasis, ← Region.extend_extend]
    rfl
  have grounded : s.Grounded :=
    (inEmphasis_ready begun opened html written (c :: rest)).grounded.of_labels rfl rfl
  rw [reading_inEmphasis, escapes]
  refine (reading_step grounded (List.cons_ne_nil _ _)).trans ?_
  rw [writes]
  rfl

/-- A sign is a delimiter, also at the beginning of a line. -/
theorem step_sign :
    (inEmphasis begun opened html written (emphasis.sign :: rest)).step
      = (inEmphasis begun opened html written
          (emphasis.sign :: rest)).entered.delimiterOrLiteral (!begun) emphasis.sign := by
  have visible : emphasis.sign ≠ '\n' ∧ emphasis.sign ≠ '\\'
      ∧ Text.isGap emphasis.sign = false := by
    cases emphasis <;> decide
  have noRule : isRuleLine (emphasis.sign :: rest) = false := by cases emphasis <;> rfl
  exact step_solid (inEmphasis_ready ..) rfl
    ⟨visible, fun _ => ⟨rfl, noRule⟩, captionBracket_bare (bare_of_emphasis rfl) _⟩

/-- A sign whose emphasis is not open begins it. -/
theorem reading_opening (closed : emphasis ∉ opened) :
    (inEmphasis begun opened html written (emphasis.sign :: rest)).reading
      = (inEmphasis true (emphasis :: opened) (html ++ emphasis.opening)
          (emphasis.opening :: written) rest).reading := by
  let s : Scan := (inEmphasis begun opened html written (emphasis.sign :: rest)).entered
  have inactive : s.isActive emphasis.tag = false :=
    Bool.eq_false_iff.mpr fun active => closed ((isActive_emphasis rfl).mp active)
  have opens : s.opensHere (!begun) emphasis.tag = true := by
    rw [opensHere, inactive]
    cases emphasis <;> rfl
  have opening : s.nextOpening (!begun) = some emphasis.tag := by
    cases next : s.nextOpening (!begun) with
    | none =>
        have silent : Tag.all.find? (s.opensHere (!begun)) = none := next
        exact absurd opens (List.find?_eq_none.mp silent _ emphasis.tag.mem_all)
    | some tag =>
        obtain ⟨-, opener, found, here⟩ := opener_of_nextOpening next
        rw [emphasis.tag_of_opener found (head?_of_begins (Tag.opener_inLine found).2 here)]
  have begins : (s.advance 1).openTag emphasis.tag = .ok (inEmphasis true (emphasis :: opened)
      (html ++ emphasis.opening) (emphasis.opening :: written) rest) := by
    simp only [s, inEmphasis, ← Region.extend_extend]
    cases emphasis <;> rfl
  have one : (emphasis.tag.traits.opener.getD []).length = 1 := by cases emphasis <;> rfl
  rw [reading_inEmphasis, step_sign]
  change s.delimiterOrLiteral (!begun) emphasis.sign >>= reading = _
  rw [delimiterOrLiteral, opening]
  change openTag emphasis.tag (s.advance (emphasis.tag.traits.opener.getD []).length) >>= _ = _
  rw [one, begins]
  rfl

/-- An emphasis that is open ends. -/
theorem closeTag_emphasis (opened : List Emphasis) :
    (inEmphasis true opened html written rest).closeTag emphasis.tag
      = .ok (inEmphasis true (opened.filter (· ≠ emphasis)) (html ++ emphasis.closing)
          (emphasis.closing :: written) rest) := by
  have others : (opened.map fun e => (⟨e.tag, none⟩ : OpenTag)).filter
        (fun o => o.tag ≠ emphasis.tag)
      = (opened.filter (· ≠ emphasis)).map fun e => ⟨e.tag, none⟩ := by
    rw [List.filter_map]
    congr 2
    funext e
    simp [Emphasis.tag_injective.eq_iff]
  have forgets : (inEmphasis true opened html written rest).forget emphasis.tag
      = inEmphasis true (opened.filter (· ≠ emphasis)) html written rest := by
    simp only [forget, inEmphasis, others]
    cases emphasis <;> rfl
  have inline : emphasis.tag.traits.isRegion = false := by cases emphasis <;> rfl
  have half : emphasis.tag.closeHalf = emphasis.closing := by cases emphasis <;> decide
  rw [closeTag, closeTagWith, if_neg (by simp [inline]), forgets, half]
  simp only [inEmphasis, ← Region.extend_extend]
  rfl

/-- A sign whose emphasis is open ends it. -/
theorem reading_closing (isOpened : emphasis ∈ opened) :
    (inEmphasis true opened html written (emphasis.sign :: rest)).reading
      = (inEmphasis true (opened.filter (· ≠ emphasis)) (html ++ emphasis.closing)
          (emphasis.closing :: written) rest).reading := by
  let s : Scan := (inEmphasis true opened html written (emphasis.sign :: rest)).entered
  have active : s.isActive emphasis.tag = true := (isActive_emphasis rfl).mpr isOpened
  have opening : s.nextOpening false = none := by
    rw [Option.eq_none_iff_forall_ne_some]
    intro tag next
    obtain ⟨closed, opener, found, here⟩ := opener_of_nextOpening next
    rw [emphasis.tag_of_opener found (head?_of_begins (Tag.opener_inLine found).2 here),
      active] at closed
    cases closed
  have closes : s.closesHere emphasis.tag = true := by cases emphasis <;> rfl
  have among : emphasis.tag ∈ s.opened.map OpenTag.tag := by
    obtain ⟨o, member, same⟩ := isActive_iff.mp active
    exact same ▸ List.mem_map_of_mem member
  have closing : s.nextClosing = some emphasis.tag := by
    cases next : s.nextClosing with
    | none =>
        have silent : (s.opened.map OpenTag.tag).find? s.closesHere = none := next
        exact absurd closes (List.find?_eq_none.mp silent _ among)
    | some tag =>
        obtain ⟨-, closer, found, here⟩ := closer_of_nextClosing next
        rw [emphasis.tag_of_closer found (head?_of_begins (Tag.closer_inLine found).2 here)]
  have one : (emphasis.tag.traits.closer.getD []).length = 1 := by cases emphasis <;> rfl
  rw [reading_inEmphasis, step_sign]
  change s.delimiterOrLiteral false emphasis.sign >>= reading = _
  rw [delimiterOrLiteral, opening, closing]
  change closeTag emphasis.tag (s.advance (emphasis.tag.traits.closer.getD []).length) >>= _ = _
  rw [one]
  change (inEmphasis true opened html written rest).closeTag emphasis.tag >>= _ = _
  rw [closeTag_emphasis]
  rfl

/-- A token adds its output, whatever is open before it. -/
theorem reading_token (begun : Bool) (html : Text) (written : List Text) (token : InlineToken)
    (tokens : List InlineToken) (first : begun = false → opened = []) :
    ∃ written', (inEmphasis begun opened html written
        ((token :: tokens).flatMap InlineToken.source)).reading
      = (inEmphasis true (token.opens opened) (html ++ token.html opened) written'
          (tokens.flatMap InlineToken.source)).reading := by
  cases token with
  | plain c plain => exact reading_plainToken plain tokens rfl
  | escaped c noReturn => exact ⟨_, reading_escapedToken c⟩
  | toggle emphasis =>
      by_cases isOpened : emphasis ∈ opened
      · cases begun with
        | false =>
            rw [first rfl] at isOpened
            cases isOpened
        | true =>
            rw [InlineToken.opens, InlineToken.html, if_pos isOpened, if_pos isOpened]
            exact ⟨_, reading_closing isOpened⟩
      · rw [InlineToken.opens, InlineToken.html, if_neg isOpened, if_neg isOpened]
        exact ⟨_, reading_opening isOpened⟩

/-! ### The end of the source -/

/-- What is open at the end of a source ends, the one opened last first. -/
theorem closeAll_emphasis (once : opened.Nodup) (html : Text) (written : List Text) :
    ∃ written', closeAll (opened.map Emphasis.tag) (inEmphasis true opened html written [])
      = .ok (inEmphasis true [] (html ++ opened.flatMap Emphasis.closing) written' []) := by
  induction opened generalizing html written with
  | nil =>
      rw [List.flatMap_nil, List.append_nil]
      exact ⟨written, rfl⟩
  | cons emphasis opened ih =>
      obtain ⟨notAgain, once'⟩ := List.nodup_cons.mp once
      have others : (emphasis :: opened).filter (· ≠ emphasis) = opened := by
        rw [List.filter_cons_of_neg (by simp), List.filter_eq_self]
        intro other member
        rw [decide_eq_true_eq]
        rintro rfl
        exact notAgain member
      have active : (inEmphasis true (emphasis :: opened) html written []).isActive emphasis.tag
          = true :=
        (isActive_emphasis rfl).mpr List.mem_cons_self
      obtain ⟨written', closes⟩ := ih once' (html ++ emphasis.closing)
        (emphasis.closing :: written)
      refine ⟨written', ?_⟩
      rw [List.map_cons, closeAll, if_pos active, closeTag_emphasis, others, List.flatMap_cons,
        ← List.append_assoc]
      exact closes

end Scan

end MarkPress
