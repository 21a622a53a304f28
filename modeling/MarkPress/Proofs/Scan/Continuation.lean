/-
Module: MarkPress.Proofs.Scan.Continuation
Purpose: What a source adds to the output behind other regions.
  At the beginning of a paragraph, where nothing is open, a scan goes on as if it began there. So
  the output of a source behind regions that end between blocks is the output of those regions and
  what the source adds, which depends on the source and on the names that are taken, and not on how
  many blank lines come before it.
Main exports:
  Scan.complete, Scan.output, Scan.continuation, complete_inside, Follows.output,
  openParagraph_eq_inside, Scan.startAt, output_startAt, render_eq_continuation,
  output_atParagraph
-/
import MarkPress.Proofs.Scan.FrameRun
import MarkPress.Proofs.Scan.FlatRun

namespace MarkPress.Scan

open Html

variable {frame : Frame} {s s' : Scan} {post : Scan → Prop} {naming : Prop}

/-! ### The rest of a scan -/

/-- The rest of a scan: the source is read and everything ends. -/
def complete (s : Scan) : Outcome := s.reading >>= finish

/-- The output of an outcome, given the elements that are open before its regions. -/
def output (opened : List Element) : Outcome → Except RegionError Text
  | .ok s => .ok (Export.htmlIn opened s.regions)
  | .error halt => .error halt.error

theorem closeLists_follows (grounded : s.Grounded) :
    Follows frame (Steady naming s) s.closeLists (s.inside frame).closeLists :=
  setListLevel_follows grounded 0

theorem finish_follows (grounded : s.Grounded) :
    Follows frame (Steady naming s) s.finish (s.inside frame).finish := by
  rw [finish, finish, tags_inside]
  apply (closeAll_follows _ grounded).step
  intro s₁ grounded₁
  apply (closeLists_follows grounded₁).step
  intro s₂ grounded₂
  refine .ok ?_ ((Steady.refl grounded₂).endParagraph.push .sectionEnd)
  rw [endParagraph_inside, push_inside]

/-- The rest of a scan inside of a frame without a text behind. -/
theorem complete_inside (grounded : s.Grounded) (firm : frame.Firm) (last : frame.behind = []) :
    Follows frame Grounded s.complete (s.inside frame).complete := by
  have breaks : frame.Breaks := by simp [Frame.Breaks, last]
  obtain ⟨middle, follows, goesOn⟩ := reading_inside grounded breaks (grounded.inside firm)
  rw [complete, complete, goesOn, bind_assoc]
  apply follows.bind
  intro s₁ all
  have read : (s₁.inside frame).rest = [] := by simp [inside, all.rest, last]
  have finishes : Follows frame (Steady False s₁) s₁.finish (s₁.inside frame).finish :=
    finish_follows all.grounded
  rw [reading_nil read]
  exact finishes.mono fun _ steady => steady.grounded

theorem regions_inside (frame : Frame) (s : Scan) :
    (s.inside frame).regions = (frame.older.map Entry.region).reverse ++ s.regions := by
  simp only [regions, inside, Frame.around, Arena.renumber, List.map_append, List.map_map,
    List.reverse_append]
  rfl

/-- Behind regions that end between blocks, the output goes on as it would alone. -/
theorem Follows.output {outcome framed : Outcome} (follows : Follows frame post outcome framed)
    {zone : Zone} (laid : zone.Lays (frame.older.map Entry.region).reverse .blocks) :
    Scan.output zone.opened framed
      = (Scan.output [.sect] outcome).map
          (Export.htmlIn zone.opened (frame.older.map Entry.region).reverse ++ ·) := by
  cases outcome with
  | ok s =>
      cases framed with
      | ok t =>
          obtain ⟨rfl, -⟩ := follows
          rw [Scan.output, regions_inside, laid.html_append (by decide)]
          rfl
      | error halt => exact follows.elim
  | error halt =>
      cases framed with
      | ok t => exact follows.elim
      | error other => exact congrArg Except.error follows

/-! ### The beginning of a paragraph -/

/-- A scan at the beginning of a paragraph, with some blank lines before it. -/
def atParagraph (issued : List Text) (blankRun indent : Nat) (pendingSpace : Bool) (source : Text) :
    Scan :=
  { openParagraph { rest := source, anchorIds := issued } with
    blankRun := blankRun, indent := indent, pendingSpace := pendingSpace }

/-- What a source adds to the output of a section, given the names that are taken. -/
def continuation (issued : List Text) (source : Text) : Except RegionError Text :=
  output [.sect] (atParagraph issued 0 0 false source).complete

@[simp] theorem atParagraph_rest (issued : List Text) (blankRun indent : Nat) (pendingSpace : Bool)
    (source : Text) : (atParagraph issued blankRun indent pendingSpace source).rest = source := rfl

@[simp] theorem atParagraph_escaped (issued : List Text) (blankRun indent : Nat)
    (pendingSpace : Bool) (source : Text) :
    (atParagraph issued blankRun indent pendingSpace source).escaped = false := rfl

theorem atParagraph_arena (issued : List Text) (blankRun indent : Nat) (pendingSpace : Bool)
    (source : Text) : (atParagraph issued blankRun indent pendingSpace source).arena
      = ⟨1, .ofTag .text⟩ :: [⟨0, .ofTag .paragraphBegin⟩] := rfl

theorem atParagraph_grounded (issued : List Text) (blankRun indent : Nat) (pendingSpace : Bool)
    (source : Text) : (atParagraph issued blankRun indent pendingSpace source).Grounded where
  distinct := by
    have serials : (atParagraph issued blankRun indent pendingSpace source).arena.map Entry.serial
        = [1, 0] := rfl
    rw [serials]
    decide
  fresh := by
    intro entry member
    have among : entry ∈ ([⟨1, .ofTag .text⟩, ⟨0, .ofTag .paragraphBegin⟩] : Arena) := member
    have next : (atParagraph issued blankRun indent pendingSpace source).nextSerial = 2 := rfl
    rw [next]
    simp only [List.mem_cons, List.not_mem_nil, or_false] at among
    rcases among with rfl | rfl <;> decide
  root := ⟨(0, .paragraphBegin), rfl, fun _ => rfl⟩

/-- The frame of the regions that a scan has made. -/
def Grounded.base (grounded : s.Grounded) : Frame where
  older := s.arena
  shift := s.nextSerial
  written := s.written
  lost := s.lost
  surplusEnds := s.surplusEnds
  below := grounded.fresh

theorem Grounded.firm (grounded : s.Grounded) : grounded.base.Firm where
  distinct := grounded.distinct
  root := by
    obtain ⟨label, last, shown⟩ := grounded.root
    intro other isLast
    cases Option.mem_unique last isLast
    exact shown

/-- Nothing is open, and a new line has begun. -/
structure Still (s : Scan) : Prop extends Closed s where
  detached : s.detached = []
  escaped : s.escaped = false
  lineBlank : s.lineBlank = true
  skipWhitespace : s.skipWhitespace = false
  finished : s.finished = false

/-- Where nothing is open, a paragraph begins as it would alone. -/
theorem openParagraph_eq_inside (grounded : s.Grounded) (still : s.Still) :
    s.openParagraph
      = (atParagraph s.anchorIds s.blankRun s.indent false s.rest).inside grounded.base := by
  obtain ⟨closed, detached, escaped, lineBlank, skipWhitespace, finished⟩ := still
  obtain ⟨opened, exclusive, listLevel, bracketDepth, afterFence, anchor, paragraphOpen⟩ := closed
  cases s
  simp_all [atParagraph, openParagraph, inside, Grounded.base, Frame.around, push, pushRegion,
    Arena.renumber, Entry.renumber]

theorem Sound.grounded (sound : s.Sound) : s.Grounded where
  distinct := sound.arena_distinct
  fresh := fun entry member => sound.fresh entry.serial
    (List.mem_map_of_mem (List.mem_append_left _ member))
  root := by
    have rooted := sound.rooted
    have tags : s.arena.map Entry.tag = (s.arena.map Entry.label).map Prod.snd := by
      rw [List.map_map]
      rfl
    rw [tags, List.getLast?_map, Option.map_eq_some_iff] at rooted
    obtain ⟨label, last, tag⟩ := rooted
    exact ⟨label, last, fun empty => by rw [tag]; rfl⟩

/-! ### The output of a source -/

/-- A section that has begun, given the names that are taken. -/
def sectionAt (issued : List Text) (source : Text) : Scan :=
  push .sectionBegin { rest := source, anchorIds := issued }

/-- The state before the first character of a source, given the names that are taken. -/
def startAt (issued : List Text) (source : Text) : Scan := (sectionAt issued source).openParagraph

@[simp] theorem startAt_rest (issued : List Text) (source : Text) :
    (startAt issued source).rest = source := rfl

theorem sectionAt_grounded (issued : List Text) (source : Text) :
    (sectionAt issued source).Grounded where
  distinct := List.nodup_singleton 0
  fresh := by
    intro entry member
    rcases List.mem_singleton.mp member with rfl
    exact Nat.zero_lt_one
  root := ⟨(0, .sectionBegin), rfl, fun _ => rfl⟩

theorem sectionAt_still (issued : List Text) (source : Text) : (sectionAt issued source).Still := by
  constructor <;> first | rfl | (constructor <;> rfl)

theorem startAt_grounded (issued : List Text) (source : Text) :
    (startAt issued source).Grounded :=
  have opened : Steady False (sectionAt issued source) (startAt issued source) :=
    (Steady.refl (sectionAt_grounded issued source)).openParagraph
  opened.grounded

/-- The output of a source is the beginning of a section and what the source adds to it. -/
theorem output_startAt (issued : List Text) (source : Text) :
    output [] (startAt issued source).complete
      = (continuation issued source).map ("<section>".toList ++ ·) := by
  have grounded := sectionAt_grounded issued source
  have opens : startAt issued source = _ :=
    openParagraph_eq_inside grounded (sectionAt_still issued source)
  have follows := complete_inside (atParagraph_grounded issued 0 0 false source) grounded.firm rfl
  have laid : Zone.margin.Lays (grounded.base.older.map Entry.region).reverse .blocks :=
    .single (Region.fits_ofTag (by decide))
  rw [opens]
  exact follows.output laid

theorem render_eq_output (source : Text) :
    render source = output [] (startAt [] source.normalizeBreaks).complete := by
  change render source = output [] (start source).complete
  have runEq : (start source).run
      = (start source).complete >>= fun s => pure { s with finished := true } := by
    rw [run, if_neg (by simp [start_unfinished]), complete, bind_assoc]
    rfl
  rw [render, scan, runEq]
  cases (start source).complete with
  | error halt => rfl
  | ok s => rfl

theorem render_eq_continuation (source : Text) :
    render source = (continuation [] source.normalizeBreaks).map ("<section>".toList ++ ·) := by
  rw [render_eq_output, output_startAt]

/-! ### Blank lines before a paragraph -/

theorem complete_step (grounded : s.Grounded) (some : s.rest ≠ []) :
    s.complete = s.step >>= complete := by
  rw [complete, reading_step grounded some, bind_assoc]
  rfl

/-- At the beginning of a block the space before it is dropped. -/
theorem flushSpace_atBlockStart (atStart : s.atBlockStart = true) :
    s.flushSpace = .ok { s with pendingSpace := false } := by
  rw [flushSpace]
  split
  · simp only [atStart, if_true]
  · rename_i none
    have same : s.pendingSpace = false := by simpa using none
    rw [← same]

variable {issued : List Text} {blankRun indent : Nat} {pendingSpace : Bool} {rest : Text} {c : Char}

theorem atParagraph_newline_zero :
    (atParagraph issued 0 indent pendingSpace ('\n' :: rest)).step
      = .ok (atParagraph issued 1 0 true rest) := rfl

theorem atParagraph_newline_more :
    (atParagraph issued (blankRun + 2) indent pendingSpace ('\n' :: rest)).step
      = .ok (atParagraph issued (blankRun + 3) 0 pendingSpace rest) := rfl

/-- The regions of an empty paragraph. -/
def emptyParagraphFrame : Frame where
  older := [⟨2, .ofTag .paragraphEnd⟩, ⟨1, .ofTag .text⟩, ⟨0, .ofTag .paragraphBegin⟩]
  shift := 3
  below := by decide

theorem atParagraph_newline_one :
    (atParagraph issued 1 indent pendingSpace ('\n' :: rest)).step
      = .ok ((atParagraph issued 2 0 false rest).inside emptyParagraphFrame) := by
  simp only [inside, emptyParagraphFrame, List.append_nil]
  rfl

theorem emptyParagraphFrame_firm : emptyParagraphFrame.Firm where
  distinct := by decide
  root := by
    intro label last
    cases last
    exact fun _ => rfl

/-- An empty paragraph before a paragraph adds nothing. -/
theorem output_emptyParagraph (s : Scan) (grounded : s.Grounded) :
    output [.sect] (s.inside emptyParagraphFrame).complete = output [.sect] s.complete := by
  have follows := complete_inside grounded emptyParagraphFrame_firm rfl
  have laid : Zone.blocks.Lays (emptyParagraphFrame.older.map Entry.region).reverse .blocks :=
    .cons (Region.fits_ofTag (by decide)) (.cons (Region.fits_ofTag (by decide))
      (.single (Region.fits_ofTag (by decide))))
  have empty : Export.htmlIn Zone.blocks.opened
      (emptyParagraphFrame.older.map Entry.region).reverse = [] := by decide
  have whole := follows.output laid
  rw [empty] at whole
  refine whole.trans ?_
  cases output [Element.sect] s.complete <;> rfl

theorem atParagraph_gap (gap : Text.isGap c = true) :
    (atParagraph issued blankRun indent pendingSpace (c :: rest)).step
      = .ok (atParagraph issued blankRun (indent + if c = '\t' then 2 else 1) pendingSpace
          rest) := by
  have visible : c ≠ '\n' := by
    rintro rfl
    cases gap
  rw [step_eq (atParagraph_arena ..) (atParagraph_rest ..), if_neg (by decide), if_neg (by simp),
    if_neg visible, if_pos gap]
  rfl

/-- A scan at the first visible character of a paragraph. -/
def atVisible (issued : List Text) (indent : Nat) (pendingSpace : Bool) (source : Text) : Scan :=
  { atParagraph issued 0 indent pendingSpace source with lineBlank := false }

/-- At the beginning of a block a character that stands for itself is written without the space
before it. -/
theorem literal_congr {pending pending' : Scan} (atStart : pending.atBlockStart = true)
    (atStart' : pending'.atBlockStart = true)
    (same : { pending with pendingSpace := false } = { pending' with pendingSpace := false }) :
    pending.literal c = pending'.literal c := by
  rw [literal, literal, appendLiteral, appendLiteral, flushSpace_atBlockStart atStart,
    flushSpace_atBlockStart atStart', same]

theorem delimiterOrLiteral_visible :
    (atVisible issued indent pendingSpace (c :: rest)).delimiterOrLiteral true c
      = (atVisible issued indent false (c :: rest)).delimiterOrLiteral true c := by
  have opening : (atVisible issued indent pendingSpace (c :: rest)).nextOpening true
      = (atVisible issued indent false (c :: rest)).nextOpening true := rfl
  have closing : ∀ pending, (atVisible issued indent pending (c :: rest)).nextClosing = none :=
    fun _ => rfl
  rw [delimiterOrLiteral, delimiterOrLiteral, opening, closing, closing]
  cases (atVisible issued indent false (c :: rest)).nextOpening true with
  | none => exact literal_congr rfl rfl rfl
  | some tag =>
      have flushed : ∀ pending, openTag tag ((atVisible issued indent pending (c :: rest)).advance
          (tag.traits.opener.getD []).length) = _ := fun pending => by
        rw [openTag, flushSpace_atBlockStart rfl]
      simp only [flushed]
      rfl

theorem atParagraph_visible (visible : c ≠ '\n') (solid : Text.isGap c = false) :
    (atParagraph issued blankRun indent pendingSpace (c :: rest)).step
      = if isRuleLine (c :: rest) then (atParagraph issued 0 indent false (c :: rest)).rule
        else if c = '\\' then .ok { atVisible issued indent pendingSpace rest with escaped := true }
        else (atVisible issued indent false (c :: rest)).delimiterOrLiteral true c := by
  rw [step_eq (atParagraph_arena ..) (atParagraph_rest ..), if_neg (by decide),
    if_neg (by simp), if_neg visible, if_neg (by simp [solid])]
  change (if isRuleLine (c :: rest) = true then _ else _) = _
  refine if_congr Iff.rfl rfl ?_
  rw [solidStep]
  change (if c = '\\' then _ else _) = _
  refine if_congr Iff.rfl rfl ?_
  change delimiterOrLiteral true c (atVisible issued indent pendingSpace (c :: rest)) = _
  exact delimiterOrLiteral_visible

theorem output_escaped :
    output [.sect]
        (complete { atVisible issued indent pendingSpace rest with escaped := true })
      = output [.sect] (complete { atVisible issued indent false rest with escaped := true }) := by
  cases rest with
  | nil => rfl
  | cons d rest =>
      have steps : ∀ pending,
          complete { atVisible issued indent pending (d :: rest) with escaped := true }
            = (atVisible issued indent false (d :: rest)).literal d >>= complete := by
        intro pending
        have grounded : Grounded { atVisible issued indent pending (d :: rest) with
            escaped := true } :=
          (atParagraph_grounded issued 0 indent pending (d :: rest)).of_labels rfl rfl
        have split : ({ atVisible issued indent pending (d :: rest) with
            escaped := true } : Scan).arena = ⟨1, .ofTag .text⟩ :: [⟨0, .ofTag .paragraphBegin⟩] :=
          rfl
        rw [complete_step grounded (by simp [atVisible]), step_eq split rfl, if_neg (by decide),
          if_pos rfl]
        congr 1
        exact literal_congr rfl rfl rfl
      rw [steps, steps]

/-- How many lines and which space come before the first visible character does not matter. -/
theorem output_visible (visible : c ≠ '\n') (solid : Text.isGap c = false) :
    output [.sect] (atParagraph issued blankRun indent pendingSpace (c :: rest)).complete
      = output [.sect] (atParagraph issued 0 indent false (c :: rest)).complete := by
  rw [complete_step (atParagraph_grounded ..) (by simp),
    complete_step (atParagraph_grounded ..) (by simp), atParagraph_visible visible solid,
    atParagraph_visible visible solid]
  by_cases ruled : isRuleLine (c :: rest)
  · rw [if_pos ruled, if_pos ruled]
  · rw [if_neg ruled, if_neg ruled]
    by_cases escapes : c = '\\'
    · rw [if_pos escapes, if_pos escapes]
      exact output_escaped
    · rw [if_neg escapes, if_neg escapes]

/-- Blank lines before a paragraph do not matter. -/
theorem output_atParagraph :
    output [.sect] (atParagraph issued blankRun indent pendingSpace rest).complete
      = output [.sect] (atParagraph issued 0 indent false rest).complete := by
  induction rest generalizing blankRun indent pendingSpace with
  | nil => rfl
  | cons c rest ih =>
      by_cases break_ : c = '\n'
      · subst break_
        have reads : ∀ blankRun indent pendingSpace,
            output [.sect] (atParagraph issued blankRun indent pendingSpace ('\n' :: rest)).complete
              = output [.sect] (atParagraph issued 0 0 false rest).complete := by
          intro blankRun indent pendingSpace
          rw [complete_step (atParagraph_grounded ..) (by simp)]
          match blankRun with
          | 0 =>
              rw [atParagraph_newline_zero]
              exact ih
          | 1 =>
              rw [atParagraph_newline_one]
              exact (output_emptyParagraph _ (atParagraph_grounded ..)).trans ih
          | blankRun + 2 =>
              rw [atParagraph_newline_more]
              exact ih
        rw [reads, reads]
      · cases gap : Text.isGap c with
        | true =>
            rw [complete_step (atParagraph_grounded ..) (by simp),
              complete_step (atParagraph_grounded ..) (by simp), atParagraph_gap gap,
              atParagraph_gap gap]
            exact ih
        | false => exact output_visible break_ gap

end MarkPress.Scan
