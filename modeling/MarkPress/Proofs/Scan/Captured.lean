/-
Module: MarkPress.Proofs.Scan.Captured
Purpose: What an address captures.
  While an address is being read no delimiter counts but its own end, so text comes to it as single
  characters and as the spaces between them. A line break ends the item that it stands in, and a
  blank line all lists; their closing halves go to the address too, as long as it is the newest
  region. Nothing else does: a heading or a paragraph that ends puts other regions in front of it.
Main exports:
  Captured, Scan.ReadsAddress, Scan.captured, Scan.Accounts, address_captured
-/
import MarkPress.Proofs.Scan.Bearing
import MarkPress.Proofs.Scan.Levels
import MarkPress.Proofs.Scan.Opens

namespace MarkPress

open Html

/-- A piece of what an address captures. -/
inductive Captured where
  | character (c : Char)
  /-- The space that stands for white space between two characters. -/
  | gap
  | itemEnd
  | listEnd
deriving Repr, DecidableEq

namespace Captured

/-- A piece as it is written. -/
def text : Captured → Text
  | .character c => escapeText [c]
  | .gap => [' ']
  | .itemEnd => Tag.listItem.closeHalf
  | .listEnd => Tag.list.closeHalf

/-- The character of the source that a piece shows. -/
def char? : Captured → Option Char
  | .character c => some c
  | _ => none

/-- Whether a piece is written in the source. -/
def IsSource (piece : Captured) : Prop := piece ≠ .itemEnd ∧ piece ≠ .listEnd

end Captured

namespace Scan

variable {s s' begun : Scan} {calm : Prop} {tag : Tag} {source text : Text}
  {pieces : List Captured} {url : Nat}

/-- An address began with a step to one state, and has not ended in another. -/
inductive ReadsAddress (source : Text) (begun : Scan) : Scan → Prop where
  | begins {before : Scan} (reached : Reached source before) (closed : before.isActive .url = false)
      (stepped : before.step = .ok begun) (active : begun.isActive .url = true) :
      ReadsAddress source begun begun
  | reads {s s' : Scan} (before : ReadsAddress source begun s) (stepped : s.step = .ok s')
      (active : s'.isActive .url = true) : ReadsAddress source begun s'

/-- The text that the open address has captured: what its end will take, trimmed. -/
def captured (s : Scan) : Text :=
  ((s.serialOf .url).bind fun serial => (s.regionOf serial).map Region.inner).getD []

/-- Where the pieces of an address come from, between the state in which it began and another
one. -/
structure Accounts (begun s : Scan) (pieces : List Captured) : Prop where
  /-- The characters stand in the source that has been read, in this order. -/
  read : ∃ read, begun.rest = read ++ s.rest ∧ (pieces.filterMap Captured.char?).Sublist read
  /-- The item around the address has ended, or not. -/
  items : pieces.count .itemEnd + (s.isActive .listItem).toNat
    = (begun.isActive .listItem).toNat
  /-- Each list that has ended wrote its closing half. -/
  lists : pieces.count .listEnd + s.listLevel = begun.listLevel

theorem Accounts.begins (begun : Scan) : Accounts begun begun [] where
  read := ⟨[], rfl, .refl _⟩
  items := Nat.zero_add _
  lists := Nat.zero_add _

/-- More pieces are captured while more of the source is read. -/
theorem Accounts.next (accounts : Accounts begun s pieces) {more : List Captured} (read : Text)
    (rest : s.rest = read ++ s'.rest) (chars : (more.filterMap Captured.char?).Sublist read)
    (items : more.count .itemEnd + (s'.isActive .listItem).toNat = (s.isActive .listItem).toNat)
    (lists : more.count .listEnd + s'.listLevel = s.listLevel) :
    Accounts begun s' (pieces ++ more) where
  read := by
    obtain ⟨before, restEq, among⟩ := accounts.read
    refine ⟨before ++ read, by rw [restEq, rest, List.append_assoc], ?_⟩
    rw [List.filterMap_append]
    exact among.append chars
  items := by
    rw [List.count_append, Nat.add_assoc, items]
    exact accounts.items
  lists := by
    rw [List.count_append, Nat.add_assoc, lists]
    exact accounts.lists

/-- The pieces are source text as long as neither the item nor a list around the address has
ended. -/
theorem Accounts.isSource_iff (accounts : Accounts begun s pieces) :
    (∀ piece ∈ pieces, piece.IsSource) ↔ s.isActive .listItem = begun.isActive .listItem
      ∧ s.listLevel = begun.listLevel := by
  have items := accounts.items
  have lists := accounts.lists
  have none : (∀ piece ∈ pieces, piece.IsSource)
      ↔ pieces.count .itemEnd = 0 ∧ pieces.count .listEnd = 0 := by
    rw [List.count_eq_zero, List.count_eq_zero]
    constructor
    · intro all
      exact ⟨fun member => (all _ member).1 rfl, fun member => (all _ member).2 rfl⟩
    · rintro ⟨noItem, noList⟩ piece member
      exact ⟨fun same => noItem (same ▸ member), fun same => noList (same ▸ member)⟩
  have same : s.isActive .listItem = begun.isActive .listItem
      ↔ (s.isActive .listItem).toNat = (begun.isActive .listItem).toNat := by
    cases s.isActive .listItem <;> cases begun.isActive .listItem <;> decide
  rw [none, same]
  omega

/-! ### What a step adds to an address -/

/-- An address is open in a region that takes the text, or behind which other regions stand. Then
neither an item nor a list can end any more. -/
inductive Capturing (url : Nat) (text : Text) (s : Scan) : Prop where
  | fills (fills : s.Fills url text)
  | passed (bears : s.Bears url text) (elsewhere : s.Elsewhere url)
      (noLine : ∀ o ∈ s.opened, o.tag.isSingleLine = false) (outside : s.listLevel = 0)

theorem Capturing.bears (capturing : s.Capturing url text) : s.Bears url text := by
  cases capturing with
  | fills fills => exact fills.bears
  | passed bears => exact bears

theorem Capturing.congr (capturing : s.Capturing url text) (arena : s'.arena = s.arena)
    (detached : s'.detached = s.detached) (opened : s'.opened = s.opened)
    (listLevel : s'.listLevel = s.listLevel) : s'.Capturing url text := by
  cases capturing with
  | fills fills =>
      obtain ⟨e, older, split, found⟩ := fills
      exact .fills ⟨e, older, arena.trans split, found⟩
  | passed bears elsewhere noLine outside =>
      refine .passed (bears.suffix (arena ▸ List.suffix_refl _) detached) ?_ ?_
        (listLevel.trans outside)
      · rw [Elsewhere, arena]
        exact elsewhere
      · rw [opened]
        exact noLine

/-- The space before a character goes to the address, or to the region that stands behind it. -/
theorem Capturing.spaced (capturing : s.Capturing url text) :
    ∃ more, (more = [] ∨ more = [.gap])
      ∧ s.spaced.Capturing url (text ++ more.flatMap Captured.text)
      ∧ s.spaced.opened = s.opened := by
  rw [Scan.spaced]
  split
  · split
    · refine ⟨[], .inl rfl, ?_, rfl⟩
      rw [List.flatMap_nil, List.append_nil]
      exact capturing.congr rfl rfl rfl rfl
    · cases capturing with
      | fills fills =>
          have cleared : Fills url text { s with pendingSpace := false } := fills
          exact ⟨[.gap], .inr rfl, .fills (cleared.put [' ']), rfl⟩
      | passed bears elsewhere noLine outside =>
          have cleared : Bears url text { s with pendingSpace := false } := bears
          obtain ⟨bears', elsewhere'⟩ := cleared.put elsewhere [' ']
          refine ⟨[], .inl rfl, ?_, rfl⟩
          rw [List.flatMap_nil, List.append_nil]
          exact .passed bears' elsewhere' noLine outside
  · refine ⟨[], .inl rfl, ?_, rfl⟩
    rw [List.flatMap_nil, List.append_nil]
    exact capturing

/-- A character that stands for itself goes the same way. -/
theorem Capturing.putLiteral (capturing : s.Capturing url text) (c : Char) :
    ∃ more : List Captured,
      (more.filterMap Captured.char?).Sublist [c] ∧ (∀ piece ∈ more, piece.IsSource)
      ∧ (s.putLiteral c).Capturing url (text ++ more.flatMap Captured.text)
      ∧ (s.putLiteral c).opened = s.opened := by
  obtain ⟨before, gaps, spaced, opened⟩ := capturing.spaced
  have gap : ∀ piece ∈ before, piece = .gap := by
    rcases gaps with rfl | rfl <;> simp
  have shown : before.filterMap Captured.char? = [] := by
    rcases gaps with rfl | rfl <;> rfl
  cases spaced with
  | fills fills =>
      refine ⟨before ++ [.character c], ?_, ?_, ?_, opened⟩
      · rw [List.filterMap_append, shown]
        exact .refl _
      · intro piece member
        rcases List.mem_append.mp member with inGap | here
        · rw [gap piece inGap]
          exact ⟨by decide, by decide⟩
        · rw [List.mem_singleton.mp here]
          exact ⟨nofun, nofun⟩
      · have filled := fills.put (escapeText [c])
        rw [List.append_assoc] at filled
        rw [List.flatMap_append, List.flatMap_singleton]
        exact .fills filled
  | passed bears elsewhere noLine outside =>
      obtain ⟨bears', elsewhere'⟩ := bears.put elsewhere (escapeText [c])
      refine ⟨before, ?_, ?_, .passed bears' elsewhere' noLine outside, opened⟩
      · rw [shown]
        exact List.nil_sublist _
      · intro piece member
        rw [gap piece member]
        exact ⟨by decide, by decide⟩

/-- What the end of a line adds to an address: halves of items and lists that end there. -/
structure Breaks (url : Nat) (text : Text) (s s' : Scan) (more : List Captured) : Prop where
  capturing : s'.Capturing url (text ++ more.flatMap Captured.text)
  silent : more.filterMap Captured.char? = []
  items : more.count .itemEnd + (s'.isActive .listItem).toNat = (s.isActive .listItem).toNat
  lists : more.count .listEnd + s'.listLevel = s.listLevel
  fewer : s'.opened ⊆ s.opened

theorem Capturing.breaks (capturing : s.Capturing url text) : s.Breaks url text s [] where
  capturing := by
    rw [List.flatMap_nil, List.append_nil]
    exact capturing
  silent := rfl
  items := Nat.zero_add _
  lists := Nat.zero_add _
  fewer := List.Subset.refl _

/-- The item that ends around an address writes its closing half to it. -/
theorem closeItem_captures (coherent : s.Coherent calm) (active : s.isActive .listItem = true)
    (fills : s.Fills url text) :
    Meets (fun _ => True) (fun s' => ∃ more, s.Breaks url text s' more) (s.closeTag .listItem) := by
  have takes : (s.forget .listItem).TakesText := coherent.sound.takesText coherent.writable
  have ends : s.closeTag .listItem
      = .ok ((s.forget .listItem).put Tag.listItem.closeHalf) := write_eq takes _
  have filled : (s.forget .listItem).Fills url text := fills
  have closed : ((s.forget .listItem).put Tag.listItem.closeHalf).isActive .listItem = false := by
    apply Bool.eq_false_iff.mpr
    intro still
    obtain ⟨o, member, same⟩ := isActive_iff.mp still
    exact (mem_forget.mp member).2 same
  rw [ends]
  refine ⟨[.itemEnd], .fills (filled.put _), rfl, ?_, Nat.zero_add _,
    (s.forget_opened_sublist .listItem).subset⟩
  rw [closed, active]
  rfl

/-- A heading that ends around an address leaves it behind itself. -/
theorem closeHeading_captures (coherent : s.Coherent calm) (own : s.exclusive = some .url)
    (isOpened : ⟨.url, some url⟩ ∈ s.opened) (outside : s.listLevel = 0)
    (noItem : s.isActive .listItem = false) (active : s.isActive tag = true)
    (heading : tag.isHeading = true) (fills : s.Fills url text) :
    Meets (fun _ => True) (fun s' => (∀ o ∈ s'.opened, o.tag.isSingleLine = false) →
      ∃ more, s.Breaks url text s' more) (s.closeTag tag) := by
  have single := Tag.isSingleLine_of_isHeading heading
  have mayEnd : s.MayEnd calm tag :=
    ⟨isActive_iff.mp active, .inr (.inr single), fun _ => .inl single⟩
  have closed := (closeTag_meets coherent mayEnd).if_ok
  refine Meets.mono ((closed.and (closeTag_levels tag s)).and
    (closeHeading_bears coherent own heading active isOpened fills.bears)) ?_
  rintro s₁ ⟨⟨⟨-, closes, -⟩, same⟩, bears, elsewhere⟩ noLine
  have noItem₁ : s₁.isActive .listItem = false := by
    apply Bool.eq_false_iff.mpr
    intro item
    obtain ⟨x, xMember, xTag⟩ := isActive_iff.mp item
    rw [isActive_iff.mpr ⟨x, closes.opened.subset xMember, xTag⟩] at noItem
    cases noItem
  refine ⟨[], ?_, rfl, ?_, (Nat.zero_add _).trans same, closes.opened.subset⟩
  · rw [List.flatMap_nil, List.append_nil]
    exact .passed bears elsewhere noLine (Eq.trans same outside)
  · rw [noItem, noItem₁]
    rfl

theorem closeLines_captures (coherent : s.Coherent calm) (own : s.exclusive = some .url)
    (isOpened : ⟨.url, some url⟩ ∈ s.opened) (outside : s.Outside)
    (capturing : s.Capturing url text) :
    Meets (fun _ => True) (fun s' => (∀ o ∈ s'.opened, o.tag.isSingleLine = false) →
      ∃ more, s.Breaks url text s' more)
      (closeAll ((s.opened.map OpenTag.tag).filter Tag.isSingleLine) s) := by
  have atMostOne := coherent.control.single
  have among : ∀ tag, tag ∈ (s.opened.map OpenTag.tag).filter Tag.isSingleLine
      ↔ s.isActive tag = true ∧ tag.isSingleLine = true := by
    intro tag
    rw [List.mem_filter, isActive_iff, List.mem_map]
  generalize (s.opened.map OpenTag.tag).filter Tag.isSingleLine = tags at atMostOne among
  match tags with
  | [] => exact fun _ => ⟨[], capturing.breaks⟩
  | [tag] =>
      obtain ⟨active, single⟩ := (among tag).mp List.mem_cons_self
      rw [closeAll, if_pos active]
      change Meets _ _ (s.closeTag tag >>= pure)
      rw [bind_pure]
      cases capturing with
      | passed bears elsewhere noLine none =>
          obtain ⟨o, member, rfl⟩ := isActive_iff.mp active
          rw [noLine o member] at single
          cases single
      | fills fills =>
          cases heading : tag.isHeading with
          | false =>
              -- the other tag that ends with its line is the item
              have item : tag = .listItem := by
                revert single heading
                cases tag <;> decide
              subst item
              exact Meets.mono (closeItem_captures coherent active fills) fun _ met _ => met
          | true =>
              have noItem : s.isActive .listItem = false := by
                apply Bool.eq_false_iff.mpr
                intro item
                have same := List.mem_singleton.mp ((among .listItem).mpr ⟨item, by decide⟩)
                rw [← same] at heading
                cases heading
              obtain ⟨o, member, rfl⟩ := isActive_iff.mp active
              exact closeHeading_captures coherent own isOpened (outside o member heading) noItem
                active heading fills
  | first :: second :: rest => simp at atMostOne

/-- A paragraph that begins stands behind the address. -/
theorem Bears.passed (bears : s.Bears url text) (issued : url < s.nextSerial)
    (noLine : ∀ o ∈ s.opened, o.tag.isSingleLine = false) (outside : s.listLevel = 0) :
    s.openParagraph.Capturing url text := by
  obtain ⟨bears', elsewhere⟩ := bears.openParagraph issued
  exact .passed bears' elsewhere ((openParagraph_opened s).symm ▸ noLine)
    ((openParagraph_listLevel s).trans outside)

/-- A blank line writes the closing halves of all lists. -/
theorem closeLists_captures (sound : s.Sound) (writable : s.Writable)
    (noLine : ∀ o ∈ s.opened, o.tag.isSingleLine = false) (inside : s.listLevel ≠ 0)
    (capturing : s.Capturing url text) :
    Meets (fun _ => True) (fun s' => ∃ more, s.Breaks url text s' more) s.closeLists := by
  cases capturing with
  | passed bears elsewhere noLine outside => exact absurd outside inside
  | fills fills =>
      have entered : s.enterList = s := if_neg inside
      have leveled : Fills url text { s with listLevel := 0 } := fills
      have filled := leveled.put (levelChange s.listLevel 0)
      have opened := openParagraph_opened
        (put (levelChange s.listLevel 0) { s with listLevel := 0 })
      have level := openParagraph_listLevel
        (put (levelChange s.listLevel 0) { s with listLevel := 0 })
      have halves : (List.replicate s.listLevel Captured.listEnd).flatMap Captured.text
          = levelChange s.listLevel 0 := by
        rw [List.flatMap_replicate, levelChange, Nat.zero_sub]
        rfl
      rw [closeLists, setListLevel_eq (sound.takesText writable) (Ne.symm inside), if_pos rfl,
        changeLevel, entered]
      refine ⟨List.replicate s.listLevel .listEnd, ?_, ?_, ?_, ?_, ?_⟩
      · rw [halves]
        exact filled.bears.passed (fills.bears.issued sound) noLine rfl
      · rw [List.filterMap_replicate_of_none rfl]
      · have none : (List.replicate s.listLevel Captured.listEnd).count .itemEnd = 0 := by
          rw [List.count_replicate]
          rfl
        rw [none, isActive, opened, Nat.zero_add]
        rfl
      · rw [List.count_replicate_self, level]
        rfl
      · rw [opened]
        exact List.Subset.refl _

theorem Breaks.trans {s'' : Scan} {more later : List Captured} (first : s.Breaks url text s' more)
    (second : s'.Breaks url (text ++ more.flatMap Captured.text) s'' later) :
    s.Breaks url text s'' (more ++ later) where
  capturing := by
    rw [List.flatMap_append, ← List.append_assoc]
    exact second.capturing
  silent := by rw [List.filterMap_append, first.silent, second.silent, List.append_nil]
  items := by rw [List.count_append, Nat.add_assoc, second.items, first.items]
  lists := by rw [List.count_append, Nat.add_assoc, second.lists, first.lists]
  fewer := List.Subset.trans second.fewer first.fewer

/-- Other flags may be set behind. -/
theorem Breaks.flags {s'' : Scan} {more : List Captured} (breaks : s.Breaks url text s' more)
    (arena : s''.arena = s'.arena) (detached : s''.detached = s'.detached)
    (opened : s''.opened = s'.opened) (listLevel : s''.listLevel = s'.listLevel) :
    s.Breaks url text s'' more where
  capturing := breaks.capturing.congr arena detached opened listLevel
  silent := breaks.silent
  items := by
    rw [isActive, opened]
    exact breaks.items
  lists := by
    rw [listLevel]
    exact breaks.lists
  fewer := by
    rw [opened]
    exact breaks.fewer

theorem newline_captures (coherent : s.Coherent calm) (own : s.exclusive = some .url)
    (isOpened : ⟨.url, some url⟩ ∈ s.opened) (outside : s.Outside)
    (capturing : s.Capturing url text) :
    Meets (fun _ => True) (fun s' => ∃ more, s.Breaks url text s' more) s.newline := by
  rw [newline]
  apply Meets.bind ((closeLines_meets coherent).if_ok.and
    (closeLines_captures coherent own isOpened outside capturing))
  rintro s₁ ⟨⟨coherent₁, -, ended⟩, captures⟩
  obtain ⟨more, breaks⟩ := captures ended
  have counted : s.Breaks url text { s₁ with blankRun := s₁.blankRun + 1 } more :=
    breaks.flags rfl rfl rfl rfl
  have sound : Sound { s₁ with blankRun := s₁.blankRun + 1 } := coherent₁.sound.congr rfl
  dsimp only
  split
  · exact ⟨more, breaks.flags rfl rfl rfl rfl⟩
  · split
    · split
      · rename_i inside
        apply Meets.bind
          (closeLists_captures sound coherent₁.writable ended inside counted.capturing)
        intro s₂ met
        obtain ⟨later, lists⟩ := met
        exact ⟨more ++ later, (counted.trans lists).flags rfl rfl rfl rfl⟩
      · rename_i none
        have bears := counted.capturing.bears
        have passed := bears.passed (bears.issued sound) ended (by simpa using none)
        have same := openParagraph_opened { s₁ with blankRun := s₁.blankRun + 1 }
        have level := openParagraph_listLevel { s₁ with blankRun := s₁.blankRun + 1 }
        refine ⟨more, passed.congr rfl rfl rfl rfl, counted.silent, ?_, ?_, ?_⟩
        · have items := counted.items
          rw [isActive] at items ⊢
          exact same.symm ▸ items
        · have lists := counted.lists
          exact level.symm ▸ lists
        · have fewer := counted.fewer
          exact same.symm ▸ fewer
    · exact ⟨more, counted.flags rfl rfl rfl rfl⟩

/-! ### Steps -/

/-- An address that began in one state is open in another under a number, and all that it has
captured is accounted for. -/
structure Captures (begun : Scan) (url : Nat) (s : Scan) : Prop where
  isOpened : ⟨.url, some url⟩ ∈ s.opened
  pieces : ∃ pieces, Accounts begun s pieces ∧ s.Capturing url (pieces.flatMap Captured.text)

/-- Other flags may be set, and some of the source be read. -/
theorem Captures.flags (captures : Captures begun url s) (arena : s'.arena = s.arena)
    (detached : s'.detached = s.detached) (opened : s'.opened = s.opened)
    (listLevel : s'.listLevel = s.listLevel) (rest : s'.rest <:+ s.rest) :
    Captures begun url s' where
  isOpened := opened ▸ captures.isOpened
  pieces := by
    obtain ⟨pieces, accounts, capturing⟩ := captures.pieces
    obtain ⟨read, restEq⟩ := rest
    have next : Accounts begun s' (pieces ++ []) := by
      refine accounts.next read restEq.symm (List.nil_sublist _) ?_ ?_
      · rw [isActive, opened]
        exact Nat.zero_add _
      · exact (Nat.zero_add _).trans listLevel
    rw [List.append_nil] at next
    exact ⟨pieces, next, capturing.congr arena detached opened listLevel⟩

theorem Captures.literal (captures : Captures begun url s) (takes : s.TakesText) {c : Char}
    {rest : Text} (here : s.rest = c :: rest) :
    Meets (fun _ => True) (Captures begun url) (s.literal c) := by
  obtain ⟨pieces, accounts, capturing⟩ := captures.pieces
  obtain ⟨more, chars, source, capturing', opened⟩ := capturing.putLiteral c
  have spaced : s.spaced.rest = s.rest := by
    rw [Scan.spaced]
    split
    · split <;> rfl
    · rfl
  have none : more.count .itemEnd = 0 ∧ more.count .listEnd = 0 := by
    rw [List.count_eq_zero, List.count_eq_zero]
    exact ⟨fun member => (source _ member).1 rfl, fun member => (source _ member).2 rfl⟩
  rw [Scan.literal, appendLiteral_eq takes]
  refine ⟨opened.symm ▸ captures.isOpened, pieces ++ more, ?_, ?_⟩
  · refine accounts.next [c] ?_ chars ?_ ?_
    · change s.rest = [c] ++ s.spaced.rest.drop 1
      rw [spaced, here]
      rfl
    · rw [none.1, Nat.zero_add]
      change ((s.putLiteral c).isActive .listItem).toNat = _
      rw [isActive, opened]
      rfl
    · rw [none.2, Nat.zero_add]
      exact s.spaced_listLevel
  · rw [List.flatMap_append]
    exact capturing'.congr rfl rfl rfl rfl

/-- Where no other tag has been opened, the address is open under the number that it had. -/
theorem open_of_fewer (sound : s.Sound) (isOpened : ⟨.url, some url⟩ ∈ s.opened)
    (fewer : s'.opened ⊆ s.opened) (active : s'.isActive .url = true) :
    ⟨.url, some url⟩ ∈ s'.opened := by
  obtain ⟨o, member, tag⟩ := isActive_iff.mp active
  have same := List.inj_on_of_nodup_map sound.once (fewer member) isOpened tag
  exact same ▸ member

theorem Captures.newline (captures : Captures begun url s) (coherent : s.Coherent calm)
    (outside : s.Outside) {c : Char} {rest : Text} (here : s.rest = c :: rest) :
    Meets (fun _ => True) (fun s' => s'.isActive .url = true → Captures begun url s')
      (s.newline >>= fun s => pure (s.advance 1)) := by
  obtain ⟨pieces, accounts, capturing⟩ := captures.pieces
  have own : s.exclusive = some .url := coherent.control.only _ captures.isOpened rfl
  have adds := newline_captures coherent own captures.isOpened outside capturing
  have tacit := newline_tacit s
  cases ended : s.newline with
  | error halt => trivial
  | ok s₁ =>
      rw [ended] at adds tacit
      obtain ⟨more, breaks⟩ := adds
      intro active
      refine ⟨open_of_fewer coherent.sound captures.isOpened breaks.fewer active, pieces ++ more,
        ?_, ?_⟩
      · refine accounts.next [c] ?_ ?_ breaks.items breaks.lists
        · change s.rest = [c] ++ s₁.rest.drop 1
          rw [show s₁.rest = s.rest from tacit.rest, here]
          rfl
        · rw [breaks.silent]
          exact List.nil_sublist _
      · rw [List.flatMap_append]
        exact breaks.capturing.congr rfl rfl rfl rfl

/-- In an address a backslash takes the meaning from the next character, the own end of the address
ends it, and every other visible character stands for itself. -/
theorem Captures.solidStep (captures : Captures begun url s) (coherent : s.Coherent calm) {c : Char}
    {rest : Text} (here : s.rest = c :: rest) :
    Meets (fun _ => True) (fun s' => s'.isActive .url = true → Captures begun url s')
      (s.solidStep c) := by
  have own : s.exclusive = some .url := coherent.control.only _ captures.isOpened rfl
  let s₁ : Scan := { s with lineBlank := false, blankRun := 0, skipWhitespace := false }
  have entered : s.enterSolid s.lineBlank = .ok s₁ := by
    rw [enterSolid, own]
    simp only [Option.isNone_some, Bool.and_false, Bool.false_and]
    rfl
  have captures₁ : Captures begun url s₁ :=
    captures.flags rfl rfl rfl rfl (List.suffix_refl _)
  have noBracket : s₁.captionBracket c = none := if_pos (by simp [s₁, own])
  have noOpening : s₁.nextOpening s.lineBlank = none := if_pos (by simp [s₁, own])
  rw [Scan.solidStep, entered]
  change Meets _ _ (if _ then _ else _)
  split
  · exact fun _ => captures.flags rfl rfl rfl rfl (List.drop_suffix 1 s.rest)
  · rw [noBracket]
    simp only [delimiterOrLiteral, noOpening]
    cases nextClose : s₁.nextClosing with
    | none =>
        have takes := coherent.sound.takesText coherent.writable
        exact Meets.mono (captures₁.literal takes here) fun _ met _ => met
    | some tag =>
        -- only the exclusive tag can end here, and then it is not open any more
        have isUrl : tag = .url := by
          have turn : s.exclusive = none ∨ s.exclusive = some tag :=
            (closer_of_nextClosing nextClose).1
          rw [own] at turn
          simpa [eq_comm] using turn
        have coherent₁ : s₁.Coherent calm :=
          coherent.flags rfl (fun _ => id) rfl rfl
            { coherent.control with blank := fun blank => by cases blank }
        have mayEnd := (mayEnd_of_nextClosing coherent₁ nextClose).advance
          (tag.traits.closer.getD []).length
        refine Meets.mono (closeTag_meets (coherent₁.advance _) mayEnd).if_ok ?_
        rintro s₂ ⟨-, -, ended⟩ active
        obtain ⟨o, member, same⟩ := isActive_iff.mp active
        exact absurd (same.trans isUrl.symm) (ended o member)

/-- Only its own end can end an address, and whatever else is read goes to it or past it. -/
theorem step_captures (coherent : s.Coherent calm) (outside : s.Outside)
    (captures : Captures begun url s) :
    Meets (fun _ => True) (fun s' => s'.isActive .url = true → Captures begun url s') s.step := by
  have own : s.exclusive = some .url := coherent.control.only _ captures.isOpened rfl
  refine step_keeps coherent.writable (fun _ => captures) fun {c rest} next => ?_
  have unescaped : Captures begun url { s with escaped := false } :=
    captures.flags rfl rfl rfl rfl (List.suffix_refl _)
  exact {
    verbatim := by
      intro region newest verbatim
      have other := exclusive_eq_of_verbatim coherent newest verbatim
      rw [own, Option.some.injEq] at other
      rw [← other] at verbatim
      cases verbatim
    escaped := by
      intro _
      have takes := coherent.sound.takesText coherent.writable
      exact Meets.mono (unescaped.literal takes next) fun _ met _ => met
    newline := fun _ _ _ _ => captures.newline coherent outside next
    gap := by
      rw [whitespace_eq]
      exact fun _ => captures.flags rfl rfl rfl rfl (List.drop_suffix 1 s.rest)
    rule := by
      intro _ free
      rw [own] at free
      cases free
    solid := captures.solidStep coherent next }

/-! ### The beginning of an address -/

/-- The region of a tag that begins without more is the newest one, and empty. -/
theorem openTag_url (h : s.openTag .url = .ok s') :
    ∃ url, ⟨.url, some url⟩ ∈ s'.opened ∧ s'.Fills url [] := by
  rw [openTag] at h
  cases flushed : flushSpace { s with
      skipWhitespace := s.skipWhitespace || Tag.url.isSingleLine
      pendingSpace := s.pendingSpace && !(Tag.url.isSingleLine || s.startsBlock .url) } with
  | error halt =>
      rw [flushed] at h
      cases h
  | ok s₁ =>
      rw [flushed] at h
      cases h
      exact ⟨_, List.mem_cons_self, _, _, rfl, rfl, rfl⟩

/-- Where an address begins, nothing has been captured. -/
theorem begins_captures (coherent : s.Coherent calm) (closed : s.isActive .url = false)
    (stepped : s.step = .ok begun) (active : begun.isActive .url = true) :
    ∃ url, Captures begun url begun := by
  cases (step_opens coherent).of_ok stepped with
  | none fewer =>
      obtain ⟨o, member, tag⟩ := isActive_iff.mp active
      rw [isActive_iff.mpr ⟨o, fewer member, tag⟩] at closed
      cases closed
  | @one t tag region begins opened =>
      obtain ⟨o, member, isUrl⟩ := isActive_iff.mp active
      rw [opened] at member
      rcases List.mem_cons.mp member with rfl | old
      · cases isUrl
        obtain ⟨url, isOpened, fills⟩ := openTag_url begins
        exact ⟨url, isOpened, [], .begins begun, .fills fills⟩
      · rw [isActive_iff.mpr ⟨o, old, isUrl⟩] at closed
        cases closed

/-! ### The text of an address -/

theorem reached_steps {n : Nat} (reached : Reached source s) (stepped : s.steps n = .ok s') :
    Reached source s' := by
  have keeps : ∀ {s : Scan}, Reached source s → Meets (fun _ => True) (Reached source) s.step := by
    intro s reached
    cases next : s.step with
    | ok s₁ => exact .step reached next
    | error halt => trivial
  exact (steps_keeps keeps n reached).of_ok stepped

theorem ReadsAddress.reached (reads : ReadsAddress source begun s) : Reached source s := by
  induction reads with
  | begins reached _ stepped => exact .step reached stepped
  | reads _ stepped _ ih => exact .step ih stepped

theorem ReadsAddress.captures (reads : ReadsAddress source begun s) :
    ∃ url, Captures begun url s := by
  induction reads with
  | begins reached closed stepped active =>
      exact begins_captures reached.coherent closed stepped active
  | reads before stepped active ih =>
      obtain ⟨url, captures⟩ := ih
      have reached := before.reached
      have next := step_captures reached.coherent (reached_outside reached) captures
      exact ⟨url, next.of_ok stepped active⟩

/-- The text that an open address has captured is what its region holds. -/
theorem Captures.captured_eq (captures : Captures begun url s) (sound : s.Sound) :
    ∃ pieces, Accounts begun s pieces ∧ s.captured = pieces.flatMap Captured.text := by
  obtain ⟨pieces, accounts, capturing⟩ := captures.pieces
  obtain ⟨e, member, rfl, inner⟩ := capturing.bears
  have found : s.serialOf .url = some e.serial :=
    serialOf_of_open sound (mem_openRegions (o := ⟨.url, e.serial⟩).mpr captures.isOpened)
  refine ⟨pieces, accounts, ?_⟩
  rw [captured, found, Option.bind_some, regionOf_of_mem sound.distinct member, ← inner]
  rfl

/-- As long as an address is open it has captured characters of the source, in order and escaped,
single spaces, and the closing halves of the item and the lists that have ended since it began:
exactly those. So it is source text if and only if neither the item nor a list around it has
ended. -/
theorem address_captured (reads : ReadsAddress source begun s) :
    ∃ pieces : List Captured, s.captured = pieces.flatMap Captured.text
      ∧ Accounts begun s pieces
      ∧ ((∀ piece ∈ pieces, piece.IsSource)
        ↔ s.isActive .listItem = begun.isActive .listItem ∧ s.listLevel = begun.listLevel) := by
  obtain ⟨url, captures⟩ := reads.captures
  obtain ⟨pieces, accounts, text⟩ := captures.captured_eq reads.reached.coherent.sound
  exact ⟨pieces, text, accounts, accounts.isSource_iff⟩

theorem exists_of_any {outcome : Outcome} {p : Scan → Bool}
    (found : outcome.toOption.any p = true) : ∃ s, outcome = .ok s ∧ p s = true := by
  cases outcome with
  | ok s => exact ⟨s, rfl, found⟩
  | error halt => cases found

/-- The closing half of a list item in an address that goes on behind the end of its line. -/
theorem address_captured_item :
    ∃ begun s, ReadsAddress "- [a](b\nc)".toList begun s ∧ s.captured = "b</li> c".toList
      ∧ ∃ pieces : List Captured, s.captured = pieces.flatMap Captured.text
        ∧ Accounts begun s pieces
        ∧ ((∀ piece ∈ pieces, piece.IsSource)
          ↔ s.isActive .listItem = begun.isActive .listItem ∧ s.listLevel = begun.listLevel) := by
  have run : ((start "- [a](b\nc)".toList).steps 4).toOption.any (fun before =>
      !before.isActive .url && before.step.toOption.any fun begun => begun.isActive .url
        && begun.step.toOption.any fun s₁ => s₁.isActive .url
        && s₁.step.toOption.any fun s₂ => s₂.isActive .url
        && s₂.step.toOption.any fun s => s.isActive .url
        && s.captured == "b</li> c".toList) = true := by
    decide +kernel
  obtain ⟨before, four, run⟩ := exists_of_any run
  simp only [Bool.and_eq_true, Bool.not_eq_true'] at run
  obtain ⟨closed, run⟩ := run
  obtain ⟨begun, stepped, run⟩ := exists_of_any run
  simp only [Bool.and_eq_true] at run
  obtain ⟨active, run⟩ := run
  obtain ⟨s₁, stepped₁, run⟩ := exists_of_any run
  simp only [Bool.and_eq_true] at run
  obtain ⟨active₁, run⟩ := run
  obtain ⟨s₂, stepped₂, run⟩ := exists_of_any run
  simp only [Bool.and_eq_true] at run
  obtain ⟨active₂, run⟩ := run
  obtain ⟨s, stepped₃, run⟩ := exists_of_any run
  simp only [Bool.and_eq_true, beq_iff_eq] at run
  have reads : ReadsAddress "- [a](b\nc)".toList begun s :=
    .reads (.reads (.reads (.begins (reached_steps .start four) closed stepped active) stepped₁
      active₁) stepped₂ active₂) stepped₃ run.1
  exact ⟨begun, s, reads, run.2, address_captured reads⟩

end Scan

end MarkPress
