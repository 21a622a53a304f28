/-
Module: MarkPress.Proofs.Render.Export
Purpose: Which regions of a sequence are rendered.
  Of the regions that appear at all, those are left out that are half of an empty pair of
  neighbours, and the closing halves before which the regions that are rendered do not open more
  elements of their kind than they close. Places tell apart regions that look the same, and the
  positions of a pool tell whether it is the same region that occurs twice.
Main exports:
  Export.opens, Export.closes, Export.PairAt, Export.Pruned, Export.Orphaned, Export.Selects,
  Export.selects_placed, Export.selection_map, Export.htmlAt_law
-/
import Mathlib.Data.List.Nodup
import MarkPress.Proofs.Render.Selection

namespace MarkPress.Export

open Html

variable {α β : Type} {region : α → Region} {items : List α} {item : α} {place : Nat}

/-! ### What is left out -/

/-- Whether an item opens an element. -/
def opens (region : α → Region) (element : Element) (item : α) : Bool :=
  (region item).tag.traits.shape == .opening && (region item).tag.traits.element == some element

/-- Whether an item closes an element. -/
def closes (region : α → Region) (element : Element) (item : α) : Bool :=
  (region item).tag.traits.shape == .closing && (region item).tag.traits.element == some element

/-- At a place begin two neighbours that open and close an element and may be left out together. -/
def PairAt (region : α → Region) (visible : List α) (place : Nat) : Prop :=
  ∃ left right element, visible[place]? = some left ∧ visible[place + 1]? = some right
    ∧ opens region element left = true ∧ closes region element right = true
    ∧ (region left).isPrunable = true ∧ (region right).isPrunable = true

/-- At a place stands one half of an empty pair. -/
def Pruned (region : α → Region) (visible : List α) (place : Nat) : Prop :=
  PairAt region visible place ∨ ∃ before, place = before + 1 ∧ PairAt region visible before

/-- An item closes an element of which no more are opened than closed by the items before it. -/
def Orphaned (region : α → Region) (before : List α) (item : α) : Prop :=
  ∃ element, closes region element item = true
    ∧ before.countP (opens region element) ≤ before.countP (closes region element)

/-- The items with their places that are kept of those that appear at all. -/
structure Selects (region : α → Region) (visible : List α) (kept : List (α × Nat)) : Prop where
  sublist : kept.Sublist visible.zipIdx
  left_out : ∀ item place, (item, place) ∈ visible.zipIdx →
    ((item, place) ∉ kept ↔ Pruned region visible place
      ∨ Orphaned region ((kept.filter fun other => other.2 < place).map Prod.fst) item)
  /-- No item is half of two pairs. -/
  apart : ∀ place, PairAt region visible place → ¬ PairAt region visible (place + 1)
  /-- Halves only are left out. -/
  whole : ∀ item place, (item, place) ∈ visible.zipIdx →
    (region item).tag.traits.shape = .whole ∨ (region item).tag.traits.shape = .void →
    (item, place) ∈ kept
  /-- Nowhere have more elements of a kind been closed than opened. -/
  balanced : ∀ element n, ((kept.map Prod.fst).take n).countP (closes region element)
    ≤ ((kept.map Prod.fst).take n).countP (opens region element)

/-! ### Empty pairs -/

theorem isEmptyPair_iff {left right : α} :
    isEmptyPair (region left) (region right) = true
      ↔ ∃ element, opens region element left = true ∧ closes region element right = true
        ∧ (region left).isPrunable = true ∧ (region right).isPrunable = true := by
  simp only [isEmptyPair, isPair, opens, closes, Bool.and_eq_true, beq_iff_eq,
    Option.isSome_iff_exists]
  constructor
  · rintro ⟨⟨left, right⟩, ⟨⟨⟨element, known⟩, same⟩, opening⟩, closing⟩
    exact ⟨element, ⟨opening, known⟩, ⟨closing, same ▸ known⟩, left, right⟩
  · rintro ⟨element, ⟨opening, known⟩, ⟨closing, known'⟩, left, right⟩
    exact ⟨⟨left, right⟩, ⟨⟨⟨element, known⟩, known.trans known'.symm⟩, opening⟩, closing⟩

theorem pairAt_succ (first : α) (rest : List α) :
    PairAt region (first :: rest) (place + 1) ↔ PairAt region rest place := by
  simp [PairAt]

theorem pairAt_zero (left right : α) (rest : List α) :
    PairAt region (left :: right :: rest) 0 ↔ isEmptyPair (region left) (region right) = true := by
  rw [isEmptyPair_iff]
  simp [PairAt]

/-- The half that closes one pair does not open another. -/
theorem PairAt.apart (pair : PairAt region items place) : ¬ PairAt region items (place + 1) := by
  rintro ⟨right', _, _, rightAt', -, opening, -⟩
  obtain ⟨_, right, _, -, rightAt, -, closing, -⟩ := pair
  rw [rightAt] at rightAt'
  cases rightAt'
  simp only [opens, closes, Bool.and_eq_true, beq_iff_eq] at opening closing
  rw [opening.1] at closing
  cases closing.1

theorem pruned_succ_succ (first : α) (rest : List α) :
    Pruned region (first :: rest) (place + 2) ↔ Pruned region rest (place + 1) := by
  simp [Pruned, pairAt_succ]

theorem pruned_zero : Pruned region items 0 ↔ PairAt region items 0 := by
  simp [Pruned]

/-- A half of an empty pair opens or closes an element. -/
theorem Pruned.half (pruned : Pruned region items place) (found : items[place]? = some item) :
    (region item).tag.traits.shape = .opening ∨ (region item).tag.traits.shape = .closing := by
  rcases pruned with ⟨left, _, element, leftAt, -, opening, -⟩
    | ⟨before, rfl, _, right, element, -, rightAt, -, closing, -⟩
  · rw [leftAt] at found
    cases found
    simp only [opens, Bool.and_eq_true, beq_iff_eq] at opening
    exact .inl opening.1
  · rw [rightAt] at found
    cases found
    simp only [closes, Bool.and_eq_true, beq_iff_eq] at closing
    exact .inr closing.1

/-- Behind an item that opens no empty pair the rest stands as if by itself. -/
theorem pruned_succ {first : α} {rest : List α} (filled : ¬ PairAt region (first :: rest) 0) :
    Pruned region (first :: rest) (place + 1) ↔ Pruned region rest place := by
  cases place with
  | zero =>
      rw [pruned_zero, Pruned, pairAt_succ]
      refine or_iff_left ?_
      rintro ⟨before, same, pair⟩
      obtain rfl : before = 0 := by omega
      exact filled pair
  | succ place => exact pruned_succ_succ first rest

theorem not_mem_dropEmptyPairs {start : Nat} (before : place < start) :
    (item, place) ∉ dropEmptyPairs (region ∘ Prod.fst) (items.zipIdx start) := by
  intro member
  have placed := List.mem_zipIdx ((dropEmptyPairs_sublist _).subset member)
  omega

/-- Leaving out empty pairs leaves out what is half of one, and nothing else. -/
theorem mem_dropEmptyPairs (items : List α) (start place : Nat) :
    (item, start + place) ∈ dropEmptyPairs (region ∘ Prod.fst) (items.zipIdx start)
      ↔ items[place]? = some item ∧ ¬ Pruned region items place := by
  induction items using dropEmptyPairs.induct region generalizing start place with
  | case1 => simp [dropEmptyPairs]
  | case2 only =>
      have alone : ¬ Pruned region [only] 0 := by simp [pruned_zero, PairAt]
      cases place with
      | zero => simp [dropEmptyPairs, alone, eq_comm (a := item)]
      | succ place => simp [dropEmptyPairs]
  | case3 left right rest empty ih =>
      have dropped : dropEmptyPairs (region ∘ Prod.fst) ((left :: right :: rest).zipIdx start)
          = dropEmptyPairs (region ∘ Prod.fst) (rest.zipIdx (start + 2)) := by
        simp [dropEmptyPairs, empty]
      have pair : PairAt region (left :: right :: rest) 0 := (pairAt_zero left right rest).mpr empty
      have filled : ¬ PairAt region (right :: rest) 0 := fun next =>
        pair.apart ((pairAt_succ left (right :: rest)).mpr next)
      rw [dropped]
      cases place with
      | zero => exact iff_of_false (not_mem_dropEmptyPairs (by omega)) fun h => h.2 (.inl pair)
      | succ place =>
          cases place with
          | zero =>
              exact iff_of_false (not_mem_dropEmptyPairs (by omega)) fun h =>
                h.2 (.inr ⟨0, rfl, pair⟩)
          | succ place =>
              rw [show start + (place + 1 + 1) = start + 2 + place by omega, ih, pruned_succ_succ,
                pruned_succ filled]
              rfl
  | case4 left right rest filled ih =>
      have kept : dropEmptyPairs (region ∘ Prod.fst) ((left :: right :: rest).zipIdx start)
          = (left, start)
            :: dropEmptyPairs (region ∘ Prod.fst) ((right :: rest).zipIdx (start + 1)) := by
        simp [dropEmptyPairs, filled]
      have notPair : ¬ PairAt region (left :: right :: rest) 0 :=
        mt (pairAt_zero left right rest).mp filled
      rw [kept, List.mem_cons]
      cases place with
      | zero =>
          have later : (item, start)
              ∉ dropEmptyPairs (region ∘ Prod.fst) ((right :: rest).zipIdx (start + 1)) :=
            not_mem_dropEmptyPairs (Nat.lt_succ_self start)
          rw [Nat.add_zero, or_iff_left later, pruned_zero]
          simp [notPair, eq_comm (a := item)]
      | succ place =>
          rw [show start + (place + 1) = start + 1 + place by omega, ih, pruned_succ notPair]
          simp
          omega

/-! ### Orphans -/

/-- An item stays and changes what is open, or it closes an element that is not open. -/
theorem dropOrphans_step (region : α → Region) (opened : List Element) (item : α) :
    (∃ after,
      (∀ rest, dropOrphans region opened (item :: rest) = item :: dropOrphans region after rest)
      ∧ (∀ element, after.count element + (if closes region element item then 1 else 0)
        = opened.count element + if opens region element item then 1 else 0)
      ∧ ∀ element, closes region element item = true → 0 < opened.count element)
    ∨ ((∀ rest, dropOrphans region opened (item :: rest) = dropOrphans region opened rest)
      ∧ ∃ element, closes region element item = true ∧ opened.count element = 0) := by
  cases elementEq : (region item).tag.traits.element with
  | none =>
      exact .inl ⟨opened, by simp [dropOrphans, elementEq], by simp [opens, closes, elementEq],
        by simp [closes, elementEq]⟩
  | some element =>
      cases shapeEq : (region item).tag.traits.shape with
      | whole | void =>
          exact .inl ⟨opened, by simp [dropOrphans, elementEq, shapeEq],
            by simp [opens, closes, shapeEq], by simp [closes, shapeEq]⟩
      | opening =>
          refine .inl ⟨element :: opened, by simp [dropOrphans, elementEq, shapeEq],
            fun other => ?_, by simp [closes, shapeEq]⟩
          simp [opens, closes, elementEq, shapeEq, List.count_cons]
      | closing =>
          by_cases isOpen : element ∈ opened
          · have some : 0 < opened.count element := List.count_pos_iff.mpr isOpen
            refine .inl ⟨opened.erase element, by simp [dropOrphans, elementEq, shapeEq, isOpen],
              fun other => ?_, fun other closing => ?_⟩
            · by_cases same : element = other
              · subst same
                simp [opens, closes, elementEq, shapeEq]
                omega
              · simp [opens, closes, elementEq, shapeEq, List.count_erase_of_ne (Ne.symm same), same]
            · simp only [closes, elementEq, shapeEq, beq_self_eq_true, Bool.true_and, beq_iff_eq,
                Option.some.injEq] at closing
              rwa [← closing]
          · refine .inr ⟨by simp [dropOrphans, elementEq, shapeEq, isOpen], element, ?_,
              List.count_eq_zero.mpr isOpen⟩
            simp [closes, elementEq, shapeEq]

/-- What is rendered of a sequence and of another one behind it. -/
theorem dropOrphans_append (region : α → Region) (opened : List Element) (left right : List α) :
    ∃ after, dropOrphans region opened (left ++ right)
        = dropOrphans region opened left ++ dropOrphans region after right
      ∧ ∀ element, after.count element
          + (dropOrphans region opened left).countP (closes region element)
        = opened.count element
          + (dropOrphans region opened left).countP (opens region element) := by
  induction left generalizing opened with
  | nil => exact ⟨opened, rfl, fun _ => rfl⟩
  | cons item rest ih =>
      rw [List.cons_append]
      rcases dropOrphans_step region opened item with ⟨next, kept, counted, -⟩ | ⟨dropped, -⟩
      · obtain ⟨after, split, balance⟩ := ih next
        refine ⟨after, by rw [kept, kept, split, List.cons_append], fun element => ?_⟩
        have step := counted element
        have later := balance element
        rw [kept, List.countP_cons, List.countP_cons]
        omega
      · obtain ⟨after, split, balance⟩ := ih opened
        exact ⟨after, by rw [dropped, dropped, split], by rw [dropped]; exact balance⟩

/-- Nothing is closed that was not opened. -/
theorem countP_closes_dropOrphans (region : α → Region) (element : Element)
    (opened : List Element) (items : List α) (n : Nat) :
    ((dropOrphans region opened items).take n).countP (closes region element)
      ≤ opened.count element
        + ((dropOrphans region opened items).take n).countP (opens region element) := by
  induction items generalizing opened n with
  | nil => simp [dropOrphans]
  | cons item rest ih =>
      rcases dropOrphans_step region opened item with ⟨next, kept, counted, isOpen⟩ | ⟨dropped, -⟩
      · cases n with
        | zero => simp
        | succ n =>
            have step := counted element
            have later := ih next n
            have closing := isOpen element
            rw [kept, List.take_succ_cons, List.countP_cons, List.countP_cons]
            omega
      · rw [dropped]
        exact ih opened n

/-- Of distinct items one is left out exactly if it closes what is not open there. -/
theorem not_mem_dropOrphans {before behind : List α} (distinct : (before ++ item :: behind).Nodup) :
    item ∉ dropOrphans region [] (before ++ item :: behind)
      ↔ Orphaned region (dropOrphans region [] before) item := by
  obtain ⟨opened, split, balance⟩ := dropOrphans_append region [] before
    (item :: behind)
  rw [List.nodup_middle, List.nodup_cons, List.mem_append, not_or] at distinct
  have notBefore : item ∉ dropOrphans region [] before := fun member =>
    distinct.1.1 ((dropOrphans_sublist _ _).subset member)
  have notBehind : ∀ after, item ∉ dropOrphans region after behind := fun after member =>
    distinct.1.2 ((dropOrphans_sublist _ _).subset member)
  rw [split, List.mem_append, or_iff_right notBefore, Orphaned]
  rcases dropOrphans_step region opened item with
    ⟨next, kept, -, isOpen⟩ | ⟨dropped, element, closing, closed⟩
  · rw [kept]
    refine iff_of_false (not_not_intro List.mem_cons_self) ?_
    rintro ⟨element, closing, atMost⟩
    have some := isOpen element closing
    have counted := balance element
    rw [List.count_nil] at counted
    omega
  · rw [dropped]
    refine iff_of_true (notBehind opened) ⟨element, closing, ?_⟩
    have counted := balance element
    rw [closed, List.count_nil] at counted
    omega

/-! ### Places -/

/-- The items that are rendered of those that appear at all, with their places among these. -/
def placed (region : α → Region) (visible : List α) : List (α × Nat) :=
  dropOrphans (region ∘ Prod.fst) [] (dropEmptyPairs (region ∘ Prod.fst) visible.zipIdx)

/-- Places go up from the left to the right. -/
theorem places_ascend (region : α → Region) (visible : List α) :
    (dropEmptyPairs (region ∘ Prod.fst) visible.zipIdx).Pairwise fun left right =>
      left.2 < right.2 := by
  have all : (visible.zipIdx.map Prod.snd).Pairwise (· < ·) := by
    rw [List.zipIdx_map_snd]
    exact List.pairwise_lt_range'
  exact (List.pairwise_map.mp all).sublist (dropEmptyPairs_sublist _)

/-- What is left out of the items with their places. -/
theorem not_mem_placed {visible : List α} (member : (item, place) ∈ visible.zipIdx) :
    (item, place) ∉ placed region visible
      ↔ Pruned region visible place
        ∨ Orphaned region
          (((placed region visible).filter fun other => other.2 < place).map Prod.fst) item := by
  have found : visible[place]? = some item := List.mk_mem_zipIdx_iff_getElem?.mp member
  have filled : (item, 0 + place) ∈ dropEmptyPairs (region ∘ Prod.fst) visible.zipIdx
      ↔ visible[place]? = some item ∧ ¬ Pruned region visible place :=
    mem_dropEmptyPairs visible 0 place
  rw [Nat.zero_add, found, eq_self, true_and] at filled
  by_cases pruned : Pruned region visible place
  · refine iff_of_true (fun kept => ?_) (.inl pruned)
    exact filled.mp ((dropOrphans_sublist _ _).subset kept) pruned
  · rw [or_iff_right pruned]
    obtain ⟨before, behind, split⟩ := List.append_of_mem (filled.mpr pruned)
    have ascend := places_ascend region visible
    rw [split] at ascend
    have distinct : (before ++ (item, place) :: behind).Nodup := by
      refine ascend.imp ?_
      rintro left _ less rfl
      exact Nat.lt_irrefl _ less
    obtain ⟨-, fromHere, around⟩ := List.pairwise_append.mp ascend
    -- of the items that are rendered, those at lower places come from the items before this one
    have lower : (placed region visible).filter (fun other => other.2 < place)
        = dropOrphans (region ∘ Prod.fst) [] before := by
      obtain ⟨opened, parts, -⟩ := dropOrphans_append (region ∘ Prod.fst) [] before
        ((item, place) :: behind)
      have left : ∀ other ∈ dropOrphans (region ∘ Prod.fst) [] before, other.2 < place :=
        fun other kept => around other ((dropOrphans_sublist _ _).subset kept) _ List.mem_cons_self
      have right : ∀ other ∈ dropOrphans (region ∘ Prod.fst) opened ((item, place) :: behind),
          ¬ other.2 < place := by
        intro other kept
        rcases List.mem_cons.mp ((dropOrphans_sublist _ _).subset kept) with rfl | later
        · exact Nat.lt_irrefl _
        · exact Nat.lt_asymm ((List.pairwise_cons.mp fromHere).1 other later)
      rw [placed, split, parts, List.filter_append, List.filter_eq_self.mpr (by simpa using left),
        List.filter_eq_nil_iff.mpr (by simpa using right), List.append_nil]
    rw [lower, placed, split, not_mem_dropOrphans distinct]
    simp only [Orphaned, List.countP_map]
    rfl

/-- What is kept of the items that appear at all is in order, and nothing is left out but halves of
empty pairs and orphans. -/
theorem selects_placed (region : α → Region) (visible : List α) :
    Selects region visible (placed region visible) where
  sublist := (dropOrphans_sublist _ _).trans (dropEmptyPairs_sublist _)
  left_out := fun _ _ member => not_mem_placed member
  apart := fun _ pair => pair.apart
  whole := by
    intro item place member shape
    by_contra gone
    rcases (not_mem_placed member).mp gone with pruned | ⟨element, closing, -⟩
    · rcases pruned.half (List.mk_mem_zipIdx_iff_getElem?.mp member) with half | half
      · simp [half] at shape
      · simp [half] at shape
    · simp only [closes, Bool.and_eq_true, beq_iff_eq] at closing
      rw [closing.1] at shape
      simp at shape
  balanced := by
    intro element n
    have nested := countP_closes_dropOrphans (region ∘ Prod.fst) element []
      (dropEmptyPairs (region ∘ Prod.fst) visible.zipIdx) n
    rw [List.count_nil, Nat.zero_add] at nested
    rw [← List.map_take, List.countP_map, List.countP_map]
    exact nested

/-! ### Regions of a pool -/

/-- Whether two regions are alike in everything that the selection looks at. -/
def Alike (left right : Region) : Prop := left.tag = right.tag ∧ left.isEmpty = right.isEmpty

variable {f : α → β} {image : β → Region}

theorem dropEmptyPairs_map (alike : ∀ item, Alike (image (f item)) (region item)) (items : List α) :
    dropEmptyPairs image (items.map f) = (dropEmptyPairs region items).map f := by
  have pair : ∀ left right, isEmptyPair (image (f left)) (image (f right))
      = isEmptyPair (region left) (region right) := by
    intro left right
    simp only [isEmptyPair, isPair, Region.isPrunable, (alike left).1, (alike left).2,
      (alike right).1, (alike right).2]
  induction items using dropEmptyPairs.induct region with
  | case1 | case2 => rfl
  | case3 left right rest empty ih => simp [dropEmptyPairs, pair, empty, ih]
  | case4 left right rest filled ih =>
      rw [List.map_cons] at ih
      simp [dropEmptyPairs, pair, filled, ih]

theorem dropOrphans_map (alike : ∀ item, Alike (image (f item)) (region item))
    (opened : List Element) (items : List α) :
    dropOrphans image opened (items.map f) = (dropOrphans region opened items).map f := by
  induction items generalizing opened with
  | nil => rfl
  | cons item rest ih =>
      simp only [List.map_cons, dropOrphans, (alike item).1]
      split
      · split
        · rw [ih, List.map_cons]
        · rw [ih]
      · rw [ih, List.map_cons]
      · rw [ih, List.map_cons]

/-- Which items are rendered depends on what their regions look like only. -/
theorem selection_map (alike : ∀ item, Alike (image (f item)) (region item)) (items : List α) :
    selection image (items.map f) = (selection region items).map f := by
  have shown : (fun item => (image (f item)).isShown) = fun item => (region item).isShown := by
    funext item
    rw [Region.isShown, Region.isShown, (alike item).1, (alike item).2]
  rw [selection, selection, List.filter_map, Function.comp_def, shown, dropEmptyPairs_map alike,
    dropOrphans_map alike]

theorem selection_eq_placed (region : α → Region) (items : List α) :
    selection region items
      = (placed region (items.filter fun item => (region item).isShown)).map Prod.fst := by
  have same : ∀ item : α × Nat, Alike (region item.1) ((region ∘ Prod.fst) item) :=
    fun _ => ⟨rfl, rfl⟩
  rw [placed, ← dropOrphans_map same, ← dropEmptyPairs_map same, List.zipIdx_map_fst, selection]

/-- The regions at positions of a pool that has been exported. -/
theorem chosen_sealAt (pool : List Region) (positions which : List Nat) :
    ∃ f : Nat × Region → Nat × Region, chosen (sealAt pool which) positions
        = (chosen pool positions).map f
      ∧ ∀ item, Alike (f item).2 item.2 ∧ (f item).2.render = item.2.render := by
  let rendered := (selection Prod.snd (chosen pool which)).map Prod.fst
  refine ⟨fun item => (item.1, if item.1 ∈ rendered then item.2.markSealed else item.2), ?_, ?_⟩
  · simp only [chosen, sealAt, List.map_filterMap, List.getElem?_mapIdx, Option.map_map]
    rfl
  · intro item
    dsimp only
    split
    · exact ⟨⟨rfl, rfl⟩, rfl⟩
    · exact ⟨⟨rfl, rfl⟩, rfl⟩

/-- The output of any regions of a pool, given by their positions in any order and any number of
times, is that of the regions among them that are kept, in order; the others are hidden, halves of
empty pairs, or orphans. A region is sealed by the export exactly if it is among those kept,
nothing else changes, and a second export gives the same output. -/
theorem htmlAt_law (pool : List Region) (positions : List Nat) :
    ∃ kept : List ((Nat × Region) × Nat),
      Selects Prod.snd ((chosen pool positions).filter fun item => item.2.isShown) kept
        ∧ htmlAt pool positions = kept.flatMap (fun item => item.1.2.render)
        ∧ html ((chosen pool positions).map Prod.snd) = htmlAt pool positions
        ∧ (sealAt pool positions).length = pool.length
        ∧ (∀ position region, pool[position]? = some region →
            (sealAt pool positions)[position]?
              = some (if position ∈ kept.map (fun item => item.1.1) then region.markSealed
                else region))
        ∧ htmlAt (sealAt pool positions) positions = htmlAt pool positions := by
  let visible := (chosen pool positions).filter fun item => item.2.isShown
  have selected : selection Prod.snd (chosen pool positions)
      = (placed Prod.snd visible).map Prod.fst := selection_eq_placed Prod.snd _
  refine ⟨placed Prod.snd visible, selects_placed Prod.snd visible, ?_, ?_, ?_, ?_, ?_⟩
  · rw [htmlAt, selected, List.flatMap_map]
  · have same : ∀ item : Nat × Region, Alike (id item.2) item.2 := fun _ => ⟨rfl, rfl⟩
    rw [html, selection_map same, htmlAt, List.flatMap_map]
  · rw [sealAt, List.length_mapIdx]
  · intro position region found
    rw [sealAt, List.getElem?_mapIdx, found, Option.map_some, selected, List.map_map]
    rfl
  · obtain ⟨f, chosenEq, looks⟩ := chosen_sealAt pool positions positions
    rw [htmlAt, htmlAt, chosenEq, selection_map fun item => (looks item).1, List.flatMap_map]
    simp only [(looks _).2]

end MarkPress.Export
