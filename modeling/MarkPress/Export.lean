/-
Module: MarkPress.Export
Purpose: The output of a sequence of regions.
  Of the regions that appear at all, two neighbours that open and close the same element with
  nothing inside are left out together, and then every closing half that has no opening half
  before it. What is left is rendered in order.
Main exports:
  Export.selection, Export.html, Export.htmlAt, Export.sealAt, Export.sealAll
-/
import MarkPress.Region

namespace MarkPress.Export

open Html

variable {α : Type}

/-- Whether one region opens the element that the next one closes. -/
def isPair (left right : Region) : Bool :=
  left.tag.traits.element.isSome && left.tag.traits.element == right.tag.traits.element
    && left.tag.traits.shape == .opening && right.tag.traits.shape == .closing

/-- Whether two neighbours can be left out together. -/
def isEmptyPair (left right : Region) : Bool :=
  left.isPrunable && right.isPrunable && isPair left right

/-- Leave out neighbours that open and close an element with nothing inside. -/
def dropEmptyPairs (region : α → Region) : List α → List α
  | [] => []
  | [item] => [item]
  | left :: right :: rest =>
      if isEmptyPair (region left) (region right) then dropEmptyPairs region rest
      else left :: dropEmptyPairs region (right :: rest)

/-- Leave out closing halves without an opening half before them, given the elements that are
open so far. -/
def dropOrphans (region : α → Region) (opened : List Element) : List α → List α
  | [] => []
  | item :: rest =>
      match (region item).tag.traits.element, (region item).tag.traits.shape with
      | some element, .closing =>
          if element ∈ opened then item :: dropOrphans region (opened.erase element) rest
          else dropOrphans region opened rest
      | some element, .opening => item :: dropOrphans region (element :: opened) rest
      | _, _ => item :: dropOrphans region opened rest

/-- The items of a sequence whose regions are rendered, in order. -/
def selection (region : α → Region) (items : List α) : List α :=
  dropOrphans region [] (dropEmptyPairs region (items.filter fun item => (region item).isShown))

/-- The output of a sequence of regions. -/
def html (regions : List Region) : Text := (selection id regions).flatMap Region.render

/-- The items of a pool that a list of positions names, with their positions. -/
def chosen (pool : List Region) (positions : List Nat) : List (Nat × Region) :=
  positions.filterMap fun i => pool[i]?.map fun region => (i, region)

/-- The output of the regions of a pool at a list of positions. A position may occur more than
once. -/
def htmlAt (pool : List Region) (positions : List Nat) : Text :=
  (selection Prod.snd (chosen pool positions)).flatMap fun item => item.2.render

/-- A pool after the regions at a list of positions have been exported: those that were rendered are
sealed. -/
def sealAt (pool : List Region) (positions : List Nat) : List Region :=
  let rendered := (selection Prod.snd (chosen pool positions)).map Prod.fst
  pool.mapIdx fun i region => if i ∈ rendered then region.markSealed else region

/-- The regions of a sequence after the whole of it has been exported. -/
def sealAll (regions : List Region) : List Region := sealAt regions (List.range regions.length)

end MarkPress.Export
