/-
Module: MarkPress.Slug.Anchor
Purpose: Names for the headings of one document that are all different.
  A heading is named by its slug. If an earlier heading has that name, a number from 2 on is put
  behind it, the first one that makes a new name.
Main exports:
  Slug.headingBase, Slug.candidate, Slug.freshId
-/
import MarkPress.Slug.Basic

namespace MarkPress.Slug

/-- The name of a heading before other headings are looked at. -/
def headingBase (title : Text) : Text :=
  match ofText title with
  | [] => "heading".toList
  | slug => slug

/-- The nth name to try: the base itself, then the base with the numbers from 2 on. -/
def candidate (base : Text) (n : Nat) : Text :=
  if n ≤ 1 then base else base ++ '-' :: Text.ofNat n

/-- The first candidate that has not been issued. One more candidate than there are issued names is
enough to find it. -/
def freshId (issued : List Text) (base : Text) : Text :=
  (((List.range' 1 (issued.length + 1)).map (candidate base)).find? (· ∉ issued)).getD base

end MarkPress.Slug
