/-
Module: MarkPress.Proofs.Html.Anchors
Purpose: The tags of anchors in a text, read from left to right.
  An anchor with attributes counts where it opens and where it closes. Between the two no other
  anchor may open, so the tags of anchors that never nest alternate.
Main exports:
  anchorTags, anchorTags_append, anchorTags_of_free, anchorTags_openTag, anchorTags_closeTag,
  anchorTags_alternate
-/
import MarkPress.Proofs.Html.Marks

namespace MarkPress.Html

/-- The tags of anchors in a text, from left to right: `true` for one that opens an anchor with
attributes, `false` for one that closes an anchor. -/
def anchorTags (text : Text) : List Bool :=
  marks (Text.startsWith "<a ".toList) (Text.startsWith "</a>".toList) text

theorem tokenTest_anchor : TokenTest (Text.startsWith "<a ".toList) :=
  tokenTest_startsWith (show '>' ∉ ['a'] by decide) ' '

theorem tokenTest_anchorEnd : TokenTest (Text.startsWith "</a>".toList) :=
  tokenTest_startsWith (show '>' ∉ "/a".toList by decide) '>'

theorem anchorTags_append {left : Text} (tokenized : Tokenized left) (right : Text) :
    anchorTags (left ++ right) = anchorTags left ++ anchorTags right :=
  marks_append tokenTest_anchor tokenTest_anchorEnd tokenized right

theorem anchorTags_of_free {text : Text} (free : Free [.a] text) : anchorTags text = [] := by
  refine marks_of_free (fun text found => ?_) (fun text found => found) free
  rw [opensAt, Bool.or_eq_true]
  exact .inr found

/-- An attribute that has been given a value is written. -/
theorem Attributes.toText_set_ne_nil (attributes : Attributes) (name value : Text) :
    Attributes.toText (attributes.set name (some value)) ≠ [] := by
  obtain ⟨entries⟩ := attributes
  simp only [Attributes.toText, Dictionary.set]
  induction entries with
  | nil => exact List.cons_ne_nil _ _
  | cons entry rest ih =>
      obtain ⟨key, old⟩ := entry
      rw [Dictionary.insert]
      split
      · exact List.cons_ne_nil _ _
      · split
        · exact List.cons_ne_nil _ _
        · rw [List.flatMap_cons]
          exact List.append_ne_nil_of_right_ne_nil _ ih

/-- Where an attribute is written a space stands behind the name of an anchor. -/
theorem anchorTags_openTag {attributes : Attributes} (known : attributes.Known)
    (filled : attributes.toText ≠ []) : anchorTags (Element.a.openTag attributes) = [true] := by
  obtain ⟨written, writtenEq⟩ := known.toText_eq
  cases written with
  | nil => exact absurd writtenEq filled
  | cons field others =>
      have fields : '<' ∉ attributes.toText := by
        rw [writtenEq, List.mem_flatMap]
        rintro ⟨other, -, member⟩
        exact other.no_bracket.1 member
      have plain : '<' ∉ 'a' :: attributes.toText ++ ['>'] := by simp [fields]
      have here : Text.startsWith "<a ".toList (Element.a.openTag attributes) = true := by
        rw [Element.openTag, writtenEq]
        rfl
      have behind := marks_plain_append tokenTest_anchor tokenTest_anchorEnd plain []
      rw [List.append_nil] at behind
      have openEq : Element.a.openTag attributes = '<' :: ('a' :: attributes.toText ++ ['>']) := rfl
      rw [openEq] at here ⊢
      rw [anchorTags, marks, if_pos here, behind]
      rfl

theorem anchorTags_closeTag : anchorTags Element.a.closeTag = [false] := by decide

/-- Tags of anchors that can be followed from outside of an anchor to the outside alternate, with an
opening one first and a closing one last. -/
theorem anchorTags_alternate {text : Text} (present : anchorTags text ≠ [])
    (followed : (anchorTags text).foldlM crossTag false = some false) :
    (anchorTags text).IsChain (· ≠ ·) ∧ (anchorTags text).head? = some true
      ∧ (anchorTags text).getLast? = some false := by
  have chain := isChain_of_crossTag followed
  have last := getLast_of_crossTag followed
  cases tags : anchorTags text with
  | nil => exact absurd tags present
  | cons first rest =>
      rw [tags] at chain last
      obtain ⟨differs, behind⟩ := List.isChain_cons_cons.mp chain
      rw [List.getLast?_cons_cons] at last
      exact ⟨behind, congrArg some (by simpa using differs), last⟩

end MarkPress.Html
