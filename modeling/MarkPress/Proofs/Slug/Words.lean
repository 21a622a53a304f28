/-
Module: MarkPress.Proofs.Slug.Words
Purpose: A slug is made of the words of its text.
  The words of a text are its longest stretches of letters and numbers. The slug is the words in
  lower case with one hyphen between each two of them. So it has no hyphen at an end and no two in
  a row, and it does not depend on what stands between the words or around them. Of lower-casing
  only `KeepsHyphens` is used.
Main exports:
  Slug.words, Slug.Hyphenated, Slug.KeepsHyphens, Slug.trimHyphens_collapse, Slug.ofText_normal
-/
import MarkPress.Proofs.Slug.Anchor
import MarkPress.Proofs.Text.Ends
import MarkPress.Proofs.Text.Pieces

namespace MarkPress.Slug

/-- The words of a text in order: the longest stretches of letters and numbers. -/
def words (text : Text) : List Text :=
  (text.splitOnP fun c => !isWord c).filter (· ≠ [])

/-- A text whose hyphens stand alone, each between two other characters. -/
structure Hyphenated (text : Text) : Prop where
  starts : text.head? ≠ some '-'
  ends : text.getLast? ≠ some '-'
  single : ¬ ['-', '-'] <:+: text

/-- A change of letters that goes piece by piece between the hyphens, and leaves nothing of a piece
only if the piece is empty. -/
structure KeepsHyphens (change : Text → Text) : Prop where
  hyphen : ∀ front behind, change (front ++ '-' :: behind) = change front ++ '-' :: change behind
  ne_nil : ∀ text, text ≠ [] → change text ≠ []
  absent : ∀ text, '-' ∉ text → '-' ∉ change text

variable {c : Char} {front behind text word : Text} {pieces : List Text}

/-! ### The words of a text -/

/-- Everything about words follows from this equation: they end where a separator stands. -/
theorem words_append (gap : isWord c = false) (front behind : Text) :
    words (front ++ c :: behind) = words front ++ words behind := by
  rw [words, List.splitOnP_append_cons front behind (by simp [gap]), List.filter_append]
  rfl

theorem words_cons_gap (gap : isWord c = false) (rest : Text) : words (c :: rest) = words rest :=
  words_append gap [] rest

theorem words_eq_singleton (some : word ≠ []) (letters : ∀ c ∈ word, isWord c = true) :
    words word = [word] := by
  rw [words, List.splitOnP_eq_singleton fun c member => by simp [letters c member]]
  simp [some]

/-- The words are the letters and numbers of the text, each in its place. -/
theorem flatten_words (text : Text) : (words text).flatten = text.filter isWord := by
  rw [words, List.flatten_filter_ne_nil]
  induction text with
  | nil => rfl
  | cons c rest ih =>
      rw [List.splitOnP_cons_eq_if_modifyHead, List.filter_cons, ← ih]
      cases isWord c with
      | false => simp
      | true =>
          cases pieces : rest.splitOnP fun c => !isWord c with
          | nil => exact absurd pieces (List.splitOnP_ne_nil _ rest)
          | cons piece more => simp

theorem ne_nil_of_mem_words (member : word ∈ words text) : word ≠ [] := by
  simpa using (List.mem_filter.mp member).2

theorem isWord_of_mem_words (member : word ∈ words text) (letter : c ∈ word) : isWord c = true := by
  have kept : c ∈ (words text).flatten := List.mem_flatten.mpr ⟨word, member, letter⟩
  rw [flatten_words] at kept
  exact (List.mem_filter.mp kept).2

/-- A text without letters and numbers has no words, and no other text has none. -/
theorem words_eq_nil_iff : words text = [] ↔ ∀ c ∈ text, isWord c = false := by
  have noLetters : text.filter isWord = [] ↔ ∀ c ∈ text, isWord c = false := by
    simp [List.filter_eq_nil_iff]
  rw [← noLetters, ← flatten_words]
  refine ⟨fun none => by rw [none]; rfl, fun empty => ?_⟩
  rw [List.flatten_eq_nil_iff] at empty
  exact List.eq_nil_iff_forall_not_mem.mpr fun word member =>
    ne_nil_of_mem_words member (empty word member)

theorem not_isWord_hyphen : isWord '-' = false := by decide

theorem hyphen_not_mem_words (member : word ∈ words text) : '-' ∉ word := fun hyphen =>
  absurd (isWord_of_mem_words member hyphen) (by simp [not_isWord_hyphen])

/-! ### The words joined -/

/-- Behind a stretch of letters, the gaps of a text collapse to the hyphens between its words, and
to one more hyphen if it ends in a gap. -/
theorem exists_append_collapseFrom (letters : ∀ c ∈ word, isWord c = true) :
    ∃ gap, (∀ c ∈ gap, (c == '-') = true)
      ∧ word ++ collapseFrom word.isEmpty text = Text.join '-' (words (word ++ text)) ++ gap := by
  induction text generalizing word with
  | nil =>
      refine ⟨[], nofun, ?_⟩
      cases word with
      | nil => rfl
      | cons c rest =>
          have alone := words_eq_singleton (List.cons_ne_nil c rest) letters
          simp only [collapseFrom, List.append_nil, alone, Text.join]
  | cons c rest ih =>
      cases letter : isWord c with
      | true =>
          have longer : ∀ d ∈ word ++ [c], isWord d = true := by
            simpa [or_imp, forall_and, letter] using letters
          have begun : (word ++ [c]).isEmpty = false := by cases word <;> rfl
          simpa [collapseFrom, letter, begun] using ih longer
      | false =>
          obtain ⟨gap, hyphens, after⟩ := @ih [] nofun
          simp only [List.nil_append, List.isEmpty_nil] at after
          cases word with
          | nil =>
              refine ⟨gap, hyphens, ?_⟩
              rw [List.nil_append, List.nil_append, words_cons_gap letter, ← after]
              simp [collapseFrom, letter]
          | cons d more =>
              rw [words_append letter, words_eq_singleton (List.cons_ne_nil d more) letters,
                collapseFrom, if_neg (by simp [letter]), List.isEmpty_cons,
                if_neg Bool.false_ne_true, after]
              cases words rest with
              | nil => exact ⟨'-' :: gap, by simpa using hyphens, rfl⟩
              | cons next others => exact ⟨gap, hyphens, by simp [Text.join]⟩

/-- The hyphen that a gap before the first word leaves goes. -/
theorem dropWhile_collapseFrom (inGap : Bool) (text : Text) :
    (collapseFrom inGap text).dropWhile (· == '-') = collapseFrom true text := by
  induction text generalizing inGap with
  | nil => rfl
  | cons c rest ih =>
      cases letter : isWord c with
      | true =>
          have visible : (c == '-') = false := by
            rw [beq_eq_false_iff_ne]
            rintro rfl
            rw [not_isWord_hyphen] at letter
            cases letter
          simp [collapseFrom, letter, visible]
      | false =>
          cases inGap with
          | true => simpa [collapseFrom, letter] using ih true
          | false => simpa [collapseFrom, letter] using ih true

/-! ### Words with hyphens between them -/

/-- Pieces that can be found again between the hyphens: none is empty, and none has a hyphen. -/
def Separate (pieces : List Text) : Prop := ∀ piece ∈ pieces, piece ≠ [] ∧ '-' ∉ piece

theorem separate_words (text : Text) : Separate (words text) := fun _ member =>
  ⟨ne_nil_of_mem_words member, hyphen_not_mem_words member⟩

theorem Separate.join_eq_nil_iff (separate : Separate pieces) :
    Text.join '-' pieces = [] ↔ pieces = [] := by
  cases pieces with
  | nil => simp [Text.join]
  | cons first more =>
      have some := (separate first List.mem_cons_self).1
      simp [Text.join_cons, some]

/-- No hyphen of a joined text stands at an end or next to another, since it would have an empty
piece beside it. -/
theorem Separate.hyphenated_join (separate : Separate pieces) :
    Hyphenated (Text.join '-' pieces) := by
  by_cases none : pieces = []
  · subst none
    exact ⟨nofun, nofun, by simp [Text.join]⟩
  have again : Text.split '-' (Text.join '-' pieces) = pieces :=
    Text.split_join none fun piece member => (separate piece member).2
  have noEmpty : [] ∉ Text.split '-' (Text.join '-' pieces) := by
    rw [again]
    exact fun member => (separate [] member).1 rfl
  generalize Text.join '-' pieces = joined at noEmpty
  constructor
  · intro starts
    obtain ⟨rest, rfl⟩ := List.head?_eq_some_iff.mp starts
    exact noEmpty (by simp [Text.split])
  · intro ends
    obtain ⟨front, rfl⟩ := List.getLast?_eq_some_iff.mp ends
    exact noEmpty (by simp [Text.split_append, Text.split])
  · rintro ⟨front, behind, rfl⟩
    have cut : front ++ ['-', '-'] ++ behind = front ++ '-' :: '-' :: behind := by simp
    rw [cut] at noEmpty
    exact noEmpty (by simp [Text.split_append, Text.split])

/-- Collapsing and trimming leave the words of a text, with a hyphen between each two of them. -/
theorem trimHyphens_collapse (text : Text) :
    trimHyphens (collapse text) = Text.join '-' (words text) := by
  obtain ⟨gap, hyphens, whole⟩ := @exists_append_collapseFrom text [] nofun
  have trimmed : (collapse text).dropWhile (· == '-') = Text.join '-' (words text) ++ gap := by
    rw [collapse, dropWhile_collapseFrom]
    exact whole
  have stops : ∀ c ∈ (Text.join '-' (words text)).reverse.head?, (c == '-') = false := by
    intro c last
    rw [List.head?_reverse] at last
    rw [beq_eq_false_iff_ne]
    rintro rfl
    exact (separate_words text).hyphenated_join.ends last
  rw [trimHyphens, trimmed, List.reverse_append,
    Text.dropWhile_append (fun c member => hyphens c (List.mem_reverse.mp member)) stops,
    List.reverse_reverse]

/-! ### Lower case -/

/-- A hyphen has no case, so it ends a word for lower-casing too. -/
theorem hyphen_caseless : isModifier '-' = false ∧ isCased '-' = false := by decide

theorem KeepsHyphens.join {change : Text → Text} (keeps : KeepsHyphens change)
    (some : pieces ≠ []) :
    change (Text.join '-' pieces) = Text.join '-' (pieces.map change) := by
  induction pieces using Text.join.induct with
  | case1 => exact absurd rfl some
  | case2 piece => rfl
  | case3 piece more others ih =>
      have nonempty : more ≠ [] := fun empty => others empty
      rw [Text.join, keeps.hyphen, ih nonempty, List.map_cons, Text.join]
      · simpa using nonempty
      · exact others

theorem KeepsHyphens.separate {change : Text → Text} (keeps : KeepsHyphens change)
    (separate : Separate pieces) : Separate (pieces.map change) := by
  intro piece member
  obtain ⟨old, oldMember, rfl⟩ := List.mem_map.mp member
  obtain ⟨some, absent⟩ := separate old oldMember
  exact ⟨keeps.ne_nil old some, keeps.absent old absent⟩

theorem startsCased_append_hyphen (front behind : Text) :
    startsCased (front ++ '-' :: behind) = startsCased front := by
  induction front with
  | nil => simp [startsCased, hyphen_caseless]
  | cons c front ih => rw [List.cons_append, startsCased, startsCased, ih]

/-- What stands before a hyphen and behind it is lowered as if it stood alone. -/
theorem lowercaseAfter_append_hyphen (cased : Bool) (front behind : Text) :
    lowercaseAfter cased (front ++ '-' :: behind)
      = lowercaseAfter cased front ++ '-' :: lowercaseAfter false behind := by
  induction front generalizing cased with
  | nil =>
      have own : lowerChar '-' = ['-'] := by decide
      simp [lowercaseAfter, own, hyphen_caseless]
  | cons c front ih =>
      rw [List.cons_append, lowercaseAfter, lowercaseAfter, ih, startsCased_append_hyphen]
      simp

theorem lowercaseAfter_ne_nil {cased : Bool} (some : text ≠ []) :
    lowercaseAfter cased text ≠ [] := by
  cases text with
  | nil => exact absurd rfl some
  | cons c rest =>
      have lowered : lowerChar c ≠ [] := by
        rw [lowerChar]
        split <;> exact List.cons_ne_nil _ _
      rw [lowercaseAfter]
      split <;> simp [lowered]

theorem keepsHyphens_lowercase : KeepsHyphens lowercase where
  hyphen := lowercaseAfter_append_hyphen false
  ne_nil := fun _ => lowercaseAfter_ne_nil
  absent := fun _ absent member =>
    absent (mem_of_mem_lowercaseAfter (by decide) (by decide) member)

/-! ### Slugs -/

/-- A slug is the words of its text in lower case, with a hyphen between each two of them. -/
theorem ofText_eq_join (text : Text) :
    ofText text = Text.join '-' ((words text).map lowercase) := by
  rw [ofText, trimHyphens_collapse]
  by_cases none : words text = []
  · rw [none]
    rfl
  · exact keepsHyphens_lowercase.join none

/-- Hyphens of a slug stand alone between other characters. A slug is empty if its text has neither
letters nor numbers, and only then. Texts with the same words have the same slug, whatever stands
between the words and around them. -/
theorem ofText_normal (text : Text) :
    Hyphenated (ofText text)
      ∧ (ofText text = [] ↔ ∀ c ∈ text, isWord c = false)
      ∧ ofText text = Text.join '-' ((words text).map lowercase)
      ∧ ∀ other, words other = words text → ofText other = ofText text := by
  have separate := keepsHyphens_lowercase.separate (separate_words text)
  refine ⟨?_, ?_, ofText_eq_join text, fun other same => ?_⟩
  · rw [ofText_eq_join]
    exact separate.hyphenated_join
  · rw [ofText_eq_join, separate.join_eq_nil_iff, List.map_eq_nil_iff, words_eq_nil_iff]
  · rw [ofText_eq_join, ofText_eq_join, same]

/-- Two spellings of one heading, the one with hyphens of its own. -/
theorem ofText_normal_spellings :
    words "-What's  (new)?--".toList = words "What s new".toList
      ∧ ofText "-What's  (new)?--".toList = ofText "What s new".toList := by
  have same : words "-What's  (new)?--".toList = words "What s new".toList := by decide
  exact ⟨same, (ofText_normal "What s new".toList).2.2.2 _ same⟩

end MarkPress.Slug
