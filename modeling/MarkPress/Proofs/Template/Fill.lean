/-
Module: MarkPress.Proofs.Template.Fill
Purpose: Where the placeholders of a template are, and what stands in their places in a page.
  An opening brace stands nowhere in a placeholder but at its beginning, so two placeholders never
  overlap, and reading a template once from left to right meets every one of them. What is put in is
  not read again.
Main exports:
  Template.IsVariableName, Template.IsPlaceholder, Template.Occurs,
  Template.placeholder?_eq_some_iff, Template.Occurs.apart, Template.induct,
  Template.flatMap_written, Template.occurs_iff, Template.Shows, Template.fill_verbatim
-/
import Mathlib.Data.List.Forall2
import MarkPress.Proofs.Template.Cache
import MarkPress.Proofs.Text.Ends
import MarkPress.Proofs.Text.Trim

namespace MarkPress.Template

/-- The name of a variable: a name of a template that begins with a letter. -/
def IsVariableName (name : Text) : Prop :=
  IsTemplateName name ∧ ∃ c ∈ name.head?, ('A' ≤ c ∧ c ≤ 'Z') ∨ ('a' ≤ c ∧ c ≤ 'z')

/-- A placeholder as it is written, and the name in it: between two pairs of braces a name, with
white space around it or not. -/
inductive IsPlaceholder : Text → Text → Prop where
  | braced {left name right : Text} (blankL : ∀ c ∈ left, Text.isBlank c = true)
      (isName : IsVariableName name) (blankR : ∀ c ∈ right, Text.isBlank c = true) :
      IsPlaceholder ('\x7b' :: '\x7b' :: (left ++ (name ++ (right ++ ['\x7d', '\x7d'])))) name

/-- A placeholder stands in a template behind one text and in front of another. -/
structure Occurs (template front written name behind : Text) : Prop where
  isPlaceholder : IsPlaceholder written name
  whole : template = front ++ (written ++ behind)

/-- A piece of a template as it is written there. -/
def Piece.written : Piece → Text
  | .char c => [c]
  | .placeholder written _ => written

variable {template text front written name behind rest : Text} {c : Char}

/-! ### Characters -/

theorem isAlpha_iff : c.isAlpha = true ↔ ('A' ≤ c ∧ c ≤ 'Z') ∨ ('a' ≤ c ∧ c ≤ 'z') := by
  have ranges : c.isAlpha =
      (decide ('A' ≤ c ∧ c ≤ 'Z') || (decide ('a' ≤ c) && decide (c ≤ 'z'))) := rfl
  simp only [ranges, Bool.or_eq_true, Bool.and_eq_true, decide_eq_true_eq]

theorem isBlank_of_isNameChar (char : isNameChar c = true) : Text.isBlank c = false := by
  rw [isNameChar_iff] at char
  have range : (65 ≤ c.toNat ∧ c.toNat ≤ 90) ∨ (97 ≤ c.toNat ∧ c.toNat ≤ 122)
      ∨ (48 ≤ c.toNat ∧ c.toNat ≤ 57) ∨ c.toNat = 95 ∨ c.toNat = 45 := by
    rcases char with upper | lower | digit | rfl | rfl
    · exact .inl upper
    · exact .inr (.inl lower)
    · exact .inr (.inr (.inl digit))
    · decide
    · decide
  simp only [Text.isBlank, Bool.or_eq_false_iff, Bool.and_eq_false_iff, decide_eq_false_iff_not,
    beq_eq_false_iff_ne]
  omega

/-! ### Reading one placeholder -/

theorem name?_eq_some_iff :
    name? text = some (name, behind) ↔
      IsVariableName name ∧ (∀ c ∈ behind.head?, isNameChar c = false) ∧ text = name ++ behind := by
  constructor
  · intro read
    have whole := List.takeWhile_append_dropWhile (p := isNameChar) (l := text)
    have chars : ∀ c ∈ text.takeWhile isNameChar, isNameChar c = true := fun c =>
      List.mem_takeWhile_imp
    have stops := List.head?_dropWhile_not isNameChar text
    rw [name?] at read
    generalize text.takeWhile isNameChar = found at read whole chars
    generalize text.dropWhile isNameChar = rest at read whole stops
    cases found with
    | nil => cases read
    | cons first more =>
        obtain ⟨letter, same⟩ := Option.ite_none_right_eq_some.mp read
        cases same
        have named : IsTemplateName (first :: more) :=
          ⟨List.cons_ne_nil first more, fun c member => isNameChar_iff.mp (chars c member)⟩
        refine ⟨⟨named, first, rfl, isAlpha_iff.mp letter⟩, fun c head => ?_, whole.symm⟩
        rw [Option.mem_def.mp head] at stops
        simpa using stops
  · rintro ⟨⟨⟨-, chars⟩, first, head, letter⟩, stops, rfl⟩
    have chars' : ∀ c ∈ name, isNameChar c = true := fun c member =>
      isNameChar_iff.mpr (chars c member)
    rw [name?, Text.takeWhile_append chars' stops, Text.dropWhile_append chars' stops]
    obtain ⟨more, rfl⟩ := List.head?_eq_some_iff.mp head
    exact if_pos (isAlpha_iff.mpr letter)

/-- White space ends where a name begins. -/
theorem trimStart_name {gap : Text} (blank : ∀ c ∈ gap, Text.isBlank c = true)
    (isName : IsVariableName name) (behind : Text) :
    (gap ++ (name ++ behind)).trimStart = name ++ behind := by
  obtain ⟨⟨-, chars⟩, first, head, -⟩ := isName
  obtain ⟨more, rfl⟩ := List.head?_eq_some_iff.mp head
  have visible := isBlank_of_isNameChar (isNameChar_iff.mpr (chars first List.mem_cons_self))
  refine Text.dropWhile_append blank fun c begins => ?_
  rwa [← Option.some.inj begins]

/-- A name ends where white space or a brace stands. -/
theorem not_isNameChar_closing {gap : Text} (blank : ∀ c ∈ gap, Text.isBlank c = true)
    (behind : Text) : ∀ c ∈ (gap ++ '\x7d' :: behind).head?, isNameChar c = false := by
  rintro c head
  cases gap with
  | nil =>
      obtain rfl := Option.some.inj head
      decide
  | cons d gap =>
      obtain rfl := Option.some.inj head
      cases char : isNameChar d with
      | false => rfl
      | true =>
          have visible := isBlank_of_isNameChar char
          rw [blank d List.mem_cons_self] at visible
          cases visible

/-- What is read as a placeholder is one, and every placeholder is read. -/
theorem placeholder?_eq_some_iff :
    placeholder? text = some (name, behind) ↔
      ∃ written, IsPlaceholder written name ∧ text = written ++ behind := by
  simp only [placeholder?, Option.bind_eq_bind, Option.bind_eq_some_iff, Option.pure_def,
    Text.after?_eq_some_iff]
  constructor
  · rintro ⟨inside, rfl, ⟨found, closing⟩, read, later, ends, same⟩
    cases same
    obtain ⟨isName, -, begins⟩ := name?_eq_some_iff.mp read
    obtain ⟨left, blankL, wholeL⟩ := Text.exists_append_trimStart inside
    obtain ⟨right, blankR, wholeR⟩ := Text.exists_append_trimStart closing
    refine ⟨_, .braced blankL isName blankR, ?_⟩
    dsimp only at ends
    rw [wholeL, begins, wholeR, ends]
    simp
  · rintro ⟨_, @⟨left, name, right, blankL, isName, blankR⟩, rfl⟩
    refine ⟨left ++ (name ++ (right ++ '\x7d' :: '\x7d' :: behind)), by simp,
      (name, right ++ '\x7d' :: '\x7d' :: behind), ?_, behind, ?_, rfl⟩
    · rw [trimStart_name blankL isName]
      exact name?_eq_some_iff.mpr ⟨isName, not_isNameChar_closing blankR _, rfl⟩
    · refine Text.dropWhile_append blankR fun c head => ?_
      obtain rfl := Option.some.inj head
      rfl

/-! ### Where placeholders are -/

/-- Behind its first two characters no brace opens in a placeholder. -/
theorem IsPlaceholder.inside (isPlaceholder : IsPlaceholder written name) :
    ∃ c inside, written = '\x7b' :: '\x7b' :: c :: inside ∧ '\x7b' ∉ c :: inside := by
  obtain @⟨left, name, right, blankL, ⟨⟨-, chars⟩, -⟩, blankR⟩ := isPlaceholder
  have free : '\x7b' ∉ left ++ (name ++ (right ++ ['\x7d', '\x7d'])) := by
    simp only [List.mem_append, not_or]
    refine ⟨fun member => ?_, fun member => ?_, fun member => ?_, by decide⟩
    · cases blankL _ member
    · exact absurd (chars _ member) (by decide)
    · cases blankR _ member
  obtain ⟨c, inside, whole⟩ : ∃ c inside,
      left ++ (name ++ (right ++ ['\x7d', '\x7d'])) = c :: inside :=
    List.exists_cons_of_ne_nil (by simp)
  rw [whole] at free ⊢
  exact ⟨c, inside, rfl, free⟩

/-- Two opening braces stand at the beginning of a placeholder. -/
theorem Occurs.brace (occurs : Occurs template front written name behind) {i : ℕ}
    (first : front.length ≤ i) (last : i ≤ front.length + 1) : template[i]? = some '\x7b' := by
  obtain ⟨c, inside, rfl, -⟩ := occurs.isPlaceholder.inside
  obtain rfl | rfl : i = front.length ∨ i = front.length + 1 := by omega
  · simp [occurs.whole]
  · simp [occurs.whole]

/-- No other one stands in it. -/
theorem Occurs.noBrace (occurs : Occurs template front written name behind) {i : ℕ}
    (first : front.length + 2 ≤ i) (last : i < front.length + written.length) :
    template[i]? ≠ some '\x7b' := by
  obtain ⟨c, inside, rfl, free⟩ := occurs.isPlaceholder.inside
  obtain ⟨k, rfl⟩ := Nat.exists_eq_add_of_le first
  have inside_k : k < (c :: inside).length := by
    simp only [List.length_cons] at last ⊢
    omega
  have split : template = (front ++ ['\x7b', '\x7b']) ++ (c :: inside ++ behind) := by
    simp [occurs.whole]
  have long : front.length + 2 + k = (front ++ ['\x7b', '\x7b']).length + k := by simp
  rw [split, long, List.getElem?_append_right (Nat.le_add_right _ _), Nat.add_sub_cancel_left,
    List.getElem?_append_left inside_k]
  exact fun brace => free (List.mem_of_getElem? brace)

/-- A placeholder that begins behind the beginning of another one begins behind its end. -/
theorem Occurs.apart {front' written' name' behind' : Text}
    (first : Occurs template front written name behind)
    (later : Occurs template front' written' name' behind')
    (order : front.length < front'.length) :
    front.length + written.length ≤ front'.length := by
  by_contra overlap
  obtain ⟨c, inside, whole, -⟩ := first.isPlaceholder.inside
  have long : 3 ≤ written.length := by simp [whole]
  -- where both overlap, behind the braces of the first one, a brace of the later one stands
  have brace := later.brace (i := max front'.length (front.length + 2)) (by omega) (by omega)
  exact first.noBrace (by omega) (by omega) brace

/-- Placeholders that begin at one place are the same. -/
theorem Occurs.unique {written' name' behind' : Text}
    (first : Occurs template front written name behind)
    (later : Occurs template front written' name' behind') :
    written = written' ∧ name = name' ∧ behind = behind' := by
  have rest : written ++ behind = written' ++ behind' :=
    List.append_cancel_left (first.whole.symm.trans later.whole)
  have read : placeholder? (written ++ behind) = some (name, behind) :=
    placeholder?_eq_some_iff.mpr ⟨written, first.isPlaceholder, rfl⟩
  have read' := placeholder?_eq_some_iff.mpr ⟨written', later.isPlaceholder, rest⟩
  obtain ⟨rfl, rfl⟩ := Prod.mk.inj (Option.some.inj (read.symm.trans read'))
  exact ⟨List.append_cancel_right rest, rfl, rfl⟩

/-! ### Reading a template -/

theorem piecesFrom_eq (n : ℕ) (text : Text) : piecesFrom n text = pieces (text.drop n) := by
  induction n generalizing text with
  | zero => rfl
  | succ n ih =>
      cases text with
      | nil => rfl
      | cons c rest => rw [piecesFrom, ih, List.drop_succ_cons]

theorem pieces_char (other : placeholder? (c :: rest) = none) :
    pieces (c :: rest) = .char c :: pieces rest := by
  rw [pieces, piecesFrom, other]
  rfl

theorem pieces_placeholder (isPlaceholder : IsPlaceholder written name) (rest : Text) :
    pieces (written ++ rest) = .placeholder written name :: pieces rest := by
  have read : placeholder? (written ++ rest) = some (name, rest) :=
    placeholder?_eq_some_iff.mpr ⟨written, isPlaceholder, rfl⟩
  obtain ⟨d, inside, whole, -⟩ := isPlaceholder.inside
  rw [whole, List.cons_append] at read ⊢
  have length : (('\x7b' :: d :: inside) ++ rest).length - rest.length
      = ('\x7b' :: d :: inside).length := by
    rw [List.length_append, Nat.add_sub_cancel]
  rw [pieces, piecesFrom, read]
  dsimp only
  rw [length, piecesFrom_eq, List.take_left, List.drop_left]

/-- Induction along a template: over its placeholders, and over the characters where none begins. -/
theorem induct {motive : Text → Prop} (nil : motive [])
    (char : ∀ c rest, placeholder? (c :: rest) = none → motive rest → motive (c :: rest))
    (placeholder : ∀ written name rest, IsPlaceholder written name → motive rest →
      motive (written ++ rest)) (template : Text) : motive template := by
  induction long : template.length using Nat.strong_induction_on generalizing template with
  | _ n ih =>
      subst long
      cases template with
      | nil => exact nil
      | cons c rest =>
          cases read : placeholder? (c :: rest) with
          | none => exact char c rest read (ih rest.length (by simp) rest rfl)
          | some found =>
              obtain ⟨name, behind⟩ := found
              obtain ⟨written, isPlaceholder, whole⟩ := placeholder?_eq_some_iff.mp read
              rw [whole]
              refine placeholder written name behind isPlaceholder (ih _ ?_ behind rfl)
              obtain ⟨d, inside, rfl, -⟩ := isPlaceholder.inside
              simp only [whole, List.length_append, List.length_cons]
              omega

theorem flatMap_written (template : Text) : (pieces template).flatMap Piece.written = template := by
  induction template using induct with
  | nil => rfl
  | char c rest other ih =>
      rw [pieces_char other, List.flatMap_cons, ih]
      rfl
  | placeholder written name rest isPlaceholder ih =>
      rw [pieces_placeholder isPlaceholder, List.flatMap_cons, ih]
      rfl

theorem isPlaceholder_of_mem (member : .placeholder written name ∈ pieces template) :
    IsPlaceholder written name := by
  induction template using induct with
  | nil => cases member
  | char c rest other ih =>
      rw [pieces_char other, List.mem_cons] at member
      exact ih (member.resolve_left nofun)
  | placeholder written' name' rest isPlaceholder ih =>
      rw [pieces_placeholder isPlaceholder, List.mem_cons] at member
      rcases member with same | later
      · cases same
        exact isPlaceholder
      · exact ih later

/-- The placeholders among the pieces of a template are those that stand in it, in their places. -/
theorem occurs_iff :
    Occurs template front written name behind ↔
      ∃ before after, pieces template = before ++ .placeholder written name :: after
        ∧ before.flatMap Piece.written = front ∧ after.flatMap Piece.written = behind := by
  constructor
  · intro occurs
    induction template using induct generalizing front with
    | nil =>
        obtain ⟨d, inside, rfl, -⟩ := occurs.isPlaceholder.inside
        have whole := occurs.whole
        simp at whole
    | char c rest other ih =>
        cases front with
        | nil =>
            have read := placeholder?_eq_some_iff.mpr ⟨written, occurs.isPlaceholder, occurs.whole⟩
            cases other.symm.trans read
        | cons d front =>
            obtain ⟨rfl, whole⟩ := List.cons.inj occurs.whole
            obtain ⟨before, after, cut, rfl, ends⟩ := ih ⟨occurs.isPlaceholder, whole⟩
            exact ⟨.char c :: before, after, by rw [pieces_char other, cut]; rfl, rfl, ends⟩
    | placeholder first name' rest isPlaceholder ih =>
        have here : Occurs (first ++ rest) [] first name' rest := ⟨isPlaceholder, rfl⟩
        cases front with
        | nil =>
            obtain ⟨rfl, rfl, rfl⟩ := here.unique occurs
            exact ⟨[], pieces rest, pieces_placeholder isPlaceholder rest, rfl,
              flatMap_written rest⟩
        | cons d front =>
            have long := here.apart occurs (Nat.zero_lt_succ _)
            obtain ⟨gap, whole⟩ := List.prefix_of_prefix_length_le
              (List.prefix_append first rest) ⟨_, occurs.whole.symm⟩ (by simpa using long)
            have later := occurs.whole
            rw [← whole, List.append_assoc, List.append_cancel_left_eq] at later
            obtain ⟨before, after, cut, begins, ends⟩ := ih ⟨occurs.isPlaceholder, later⟩
            refine ⟨.placeholder first name' :: before, after, ?_, ?_, ends⟩
            · rw [pieces_placeholder isPlaceholder, cut]
              rfl
            · rw [List.flatMap_cons, begins, ← whole]
              rfl
  · rintro ⟨before, after, cut, rfl, rfl⟩
    have member : .placeholder written name ∈ pieces template := by simp [cut]
    refine ⟨isPlaceholder_of_mem member, ?_⟩
    rw [← flatMap_written template, cut, List.flatMap_append, List.flatMap_cons]
    rfl

/-! ### Filling a template -/

/-- What stands in a page for a piece of its template: a character for itself, and for a placeholder
the value stored under its name, unchanged. Without one it is what the name means in every table,
and nothing if it means nothing. -/
inductive Shows (values : Variables) : Piece → Text → Prop where
  | char (c : Char) : Shows values (.char c) [c]
  | stored {written name value : Text} (found : values.get? name = some value) :
      Shows values (.placeholder written name) value
  | inherited {written name value : Text} (absent : values.get? name = none)
      (means : Inherited.text? "Object".toList name = some value) :
      Shows values (.placeholder written name) value
  | unknown {written name : Text} (absent : values.get? name = none)
      (meaningless : name ≠ "constructor".toList ∧ name ∉ Inherited.functionNames) :
      Shows values (.placeholder written name) []

theorem meaningless_of_text? {maker name : Text} (unknown : Inherited.text? maker name = none) :
    name ≠ "constructor".toList ∧ name ∉ Inherited.functionNames := by
  rw [Inherited.text?] at unknown
  split at unknown
  · cases unknown
  · rename_i other
    split at unknown
    · cases unknown
    · rename_i none
      exact ⟨other, by simpa using none⟩

theorem shows_fillPiece (values : Variables) (piece : Piece) :
    Shows values piece (fillPiece values piece) := by
  cases piece with
  | char c => exact .char c
  | placeholder written name =>
      rw [fillPiece, value]
      cases found : values.get? name with
      | some text => exact .stored found
      | none =>
          dsimp only
          cases means : Inherited.text? "Object".toList name with
          | some text => exact .inherited found means
          | none => exact .unknown found (meaningless_of_text? means)

/-- Placeholders of a template are the same or apart. A page is its template piece by piece, where
the pieces are the placeholders that stand in the template, each in its place, and every other
character for itself. -/
theorem fill_verbatim (template : Text) (values : Variables) :
    (∀ front written name behind front' written' name' behind',
      Occurs template front written name behind → Occurs template front' written' name' behind' →
        (front = front' ∧ written = written' ∧ name = name')
          ∨ front.length + written.length ≤ front'.length
          ∨ front'.length + written'.length ≤ front.length)
    ∧ ∃ pieces texts, pieces.flatMap Piece.written = template
      ∧ (∀ front written name behind, Occurs template front written name behind ↔
        ∃ before after, pieces = before ++ .placeholder written name :: after
          ∧ before.flatMap Piece.written = front ∧ after.flatMap Piece.written = behind)
      ∧ List.Forall₂ (Shows values) pieces texts
      ∧ fill template values = texts.flatten := by
  constructor
  · intro front written name behind front' written' name' behind' first later
    rcases Nat.lt_trichotomy front.length front'.length with before | level | after
    · exact .inr (.inl (first.apart later before))
    · have same : front = front' :=
        (List.append_inj (first.whole.symm.trans later.whole) level).1
      subst same
      obtain ⟨sameText, sameName, -⟩ := first.unique later
      exact .inl ⟨rfl, sameText, sameName⟩
    · exact .inr (.inr (later.apart first after))
  · refine ⟨pieces template, (pieces template).map (fillPiece values), flatMap_written template,
      fun _ _ _ _ => occurs_iff, ?_, List.flatMap_def⟩
    rw [List.forall₂_map_right_iff, List.forall₂_same]
    exact fun piece _ => shows_fillPiece values piece

/-- Three braces, of which the first stays, a value that looks like a placeholder itself, a name
that is not known, and braces that are not closed. -/
theorem fill_verbatim_braces :
    let template := "\x7b\x7b\x7ba\t\x7d\x7d\x7b\x7bb\x7d\x7d\x7d\x7b\x7ba".toList
    let values : Variables := Dictionary.empty.set ['a'] "\x7b\x7bb\x7d\x7d$&".toList
    let first := "\x7b\x7ba\t\x7d\x7d".toList
    let later := "\x7b\x7bb\x7d\x7d".toList
    Occurs template ['\x7b'] first ['a'] "\x7b\x7bb\x7d\x7d\x7d\x7b\x7ba".toList
      ∧ Occurs template ('\x7b' :: first) later ['b'] "\x7d\x7b\x7ba".toList
      ∧ 1 + first.length ≤ ('\x7b' :: first).length
      ∧ (∃ pieces texts, List.Forall₂ (Shows values) pieces texts
        ∧ .placeholder first ['a'] ∈ pieces ∧ .placeholder later ['b'] ∈ pieces
        ∧ fill template values = texts.flatten)
      ∧ fill template values = "\x7b\x7b\x7bb\x7d\x7d$&\x7d\x7b\x7ba".toList := by
  intro template values first later
  obtain ⟨apart, pieces, texts, -, places, shown, filled⟩ := fill_verbatim template values
  have isName (c : Char) (letter : ('A' ≤ c ∧ c ≤ 'Z') ∨ ('a' ≤ c ∧ c ≤ 'z')) :
      IsVariableName [c] := by
    refine ⟨⟨List.cons_ne_nil _ _, fun d member => ?_⟩, c, rfl, letter⟩
    rw [List.mem_singleton.mp member]
    exact letter.imp_right .inl
  have occursA : Occurs template ['\x7b'] first ['a'] "\x7b\x7bb\x7d\x7d\x7d\x7b\x7ba".toList :=
    ⟨@IsPlaceholder.braced [] ['a'] ['\t'] nofun (isName 'a' (by decide))
      (List.forall_mem_singleton.mpr rfl), rfl⟩
  have occursB : Occurs template ('\x7b' :: first) later ['b'] "\x7d\x7b\x7ba".toList :=
    ⟨@IsPlaceholder.braced [] ['b'] [] nofun (isName 'b' (by decide)) nofun, rfl⟩
  have pieceA : .placeholder first ['a'] ∈ pieces := by
    obtain ⟨before, after, cut, -⟩ := (places _ _ _ _).mp occursA
    simp [cut]
  have pieceB : .placeholder later ['b'] ∈ pieces := by
    obtain ⟨before, after, cut, -⟩ := (places _ _ _ _).mp occursB
    simp [cut]
  refine ⟨occursA, occursB, ?_, ⟨pieces, texts, shown, pieceA, pieceB, filled⟩, by decide⟩
  rcases apart _ _ _ _ _ _ _ _ occursA occursB with same | before | after
  · exact absurd same.1 (by decide)
  · exact before
  · exact absurd after (by decide)

end MarkPress.Template
