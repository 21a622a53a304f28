/-
Module: MarkPress.Proofs.Document.Metadata
Purpose: What the lines of a header say together, whatever keys they repeat and in whatever order.
  The first line with a fault refuses the header, also if later lines would make up for it.
  Otherwise of each key the last line counts, except that a template without a name does not.
Main exports:
  HeaderLine.Faulty, lastOf?, lastValue?, Metadata.Gathers, Metadata.addLine_told,
  Metadata.addLine_faulty, Metadata.addLines_gathers, Metadata.addLines_faulty
-/
import Mathlib.Data.List.Forall2
import MarkPress.Header.Metadata
import MarkPress.Proofs.Document.Line

namespace MarkPress

open Header

/-- What can be wrong with a line: its form, a date without a value, or a value that is no date. -/
inductive HeaderLine.Faulty (line : HeaderLine) : HeaderFault → Prop where
  | form (formless : ∀ key value, ¬ Tells line.text key value) : Faulty line .invalidLine
  | dateless (told : Tells line.text "date".toList none) : Faulty line .dateWithoutValue
  | undated {value : Text} {fault : HeaderFault}
      (told : Tells line.text "date".toList (some value))
      (refused : Date.parse value = .error fault) : Faulty line fault

def HeaderLine.Sound (line : HeaderLine) : Prop := ∀ fault, ¬ line.Faulty fault

/-- What was said last of a key, in a list of the keys and values that were said. -/
def lastOf? (key : Text) (said : List (Text × Option Text)) : Option (Option Text) :=
  ((said.filter fun pair => pair.1 = key).getLast?).map Prod.snd

/-- The last value that was said of a key: a key without a value does not count. -/
def lastValue? (key : Text) (said : List (Text × Option Text)) : Option Text :=
  (said.filterMap fun pair => if pair.1 = key then pair.2 else none).getLast?

/-- The facts that a list of keys and values gives. -/
structure Metadata.Gathers (facts : Metadata) (said : List (Text × Option Text)) : Prop where
  fields : ∀ key, facts.fields.get? key = lastOf? key said
  title : facts.title = (lastOf? "title".toList said).map fun value => value.getD []
  author : facts.author = (lastOf? "author".toList said).map fun value => value.getD []
  template : facts.template = lastValue? "template".toList said
  undated : lastOf? "date".toList said = none → facts.date = none
  date : ∀ value ∈ lastOf? "date".toList said,
    ∃ v date, value = some v ∧ Date.parse v = .ok date ∧ facts.date = some date
  isStatic : facts.isStatic = true ↔ "static".toList ∈ said.map Prod.fst

section Last

variable (key : Text) (said : List (Text × Option Text)) (pair : Text × Option Text)

theorem lastOf?_concat :
    lastOf? key (said ++ [pair]) = if pair.1 = key then some pair.2 else lastOf? key said := by
  by_cases same : pair.1 = key <;> simp [lastOf?, same]

theorem lastValue?_concat :
    lastValue? key (said ++ [pair])
      = if pair.1 = key then pair.2.or (lastValue? key said) else lastValue? key said := by
  obtain ⟨said', value⟩ := pair
  by_cases same : said' = key
  · cases value <;> simp [lastValue?, same]
  · simp [lastValue?, same]

end Last

namespace Metadata

variable {line : HeaderLine} {key : Text} {value : Option Text} {facts : Metadata}
  {said : List (Text × Option Text)}

/-! ### One line -/

/-- Facts together with a key and a value that are said after them. -/
def add (facts : Metadata) (key : Text) (value : Option Text) : Metadata where
  title := if key = "title".toList then some (value.getD []) else facts.title
  author := if key = "author".toList then some (value.getD []) else facts.author
  date := if key = "date".toList then value.bind fun value => (Date.parse value).toOption
    else facts.date
  template := if key = "template".toList then value.or facts.template else facts.template
  isStatic := if key = "static".toList then true else facts.isStatic
  fields := facts.fields.set key value

/-- What is said is no date, or one that exists. -/
def Dated (key : Text) (value : Option Text) : Prop :=
  key = "date".toList → ∃ v date, value = some v ∧ Date.parse v = .ok date

/-- A line adds what it says, if it is no date or one that exists. -/
theorem addLine_told (told : Tells line.text key value) (dated : Dated key value)
    (facts : Metadata) : addLine line facts = .ok (facts.add key value) := by
  rw [addLine, readLine?_of_tells told]
  dsimp only
  split
  · rename_i isTitle
    simp [add, isTitle]
  · split
    · rename_i isAuthor
      simp [add, isAuthor]
    · split
      · rename_i isTemplate
        simp [add, isTemplate]
      · split
        · rename_i isStatic
          simp [add, isStatic]
        · split
          · rename_i isDate
            obtain ⟨v, date, rfl, parsed⟩ := dated isDate
            simp [add, isDate, Date.parseAt, parsed, Except.toOption]
          · rename_i notTitle notAuthor notTemplate notStatic notDate
            simp only [add, notTitle, notAuthor, notTemplate, notStatic, notDate, if_false]

/-- A line with a fault is refused with its text and its number. -/
theorem addLine_faulty {fault : HeaderFault} (faulty : line.Faulty fault) (facts : Metadata) :
    addLine line facts = .error ⟨fault, line.text, line.number⟩ := by
  cases faulty with
  | form formless =>
      have unread : readLine? line.text = none := by
        rw [Option.eq_none_iff_forall_not_mem]
        rintro ⟨key, value⟩ read
        exact formless key value (readLine?_eq_some_iff.mp read)
      rw [addLine, unread]
  | dateless told => simp [addLine, readLine?_of_tells told]
  | undated told refused => simp [addLine, readLine?_of_tells told, Date.parseAt, refused]

/-- What is wrong with a line of the form of a header line is its date. -/
theorem dated_of_faulty {fault : HeaderFault} (faulty : line.Faulty fault)
    (told : Tells line.text key value) : ∃ value, Tells line.text "date".toList value := by
  cases faulty with
  | form formless => exact absurd told (formless key value)
  | dateless told => exact ⟨none, told⟩
  | undated told refused => exact ⟨some _, told⟩

/-- A line without a fault has the form of a header line, and a date on it exists. -/
theorem told_of_sound (sound : line.Sound) :
    ∃ key value, Tells line.text key value ∧ Dated key value := by
  have formed : ∃ key value, Tells line.text key value := by
    by_contra formless
    exact sound _ (.form fun key value told => formless ⟨key, value, told⟩)
  obtain ⟨key, value, told⟩ := formed
  refine ⟨key, value, told, ?_⟩
  rintro rfl
  cases value with
  | none => exact absurd (.dateless told) (sound _)
  | some v =>
      cases parsed : Date.parse v with
      | error fault => exact absurd (.undated told parsed) (sound fault)
      | ok date => exact ⟨v, date, rfl, parsed⟩

/-- A line that is read and has no fault in its date has none at all. -/
theorem sound_of_told (told : Tells line.text key value) (dated : Dated key value) :
    line.Sound := by
  have unique : ∀ {other value'}, Tells line.text other value' → (other, value') = (key, value) :=
    fun told' => Option.some.inj ((readLine?_of_tells told').symm.trans (readLine?_of_tells told))
  rintro fault (formless | told' | ⟨told', refused⟩)
  · exact formless key value told
  · cases unique told'
    obtain ⟨v, date, isSome, -⟩ := dated rfl
    cases isSome
  · cases unique told'
    obtain ⟨v, date, isSome, parsed⟩ := dated rfl
    cases isSome
    cases parsed.symm.trans refused

/-- What is said after other things is gathered with them. -/
theorem Gathers.add (gathers : facts.Gathers said) (dated : Dated key value) :
    (facts.add key value).Gathers (said ++ [(key, value)]) where
  fields other := by
    simp only [Metadata.add, Dictionary.get?_set, lastOf?_concat, gathers.fields]
  title := by
    simp only [Metadata.add, lastOf?_concat, gathers.title]
    split <;> rfl
  author := by
    simp only [Metadata.add, lastOf?_concat, gathers.author]
    split <;> rfl
  template := by
    simp only [Metadata.add, lastValue?_concat, gathers.template]
  undated := by
    simp only [Metadata.add, lastOf?_concat]
    split
    · nofun
    · exact gathers.undated
  date := by
    simp only [Metadata.add, lastOf?_concat]
    split
    · rename_i isDate
      obtain ⟨v, date, rfl, parsed⟩ := dated isDate
      rintro value ⟨⟩
      exact ⟨v, date, rfl, parsed, by simp [parsed, Except.toOption]⟩
    · exact gathers.date
  isStatic := by
    simp only [Metadata.add, List.map_append, List.mem_append, ← gathers.isStatic]
    by_cases isStatic : key = "static".toList
    · simp [isStatic]
    · simp only [isStatic, if_false, List.map_cons, List.map_nil, List.mem_singleton, eq_comm,
        or_false]

theorem gathers_nil : Gathers {} [] where
  fields _ := rfl
  title := rfl
  author := rfl
  template := rfl
  undated _ := rfl
  date := nofun
  isStatic := by simp

/-! ### All lines -/

variable {lines : List HeaderLine} {error : HeaderError}

/-- Lines without a fault are all gathered. -/
theorem addLines_gathers (sound : ∀ line ∈ lines, line.Sound) (gathers : facts.Gathers said) :
    ∃ facts' later, addLines lines facts = .ok facts'
      ∧ List.Forall₂ (fun line pair => Tells line.text pair.1 pair.2) lines later
      ∧ facts'.Gathers (said ++ later) := by
  induction lines generalizing facts said with
  | nil => exact ⟨facts, [], rfl, .nil, by rwa [List.append_nil]⟩
  | cons line rest ih =>
      obtain ⟨key, value, told, dated⟩ := told_of_sound (sound line List.mem_cons_self)
      obtain ⟨facts', later, added, toldLater, gathers'⟩ :=
        ih (fun other member => sound other (.tail _ member)) (gathers.add dated)
      refine ⟨facts', (key, value) :: later, ?_, .cons told toldLater, ?_⟩
      · rw [addLines, addLine_told told dated]
        exact added
      · rwa [List.append_assoc] at gathers'

/-- The first line with a fault refuses a header, and is named with its number. -/
theorem addLines_faulty {before behind : List HeaderLine} {fault : HeaderFault}
    (sound : ∀ line ∈ before, line.Sound) (faulty : line.Faulty fault) (facts : Metadata) :
    addLines (before ++ line :: behind) facts = .error ⟨fault, line.text, line.number⟩ := by
  induction before generalizing facts with
  | nil => rw [List.nil_append, addLines, addLine_faulty faulty]
  | cons first before ih =>
      obtain ⟨key, value, told, dated⟩ := told_of_sound (sound first List.mem_cons_self)
      rw [List.cons_append, addLines, addLine_told told dated]
      exact ih (fun other member => sound other (.tail _ member)) _

/-- Where there are lines with a fault, one of them is the first. -/
theorem exists_first_faulty (some : ∃ line ∈ lines, ∃ fault, line.Faulty fault) :
    ∃ before line behind fault, lines = before ++ line :: behind
      ∧ (∀ other ∈ before, other.Sound) ∧ line.Faulty fault := by
  classical
  have found : (lines.find? fun line => ∃ fault, line.Faulty fault).isSome = true :=
    List.find?_isSome.mpr (by simpa using some)
  obtain ⟨line, first⟩ := Option.isSome_iff_exists.mp found
  obtain ⟨faulty, before, behind, whole, sound⟩ := List.find?_eq_some_iff_append.mp first
  obtain ⟨fault, faulty⟩ := of_decide_eq_true faulty
  refine ⟨before, line, behind, fault, whole, fun other member => ?_, faulty⟩
  simpa [HeaderLine.Sound] using sound other member

/-- A header is refused for a line of it that has the fault. -/
theorem faulty_of_ofLines (refused : ofLines lines = .error error) :
    ∃ line ∈ lines, line.Faulty error.fault ∧ error.line = line.text
      ∧ error.lineNumber = line.number := by
  by_cases some : ∃ line ∈ lines, ∃ fault, line.Faulty fault
  · obtain ⟨before, line, behind, fault, rfl, sound, faulty⟩ := exists_first_faulty some
    have named : ofLines (before ++ line :: behind) = _ := addLines_faulty sound faulty {}
    cases named.symm.trans refused
    exact ⟨line, by simp, faulty, rfl, rfl⟩
  · have sound : ∀ line ∈ lines, line.Sound := fun line member fault faulty =>
      some ⟨line, member, fault, faulty⟩
    obtain ⟨facts, said, read, -⟩ := addLines_gathers sound gathers_nil
    cases read.symm.trans refused

end Metadata

/-- The form of a line is not what is wrong with a date. -/
theorem Date.parse_ne_invalidLine (value : Text) : Date.parse value ≠ .error .invalidLine := by
  rw [Date.parse]
  split
  · simp
  · split
    · simp
    · split <;> simp

end MarkPress
