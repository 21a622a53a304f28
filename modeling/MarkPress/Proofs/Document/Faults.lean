/-
Module: MarkPress.Proofs.Document.Faults
Purpose: Which headers are refused, what the others say, and where the fault of a document is.
  Only lines of the form of a header line come to a header, so what is wrong with a document is one
  of its dates, and the error names the line of the text that the date stands on.
Main exports:
  Document.located_of_compile, Metadata.ofLines_law
-/
import MarkPress.Document
import MarkPress.Proofs.Document.Split

namespace MarkPress

open Header

/-- The error of a document names one of its lines, and the number of it: a line with a date. -/
theorem Document.located_of_compile {text : Text} {error : HeaderError}
    (refused : compile text = .error (.header error)) :
    ∃ (index : Nat) (source : Text) (value : Option Text),
      text.normalizeBreaks.lines[index]? = some source ∧ error.lineNumber = index + 1
        ∧ error.line = source.trimEnd ∧ Tells error.line "date".toList value := by
  have refused' : Metadata.ofLines (split text).header = .error error := by
    rw [compile] at refused
    cases read : Metadata.ofLines (split text).header with
    | error other =>
        rw [read] at refused
        cases refused
        rfl
    | ok facts =>
        rw [read] at refused
        dsimp only at refused
        cases body : render (split text).body <;> simp [body] at refused
  obtain ⟨line, member, faulty, lineEq, numberEq⟩ := Metadata.faulty_of_ofLines refused'
  obtain ⟨index, source, found, number, trimmed, key, value, told⟩ := mem_split_header member
  obtain ⟨value, dated⟩ := Metadata.dated_of_faulty faulty told
  exact ⟨index, source, value, found, numberEq.trans number, lineEq.trans trimmed, lineEq ▸ dated⟩

/-- Header lines are refused just if one of them has a fault, and the error names the first that
does. Otherwise they say, each what stands on it, the facts that are gathered from them in order. An
error of a document names the line of its text that a date stands on. -/
theorem Metadata.ofLines_law :
    (∀ lines : List HeaderLine,
      ((∃ error, ofLines lines = .error error) ↔ ∃ line ∈ lines, ∃ fault, line.Faulty fault)
      ∧ (∀ before line behind fault, lines = before ++ line :: behind →
        (∀ other ∈ before, other.Sound) → line.Faulty fault →
          ofLines lines = .error ⟨fault, line.text, line.number⟩)
      ∧ ((∀ line ∈ lines, line.Sound) → ∃ facts said, ofLines lines = .ok facts
        ∧ List.Forall₂ (fun line pair => Tells line.text pair.1 pair.2) lines said
        ∧ facts.Gathers said))
    ∧ ∀ text error, Document.compile text = .error (.header error) →
      ∃ (index : Nat) (source : Text) (value : Option Text),
        text.normalizeBreaks.lines[index]? = some source ∧ error.lineNumber = index + 1
          ∧ error.line = source.trimEnd ∧ Tells error.line "date".toList value := by
  refine ⟨fun lines => ⟨⟨?_, ?_⟩, ?_, ?_⟩, fun text error => Document.located_of_compile⟩
  · rintro ⟨error, refused⟩
    obtain ⟨line, member, faulty, -⟩ := faulty_of_ofLines refused
    exact ⟨line, member, _, faulty⟩
  · intro some
    obtain ⟨before, line, behind, fault, rfl, sound, faulty⟩ := exists_first_faulty some
    exact ⟨_, addLines_faulty sound faulty {}⟩
  · rintro before line behind fault rfl sound faulty
    exact addLines_faulty sound faulty {}
  · intro sound
    exact addLines_gathers sound gathers_nil

/-- A date that does not exist, with a good one behind it; a title and a name of a template that are
not repeated with their key; and a document whose date has no value. -/
theorem Metadata.ofLines_law_repeated :
    Metadata.ofLines [⟨"a b".toList, 2⟩, ⟨"date 2023-2-29".toList, 5⟩, ⟨"date 2024-2-29".toList, 7⟩]
        = .error ⟨.dayOutOfRange, "date 2023-2-29".toList, 5⟩
      ∧ (∃ facts said, Metadata.ofLines [⟨"title A".toList, 1⟩, ⟨"template t".toList, 2⟩,
          ⟨"template \t".toList, 3⟩, ⟨"title".toList, 4⟩] = .ok facts
        ∧ facts.Gathers said ∧ facts.title = some [] ∧ facts.template = some "t".toList)
      ∧ Document.compile "title x\r\n\rdate \n---\r".toList
        = .error (.header ⟨.dateWithoutValue, "date".toList, 3⟩)
      ∧ ∃ (index : Nat) (source : Text) (value : Option Text),
        (Text.normalizeBreaks "title x\r\n\rdate \n---\r".toList).lines[index]? = some source
          ∧ (3 : Int) = index + 1 ∧ "date".toList = source.trimEnd
          ∧ Tells "date".toList "date".toList value := by
  have sound : ∀ {text key value}, readLine? text = some (key, value) → key ≠ "date".toList →
      ∀ number, HeaderLine.Sound ⟨text, number⟩ := fun read other number =>
    sound_of_told (readLine?_eq_some_iff.mp read) fun isDate => absurd isDate other
  have first : ∀ line ∈ [(⟨"a b".toList, 2⟩ : HeaderLine)], line.Sound :=
    List.forall_mem_singleton.mpr (sound rfl (by decide) 2)
  have faulty : HeaderLine.Faulty ⟨"date 2023-2-29".toList, 5⟩ .dayOutOfRange :=
    .undated (readLine?_eq_some_iff.mp rfl) rfl
  have all : ∀ line ∈ [(⟨"title A".toList, 1⟩ : HeaderLine), ⟨"template t".toList, 2⟩,
      ⟨"template \t".toList, 3⟩, ⟨"title".toList, 4⟩], line.Sound :=
    List.forall_mem_cons.mpr ⟨sound rfl (by decide) 1, List.forall_mem_cons.mpr
      ⟨sound rfl (by decide) 2, List.forall_mem_cons.mpr
        ⟨sound rfl (by decide) 3, List.forall_mem_singleton.mpr (sound rfl (by decide) 4)⟩⟩⟩
  obtain ⟨facts, said, read, -, gathers⟩ := (Metadata.ofLines_law.1 _).2.2 all
  have refused : Document.compile "title x\r\n\rdate \n---\r".toList
      = .error (.header ⟨.dateWithoutValue, "date".toList, 3⟩) := rfl
  refine ⟨(Metadata.ofLines_law.1 _).2.1 _ _ _ _ rfl first faulty,
    ⟨facts, said, read, gathers, ?_, ?_⟩, refused, Metadata.ofLines_law.2 _ _ refused⟩
  · cases read
    rfl
  · cases read
    rfl

end MarkPress
