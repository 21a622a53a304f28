/-
Module: MarkPress.Proofs.Log.Line
Purpose: When a log record is laid out on one line.
  Layout adds spaces and one line feed, and shows a part of each of four strings of the record. So
  a record is laid out on one line just if the parts that are shown have no breaks. Strings are
  shown as they are read, with their escapes resolved: an escaped line feed of a message ends the
  line that the message stands on.
Main exports:
  Log.IsLine, Log.Flat, Log.formatLine_isLine_iff
-/
import MarkPress.Log.Line
import MarkPress.Proofs.Log.Value

namespace MarkPress

variable {text behind : Text} {c : Char}

/-! ### Texts without breaks -/

theorem Text.unbroken_append :
    (text ++ behind).Unbroken ↔ text.Unbroken ∧ behind.Unbroken := List.forall_mem_append

theorem Text.unbroken_cons (visible : c ≠ '\n' ∧ c ≠ '\r') :
    Text.Unbroken (c :: text) ↔ text.Unbroken := by
  rw [Text.Unbroken, List.forall_mem_cons, and_iff_right visible, Text.Unbroken]

theorem Text.unbroken_padEnd (n : ℕ) : (text.padEnd n).Unbroken ↔ text.Unbroken := by
  rw [Text.padEnd, Text.unbroken_append, and_iff_left]
  intro c member
  rw [List.eq_of_mem_replicate member]
  decide

theorem Text.Unbroken.cut (unbroken : text.Unbroken) (n : ℕ) : (text.cut n).Unbroken := by
  intro c member
  rcases Text.mem_of_mem_cut member with inside | rfl
  · exact unbroken c inside
  · decide

namespace Log

theorem unbroken_dropFraction (unbroken : text.Unbroken) : (dropFraction text).Unbroken := by
  refine Text.unbroken_append.mpr ⟨fun c member => ?_, fun c member => ?_⟩
  · exact unbroken c (List.takeWhile_subset _ member)
  · have fromPoint := (List.dropWhile_suffix _).subset member
    exact unbroken c ((List.dropWhile_suffix _).subset fromPoint)

/-! ### Lines -/

/-- A text with one line feed, which is its last character, and without a carriage return. -/
structure IsLine (line : Text) : Prop where
  once : line.count '\n' = 1
  last : line.getLast? = some '\n'
  noReturn : '\r' ∉ line

/-- A line feed ends the only line of a text just if there are no breaks before it. -/
theorem isLine_append_break : IsLine (text ++ ['\n']) ↔ text.Unbroken := by
  constructor
  · intro line c member
    refine ⟨?_, ?_⟩
    · rintro rfl
      have once := line.once
      rw [List.count_append, List.count_singleton_self] at once
      exact List.count_eq_zero.mp (Nat.succ.inj once) member
    · rintro rfl
      exact line.noReturn (List.mem_append_left _ member)
  · intro unbroken
    refine ⟨?_, List.getLast?_concat, ?_⟩
    · rw [List.count_append, List.count_singleton_self,
        List.count_eq_zero.mpr fun member => (unbroken _ member).1 rfl]
    · intro member
      rcases List.mem_append.mp member with inside | ending
      · exact (unbroken _ inside).2 rfl
      · exact absurd (List.mem_singleton.mp ending) (by decide)

/-! ### Records -/

/-- A record without breaks in what is shown of its strings. -/
structure Flat (record : LogValue) : Prop where
  level : ∀ level ∈ stringMember? "level".toList record, level.Unbroken
  time : ∀ time ∈ stringMember? "time".toList record, (dropFraction time).Unbroken
  file : ∀ file ∈ stringMember? "file".toList record, (file.cut columns.shown).Unbroken
  message : ∀ message ∈ stringMember? "msg".toList record, message.Unbroken

variable {record : LogValue} {name string : Text}

theorem stringMember?_eq_some_iff :
    stringMember? name record = some string ↔ record.member? name = some (.string string) := by
  rw [stringMember?]
  split
  · rename_i found member
    simp [member]
  · rename_i other
    exact ⟨nofun, fun member => absurd member (other string)⟩

theorem flat_of_unbroken (whole : ∀ name, ∀ string ∈ stringMember? name record, string.Unbroken) :
    Flat record where
  level := whole _
  time := fun time member => unbroken_dropFraction (whole _ time member)
  file := fun file member => (whole _ file member).cut columns.shown
  message := whole _

/-- Nothing is shown of a value without members. -/
theorem flat_of_member?_none (none : ∀ name, record.member? name = none) : Flat record := by
  refine flat_of_unbroken fun name string member => ?_
  rw [Option.mem_def, stringMember?_eq_some_iff, none] at member
  cases member

/-- A record that is written without escapes of breaks has no breaks to show. -/
theorem flat_of_unescaped (unescaped : LogValue.Unescaped text)
    (read : LogValue.read? text = some record) : Flat record :=
  flat_of_unbroken fun _ _ member =>
    LogValue.unbroken_member? unescaped read (stringMember?_eq_some_iff.mp member)

/-- Something holds of a string or of what stands in for it just if it holds of the string, if there
is one. -/
theorem getD_iff {P : Text → Prop} {other : Text} (holds : P other) (found : Option Text) :
    P (found.getD other) ↔ ∀ string ∈ found, P string := by
  cases found with
  | none => simp [holds]
  | some string => simp

theorem isLine_formatRecord (unbroken : text.Unbroken) :
    IsLine (formatRecord text record) ↔ Flat record := by
  have space : ' ' ≠ '\n' ∧ ' ' ≠ '\r' := by decide
  have empty : Text.Unbroken [] := nofun
  have noTime : (dropFraction []).Unbroken := empty
  have noFile : (Text.cut columns.shown []).Unbroken := empty
  have level := getD_iff empty (stringMember? "level".toList record)
  have time := getD_iff (P := fun time => (dropFraction time).Unbroken) noTime
    (stringMember? "time".toList record)
  have file := getD_iff (P := fun file => (file.cut columns.shown).Unbroken) noFile
    (stringMember? "file".toList record)
  have message := getD_iff unbroken (stringMember? "msg".toList record)
  rw [formatRecord, isLine_append_break]
  simp only [Text.unbroken_append, Text.unbroken_cons space, Text.unbroken_padEnd, level, time,
    file, message]
  exact ⟨fun ⟨⟨⟨level, time⟩, file⟩, message⟩ => ⟨level, time, file, message⟩,
    fun flat => ⟨⟨⟨flat.level, flat.time⟩, flat.file⟩, flat.message⟩⟩

theorem isLine_formatLine (unbroken : text.Unbroken) :
    IsLine (formatLine text) ↔ ∀ record, LogValue.read? text = some record → Flat record := by
  rw [formatLine.eq_def]
  split
  · rename_i members read
    rw [isLine_formatRecord unbroken, read]
    simp
  · rename_i items read
    rw [isLine_formatRecord unbroken, read]
    simp
  · rename_i noRecord _
    -- the text is passed on as it is, and a value that is no record has nothing to show
    refine iff_of_true (isLine_append_break.mpr unbroken) fun record read => ?_
    refine flat_of_member?_none fun name => ?_
    cases record with
    | record members => exact absurd read (noRecord members)
    | list items => rfl
    | null => rfl
    | bool value => rfl
    | number written => rfl
    | string string => rfl

/-- The layout of a text without breaks ends in a line feed. It is one line just if, for a text
that is a record, what is shown of the strings of the record has no breaks, and so in particular if
the text has no escape of a break. -/
theorem formatLine_isLine_iff (unbroken : text.Unbroken) :
    (formatLine text).getLast? = some '\n'
      ∧ (IsLine (formatLine text) ↔ ∀ record, LogValue.read? text = some record → Flat record)
      ∧ (LogValue.Unescaped text → IsLine (formatLine text)) := by
  refine ⟨?_, isLine_formatLine unbroken, fun unescaped => ?_⟩
  · rw [formatLine.eq_def]
    split
    · exact List.getLast?_concat
    · exact List.getLast?_concat
    · exact List.getLast?_concat
  · exact (isLine_formatLine unbroken).mpr fun record => flat_of_unescaped unescaped

/-- The name of a file is cut before its break: the record is one line, though its text has an
escape of a break. -/
theorem formatLine_isLine_iff_cut :
    Text.Unbroken "\x7b\"file\":\"index.agm\\n\",\"msg\":\"done\"\x7d".toList
      ∧ ¬ LogValue.Unescaped "\x7b\"file\":\"index.agm\\n\",\"msg\":\"done\"\x7d".toList
      ∧ formatLine "\x7b\"file\":\"index.agm\\n\",\"msg\":\"done\"\x7d".toList
        = "       index.agm  done\n".toList
      ∧ ∀ record, LogValue.read? "\x7b\"file\":\"index.agm\\n\",\"msg\":\"done\"\x7d".toList
        = some record → Flat record := by
  have unbroken : Text.Unbroken "\x7b\"file\":\"index.agm\\n\",\"msg\":\"done\"\x7d".toList := by
    decide +kernel
  have laidOut : formatLine "\x7b\"file\":\"index.agm\\n\",\"msg\":\"done\"\x7d".toList
      = "       index.agm  done\n".toList := by decide +kernel
  have line : IsLine "       index.agm  done\n".toList := ⟨by decide, by decide, by decide⟩
  rw [← laidOut] at line
  exact ⟨unbroken, by decide +kernel, laidOut, (formatLine_isLine_iff unbroken).2.1.mp line⟩

/-- The message of a record is shown with its break, in two lines. -/
theorem not_isLine_formatLine :
    Text.Unbroken "\x7b\"msg\":\"a\\nb\"\x7d".toList
      ∧ formatLine "\x7b\"msg\":\"a\\nb\"\x7d".toList = "                  a\nb\n".toList
      ∧ ¬ IsLine (formatLine "\x7b\"msg\":\"a\\nb\"\x7d".toList) := by
  have laidOut : formatLine "\x7b\"msg\":\"a\\nb\"\x7d".toList
      = "                  a\nb\n".toList := by decide +kernel
  refine ⟨by decide +kernel, laidOut, fun line => ?_⟩
  rw [laidOut] at line
  exact absurd line.once (by decide)

end Log

end MarkPress
