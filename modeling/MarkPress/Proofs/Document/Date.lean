/-
Module: MarkPress.Proofs.Document.Date
Purpose: Which texts are dates, and what a date shows.
  A date is three numerals with hyphens between them that name a day of the Gregorian calendar. The
  text that shows it has the name of the month, the day and the year, each of which ends where a
  character stands that it can not have, so no two dates show the same text.
Main exports:
  Date.Written, Date.IsLeap, Date.InCalendar, Date.fields?_eq_some_iff,
  Date.inCalendar_iff, Date.format_injective, Date.parse_eq_ok_iff, Date.parseAt_law
-/
import Mathlib.Data.List.Induction
import MarkPress.Header.Date
import MarkPress.Proofs.Slug.Fresh
import MarkPress.Proofs.Text.Numeral
import MarkPress.Proofs.Text.Pieces

namespace MarkPress

namespace Date

/-- The written form of a date: four digits, one or two, and one or two. -/
inductive Written : Text → ℕ → ℕ → ℕ → Prop where
  | numerals {year month day : Text} {y m d : ℕ} (isYear : IsNumeral year y)
      (isMonth : IsNumeral month m) (isDay : IsNumeral day d) (yearWidth : year.length = 4)
      (monthWidth : month.length = 1 ∨ month.length = 2)
      (dayWidth : day.length = 1 ∨ day.length = 2) :
      Written (year ++ '-' :: (month ++ '-' :: day)) y m d

/-- The years with a leap day: every fourth one, but of the centuries every fourth one only. -/
def IsLeap (year : ℕ) : Prop := 4 ∣ year ∧ (100 ∣ year → 400 ∣ year)

/-- The days of a year in the Gregorian calendar, by month and day. -/
inductive InCalendar (year : ℕ) : ℕ → ℕ → Prop where
  | long {month day : ℕ} (isLong : month ∈ [1, 3, 5, 7, 8, 10, 12]) (first : 1 ≤ day)
      (last : day ≤ 31) : InCalendar year month day
  | short {month day : ℕ} (isShort : month ∈ [4, 6, 9, 11]) (first : 1 ≤ day) (last : day ≤ 30) :
      InCalendar year month day
  | february {day : ℕ} (first : 1 ≤ day) (last : day ≤ 28) : InCalendar year 2 day
  | leapDay (leap : IsLeap year) : InCalendar year 2 29

variable {text front behind value : Text} {year month day y m d : ℕ}

/-! ### Reading the form -/

theorem cutAtHyphen?_append (free : '-' ∉ front) (behind : Text) :
    cutAtHyphen? (front ++ '-' :: behind) = some (front, behind) := by
  induction front with
  | nil => rfl
  | cons c front ih =>
      simp only [List.mem_cons, not_or] at free
      rw [List.cons_append, cutAtHyphen?, if_neg (Ne.symm free.1), ih free.2]
      rfl

theorem eq_of_cutAtHyphen? (cut : cutAtHyphen? text = some (front, behind)) :
    text = front ++ '-' :: behind := by
  induction text generalizing front with
  | nil => cases cut
  | cons c text ih =>
      rw [cutAtHyphen?] at cut
      split at cut
      · rename_i hyphen
        cases cut
        rw [hyphen]
        rfl
      · obtain ⟨⟨before, _⟩, found, same⟩ := Option.map_eq_some_iff.mp cut
        cases same
        rw [ih found]
        rfl

theorem digitsValue_eq (digits : Text) :
    digitsValue digits = Nat.ofDigits 10 (digits.reverse.map fun c => c.toNat - '0'.toNat) := by
  induction digits using List.reverseRecOn with
  | nil => rfl
  | append_singleton digits c ih =>
      rw [digitsValue] at ih
      rw [digitsValue, List.foldl_append, ih, List.reverse_append, List.reverse_singleton,
        List.singleton_append, List.map_cons, Nat.ofDigits_cons]
      exact Nat.add_comm _ _

theorem number?_eq_some_iff {least most n : ℕ} {digits : Text} :
    number? least most digits = some n ↔
      least ≤ digits.length ∧ digits.length ≤ most ∧ IsNumeral digits n := by
  have ascii : digits.all Char.isDigit = true ↔ ∀ c ∈ digits, '0' ≤ c ∧ c ≤ '9' := by
    simp only [List.all_eq_true, isDigit_iff]
  rw [number?, Option.ite_none_right_eq_some, ascii, digitsValue_eq, Option.some.injEq]
  constructor
  · rintro ⟨⟨long, short, ascii⟩, value⟩
    exact ⟨long, short, ascii, value.symm⟩
  · rintro ⟨long, short, numeral⟩
    exact ⟨⟨long, short, numeral.ascii⟩, numeral.value.symm⟩

theorem noHyphen_of_isNumeral {digits : Text} {n : ℕ} (numeral : IsNumeral digits n) :
    '-' ∉ digits := fun member => absurd (numeral.ascii '-' member) (by decide)

/-- Reading a text finds the numbers of a written date, and nothing in a text of another form. -/
theorem fields?_eq_some_iff : fields? text = some (y, m, d) ↔ Written text y m d := by
  simp only [fields?, Option.bind_eq_bind, Option.bind_eq_some_iff, Option.pure_def]
  constructor
  · rintro ⟨⟨year, rest⟩, cutY, ⟨month, day⟩, cutM, _, numberY, _, numberM, _, numberD, same⟩
    cases same
    dsimp only at cutM numberY numberM numberD
    obtain ⟨longY, shortY, isYear⟩ := number?_eq_some_iff.mp numberY
    obtain ⟨longM, shortM, isMonth⟩ := number?_eq_some_iff.mp numberM
    obtain ⟨longD, shortD, isDay⟩ := number?_eq_some_iff.mp numberD
    rw [eq_of_cutAtHyphen? cutY, eq_of_cutAtHyphen? cutM]
    exact .numerals isYear isMonth isDay (by omega) (by omega) (by omega)
  · rintro @⟨year, month, day, y, m, d, isYear, isMonth, isDay, widthY, widthM, widthD⟩
    have cutY := cutAtHyphen?_append (noHyphen_of_isNumeral isYear) (month ++ '-' :: day)
    have cutM := cutAtHyphen?_append (noHyphen_of_isNumeral isMonth) day
    have readY : number? 4 4 year = some y :=
      number?_eq_some_iff.mpr ⟨by omega, by omega, isYear⟩
    have readM : number? 1 2 month = some m :=
      number?_eq_some_iff.mpr ⟨by omega, by omega, isMonth⟩
    have readD : number? 1 2 day = some d := number?_eq_some_iff.mpr ⟨by omega, by omega, isDay⟩
    exact ⟨_, cutY, _, cutM, y, readY, m, readM, d, readD, rfl⟩

/-- What is written is one date only. -/
theorem Written.unique {y' m' d' : ℕ} (written : Written text y m d)
    (again : Written text y' m' d') : (y, m, d) = (y', m', d') :=
  Option.some.inj ((fields?_eq_some_iff.mpr written).symm.trans (fields?_eq_some_iff.mpr again))

/-! ### The calendar -/

theorem isLeapYear_iff : isLeapYear y = true ↔ IsLeap y := by
  simp only [isLeapYear, IsLeap, Bool.or_eq_true, Bool.and_eq_true, beq_iff_eq, bne_iff_ne]
  omega

theorem InCalendar.month_mem (day : InCalendar y m d) : 1 ≤ m ∧ m ≤ 12 := by
  cases day with
  | long isLong => simp only [List.mem_cons, List.not_mem_nil, or_false] at isLong; omega
  | short isShort => simp only [List.mem_cons, List.not_mem_nil, or_false] at isShort; omega
  | february => decide
  | leapDay => decide

/-- The days of a month are numbered from one. -/
theorem inCalendar_iff (isMonth : 1 ≤ m ∧ m ≤ 12) :
    InCalendar y m d ↔ 1 ≤ d ∧ d ≤ daysInMonth y m := by
  have longApart : ∀ m ∈ [1, 3, 5, 7, 8, 10, 12], m ≠ 2 ∧ m ∉ [4, 6, 9, 11] := by decide
  have shortApart : ∀ m ∈ [4, 6, 9, 11], m ≠ 2 := by decide
  rw [daysInMonth]
  constructor
  · rintro (⟨isLong, first, last⟩ | ⟨isShort, first, last⟩ | ⟨first, last⟩ | leap)
    · rw [if_neg (longApart m isLong).1, if_neg (longApart m isLong).2]
      exact ⟨first, last⟩
    · rw [if_neg (shortApart m isShort), if_pos isShort]
      exact ⟨first, last⟩
    · rw [if_pos rfl]
      split <;> omega
    · rw [if_pos rfl, if_pos (isLeapYear_iff.mpr leap)]
      omega
  · rintro ⟨first, last⟩
    split at last
    · rename_i isFebruary
      subst isFebruary
      split at last
      · rename_i leap
        rcases Nat.lt_or_eq_of_le last with short | rfl
        · exact .february first (Nat.le_of_lt_succ short)
        · exact .leapDay (isLeapYear_iff.mp leap)
      · exact .february first last
    · split at last
      · rename_i isShort
        exact .short isShort first last
      · rename_i notFebruary notShort
        refine .long ?_ first last
        simp only [List.mem_cons, List.not_mem_nil, or_false] at notShort ⊢
        omega

/-! ### Showing a date -/

theorem monthName_of_get {name : Text} (first : 1 ≤ m) (named : monthNames[m - 1]? = some name) :
    monthName m = name := by
  have index : ((m : ℤ) - 1).toNat = m - 1 := by omega
  rw [monthName, if_pos (by omega), index, named]
  rfl

theorem exists_monthName (isMonth : 1 ≤ m ∧ m ≤ 12) : ∃ name, monthNames[m - 1]? = some name := by
  have inside : m - 1 < monthNames.length := by
    change m - 1 < 12
    omega
  exact ⟨_, List.getElem?_eq_getElem inside⟩

/-- The name of the month, a space, the day, a comma with a space, and the year. -/
theorem format_eq {name : Text} (first : 1 ≤ m) (named : monthNames[m - 1]? = some name) :
    format y m d = name ++ ' ' :: (Text.ofNat d ++ ',' :: ' ' :: Text.ofNat y) := by
  rw [format, monthName_of_get first named]
  simp [Text.ofInt]

theorem not_mem_ofNat {c : Char} (other : c.isDigit = false) (n : ℕ) : c ∉ Text.ofNat n := by
  intro member
  rw [Nat.isDigit_of_mem_toDigits (by decide) (by decide) member] at other
  cases other

/-- Two days that show the same text are one day. -/
theorem format_injective {y' m' d' : ℕ} (isMonth : 1 ≤ m ∧ m ≤ 12) (isMonth' : 1 ≤ m' ∧ m' ≤ 12)
    (same : format y m d = format y' m' d') : (y, m, d) = (y', m', d') := by
  have noSpace : ∀ name ∈ monthNames, ' ' ∉ name := by decide
  have distinct : monthNames.Nodup := by decide
  obtain ⟨name, named⟩ := exists_monthName isMonth
  obtain ⟨name', named'⟩ := exists_monthName isMonth'
  rw [format_eq isMonth.1 named, format_eq isMonth'.1 named'] at same
  obtain ⟨rfl, rest⟩ := Text.append_inj_of_not_mem
    (noSpace name (List.mem_of_getElem? named)) (noSpace name' (List.mem_of_getElem? named')) same
  obtain ⟨sameDay, sameYear⟩ :=
    Text.append_inj_of_not_mem (not_mem_ofNat rfl d) (not_mem_ofNat rfl d') rest
  have index : m - 1 = m' - 1 :=
    (List.getElem?_inj (List.getElem?_eq_some_iff.mp named).1 distinct).mp
      (named.trans named'.symm)
  have sameMonth : m = m' := by omega
  rw [sameMonth, Text.ofNat_injective sameDay,
    Text.ofNat_injective (List.cons.inj sameYear).2]

/-! ### Reading a date -/

/-- A text of another form is no date. -/
theorem parse_formless (formless : ∀ y m d, ¬ Written value.trim y m d) :
    parse value = .error .invalidDate := by
  have unread : fields? value.trim = none := by
    rw [Option.eq_none_iff_forall_not_mem]
    rintro ⟨y, m, d⟩ read
    exact formless y m d (fields?_eq_some_iff.mp read)
  rw [parse, unread]

/-- Of a written date first the month counts and then the day. -/
theorem parse_written (written : Written value.trim y m d) :
    parse value =
      if m < 1 ∨ 12 < m then .error .monthOutOfRange
      else if d < 1 ∨ daysInMonth y m < d then .error .dayOutOfRange
      else .ok ⟨y, m, d, format y m d⟩ := by
  rw [parse, fields?_eq_some_iff.mpr written]

theorem parse_noMonth (written : Written value.trim y m d) (noMonth : ¬ (1 ≤ m ∧ m ≤ 12)) :
    parse value = .error .monthOutOfRange := by
  rw [parse_written written, if_pos (by omega)]

theorem parse_noDay (written : Written value.trim y m d) (isMonth : 1 ≤ m ∧ m ≤ 12)
    (noDay : ¬ InCalendar y m d) : parse value = .error .dayOutOfRange := by
  rw [inCalendar_iff isMonth] at noDay
  rw [parse_written written, if_neg (by omega), if_pos (by omega)]

theorem parse_inCalendar (written : Written value.trim y m d) (day : InCalendar y m d) :
    parse value = .ok ⟨y, m, d, format y m d⟩ := by
  have isMonth := day.month_mem
  rw [inCalendar_iff isMonth] at day
  rw [parse_written written, if_neg (by omega), if_neg (by omega)]

/-- The dates are the written days of the calendar. -/
theorem parse_eq_ok_iff {date : Date} :
    parse value = .ok date ↔
      ∃ y m d, Written value.trim y m d ∧ InCalendar y m d ∧ date = ⟨y, m, d, format y m d⟩ := by
  constructor
  · intro parsed
    by_cases formless : ∀ y m d, ¬ Written value.trim y m d
    · rw [parse_formless formless] at parsed
      cases parsed
    · push Not at formless
      obtain ⟨y, m, d, written⟩ := formless
      by_cases isMonth : 1 ≤ m ∧ m ≤ 12
      · by_cases day : InCalendar y m d
        · rw [parse_inCalendar written day] at parsed
          exact ⟨y, m, d, written, day, (Except.ok.inj parsed).symm⟩
        · rw [parse_noDay written isMonth day] at parsed
          cases parsed
      · rw [parse_noMonth written isMonth] at parsed
        cases parsed
  · rintro ⟨y, m, d, written, day, rfl⟩
    exact parse_inCalendar written day

variable {line : Text} {number : ℤ}

theorem parseAt_eq_ok_iff {date : Date} :
    parseAt value line number = .ok date ↔ parse value = .ok date := by
  rw [parseAt]
  cases parse value <;> simp

theorem parseAt_of_error {fault : HeaderFault} (refused : parse value = .error fault) :
    parseAt value line number = .error ⟨fault, line, number⟩ := by
  rw [parseAt, refused]

/-- Dates that were read show the same text just if they are the same day. -/
theorem text_eq_iff {other : Text} {date date' : Date} (parsed : parse value = .ok date)
    (parsed' : parse other = .ok date') :
    date.text = date'.text ↔ date.sortKey = date'.sortKey := by
  obtain ⟨y, m, d, -, day, rfl⟩ := parse_eq_ok_iff.mp parsed
  obtain ⟨y', m', d', -, day', rfl⟩ := parse_eq_ok_iff.mp parsed'
  constructor
  · intro same
    cases format_injective day.month_mem day'.month_mem same
    rfl
  · intro same
    cases same
    rfl

/-- A text is read as a date just if, without the white space around it, it is the written form of a
day of the calendar. The date has the numbers of the day, and shows the name of its month, the day
and the year, so that dates show the same just if they are the same day. Any other text is refused
with the line and the number given: for its form, or else for its month, or else for its day. -/
theorem parseAt_law (value line : Text) (number : ℤ) :
    ((∃ date, parseAt value line number = .ok date) ↔
      ∃ y m d, Written value.trim y m d ∧ InCalendar y m d)
    ∧ (∀ y m d, Written value.trim y m d → InCalendar y m d →
      ∃ date name, parseAt value line number = .ok date
        ∧ date.year = y ∧ date.month = m ∧ date.day = d ∧ date.sortKey = [y, m, d]
        ∧ monthNames[m - 1]? = some name
        ∧ date.text = name ++ " ".toList ++ Text.ofNat d ++ ", ".toList ++ Text.ofNat y)
    ∧ (∀ other otherLine otherNumber date date', parseAt value line number = .ok date →
      parseAt other otherLine otherNumber = .ok date' →
        (date.text = date'.text ↔ date.sortKey = date'.sortKey))
    ∧ ((∀ y m d, ¬ Written value.trim y m d) →
      parseAt value line number = .error ⟨.invalidDate, line, number⟩)
    ∧ (∀ y m d, Written value.trim y m d → ¬ (1 ≤ m ∧ m ≤ 12) →
      parseAt value line number = .error ⟨.monthOutOfRange, line, number⟩)
    ∧ (∀ y m d, Written value.trim y m d → 1 ≤ m ∧ m ≤ 12 → ¬ InCalendar y m d →
      parseAt value line number = .error ⟨.dayOutOfRange, line, number⟩)
    ∧ HeaderFault.message .invalidDate = "invalid date".toList
    ∧ HeaderFault.message .monthOutOfRange = "month out of range".toList
    ∧ HeaderFault.message .dayOutOfRange = "day out of range".toList
    ∧ ∀ fault, HeaderError.message ⟨fault, line, number⟩
      = fault.message ++ " at line ".toList ++ Text.ofInt number ++ ": ".toList ++ line.quoted := by
  refine ⟨⟨?_, ?_⟩, ?_, ?_, ?_, ?_, ?_, rfl, rfl, rfl, fun _ => rfl⟩
  · rintro ⟨date, read⟩
    obtain ⟨y, m, d, written, day, -⟩ := parse_eq_ok_iff.mp (parseAt_eq_ok_iff.mp read)
    exact ⟨y, m, d, written, day⟩
  · rintro ⟨y, m, d, written, day⟩
    exact ⟨_, parseAt_eq_ok_iff.mpr (parse_inCalendar written day)⟩
  · intro y m d written day
    obtain ⟨name, named⟩ := exists_monthName day.month_mem
    refine ⟨_, name, parseAt_eq_ok_iff.mpr (parse_inCalendar written day), rfl, rfl, rfl, rfl,
      named, ?_⟩
    rw [format_eq day.month_mem.1 named]
    simp
  · intro other otherLine otherNumber date date' read read'
    exact text_eq_iff (parseAt_eq_ok_iff.mp read) (parseAt_eq_ok_iff.mp read')
  · exact fun formless => parseAt_of_error (parse_formless formless)
  · exact fun y m d written noMonth => parseAt_of_error (parse_noMonth written noMonth)
  · exact fun y m d written isMonth noDay => parseAt_of_error (parse_noDay written isMonth noDay)

/-- A leap day of a century with white space around it, one in a century that has none, and a month
that does not exist, with a day that does not either. -/
theorem parseAt_law_leapDay :
    (∃ date, parseAt "\t2000-2-29\u2028".toList [] 0 = .ok date ∧ date.sortKey = [2000, 2, 29]
        ∧ date.text = "February 29, 2000".toList)
      ∧ parseAt "1900-02-29".toList "date 1900-02-29".toList 3
        = .error ⟨.dayOutOfRange, "date 1900-02-29".toList, 3⟩
      ∧ parseAt "2024-13-40".toList "a".toList 1 = .error ⟨.monthOutOfRange, "a".toList, 1⟩
      ∧ parseAt "24-1-1".toList "b".toList (-2) = .error ⟨.invalidDate, "b".toList, -2⟩ := by
  have written {text : Text} {y m d : ℕ} (read : fields? text = some (y, m, d)) :
      Written text y m d := fields?_eq_some_iff.mp read
  have leap : InCalendar 2000 2 29 := .leapDay ⟨by decide, by decide⟩
  have noLeap : ¬ InCalendar 1900 2 29 := mt (inCalendar_iff (by decide)).mp (by decide)
  have unread : fields? (Text.trim "24-1-1".toList) = none := rfl
  have formless : ∀ y m d, ¬ Written (Text.trim "24-1-1".toList) y m d := fun y m d formed => by
    cases unread.symm.trans (fields?_eq_some_iff.mpr formed)
  obtain ⟨date, name, read, -, -, -, key, named, shown⟩ :=
    (parseAt_law "\t2000-2-29\u2028".toList [] 0).2.1 _ _ _ (written rfl) leap
  refine ⟨⟨date, read, key, ?_⟩, ?_, ?_, ?_⟩
  · cases named
    exact shown
  · exact (parseAt_law _ _ _).2.2.2.2.2.1 1900 2 29 (written rfl) (by decide) noLeap
  · exact (parseAt_law _ _ _).2.2.2.2.1 2024 13 40 (written rfl) (by decide)
  · exact (parseAt_law _ _ _).2.2.2.1 formless

end Date

end MarkPress
