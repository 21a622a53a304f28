/-
Module: MarkPress.Settings.Environment
Purpose: Reading settings from environment variables.
  A variable that is not set falls back to a default, and so does a numeric one whose value is not a
  number. Without a default both are errors. An empty value counts as set, unless asked otherwise.
  The system keeps a variable as one text, its name and its value with an equals sign between them,
  and ends each text at its first NUL character. So no variable has an equals sign in its name.
Main exports:
  Environment, Environment.assign, Environment.remove, Environment.find?, Environment.find?_assign,
  Environment.value?, Environment.text, Environment.number, SettingError, SettingError.message
-/
import MarkPress.Dictionary
import MarkPress.Inherited
import MarkPress.Number.Reading

namespace MarkPress

/-- The values of environment variables. -/
structure Environment where
  /-- The variables that the system keeps. -/
  named : Dictionary Text := Dictionary.empty
  /-- The values under numbers, which never reach the system. -/
  numbered : Dictionary Text := Dictionary.empty
deriving Repr, Inhabited, DecidableEq

/-- Why a setting has no value. -/
inductive SettingError where
  | notSet (name : Text)
  | notNumber (name value : Text)
deriving Repr, Inhabited, DecidableEq

/-- The text that reports an error. -/
def SettingError.message : SettingError → Text
  | .notSet name => "Env var ".toList ++ name ++ " not set".toList
  | .notNumber name value =>
      "Env var ".toList ++ name ++ " is not a valid number: ".toList ++ value

namespace Environment

/-! ### Variables -/

/-- The number of places that can be told apart by a number: the numbers are below it. -/
def places : Nat := 4294967295

/-- Whether a name is a number as it is written without need. -/
def isNumber (name : Text) : Bool :=
  match Binary64.integer? 10 name with
  | some n => n < places && Text.ofNat n == name
  | none => false

/-- What the system sees of a text: the part before its first NUL character. -/
def seen (text : Text) : Text := text.takeWhile (· != '\x00')

/-- Whether a variable can have a name. -/
def isVariable (name : Text) : Bool := !name.isEmpty && !name.contains '='

/-- Give a variable a value. A name that no variable can have is passed over. -/
def assign (environment : Environment) (name value : Text) : Environment :=
  if isNumber name then { environment with numbered := environment.numbered.set name value }
  else if isVariable (seen name) then
    { environment with named := environment.named.set (seen name) (seen value) }
  else environment

/-- Take the value of a variable away. A name that no variable can have is passed over. -/
def remove (environment : Environment) (name : Text) : Environment :=
  if isNumber name then { environment with numbered := environment.numbered.erase name }
  else if isVariable (seen name) then
    { environment with named := environment.named.erase (seen name) }
  else environment

/-- What stands behind a name and an equals sign at the beginning of a variable's text. A name that
goes on behind an equals sign thus finds the end of a value that begins in the same way. -/
def find? (environment : Environment) (name : Text) : Option Text :=
  if isNumber name then environment.numbered.get? name
  else
    let key := (seen name).takeWhile (· != '=')
    (environment.named.get? key).bind fun value =>
      Text.after? (seen name ++ ['=']) (key ++ '=' :: value)

/-- A variable has the value it was given last, as far as the system sees it. -/
theorem find?_assign (environment : Environment) {name : Text} (value : Text)
    (hn : isNumber name = false) (hv : isVariable (seen name) = true) :
    (environment.assign name value).find? name = some (seen value) := by
  have key : (seen name).takeWhile (· != '=') = seen name := by
    simp only [isVariable, Bool.and_eq_true, Bool.not_eq_true', List.contains_eq_mem,
      decide_eq_false_iff_not] at hv
    have other : ∀ c ∈ seen name, (c != '=') = true := fun c hc =>
      bne_iff_ne.mpr fun h => hv.2 (h ▸ hc)
    have all := @List.takeWhile_append_of_pos Char (· != '=') (seen name) [] other
    simpa only [List.append_nil, List.takeWhile_nil] using all
  have whole : seen name ++ '=' :: seen value = (seen name ++ ['=']) ++ seen value := by simp
  simp only [assign, find?, hn, hv, key, Bool.false_eq_true, if_false, if_true,
    Dictionary.get?_set, Option.bind_some, whole, Text.after?_append]

/-- What a name means where no variable has it: an environment is a table, made by a function
without a name, and knows the table behind it. -/
def inherited? (name : Text) : Option Text :=
  if name = "__proto__".toList then some "[object Object]".toList else Inherited.text? [] name

/-- The value that is set under a name. -/
def value? (environment : Environment) (name : Text) (emptyIsUnset : Bool) : Option Text :=
  ((environment.find? name).or (inherited? name)).filter fun value =>
    !(emptyIsUnset && value.isEmpty)

/-! ### Settings -/

/-- A setting that is a text. -/
def text (environment : Environment) (name : Text) (default? : Option Text)
    (emptyIsUnset : Bool) : Except SettingError Text :=
  match (value? environment name emptyIsUnset).or default? with
  | some value => .ok value
  | none => .error (.notSet name)

/-- A setting that is a number. -/
def number (environment : Environment) (name : Text) (default? : Option Binary64)
    (emptyIsUnset : Bool) : Except SettingError Binary64 :=
  match value? environment name emptyIsUnset, default? with
  | none, none => .error (.notSet name)
  | none, some number => .ok number
  | some value, _ =>
      match Binary64.ofText value, default? with
      | .nan, some number => .ok number
      | .nan, none => .error (.notNumber name value)
      | number, _ => .ok number

/-- With a default, a text setting always has a value. -/
theorem text_some (environment : Environment) (name fallback : Text) (emptyIsUnset : Bool) :
    text environment name (some fallback) emptyIsUnset
      = .ok ((value? environment name emptyIsUnset).getD fallback) := by
  cases h : value? environment name emptyIsUnset <;> simp [text, h]

end Environment

end MarkPress
