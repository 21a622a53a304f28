/-
Module: MarkPress.Dictionary
Purpose: Finite maps from texts, kept in the order of their keys.
  Attributes, header fields, template variables, cached templates and the files of a site are all
  maps from a text. The entries stand in the order of 16-bit units, so what is written from a
  dictionary does not depend on the order in which it was filled.
Main exports:
  Dictionary, Dictionary.get?, Dictionary.set, Dictionary.erase, Dictionary.ofList,
  Dictionary.get?_set, Dictionary.get?_erase, Dictionary.mem_keys_set
-/
import MarkPress.Text.Order

namespace MarkPress

/-- A finite map from texts to values. -/
structure Dictionary (α : Type) where
  /-- Each key with its value, earlier keys first. -/
  entries : List (Text × α) := []
deriving Repr, Inhabited, DecidableEq

namespace Dictionary

variable {α β : Type}

/-- The first value stored under a key. -/
def lookup (key : Text) : List (Text × α) → Option α
  | [] => none
  | (k, value) :: rest => if k = key then some value else lookup key rest

/-- Put a value at the place of its key, in exchange for the value stored there before. -/
def insert (key : Text) (value : α) : List (Text × α) → List (Text × α)
  | [] => [(key, value)]
  | (k, old) :: rest =>
      if k = key then (key, value) :: rest
      else if Text.precedes key k then (key, value) :: (k, old) :: rest
      else (k, old) :: insert key value rest

/-- A key that attributes and page variables never hold. -/
def reservedKey : Text := "__proto__".toList

/-- The dictionary without entries. -/
def empty : Dictionary α := {}

/-- The value stored under a key. -/
def get? (dict : Dictionary α) (key : Text) : Option α := lookup key dict.entries

/-- Whether something is stored under a key. -/
def contains (dict : Dictionary α) (key : Text) : Bool := (dict.get? key).isSome

/-- Store a value under a key. -/
def set (dict : Dictionary α) (key : Text) (value : α) : Dictionary α :=
  ⟨insert key value dict.entries⟩

/-- Remove what is stored under a key. -/
def erase (dict : Dictionary α) (key : Text) : Dictionary α :=
  ⟨dict.entries.filter fun entry => entry.1 ≠ key⟩

/-- The keys, in order. -/
def keys (dict : Dictionary α) : List Text := dict.entries.map (·.1)

/-- Store the pairs of a list one after another: the last value of a key stays. -/
def ofList (pairs : List (Text × α)) : Dictionary α :=
  pairs.foldl (fun dict pair => dict.set pair.1 pair.2) empty

/-- The same keys with other values. -/
def mapValues (f : α → β) (dict : Dictionary α) : Dictionary β :=
  ⟨dict.entries.map fun entry => (entry.1, f entry.2)⟩

/-! ### Reading after writing -/

@[simp] theorem get?_empty (key : Text) : (empty : Dictionary α).get? key = none := rfl

theorem lookup_insert (key other : Text) (value : α) (entries : List (Text × α)) :
    lookup other (insert key value entries)
      = if key = other then some value else lookup other entries := by
  induction entries with
  | nil => simp [insert, lookup]
  | cons entry rest ih =>
      obtain ⟨k, old⟩ := entry
      simp only [insert]
      split
      · rename_i hk
        subst hk
        simp [lookup]
        split <;> rfl
      · split
        · simp [lookup]
        · rename_i hne _
          simp only [lookup, ih]
          by_cases hk : k = other
          · have : key ≠ other := fun h => hne (hk.trans h.symm)
            simp [hk, this]
          · simp [hk]

/-- What is read after a write: the new value under its key, and every other key as before. -/
@[simp] theorem get?_set (dict : Dictionary α) (key other : Text) (value : α) :
    (dict.set key value).get? other = if key = other then some value else dict.get? other :=
  lookup_insert key other value dict.entries

/-- What is read after a removal: nothing under the removed key, and every other key as before. -/
@[simp] theorem get?_erase (dict : Dictionary α) (key other : Text) :
    (dict.erase key).get? other = if key = other then none else dict.get? other := by
  obtain ⟨entries⟩ := dict
  simp only [erase, get?]
  induction entries with
  | nil => simp [lookup]
  | cons entry rest ih =>
      obtain ⟨k, value⟩ := entry
      by_cases hk : k = key
      · subst hk
        by_cases ho : k = other <;> simp_all [lookup]
      · by_cases ho : k = other
        · subst ho
          simp [lookup, hk, Ne.symm hk]
        · simp_all [lookup]

theorem get?_mapValues (f : α → β) (dict : Dictionary α) (key : Text) :
    (dict.mapValues f).get? key = (dict.get? key).map f := by
  obtain ⟨entries⟩ := dict
  simp only [mapValues, get?]
  induction entries with
  | nil => rfl
  | cons entry rest ih =>
      by_cases hk : entry.1 = key <;> simp [lookup, hk, ih]

/-- A write adds its key and keeps every other one. -/
theorem mem_keys_set (dict : Dictionary α) (key other : Text) (value : α) :
    other ∈ (dict.set key value).keys ↔ other = key ∨ other ∈ dict.keys := by
  obtain ⟨entries⟩ := dict
  simp only [set, keys]
  induction entries with
  | nil => simp [insert]
  | cons entry rest ih =>
      obtain ⟨k, old⟩ := entry
      simp only [insert]
      split
      · rename_i hk
        subst hk
        simp
      · split
        · simp
        · simp only [List.map_cons, List.mem_cons, ih]
          constructor
          · rintro (h | h | h)
            · exact .inr (.inl h)
            · exact .inl h
            · exact .inr (.inr h)
          · rintro (h | h | h)
            · exact .inr (.inl h)
            · exact .inl h
            · exact .inr (.inr h)

end Dictionary

end MarkPress
