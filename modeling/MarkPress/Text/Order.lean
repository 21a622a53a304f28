/-
Module: MarkPress.Text.Order
Purpose: The order of texts by their 16-bit code units, and widths in such units.
  A character outside the basic plane is written as two units from the range D800 to DFFF. So in
  the order of units the supplementary characters stand between U+D7FF and U+E000. `rank` moves
  them there, and texts compare like words in a dictionary by the ranks of their characters.
Main exports:
  Text.rank, Text.precedes, Text.compare, Text.units, Text.width, Text.cut, Text.padEnd
-/
import MarkPress.Text.Basic

namespace MarkPress.Text

/-- The place of a character in the order of 16-bit units. -/
def rank (c : Char) : Nat :=
  let n := c.toNat
  if n < 0xD800 then n
  else if n < 0x10000 then n + 0x100000
  else n - 0x10000 + 0xD800

/-- Strict dictionary order by rank: a proper beginning of a text comes before it. -/
def precedes : Text → Text → Bool
  | _, [] => false
  | [], _ :: _ => true
  | a :: left, b :: right => rank a < rank b || (a == b && precedes left right)

/-- How two texts compare. -/
def compare (left right : Text) : Ordering :=
  if precedes left right then .lt else if precedes right left then .gt else .eq

/-- The 16-bit units of a character. -/
def units (c : Char) : List Nat :=
  let n := c.toNat
  if n < 0x10000 then [n]
  else [0xD800 + (n - 0x10000) / 0x400, 0xDC00 + (n - 0x10000) % 0x400]

/-- The width of a text in 16-bit units. -/
def width (text : Text) : Nat := (text.flatMap units).length

/-- The longest beginning of a text that fits into a number of units. A character whose second unit
falls outside is replaced by the replacement character, since half of it is not a character. -/
def cut : Nat → Text → Text
  | 0, _ => []
  | _, [] => []
  | n + 1, c :: rest =>
      match (units c).length, n with
      | 1, _ => c :: cut n rest
      | _, 0 => ['\uFFFD']
      | _, m + 1 => c :: cut m rest

/-- A text with spaces behind it, up to a width in units. -/
def padEnd (n : Nat) (text : Text) : Text := text ++ List.replicate (n - width text) ' '

/-! ### The order is strict, total and exact -/

theorem rank_injective {a b : Char} (h : rank a = rank b) : a = b := by
  have ha := a.valid
  have hb := b.valid
  apply Char.toNat_inj.mp
  simp only [Char.toNat, UInt32.isValidChar, Nat.isValidChar] at *
  simp only [rank, Char.toNat] at h
  split at h <;> split at h <;> (try split at h) <;> (try split at h) <;> omega

theorem precedes_irrefl (text : Text) : precedes text text = false := by
  induction text with
  | nil => rfl
  | cons c rest ih => simp [precedes, ih]

theorem precedes_trans {s t u : Text} (hst : precedes s t = true) (htu : precedes t u = true) :
    precedes s u = true := by
  induction s generalizing t u with
  | nil =>
      cases t with
      | nil => simp [precedes] at hst
      | cons b t =>
          cases u with
          | nil => simp [precedes] at htu
          | cons c u => simp [precedes]
  | cons a s ih =>
      cases t with
      | nil => simp [precedes] at hst
      | cons b t =>
          cases u with
          | nil => simp [precedes] at htu
          | cons c u =>
              simp only [precedes, Bool.or_eq_true, Bool.and_eq_true, decide_eq_true_eq,
                beq_iff_eq] at *
              rcases hst with hab | ⟨rfl, hst⟩
              · rcases htu with hbc | ⟨rfl, _⟩
                · exact .inl (by omega)
                · exact .inl hab
              · rcases htu with hbc | ⟨rfl, htu⟩
                · exact .inl hbc
                · exact .inr ⟨rfl, ih hst htu⟩

theorem precedes_total (s t : Text) : precedes s t = true ∨ s = t ∨ precedes t s = true := by
  induction s generalizing t with
  | nil => cases t <;> simp [precedes]
  | cons a s ih =>
      cases t with
      | nil => simp [precedes]
      | cons b t =>
          simp only [precedes, Bool.or_eq_true, Bool.and_eq_true, decide_eq_true_eq, beq_iff_eq,
            List.cons.injEq]
          rcases Nat.lt_trichotomy (rank a) (rank b) with hlt | heq | hgt
          · exact .inl (.inl hlt)
          · have hab := rank_injective heq
            subst hab
            rcases ih t with h | rfl | h
            · exact .inl (.inr ⟨rfl, h⟩)
            · exact .inr (.inl ⟨rfl, rfl⟩)
            · exact .inr (.inr (.inr ⟨rfl, h⟩))
          · exact .inr (.inr (.inl hgt))

end MarkPress.Text
