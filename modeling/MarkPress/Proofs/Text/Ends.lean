/-
Module: MarkPress.Proofs.Text.Ends
Purpose: The beginning and the end of a text.
  A beginning of characters of a kind ends where a character of another kind stands. A text is cut
  by its width in units. The width of a beginning cuts off just that beginning, since no character
  lies across the cut.
Main exports:
  Text.startsWith_iff, Text.endsWith_iff, Text.after?_eq_some_iff, Text.takeWhile_append,
  Text.dropWhile_append, Text.width_append, Text.cut_append, Text.mem_of_mem_cut
-/
import MarkPress.Text.Order

namespace MarkPress.Text

theorem startsWith_iff {start text : Text} : startsWith start text = true ↔ start <+: text := by
  induction start generalizing text with
  | nil => simp [startsWith, after?]
  | cons c start ih =>
      cases text with
      | nil => simp [startsWith, after?]
      | cons d text =>
          by_cases same : c = d
          · subst same
            rw [List.prefix_cons_inj, ← ih]
            simp [startsWith, after?]
          · simp [startsWith, after?, same]

theorem endsWith_iff {ending text : Text} : endsWith ending text = true ↔ ending <:+ text := by
  rw [endsWith, startsWith_iff, List.reverse_prefix]

theorem after?_eq_some_iff {start text rest : Text} :
    after? start text = some rest ↔ text = start ++ rest := by
  constructor
  · intro after
    have starts : startsWith start text = true := by rw [startsWith, after, Option.isSome_some]
    obtain ⟨found, rfl⟩ := startsWith_iff.mp starts
    rw [Option.some.inj ((after?_append start found).symm.trans after)]
  · rintro rfl
    exact after?_append start rest

section While

variable {kind : Char → Bool} {front behind : Text}

theorem takeWhile_append (all : ∀ c ∈ front, kind c = true)
    (stops : ∀ c ∈ behind.head?, kind c = false) : (front ++ behind).takeWhile kind = front := by
  rw [List.takeWhile_append_of_pos all]
  cases behind with
  | nil => simp
  | cons c rest => simp [stops c rfl]

theorem dropWhile_append (all : ∀ c ∈ front, kind c = true)
    (stops : ∀ c ∈ behind.head?, kind c = false) : (front ++ behind).dropWhile kind = behind := by
  rw [List.dropWhile_append_of_pos all]
  cases behind with
  | nil => rfl
  | cons c rest => simp [stops c rfl]

end While

theorem width_append (text behind : Text) : width (text ++ behind) = width text + width behind := by
  simp [width]

theorem cut_append (text behind : Text) : cut (width text) (text ++ behind) = text := by
  induction text with
  | nil => exact cut.eq_1 behind
  | cons c text ih =>
      have wide : width (c :: text) = (units c).length + width text := by simp [width]
      by_cases basic : c.toNat < 0x10000
      · have one : (units c).length = 1 := by simp [units, basic]
        rw [wide, one, Nat.add_comm]
        simp [cut, one, ih]
      · have two : (units c).length = 2 := by simp [units, basic]
        rw [wide, two, Nat.add_comm]
        simp [cut, two, ih]

/-- Cutting adds nothing but the replacement character. -/
theorem mem_of_mem_cut {c : Char} {n : Nat} {text : Text} (member : c ∈ cut n text) :
    c ∈ text ∨ c = '\uFFFD' := by
  induction n, text using cut.induct with
  | case1 text =>
      rw [cut] at member
      cases member
  | case2 n positive =>
      rw [cut] at member
      · cases member
      · exact positive
  | case3 n first rest one ih =>
      simp only [cut, one, List.mem_cons] at member
      rcases member with rfl | later
      · exact .inl List.mem_cons_self
      · exact (ih later).imp_left (List.mem_cons_of_mem first)
  | case4 first rest two =>
      simp only [cut, List.mem_singleton] at member
      exact .inr member
  | case5 first rest n two ih =>
      simp only [cut, List.mem_cons] at member
      rcases member with rfl | later
      · exact .inl List.mem_cons_self
      · exact (ih later).imp_left (List.mem_cons_of_mem first)

end MarkPress.Text
