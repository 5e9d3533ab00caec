/-
  DecafFrontEnd/Proofs/Text/Parts.lean --- texts that tell their parts.

  Where texts are put together without marks, the parts can be had back if it is known where
  one ends: at the first or the last place of a sign that it does not have, or where signs of
  one sort end.  A number has no signs but digits, and its digits tell it.
-/
import Mathlib.Data.List.Basic
import Mathlib.Data.List.TakeWhile

set_option autoImplicit false

namespace DecafFrontEnd

section

variable {α : Type} {x : α} {a a' b b' : List α}

/-- A text is divided in one way at the first place of a sign. -/
theorem append_cons_inj_of_front (ha : x ∉ a) (ha' : x ∉ a') (h : a ++ x :: b = a' ++ x :: b') :
    a = a' ∧ b = b' := by
  induction a generalizing a' with
  | nil =>
      cases a' with
      | nil => exact ⟨rfl, (List.cons.inj h).2⟩
      | cons y a' => exact absurd (by simp [(List.cons.inj h).1]) ha'
  | cons y a ih =>
      cases a' with
      | nil => exact absurd (by simp [(List.cons.inj h).1]) ha
      | cons z a' =>
          obtain ⟨rfl, hrest⟩ := List.cons.inj h
          obtain ⟨rfl, rfl⟩ := ih (List.not_mem_of_not_mem_cons ha)
            (List.not_mem_of_not_mem_cons ha') hrest
          exact ⟨rfl, rfl⟩

/-- A text is divided in one way at the last place of a sign. -/
theorem append_cons_inj_of_back (hb : x ∉ b) (hb' : x ∉ b') (h : a ++ x :: b = a' ++ x :: b') :
    a = a' ∧ b = b' := by
  have hreverse := congrArg List.reverse h
  simp only [List.reverse_append, List.reverse_cons, List.append_assoc, List.singleton_append]
    at hreverse
  obtain ⟨hback, hfront⟩ := append_cons_inj_of_front (by simpa using hb) (by simpa using hb')
    hreverse
  exact ⟨List.reverse_injective hfront, List.reverse_injective hback⟩

variable {p : α → Bool}

/-- Signs of a sort end where the text behind them begins with none of the sort. -/
theorem takeWhile_append_of_head (a : List α) (hb : ∀ y ∈ b.head?, p y = false) :
    (a ++ b).takeWhile p = a.takeWhile p := by
  have hnone : b.takeWhile p = [] := by
    cases b with
    | nil => rfl
    | cons y b => exact List.takeWhile_cons_of_neg (by simp [hb y rfl])
  rw [List.takeWhile_append, hnone, List.append_nil]
  split
  · next hall => rw [(List.takeWhile_prefix p).eq_of_length hall]
  · rfl

/-- A text is divided in one way behind the signs of a sort that it begins with. -/
theorem append_inj_of_takeWhile (ha : ∀ y ∈ a, p y = true) (ha' : ∀ y ∈ a', p y = true)
    (hb : ∀ y ∈ b.head?, p y = false) (hb' : ∀ y ∈ b'.head?, p y = false)
    (h : a ++ b = a' ++ b') : a = a' ∧ b = b' := by
  have hfront := congrArg (List.takeWhile p) h
  rw [takeWhile_append_of_head a hb, takeWhile_append_of_head a' hb',
    List.takeWhile_eq_self_iff.2 ha, List.takeWhile_eq_self_iff.2 ha'] at hfront
  subst hfront
  exact ⟨rfl, List.append_cancel_left h⟩

end

/-- A number is written in digits. -/
theorem notMem_toString {x : Char} (hx : x.isDigit = false) (n : Nat) :
    x ∉ (toString n).toList := by
  intro hmem
  have hdigits : (toString n).toList = Nat.toDigits 10 n := Nat.toList_repr
  rw [hdigits] at hmem
  have hdigit := Nat.isDigit_of_mem_toDigits (by decide) (by decide) hmem
  rw [hx] at hdigit
  exact absurd hdigit (by decide)

/-- A number is told by its digits. -/
theorem eq_of_toDigits_eq {m n : Nat} (h : Nat.toDigits 10 m = Nat.toDigits 10 n) : m = n := by
  rw [← Nat.ofDigitChars_ten_toDigits (n := m), h, Nat.ofDigitChars_ten_toDigits]

theorem eq_of_toString_eq {m n : Nat} (h : (toString m).toList = (toString n).toList) : m = n := by
  have hdigits (k : Nat) : (toString k).toList = Nat.toDigits 10 k := Nat.toList_repr
  rw [hdigits, hdigits] at h
  exact eq_of_toDigits_eq h

end DecafFrontEnd
