/-
  DecafFrontEnd/Proofs/Lowering/Literal.lean --- which literals have a value.

  Every character literal and every truth literal that the grammar gives has a value,
  and the quotes of every string can be taken off.  A text of digits has a value up to
  the greatest one (`integerValue_of_isDecimal`); above it the fault is an overflow, and
  no other text is a number (`integerValue_of_not_isDecimal`).
-/
import DecafFrontEnd.Proofs.Grammar.Shape
import DecafFrontEnd.Proofs.Lowering.Obstacles

set_option autoImplicit false

namespace DecafFrontEnd

/-! ## Integers -/

/-- Digits behind others make a value no smaller. -/
theorem le_foldl_digits (cs : List Char) (value : Nat) :
    value ≤ cs.foldl (fun value c => value * 10 + (c.toNat - '0'.toNat)) value := by
  induction cs generalizing value with
  | nil => exact Nat.le_refl _
  | cons c cs ih =>
      have hstep := ih (value * 10 + (c.toNat - '0'.toNat))
      simp only [List.foldl_cons]
      omega

theorem appendDigits_eq (cs : List Char) (value : Nat) (h : value ≤ maxInteger) :
    appendDigits value cs =
      if cs.foldl (fun value c => value * 10 + (c.toNat - '0'.toNat)) value ≤ maxInteger then
        some (cs.foldl (fun value c => value * 10 + (c.toNat - '0'.toNat)) value)
      else none := by
  induction cs generalizing value with
  | nil => simp [appendDigits, h]
  | cons c cs ih =>
      have hstep := le_foldl_digits cs (value * 10 + (c.toNat - '0'.toNat))
      rw [appendDigits, List.foldl_cons]
      split
      · next hle => exact ih _ hle
      · next hgt => rw [if_neg (by omega)]

/-- The texts of decimal numbers: one digit or more and nothing else. -/
def IsDecimal (text : List Char) : Prop := text ≠ [] ∧ text.all Char.isDigit = true

instance (text : List Char) : Decidable (IsDecimal text) :=
  inferInstanceAs (Decidable (text ≠ [] ∧ text.all Char.isDigit = true))

/-- Digits have the value that they stand for, unless that is too great. -/
theorem integerValue_of_isDecimal {lexeme : String} (h : IsDecimal lexeme.toList) :
    integerValue lexeme =
      if maxInteger < decimalValue lexeme.toList then .error ⟨.integer, .overflow, lexeme⟩
      else .ok (Int32.ofNat (decimalValue lexeme.toList)) := by
  obtain ⟨hne, hdigits⟩ := h
  have hempty : lexeme.toList.isEmpty = false := by
    rw [List.isEmpty_eq_false_iff]
    exact hne
  simp only [integerValue, hempty, hdigits, Bool.not_true, Bool.or_self, Bool.false_eq_true,
    if_false]
  rw [appendDigits_eq lexeme.toList 0 (Nat.zero_le _), ← decimalValue]
  by_cases hle : decimalValue lexeme.toList ≤ maxInteger
  · rw [if_pos hle, if_neg (by omega)]
  · rw [if_neg hle, if_pos (by omega)]

/-- Any other text has no value. -/
theorem integerValue_of_not_isDecimal {lexeme : String} (h : ¬ IsDecimal lexeme.toList) :
    integerValue lexeme = .error ⟨.integer, .malformed, lexeme⟩ := by
  have hother : (lexeme.toList.isEmpty || !lexeme.toList.all Char.isDigit) = true := by
    rw [Bool.or_eq_true, Bool.not_eq_true', List.isEmpty_iff]
    by_cases hne : lexeme.toList = []
    · exact Or.inl hne
    · exact Or.inr (Bool.eq_false_iff.2 fun hdigits => h ⟨hne, hdigits⟩)
  rw [integerValue, if_pos hother]

/-- A number that is not above the greatest one is the value of its integer. -/
theorem toInt_ofNat {n : Nat} (h : n ≤ maxInteger) : (Int32.ofNat n).toInt = n := by
  unfold maxInteger at h
  exact Int32.toInt_ofNat_of_lt (by omega)

/-- An integer that is not above the greatest one is told by its value. -/
theorem eq_ofNat_iff {n : Nat} (h : n ≤ maxInteger) (v : Int32) :
    v = Int32.ofNat n ↔ v.toInt = n := by
  rw [← Int32.toInt_inj, toInt_ofNat h]

/-- The text of an integer literal is made of digits. -/
theorem digits_of_spells {text : List Char} (h : (Rule.terminal .intLit).Spells text) :
    IsDecimal text := by
  obtain ⟨r, hscan⟩ := h
  refine ⟨Terminal.ne_nil_of_scan hscan, ?_⟩
  have hdigits : scanDigits (text ++ r) = some (text, r) := hscan
  unfold scanDigits at hdigits
  split at hdigits
  · simp at hdigits
  · next c w hw =>
      simp only [Option.some.injEq, Prod.mk.injEq] at hdigits
      rw [← hdigits.1, ← hw, List.all_eq_true]
      exact fun x hx => List.all_eq_true.1 List.all_takeWhile x hx

/-- An integer literal has the value of its digits, unless that is too great. -/
theorem integerValue_eq {text : List Char} (h : (Rule.terminal .intLit).Spells text) :
    integerValue (String.ofList text) =
      if maxInteger < decimalValue text then
        .error ⟨.integer, .overflow, String.ofList text⟩
      else .ok (Int32.ofNat (decimalValue text)) := by
  have hdecimal : IsDecimal (String.ofList text).toList := by
    rw [String.toList_ofList]
    exact digits_of_spells h
  rw [integerValue_of_isDecimal hdecimal, String.toList_ofList]

/-! ## Characters, truth values and strings -/

/-- The value of a character literal is the character behind its opening quote. -/
theorem IsCharLit.characterValue_eq {text : List Char} (h : IsCharLit text) :
    ∃ v inside, text = '\'' :: v :: inside ∧ characterValue (String.ofList text) = .ok v := by
  rcases h with ⟨c, rfl, -⟩ | ⟨c, rfl, -⟩
  · exact ⟨'\\', [c, '\''], rfl, by simp [characterValue, stripQuotes]⟩
  · exact ⟨c, ['\''], rfl, by simp [characterValue, stripQuotes]⟩

/-- Every character literal of the grammar has a value. -/
theorem characterValue_of_spells {text : List Char} (h : (Rule.terminal .charLit).Spells text) :
    ∃ c, characterValue (String.ofList text) = .ok c := by
  obtain ⟨r, hscan⟩ := h
  obtain ⟨hlit, -⟩ := (scanCharLit_iff _ _ _).1 hscan
  obtain ⟨v, -, -, hvalue⟩ := hlit.characterValue_eq
  exact ⟨v, hvalue⟩

/-- Every truth literal of the grammar has a value. -/
theorem booleanValue_of_spells {text : List Char} (h : (Rule.phrase .boolLit).Spells text) :
    ∃ b, booleanValue (String.ofList text) = .ok b := by
  rcases h with rfl | rfl
  · exact ⟨true, rfl⟩
  · exact ⟨false, rfl⟩

/-- A string ends with its closing quote. -/
theorem IsStringTail.getLast?_eq {l : List Char} (h : IsStringTail l) : l.getLast? = some '"' := by
  induction h with
  | close => rfl
  | escape c _ _ ih => rw [List.getLast?_cons, List.getLast?_cons, ih]; rfl
  | plain c _ _ _ _ ih => rw [List.getLast?_cons, ih]; rfl

theorem stripQuotes_eq_some {quote : Char} {text inside : List Char} :
    stripQuotes quote text = some inside ↔ text = quote :: (inside ++ [quote]) := by
  constructor
  · intro h
    cases text with
    | nil => simp [stripQuotes] at h
    | cons c rest =>
        simp only [stripQuotes, Option.ite_none_right_eq_some, Option.some.injEq] at h
        obtain ⟨⟨rfl, hlast⟩, rfl⟩ := h
        obtain ⟨front, rfl⟩ := List.getLast?_eq_some_iff.1 hlast
        rw [List.dropLast_concat]
  · rintro rfl
    simp [stripQuotes]

/-- The quotes of every string of the grammar can be taken off. -/
theorem stripQuotes_of_spells {text : List Char} (h : (Rule.terminal .stringLit).Spells text) :
    ∃ inside, stripQuotes '"' text = some inside := by
  obtain ⟨r, hscan⟩ := h
  obtain ⟨⟨tail, rfl, htail⟩, -⟩ := (scanStringLit_iff _ _ _).1 hscan
  exact ⟨tail.dropLast, by simp [stripQuotes, htail.getLast?_eq]⟩

end DecafFrontEnd
