/-
  DecafFrontEnd/Text/Split.lean --- texts in parts between separators.
-/
set_option autoImplicit false

namespace DecafFrontEnd

/-- The parts of a text before, between and after the places of a character. There
is one part more than there are places. -/
def splitAtEach (separator : Char) : List Char → List (List Char)
  | [] => [[]]
  | c :: cs =>
      match splitAtEach separator cs with
      | [] => []
      | part :: parts =>
          if c = separator then [] :: part :: parts else (c :: part) :: parts

/-- The parts and the separators between them make up the text. -/
theorem intercalate_splitAtEach (separator : Char) (cs : List Char) :
    splitAtEach separator cs ≠ [] ∧
      [separator].intercalate (splitAtEach separator cs) = cs := by
  induction cs with
  | nil => exact ⟨by simp [splitAtEach], by simp [splitAtEach, List.intercalate]⟩
  | cons c cs ih =>
      obtain ⟨hne, hcs⟩ := ih
      unfold splitAtEach
      cases h : splitAtEach separator cs with
      | nil => exact absurd h hne
      | cons part parts =>
          rw [h] at hcs
          by_cases hc : c = separator
          · refine ⟨by simp [hc], ?_⟩
            simp [hc, List.intercalate] at hcs ⊢
            exact hcs
          · refine ⟨by simp [hc], ?_⟩
            cases parts <;> simp [hc, List.intercalate, List.intersperse] at hcs ⊢ <;> exact hcs

end DecafFrontEnd
