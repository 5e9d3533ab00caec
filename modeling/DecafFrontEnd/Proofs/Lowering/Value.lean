/-
  DecafFrontEnd/Proofs/Lowering/Value.lean --- what literals stand for.

  A text has an integer value exactly if it is made of decimal digits and its value is
  not above the greatest one (`integerValue_eq_ok_iff`).  If the value is above it the
  text overflows, however many zeros stand in front; every other text is malformed.

  The rule for character literals and the conversion of their texts are written apart
  from one another.  They agree: whatever the rule takes, at any place of any text, has
  the character behind its opening quote as its value (`values_of_literals`).
-/
import DecafFrontEnd.Proofs.Lowering.Literal
import DecafFrontEnd.Proofs.Grammar.Depth

set_option autoImplicit false

namespace DecafFrontEnd

/-! ## Integers -/

section

variable {lexeme : String}

theorem integerValue_eq_ok_iff {v : Int32} :
    integerValue lexeme = .ok v ↔
      IsDecimal lexeme.toList ∧ decimalValue lexeme.toList ≤ maxInteger ∧
        v.toInt = decimalValue lexeme.toList := by
  by_cases hdecimal : IsDecimal lexeme.toList
  · rw [integerValue_of_isDecimal hdecimal]
    split
    · next hgreat =>
        have hnot : ¬ decimalValue lexeme.toList ≤ maxInteger := Nat.not_le.2 hgreat
        simp [hnot]
    · next hgreat =>
        have hle := Nat.not_lt.1 hgreat
        rw [Except.ok.injEq, eq_comm, eq_ofNat_iff hle]
        simp [hdecimal, hle]
  · rw [integerValue_of_not_isDecimal hdecimal]
    simp [hdecimal]

theorem integerValue_eq_overflow_iff :
    integerValue lexeme = .error ⟨.integer, .overflow, lexeme⟩ ↔
      IsDecimal lexeme.toList ∧ maxInteger < decimalValue lexeme.toList := by
  by_cases hdecimal : IsDecimal lexeme.toList
  · rw [integerValue_of_isDecimal hdecimal]
    split
    · next hgreat => simp [hdecimal, hgreat]
    · next hgreat => simp [hgreat]
  · rw [integerValue_of_not_isDecimal hdecimal]
    simp [hdecimal]

theorem integerValue_eq_malformed_iff :
    integerValue lexeme = .error ⟨.integer, .malformed, lexeme⟩ ↔ ¬ IsDecimal lexeme.toList := by
  constructor
  · intro hmalformed hdecimal
    rw [integerValue_of_isDecimal hdecimal] at hmalformed
    split at hmalformed <;> simp at hmalformed
  · exact integerValue_of_not_isDecimal

end

/-! ## The rule for a class of lexemes -/

/-- The rule for a class of lexemes takes what a scan of the class does, as one node. -/
theorem Rule.matchAt_terminal_iff {t : Terminal} {c d : Cursor} {nodes : List Tree}
    {a : Attempts} :
    (terminal t).matchAt c = .matched nodes d a ↔
      ∃ text, t.scan c.rest = some (text, d.rest) ∧ d = c.advance text.length ∧ a = .none ∧
        nodes = [.node (.terminal t) c.offset text []] := by
  have hleave : ∀ {text rest : List Char}, t.scan c.rest = some (text, rest) →
      (terminal t).leave c (c.advance text.length) [] =
        [.node (.terminal t) c.offset text []] := by
    intro text rest hscan
    have htext := Cursor.takeBytes_advance (Terminal.append_of_scan hscan).symm
    simp [leave, isSilent, htext]
  constructor
  · intro hmatch
    have hrun := (terminal t).runs_matchAt c
    rw [hmatch] at hrun
    cases hrun with
    | rule hbody =>
        cases hbody with
        | take htake =>
            obtain ⟨rest, hscan⟩ := Primitive.take?_lexeme.1 htake
            have hrest := Cursor.advance_length (Terminal.append_of_scan hscan).symm
            refine ⟨_, ?_, rfl, rfl, hleave hscan⟩
            rw [hrest]
            exact hscan
  · rintro ⟨text, hscan, rfl, rfl, rfl⟩
    have hrun : Runs (.once (.rule (terminal t))) c .none _ :=
      .rule (.take (Primitive.take?_lexeme.2 ⟨_, hscan⟩))
    rw [matchAt_eq hrun, hleave hscan]

/-! ## Literals -/

/-- A text is an integer exactly if it is made of decimal digits, at least one, and stands
for a number that is not too great; if the number is too great the text overflows, and any
other text is malformed.  The rule for character literals takes every character literal,
and of each text that it takes the character behind the opening quote is the value. -/
theorem values_of_literals :
    (∀ (lexeme : String) (v : Int32), integerValue lexeme = .ok v ↔
      IsDecimal lexeme.toList ∧ decimalValue lexeme.toList ≤ 2147483647 ∧
        v.toInt = decimalValue lexeme.toList) ∧
    (∀ lexeme : String, integerValue lexeme = .error ⟨.integer, .overflow, lexeme⟩ ↔
      IsDecimal lexeme.toList ∧ 2147483647 < decimalValue lexeme.toList) ∧
    (∀ lexeme : String, integerValue lexeme = .error ⟨.integer, .malformed, lexeme⟩ ↔
      ¬ IsDecimal lexeme.toList) ∧
    (∀ (c d : Cursor) (nodes : List Tree) (a : Attempts),
      (Rule.terminal .charLit).matchAt c = .matched nodes d a →
        ∃ t v inside, nodes = [t] ∧ t.rule = .terminal .charLit ∧ c.rest = t.text ++ d.rest ∧
          t.text = '\'' :: v :: inside ∧ characterValue t.string = .ok v) ∧
    (∀ (offset : Nat) (text rest : List Char), IsCharLit text →
      (Rule.terminal .charLit).matchAt ⟨offset, text ++ rest⟩ =
        .matched [.node (.terminal .charLit) offset text []] ⟨offset + byteLength text, rest⟩
          .none) := by
  refine ⟨fun _ _ => integerValue_eq_ok_iff, fun _ => integerValue_eq_overflow_iff,
    fun _ => integerValue_eq_malformed_iff, ?_, ?_⟩
  · intro c d nodes a hmatch
    obtain ⟨text, hscan, -, -, rfl⟩ := Rule.matchAt_terminal_iff.1 hmatch
    obtain ⟨hlit, hrest⟩ := (scanCharLit_iff _ _ _).1 hscan
    obtain ⟨v, inside, htext, hvalue⟩ := hlit.characterValue_eq
    exact ⟨_, v, inside, rfl, rfl, hrest, htext, hvalue⟩
  · intro offset text rest hlit
    have hscan : Terminal.charLit.scan (text ++ rest) = some (text, rest) :=
      (scanCharLit_iff _ _ _).2 ⟨hlit, rfl⟩
    refine Rule.matchAt_terminal_iff.2 ⟨text, hscan, ?_, rfl, rfl⟩
    exact (Cursor.advance_length (c := ⟨offset, text ++ rest⟩) rfl).symm

/-- Zeros in front do not make the greatest integer overflow, and the next one does.  An
escape is taken as a literal, and its value is the backslash. -/
theorem values_of_literals_escape :
    let text := ['\'', '\\', 'n', '\'']
    integerValue "0002147483647" = .ok 2147483647 ∧
    integerValue "2147483648" = .error ⟨.integer, .overflow, "2147483648"⟩ ∧
    integerValue "-1" = .error ⟨.integer, .malformed, "-1"⟩ ∧
    IsCharLit text ∧
    (Rule.terminal .charLit).matchAt ⟨3, text ++ [';']⟩ =
      .matched [.node (.terminal .charLit) 3 text []] ⟨7, [';']⟩ .none ∧
    characterValue (String.ofList text) = .ok '\\' := by
  intro text
  obtain ⟨hvalue, hoverflow, hmalformed, htaken, htakes⟩ := values_of_literals
  have hlit : IsCharLit text := Or.inl ⟨'n', rfl, rfl⟩
  have hmatch := htakes 3 text [';'] hlit
  obtain ⟨t, v, inside, ht, -, -, htext, hv⟩ := htaken _ _ _ _ hmatch
  obtain rfl := List.singleton_inj.1 ht
  obtain ⟨rfl, -⟩ : '\\' = v ∧ ['n', '\''] = inside := by simpa [Tree.text, text] using htext
  exact ⟨(hvalue _ _).2 (by decide +kernel), (hoverflow _).2 (by decide +kernel),
    (hmalformed _).2 (by decide +kernel), hlit, hmatch, hv⟩

end DecafFrontEnd
