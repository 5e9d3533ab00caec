/-
  DecafFrontEnd/Proofs/Json/Text.lean --- the texts of a JSON value say that value.

  Both texts are made by recursion on the value, the indented one with more blanks around
  the structural marks.  Each part of them says the part of the value that it is made of
  (`Json.spells_compact`, `Json.spells_indented`), so each text says the whole value, and
  no other one (`Json.says_text_iff`).
-/
import DecafFrontEnd.Proofs.Json.Reader

set_option autoImplicit false

namespace DecafFrontEnd

namespace Json

/-! ## Strings -/

/-- The unit of a control character as it is escaped. -/
theorem unit?_hexDigit :
    ∀ n < 32, unit? '0' '0' (hexDigit (n / 16)) (hexDigit (n % 16)) = some n := by decide

/-- A character is escaped in a way that stands for it. -/
theorem isChar_escape (c : Char) : IsChar (escape c) c := by
  unfold escape
  split
  · next h => subst h; exact .letter rfl
  split
  · next h => subst h; exact .letter rfl
  split
  · next h => subst h; exact .letter rfl
  split
  · next h => subst h; exact .letter rfl
  split
  · next h => subst h; exact .letter rfl
  split
  · next h => subst h; exact .letter rfl
  split
  · next h => subst h; exact .letter rfl
  split
  · next h => exact .unit (unit?_hexDigit _ h)
  · next hquote hbackslash _ _ _ _ _ hcontrol =>
      exact .plain (Nat.le_of_not_lt hcontrol) hquote hbackslash

theorem isString_quoted (s : String) : IsString (quoted s) s := by
  have hchars : ∀ text : List Char, AreChars (text.flatMap escape) text := by
    intro text
    induction text with
    | nil => exact .nil
    | cons c text ih => exact .cons (isChar_escape c) ih
  exact ⟨_, hchars s.toList, rfl⟩

/-! ## Numbers -/

/-- The decimal digits of a number do not begin with a zero, unless it is zero. -/
theorem head?_toDigits {n : Nat} (hn : n ≠ 0) : (Nat.toDigits 10 n).head? ≠ some '0' := by
  induction n using Nat.strongRecOn with
  | ind n ih =>
      by_cases hsmall : n < 10
      · have hdigit : ∀ d < 10, d ≠ 0 → some d.digitChar ≠ some '0' := by decide
        rw [Nat.toDigits_of_lt_base hsmall]
        exact hdigit n hsmall hn
      · have hfront : (Nat.toDigits 10 (n / 10)).head? ≠ some '0' :=
          ih (n / 10) (by omega) (by omega)
        have hne : Nat.toDigits 10 (n / 10) ≠ [] := Nat.toDigits_ne_nil
        obtain ⟨c, cs, hcs⟩ := List.exists_cons_of_ne_nil hne
        rw [Nat.toDigits_of_base_le (by decide) (by omega)]
        rw [hcs] at hfront ⊢
        exact hfront

theorem isNatural_toDigits (n : Nat) : IsNatural (Nat.toDigits 10 n) n where
  ne_nil := Nat.toDigits_ne_nil
  isDigit _ hc := Nat.isDigit_of_mem_toDigits (by decide) (by decide) hc
  no_leading_zero hzero := by
    by_cases hn : n = 0
    · rw [hn]
      rfl
    · exact absurd hzero (head?_toDigits hn)
  value := Nat.ofDigitChars_ten_toDigits

theorem isInteger_toString (i : Int) : IsInteger (toString i).toList i := by
  cases i with
  | ofNat n =>
      have htext : (toString (Int.ofNat n)).toList = Nat.toDigits 10 n := Nat.toList_repr
      rw [htext]
      exact .natural (isNatural_toDigits n)
  | negSucc n =>
      have htext : (toString (Int.negSucc n)).toList = '-' :: Nat.toDigits 10 (n + 1) := by
        have hsign : toString (Int.negSucc n) = "-" ++ Nat.repr (n + 1) := rfl
        rw [hsign, String.toList_append, Nat.toList_repr]
        rfl
      rw [htext]
      exact .negative (isNatural_toDigits (n + 1))

/-! ## Values -/

theorem isSpace_nil : IsSpace [] := by simp [IsSpace]

theorem isSpace_newLine (indent : Nat) : IsSpace (newLine indent) := by
  intro c hc
  rcases List.mem_cons.1 hc with rfl | hc
  · rfl
  · rw [(List.mem_replicate.1 hc).2]
    rfl

theorem isSpace_blank : IsSpace [' '] := by simp [IsSpace, isBlank]

theorem isMark_alone (mark : Char) : IsMark mark [mark] := ⟨[], [], isSpace_nil, isSpace_nil, rfl⟩

theorem isMark_behind {before : List Char} (h : IsSpace before) (mark : Char) :
    IsMark mark (before ++ [mark]) := ⟨before, [], h, isSpace_nil, rfl⟩

theorem isMark_before {behind : List Char} (mark : Char) (h : IsSpace behind) :
    IsMark mark (mark :: behind) := ⟨[], behind, isSpace_nil, h, rfl⟩

mutual

/-- The compact text of a value says it. -/
theorem spells_compact : ∀ j : Json, Spells j.compact (.value j)
  | .null => .null
  | .bool true => .true
  | .bool false => .false
  | .int i => .int (isInteger_toString i)
  | .str s => .str (isString_quoted s)
  | .arr [] => .emptyArray (isMark_alone '[') (isMark_alone ']')
  | .arr (j :: js) =>
      .array (isMark_alone '[') (spells_compactItems (j :: js) (by simp)) (isMark_alone ']')
  | .obj [] => .emptyObject (isMark_alone '\x7b') (isMark_alone '\x7d')
  | .obj (m :: ms) =>
      .object (isMark_alone '\x7b') (spells_compactMembers (m :: ms) (by simp))
        (isMark_alone '\x7d')

theorem spells_compactItems : ∀ js : List Json, js ≠ [] → Spells (compactItems js) (.items js)
  | [], hne => absurd rfl hne
  | [j], _ => .lastItem (spells_compact j)
  | j :: j' :: js, _ => by
      have hitems := Spells.item (spells_compact j) (isMark_alone ',')
        (spells_compactItems (j' :: js) (by simp))
      simpa [compactItems] using hitems

theorem spells_compactMembers : ∀ ms : List (String × Json), ms ≠ [] →
    Spells (compactMembers ms) (.members ms)
  | [], hne => absurd rfl hne
  | [(k, j)], _ => by
      have hmember := Spells.lastMember (isString_quoted k) (isMark_alone ':') (spells_compact j)
      simpa [compactMembers] using hmember
  | (k, j) :: m :: ms, _ => by
      have hmembers := Spells.member (isString_quoted k) (isMark_alone ':') (spells_compact j)
        (isMark_alone ',') (spells_compactMembers (m :: ms) (by simp))
      simpa [compactMembers] using hmembers

end

mutual

/-- The indented text of a value says it.  The first line of an array or object belongs to
its opening mark, and the line of every further part to the comma before it. -/
theorem spells_indented (indent : Nat) : ∀ j : Json, Spells (j.indented indent) (.value j)
  | .null => .null
  | .bool true => .true
  | .bool false => .false
  | .int i => .int (isInteger_toString i)
  | .str s => .str (isString_quoted s)
  | .arr [] => .emptyArray (isMark_alone '[') (isMark_alone ']')
  | .arr (j :: js) => by
      obtain ⟨cs, hitems, hcs⟩ := spells_indentedItems (indent + 2) (j :: js) (by simp)
      have harray := Spells.array (isMark_before '[' (isSpace_newLine (indent + 2))) hitems
        (isMark_behind (isSpace_newLine indent) ']')
      simpa [indented, hcs] using harray
  | .obj [] => .emptyObject (isMark_alone '\x7b') (isMark_alone '\x7d')
  | .obj (m :: ms) => by
      obtain ⟨cs, hmembers, hcs⟩ := spells_indentedMembers (indent + 2) (m :: ms) (by simp)
      have hobject := Spells.object (isMark_before '\x7b' (isSpace_newLine (indent + 2))) hmembers
        (isMark_behind (isSpace_newLine indent) '\x7d')
      simpa [indented, hcs] using hobject

theorem spells_indentedItems (indent : Nat) : ∀ js : List Json, js ≠ [] →
    ∃ cs, Spells cs (.items js) ∧ indentedItems indent js = newLine indent ++ cs
  | [], hne => absurd rfl hne
  | [j], _ => ⟨_, .lastItem (spells_indented indent j), rfl⟩
  | j :: j' :: js, _ => by
      obtain ⟨cs, hitems, hcs⟩ := spells_indentedItems indent (j' :: js) (by simp)
      refine ⟨_, .item (spells_indented indent j) (isMark_before ',' (isSpace_newLine indent))
        hitems, ?_⟩
      simp [indentedItems, hcs]

theorem spells_indentedMembers (indent : Nat) : ∀ ms : List (String × Json), ms ≠ [] →
    ∃ cs, Spells cs (.members ms) ∧ indentedMembers indent ms = newLine indent ++ cs
  | [], hne => absurd rfl hne
  | [(k, j)], _ => by
      refine ⟨_, .lastMember (isString_quoted k) (isMark_before ':' isSpace_blank)
        (spells_indented indent j), ?_⟩
      simp [indentedMembers]
  | (k, j) :: m :: ms, _ => by
      obtain ⟨cs, hmembers, hcs⟩ := spells_indentedMembers indent (m :: ms) (by simp)
      refine ⟨_, .member (isString_quoted k) (isMark_before ':' isSpace_blank)
        (spells_indented indent j) (isMark_before ',' (isSpace_newLine indent)) hmembers, ?_⟩
      simp [indentedMembers, hcs]

end

/-! ## Whole texts -/

/-- Either text of a value says this value and no other. -/
theorem says_text_iff (j : Json) (isCompact : Bool) (j' : Json) :
    Says (j.text isCompact) j' ↔ j' = j := by
  have hsays : Says (j.text isCompact) j := by
    cases isCompact with
    | true =>
        exact ⟨[], _, [], isSpace_nil, spells_compact j, isSpace_nil, by simp [text]⟩
    | false =>
        exact ⟨[], _, [], isSpace_nil, spells_indented 0 j, isSpace_nil, by simp [text]⟩
  constructor
  · intro h
    exact h.functional hsays
  · rintro rfl
    exact hsays

end Json

end DecafFrontEnd
