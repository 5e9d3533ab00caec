/-
  DecafFrontEnd/Proofs/Operator/Precedence.lean --- written expressions are read back.

  What is written of an expression is read either as an operand of any operator or as
  a chain of its own level (`Level.Fits`).  In both cases every level that is no tighter
  than the expression yields it, and brackets stand wherever the level of an operand is
  tighter.  So whatever is written of an expression yields the expression
  (`Expression.Written.yields`).
-/
import DecafFrontEnd.Proofs.Operator.Leaf

set_option autoImplicit false

namespace DecafFrontEnd

/-! ## How closely expressions hold together -/

namespace Expression

theorem tightness_le (e : Expression) : e.tightness ≤ 6 := by
  cases e with
  | binary p lhs sign rhs =>
      rw [tightness]
      cases InfixOp.ofSpelling? sign with
      | none => exact Nat.le_refl 6
      | some op => exact Nat.le_of_lt (Level.tightness_lt op)
  | _ => exact Nat.le_refl 6

theorem tightness_binary (p : Position) (lhs rhs : Expression) (op : InfixOp) :
    (binary p lhs op.spelling rhs).tightness = op.tightness := by
  simp only [tightness, op.ofSpelling?_spelling, Option.map_some, Option.getD_some]

theorem tightness_of_not_binary {e : Expression} (h : e.isBinary ≠ true) : e.tightness = 6 := by
  cases e with
  | binary => exact absurd rfl h
  | _ => rfl

end Expression

/-! ## Operands and chains -/

namespace Level

/-- The lexemes are read as the expression: as an operand of any operator, or as a
chain of the operators that it is made with. -/
def Fits (ls : List Lexeme) (e : Expression) : Prop :=
  Phrase.unaryExpr.Yields ls e ∨
    ∃ op : InfixOp, e.tightness = op.tightness ∧ Joins op.tightness ls e

namespace Fits

variable {ls : List Lexeme} {e : Expression} {k : Nat}

/-- Every level that is no tighter than the expression yields it. -/
theorem yields (h : Fits ls e) (hk : k ≤ e.tightness) : (form k).Yields ls e := by
  rcases h with hunary | ⟨op, htight, hjoins⟩
  · have hoperand : (form 6).Yields ls e := hunary
    exact yields_mono hoperand (Nat.le_trans hk e.tightness_le) (Nat.le_refl 6)
  · have hlt := tightness_lt op
    exact yields_mono (yields_of_joins hlt hjoins) (by omega) (by omega)

theorem joins (h : Fits ls e) (hk : k ≤ e.tightness) (hk6 : k < 6) : Joins k ls e := by
  rcases h with hunary | ⟨op, htight, hjoins⟩
  · have hoperand : (form 6).Yields ls e := hunary
    exact joins_of_yields hk6 (yields_mono hoperand (by omega) (Nat.le_refl 6))
  · by_cases hsame : k = op.tightness
    · rw [hsame]
      exact hjoins
    · have hlt := tightness_lt op
      exact joins_of_yields hk6 (yields_mono (yields_of_joins hlt hjoins) (by omega) (by omega))

theorem bracketed (h : Fits ls e) : Phrase.unaryExpr.Yields (Lexeme.bracketed ls) e :=
  .bracketed (h.yields (Nat.zero_le _))

/-- A left operand, between brackets if it is looser than its level. -/
theorem left (h : Fits ls e) (hk : k < 6) :
    Joins k (Lexeme.bracketedIf (e.tightness < k) ls) e := by
  unfold Lexeme.bracketedIf
  split
  · have hoperand : (form 6).Yields (Lexeme.bracketed ls) e := h.bracketed
    exact joins_of_yields hk (yields_mono hoperand (by omega) (Nat.le_refl 6))
  · exact h.joins (by omega) hk

/-- A right operand, between brackets unless it is tighter than its level. -/
theorem right (h : Fits ls e) (hk : k < 6) :
    (form (k + 1)).Yields (Lexeme.bracketedIf (e.tightness ≤ k) ls) e := by
  unfold Lexeme.bracketedIf
  split
  · have hoperand : (form 6).Yields (Lexeme.bracketed ls) e := h.bracketed
    exact yields_mono hoperand (by omega) (Nat.le_refl 6)
  · exact h.yields (by omega)

/-- What is negated, between brackets if it has two operands. -/
theorem negated (h : Fits ls e) :
    Phrase.unaryExpr.Yields (Lexeme.bracketedIf (e.isBinary = true) ls) e := by
  unfold Lexeme.bracketedIf
  split
  · exact h.bracketed
  · next hbinary =>
      have htight := Expression.tightness_of_not_binary hbinary
      have hoperand : (form 6).Yields ls e := h.yields (by omega)
      exact hoperand

end Fits

end Level

/-! ## Written expressions -/

namespace Expression.Written

variable {e : Expression} {ls : List Lexeme}

theorem fits (h : e.Written ls) : Level.Fits ls e := by
  induction h with
  | leaf hspelled => exact Or.inl hspelled.yields
  | negation p _ ih => exact Or.inl (.negation p ih.negated)
  | operation p op _ _ ihl ihr =>
      have hlt := Level.tightness_lt op
      exact Or.inr ⟨op, tightness_binary p _ _ op, (ihl.left hlt).binary p op (ihr.right hlt)⟩
  | brackets _ ih => exact Or.inl ih.bracketed

/-- What is written of an expression yields it. -/
theorem yields (h : e.Written ls) : Phrase.expr.Yields ls e := by
  obtain ⟨sk, hderives, hsk⟩ : Phrase.orExpr.Yields ls e := h.fits.yields (Nat.zero_le _)
  exact .inner (by decide) hderives hsk

end Expression.Written

end DecafFrontEnd
