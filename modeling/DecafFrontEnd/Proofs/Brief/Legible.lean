/-
  DecafFrontEnd/Proofs/Brief/Legible.lean --- expressions that can be read in brief.

  The expressions within a well-formed program are well-formed themselves, as expressions or
  as calls.  If the texts that are kept in one have no gaps it is `Legible`, and so are the
  expressions within it.
-/
import DecafFrontEnd.Proofs.Ast.Subexpression
import DecafFrontEnd.Proofs.Brief.Kept

set_option autoImplicit false

namespace DecafFrontEnd

/-! ## Parts of well-formed programs -/

mutual

theorem Location.WellFormed.of_mem : ∀ {l : Location} {e : Expression}, l.WellFormed →
    e ∈ l.expressions → e.WellFormed
  | ⟨_, _, _, none⟩, _, _, he => absurd he List.not_mem_nil
  | ⟨_, _, _, some i⟩, _, h, he => by
      obtain ⟨-, -, -, hi⟩ := h
      exact hi.of_mem he

/-- What stands within an expression is an expression and no call. -/
theorem Expression.WellFormed.of_mem : ∀ {e' e : Expression}, e'.WellFormed →
    e ∈ e'.expressions → e.WellFormed
  | .simple .., _, h, he | .integer .., _, h, he | .character .., _, h, he
  | .boolean .., _, h, he | .null _, _, h, he => List.mem_singleton.1 he ▸ h
  | .binary _ lhs _ rhs, _, h, he => by
      rcases List.mem_cons.1 he with rfl | he
      · exact h
      · obtain ⟨hlhs, -, hrhs⟩ := h
        rcases List.mem_append.1 he with he | he
        · exact hlhs.of_mem he
        · exact hrhs.of_mem he
  | .unary _ _ operand, _, h, he => by
      rcases List.mem_cons.1 he with rfl | he
      · exact h
      · obtain ⟨-, hoperand⟩ := h
        exact hoperand.of_mem he

end

namespace Expression

theorem WellFormed.of_mem_expressionsOf {es : List Expression} {e : Expression}
    (h : ∀ e ∈ es, e.WellFormed) (he : e ∈ expressionsOf es) : e.WellFormed := by
  rw [expressionsOf_eq, List.mem_flatMap] at he
  obtain ⟨e', he', he⟩ := he
  exact (h e' he').of_mem he

/-- An expression of a program: one that is no call, or a call that stands as a statement. -/
def Stands (e : Expression) : Prop := e.WellFormed ∨ e.WellFormedCall

theorem WellFormedCall.of_mem {e' e : Expression} (h : e'.WellFormedCall)
    (he : e ∈ e'.expressions) : e.Stands := by
  cases e' with
  | call p method arguments =>
      rcases List.mem_cons.1 he with rfl | he
      · exact .inr h
      · rcases List.mem_append.1 he with he | he
        · exact .inl (h.1.of_mem he)
        · exact .inl (.of_mem_expressionsOf h.2 he)
  | callout p name arguments =>
      rcases List.mem_cons.1 he with rfl | he
      · exact .inr h
      · exact .inl (.of_mem_expressionsOf h.2 he)
  | _ => exact h.elim

end Expression

mutual

theorem Block.WellFormed.of_mem : ∀ {b : Block} {e : Expression}, b.WellFormed →
    e ∈ b.expressions → e.Stands
  | ⟨_, _, _⟩, _, h, he => Statement.AllWellFormed.of_mem h.2 he

theorem Statement.WellFormed.of_mem : ∀ {st : Statement} {e : Expression}, st.WellFormed →
    e ∈ st.expressions → e.Stands
  | .assignment .., _, h, he => by
      rcases List.mem_append.1 he with he | he
      · exact .inl (h.1.of_mem he)
      · exact .inl (h.2.of_mem he)
  | .expressionStatement .., _, h, he => Expression.WellFormedCall.of_mem h he
  | .ifStatement _ _ _ none, _, h, he => by
      obtain ⟨hcondition, hblock, -⟩ := h
      rcases List.mem_append.1 he with he | he
      · exact .inl (hcondition.of_mem he)
      · rw [List.append_nil] at he
        exact hblock.of_mem he
  | .ifStatement _ _ _ (some _), _, h, he => by
      obtain ⟨hcondition, hblock, hother⟩ := h
      rcases List.mem_append.1 he with he | he
      · exact .inl (hcondition.of_mem he)
      · rcases List.mem_append.1 he with he | he
        · exact hblock.of_mem he
        · exact hother.of_mem he
  | .whileStatement .., _, h, he => by
      rcases List.mem_append.1 he with he | he
      · exact .inl (h.1.of_mem he)
      · exact h.2.of_mem he
  | .returnStatement _ none, _, _, he => absurd he List.not_mem_nil
  | .returnStatement _ (some e'), _, h, he => .inl ((h e' rfl).of_mem he)

theorem Statement.AllWellFormed.of_mem : ∀ {sts : List Statement} {e : Expression},
    Statement.AllWellFormed sts → e ∈ Statement.expressionsOf sts → e.Stands
  | [], _, _, he => absurd he List.not_mem_nil
  | _ :: _, _, h, he => by
      rcases List.mem_append.1 he with he | he
      · exact h.1.of_mem he
      · exact Statement.AllWellFormed.of_mem h.2 he

end

theorem Program.WellFormed.of_mem {p : Program} {e : Expression} (h : p.WellFormed)
    (he : e ∈ p.expressions) : e.Stands := by
  obtain ⟨c, hc, he⟩ := List.mem_flatMap.1 he
  obtain ⟨m, hm, he⟩ := List.mem_flatMap.1 he
  exact ((h.classes c hc).methods m hm).body.of_mem he

/-! ## Legible expressions -/

/-- The text that is kept in an expression of one text. -/
def Expression.keptText? : Expression → Option String
  | simple _ text => some text
  | _ => none

/-- The texts that are kept in some expressions. -/
def keptTexts (es : List Expression) : List String := es.filterMap Expression.keptText?

/-- No text that is kept in some expressions has gaps. -/
def KeepTight (es : List Expression) : Prop := ∀ text ∈ keptTexts es, IsTight text

instance (es : List Expression) : Decidable (KeepTight es) :=
  inferInstanceAs (Decidable (∀ _ ∈ _, _))

theorem keepTight_append {es es' : List Expression} :
    KeepTight (es ++ es') ↔ KeepTight es ∧ KeepTight es' := by
  simp only [KeepTight, keptTexts, List.filterMap_append, List.mem_append, or_imp, forall_and]

theorem KeepTight.of_cons {e : Expression} {es : List Expression} (h : KeepTight (e :: es)) :
    KeepTight es := by
  rw [← List.singleton_append, keepTight_append] at h
  exact h.2

mutual

/-- A location that can be read in brief. -/
def Location.Legible : Location → Prop
  | ⟨_, root, path, index⟩ =>
      IsName root ∧ (∀ x ∈ path, IsName x) ∧ (path = none ∨ index = none) ∧
        match index with
        | some e => e.Legible
        | none => True

/-- An expression that can be read in brief. -/
def Expression.Legible : Expression → Prop
  | .simple _ text => IsKeptText text ∧ IsTight text
  | .binary _ lhs sign rhs =>
      lhs.Legible ∧ (∃ op : InfixOp, sign = op.spelling) ∧ rhs.Legible
  | .unary _ sign operand => sign = "!" ∧ operand.Legible
  | .call _ method arguments => method.Legible ∧ Expression.AllLegible arguments
  | .callout _ primitiveId arguments =>
      IsStringBody primitiveId ∧ Expression.AllLegible arguments
  | .integer _ value => 0 ≤ value.toInt
  | .character .. | .boolean .. | .null _ => True

/-- Expressions that can be read in brief. -/
def Expression.AllLegible : List Expression → Prop
  | [] => True
  | e :: es => e.Legible ∧ Expression.AllLegible es

end

mutual

theorem Location.WellFormed.legible : ∀ {l : Location}, l.WellFormed →
    KeepTight l.expressions → l.Legible
  | ⟨_, _, _, none⟩, h, _ => h
  | ⟨_, _, _, some _⟩, h, htight => by
      obtain ⟨hroot, hpath, hone, hindex⟩ := h
      exact ⟨hroot, hpath, hone, hindex.legible htight⟩

theorem Expression.WellFormed.legible : ∀ {e : Expression}, e.WellFormed →
    KeepTight e.expressions → e.Legible
  | .simple .., h, htight => ⟨h, htight _ List.mem_cons_self⟩
  | .binary .., h, htight => by
      obtain ⟨hlhs, hsign, hrhs⟩ := h
      obtain ⟨htightl, htightr⟩ := keepTight_append.1 htight.of_cons
      exact ⟨hlhs.legible htightl, hsign, hrhs.legible htightr⟩
  | .unary .., h, htight => ⟨h.1, h.2.legible htight.of_cons⟩
  | .integer .., h, _ => h.1
  | .character .., _, _ | .boolean .., _, _ | .null _, _, _ => trivial

end

namespace Expression

theorem allLegible_of_wellFormed {es : List Expression} (h : ∀ e ∈ es, e.WellFormed)
    (htight : KeepTight (expressionsOf es)) : AllLegible es := by
  induction es with
  | nil => trivial
  | cons e es ih =>
      obtain ⟨he, hes⟩ := List.forall_mem_cons.1 h
      obtain ⟨hfirst, hothers⟩ := keepTight_append.1 htight
      exact ⟨he.legible hfirst, ih hes hothers⟩

theorem WellFormedCall.legible {e : Expression} (h : e.WellFormedCall)
    (htight : KeepTight e.expressions) : e.Legible := by
  cases e with
  | call p method arguments =>
      obtain ⟨hfirst, hothers⟩ := keepTight_append.1 htight.of_cons
      exact ⟨h.1.legible hfirst, allLegible_of_wellFormed h.2 hothers⟩
  | callout p name arguments => exact ⟨h.1, allLegible_of_wellFormed h.2 htight.of_cons⟩
  | _ => exact h.elim

theorem Stands.legible {e : Expression} (h : e.Stands) (htight : KeepTight e.expressions) :
    e.Legible := by
  rcases h with h | h
  · exact h.legible htight
  · exact h.legible htight

end Expression

end DecafFrontEnd
