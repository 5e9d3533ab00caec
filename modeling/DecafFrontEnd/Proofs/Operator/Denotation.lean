/-
  DecafFrontEnd/Proofs/Operator/Denotation.lean --- derivations and their expressions.

  A skeleton denotes an expression when every tree of a text with that skeleton is
  lowered to the expression, up to positions.  `Phrase.Yields p ls e` says that the
  lexemes `ls` have a derivation from the phrase `p` that denotes `e`.

  A level of operators is a chain of operands that is folded to the left
  (`Level.Joins`).  One more operator with its operand may stand behind a chain
  (`Level.Joins.binary`), and an operand is a chain of one, so what a level yields is
  also yielded by every looser level.
-/
import DecafFrontEnd.Proofs.Ast.Relocate
import DecafFrontEnd.Proofs.Lowering.Content
import DecafFrontEnd.Proofs.Lowering.Expression
import DecafFrontEnd.Proofs.Operator.Writing

set_option autoImplicit false

namespace DecafFrontEnd

open Pattern

/-! ## Trees with a given skeleton -/

namespace Tree

theorem skeleton_eq_node {t : Tree} {r : Rule} {w : List Char} {sks : List Skeleton}
    (h : t.skeleton = .node r w sks) :
    ∃ start text children, t = .node r start text children ∧ r.word text = w ∧
      skeletons children = sks := by
  obtain ⟨r', start, text, children⟩ := t
  simp only [skeleton, Skeleton.node.injEq] at h
  obtain ⟨rfl, hword, hchildren⟩ := h
  exact ⟨start, text, children, rfl, hword, hchildren⟩

theorem skeletons_eq_nil {ts : List Tree} (h : skeletons ts = []) : ts = [] := by
  cases ts with
  | nil => rfl
  | cons t ts => simp at h

theorem skeletons_eq_cons {ts : List Tree} {sk : Skeleton} {sks : List Skeleton}
    (h : skeletons ts = sk :: sks) :
    ∃ t rest, ts = t :: rest ∧ t.skeleton = sk ∧ skeletons rest = sks := by
  cases ts with
  | nil => simp at h
  | cons t rest =>
      rw [skeletons_cons, List.cons.injEq] at h
      exact ⟨t, rest, rfl, h.1, h.2⟩

theorem skeletons_eq_singleton {ts : List Tree} {sk : Skeleton} (h : skeletons ts = [sk]) :
    ∃ t, ts = [t] ∧ t.skeleton = sk := by
  obtain ⟨t, rest, rfl, ht, hrest⟩ := skeletons_eq_cons h
  rw [skeletons_eq_nil hrest]
  exact ⟨t, rfl, ht⟩

theorem skeleton_eq_wrapping {t : Tree} {r : Rule} {w : List Char} {sk : Skeleton}
    (h : t.skeleton = .node r w [sk]) :
    ∃ start text c, t = .node r start text [c] ∧ c.skeleton = sk := by
  obtain ⟨start, text, children, rfl, -, hchildren⟩ := skeleton_eq_node h
  obtain ⟨c, rfl, hc⟩ := skeletons_eq_singleton hchildren
  exact ⟨start, text, c, rfl, hc⟩

theorem skeletons_eq_append {ts : List Tree} {sks sks' : List Skeleton}
    (h : skeletons ts = sks ++ sks') :
    ∃ front back, ts = front ++ back ∧ skeletons front = sks ∧ skeletons back = sks' := by
  induction sks generalizing ts with
  | nil => exact ⟨[], ts, rfl, rfl, h⟩
  | cons sk sks ih =>
      obtain ⟨t, rest, rfl, ht, hrest⟩ := skeletons_eq_cons h
      obtain ⟨front, back, rfl, hfront, hback⟩ := ih hrest
      exact ⟨t :: front, back, rfl, by rw [skeletons_cons, ht, hfront], hback⟩

/-- The tree of a lexeme. -/
theorem skeleton_eq_word {t : Tree} {l : Lexeme}
    (h : t.skeleton = .node (.terminal l.terminal) l.text []) :
    ∃ start, t = .node (.terminal l.terminal) start l.text [] := by
  obtain ⟨start, text, children, rfl, rfl, hchildren⟩ := skeleton_eq_node h
  rw [skeletons_eq_nil hchildren]
  exact ⟨start, rfl⟩

end Tree

/-! ## Derivations of words, phrases and chains -/

namespace Derives

/-- A lexeme that leaves a node. -/
theorem word (l : Lexeme) :
    Derives (term l.terminal) [l] [.node (.terminal l.terminal) l.text []] := by
  have hrule : Derives (term l.terminal) [l] _ := .rule (.lexeme l)
  simpa [Rule.sketch, Rule.isSilent, Rule.word, Lexeme.texts] using hrule

theorem phrase {p : Phrase} {ls : List Lexeme} {sks : List Skeleton} (h : Derives p.body ls sks) :
    Derives (.phrase p) ls [.node (.phrase p) [] sks] := .rule h

/-- One more round behind a repetition. -/
theorem snoc {p : Pattern} {ls ls' : List Lexeme} {sks sks' : List Skeleton}
    (h : Derives (.many p) ls sks) (h' : Derives p ls' sks') :
    Derives (.many p) (ls ++ ls') (sks ++ sks') := by
  generalize hq : Pattern.many p = q at h
  induction h with
  | more hfirst _ _ ih =>
      obtain rfl := Pattern.many.inj hq
      rw [List.append_assoc, List.append_assoc]
      exact .more hfirst (ih rfl)
  | none =>
      obtain rfl := Pattern.many.inj hq
      rw [List.nil_append, List.nil_append, ← List.append_nil ls', ← List.append_nil sks']
      exact .more h' .none
  | _ => simp at hq

end Derives

/-! ## What a derivation denotes -/

/-- Every tree of a text with this skeleton is lowered to one thing, once its positions
are taken off. -/
def Skeleton.LowersTo {α : Type} (sk : Skeleton) (s : Source) (lower : Tree → Lowered α)
    (unplace : α → α) (v : α) : Prop :=
  ∀ t : Tree, t.skeleton = sk → t.Placed s.chars → ∃ v', lower t = .ok v' ∧ unplace v' = v

/-- Every tree of a text with this skeleton is lowered to the expression, up to
positions. -/
def Skeleton.Denotes (sk : Skeleton) (e : Expression) : Prop :=
  ∀ s : Source, sk.LowersTo s s.lowerExpression Expression.unplaced e.unplaced

/-- The lexemes have a derivation from the phrase that denotes the expression. -/
def Phrase.Yields (p : Phrase) (ls : List Lexeme) (e : Expression) : Prop :=
  ∃ sk, Derives (phrase p) ls [sk] ∧ sk.Denotes e

/-- Phrases that stand for the one expression in them. -/
theorem Phrase.Yields.inner {p : Phrase} {ls : List Lexeme} {e : Expression} {sk : Skeleton}
    (hp : p = .expr ∨ p = .unaryExpr ∨ p = .primary ∨ p = .parenExpr)
    (hderives : Derives p.body ls [sk]) (hsk : sk.Denotes e) : p.Yields ls e := by
  refine ⟨_, .phrase hderives, ?_⟩
  intro s t ht hplaced
  obtain ⟨start, text, c, rfl, hc⟩ := Tree.skeleton_eq_wrapping ht
  obtain ⟨e', he', hunplaced⟩ := hsk s c hc hplaced.child
  refine ⟨e', ?_, hunplaced⟩
  rcases hp with rfl | rfl | rfl | rfl <;> exact he'

/-! ## Levels -/

namespace Level

/-- The phrase of the expressions that hold together at least so closely. -/
def form : Nat → Phrase
  | 0 => .orExpr
  | 1 => .andExpr
  | 2 => .eqExpr
  | 3 => .relExpr
  | 4 => .addExpr
  | 5 => .mulExpr
  | _ => .unaryExpr

/-- The operators that bind so closely. -/
def operator : Nat → Terminal
  | 0 => .orOp
  | 1 => .andOp
  | 2 => .eqOp
  | 3 => .relOp
  | 4 => .addOp
  | _ => .mulOp

theorem body_form {k : Nat} (hk : k < 6) :
    (form k).body = chain (form (k + 1)) (operator k) := by
  match k with
  | 0 | 1 | 2 | 3 | 4 | 5 => rfl
  | k + 6 => omega

theorem operator_tightness (op : InfixOp) : operator op.tightness = op.terminal := by
  cases op <;> rfl

theorem tightness_lt (op : InfixOp) : op.tightness < 6 := by cases op <;> decide

end Level

namespace Source

variable {s : Source}

/-- The operands of a level are joined from the first one on. -/
theorem lowerExpression_level {k start : Nat} {text : List Char} {first : Tree}
    {rest : List Tree} (hk : k < 6) :
    s.lowerExpression (.node (.phrase (Level.form k)) start text (first :: rest)) =
      (s.lowerExpression first >>= fun v =>
        s.lowerOperands (Level.operator k) (s.positionAt start) v rest) := by
  match k with
  | 0 | 1 | 2 | 3 | 4 | 5 => simp only [Level.form, Level.operator, lowerExpression, levelOperator?]
  | k + 6 => omega

/-- Operands that are joined go on to be joined with more. -/
theorem lowerOperands_append {operator : Terminal} {position : Position} (more : List Tree) :
    ∀ {rest : List Tree} {lhs v : Expression},
      s.lowerOperands operator position lhs rest = .ok v →
      s.lowerOperands operator position lhs (rest ++ more) =
        s.lowerOperands operator position v more
  | [], lhs, v, h => by
      rw [lowerOperands] at h
      obtain rfl := Except.ok.inj h
      rfl
  | [sign], lhs, v, h => by
      rw [lowerOperands] at h
      split at h <;> simp at h
  | sign :: operand :: rest, lhs, v, h => by
      rw [lowerOperands] at h
      split at h
      · next hsign =>
          obtain ⟨rhs, hrhs, hrest⟩ := bind_eq_ok.1 h
          rw [List.cons_append, List.cons_append, lowerOperands, if_pos hsign]
          simp only [hrhs, ok_bind]
          exact lowerOperands_append more hrest
      · simp at h

end Source

/-! ## Chains of operands -/

/-- Every list of trees of a text with these skeletons is joined to the expression, up
to positions. -/
def Level.ChainDenotes (k : Nat) (sks : List Skeleton) (e : Expression) : Prop :=
  ∀ (s : Source) (position : Position) (ts : List Tree), Tree.skeletons ts = sks →
    (∀ t ∈ ts, t.Placed s.chars) →
    ∃ first rest e', ts = first :: rest ∧
      (s.lowerExpression first >>= fun v =>
        s.lowerOperands (Level.operator k) position v rest) = .ok e' ∧
      e'.unplaced = e.unplaced

/-- The lexemes have a derivation from the operands of a level that denotes the
expression. -/
def Level.Joins (k : Nat) (ls : List Lexeme) (e : Expression) : Prop :=
  ∃ sks, Derives (Level.form k).body ls sks ∧ Level.ChainDenotes k sks e

namespace Level

variable {k : Nat} {ls ls' : List Lexeme} {e lhs rhs : Expression}

/-- One operand is a chain. -/
theorem joins_of_yields (hk : k < 6) (h : (form (k + 1)).Yields ls e) : Joins k ls e := by
  obtain ⟨sk, hderives, hsk⟩ := h
  refine ⟨[sk], ?_, fun s position ts hts hplaced => ?_⟩
  · have hchain : Derives (form k).body (ls ++ []) ([sk] ++ []) := by
      rw [body_form hk]
      exact .seq hderives .none
    rwa [List.append_nil, List.append_nil] at hchain
  · obtain ⟨t, rfl, ht⟩ := Tree.skeletons_eq_singleton hts
    obtain ⟨e', he', hunplaced⟩ := hsk s t ht (hplaced t (by simp))
    refine ⟨t, [], e', rfl, ?_, hunplaced⟩
    rw [he', ok_bind, Source.lowerOperands]

/-- A chain is an expression of its level. -/
theorem yields_of_joins (hk : k < 6) (h : Joins k ls e) : (form k).Yields ls e := by
  obtain ⟨sks, hderives, hsks⟩ := h
  refine ⟨_, .phrase hderives, ?_⟩
  intro s t ht hplaced
  obtain ⟨start, text, children, rfl, -, hchildren⟩ := Tree.skeleton_eq_node ht
  obtain ⟨first, rest, e', rfl, he', hunplaced⟩ :=
    hsks s (s.positionAt start) children hchildren hplaced.children
  exact ⟨e', by rw [Source.lowerExpression_level hk, he'], hunplaced⟩

/-- One more operator and its operand behind a chain. -/
theorem Joins.binary (p : Position) (op : InfixOp) (h : Joins op.tightness ls lhs)
    (h' : (form (op.tightness + 1)).Yields ls' rhs) :
    Joins op.tightness (ls ++ op.lexeme :: ls') (.binary p lhs op.spelling rhs) := by
  obtain ⟨sks, hderives, hsks⟩ := h
  obtain ⟨sk, hderives', hsk⟩ := h'
  have hbody := body_form (tightness_lt op)
  refine ⟨sks ++ [.node (.terminal op.terminal) op.lexeme.text [], sk], ?_,
    fun s position ts hts hplaced => ?_⟩
  · rw [hbody] at hderives ⊢
    cases hderives with
    | @seq _ _ ls ls'' sks sks'' hfirst hothers =>
        have hround : Derives (term (operator op.tightness) >> phrase (form (op.tightness + 1)))
            ([op.lexeme] ++ ls') ([.node (.terminal op.terminal) op.lexeme.text []] ++ [sk]) := by
          rw [operator_tightness]
          exact .seq (.word op.lexeme) hderives'
        have hchain := Derives.seq hfirst (hothers.snoc hround)
        simp only [List.append_assoc, List.singleton_append] at hchain ⊢
        exact hchain
  · obtain ⟨front, back, rfl, hfront, hback⟩ := Tree.skeletons_eq_append hts
    obtain ⟨sign, _, rfl, hsign, hoperand⟩ := Tree.skeletons_eq_cons hback
    obtain ⟨operand, rfl, hoperand'⟩ := Tree.skeletons_eq_singleton hoperand
    obtain ⟨start, rfl⟩ := Tree.skeleton_eq_word (l := op.lexeme) hsign
    obtain ⟨first, rest, v, rfl, hv, hlhs⟩ :=
      hsks s position front hfront fun t ht => hplaced t (by simp [ht])
    obtain ⟨r, hr, hrhs⟩ := hsk s operand hoperand' (hplaced operand (by simp))
    obtain ⟨first', hfirst', hrest⟩ := bind_eq_ok.1 hv
    have hrule : (Tree.node (.terminal op.lexeme.terminal) start op.lexeme.text []).rule =
        .terminal op.terminal := rfl
    refine ⟨first, rest ++ [_, operand], .binary position v op.spelling r, rfl, ?_, ?_⟩
    · rw [hfirst', ok_bind, Source.lowerOperands_append _ hrest, operator_tightness,
        Source.lowerOperands, if_pos hrule]
      simp only [hr, ok_bind, Source.lowerOperands, Tree.string, Tree.text, InfixOp.lexeme,
        String.ofList_toList]
    · rw [Expression.unplaced_binary, Expression.unplaced_binary, hlhs, hrhs]

/-- What a level yields is yielded by every looser level. -/
theorem yields_mono {j : Nat} (h : (form j).Yields ls e) (hk : k ≤ j) (hj : j ≤ 6) :
    (form k).Yields ls e := by
  induction hk with
  | refl => exact h
  | @step j _ ih => exact ih (yields_of_joins hj (joins_of_yields hj h)) (by omega)

end Level

/-! ## Brackets and negation -/

namespace Phrase.Yields

variable {ls : List Lexeme} {e : Expression}

/-- A primary expression is an operand of any operator. -/
theorem unary_of_primary (h : Phrase.primary.Yields ls e) : Phrase.unaryExpr.Yields ls e := by
  obtain ⟨sk, hderives, hsk⟩ := h
  exact .inner (by decide) (.right hderives) hsk

/-- An expression between brackets is an operand of any operator. -/
theorem bracketed (h : Phrase.orExpr.Yields ls e) :
    Phrase.unaryExpr.Yields (Lexeme.bracketed ls) e := by
  obtain ⟨sk, hderives, hsk⟩ := h
  obtain ⟨sk, hderives, hsk⟩ : Phrase.expr.Yields ls e := .inner (by decide) hderives hsk
  have hparen : Derives Phrase.parenExpr.body (Lexeme.bracketed ls) ([] ++ ([sk] ++ [])) :=
    .seq (.lexeme ⟨.lparen, ['(']⟩) (.seq hderives (.lexeme ⟨.rparen, [')']⟩))
  obtain ⟨sk, hderives, hsk⟩ : Phrase.parenExpr.Yields (Lexeme.bracketed ls) e :=
    .inner (by decide) hparen hsk
  exact unary_of_primary (.inner (by decide) (.left hderives) hsk)

/-- A negated operand. -/
theorem negation (p : Position) (h : Phrase.unaryExpr.Yields ls e) :
    Phrase.unaryExpr.Yields (Lexeme.notSign :: ls) (.unary p "!" e) := by
  obtain ⟨sk, hderives, hsk⟩ := h
  have hnot : Derives Phrase.notExpr.body ([Lexeme.notSign] ++ ls) ([_] ++ [sk]) :=
    .seq (.word Lexeme.notSign) hderives
  refine .inner (by decide) (.left (.phrase hnot)) ?_
  intro s t ht hplaced
  obtain ⟨start, text, children, rfl, -, hchildren⟩ := Tree.skeleton_eq_node ht
  obtain ⟨sign, _, rfl, hsign, hoperand⟩ := Tree.skeletons_eq_cons hchildren
  obtain ⟨operand, rfl, hoperand'⟩ := Tree.skeletons_eq_singleton hoperand
  obtain ⟨start', rfl⟩ := Tree.skeleton_eq_word (l := Lexeme.notSign) hsign
  obtain ⟨e', he', hunplaced⟩ :=
    hsk s operand hoperand' (hplaced.children operand (by simp [Tree.children]))
  refine ⟨.unary (s.positionAt start) "!" e', ?_, ?_⟩
  · simp only [Source.lowerExpression, he']
    rfl
  · rw [Expression.unplaced_unary, Expression.unplaced_unary, hunplaced]

end Phrase.Yields

end DecafFrontEnd
