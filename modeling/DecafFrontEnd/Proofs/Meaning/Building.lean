/-
  DecafFrontEnd/Proofs/Meaning/Building.lean --- a tree for every expression.

  A text that means an expression, a location, a call or arguments is covered by a node
  that is lowered to it (`Source.Means.given`).  The node is put together along the rules
  of the meaning: every rule makes the node of one phrase from those of its parts, and an
  operation adds one more round to the chain of its left operand.
-/
import DecafFrontEnd.Proofs.Meaning.Expression

set_option autoImplicit false

namespace DecafFrontEnd

/-! ## Nodes that are lowered to a value -/

/-- A node of a phrase stands between two places and is lowered to a value. -/
def Phrase.Gives {α : Type} (p : Phrase) (lower : Tree → Lowered α) (c : Cursor) (v : α)
    (d : Cursor) : Prop :=
  ∃ t : Tree, t.rule = .phrase p ∧ t.Stands c d ∧ lower t = .ok v

namespace Phrase.Gives

variable {α : Type} {p : Phrase} {lower : Tree → Lowered α} {c d : Cursor} {v : α}
  {children : List Tree}

/-- The parts of a phrase that are lowered to a value when they are in one node. -/
theorem of_spans (hc : c.Rested) (hspans : p.body.Spans c children d)
    (h : ∀ text, lower (.node (.phrase p) c.offset text children) = .ok v) :
    p.Gives lower c v d := by
  obtain ⟨text, hstands⟩ := Tree.exists_stands hc hspans
  exact ⟨_, rfl, hstands, h text⟩

/-- What gives a value is made of the parts of the phrase. -/
theorem exists_spans (h : p.Gives lower c v d) (hp : p ≠ .program) (hc : c.Rested) :
    ∃ text children, p.body.Spans c children d ∧
      lower (.node (.phrase p) c.offset text children) = .ok v := by
  obtain ⟨⟨rule, start, text, children⟩, ⟨⟩, hstands, hlower⟩ := h
  obtain ⟨rfl, hspans⟩ := hstands.of_phrase hp hc
  exact ⟨text, children, hspans, hlower⟩

theorem length_le (h : p.Gives lower c v d) : d.rest.length ≤ c.rest.length := by
  obtain ⟨t, -, hstands, -⟩ := h
  exact hstands.reaches.length_le

theorem isPlace {s : Source} (h : p.Gives lower c v d) (hc : s.IsPlace c) : s.IsPlace d := by
  obtain ⟨t, -, hstands, -⟩ := h
  exact hc.of_stands hstands

end Phrase.Gives

namespace Source

variable {s : Source} {c d : Cursor} {e : Expression}

/-! ## Phrases with one expression in them -/

/-- A phrase that stands for one expression. -/
theorem gives_inner {p inner : Phrase} (h : inner.Gives s.lowerExpression c e d)
    (hp : p = .expr ∨ p = .unaryExpr ∨ p = .primary)
    (hbody : ∀ t : Tree, t.rule = .phrase inner → t.Stands c d → p.body.Spans c [t] d)
    (hc : c.Rested) : p.Gives s.lowerExpression c e d := by
  obtain ⟨t, hrule, hstands, hlower⟩ := h
  refine .of_spans hc (hbody t hrule hstands) fun text => ?_
  rcases hp with rfl | rfl | rfl <;> exact hlower

theorem gives_expr (h : (Level.form 0).Gives s.lowerExpression c e d) (hc : c.Rested) :
    Phrase.expr.Gives s.lowerExpression c e d :=
  gives_inner h (by decide) (fun t hrule hstands => ⟨t, rfl, hrule, hstands⟩) hc

/-- What a primary expression is made of is an expression of every tightness. -/
theorem gives_unaryExpr {inner : Phrase} (h : inner.Gives s.lowerExpression c e d)
    (hbody : ∀ t : Tree, t.rule = .phrase inner → t.Stands c d →
      Phrase.primary.body.Spans c [t] d)
    (hc : c.Rested) : Phrase.unaryExpr.Gives s.lowerExpression c e d := by
  have hprimary : Phrase.primary.Gives s.lowerExpression c e d :=
    gives_inner h (by decide) hbody hc
  exact gives_inner hprimary (by decide)
    (fun t hrule hstands => Or.inr ⟨t, rfl, hrule, hstands⟩) hc

theorem gives_literal {children : List Tree} (hc : c.Rested)
    (hspans : Phrase.literal.body.Spans c children d)
    (h : ∀ text, s.lowerLiteral (.node (.phrase .literal) c.offset text children) = .ok e) :
    Phrase.unaryExpr.Gives s.lowerExpression c e d := by
  have hliteral : Phrase.literal.Gives s.lowerExpression c e d := .of_spans hc hspans h
  exact gives_unaryExpr hliteral
    (fun t hrule hstands => Or.inr (Or.inr (Or.inr (Or.inl ⟨t, rfl, hrule, hstands⟩)))) hc

/-! ## Operators -/

theorem gives_tighter {k : Nat} (hk : k < 6) (hc : c.Rested)
    (h : (Level.form (k + 1)).Gives s.lowerExpression c e d) :
    (Level.form k).Gives s.lowerExpression c e d := by
  obtain ⟨t, hrule, hstands, hlower⟩ := h
  have hspans : (Level.form k).body.Spans c [t] d := by
    rw [Level.body_form hk]
    exact ⟨[t], [], rfl, d, ⟨t, rfl, hrule, hstands⟩, [], rfl, .nil d⟩
  refine .of_spans hc hspans fun text => ?_
  rw [lowerExpression_level hk, hlower, ok_bind, lowerOperands]

theorem Level.form_ne_program (k : Nat) : Level.form k ≠ .program := by
  unfold Level.form
  split <;> simp

theorem gives_operation (op : InfixOp) {m n : Cursor} {lhs rhs : Expression} (hc : c.Rested)
    (hlhs : (Level.form op.tightness).Gives s.lowerExpression c lhs m)
    (hop : m.Reads [op.lexeme] n)
    (hrhs : (Level.form (op.tightness + 1)).Gives s.lowerExpression n rhs d) :
    (Level.form op.tightness).Gives s.lowerExpression c
      (.binary (s.positionAt c.offset) lhs op.spelling rhs) d := by
  have hk := Level.tightness_lt op
  obtain ⟨text, children, hspans, hlower⟩ := hlhs.exists_spans (Level.form_ne_program _) hc
  obtain ⟨operand, hoperand, hstands, hlowerRhs⟩ := hrhs
  rw [Level.body_form hk] at hspans
  obtain ⟨_, _, rfl, o, ⟨first, rfl, hfirst, hstands'⟩, rounds, rfl, hrounds⟩ := hspans
  have hsign : (Tree.node (.terminal op.terminal) m.offset op.lexeme.text []).Stands m n :=
    Tree.stands_terminal hop
  generalize hnode : Tree.node (.terminal op.terminal) m.offset op.lexeme.text [] = sign at hsign
  have hrule : sign.rule = .terminal op.terminal := by rw [← hnode]; rfl
  have hspelling : sign.string = op.spelling := by
    rw [← hnode]
    exact String.ofList_toList
  have hround : (Pattern.term (Level.operator op.tightness) >>
      Pattern.phrase (Level.form (op.tightness + 1))).Spans m [sign, operand] d := by
    rw [Level.operator_tightness]
    exact ⟨[sign], [operand], rfl, n, ⟨sign, rfl, hrule, hsign⟩, operand, rfl, hoperand, hstands⟩
  have hspans : (Level.form op.tightness).body.Spans c
      ([first] ++ (rounds ++ [[sign, operand]]).flatten) d := by
    rw [Level.body_form hk]
    exact ⟨[first], _, rfl, o, ⟨first, rfl, hfirst, hstands'⟩, _, rfl, hrounds.append (.one hround)⟩
  refine .of_spans hc hspans fun text => ?_
  rw [List.singleton_append, lowerExpression_level hk] at hlower ⊢
  obtain ⟨v, hv, hlower⟩ := bind_eq_ok.1 hlower
  rw [hv, ok_bind, List.flatten_append, lowerOperands_append _ hlower]
  simp only [List.flatten_cons, List.flatten_nil, List.append_nil]
  rw [lowerOperands, if_pos (by rw [hrule, Level.operator_tightness]), hlowerRhs, ok_bind,
    hspelling, lowerOperands]

theorem gives_negation {m : Cursor} (hc : c.Rested) (hsign : c.Reads [.notSign] m)
    (h : Phrase.unaryExpr.Gives s.lowerExpression m e d) :
    Phrase.unaryExpr.Gives s.lowerExpression c (.unary (s.positionAt c.offset) "!" e) d := by
  obtain ⟨operand, hoperand, hstands, hlower⟩ := h
  have hnot : Phrase.notExpr.Gives s.lowerExpression c
      (.unary (s.positionAt c.offset) "!" e) d := by
    refine .of_spans hc
      ⟨[_], [operand], rfl, m, ⟨_, rfl, rfl, Tree.stands_terminal hsign⟩, operand, rfl, hoperand,
        hstands⟩ fun text => ?_
    simp only [List.singleton_append, lowerExpression, Tree.rule, if_true, hlower, ok_bind,
      pure_eq_ok]
    rfl
  exact gives_inner hnot (by decide)
    (fun t hrule hstands => Or.inl ⟨t, rfl, hrule, hstands⟩) hc

theorem gives_brackets {m n : Cursor} (hc : s.IsPlace c) (hopen : c.Passes .lparen m)
    (h : Phrase.expr.Gives s.lowerExpression m e n) (hclose : n.Passes .rparen d) :
    Phrase.unaryExpr.Gives s.lowerExpression c e d := by
  obtain ⟨inner, hrule, hstands, hlower⟩ := h
  have hparen : Phrase.parenExpr.Gives s.lowerExpression c e d :=
    .of_spans hc.rested
      ⟨[], [inner], rfl, m, Pattern.spans_mark hopen, [inner], [], rfl, n,
        ⟨inner, rfl, hrule, hstands⟩, Pattern.spans_mark hclose⟩ fun text => hlower
  exact gives_unaryExpr hparen (fun t hrule hstands => Or.inl ⟨t, rfl, hrule, hstands⟩) hc.rested

/-! ## Literals -/

theorem gives_integer {digits : List Char} (hc : c.Rested) (h : c.Reads [⟨.intLit, digits⟩] d)
    (hle : decimalValue digits ≤ maxInteger) :
    Phrase.unaryExpr.Gives s.lowerExpression c
      (.integer (s.positionAt c.offset) (Int32.ofNat (decimalValue digits))) d := by
  obtain ⟨r, hscan, -⟩ := h.scan
  have hspells : (Rule.terminal .intLit).Spells digits :=
    ⟨r, by rw [Terminal.append_of_scan hscan]; exact hscan⟩
  refine gives_literal hc (Or.inl ⟨_, rfl, rfl, Tree.stands_terminal h⟩) fun text => ?_
  simp only [lowerLiteral, onlyChild_node, ok_bind, Tree.rule, Tree.string, Tree.text,
    integerValue_eq hspells, if_neg (Nat.not_lt.2 hle), valueAt, pure_eq_ok]
  rfl

theorem gives_character {v : Char} {inside : List Char} (hc : c.Rested)
    (h : c.Reads [⟨.charLit, '\'' :: v :: inside⟩] d) :
    Phrase.unaryExpr.Gives s.lowerExpression c (.character (s.positionAt c.offset) v) d := by
  obtain ⟨r, hscan, -⟩ := h.scan
  obtain ⟨hlit, -⟩ := (scanCharLit_iff _ _ _).1 hscan
  obtain ⟨v', inside', hinside, hv'⟩ := hlit.characterValue_eq
  obtain ⟨rfl, -⟩ := List.cons.inj (List.cons.inj hinside).2
  refine gives_literal hc (Or.inr (Or.inl ⟨_, rfl, rfl, Tree.stands_terminal h⟩)) fun text => ?_
  simp only [lowerLiteral, onlyChild_node, ok_bind, Tree.rule, Tree.string, Tree.text, hv',
    valueAt, pure_eq_ok]
  rfl

theorem gives_boolean {b : Bool} (hc : c.Rested)
    (h : c.Reads [.word (if b then .trueKw else .falseKw)] d) :
    Phrase.unaryExpr.Gives s.lowerExpression c (.boolean (s.positionAt c.offset) b) d := by
  have hspans : ∃ word, Phrase.boolLit.body.Spans c [word] d := by
    have hword := Tree.stands_terminal h
    cases b with
    | true => exact ⟨_, Or.inl ⟨_, rfl, rfl, hword⟩⟩
    | false => exact ⟨_, Or.inr ⟨_, rfl, rfl, hword⟩⟩
  obtain ⟨word, hspans⟩ := hspans
  obtain ⟨text, hstands⟩ := Tree.exists_stands hc hspans
  obtain ⟨b', hreads, hstring⟩ := reads_boolLit hstands rfl hc
  obtain rfl : b' = b := by
    have hsame := hreads.of_one.1.symm.trans h.of_one.1
    cases b <;> cases b' <;> first | rfl | simp [Lexeme.word] at hsame
  refine gives_literal hc (Or.inr (Or.inr (Or.inl ⟨_, rfl, rfl, hstands⟩))) fun text => ?_
  simp only [lowerLiteral, onlyChild_node, ok_bind, Tree.rule, hstring, pure_eq_ok]
  cases b' <;> rfl

theorem gives_null (hc : c.Rested) (h : c.Reads [.word .nullKw] d) :
    Phrase.unaryExpr.Gives s.lowerExpression c (.null (s.positionAt c.offset)) d := by
  obtain ⟨text, hstands⟩ := Tree.exists_stands (p := .nullLit) hc
    ⟨_, rfl, rfl, Tree.stands_terminal h⟩
  refine gives_literal hc (Or.inr (Or.inr (Or.inr ⟨_, rfl, rfl, hstands⟩))) fun text => ?_
  simp only [lowerLiteral, onlyChild_node, ok_bind, Tree.rule, pure_eq_ok]
  rfl

/-! ## Expressions kept as their text -/

/-- The part of a simple expression, lowered for its obstacles only. -/
def KeptGives (s : Source) (c d : Cursor) : Prop :=
  (∃ word : Tree, word.rule = .kw .thisKw ∧ word.Stands c d) ∨
    (∃ e, Phrase.methodCall.Gives s.lowerMethodCall c e d) ∨
    ∃ l, Phrase.location.Gives s.lowerLocation c l d

/-- A simple expression is kept as the text between its places. -/
theorem KeptGives.gives {text : List Char} (h : s.KeptGives c d) (hc : s.IsPlace c)
    (htext : c.Holds text d) :
    Phrase.simpleExpr.Gives s.lowerExpression c
      (.simple (s.positionAt c.offset) (String.ofList text)) d := by
  have hkept : ∀ {whole : List Char} {children : List Tree},
      (Tree.node (.phrase .simpleExpr) c.offset whole children).Stands c d →
      s.slice (s.contentSpan ⟨c.offset, byteLength whole⟩).offset
        ((s.contentSpan ⟨c.offset, byteLength whole⟩).offset +
          (s.contentSpan ⟨c.offset, byteLength whole⟩).length) = text := by
    intro whole children hstands
    obtain ⟨kept, hkept, hslice⟩ := slice_of_stands hstands (by decide) hc
    rwa [hkept.functional htext] at hslice
  rcases h with ⟨word, hrule, hstands⟩ | ⟨e, call, hrule, hstands, he⟩ |
    ⟨l, location, hrule, hstands, hl⟩
  · obtain ⟨whole, hwhole⟩ := Tree.exists_stands (p := .simpleExpr) hc.rested
      (Or.inl ⟨word, rfl, hrule, hstands⟩)
    refine ⟨_, rfl, hwhole, ?_⟩
    simp only [lowerExpression, hrule, pure_eq_ok, hkept hwhole]
  · obtain ⟨whole, hwhole⟩ := Tree.exists_stands (p := .simpleExpr) hc.rested
      (Or.inr (Or.inl ⟨call, rfl, hrule, hstands⟩))
    refine ⟨_, rfl, hwhole, ?_⟩
    simp only [lowerExpression, hrule, he, pure_eq_ok, hkept hwhole]
    rfl
  · obtain ⟨whole, hwhole⟩ := Tree.exists_stands (p := .simpleExpr) hc.rested
      (Or.inr (Or.inr ⟨location, rfl, hrule, hstands⟩))
    refine ⟨_, rfl, hwhole, ?_⟩
    simp only [lowerExpression, hrule, hl, pure_eq_ok, hkept hwhole]
    rfl

theorem gives_simple {text : List Char} (hc : s.IsPlace c) (h : s.KeptGives c d)
    (htext : c.Holds text d) :
    Phrase.unaryExpr.Gives s.lowerExpression c
      (.simple (s.positionAt c.offset) (String.ofList text)) d :=
  gives_unaryExpr (h.gives hc htext)
    (fun t hrule hstands => Or.inr (Or.inr (Or.inr (Or.inr ⟨t, rfl, hrule, hstands⟩)))) hc.rested

/-! ## Locations and calls -/

theorem gives_name {x : List Char} (hc : c.Rested) (h : c.Reads [⟨.ident, x⟩] d) :
    Phrase.location.Gives s.lowerLocation c
      ⟨s.positionAt c.offset, String.ofList x, none, none⟩ d := by
  refine .of_spans hc
    ⟨[_], [], rfl, d, ⟨_, rfl, rfl, Tree.stands_terminal h⟩, [], rfl, .nil d⟩ fun text => ?_
  exact lowerLocation_name s _ _ _ _

theorem gives_field {m n : Cursor} {x y : List Char} (hc : s.IsPlace c)
    (hx : c.Reads [⟨.ident, x⟩] m) (hdot : m.Passes .dot n) (hy : n.Reads [⟨.ident, y⟩] d) :
    Phrase.location.Gives s.lowerLocation c
      ⟨s.positionAt c.offset, String.ofList x, some (String.ofList y), none⟩ d := by
  have hbody : Phrase.fieldAccess.body.Spans m [_] d :=
    ⟨[], _, rfl, n, Pattern.spans_mark hdot, _, rfl, rfl, Tree.stands_terminal hy⟩
  obtain ⟨inner, hstands⟩ := Tree.exists_stands (hc.of_reads hx).rested hbody
  refine .of_spans hc.rested
    ⟨[_], [_], rfl, m, ⟨_, rfl, rfl, Tree.stands_terminal hx⟩, [[_]], rfl,
      .one (Or.inl ⟨_, rfl, rfl, hstands⟩)⟩ fun text => ?_
  rw [List.singleton_append, lowerLocation, expectRule_node, ok_bind]
  rfl

theorem gives_element {m n o : Cursor} {x : List Char} (hc : s.IsPlace c)
    (hx : c.Reads [⟨.ident, x⟩] m) (hopen : m.Passes .lbrack n)
    (h : Phrase.expr.Gives s.lowerExpression n e o) (hclose : o.Passes .rbrack d) :
    Phrase.location.Gives s.lowerLocation c
      ⟨s.positionAt c.offset, String.ofList x, none, some e⟩ d := by
  obtain ⟨index, hrule, hindex, hlower⟩ := h
  have hbody : Phrase.indexAccess.body.Spans m [index] d :=
    ⟨[], [index], rfl, n, Pattern.spans_mark hopen, [index], [], rfl, o,
      ⟨index, rfl, hrule, hindex⟩, Pattern.spans_mark hclose⟩
  obtain ⟨inner, hstands⟩ := Tree.exists_stands (hc.of_reads hx).rested hbody
  refine .of_spans hc.rested
    ⟨[_], [_], rfl, m, ⟨_, rfl, rfl, Tree.stands_terminal hx⟩, [[_]], rfl,
      .one (Or.inr ⟨_, rfl, rfl, hstands⟩)⟩ fun text => ?_
  rw [List.singleton_append, lowerLocation, expectRule_node, ok_bind]
  simp only [expectChild_eq hrule, ok_bind, hlower, pure_eq_ok]
  rfl

theorem gives_call {m n o : Cursor} {l : Location} {arguments : List Tree}
    {es : List Expression} (hc : s.IsPlace c)
    (h : Phrase.location.Gives s.lowerLocation c l m) (hopen : m.Passes .lparen n)
    (harguments : Phrase.argList.body.Spans n arguments o)
    (hes : s.lowerExpressions arguments = .ok es) (hclose : o.Passes .rparen d) :
    Phrase.methodCall.Gives s.lowerMethodCall c (.call (s.positionAt c.offset) l es) d := by
  have hm := h.isPlace hc
  obtain ⟨location, hrule, hstands, hlower⟩ := h
  obtain ⟨inner, hlist⟩ := Tree.exists_stands (hm.of_passes hopen).rested harguments
  refine .of_spans hc.rested
    ⟨[location], _, rfl, m, ⟨location, rfl, hrule, hstands⟩, [], _, rfl, n,
      Pattern.spans_mark hopen, [_], [], rfl, o, Or.inl ⟨_, rfl, rfl, hlist⟩,
      Pattern.spans_mark hclose⟩ fun text => ?_
  rw [List.singleton_append, List.nil_append, List.append_nil, lowerMethodCall, expectRule_node,
    ok_bind]
  simp only [expectChild_eq hrule, ok_bind, hlower, hes, pure_eq_ok]

theorem gives_bareCall {m n : Cursor} {l : Location} (hc : s.IsPlace c)
    (h : Phrase.location.Gives s.lowerLocation c l m) (hopen : m.Passes .lparen n)
    (hclose : n.Passes .rparen d) :
    Phrase.methodCall.Gives s.lowerMethodCall c (.call (s.positionAt c.offset) l []) d := by
  obtain ⟨location, hrule, hstands, hlower⟩ := h
  refine .of_spans hc.rested
    ⟨[location], _, rfl, m, ⟨location, rfl, hrule, hstands⟩, [], _, rfl, n,
      Pattern.spans_mark hopen, [], [], rfl, n, Or.inr ⟨rfl, rfl⟩,
      Pattern.spans_mark hclose⟩ fun text => ?_
  rw [List.singleton_append, List.nil_append, List.append_nil, lowerMethodCall, expectRule_node,
    ok_bind]
  simp only [expectChild_eq hrule, ok_bind, hlower, pure_eq_ok]

/-- One more argument in front of others. -/
theorem spans_argument {m n : Cursor} {arguments : List Tree} {es : List Expression}
    (h : Phrase.expr.Gives s.lowerExpression c e m) (hcomma : m.Passes .comma n)
    (harguments : Phrase.argList.body.Spans n arguments d)
    (hes : s.lowerExpressions arguments = .ok es) :
    ∃ arguments', Phrase.argList.body.Spans c arguments' d ∧
      s.lowerExpressions arguments' = .ok (e :: es) := by
  obtain ⟨t, hrule, hstands, hlower⟩ := h
  obtain ⟨_, _, rfl, o, ⟨next, rfl, hnext, hstands'⟩, rounds, rfl, hrounds⟩ := harguments
  refine ⟨[t] ++ ([[next]] ++ rounds).flatten, ⟨[t], _, rfl, m, ⟨t, rfl, hrule, hstands⟩,
    [[next]] ++ rounds, rfl, .cons ?_ hrounds⟩, ?_⟩
  · exact ⟨[], [next], rfl, n, Pattern.spans_mark hcomma, next, rfl, hnext, hstands'⟩
  · simp only [List.singleton_append, List.flatten_cons] at hes ⊢
    rw [lowerExpressions, hlower, ok_bind, hes]
    rfl

/-! ## All expressions -/

/-- What a tree of a piece of an expression is: a node of the phrase for its tightness, or
the parts of a list of arguments. -/
def Given (s : Source) : Cursor → Fragment → Cursor → Prop
  | c, .expression k e, d => k ≤ 6 → (Level.form k).Gives s.lowerExpression c e d
  | c, .kept, d => s.KeptGives c d
  | c, .location l, d => Phrase.location.Gives s.lowerLocation c l d
  | c, .call e, d => Phrase.methodCall.Gives s.lowerMethodCall c e d
  | c, .arguments es, d =>
      ∃ ts, Phrase.argList.body.Spans c ts d ∧ s.lowerExpressions ts = .ok es

/-- A text that means something is covered by a tree that is lowered to it. -/
theorem Means.given {p : Fragment} (h : s.Means c p d) (hc : s.IsPlace c) : s.Given c p d := by
  induction h with
  | tighter hk _ ih => exact fun _ => gives_tighter hk hc.rested (ih hc (by omega))
  | operation op _ hop _ ihl ihr =>
      intro hk
      have hlhs := ihl hc hk
      have hn := (hlhs.isPlace hc).of_reads hop
      exact gives_operation op hc.rested hlhs hop (ihr hn (Level.tightness_lt op))
  | negation hsign _ ih =>
      exact fun hk => gives_negation hc.rested hsign (ih (hc.of_reads hsign) hk)
  | brackets hopen _ hclose ih =>
      intro _
      have hm := hc.of_passes hopen
      exact gives_brackets hc hopen (gives_expr (ih hm (by decide)) hm.rested) hclose
  | integer hreads hle => exact fun _ => gives_integer hc.rested hreads hle
  | character hreads => exact fun _ => gives_character hc.rested hreads
  | boolean b hreads => exact fun _ => gives_boolean hc.rested hreads
  | null hreads => exact fun _ => gives_null hc.rested hreads
  | simple _ htext ih => exact fun _ => gives_simple hc (ih hc) htext
  | this hreads => exact Or.inl ⟨_, rfl, Tree.stands_terminal hreads⟩
  | keptLocation _ ih => exact Or.inr (Or.inr ⟨_, ih hc⟩)
  | keptCall _ ih => exact Or.inr (Or.inl ⟨_, ih hc⟩)
  | name hx => exact gives_name hc.rested hx
  | field hx hdot hy => exact gives_field hc hx hdot hy
  | element hx hopen _ hclose ih =>
      have hn := (hc.of_reads hx).of_passes hopen
      exact gives_element hc hx hopen (gives_expr (ih hn (by decide)) hn.rested) hclose
  | bareCall _ hopen hclose ih => exact gives_bareCall hc (ih hc) hopen hclose
  | call _ hopen _ hclose ihl iha =>
      have hlocation := ihl hc
      obtain ⟨ts, hspans, hes⟩ := iha ((hlocation.isPlace hc).of_passes hopen)
      exact gives_call hc hlocation hopen hspans hes hclose
  | argument _ ih =>
      obtain ⟨t, hrule, hstands, hlower⟩ := gives_expr (ih hc (by decide)) hc.rested
      refine ⟨[t], ⟨[t], [], rfl, _, ⟨t, rfl, hrule, hstands⟩, [], rfl, .nil _⟩, ?_⟩
      rw [lowerExpressions, hlower, ok_bind, lowerExpressions]
      rfl
  | arguments _ hcomma _ ihe ihs =>
      have hfirst := gives_expr (ihe hc (by decide)) hc.rested
      obtain ⟨ts, hspans, hes⟩ := ihs ((hfirst.isPlace hc).of_passes hcomma)
      exact spans_argument hfirst hcomma hspans hes

end Source

/-! ## What nodes give -/

/-- A node that stands between two places has the shape that the grammar gives it. -/
theorem Tree.Stands.lawful {t : Tree} {c d : Cursor} (h : t.Stands c d)
    (ht : t.rule.isSyntactic = true) : t.Lawful := by
  obtain ⟨e, hcovers, -⟩ := h
  exact (hcovers.shape ht).2 t (by simp)

namespace Source

variable {s : Source} {c d : Cursor}

/-- A node of an expression gives exactly what the text means. -/
theorem gives_expr_iff (hc : s.IsPlace c) {e : Expression} :
    Phrase.expr.Gives s.lowerExpression c e d ↔ s.Means c (.expression 0 e) d := by
  constructor
  · rintro ⟨t, hrule, hstands, hlower⟩
    have hlawful := hstands.lawful (by rw [hrule]; rfl)
    exact (hlawful.means s).expression hrule rfl hc hstands hlower
  · exact fun h => gives_expr (h.given hc (by decide)) hc.rested

/-- A simple expression gives the text between its places. -/
theorem gives_simpleExpr_iff (hc : s.IsPlace c) {e : Expression} :
    Phrase.simpleExpr.Gives s.lowerExpression c e d ↔
      ∃ text, s.Means c .kept d ∧ c.Holds text d ∧
        e = .simple (s.positionAt c.offset) (String.ofList text) := by
  constructor
  · rintro ⟨⟨rule, start, text, children⟩, ⟨⟩, hstands, hlower⟩
    obtain ⟨rfl, -⟩ := hstands.of_phrase (by decide) hc.rested
    have hchildren := (hstands.lawful rfl).children
    exact means_kept hc hstands (fun t ht => (hchildren t ht).means s) hlower
  · rintro ⟨text, hmeans, htext, rfl⟩
    have hkept : s.KeptGives c d := hmeans.given hc
    exact hkept.gives hc htext

theorem gives_location_iff (hc : s.IsPlace c) {l : Location} :
    Phrase.location.Gives s.lowerLocation c l d ↔ s.Means c (.location l) d := by
  constructor
  · rintro ⟨t, hrule, hstands, hlower⟩
    have hlawful := hstands.lawful (by rw [hrule]; rfl)
    exact (hlawful.means s).location hrule hc hstands hlower
  · exact fun h => h.given hc

theorem gives_methodCall_iff (hc : s.IsPlace c) {e : Expression} :
    Phrase.methodCall.Gives s.lowerMethodCall c e d ↔ s.Means c (.call e) d := by
  constructor
  · rintro ⟨t, hrule, hstands, hlower⟩
    have hlawful := hstands.lawful (by rw [hrule]; rfl)
    exact (hlawful.means s).call hrule hc hstands hlower
  · exact fun h => h.given hc

end Source

end DecafFrontEnd
