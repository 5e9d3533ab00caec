/-
  DecafFrontEnd/Proofs/Meaning/Statement.lean --- what the text of a statement means.

  Calls, statements and blocks have meanings in the manner of declarations.  That they are
  exactly what the lowering gives takes an induction in each direction: on how much of the
  text there is (`Source.saysUpTo`), and on the meaning (`Source.Says.told`).
-/
import DecafFrontEnd.Proofs.Meaning.Declaration

set_option autoImplicit false

namespace DecafFrontEnd

/-! ## Meanings -/

namespace Source

variable (s : Source)

/-- The text between two places is an expression of any tightness. -/
def MeansExpression (c : Cursor) (e : Expression) (d : Cursor) : Prop :=
  s.Means c (.expression 0 e) d

/-- The text between two places is a call that can stand as a statement. -/
inductive MeansCall : Cursor → Expression → Cursor → Prop
  | call {c d : Cursor} {e : Expression} : s.Means c (.call e) d → MeansCall c e d
  | callout {c m n o p d : Cursor} {inside : List Char} {es : List Expression} :
      c.Reads [.word .calloutKw] m → m.Passes .lparen n →
      n.Reads [⟨.stringLit, '"' :: (inside ++ ['"'])⟩] o →
      Series (BehindComma s.MeansExpression) o es p → p.Passes .rparen d →
      MeansCall c (.callout (s.positionAt c.offset) (String.ofList inside) es) d

/-- The text between two places is a reserved word and a condition between brackets. -/
inductive MeansCondition (k : Keyword) : Cursor → Expression → Cursor → Prop
  | condition {c m n o d : Cursor} {e : Expression} : c.Reads [.word k] m → m.Passes .lparen n →
      s.Means n (.expression 0 e) o → o.Passes .rparen d → MeansCondition k c e d

end Source

/-- What the text between two places of a method can be. -/
inductive Clause where
  | block (b : Block)
  | statement (st : Statement)
  | statements (sts : List Statement)

/-- The text between two places stands for a block, a statement or several. -/
inductive Source.Says (s : Source) : Cursor → Clause → Cursor → Prop
  | block {c m n o d : Cursor} {declarations : List VariableDeclaration}
      {statements : List Statement} : c.Passes .lbrace m →
      Series s.MeansDeclaration m declarations n → Says s n (.statements statements) o →
      o.Passes .rbrace d →
      Says s c (.block ⟨s.positionAt c.offset, declarations, statements⟩) d
  | done (c : Cursor) : Says s c (.statements []) c
  | next {c m d : Cursor} {st : Statement} {sts : List Statement} : Says s c (.statement st) m →
      Says s m (.statements sts) d → Says s c (.statements (st :: sts)) d
  -- statements without blocks
  | assignment {c m n o d : Cursor} {l : Location} {e : Expression} : s.Means c (.location l) m →
      m.Passes .assign n → s.Means n (.expression 0 e) o → o.Passes .semi d →
      Says s c (.statement (.assignment (s.positionAt c.offset) l e)) d
  | call {c m d : Cursor} {e : Expression} : s.MeansCall c e m → m.Passes .semi d →
      Says s c (.statement (.expressionStatement (s.positionAt c.offset) e)) d
  | returnNothing {c m d : Cursor} : c.Reads [.word .returnKw] m → m.Passes .semi d →
      Says s c (.statement (.returnStatement (s.positionAt c.offset) none)) d
  | returnValue {c m n d : Cursor} {e : Expression} : c.Reads [.word .returnKw] m →
      s.Means m (.expression 0 e) n → n.Passes .semi d →
      Says s c (.statement (.returnStatement (s.positionAt c.offset) (some e))) d
  -- statements with blocks
  | ifThen {c m n o p d : Cursor} {e : Expression} {b : Block} : c.Reads [.word .ifKw] m →
      m.Passes .lparen n → s.Means n (.expression 0 e) o → o.Passes .rparen p →
      Says s p (.block b) d →
      Says s c (.statement (.ifStatement (s.positionAt c.offset) e b none)) d
  | ifElse {c m n o p q r d : Cursor} {e : Expression} {b b' : Block} :
      c.Reads [.word .ifKw] m → m.Passes .lparen n → s.Means n (.expression 0 e) o →
      o.Passes .rparen p → Says s p (.block b) q → q.Reads [.word .elseKw] r →
      Says s r (.block b') d →
      Says s c (.statement (.ifStatement (s.positionAt c.offset) e b (some b'))) d
  | whileLoop {c m n o p d : Cursor} {e : Expression} {b : Block} :
      c.Reads [.word .whileKw] m → m.Passes .lparen n → s.Means n (.expression 0 e) o →
      o.Passes .rparen p → Says s p (.block b) d →
      Says s c (.statement (.whileStatement (s.positionAt c.offset) e b)) d

namespace Source

variable {s : Source} {c d : Cursor}

/-! ## Calls -/

/-- A string as an argument of a callout is not lowered, an expression is. -/
theorem gives_calloutArgument_iff (hc : s.IsPlace c) {e : Expression} :
    Phrase.calloutArg.Gives s.lowerCalloutArgument c e d ↔ s.MeansExpression c e d := by
  rw [MeansExpression, ← gives_expr_iff hc]
  constructor
  · intro h
    obtain ⟨text, children, hspans, hlower⟩ := h.exists_spans (by decide) hc.rested
    rw [lowerCalloutArgument, expectRule_node, ok_bind] at hlower
    rcases hspans with ⟨t, rfl, hrule, hstands⟩ | ⟨t, rfl, hrule, hstands⟩
    · simp [hrule] at hlower
    · simp only [onlyChild_node, ok_bind, hrule] at hlower
      exact ⟨t, hrule, hstands, hlower⟩
  · rintro ⟨t, hrule, hstands, hlower⟩
    refine .of_spans hc.rested (Or.inr ⟨t, rfl, hrule, hstands⟩) fun text => ?_
    rw [lowerCalloutArgument, expectRule_node, ok_bind]
    simp only [onlyChild_node, ok_bind, hrule, hlower]

theorem leads_expression : s.Leads s.MeansExpression :=
  fun hc h => ((gives_expr_iff hc).2 h).isPlace hc

theorem lowerCallout_node {start : Nat} {text : List Char} {word name : Tree}
    {arguments : List Tree} {inside : List Char} (hword : word.rule = .kw .calloutKw)
    (hname : name.rule = .terminal .stringLit) (htext : name.text = '"' :: (inside ++ ['"'])) :
    s.lowerCallout (.node (.phrase .primCallout) start text (word :: name :: arguments)) =
      (arguments.mapM s.lowerCalloutArgument >>= fun es =>
        .ok (.callout (s.positionAt start) (String.ofList inside) es)) := by
  have hinside := stripQuotes_eq_some.2 htext
  rw [lowerCallout, expectRule_node, ok_bind, Tree.children, takeChild_eq hword, ok_bind]
  simp only [takeChild_eq hname, ok_bind, hinside, pure_eq_ok]
  rfl

theorem gives_callout_iff (hc : s.IsPlace c) {e : Expression} :
    Phrase.primCallout.Gives s.lowerCallout c e d ↔
      ∃ m n o p inside es, c.Reads [.word .calloutKw] m ∧ m.Passes .lparen n ∧
        n.Reads [⟨.stringLit, '"' :: (inside ++ ['"'])⟩] o ∧
        Series (BehindComma s.MeansExpression) o es p ∧ p.Passes .rparen d ∧
        e = .callout (s.positionAt c.offset) (String.ofList inside) es := by
  constructor
  · intro h
    obtain ⟨text, children, hspans, hlower⟩ := h.exists_spans (by decide) hc.rested
    obtain ⟨_, _, rfl, m, ⟨word, rfl, hword, hstands⟩, _, _, rfl, n, hopens, _, _, rfl, o,
      ⟨name, rfl, hname, hstands'⟩, arguments, _, rfl, p, harguments, hcloses⟩ := hspans
    obtain ⟨rfl, hopen⟩ := hopens.passes rfl
    obtain ⟨rfl, hclose⟩ := hcloses.passes rfl
    have hreads := hstands.reads_word hword
    obtain ⟨-, hstring⟩ := hstands'.reads hname rfl
    obtain ⟨inside, hinside⟩ : ∃ inside, name.text = '"' :: (inside ++ ['"']) := by
      obtain ⟨r, hscan, -⟩ := hstring.scan
      have hspells : (Rule.terminal .stringLit).Spells name.text :=
        ⟨r, by rw [Terminal.append_of_scan hscan]; exact hscan⟩
      obtain ⟨inside, hinside⟩ := stripQuotes_of_spells hspells
      exact ⟨inside, stripQuotes_eq_some.1 hinside⟩
    have ho := ((hc.of_reads hreads).of_passes hopen).of_reads hstring
    rw [List.append_nil, List.nil_append, List.singleton_append, List.singleton_append,
      lowerCallout_node hword hname hinside] at hlower
    obtain ⟨es, hes, hlower⟩ := bind_eq_ok.1 hlower
    obtain rfl := Except.ok.inj hlower
    rw [hinside] at hstring
    have hseries : Series (BehindComma s.MeansExpression) o es p := by
      refine (Phrase.gives_behindCommas.1 ⟨arguments, harguments, hes⟩).imp
        Phrase.leads_gives.behindComma ho ?_
      rintro c x d hc ⟨hcomma, hx⟩
      exact .behind hcomma ((gives_calloutArgument_iff (hc.of_passes hcomma)).1 hx)
    exact ⟨m, n, o, p, inside, es, hreads, hopen, hstring, hseries, hclose, rfl⟩
  · rintro ⟨m, n, o, p, inside, es, hreads, hopen, hstring, hseries, hclose, rfl⟩
    have ho := ((hc.of_reads hreads).of_passes hopen).of_reads hstring
    have hgives : Series (BehindComma (Phrase.calloutArg.Gives s.lowerCalloutArgument)) o es p := by
      refine hseries.imp leads_expression.behindComma ho ?_
      rintro c x d hc ⟨hcomma, hx⟩
      exact .behind hcomma ((gives_calloutArgument_iff (hc.of_passes hcomma)).2 hx)
    obtain ⟨arguments, hspans, hmap⟩ := Phrase.gives_behindCommas.2 hgives
    refine .of_spans hc.rested
      ⟨[_], _, rfl, m, ⟨_, rfl, rfl, Tree.stands_terminal hreads⟩, [], _, rfl, n,
        Pattern.spans_mark hopen, [_], _, rfl, o, ⟨_, rfl, rfl, Tree.stands_terminal hstring⟩,
        arguments, [], rfl, p, hspans, Pattern.spans_mark hclose⟩ fun text => ?_
    rw [List.append_nil, List.nil_append, List.singleton_append, List.singleton_append,
      lowerCallout_node rfl rfl rfl, hmap]
    rfl

/-- A call is one of a method, or a callout of a name in quotes. -/
theorem gives_call_iff (hc : s.IsPlace c) {e : Expression} :
    Phrase.callExpr.Gives s.lowerCall c e d ↔ s.MeansCall c e d := by
  constructor
  · intro h
    obtain ⟨text, children, hspans, hlower⟩ := h.exists_spans (by decide) hc.rested
    rw [lowerCall, expectRule_node, ok_bind] at hlower
    rcases hspans with ⟨t, rfl, hrule, hstands⟩ | ⟨t, rfl, hrule, hstands⟩
    · simp only [onlyChild_node, ok_bind, hrule] at hlower
      exact .call ((gives_methodCall_iff hc).1 ⟨t, hrule, hstands, hlower⟩)
    · simp only [onlyChild_node, ok_bind, hrule] at hlower
      obtain ⟨m, n, o, p, inside, es, hreads, hopen, hstring, hseries, hclose, rfl⟩ :=
        (gives_callout_iff hc).1 ⟨t, hrule, hstands, hlower⟩
      exact .callout hreads hopen hstring hseries hclose
  · rintro (hcall | ⟨hreads, hopen, hstring, hseries, hclose⟩)
    · obtain ⟨t, hrule, hstands, hlower⟩ := (gives_methodCall_iff hc).2 hcall
      refine .of_spans hc.rested (Or.inl ⟨t, rfl, hrule, hstands⟩) fun text => ?_
      rw [lowerCall, expectRule_node, ok_bind]
      simp only [onlyChild_node, ok_bind, hrule, hlower]
    · obtain ⟨t, hrule, hstands, hlower⟩ := (gives_callout_iff (s := s) hc).2
        ⟨_, _, _, _, _, _, hreads, hopen, hstring, hseries, hclose, rfl⟩
      refine .of_spans hc.rested (Or.inr ⟨t, rfl, hrule, hstands⟩) fun text => ?_
      rw [lowerCall, expectRule_node, ok_bind]
      simp only [onlyChild_node, ok_bind, hrule, hlower]

/-! ## Items of a block -/

theorem lowerBlockItems_statements {started : Bool} {ts : List Tree}
    (h : ∀ t ∈ ts, t.rule = .phrase .statement) :
    s.lowerBlockItems started ts =
      (ts.mapM s.lowerStatement >>= fun statements => .ok ([], statements)) := by
  induction ts generalizing started with
  | nil => rfl
  | cons t ts ih =>
      have hrule := h t (by simp)
      rw [lowerBlockItems, if_neg (by simp [hrule]), if_pos hrule,
        ih fun t ht => h t (List.mem_cons_of_mem _ ht), List.mapM_cons]
      simp only [bind_assoc, ok_bind, pure_eq_ok]

/-- The declarations of a block are lowered before its statements. -/
theorem lowerBlockItems_append {ts ts' : List Tree} (h : ∀ t ∈ ts, t.rule = .phrase .varDecl)
    (h' : ∀ t ∈ ts', t.rule = .phrase .statement) :
    s.lowerBlockItems false (ts ++ ts') =
      (ts.mapM s.lowerVarDecl >>= fun declarations =>
        ts'.mapM s.lowerStatement >>= fun statements => .ok (declarations, statements)) := by
  induction ts with
  | nil => exact lowerBlockItems_statements h'
  | cons t ts ih =>
      have hrule := h t (by simp)
      rw [List.cons_append, lowerBlockItems, if_pos ⟨hrule, rfl⟩,
        ih fun t ht => h t (List.mem_cons_of_mem _ ht), List.mapM_cons]
      simp only [bind_assoc, ok_bind, pure_eq_ok]

/-- What the lowering of a block gives: its declarations and its statements, each where
the one before it ends. -/
theorem gives_block_iff (hc : c.Rested) {b : Block} :
    Phrase.block.Gives s.lowerBlock c b d ↔
      ∃ m n o, c.Passes .lbrace m ∧
        Series (Phrase.varDecl.Gives s.lowerVarDecl) m b.variableDeclarations n ∧
        Series (Phrase.statement.Gives s.lowerStatement) n b.statements o ∧
        o.Passes .rbrace d ∧ b.position = s.positionAt c.offset := by
  constructor
  · intro h
    obtain ⟨text, children, hspans, hlower⟩ := h.exists_spans (by decide) hc
    obtain ⟨_, _, rfl, m, hopens, declarations, _, rfl, n, hdeclarations, statements, _, rfl, o,
      hstatements, hcloses⟩ := hspans
    obtain ⟨rfl, hopen⟩ := hopens.passes rfl
    obtain ⟨rfl, hclose⟩ := hcloses.passes rfl
    rw [List.nil_append, List.append_nil, lowerBlock, expectRule_node, ok_bind,
      lowerBlockItems_append (Pattern.rule_of_spans_many hdeclarations)
        (Pattern.rule_of_spans_many hstatements)] at hlower
    simp only [bind_assoc, ok_bind, pure_eq_ok] at hlower
    obtain ⟨ds, hds, hlower⟩ := bind_eq_ok.1 hlower
    obtain ⟨sts, hsts, hlower⟩ := bind_eq_ok.1 hlower
    obtain rfl := Except.ok.inj hlower
    exact ⟨m, n, o, hopen, Phrase.gives_many.1 ⟨_, hdeclarations, hds⟩,
      Phrase.gives_many.1 ⟨_, hstatements, hsts⟩, hclose, rfl⟩
  · obtain ⟨position, ds, sts⟩ := b
    rintro ⟨m, n, o, hopen, hdeclarations, hstatements, hclose, rfl⟩
    obtain ⟨declarations, hspans, hds⟩ := Phrase.gives_many.2 hdeclarations
    obtain ⟨statements, hspans', hsts⟩ := Phrase.gives_many.2 hstatements
    refine .of_spans hc
      ⟨[], _, rfl, m, Pattern.spans_mark hopen, declarations, _, rfl, n, hspans, statements, [],
        rfl, o, hspans', Pattern.spans_mark hclose⟩ fun text => ?_
    rw [List.nil_append, List.append_nil, lowerBlock, expectRule_node, ok_bind,
      lowerBlockItems_append (Pattern.rule_of_spans_many hspans)
        (Pattern.rule_of_spans_many hspans')]
    simp only [hds, hsts, ok_bind, pure_eq_ok]

/-! ## Statements without blocks -/

/-- A statement is of one of five sorts. -/
theorem gives_statement_iff (hc : s.IsPlace c) {st : Statement} :
    Phrase.statement.Gives s.lowerStatement c st d ↔
      Phrase.assignStmt.Gives (fun t => s.lowerAssignment t.site t.children) c st d ∨
      Phrase.expressionStmt.Gives (fun t => s.lowerExpressionStatement t.site t.children) c st d ∨
      Phrase.ifStmt.Gives (fun t => s.lowerIf t.site t.children) c st d ∨
      Phrase.whileStmt.Gives (fun t => s.lowerWhile t.site t.children) c st d ∨
      Phrase.returnStmt.Gives (fun t => s.lowerReturn t.site t.children) c st d := by
  constructor
  · intro h
    obtain ⟨text, children, hspans, hlower⟩ := h.exists_spans (by decide) hc.rested
    rcases hspans with ⟨⟨rule, start, text', inner⟩, rfl, hrule, hstands⟩ |
      ⟨⟨rule, start, text', inner⟩, rfl, hrule, hstands⟩ |
      ⟨⟨rule, start, text', inner⟩, rfl, hrule, hstands⟩ |
      ⟨⟨rule, start, text', inner⟩, rfl, hrule, hstands⟩ |
      ⟨⟨rule, start, text', inner⟩, rfl, hrule, hstands⟩
    all_goals
      obtain rfl : rule = .phrase _ := hrule
      rw [lowerStatement, expectRule_node, ok_bind] at hlower
    · exact Or.inl ⟨_, rfl, hstands, hlower⟩
    · exact Or.inr (Or.inl ⟨_, rfl, hstands, hlower⟩)
    · exact Or.inr (Or.inr (Or.inl ⟨_, rfl, hstands, hlower⟩))
    · exact Or.inr (Or.inr (Or.inr (Or.inl ⟨_, rfl, hstands, hlower⟩)))
    · exact Or.inr (Or.inr (Or.inr (Or.inr ⟨_, rfl, hstands, hlower⟩)))
  · rintro (⟨⟨_, start, text, ts⟩, ⟨⟩, hstands, hlower⟩ |
      ⟨⟨_, start, text, ts⟩, ⟨⟩, hstands, hlower⟩ | ⟨⟨_, start, text, ts⟩, ⟨⟩, hstands, hlower⟩ |
      ⟨⟨_, start, text, ts⟩, ⟨⟩, hstands, hlower⟩ | ⟨⟨_, start, text, ts⟩, ⟨⟩, hstands, hlower⟩)
    · refine .of_spans hc.rested (Or.inl ⟨_, rfl, rfl, hstands⟩) fun _ => ?_
      rwa [lowerStatement, expectRule_node, ok_bind]
    · refine .of_spans hc.rested (Or.inr (Or.inl ⟨_, rfl, rfl, hstands⟩)) fun _ => ?_
      rwa [lowerStatement, expectRule_node, ok_bind]
    · refine .of_spans hc.rested (Or.inr (Or.inr (Or.inl ⟨_, rfl, rfl, hstands⟩))) fun _ => ?_
      rwa [lowerStatement, expectRule_node, ok_bind]
    · refine .of_spans hc.rested (Or.inr (Or.inr (Or.inr (Or.inl ⟨_, rfl, rfl, hstands⟩))))
        fun _ => ?_
      rwa [lowerStatement, expectRule_node, ok_bind]
    · refine .of_spans hc.rested (Or.inr (Or.inr (Or.inr (Or.inr ⟨_, rfl, rfl, hstands⟩))))
        fun _ => ?_
      rwa [lowerStatement, expectRule_node, ok_bind]

theorem gives_assignment_iff (hc : s.IsPlace c) {st : Statement} :
    Phrase.assignStmt.Gives (fun t => s.lowerAssignment t.site t.children) c st d ↔
      ∃ m n o l e, s.Means c (.location l) m ∧ m.Passes .assign n ∧
        s.Means n (.expression 0 e) o ∧ o.Passes .semi d ∧
        st = .assignment (s.positionAt c.offset) l e := by
  constructor
  · intro h
    obtain ⟨text, children, hspans, hlower⟩ := h.exists_spans (by decide) hc.rested
    obtain ⟨_, _, rfl, m, ⟨place, rfl, hplace, hstands⟩, _, _, rfl, n, hsigns, _, _, rfl, o,
      ⟨value, rfl, hvalue, hstands'⟩, hends⟩ := hspans
    obtain ⟨rfl, hend⟩ := hends.passes rfl
    obtain ⟨rfl, sign, htake, rfl⟩ := hsigns
    obtain ⟨r, hscan⟩ := Primitive.take?_lexeme.1 htake
    have hsign := Cursor.reads_of_scan_of_spans (q := Pattern.phrase .expr) hscan rfl rfl
      (by decide) (by decide) ⟨value, rfl, hvalue, hstands'⟩
    have hn := (hc.of_stands hstands).of_reads hsign
    simp only [Tree.children, List.nil_append, List.append_nil, List.singleton_append,
      lowerAssignment, takeChild_eq hplace, ok_bind, pure_eq_ok] at hlower
    obtain ⟨l, hl, hlower⟩ := bind_eq_ok.1 hlower
    simp only [takeChild_eq hvalue, ok_bind] at hlower
    obtain ⟨e, he, hlower⟩ := bind_eq_ok.1 hlower
    obtain rfl := Except.ok.inj hlower
    exact ⟨m, _, o, l, e, (gives_location_iff hc).1 ⟨place, hplace, hstands, hl⟩, ⟨_, hsign⟩,
      (gives_expr_iff hn).1 ⟨value, hvalue, hstands', he⟩, hend, rfl⟩
  · rintro ⟨m, n, o, l, e, hl, hsign, he, hend, rfl⟩
    have hgives := (gives_location_iff hc).2 hl
    have hn := (hgives.isPlace hc).of_passes hsign
    obtain ⟨place, hplace, hstands, hlowerPlace⟩ := hgives
    obtain ⟨value, hvalue, hstands', hlowerValue⟩ := (gives_expr_iff hn).2 he
    refine .of_spans hc.rested
      ⟨[place], _, rfl, m, ⟨place, rfl, hplace, hstands⟩, [], _, rfl, n, Pattern.spans_mark hsign,
        [value], [], rfl, o, ⟨value, rfl, hvalue, hstands'⟩, Pattern.spans_mark hend⟩ fun text => ?_
    simp only [Tree.children, List.nil_append, List.append_nil, List.singleton_append,
      lowerAssignment, takeChild_eq hplace, ok_bind, hlowerPlace, takeChild_eq hvalue,
      hlowerValue, pure_eq_ok]
    rfl

theorem gives_expressionStatement_iff (hc : s.IsPlace c) {st : Statement} :
    Phrase.expressionStmt.Gives (fun t => s.lowerExpressionStatement t.site t.children) c st d ↔
      ∃ m e, s.MeansCall c e m ∧ m.Passes .semi d ∧
        st = .expressionStatement (s.positionAt c.offset) e := by
  constructor
  · intro h
    obtain ⟨text, children, hspans, hlower⟩ := h.exists_spans (by decide) hc.rested
    obtain ⟨_, _, rfl, m, ⟨call, rfl, hcall, hstands⟩, hends⟩ := hspans
    obtain ⟨rfl, hend⟩ := hends.passes rfl
    simp only [Tree.children, List.append_nil, lowerExpressionStatement, takeChild_eq hcall,
      ok_bind, pure_eq_ok] at hlower
    obtain ⟨e, he, hlower⟩ := bind_eq_ok.1 hlower
    obtain rfl := Except.ok.inj hlower
    exact ⟨m, e, (gives_call_iff hc).1 ⟨call, hcall, hstands, he⟩, hend, rfl⟩
  · rintro ⟨m, e, he, hend, rfl⟩
    obtain ⟨call, hcall, hstands, hlower⟩ := (gives_call_iff hc).2 he
    refine .of_spans hc.rested
      ⟨[call], [], rfl, m, ⟨call, rfl, hcall, hstands⟩, Pattern.spans_mark hend⟩ fun text => ?_
    simp only [Tree.children, List.append_nil, lowerExpressionStatement, takeChild_eq hcall,
      ok_bind, hlower, pure_eq_ok]
    rfl

theorem gives_return_iff (hc : s.IsPlace c) {st : Statement} :
    Phrase.returnStmt.Gives (fun t => s.lowerReturn t.site t.children) c st d ↔
      (∃ m, c.Reads [.word .returnKw] m ∧ m.Passes .semi d ∧
        st = .returnStatement (s.positionAt c.offset) none) ∨
      ∃ m n e, c.Reads [.word .returnKw] m ∧ s.Means m (.expression 0 e) n ∧ n.Passes .semi d ∧
        st = .returnStatement (s.positionAt c.offset) (some e) := by
  constructor
  · intro h
    obtain ⟨text, children, hspans, hlower⟩ := h.exists_spans (by decide) hc.rested
    obtain ⟨_, _, rfl, m, ⟨word, rfl, hword, hstands⟩, _, _, rfl, n, hvalue, hends⟩ := hspans
    obtain ⟨rfl, hend⟩ := hends.passes rfl
    have hreads := hstands.reads_word hword
    rcases hvalue with ⟨value, rfl, hvalue, hstands'⟩ | ⟨rfl, rfl⟩
    · simp only [Tree.children, List.append_nil, List.singleton_append, lowerReturn,
        takeChild_eq hword, ok_bind, hvalue, if_true, pure_eq_ok] at hlower
      obtain ⟨e, he, hlower⟩ := bind_eq_ok.1 hlower
      obtain rfl := Except.ok.inj hlower
      exact Or.inr ⟨m, n, e, hreads,
        (gives_expr_iff (hc.of_reads hreads)).1 ⟨value, hvalue, hstands', he⟩, hend, rfl⟩
    · simp only [Tree.children, List.append_nil, lowerReturn, takeChild_eq hword, ok_bind,
        pure_eq_ok] at hlower
      obtain rfl := Except.ok.inj hlower
      exact Or.inl ⟨m, hreads, hend, rfl⟩
  · rintro (⟨m, hreads, hend, rfl⟩ | ⟨m, n, e, hreads, he, hend, rfl⟩)
    · exact .of_spans hc.rested
        ⟨[_], _, rfl, m, ⟨_, rfl, rfl, Tree.stands_terminal hreads⟩, [], [], rfl, m,
          Or.inr ⟨rfl, rfl⟩, Pattern.spans_mark hend⟩ fun _ => rfl
    · obtain ⟨value, hvalue, hstands, hlower⟩ := (gives_expr_iff (hc.of_reads hreads)).2 he
      obtain ⟨word, hword, hspans⟩ := Pattern.spans_word hreads
      refine .of_spans hc.rested
        ⟨[word], _, rfl, m, hspans, [value], [], rfl, n, Or.inl ⟨value, rfl, hvalue, hstands⟩,
          Pattern.spans_mark hend⟩ fun text => ?_
      simp only [Tree.children, List.append_nil, List.singleton_append, lowerReturn,
        takeChild_eq hword, ok_bind, hvalue, if_true, hlower, pure_eq_ok]
      rfl

/-! ## Statements with blocks -/

theorem MeansCondition.isPlace {k : Keyword} {e : Expression} (h : s.MeansCondition k c e d)
    (hc : s.IsPlace c) : s.IsPlace d := by
  obtain ⟨hword, hopen, he, hclose⟩ := h
  exact (leads_expression ((hc.of_reads hword).of_passes hopen) he).of_passes hclose

theorem MeansCondition.length_lt {k : Keyword} {e : Expression} (h : s.MeansCondition k c e d)
    (hc : s.IsPlace c) : d.rest.length < c.rest.length := by
  obtain ⟨hword, hopen, he, hclose⟩ := h
  have hlt := hword.length_lt
  have hbracket := hopen.length_lt
  have hbracket' := hclose.length_lt
  have hle := ((gives_expr_iff ((hc.of_reads hword).of_passes hopen)).2 he).length_le
  omega

/-- The nodes of a statement that begins with a word and a condition. -/
theorem meansCondition_of_spans {k : Keyword} {q : Pattern} {ts : List Tree} (hc : s.IsPlace c)
    (h : (Pattern.kw k >> Pattern.mark .lparen >> Pattern.phrase .expr >> Pattern.mark .rparen >>
      q).Spans c ts d) :
    ∃ p word test others, ts = word :: test :: others ∧ word.rule = .kw k ∧
      test.rule = .phrase .expr ∧
      (∀ e, s.lowerExpression test = .ok e → s.MeansCondition k c e p) ∧ q.Spans p others d := by
  obtain ⟨_, _, rfl, m, ⟨word, rfl, hword, hstands⟩, _, _, rfl, n, hopens, _, _, rfl, o,
    ⟨test, rfl, htest, hstands'⟩, _, _, rfl, p, hcloses, hothers⟩ := h
  obtain ⟨rfl, hopen⟩ := hopens.passes rfl
  obtain ⟨rfl, hclose⟩ := hcloses.passes rfl
  have hreads := hstands.reads_word hword
  have hn := (hc.of_reads hreads).of_passes hopen
  exact ⟨p, word, test, _, rfl, hword, htest, fun e he => .condition hreads hopen
    ((gives_expr_iff hn).1 ⟨test, htest, hstands', he⟩) hclose, hothers⟩

/-- A word and a condition have their nodes, whatever stands behind. -/
theorem MeansCondition.exists_spans {k : Keyword} {p : Cursor} {e : Expression}
    (h : s.MeansCondition k c e p) (hc : s.IsPlace c) :
    ∃ word test, word.rule = .kw k ∧ test.rule = .phrase .expr ∧ s.lowerExpression test = .ok e ∧
      ∀ {q : Pattern} {ts : List Tree} {d : Cursor}, q.Spans p ts d →
        (Pattern.kw k >> Pattern.mark .lparen >> Pattern.phrase .expr >> Pattern.mark .rparen >>
          q).Spans c (word :: test :: ts) d := by
  obtain ⟨hreads, hopen, he, hclose⟩ := h
  obtain ⟨test, htest, hstands, hlower⟩ :=
    (gives_expr_iff ((hc.of_reads hreads).of_passes hopen)).2 he
  obtain ⟨word, hword, hspans⟩ := Pattern.spans_word hreads
  exact ⟨word, test, hword, htest, hlower, fun hothers =>
    ⟨[word], _, rfl, _, hspans, [], _, rfl, _, Pattern.spans_mark hopen, [test], _, rfl, _,
      ⟨test, rfl, htest, hstands⟩, [], _, rfl, _, Pattern.spans_mark hclose, hothers⟩⟩

theorem gives_while_iff (hc : s.IsPlace c) {st : Statement} :
    Phrase.whileStmt.Gives (fun t => s.lowerWhile t.site t.children) c st d ↔
      ∃ p e b, s.MeansCondition .whileKw c e p ∧ Phrase.block.Gives s.lowerBlock p b d ∧
        st = .whileStatement (s.positionAt c.offset) e b := by
  constructor
  · intro h
    obtain ⟨text, children, hspans, hlower⟩ := h.exists_spans (by decide) hc.rested
    obtain ⟨p, word, test, _, rfl, hword, htest, hcondition, block, rfl, hblock, hstands⟩ :=
      meansCondition_of_spans hc hspans
    simp only [Tree.children, lowerWhile, expectChild_eq hword, ok_bind, expectChild_eq htest,
      expectChild_eq hblock, pure_eq_ok] at hlower
    obtain ⟨e, he, hlower⟩ := bind_eq_ok.1 hlower
    obtain ⟨b, hb, hlower⟩ := bind_eq_ok.1 hlower
    obtain rfl := Except.ok.inj hlower
    exact ⟨p, e, b, hcondition e he, ⟨block, hblock, hstands, hb⟩, rfl⟩
  · rintro ⟨p, e, b, hcondition, ⟨block, hblock, hstands, hb⟩, rfl⟩
    obtain ⟨word, test, hword, htest, hlower, hspans⟩ := hcondition.exists_spans hc
    refine .of_spans hc.rested (hspans ⟨block, rfl, hblock, hstands⟩) fun text => ?_
    simp only [Tree.children, lowerWhile, expectChild_eq hword, ok_bind, expectChild_eq htest,
      expectChild_eq hblock, hlower, hb, pure_eq_ok]
    rfl

theorem gives_else_iff (hc : s.IsPlace c) {b : Block} :
    Phrase.elseBranch.Gives (fun t => s.lowerElse t.site t.children) c b d ↔
      ∃ m, c.Reads [.word .elseKw] m ∧ Phrase.block.Gives s.lowerBlock m b d := by
  constructor
  · intro h
    obtain ⟨text, children, hspans, hlower⟩ := h.exists_spans (by decide) hc.rested
    obtain ⟨_, _, rfl, m, ⟨word, rfl, hword, hstands⟩, block, rfl, hblock, hstands'⟩ := hspans
    simp only [Tree.children, List.singleton_append, lowerElse, expectChild_eq hword, ok_bind,
      expectChild_eq hblock] at hlower
    exact ⟨m, hstands.reads_word hword, block, hblock, hstands', hlower⟩
  · rintro ⟨m, hreads, block, hblock, hstands, hlower⟩
    obtain ⟨word, hword, hspans⟩ := Pattern.spans_word hreads
    refine .of_spans hc.rested
      ⟨[word], [block], rfl, m, hspans, block, rfl, hblock, hstands⟩ fun text => ?_
    simp only [Tree.children, List.singleton_append, lowerElse, expectChild_eq hword, ok_bind,
      expectChild_eq hblock, hlower]

theorem gives_if_iff (hc : s.IsPlace c) {st : Statement} :
    Phrase.ifStmt.Gives (fun t => s.lowerIf t.site t.children) c st d ↔
      ∃ p q e b, s.MeansCondition .ifKw c e p ∧ Phrase.block.Gives s.lowerBlock p b q ∧
        (q = d ∧ st = .ifStatement (s.positionAt c.offset) e b none ∨
          ∃ r b', q.Reads [.word .elseKw] r ∧ Phrase.block.Gives s.lowerBlock r b' d ∧
            st = .ifStatement (s.positionAt c.offset) e b (some b')) := by
  constructor
  · intro h
    obtain ⟨text, children, hspans, hlower⟩ := h.exists_spans (by decide) hc.rested
    obtain ⟨p, word, test, _, rfl, hword, htest, hcondition, _, _, rfl, q,
      ⟨block, rfl, hblock, hstands⟩, helse⟩ := meansCondition_of_spans hc hspans
    rcases helse with ⟨⟨rule, start, text', inner⟩, rfl, hbranch, hstands'⟩ | ⟨rfl, rfl⟩
    · obtain rfl : rule = .phrase .elseBranch := hbranch
      simp only [Tree.children, List.singleton_append, lowerIf, expectChild_eq hword, ok_bind,
        expectChild_eq htest, expectChild_eq hblock, pure_eq_ok] at hlower
      obtain ⟨e, he, hlower⟩ := bind_eq_ok.1 hlower
      obtain ⟨b, hb, hlower⟩ := bind_eq_ok.1 hlower
      obtain ⟨b', hb', hlower⟩ := bind_eq_ok.1 hlower
      obtain rfl := Except.ok.inj hlower
      have hq := ((hcondition e he).isPlace hc).of_stands hstands
      obtain ⟨r, hreads, hgives⟩ := (gives_else_iff hq).1 ⟨_, rfl, hstands', hb'⟩
      exact ⟨p, q, e, b, hcondition e he, ⟨block, hblock, hstands, hb⟩,
        Or.inr ⟨r, b', hreads, hgives, rfl⟩⟩
    · simp only [Tree.children, List.append_nil, lowerIf, expectChild_eq hword, ok_bind,
        expectChild_eq htest, expectChild_eq hblock, pure_eq_ok] at hlower
      obtain ⟨e, he, hlower⟩ := bind_eq_ok.1 hlower
      obtain ⟨b, hb, hlower⟩ := bind_eq_ok.1 hlower
      obtain rfl := Except.ok.inj hlower
      exact ⟨p, q, e, b, hcondition e he, ⟨block, hblock, hstands, hb⟩, Or.inl ⟨rfl, rfl⟩⟩
  · rintro ⟨p, q, e, b, hcondition, hgives, helse⟩
    have hq := hgives.isPlace (hcondition.isPlace hc)
    obtain ⟨word, test, hword, htest, hlower, hspans⟩ := hcondition.exists_spans hc
    obtain ⟨block, hblock, hstands, hb⟩ := hgives
    rcases helse with ⟨rfl, rfl⟩ | ⟨r, b', hreads, hgives', rfl⟩
    · refine .of_spans hc.rested
        (hspans ⟨[block], [], rfl, q, ⟨block, rfl, hblock, hstands⟩, Or.inr ⟨rfl, rfl⟩⟩)
        fun text => ?_
      simp only [Tree.children, List.append_nil, lowerIf, expectChild_eq hword, ok_bind,
        expectChild_eq htest, expectChild_eq hblock, hlower, hb, pure_eq_ok]
      rfl
    · obtain ⟨⟨rule, start, text', inner⟩, hrule, hstands', hb'⟩ :=
        (gives_else_iff hq).2 ⟨r, hreads, hgives'⟩
      obtain rfl : rule = .phrase .elseBranch := hrule
      refine .of_spans hc.rested
        (hspans ⟨[block], [_], rfl, q, ⟨block, rfl, hblock, hstands⟩,
          Or.inl ⟨_, rfl, rfl, hstands'⟩⟩) fun text => ?_
      simp only [Tree.site, Tree.rule, Tree.span, Tree.start, Tree.text, Tree.children] at hb'
      simp only [Tree.children, List.singleton_append, lowerIf, expectChild_eq hword, ok_bind,
        expectChild_eq htest, expectChild_eq hblock, hlower, hb, hb', pure_eq_ok]
      rfl

/-! ## Blocks and statements of any depth -/

/-- What the nodes of blocks and statements give with at most so much of the text to come
is what the text says. -/
def SaysUpTo (s : Source) (n : Nat) : Prop :=
  (∀ {c d : Cursor} {b : Block}, c.rest.length < n → s.IsPlace c →
    Phrase.block.Gives s.lowerBlock c b d → s.Says c (.block b) d) ∧
  ∀ {c d : Cursor} {st : Statement}, c.rest.length < n → s.IsPlace c →
    Phrase.statement.Gives s.lowerStatement c st d → s.Says c (.statement st) d

theorem SaysUpTo.statements {n : Nat} {sts : List Statement} (ih : s.SaysUpTo n)
    (hlength : c.rest.length < n) (hc : s.IsPlace c)
    (h : Series (Phrase.statement.Gives s.lowerStatement) c sts d) :
    s.Says c (.statements sts) d := by
  induction h with
  | nil c => exact .done c
  | cons hst _ ihs =>
      have hle := hst.length_le
      exact .next (ih.2 hlength hc hst) (ihs (by omega) (hst.isPlace hc))

theorem SaysUpTo.block {n : Nat} {b : Block} (ih : s.SaysUpTo n) (hlength : c.rest.length < n + 1)
    (hc : s.IsPlace c) (h : Phrase.block.Gives s.lowerBlock c b d) : s.Says c (.block b) d := by
  obtain ⟨m, n', o, hopen, hdeclarations, hstatements, hclose, hposition⟩ :=
    (gives_block_iff hc.rested).1 h
  obtain ⟨position, declarations, statements⟩ := b
  obtain rfl : position = _ := hposition
  have hm := hc.of_passes hopen
  have hmeans := hdeclarations.imp Phrase.leads_gives hm fun hc => (gives_declaration_iff hc).1
  have hlt := hopen.length_lt
  have hle := hdeclarations.length_le fun h => h.length_le
  exact .block hopen hmeans (ih.statements (by omega) (hdeclarations.isPlace Phrase.leads_gives hm)
    hstatements) hclose

theorem SaysUpTo.statement {n : Nat} {st : Statement} (ih : s.SaysUpTo n)
    (hlength : c.rest.length < n + 1) (hc : s.IsPlace c)
    (h : Phrase.statement.Gives s.lowerStatement c st d) : s.Says c (.statement st) d := by
  rcases (gives_statement_iff hc).1 h with h | h | h | h | h
  · obtain ⟨m, n, o, l, e, hl, hsign, he, hend, rfl⟩ := (gives_assignment_iff hc).1 h
    exact .assignment hl hsign he hend
  · obtain ⟨m, e, he, hend, rfl⟩ := (gives_expressionStatement_iff hc).1 h
    exact .call he hend
  · obtain ⟨p, q, e, b, hcondition, hb, helse⟩ := (gives_if_iff hc).1 h
    have hp := hcondition.isPlace hc
    have hlt := hcondition.length_lt hc
    obtain ⟨hreads, hopen, he, hclose⟩ := hcondition
    have hblock := ih.1 (by omega) hp hb
    have hle := hb.length_le
    rcases helse with ⟨rfl, rfl⟩ | ⟨r, b', hreads', hb', rfl⟩
    · exact .ifThen hreads hopen he hclose hblock
    · have hlt' := hreads'.length_lt
      exact .ifElse hreads hopen he hclose hblock hreads'
        (ih.1 (by omega) ((hb.isPlace hp).of_reads hreads') hb')
  · obtain ⟨p, e, b, hcondition, hb, rfl⟩ := (gives_while_iff hc).1 h
    have hp := hcondition.isPlace hc
    have hlt := hcondition.length_lt hc
    obtain ⟨hreads, hopen, he, hclose⟩ := hcondition
    exact .whileLoop hreads hopen he hclose (ih.1 (by omega) hp hb)
  · rcases (gives_return_iff hc).1 h with ⟨m, hreads, hend, rfl⟩ | ⟨m, n, e, hreads, he, hend, rfl⟩
    · exact .returnNothing hreads hend
    · exact .returnValue hreads he hend

theorem saysUpTo (s : Source) (n : Nat) : s.SaysUpTo n := by
  induction n with
  | zero => exact ⟨fun h => absurd h (Nat.not_lt_zero _), fun h => absurd h (Nat.not_lt_zero _)⟩
  | succ n ih => exact ⟨ih.block, ih.statement⟩

/-- What a tree of a block or of statements is. -/
def Told (s : Source) : Cursor → Clause → Cursor → Prop
  | c, .block b, d => Phrase.block.Gives s.lowerBlock c b d
  | c, .statement st, d => Phrase.statement.Gives s.lowerStatement c st d
  | c, .statements sts, d => Series (Phrase.statement.Gives s.lowerStatement) c sts d

theorem Says.told {clause : Clause} (h : s.Says c clause d) (hc : s.IsPlace c) :
    s.Told c clause d := by
  induction h with
  | block hopen hdeclarations _ hclose ih =>
      have hm := hc.of_passes hopen
      have hgives := hdeclarations.imp leads_declaration hm fun hc => (gives_declaration_iff hc).2
      exact (gives_block_iff hc.rested).2 ⟨_, _, _, hopen, hgives,
        ih (hdeclarations.isPlace leads_declaration hm), hclose, rfl⟩
  | done c => exact .nil c
  | next _ _ ih ihs =>
      have hfirst : Phrase.statement.Gives s.lowerStatement _ _ _ := ih hc
      exact .cons hfirst (ihs (hfirst.isPlace hc))
  | assignment hl hsign he hend =>
      exact (gives_statement_iff hc).2 (Or.inl ((gives_assignment_iff hc).2
        ⟨_, _, _, _, _, hl, hsign, he, hend, rfl⟩))
  | call he hend =>
      exact (gives_statement_iff hc).2 (Or.inr (Or.inl ((gives_expressionStatement_iff hc).2
        ⟨_, _, he, hend, rfl⟩)))
  | returnNothing hreads hend =>
      exact (gives_statement_iff hc).2 (Or.inr (Or.inr (Or.inr (Or.inr ((gives_return_iff hc).2
        (Or.inl ⟨_, hreads, hend, rfl⟩))))))
  | returnValue hreads he hend =>
      exact (gives_statement_iff hc).2 (Or.inr (Or.inr (Or.inr (Or.inr ((gives_return_iff hc).2
        (Or.inr ⟨_, _, _, hreads, he, hend, rfl⟩))))))
  | ifThen hreads hopen he hclose _ ih =>
      have hcondition := MeansCondition.condition hreads hopen he hclose
      exact (gives_statement_iff hc).2 (Or.inr (Or.inr (Or.inl ((gives_if_iff hc).2
        ⟨_, _, _, _, hcondition, ih (hcondition.isPlace hc), Or.inl ⟨rfl, rfl⟩⟩))))
  | ifElse hreads hopen he hclose _ hreads' _ ih ih' =>
      have hcondition := MeansCondition.condition hreads hopen he hclose
      have hp := hcondition.isPlace hc
      have hblock : Phrase.block.Gives s.lowerBlock _ _ _ := ih hp
      have hr := (hblock.isPlace hp).of_reads hreads'
      exact (gives_statement_iff hc).2 (Or.inr (Or.inr (Or.inl ((gives_if_iff hc).2
        ⟨_, _, _, _, hcondition, hblock, Or.inr ⟨_, _, hreads', ih' hr, rfl⟩⟩))))
  | whileLoop hreads hopen he hclose _ ih =>
      have hcondition := MeansCondition.condition hreads hopen he hclose
      exact (gives_statement_iff hc).2 (Or.inr (Or.inr (Or.inr (Or.inl ((gives_while_iff hc).2
        ⟨_, _, _, hcondition, ih (hcondition.isPlace hc), rfl⟩)))))

/-- A node of a block gives exactly what the text says. -/
theorem gives_block_iff_means (hc : s.IsPlace c) {b : Block} :
    Phrase.block.Gives s.lowerBlock c b d ↔ s.Says c (.block b) d :=
  ⟨(s.saysUpTo _).1 (Nat.lt_succ_self _) hc, fun h => h.told hc⟩

end Source

end DecafFrontEnd
