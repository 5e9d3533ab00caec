/-
  DecafFrontEnd/Proofs/Meaning/Expression.lean --- what the text of an expression means.

  `Source.Means s c p d` says which expression, location, call or list of arguments the
  lexemes between two places of a text stand for.  There are no parse trees in it: its
  rules are those of the language, with the position of each construct where its first
  lexeme is.  An expression has a tightness, that of the loosest operator it may consist
  of outside brackets.

  The lowering of a node that stands between two places gives exactly what the text there
  means (`Tree.Lawful.means`, and `Source.Means.given` in `Proofs/Meaning/Building.lean`).
-/
import DecafFrontEnd.Proofs.Lowering.Content
import DecafFrontEnd.Proofs.Operator.Denotation
import DecafFrontEnd.Proofs.Operator.Leaf

set_option autoImplicit false

namespace DecafFrontEnd

/-! ## Meanings -/

/-- What the text between two places of an expression can be. -/
inductive Fragment where
  /-- an expression that holds together at least so closely -/
  | expression (tightness : Nat) (e : Expression)
  /-- `this`, a location or a call within an expression -/
  | kept
  | location (l : Location)
  | call (e : Expression)
  | arguments (es : List Expression)

/-- The text between two places stands for a piece of an expression. -/
inductive Source.Means (s : Source) : Cursor → Fragment → Cursor → Prop
  -- operators and brackets
  | tighter {k : Nat} {c d : Cursor} {e : Expression} : k < 6 →
      Means s c (.expression (k + 1) e) d → Means s c (.expression k e) d
  | operation (op : InfixOp) {c m n d : Cursor} {lhs rhs : Expression} :
      Means s c (.expression op.tightness lhs) m → m.Reads [op.lexeme] n →
      Means s n (.expression (op.tightness + 1) rhs) d →
      Means s c (.expression op.tightness
        (.binary (s.positionAt c.offset) lhs op.spelling rhs)) d
  | negation {c m d : Cursor} {e : Expression} : c.Reads [.notSign] m →
      Means s m (.expression 6 e) d →
      Means s c (.expression 6 (.unary (s.positionAt c.offset) "!" e)) d
  | brackets {c m n d : Cursor} {e : Expression} : c.Passes .lparen m →
      Means s m (.expression 0 e) n → n.Passes .rparen d → Means s c (.expression 6 e) d
  -- literals
  | integer {c d : Cursor} {digits : List Char} : c.Reads [⟨.intLit, digits⟩] d →
      decimalValue digits ≤ maxInteger →
      Means s c (.expression 6
        (.integer (s.positionAt c.offset) (Int32.ofNat (decimalValue digits)))) d
  | character {c d : Cursor} {v : Char} {inside : List Char} :
      c.Reads [⟨.charLit, '\'' :: v :: inside⟩] d →
      Means s c (.expression 6 (.character (s.positionAt c.offset) v)) d
  | boolean (b : Bool) {c d : Cursor} : c.Reads [.word (if b then .trueKw else .falseKw)] d →
      Means s c (.expression 6 (.boolean (s.positionAt c.offset) b)) d
  | null {c d : Cursor} : c.Reads [.word .nullKw] d →
      Means s c (.expression 6 (.null (s.positionAt c.offset))) d
  -- what is kept as its text
  | simple {c d : Cursor} {text : List Char} : Means s c .kept d → c.Holds text d →
      Means s c (.expression 6 (.simple (s.positionAt c.offset) (String.ofList text))) d
  | this {c d : Cursor} : c.Reads [.word .thisKw] d → Means s c .kept d
  | keptLocation {c d : Cursor} {l : Location} : Means s c (.location l) d → Means s c .kept d
  | keptCall {c d : Cursor} {e : Expression} : Means s c (.call e) d → Means s c .kept d
  -- locations
  | name {c d : Cursor} {x : List Char} : c.Reads [⟨.ident, x⟩] d →
      Means s c (.location ⟨s.positionAt c.offset, String.ofList x, none, none⟩) d
  | field {c m n d : Cursor} {x y : List Char} : c.Reads [⟨.ident, x⟩] m → m.Passes .dot n →
      n.Reads [⟨.ident, y⟩] d →
      Means s c (.location
        ⟨s.positionAt c.offset, String.ofList x, some (String.ofList y), none⟩) d
  | element {c m n o d : Cursor} {x : List Char} {e : Expression} : c.Reads [⟨.ident, x⟩] m →
      m.Passes .lbrack n → Means s n (.expression 0 e) o → o.Passes .rbrack d →
      Means s c (.location ⟨s.positionAt c.offset, String.ofList x, none, some e⟩) d
  -- calls
  | bareCall {c m n d : Cursor} {l : Location} : Means s c (.location l) m →
      m.Passes .lparen n → n.Passes .rparen d →
      Means s c (.call (.call (s.positionAt c.offset) l [])) d
  | call {c m n o d : Cursor} {l : Location} {es : List Expression} :
      Means s c (.location l) m → m.Passes .lparen n → Means s n (.arguments es) o →
      o.Passes .rparen d → Means s c (.call (.call (s.positionAt c.offset) l es)) d
  | argument {c d : Cursor} {e : Expression} : Means s c (.expression 0 e) d →
      Means s c (.arguments [e]) d
  | arguments {c m n d : Cursor} {e : Expression} {es : List Expression} :
      Means s c (.expression 0 e) m → m.Passes .comma n → Means s n (.arguments es) d →
      Means s c (.arguments (e :: es)) d

namespace Source

variable {s : Source}

theorem Means.loosen {j k : Nat} {c d : Cursor} {e : Expression}
    (h : s.Means c (.expression j e) d) (hk : k ≤ j) (hj : j ≤ 6) :
    s.Means c (.expression k e) d := by
  induction hk with
  | refl => exact h
  | @step j _ ih => exact ih (.tighter hj h) (by omega)

/-! ## Places -/

section

variable {c d : Cursor}

theorem IsPlace.of_passes {t : Terminal} (h : s.IsPlace c) (hpasses : c.Passes t d) :
    s.IsPlace d := by
  obtain ⟨_, hreads⟩ := hpasses
  exact h.of_reads hreads

theorem IsPlace.of_stands {t : Tree} (h : s.IsPlace c) (hstands : t.Stands c d) :
    s.IsPlace d := by
  obtain ⟨e, -, rfl⟩ := id hstands
  exact ⟨h.reaches.trans hstands.reaches, e.rested_skip⟩

end

end Source

/-! ## From nodes to meanings -/

/-- How closely the expressions of a phrase hold together. -/
def Phrase.tightness : Phrase → Nat
  | expr | orExpr => 0
  | andExpr => 1
  | eqExpr => 2
  | relExpr => 3
  | addExpr => 4
  | mulExpr => 5
  | _ => 6

namespace Level

variable {k : Nat}

theorem cases_of_lt (hk : k < 6) : k = 0 ∨ k = 1 ∨ k = 2 ∨ k = 3 ∨ k = 4 ∨ k = 5 := by omega

/-- The operators of a level are read to their end. -/
theorem isBlunt_operator (hk : k < 6) : (Pattern.mark (operator k)).isBlunt = false := by
  obtain rfl | rfl | rfl | rfl | rfl | rfl := cases_of_lt hk <;> rfl

/-- The operands of a level are expressions that hold together more closely. -/
theorem isExpression_form (hk : k < 6) :
    (form (k + 1)).isExpression = true ∧ (form (k + 1)).tightness = k + 1 := by
  obtain rfl | rfl | rfl | rfl | rfl | rfl := cases_of_lt hk <;> exact ⟨rfl, rfl⟩

end Level

/-- An operator of a level is written in one of its spellings. -/
theorem InfixOp.exists_of_scan {k : Nat} (hk : k < 6) {cs l r : List Char}
    (h : (Level.operator k).scan cs = some (l, r)) :
    ∃ op : InfixOp, op.tightness = k ∧ op.lexeme = ⟨Level.operator k, l⟩ := by
  have hspell : l ∈ (Level.operator k).spellings := by
    obtain rfl | rfl | rfl | rfl | rfl | rfl := Level.cases_of_lt hk
    all_goals exact (append_of_scanAny h).1
  have key : ∀ k ∈ List.range 6, ∀ l ∈ (Level.operator k).spellings,
      ∃ op ∈ InfixOp.all, op.tightness = k ∧ op.lexeme = ⟨Level.operator k, l⟩ := by decide
  obtain ⟨op, -, hop⟩ := key k (List.mem_range.2 hk) l hspell
  exact ⟨op, hop⟩

/-- A reserved word that stands at a place is read there. -/
theorem Tree.Stands.reads_word {k : Keyword} {t : Tree} {c d : Cursor} (h : t.Stands c d)
    (hrule : t.rule = .kw k) : c.Reads [.word k] d := by
  obtain ⟨-, hreads⟩ := h.reads hrule rfl
  obtain ⟨r, hscan, -⟩ := hreads.scan
  rwa [scanKeyword_eq_some hscan] at hreads

theorem Tree.Stands.string_word {k : Keyword} {t : Tree} {c d : Cursor} (h : t.Stands c d)
    (hrule : t.rule = .kw k) : t.string = k.spelling := by
  obtain ⟨-, hreads⟩ := h.reads hrule rfl
  obtain ⟨r, hscan, -⟩ := hreads.scan
  rw [Tree.string, scanKeyword_eq_some hscan, String.ofList_toList]

theorem Pattern.spans_word {k : Keyword} {c d : Cursor} (h : c.Reads [.word k] d) :
    ∃ t : Tree, t.rule = .kw k ∧ (Pattern.kw k).Spans c [t] d :=
  ⟨_, rfl, _, rfl, rfl, Tree.stands_terminal h⟩

namespace Source

/-- What the lowering of a node that stands between two places gives is what the text
there means. -/
structure Meant (s : Source) (t : Tree) : Prop where
  expression : ∀ {p : Phrase} {c d : Cursor} {e : Expression}, t.rule = .phrase p →
    p.isExpression = true → s.IsPlace c → t.Stands c d → s.lowerExpression t = .ok e →
    s.Means c (.expression p.tightness e) d
  location : ∀ {c d : Cursor} {l : Location}, t.rule = .phrase .location → s.IsPlace c →
    t.Stands c d → s.lowerLocation t = .ok l → s.Means c (.location l) d
  call : ∀ {c d : Cursor} {e : Expression}, t.rule = .phrase .methodCall → s.IsPlace c →
    t.Stands c d → s.lowerMethodCall t = .ok e → s.Means c (.call e) d
  arguments : ∀ {c d : Cursor} {es : List Expression}, t.rule = .phrase .argList →
    s.IsPlace c → t.Stands c d → s.lowerExpressions t.children = .ok es →
    s.Means c (.arguments es) d
  index : ∀ {c d : Cursor}, t.rule = .phrase .indexAccess → s.IsPlace c → t.Stands c d →
    ∃ index, t.children = [index] ∧ index.rule = .phrase .expr ∧ ∀ e,
      s.lowerExpression index = .ok e →
      ∃ m n, c.Passes .lbrack m ∧ s.Means m (.expression 0 e) n ∧ n.Passes .rbrack d

section

variable {s : Source} {c d : Cursor} {text : List Char} {children : List Tree}

/-! ## Locations and calls -/

theorem means_index (hc : s.IsPlace c) (hspans : Phrase.indexAccess.body.Spans c children d)
    (ih : ∀ t ∈ children, s.Meant t) :
    ∃ index, children = [index] ∧ index.rule = .phrase .expr ∧ ∀ e,
      s.lowerExpression index = .ok e →
      ∃ m n, c.Passes .lbrack m ∧ s.Means m (.expression 0 e) n ∧ n.Passes .rbrack d := by
  obtain ⟨_, _, rfl, m, hopens, _, _, rfl, n, ⟨index, rfl, hindex, hstands⟩, hcloses⟩ := hspans
  obtain ⟨rfl, hopen⟩ := hopens.passes rfl
  obtain ⟨rfl, hclose⟩ := hcloses.passes rfl
  refine ⟨index, rfl, hindex, fun e he => ⟨m, n, hopen, ?_, hclose⟩⟩
  exact (ih index (by simp)).expression hindex rfl (hc.of_passes hopen) hstands he

theorem means_location (hc : s.IsPlace c) (hspans : Phrase.location.body.Spans c children d)
    (ih : ∀ t ∈ children, s.Meant t) {l : Location}
    (hl : s.lowerLocation (.node (.phrase .location) c.offset text children) = .ok l) :
    s.Means c (.location l) d := by
  obtain ⟨_, _, rfl, m, ⟨root, rfl, hroot, hstands⟩, rounds, rfl, hrounds⟩ := hspans
  obtain ⟨-, hname⟩ := hstands.reads hroot rfl
  have hm := hc.of_reads hname
  cases hrounds with
  | nil =>
      simp only [List.flatten_nil, List.append_nil, lowerLocation, expectRule_node,
        expectChild_eq hroot, ok_bind, pure_eq_ok, Except.ok.injEq] at hl
      obtain rfl := hl
      exact .name hname
  | @cons _ n _ selectors rounds hround hothers =>
      have hselector : ∃ selector, selectors = [selector] := by
        rcases hround with ⟨selector, rfl, -⟩ | ⟨selector, rfl, -⟩ <;> exact ⟨_, rfl⟩
      obtain ⟨selector, rfl⟩ := hselector
      cases hothers with
      | @cons _ _ _ others rounds hround' _ =>
          -- a second selector is not lowered
          obtain ⟨other, rfl⟩ : ∃ other, others = [other] := by
            rcases hround' with ⟨other, rfl, -⟩ | ⟨other, rfl, -⟩ <;> exact ⟨_, rfl⟩
          simp only [List.flatten_cons, List.singleton_append] at hl
          rw [lowerLocation, expectRule_node, ok_bind] at hl
          simp only [expectChild_eq hroot, ok_bind, reduceCtorEq] at hl
      | nil =>
          obtain ⟨rule', start', text', inner⟩ := selector
          simp only [List.flatten_cons, List.flatten_nil, List.append_nil, List.singleton_append]
            at hl
          rcases hround with ⟨_, heq, hrule, hstands⟩ | ⟨_, heq, hrule, hstands⟩
          · obtain rfl := List.singleton_inj.1 heq
            obtain rfl : rule' = .phrase .fieldAccess := hrule
            obtain ⟨-, hbody⟩ := hstands.of_phrase (by decide) hm.rested
            obtain ⟨_, _, rfl, o, hdots, field, rfl, hfield, hname'⟩ := hbody
            obtain ⟨rfl, hdot⟩ := hdots.passes rfl
            obtain ⟨-, hfieldName⟩ := hname'.reads hfield rfl
            simp only [List.nil_append, lowerLocation, expectRule_node, expectChild_eq hroot,
              takeChild_eq hfield, ok_bind, pure_eq_ok, Except.ok.injEq] at hl
            obtain rfl := hl
            exact .field hname hdot hfieldName
          · obtain rfl := List.singleton_inj.1 heq
            obtain rfl : rule' = .phrase .indexAccess := hrule
            obtain ⟨index, rfl, hindex, hmeans⟩ := (ih _ (by simp)).index rfl hm hstands
            simp only [lowerLocation, expectRule_node, expectChild_eq hroot,
              expectChild_eq hindex, ok_bind, pure_eq_ok] at hl
            obtain ⟨e, he, hl⟩ := bind_eq_ok.1 hl
            obtain rfl := Except.ok.inj hl
            obtain ⟨_, _, hopen, he, hclose⟩ := hmeans e he
            exact .element hname hopen he hclose

theorem means_methodCall (hc : s.IsPlace c) (hspans : Phrase.methodCall.body.Spans c children d)
    (ih : ∀ t ∈ children, s.Meant t) {e : Expression}
    (he : s.lowerMethodCall (.node (.phrase .methodCall) c.offset text children) = .ok e) :
    s.Means c (.call e) d := by
  obtain ⟨_, _, rfl, m, ⟨location, rfl, hrule, hstands⟩, _, _, rfl, n, hopens, _, _, rfl, o,
    harguments, hcloses⟩ := hspans
  obtain ⟨rfl, hopen⟩ := hopens.passes rfl
  obtain ⟨rfl, hclose⟩ := hcloses.passes rfl
  have hn := (hc.of_stands hstands).of_passes hopen
  have hlocation : ∀ {l}, s.lowerLocation location = .ok l → s.Means c (.location l) m :=
    fun hl => (ih location (by simp)).location hrule hc hstands hl
  rcases harguments with ⟨list, rfl, hlist, hstands'⟩ | ⟨rfl, rfl⟩
  · have hlistMeans : ∀ {es}, s.lowerExpressions list.children = .ok es →
        s.Means n (.arguments es) o :=
      fun hes => (ih list (by simp)).arguments hlist hn hstands' hes
    obtain ⟨rule', start', text', arguments⟩ := list
    obtain rfl : rule' = .phrase .argList := hlist
    simp only [List.nil_append, List.append_nil, List.singleton_append] at he
    rw [lowerMethodCall, expectRule_node, ok_bind] at he
    simp only [expectChild_eq hrule, ok_bind, pure_eq_ok] at he
    obtain ⟨l, hl, he⟩ := bind_eq_ok.1 he
    obtain ⟨es, hes, he⟩ := bind_eq_ok.1 he
    obtain rfl := Except.ok.inj he
    exact .call (hlocation hl) hopen (hlistMeans hes) hclose
  · simp only [List.append_nil] at he
    rw [lowerMethodCall, expectRule_node, ok_bind] at he
    simp only [expectChild_eq hrule, ok_bind, pure_eq_ok] at he
    obtain ⟨l, hl, he⟩ := bind_eq_ok.1 he
    obtain rfl := Except.ok.inj he
    exact .bareCall (hlocation hl) hopen hclose

/-- The arguments behind the first, each behind a comma. -/
theorem means_arguments {rounds : List (List Tree)} {first : Tree} {m : Cursor}
    (hc : s.IsPlace c) (hfirst : first.rule = .phrase .expr) (hstands : first.Stands c m)
    (hrounds : Series (Pattern.mark .comma >> Pattern.phrase .expr).Spans m rounds d)
    (ih : ∀ t ∈ first :: rounds.flatten, s.Meant t) {e : Expression} {es : List Expression}
    (he : s.lowerExpression first = .ok e) (hes : s.lowerExpressions rounds.flatten = .ok es) :
    s.Means c (.arguments (e :: es)) d := by
  have hmeans := (ih first (by simp)).expression hfirst rfl hc hstands he
  induction rounds generalizing c m first e es with
  | nil =>
      cases hrounds
      obtain rfl := Except.ok.inj hes
      exact .argument hmeans
  | cons round rounds ihr =>
      cases hrounds with
      | cons hround hothers =>
          obtain ⟨_, _, rfl, n, hcommas, next, rfl, hnext, hstands'⟩ := hround
          obtain ⟨rfl, hcomma⟩ := hcommas.passes rfl
          have hn := (hc.of_stands hstands).of_passes hcomma
          simp only [List.flatten_cons, List.nil_append, List.singleton_append] at hes ih
          rw [lowerExpressions] at hes
          obtain ⟨e', he', hes⟩ := bind_eq_ok.1 hes
          obtain ⟨es', hes', hes⟩ := bind_eq_ok.1 hes
          obtain rfl := Except.ok.inj hes
          have hmeans' := (ih next (by simp)).expression hnext rfl hn hstands' he'
          exact .arguments hmeans hcomma (ihr hn hnext hstands' hothers
            (fun t ht => ih t (List.mem_cons_of_mem _ ht)) he' hes' hmeans')

/-! ## Operators -/

/-- The operands of a level behind the first, each behind an operator. -/
theorem means_operands {k : Nat} (hk : k < 6) {rounds : List (List Tree)} {m : Cursor}
    (hm : s.IsPlace m)
    (hrounds : Series (Pattern.term (Level.operator k) >>
      Pattern.phrase (Level.form (k + 1))).Spans m rounds d)
    (ih : ∀ t ∈ rounds.flatten, s.Meant t) {lhs e : Expression}
    (hlhs : s.Means c (.expression k lhs) m)
    (he : s.lowerOperands (Level.operator k) (s.positionAt c.offset) lhs rounds.flatten = .ok e) :
    s.Means c (.expression k e) d := by
  induction rounds generalizing m lhs with
  | nil =>
      cases hrounds
      rw [List.flatten_nil, lowerOperands] at he
      obtain rfl := Except.ok.inj he
      exact hlhs
  | cons round rounds ihr =>
      cases hrounds with
      | @cons _ o _ _ _ hround hothers =>
          obtain ⟨_, _, rfl, n, ⟨sign, rfl, hsign, hstands⟩, operand, rfl, hoperand, hstands'⟩ :=
            hround
          obtain ⟨-, hreads⟩ := hstands.reads hsign (Level.isBlunt_operator hk)
          obtain ⟨r, hscan, -⟩ := hreads.scan
          obtain ⟨op, htight, hop⟩ := InfixOp.exists_of_scan hk hscan
          have hn := hm.of_reads hreads
          simp only [List.flatten_cons, List.cons_append, List.nil_append] at he ih
          rw [lowerOperands, if_pos hsign] at he
          obtain ⟨rhs, hrhs, he⟩ := bind_eq_ok.1 he
          have hspelling : sign.string = op.spelling := by
            have htext : op.spelling.toList = sign.text := congrArg Lexeme.text hop
            rw [Tree.string, ← htext, String.ofList_toList]
          rw [← hop] at hreads
          obtain ⟨hexpression, htightness⟩ := Level.isExpression_form hk
          have hmeans := (ih operand (by simp)).expression hoperand hexpression hn hstands' hrhs
          rw [htightness] at hmeans
          refine ihr (hn.of_stands hstands') hothers
            (fun t ht => ih t (List.mem_cons_of_mem _ (List.mem_cons_of_mem _ ht))) ?_ he
          subst htight
          rw [hspelling]
          exact .operation op hlhs hreads hmeans

theorem means_level {k : Nat} (hk : k < 6) (hc : s.IsPlace c)
    (hspans : (Level.form k).body.Spans c children d) (ih : ∀ t ∈ children, s.Meant t)
    {e : Expression}
    (he : s.lowerExpression (.node (.phrase (Level.form k)) c.offset text children) = .ok e) :
    s.Means c (.expression k e) d := by
  rw [Level.body_form hk] at hspans
  obtain ⟨_, _, rfl, m, ⟨first, rfl, hfirst, hstands⟩, rounds, rfl, hrounds⟩ := hspans
  rw [List.singleton_append, lowerExpression_level hk] at he
  obtain ⟨lhs, hlhs, he⟩ := bind_eq_ok.1 he
  obtain ⟨hexpression, htightness⟩ := Level.isExpression_form hk
  have hmeans := (ih first (by simp)).expression hfirst hexpression hc hstands hlhs
  rw [htightness] at hmeans
  exact means_operands hk (hc.of_stands hstands) hrounds
    (fun t ht => ih t (List.mem_cons_of_mem _ ht)) (.tighter hk hmeans) he

theorem means_notExpr (hc : s.IsPlace c) (hspans : Phrase.notExpr.body.Spans c children d)
    (ih : ∀ t ∈ children, s.Meant t) {e : Expression}
    (he : s.lowerExpression (.node (.phrase .notExpr) c.offset text children) = .ok e) :
    s.Means c (.expression 6 e) d := by
  obtain ⟨_, _, rfl, m, ⟨sign, rfl, hsign, hstands⟩, operand, rfl, hoperand, hstands'⟩ := hspans
  obtain ⟨rule', start', text', inner⟩ := sign
  obtain rfl : rule' = .terminal .notOp := hsign
  obtain ⟨-, rfl, r, hscan, rfl⟩ := hstands.of_terminal
  have hreads : c.Reads [⟨.notOp, text'⟩] _ :=
    Cursor.reads_of_scan_of_spans (q := Pattern.phrase .unaryExpr) hscan rfl rfl (by decide)
      (by decide) ⟨operand, rfl, hoperand, hstands'⟩
  have htext : text' = ['!'] := by
    have hspell : scanAny Terminal.notOp.spellings c.rest = some (text', r) := hscan
    simpa [Terminal.spellings] using (append_of_scanAny hspell).1
  subst htext
  simp only [List.singleton_append, lowerExpression, Tree.rule, if_true, pure_eq_ok] at he
  obtain ⟨e', he', he⟩ := bind_eq_ok.1 he
  obtain rfl := Except.ok.inj he
  exact .negation hreads
    ((ih operand (by simp)).expression hoperand rfl (hc.of_reads hreads) hstands' he')

/-! ## Literals -/

/-- A character literal has the character behind its quote as its value. -/
theorem characterValue_eq_ok {text : List Char} (h : IsCharLit text) {v : Char}
    (hv : characterValue (String.ofList text) = .ok v) : ∃ inside, text = '\'' :: v :: inside := by
  obtain ⟨v', inside, htext, hv'⟩ := h.characterValue_eq
  obtain rfl : v' = v := Except.ok.inj (hv'.symm.trans hv)
  exact ⟨inside, htext⟩

/-- The node of a truth literal has the text of its word. -/
theorem reads_boolLit {t : Tree} (h : t.Stands c d) (hrule : t.rule = .phrase .boolLit)
    (hc : c.Rested) :
    ∃ b : Bool, c.Reads [.word (if b then .trueKw else .falseKw)] d ∧
      t.string = if b then "true" else "false" := by
  have hword : ∀ {k : Keyword} {ts : List Tree} {e : Cursor},
      Covers (.once (Pattern.kw k)) c ts e → c.Reads [.word k] e.skip := by
    intro k ts e hcovers
    obtain ⟨word, -, hword, hstands⟩ := hcovers.goalSpans rfl hc
    exact hstands.reads_word hword
  obtain ⟨r, start, text, children⟩ := t
  obtain rfl : r = .phrase .boolLit := hrule
  obtain ⟨e, hcovers, rfl⟩ := h
  generalize hts : [Tree.node (.phrase .boolLit) start text children] = ts at hcovers
  cases hcovers with
  | rule hbody =>
      simp only [Tree.rule, Rule.leave, Rule.isSilent, Bool.false_eq_true, if_false,
        List.cons.injEq, Tree.node.injEq, and_true, true_and] at hts
      obtain ⟨-, htext, -⟩ := hts
      cases hbody with
      | left htrue =>
          rw [htrue.text_of_keyword] at htext
          exact ⟨true, hword htrue, congrArg String.ofList htext⟩
      | right hfalse =>
          rw [hfalse.text_of_keyword] at htext
          exact ⟨false, hword hfalse, congrArg String.ofList htext⟩

theorem means_literal (hspans : Phrase.literal.body.Spans c children d) {e : Expression}
    (hc : c.Rested)
    (he : s.lowerLiteral (.node (.phrase .literal) c.offset text children) = .ok e) :
    s.Means c (.expression 6 e) d := by
  rcases hspans with ⟨t, rfl, hrule, hstands⟩ | ⟨t, rfl, hrule, hstands⟩ |
    ⟨t, rfl, hrule, hstands⟩ | ⟨t, rfl, hrule, hstands⟩
  all_goals simp only [lowerLiteral, onlyChild_node, ok_bind, hrule, pure_eq_ok] at he
  · obtain ⟨-, hreads⟩ := hstands.reads hrule rfl
    obtain ⟨r, hscan, -⟩ := hreads.scan
    have hspells : (Rule.terminal .intLit).Spells t.text :=
      ⟨r, by rw [Terminal.append_of_scan hscan]; exact hscan⟩
    obtain ⟨v, hv, he⟩ := bind_eq_ok.1 he
    obtain rfl := Except.ok.inj he
    rw [Tree.string, integerValue_eq hspells] at hv
    split at hv
    · simp [valueAt] at hv
    · next hle =>
        obtain rfl := Except.ok.inj hv
        exact .integer hreads (Nat.le_of_not_lt hle)
  · obtain ⟨-, hreads⟩ := hstands.reads hrule rfl
    obtain ⟨r, hscan, -⟩ := hreads.scan
    have hlit := ((scanCharLit_iff _ _ _).1 hscan).1
    obtain ⟨v, hv, he⟩ := bind_eq_ok.1 he
    obtain rfl := Except.ok.inj he
    unfold valueAt at hv
    split at hv
    · next v' hvalue =>
        obtain rfl := Except.ok.inj hv
        obtain ⟨inside, hinside⟩ := characterValue_eq_ok hlit hvalue
        rw [hinside] at hreads
        exact .character hreads
    · simp at hv
  · obtain ⟨b, hreads, htext⟩ := reads_boolLit hstands hrule hc
    obtain ⟨v, hv, he⟩ := bind_eq_ok.1 he
    obtain rfl := Except.ok.inj he
    rw [htext] at hv
    obtain rfl : b = v := by
      cases b <;> exact Except.ok.inj hv
    exact .boolean b hreads
  · obtain ⟨rule', start', text', inner⟩ := t
    obtain rfl : rule' = .phrase .nullLit := hrule
    obtain ⟨-, word, rfl, hword, hstands'⟩ := hstands.of_phrase (by decide) hc
    obtain rfl := Except.ok.inj he
    exact .null (hstands'.reads_word hword)

/-! ## Expressions kept as their text -/

theorem means_kept (hc : s.IsPlace c)
    (hstands : (Tree.node (.phrase .simpleExpr) c.offset text children).Stands c d)
    (ih : ∀ t ∈ children, s.Meant t) {e : Expression}
    (he : s.lowerExpression (.node (.phrase .simpleExpr) c.offset text children) = .ok e) :
    ∃ kept, s.Means c .kept d ∧ c.Holds kept d ∧
      e = .simple (s.positionAt c.offset) (String.ofList kept) := by
  obtain ⟨kept, hkept, hslice⟩ := slice_of_stands hstands (by decide) hc
  obtain ⟨-, hspans⟩ := hstands.of_phrase (by decide) hc.rested
  rcases hspans with ⟨word, rfl, hrule, hstands'⟩ | ⟨call, rfl, hrule, hstands'⟩ |
    ⟨location, rfl, hrule, hstands'⟩
  · simp only [lowerExpression, hrule, pure_eq_ok, hslice] at he
    obtain rfl := Except.ok.inj he
    exact ⟨kept, .this (hstands'.reads_word hrule), hkept, rfl⟩
  · simp only [lowerExpression, hrule, pure_eq_ok, hslice] at he
    obtain ⟨e', he', he⟩ := bind_eq_ok.1 he
    obtain rfl := Except.ok.inj he
    exact ⟨kept, .keptCall ((ih call (by simp)).call hrule hc hstands' he'), hkept, rfl⟩
  · simp only [lowerExpression, hrule, pure_eq_ok, hslice] at he
    obtain ⟨l, hl, he⟩ := bind_eq_ok.1 he
    obtain rfl := Except.ok.inj he
    exact ⟨kept, .keptLocation ((ih location (by simp)).location hrule hc hstands' hl), hkept, rfl⟩

/-! ## All expressions -/

/-- A phrase that stands for one expression. -/
theorem means_inner {p inner : Phrase} {t : Tree} (hp : p = .expr ∨ p = .unaryExpr ∨ p = .primary)
    (ht : t.rule = .phrase inner) (hinner : inner.isExpression = true)
    (htight : inner.tightness = p.tightness) (hc : s.IsPlace c) (hstands : t.Stands c d)
    (ih : s.Meant t) {e : Expression}
    (he : s.lowerExpression (.node (.phrase p) c.offset text [t]) = .ok e) :
    s.Means c (.expression p.tightness e) d := by
  have he' : s.lowerExpression t = .ok e := by rcases hp with rfl | rfl | rfl <;> exact he
  rw [← htight]
  exact ih.expression ht hinner hc hstands he'

theorem means_expression {p : Phrase} (hp : p.isExpression = true) (hc : s.IsPlace c)
    (hstands : (Tree.node (.phrase p) c.offset text children).Stands c d)
    (ih : ∀ t ∈ children, s.Meant t) {e : Expression}
    (he : s.lowerExpression (.node (.phrase p) c.offset text children) = .ok e) :
    s.Means c (.expression p.tightness e) d := by
  have hne : p ≠ .program := by
    rintro rfl
    simp [Phrase.isExpression] at hp
  obtain ⟨-, hspans⟩ := hstands.of_phrase hne hc.rested
  cases p with
  | expr =>
      obtain ⟨t, rfl, ht, hstands'⟩ := hspans
      exact means_inner (p := .expr) (by decide) ht rfl rfl hc hstands' (ih t (by simp)) he
  | unaryExpr =>
      rcases hspans with ⟨t, rfl, ht, hstands'⟩ | ⟨t, rfl, ht, hstands'⟩ <;>
        exact means_inner (p := .unaryExpr) (by decide) ht rfl rfl hc hstands' (ih t (by simp)) he
  | primary =>
      rcases hspans with ⟨t, rfl, ht, hstands'⟩ | ⟨t, rfl, ht, hstands'⟩ |
        ⟨t, rfl, ht, hstands'⟩ | ⟨t, rfl, ht, hstands'⟩ | ⟨t, rfl, ht, hstands'⟩ <;>
        exact means_inner (p := .primary) (by decide) ht rfl rfl hc hstands' (ih t (by simp)) he
  | parenExpr =>
      obtain ⟨_, _, rfl, m, hopens, _, _, rfl, n, ⟨t, rfl, ht, hstands'⟩, hcloses⟩ := hspans
      obtain ⟨rfl, hopen⟩ := hopens.passes rfl
      obtain ⟨rfl, hclose⟩ := hcloses.passes rfl
      have he' : s.lowerExpression t = .ok e := he
      exact .brackets hopen
        ((ih t (by simp)).expression ht rfl (hc.of_passes hopen) hstands' he') hclose
  | notExpr => exact means_notExpr hc hspans ih he
  | simpleExpr =>
      obtain ⟨kept, hmeans, hkept, rfl⟩ := means_kept hc hstands ih he
      exact .simple hmeans hkept
  | literal => exact means_literal hspans hc.rested he
  | newObject | newArray => simp [lowerExpression] at he
  | orExpr => exact means_level (k := 0) (by decide) hc hspans ih he
  | andExpr => exact means_level (k := 1) (by decide) hc hspans ih he
  | eqExpr => exact means_level (k := 2) (by decide) hc hspans ih he
  | relExpr => exact means_level (k := 3) (by decide) hc hspans ih he
  | addExpr => exact means_level (k := 4) (by decide) hc hspans ih he
  | mulExpr => exact means_level (k := 5) (by decide) hc hspans ih he
  | _ => simp [Phrase.isExpression] at hp

end

end Source

/-- The lowering of a node gives what its text means. -/
theorem Tree.Lawful.means {t : Tree} (s : Source) (h : t.Lawful) : s.Meant t := by
  induction h with
  | @node r start text children _ _ _ ih =>
      refine ⟨?_, ?_, ?_, ?_, ?_⟩
      · rintro p c d e ⟨⟩ hp hc hstands he
        have hne : p ≠ .program := by
          rintro rfl
          simp [Phrase.isExpression] at hp
        obtain ⟨rfl, -⟩ := hstands.of_phrase hne hc.rested
        exact Source.means_expression hp hc hstands ih he
      · rintro c d l ⟨⟩ hc hstands hl
        obtain ⟨rfl, hspans⟩ := hstands.of_phrase (by decide) hc.rested
        exact Source.means_location hc hspans ih hl
      · rintro c d e ⟨⟩ hc hstands he
        obtain ⟨rfl, hspans⟩ := hstands.of_phrase (by decide) hc.rested
        exact Source.means_methodCall hc hspans ih he
      · rintro c d es ⟨⟩ hc hstands hes
        obtain ⟨rfl, _, _, rfl, m, ⟨first, rfl, hfirst, hstands'⟩, rounds, rfl, hrounds⟩ :=
          hstands.of_phrase (by decide) hc.rested
        simp only [Tree.children, List.singleton_append] at hes ih
        rw [Source.lowerExpressions] at hes
        obtain ⟨e, he, hes⟩ := bind_eq_ok.1 hes
        obtain ⟨es', hes', hes⟩ := bind_eq_ok.1 hes
        obtain rfl := Except.ok.inj hes
        exact Source.means_arguments hc hfirst hstands' hrounds ih he hes'
      · rintro c d ⟨⟩ hc hstands
        obtain ⟨-, hspans⟩ := hstands.of_phrase (by decide) hc.rested
        exact Source.means_index hc hspans ih

end DecafFrontEnd
