/-
  DecafFrontEnd/Proofs/Lowering/Expression.lean --- lowering expressions.

  `Source.Lowers s t` collects what the lowering of expressions, calls and locations
  makes of one node: each of the functions that can be asked to lower it settles its
  obstacles.  It holds of every lawful tree (`Tree.Lawful.lowers`).  The induction is
  on the tree; for each phrase the children are read off the grammar, and the order in
  which they are lowered is the order in which their obstacles are listed.
-/
import DecafFrontEnd.Proofs.Lowering.Literal

set_option autoImplicit false

namespace DecafFrontEnd

/-! ## Steps that always succeed -/

namespace Source

variable {s : Source} {t : Tree} {r : Rule}

theorem expectRule_eq (h : t.rule = r) : s.expectRule r t = .ok () := by
  rw [expectRule, if_pos h]

@[simp] theorem expectRule_node (start : Nat) (text : List Char) (ts : List Tree) :
    s.expectRule r (.node r start text ts) = .ok () := expectRule_eq rfl

theorem expectChild_eq {site : Site} (h : t.rule = r) : s.expectChild site r t = .ok () := by
  rw [expectChild, if_pos h]

theorem takeChild_eq {site : Site} {ts : List Tree} (h : t.rule = r) :
    s.takeChild site r (t :: ts) = .ok (t, ts) := by
  rw [takeChild, expectChild_eq h, ok_bind]

theorem onlyChild_eq {c : Tree} {ts : List Tree} (h : t.children = c :: ts) :
    s.onlyChild t = .ok c := by
  rw [onlyChild, h]

@[simp] theorem onlyChild_node {c : Tree} {ts : List Tree} (start : Nat) (text : List Char) :
    s.onlyChild (.node r start text (c :: ts)) = .ok c := rfl

end Source

/-! ## Nodes without obstacles -/

namespace Tree

/-- The obstacles of a node that is none itself are those of its children. -/
theorem obstacles_of_own_nil {t : Tree} (h : t.ownObstacles = []) :
    t.obstacles = obstaclesOf t.children := by
  rw [obstacles_eq, h, List.nil_append]

/-- The end of the text is no obstacle. -/
theorem obstacles_endOfInput {t : Tree} (hrule : t.rule = .endOfInput) (hnone : t.children = []) :
    t.obstacles = [] := by
  have hown : t.ownObstacles = [] := by
    unfold ownObstacles
    rw [hrule]
  rw [obstacles_of_own_nil hown, hnone, obstaclesOf_nil]

/-- A word other than an integer is no obstacle. -/
theorem Lawful.obstacles_word {t : Tree} {w : Terminal} (h : t.Lawful)
    (hrule : t.rule = .terminal w) (hw : w ≠ .intLit) : t.obstacles = [] := by
  have hleaves := h.leaves hrule
  have hchildren : t.children = [] := hleaves
  have hown : t.ownObstacles = [] := by
    unfold ownObstacles
    rw [hrule]
    cases w <;> first | rfl | exact absurd rfl hw
  rw [obstacles_of_own_nil hown, hchildren, obstaclesOf_nil]

/-- A phrase is no obstacle, if it is none of four. -/
theorem ownObstacles_phrase {t : Tree} {p : Phrase} (hrule : t.rule = .phrase p)
    (hp : p ≠ .newObject ∧ p ≠ .newArray ∧ p ≠ .location ∧ p ≠ .calloutArg) :
    t.ownObstacles = [] := by
  obtain ⟨h1, h2, h3, h4⟩ := hp
  unfold ownObstacles
  rw [hrule]
  cases p <;> first | rfl | contradiction

/-- A phrase made of words other than integers has no obstacles. -/
theorem Lawful.obstacles_words {t : Tree} {p : Phrase} (h : t.Lawful) (hrule : t.rule = .phrase p)
    (hp : p ≠ .newObject ∧ p ≠ .newArray ∧ p ≠ .location ∧ p ≠ .calloutArg)
    (hwords : ∀ c ∈ t.children, ∃ w, c.rule = .terminal w ∧ w ≠ .intLit) :
    t.obstacles = [] := by
  rw [obstacles_of_own_nil (ownObstacles_phrase hrule hp), obstaclesOf, List.flatMap_eq_nil_iff]
  intro c hc
  obtain ⟨w, hw, hne⟩ := hwords c hc
  exact (h.children c hc).obstacles_word hw hne

end Tree

/-! ## Lists of nodes -/

/-- The nodes of a list with commas are all of one rule. -/
theorem Pattern.rule_of_leaves_commaList {r : Rule} {ts : List Tree}
    (h : (commaList (rule r)).Leaves ts) : ∀ t ∈ ts, t.rule = r := by
  obtain ⟨_, _, rfl, ⟨first, rfl, hfirst⟩, rounds, rfl, hrounds⟩ := h
  intro t ht
  rcases List.mem_append.1 ht with ht | ht
  · rw [List.mem_singleton.1 ht, hfirst]
  · obtain ⟨round, hround, ht⟩ := List.mem_flatten.1 ht
    obtain ⟨_, _, rfl, rfl, other, rfl, hother⟩ := hrounds round hround
    rw [List.nil_append] at ht
    rw [List.mem_singleton.1 ht, hother]

namespace Source

theorem lowerExpressions_eq (s : Source) (ts : List Tree) :
    s.lowerExpressions ts = ts.mapM s.lowerExpression := by
  induction ts with
  | nil => rfl
  | cons t ts ih => rw [lowerExpressions, List.mapM_cons, ih]

/-! ## What the lowering makes of a node -/

end Source

/-- The phrases that are expressions. -/
def Phrase.isExpression : Phrase → Bool
  | expr | orExpr | andExpr | eqExpr | relExpr | addExpr | mulExpr | unaryExpr | notExpr
  | primary | parenExpr | newObject | newArray | simpleExpr | literal => true
  | _ => false

namespace Source

/-- What the lowering of expressions makes of a node, whatever its rule. -/
structure Lowers (s : Source) (t : Tree) : Prop where
  expression : ∀ p, t.rule = .phrase p → p.isExpression = true →
    s.Settles (s.lowerExpression t) t.obstacles
  call : t.rule = .phrase .methodCall → s.Settles (s.lowerMethodCall t) t.obstacles
  location : t.rule = .phrase .location → s.Settles (s.lowerLocation t) t.obstacles
  arguments : t.rule = .phrase .argList →
    s.Settles (s.lowerExpressions t.children) t.obstacles
  index : t.rule = .phrase .indexAccess → ∃ index, t.children = [index] ∧
    index.rule = .phrase .expr ∧ s.Settles (s.lowerExpression index) t.obstacles

section

variable {s : Source} {start : Nat} {text : List Char} {children : List Tree}

/-! ## Calls and locations -/

theorem settles_methodCall (hleaves : Phrase.methodCall.body.Leaves children)
    (ih : ∀ t ∈ children, s.Lowers t) :
    s.Settles (s.lowerMethodCall (.node (.phrase .methodCall) start text children))
      (Tree.obstaclesOf children) := by
  obtain ⟨_, _, rfl, ⟨location, rfl, hrule⟩, _, _, rfl, rfl, _, _, rfl, harguments, rfl⟩ := hleaves
  have hlocation := (ih location (by simp)).location hrule
  rcases harguments with ⟨arguments, rfl, hargs⟩ | rfl
  · have harguments := (ih arguments (by simp)).arguments hargs
    obtain ⟨_, start', text', inner⟩ := arguments
    obtain rfl := hargs
    simp only [List.nil_append, List.append_nil, List.singleton_append, Tree.obstaclesOf_cons,
      Tree.obstaclesOf_nil]
    rw [lowerMethodCall, expectRule_node, ok_bind]
    simp only [expectChild_eq hrule, ok_bind, pure_eq_ok]
    exact hlocation.bind fun _ _ => harguments.map
  · simp only [List.append_nil, Tree.obstaclesOf_cons, Tree.obstaclesOf_nil]
    rw [lowerMethodCall, expectRule_node, ok_bind]
    simp only [expectChild_eq hrule, ok_bind, pure_eq_ok]
    exact hlocation.map

/-- A selector is the name of a field or an index. -/
theorem leaves_selectors {rounds : List (List Tree)}
    (h : ∀ ts ∈ rounds, (Pattern.phrase .fieldAccess <|> Pattern.phrase .indexAccess).Leaves ts) :
    ∀ t ∈ rounds.flatten, t.rule = .phrase .fieldAccess ∨ t.rule = .phrase .indexAccess := by
  intro t ht
  obtain ⟨round, hround, ht⟩ := List.mem_flatten.1 ht
  rcases h round hround with ⟨selector, rfl, hrule⟩ | ⟨selector, rfl, hrule⟩
  · rw [List.mem_singleton.1 ht]
    exact Or.inl hrule
  · rw [List.mem_singleton.1 ht]
    exact Or.inr hrule

/-- The selectors of a location are all its children but the first. -/
theorem selectors_location {root : Tree} {selectors : List Tree} (start : Nat)
    (text : List Char) (hroot : root.rule = .terminal .ident)
    (h : ∀ t ∈ selectors, t.rule = .phrase .fieldAccess ∨ t.rule = .phrase .indexAccess) :
    (Tree.node (.phrase .location) start text (root :: selectors)).selectors = selectors := by
  rw [Tree.selectors, Tree.children, List.filter_cons, hroot]
  simp only [reduceCtorEq, decide_false, Bool.or_self, Bool.false_eq_true, if_false]
  rw [List.filter_eq_self]
  intro t ht
  rcases h t ht with hrule | hrule <;> simp [hrule]

theorem settles_fieldAccess {selector : Tree} (hrule : selector.rule = .phrase .fieldAccess)
    (hlawful : selector.Lawful) :
    selector.obstacles = [] ∧ ∃ field, selector.children = [field] ∧
      field.rule = .terminal .ident := by
  have hleaves := hlawful.leaves hrule
  obtain ⟨_, _, hchildren, rfl, field, rfl, hfield⟩ := hleaves
  rw [List.nil_append] at hchildren
  refine ⟨hlawful.obstacles_words hrule (by decide) ?_, field, hchildren, hfield⟩
  intro c hc
  rw [hchildren, List.mem_singleton] at hc
  exact ⟨.ident, hc ▸ hfield, by decide⟩

/-- A location settles its obstacles: with more than one selector it is one itself,
and the selectors are not looked at. -/
theorem settles_location (hleaves : Phrase.location.body.Leaves children)
    (hlawful : ∀ t ∈ children, t.Lawful) (ih : ∀ t ∈ children, s.Lowers t) :
    s.Settles (s.lowerLocation (.node (.phrase .location) start text children))
      (Tree.node (.phrase .location) start text children).obstacles := by
  obtain ⟨_, _, rfl, ⟨root, rfl, hroot⟩, rounds, rfl, hrounds⟩ := hleaves
  have hkinds := leaves_selectors hrounds
  generalize rounds.flatten = selectors at hkinds hlawful ih
  rw [List.singleton_append] at *
  have hnone := (hlawful root (by simp)).obstacles_word hroot (by simp)
  have hselectors := selectors_location start text hroot hkinds
  rw [Tree.obstacles_eq, Tree.ownObstacles]
  simp only [Tree.rule, hselectors, Tree.children, Tree.obstaclesOf_cons, hnone,
    List.nil_append]
  cases selectors with
  | nil =>
      simp only [lowerLocation, expectRule_node, expectChild_eq hroot, ok_bind, pure_eq_ok]
      exact .ok _
  | cons selector others =>
      cases others with
      | nil =>
          have hone : selector ∈ [root, selector] := by simp
          simp only [List.length_singleton, Nat.reduceLeDiff, if_false, List.nil_append,
            Tree.obstaclesOf_cons, Tree.obstaclesOf_nil, List.append_nil]
          rcases hkinds selector (by simp) with hrule | hrule
          · obtain ⟨hnone', field, hchildren, hfield⟩ :=
              settles_fieldAccess hrule (hlawful _ hone)
            obtain ⟨_, start', text', inner⟩ := selector
            obtain rfl := hrule
            obtain rfl := hchildren
            simp only [lowerLocation, expectRule_node, expectChild_eq hroot, takeChild_eq hfield,
              ok_bind, pure_eq_ok, hnone']
            exact .ok _
          · obtain ⟨index, hchildren, hindex, hsettles⟩ := (ih _ hone).index hrule
            obtain ⟨_, start', text', inner⟩ := selector
            obtain rfl := hrule
            obtain rfl := hchildren
            simp only [lowerLocation, expectRule_node, expectChild_eq hroot,
              expectChild_eq hindex, ok_bind, pure_eq_ok]
            exact hsettles.map
      | cons other others =>
          rw [if_pos (by simp), lowerLocation, expectRule_node, ok_bind]
          simp only [expectChild_eq hroot, ok_bind]
          rfl

theorem settles_arguments (hleaves : Phrase.argList.body.Leaves children)
    (ih : ∀ t ∈ children, s.Lowers t) :
    s.Settles (s.lowerExpressions children) (Tree.obstaclesOf children) := by
  have hrules := Pattern.rule_of_leaves_commaList hleaves
  rw [lowerExpressions_eq]
  exact .mapM fun t ht => (ih t ht).expression .expr (hrules t ht) rfl

theorem settles_index (hleaves : Phrase.indexAccess.body.Leaves children)
    (ih : ∀ t ∈ children, s.Lowers t) :
    ∃ index, children = [index] ∧ index.rule = .phrase .expr ∧
      s.Settles (s.lowerExpression index) (Tree.obstaclesOf children) := by
  obtain ⟨_, _, rfl, rfl, _, _, rfl, ⟨index, rfl, hindex⟩, rfl⟩ := hleaves
  have hsettles := (ih index (by simp)).expression .expr hindex rfl
  refine ⟨index, by simp, hindex, ?_⟩
  simpa using hsettles

/-! ## Literals -/

/-- The value of an integer is found unless it is too great. -/
theorem settles_integerValue {t : Tree} (hrule : t.rule = .terminal .intLit)
    (hlawful : t.Lawful) : s.Settles (s.valueAt t (integerValue t.string)) t.obstacles := by
  have hchildren : t.children = [] := hlawful.leaves hrule
  have hvalue : integerValue t.string = _ := integerValue_eq (hlawful.spells hrule)
  rw [Tree.obstacles_eq, hchildren, hvalue]
  simp only [Tree.ownObstacles, hrule, Tree.obstaclesOf_nil, List.append_nil]
  split
  · rfl
  · exact .ok _

theorem settles_characterValue {t : Tree} (hrule : t.rule = .terminal .charLit)
    (hlawful : t.Lawful) : s.Settles (s.valueAt t (characterValue t.string)) t.obstacles := by
  obtain ⟨c, hc⟩ := characterValue_of_spells (hlawful.spells hrule)
  have hvalue : characterValue t.string = .ok c := hc
  rw [hvalue, hlawful.obstacles_word hrule (by decide)]
  exact .ok c

theorem settles_booleanValue {t : Tree} (hrule : t.rule = .phrase .boolLit)
    (hlawful : t.Lawful) : s.Settles (s.valueAt t (booleanValue t.string)) t.obstacles := by
  obtain ⟨v, hv⟩ := booleanValue_of_spells (hlawful.spells hrule)
  have hvalue : booleanValue t.string = .ok v := hv
  have hnone : t.obstacles = [] := by
    apply hlawful.obstacles_words hrule (by decide)
    rcases hlawful.leaves hrule with ⟨word, hword, hw⟩ | ⟨word, hword, hw⟩ <;>
      simp [hword, hw]
  rw [hvalue, hnone]
  exact .ok v

/-- A literal settles its obstacles: only an integer can be one. -/
theorem settles_literal {t : Tree} (hrule : t.rule = .phrase .literal) (hlawful : t.Lawful) :
    s.Settles (s.lowerLiteral t) t.obstacles := by
  have hown := Tree.ownObstacles_phrase hrule (by decide)
  rw [Tree.obstacles_of_own_nil hown]
  -- whichever literal it is, it is the only child
  rcases hlawful.leaves hrule with ⟨literal, hts, hr⟩ | ⟨literal, hts, hr⟩ | ⟨literal, hts, hr⟩ |
    ⟨literal, hts, hr⟩
  all_goals
    have hliteral := hlawful.children literal (by simp [hts])
    simp only [lowerLiteral, onlyChild_eq hts, ok_bind, hr, hts, Tree.obstaclesOf_cons,
      Tree.obstaclesOf_nil, List.append_nil, pure_eq_ok]
  · exact (settles_integerValue hr hliteral).map
  · exact (settles_characterValue hr hliteral).map
  · exact (settles_booleanValue hr hliteral).map
  · have hnone : literal.obstacles = [] := by
      apply hliteral.obstacles_words hr (by decide)
      obtain ⟨word, hword, hw⟩ := hliteral.leaves hr
      simp [hword, hw]
    rw [hnone]
    exact .ok _

/-! ## Operators -/

/-- The operands of a level are lowered one after the other. -/
theorem settles_operands {operator : Terminal} {operand : Phrase} (hop : operator ≠ .intLit)
    (hoperand : operand.isExpression = true) (position : Position)
    {rounds : List (List Tree)}
    (hrounds : ∀ ts ∈ rounds,
      (Pattern.seq (.term operator) (.phrase operand)).Leaves ts)
    (hlawful : ∀ t ∈ rounds.flatten, t.Lawful) (ih : ∀ t ∈ rounds.flatten, s.Lowers t) :
    ∀ lhs, s.Settles (s.lowerOperands operator position lhs rounds.flatten)
      (Tree.obstaclesOf rounds.flatten) := by
  induction rounds with
  | nil => exact fun lhs => .ok lhs
  | cons round rounds ihr =>
      intro lhs
      obtain ⟨_, _, rfl, ⟨sign, rfl, hsign⟩, right, rfl, hright⟩ := hrounds round (by simp)
      have hnone := (hlawful sign (by simp)).obstacles_word hsign hop
      have hfirst := (ih right (by simp)).expression operand hright hoperand
      have hothers := ihr (fun ts hts => hrounds ts (by simp [hts]))
        (fun t ht => hlawful t (by simp [ht])) (fun t ht => ih t (by simp [ht]))
      simp only [List.flatten_cons, List.cons_append, List.nil_append,
        Tree.obstaclesOf_cons, hnone, lowerOperands, hsign, if_true]
      exact hfirst.bind fun rhs _ => hothers _

/-- One level of binary operators settles the obstacles of its operands. -/
theorem settles_chain {operator : Terminal} {operand : Phrase} (hop : operator ≠ .intLit)
    (hoperand : operand.isExpression = true) (position : Position)
    (hleaves : (Pattern.chain operand operator).Leaves children)
    (hlawful : ∀ t ∈ children, t.Lawful) (ih : ∀ t ∈ children, s.Lowers t) :
    ∃ first others, children = first :: others ∧
      s.Settles
        (s.lowerExpression first >>= fun lhs => s.lowerOperands operator position lhs others)
        (Tree.obstaclesOf children) := by
  obtain ⟨_, _, rfl, ⟨first, rfl, hfirst⟩, rounds, rfl, hrounds⟩ := hleaves
  have hsettles := (ih first (by simp)).expression operand hfirst hoperand
  have hothers := settles_operands hop hoperand position hrounds
    (fun t ht => hlawful t (by simp [ht])) (fun t ht => ih t (by simp [ht]))
  exact ⟨first, rounds.flatten, rfl, hsettles.bind fun lhs _ => hothers lhs⟩

/-- A negation settles the obstacles of its operand. -/
theorem settles_notExpr (hleaves : Phrase.notExpr.body.Leaves children)
    (hlawful : ∀ t ∈ children, t.Lawful) (ih : ∀ t ∈ children, s.Lowers t) :
    s.Settles (s.lowerExpression (.node (.phrase .notExpr) start text children))
      (Tree.obstaclesOf children) := by
  obtain ⟨_, _, rfl, ⟨sign, rfl, hsign⟩, operand, rfl, hoperand⟩ := hleaves
  have hnone := (hlawful sign (by simp)).obstacles_word hsign (by decide)
  have hsettles := (ih operand (by simp)).expression .unaryExpr hoperand rfl
  simp only [List.singleton_append, Tree.obstaclesOf_cons, Tree.obstaclesOf_nil, hnone,
    List.nil_append, List.append_nil, lowerExpression, hsign, if_true, pure_eq_ok]
  exact hsettles.map

/-! ## Expressions kept as their text -/

theorem settles_simpleExpr (hleaves : Phrase.simpleExpr.body.Leaves children)
    (hlawful : ∀ t ∈ children, t.Lawful) (ih : ∀ t ∈ children, s.Lowers t) :
    s.Settles (s.lowerExpression (.node (.phrase .simpleExpr) start text children))
      (Tree.obstaclesOf children) := by
  rcases hleaves with ⟨word, rfl, hword⟩ | ⟨call, rfl, hcall⟩ | ⟨location, rfl, hlocation⟩
  · have hnone := (hlawful word (by simp)).obstacles_word hword (by decide)
    simp only [lowerExpression, hword, Tree.obstaclesOf_cons, Tree.obstaclesOf_nil, hnone,
      pure_eq_ok]
    exact .ok _
  · have hsettles := (ih call (by simp)).call hcall
    simp only [lowerExpression, hcall, Tree.obstaclesOf_cons, Tree.obstaclesOf_nil,
      List.append_nil, pure_eq_ok]
    exact hsettles.map
  · have hsettles := (ih location (by simp)).location hlocation
    simp only [lowerExpression, hlocation, Tree.obstaclesOf_cons, Tree.obstaclesOf_nil,
      List.append_nil, pure_eq_ok]
    exact hsettles.map

/-! ## All expressions -/

/-- A phrase that stands for one expression, in brackets or not. -/
theorem settles_inner {p inner : Phrase} {c : Tree}
    (hp : p = .expr ∨ p = .unaryExpr ∨ p = .primary ∨ p = .parenExpr)
    (hinner : inner.isExpression = true) (hc : c.rule = .phrase inner)
    (ih : s.Lowers c) :
    s.Settles (s.lowerExpression (.node (.phrase p) start text [c])) (Tree.obstaclesOf [c]) := by
  have hsettles := ih.expression inner hc hinner
  rw [Tree.obstaclesOf_cons, Tree.obstaclesOf_nil, List.append_nil]
  rcases hp with rfl | rfl | rfl | rfl <;> exact hsettles

/-- The child of a phrase that stands for one expression. -/
theorem leaves_inner {p : Phrase}
    (hp : p = .expr ∨ p = .unaryExpr ∨ p = .primary ∨ p = .parenExpr)
    (hleaves : p.body.Leaves children) :
    ∃ inner c, children = [c] ∧ c.rule = .phrase inner ∧ inner.isExpression = true := by
  rcases hp with rfl | rfl | rfl | rfl
  · obtain ⟨c, rfl, hc⟩ := hleaves
    exact ⟨_, c, rfl, hc, rfl⟩
  · rcases hleaves with ⟨c, rfl, hc⟩ | ⟨c, rfl, hc⟩ <;> exact ⟨_, c, rfl, hc, rfl⟩
  · rcases hleaves with ⟨c, rfl, hc⟩ | ⟨c, rfl, hc⟩ | ⟨c, rfl, hc⟩ | ⟨c, rfl, hc⟩ | ⟨c, rfl, hc⟩ <;>
      exact ⟨_, c, rfl, hc, rfl⟩
  · obtain ⟨_, _, rfl, rfl, _, _, rfl, ⟨c, rfl, hc⟩, rfl⟩ := hleaves
    exact ⟨_, c, rfl, hc, rfl⟩

/-- An expression of any level settles its obstacles. -/
theorem settles_expression {p : Phrase} (hp : p.isExpression = true)
    (hleaves : p.body.Leaves children) (hlawful : ∀ t ∈ children, t.Lawful)
    (ih : ∀ t ∈ children, s.Lowers t) :
    s.Settles (s.lowerExpression (.node (.phrase p) start text children))
      (Tree.node (.phrase p) start text children).obstacles := by
  have hinner : p = .expr ∨ p = .unaryExpr ∨ p = .primary ∨ p = .parenExpr →
      s.Settles (s.lowerExpression (.node (.phrase p) start text children))
        (Tree.obstaclesOf children) := by
    intro hp
    obtain ⟨inner, c, rfl, hc, hexpr⟩ := leaves_inner hp hleaves
    exact settles_inner hp hexpr hc (ih c (by simp))
  rw [Tree.obstacles_eq]
  cases p with
  | expr => exact hinner (by decide)
  | unaryExpr => exact hinner (by decide)
  | primary => exact hinner (by decide)
  | parenExpr => exact hinner (by decide)
  | notExpr => exact settles_notExpr hleaves hlawful ih
  | simpleExpr => exact settles_simpleExpr hleaves hlawful ih
  | newObject | newArray => rfl
  | literal =>
      have hnode : (Tree.node (.phrase .literal) start text children).Lawful :=
        .node hleaves hlawful trivial
      have hsettles := settles_literal (s := s) rfl hnode
      rwa [Tree.obstacles_eq] at hsettles
  | orExpr | andExpr | eqExpr | relExpr | addExpr | mulExpr =>
      obtain ⟨first, others, rfl, hsettles⟩ :=
        settles_chain (by decide) rfl (s.positionAt start) hleaves hlawful ih
      exact hsettles
  | _ => simp [Phrase.isExpression] at hp

end

end Source

/-- What the lowering of expressions makes of any tree that the grammar gives. -/
theorem Tree.Lawful.lowers {t : Tree} (s : Source) (h : t.Lawful) : s.Lowers t := by
  induction h with
  | @node r start text children hleaves hlawful hspells ih =>
      refine ⟨?_, ?_, ?_, ?_, ?_⟩
      · rintro p ⟨⟩ hp
        exact Source.settles_expression hp hleaves hlawful ih
      · rintro ⟨⟩
        rw [Tree.obstacles_eq]
        exact Source.settles_methodCall hleaves ih
      · rintro ⟨⟩
        exact Source.settles_location hleaves hlawful ih
      · rintro ⟨⟩
        rw [Tree.obstacles_eq]
        exact Source.settles_arguments hleaves ih
      · rintro ⟨⟩
        rw [Tree.obstacles_eq]
        exact Source.settles_index hleaves ih

end DecafFrontEnd
