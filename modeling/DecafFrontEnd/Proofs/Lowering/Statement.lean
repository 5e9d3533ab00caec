/-
  DecafFrontEnd/Proofs/Lowering/Statement.lean --- lowering calls, variables and blocks.

  Types and declarations have no obstacles and are always lowered.  Statements and
  blocks settle the obstacles of the expressions in them, in the order in which they
  are written (`Tree.Lawful.lowersBlocks`).
-/
import DecafFrontEnd.Lowering.Statement
import DecafFrontEnd.Proofs.Lowering.Expression

set_option autoImplicit false

namespace DecafFrontEnd

/-- The nodes of a repeated rule are all of that rule. -/
theorem Pattern.rule_of_leaves_many {r : Rule} {ts : List Tree}
    (h : (many (rule r)).Leaves ts) : ∀ t ∈ ts, t.rule = r := by
  obtain ⟨rounds, rfl, hrounds⟩ := h
  intro t ht
  obtain ⟨round, hround, ht⟩ := List.mem_flatten.1 ht
  obtain ⟨node, rfl, hnode⟩ := hrounds round hround
  rw [List.mem_singleton.1 ht, hnode]

namespace Source

variable {s : Source} {t : Tree}

/-! ## Callouts -/

/-- A string is an obstacle where it stands as an argument of a callout. -/
theorem settles_calloutArgument (hrule : t.rule = .phrase .calloutArg) (hlawful : t.Lawful) :
    s.Settles (s.lowerCalloutArgument t) t.obstacles := by
  have hleaves := hlawful.leaves hrule
  rw [lowerCalloutArgument, expectRule_eq hrule, ok_bind]
  rcases hleaves with ⟨value, hchildren, hvalue⟩ | ⟨value, hchildren, hvalue⟩
  · have hown : t.ownObstacles = [⟨.stringArgument, value⟩] := by
      simp [Tree.ownObstacles, hrule, hchildren, hvalue]
    simp only [onlyChild_eq hchildren, ok_bind, hvalue, Tree.obstacles_eq, hown]
    rfl
  · have hown : t.ownObstacles = [] := by
      simp [Tree.ownObstacles, hrule, hchildren, hvalue]
    have hsettles := ((hlawful.children value (by simp [hchildren])).lowers s).expression
      .expr hvalue rfl
    simp only [onlyChild_eq hchildren, ok_bind, hvalue]
    rw [Tree.obstacles_of_own_nil hown, hchildren, Tree.obstaclesOf_cons, Tree.obstaclesOf_nil,
      List.append_nil]
    exact hsettles

theorem settles_callout (hrule : t.rule = .phrase .primCallout) (hlawful : t.Lawful) :
    s.Settles (s.lowerCallout t) t.obstacles := by
  have hleaves := hlawful.leaves hrule
  have hinner := hlawful.children
  have hown := Tree.ownObstacles_phrase hrule (by decide)
  obtain ⟨_, _, hchildren, ⟨word, rfl, hword⟩, _, _, rfl, rfl, _, _, rfl, ⟨name, rfl, hname⟩,
    arguments, _, rfl, ⟨rounds, rfl, hrounds⟩, rfl⟩ := hleaves
  have harguments : ∀ a ∈ rounds.flatten, a.rule = .phrase .calloutArg := by
    intro a ha
    obtain ⟨round, hround, ha⟩ := List.mem_flatten.1 ha
    obtain ⟨_, _, rfl, rfl, argument, rfl, hargument⟩ := hrounds round hround
    rw [List.nil_append] at ha
    rw [List.mem_singleton.1 ha, hargument]
  generalize rounds.flatten = arguments at hchildren harguments
  simp only [List.nil_append, List.append_nil, List.singleton_append] at hchildren
  rw [hchildren] at hinner
  have hwordNone := (hinner word (by simp)).obstacles_word hword (by decide)
  have hnameNone := (hinner name (by simp)).obstacles_word hname (by decide)
  have hspells := (hinner name (by simp)).spells hname
  obtain ⟨inside, hinside⟩ := stripQuotes_of_spells hspells
  rw [Tree.obstacles_of_own_nil hown, hchildren, Tree.obstaclesOf_cons, Tree.obstaclesOf_cons,
    hwordNone, hnameNone, List.nil_append, List.nil_append, lowerCallout, expectRule_eq hrule,
    ok_bind, hchildren]
  simp only [takeChild_eq hword, takeChild_eq hname, ok_bind, hinside, pure_eq_ok]
  have hmap : s.Settles (arguments.mapM s.lowerCalloutArgument) (Tree.obstaclesOf arguments) :=
    .mapM fun a ha => settles_calloutArgument (harguments a ha) (hinner a (by simp [ha]))
  exact hmap.map

/-- A call that stands as a statement settles its obstacles. -/
theorem settles_call (hrule : t.rule = .phrase .callExpr) (hlawful : t.Lawful) :
    s.Settles (s.lowerCall t) t.obstacles := by
  have hleaves := hlawful.leaves hrule
  have hown := Tree.ownObstacles_phrase hrule (by decide)
  rw [lowerCall, expectRule_eq hrule, ok_bind, Tree.obstacles_of_own_nil hown]
  rcases hleaves with ⟨call, hchildren, hcall⟩ | ⟨call, hchildren, hcall⟩
  · have hlower := hlawful.children call (by simp [hchildren])
    simp only [onlyChild_eq hchildren, ok_bind, hcall, hchildren, Tree.obstaclesOf_cons,
      Tree.obstaclesOf_nil, List.append_nil]
    exact (hlower.lowers s).call hcall
  · have hlower := hlawful.children call (by simp [hchildren])
    simp only [onlyChild_eq hchildren, ok_bind, hcall, hchildren, Tree.obstaclesOf_cons,
      Tree.obstaclesOf_nil, List.append_nil]
    exact settles_callout hcall hlower

/-! ## Types and variables -/

/-- Every type is lowered. -/
theorem settles_type (hrule : t.rule = .phrase .typeName) (hlawful : t.Lawful) :
    s.Settles (s.lowerType t) t.obstacles := by
  have hleaves := hlawful.leaves hrule
  have hword : ∃ word w, t.children = [word] ∧ word.rule = .terminal w ∧
      (w = .keyword .intKw ∨ w = .keyword .booleanKw ∨ w = .ident) := by
    rcases hleaves with ⟨word, hword, hw⟩ | ⟨word, hword, hw⟩ | ⟨word, hword, hw⟩
    · exact ⟨word, _, hword, hw, by simp⟩
    · exact ⟨word, _, hword, hw, by simp⟩
    · exact ⟨word, _, hword, hw, by simp⟩
  obtain ⟨word, w, hchildren, hw, hcases⟩ := hword
  have hnone : t.obstacles = [] := by
    apply hlawful.obstacles_words hrule (by decide)
    rw [hchildren]
    intro c hc
    rw [List.mem_singleton.1 hc]
    refine ⟨w, hw, ?_⟩
    rcases hcases with rfl | rfl | rfl <;> decide
  rw [hnone, lowerType, expectRule_eq hrule, ok_bind, onlyChild_eq hchildren, ok_bind]
  rcases hcases with rfl | rfl | rfl <;>
  · simp only [hw, pure_eq_ok]
    exact .ok _

/-- A name with or without the mark of an array. -/
theorem leaves_marked {ts : List Tree}
    (h : (Pattern.opt (.phrase .arrayMarker)).Leaves ts) (hlawful : ∀ t ∈ ts, t.Lawful) :
    Tree.obstaclesOf ts = [] := by
  rcases h with ⟨marker, rfl, hmarker⟩ | rfl
  · have hlawfulMarker := hlawful marker (by simp)
    have hnone : marker.obstacles = [] := by
      apply hlawfulMarker.obstacles_words hmarker (by decide)
      have hleaves := hlawfulMarker.leaves hmarker
      obtain ⟨_, _, hchildren, rfl, rfl⟩ := hleaves
      simp [hchildren]
    rw [Tree.obstaclesOf_cons, hnone]
    rfl
  · rfl

/-- Every declared name is lowered. -/
theorem settles_varBind (hrule : t.rule = .phrase .varBind) (hlawful : t.Lawful) :
    s.Settles (s.lowerVarBind t) t.obstacles := by
  have hleaves := hlawful.leaves hrule
  have hinner := hlawful.children
  obtain ⟨_, marker, hchildren, ⟨name, rfl, hname⟩, hmarker⟩ := hleaves
  rw [List.singleton_append] at hchildren
  rw [hchildren] at hinner
  have hnone := leaves_marked hmarker fun c hc => hinner c (by simp [hc])
  rw [Tree.obstacles_of_own_nil (Tree.ownObstacles_phrase hrule (by decide)), hchildren,
    Tree.obstaclesOf_cons, hnone, (hinner name (by simp)).obstacles_word hname (by decide),
    lowerVarBind, expectRule_eq hrule, ok_bind, hchildren]
  simp only [takeChild_eq hname, ok_bind, pure_eq_ok]
  exact .ok _

/-- Every declaration is lowered. -/
theorem settles_varDecl (hrule : t.rule = .phrase .varDecl) (hlawful : t.Lawful) :
    s.Settles (s.lowerVarDecl t) t.obstacles := by
  have hleaves := hlawful.leaves hrule
  have hinner := hlawful.children
  obtain ⟨_, _, hchildren, ⟨typeName, rfl, htype⟩, _, _, rfl, ⟨binds, rfl, hbinds⟩, rfl⟩ := hleaves
  simp only [List.append_nil, List.singleton_append] at hchildren
  rw [hchildren] at hinner
  have hlist := hinner binds (by simp)
  have hrules : ∀ c ∈ binds.children, c.rule = .phrase .varBind := by
    have hleaves := hlist.leaves hbinds
    exact Pattern.rule_of_leaves_commaList hleaves
  have hmap : s.Settles (binds.children.mapM s.lowerVarBind) (Tree.obstaclesOf binds.children) :=
    .mapM fun c hc => settles_varBind (hrules c hc) (hlist.children c hc)
  rw [Tree.obstacles_of_own_nil (Tree.ownObstacles_phrase hrule (by decide)), hchildren,
    Tree.obstaclesOf_cons, Tree.obstaclesOf_cons, Tree.obstaclesOf_nil, List.append_nil,
    Tree.obstacles_of_own_nil (Tree.ownObstacles_phrase hbinds (by decide)), lowerVarDecl,
    expectRule_eq hrule, ok_bind, hchildren]
  simp only [takeChild_eq htype, takeChild_eq hbinds, ok_bind, pure_eq_ok]
  exact (settles_type htype (hinner typeName (by simp))).bind fun _ _ => hmap.map

/-! ## Statements without blocks -/

/-- An expression that the grammar gives settles its obstacles. -/
theorem settles_expr (hrule : t.rule = .phrase .expr) (hlawful : t.Lawful) :
    s.Settles (s.lowerExpression t) t.obstacles :=
  (hlawful.lowers s).expression .expr hrule rfl

section

variable {site : Site} {children : List Tree}

theorem settles_assignment (hleaves : Phrase.assignStmt.body.Leaves children)
    (hlawful : ∀ t ∈ children, t.Lawful) :
    s.Settles (s.lowerAssignment site children) (Tree.obstaclesOf children) := by
  obtain ⟨_, _, rfl, ⟨place, rfl, hplace⟩, _, _, rfl, rfl, _, _, rfl, ⟨value, rfl, hvalue⟩,
    rfl⟩ := hleaves
  have hfirst := ((hlawful place (by simp)).lowers s).location hplace
  have hsecond := settles_expr (s := s) hvalue (hlawful value (by simp))
  simp only [List.nil_append, List.append_nil, List.singleton_append, Tree.obstaclesOf_cons,
    Tree.obstaclesOf_nil, lowerAssignment, takeChild_eq hplace, ok_bind, pure_eq_ok]
  apply hfirst.bind
  intro _ _
  simp only [takeChild_eq hvalue, ok_bind]
  exact hsecond.map

theorem settles_expressionStatement (hleaves : Phrase.expressionStmt.body.Leaves children)
    (hlawful : ∀ t ∈ children, t.Lawful) :
    s.Settles (s.lowerExpressionStatement site children) (Tree.obstaclesOf children) := by
  obtain ⟨_, _, rfl, ⟨call, rfl, hcall⟩, rfl⟩ := hleaves
  have hsettles := settles_call (s := s) hcall (hlawful call (by simp))
  simp only [List.append_nil, Tree.obstaclesOf_cons, Tree.obstaclesOf_nil,
    lowerExpressionStatement, takeChild_eq hcall, ok_bind, pure_eq_ok]
  exact hsettles.map

theorem settles_return (hleaves : Phrase.returnStmt.body.Leaves children)
    (hlawful : ∀ t ∈ children, t.Lawful) :
    s.Settles (s.lowerReturn site children) (Tree.obstaclesOf children) := by
  obtain ⟨_, _, rfl, ⟨word, rfl, hword⟩, _, _, rfl, hvalue, rfl⟩ := hleaves
  have hnone := (hlawful word (by simp)).obstacles_word hword (by decide)
  rcases hvalue with ⟨value, rfl, hvalue⟩ | rfl
  · have hsettles := settles_expr (s := s) hvalue (hlawful value (by simp))
    simp only [List.append_nil, List.singleton_append, Tree.obstaclesOf_cons, hnone,
      List.nil_append, Tree.obstaclesOf_nil, lowerReturn, takeChild_eq hword, ok_bind, hvalue,
      if_true, pure_eq_ok]
    exact hsettles.map
  · simp only [List.append_nil, Tree.obstaclesOf_cons, hnone, Tree.obstaclesOf_nil, lowerReturn,
      takeChild_eq hword, ok_bind, pure_eq_ok]
    exact .ok _

end

/-! ## Blocks -/

/-- What the lowering of blocks and statements makes of a node, whatever its
rule. -/
structure LowersBlocks (s : Source) (t : Tree) : Prop where
  block : t.rule = .phrase .block → s.Settles (s.lowerBlock t) t.obstacles
  statement : t.rule = .phrase .statement → s.Settles (s.lowerStatement t) t.obstacles
  conditional : t.rule = .phrase .ifStmt →
    ∀ site, s.Settles (s.lowerIf site t.children) t.obstacles
  otherwise : t.rule = .phrase .elseBranch →
    ∀ site, s.Settles (s.lowerElse site t.children) t.obstacles
  loop : t.rule = .phrase .whileStmt →
    ∀ site, s.Settles (s.lowerWhile site t.children) t.obstacles

section

variable {site : Site} {start : Nat} {text : List Char} {children : List Tree}

/-- The statements of a block are lowered one after the other. -/
theorem settles_statements (hrules : ∀ t ∈ children, t.rule = .phrase .statement)
    (ih : ∀ t ∈ children, s.LowersBlocks t) (started : Bool) :
    s.Settles (s.lowerBlockItems started children) (Tree.obstaclesOf children) := by
  induction children generalizing started with
  | nil => exact .ok _
  | cons t ts ihts =>
      have hrule := hrules t (by simp)
      have hfirst := (ih t (by simp)).statement hrule
      have hothers := ihts (fun t ht => hrules t (by simp [ht])) (fun t ht => ih t (by simp [ht]))
        true
      simp only [lowerBlockItems, hrule, if_true, pure_eq_ok, Tree.obstaclesOf_cons]
      exact hfirst.bind fun _ _ => hothers.map

/-- Declarations before the first statement are lowered before it. -/
theorem settles_declarations {declarations statements : List Tree}
    (hrules : ∀ t ∈ declarations, t.rule = .phrase .varDecl)
    (hlawful : ∀ t ∈ declarations, t.Lawful)
    (hrest : s.Settles (s.lowerBlockItems false statements) (Tree.obstaclesOf statements)) :
    s.Settles (s.lowerBlockItems false (declarations ++ statements))
      (Tree.obstaclesOf (declarations ++ statements)) := by
  induction declarations with
  | nil => exact hrest
  | cons t ts ihts =>
      have hrule := hrules t (by simp)
      have hfirst := settles_varDecl (s := s) hrule (hlawful t (by simp))
      have hothers := ihts (fun t ht => hrules t (by simp [ht]))
        (fun t ht => hlawful t (by simp [ht]))
      simp only [List.cons_append, lowerBlockItems, hrule, and_self, if_true, pure_eq_ok,
        Tree.obstaclesOf_cons]
      exact hfirst.bind fun _ _ => hothers.map

theorem settles_block (hleaves : Phrase.block.body.Leaves children)
    (hlawful : ∀ t ∈ children, t.Lawful) (ih : ∀ t ∈ children, s.LowersBlocks t) :
    s.Settles (s.lowerBlock (.node (.phrase .block) start text children))
      (Tree.obstaclesOf children) := by
  obtain ⟨_, _, rfl, rfl, declarations, _, rfl, hdeclarations, statements, _, rfl, hstatements,
    rfl⟩ := hleaves
  rw [List.nil_append, List.append_nil] at *
  have hrest := settles_statements (s := s) (Pattern.rule_of_leaves_many hstatements)
    (fun t ht => ih t (by simp [ht])) false
  have hall := settles_declarations (Pattern.rule_of_leaves_many hdeclarations)
    (fun t ht => hlawful t (by simp [ht])) hrest
  rw [lowerBlock, expectRule_node, ok_bind]
  exact hall.map

theorem settles_conditional (hleaves : Phrase.ifStmt.body.Leaves children)
    (hlawful : ∀ t ∈ children, t.Lawful) (ih : ∀ t ∈ children, s.LowersBlocks t) :
    s.Settles (s.lowerIf site children) (Tree.obstaclesOf children) := by
  obtain ⟨_, _, rfl, ⟨word, rfl, hword⟩, _, _, rfl, rfl, _, _, rfl, ⟨test, rfl, htest⟩, _, _, rfl,
    rfl, _, _, rfl, ⟨block, rfl, hblock⟩, helse⟩ := hleaves
  have hnone := (hlawful word (by simp)).obstacles_word hword (by decide)
  have hcondition := settles_expr (s := s) htest (hlawful test (by simp))
  have hthen := (ih block (by simp)).block hblock
  rcases helse with ⟨branch, rfl, hbranch⟩ | rfl
  · have hotherwise := (ih branch (by simp)).otherwise hbranch
    obtain ⟨_, start', text', inner⟩ := branch
    obtain rfl := hbranch
    simp only [List.nil_append, List.singleton_append, Tree.obstaclesOf_cons, hnone,
      Tree.obstaclesOf_nil, List.append_nil, lowerIf, expectChild_eq hword, ok_bind,
      expectChild_eq htest, expectChild_eq hblock, pure_eq_ok]
    exact hcondition.bind fun _ _ => hthen.bind fun _ _ => (hotherwise _).map
  · simp only [List.nil_append, List.singleton_append, Tree.obstaclesOf_cons, hnone,
      Tree.obstaclesOf_nil, List.append_nil, lowerIf, expectChild_eq hword, ok_bind,
      expectChild_eq htest, expectChild_eq hblock, pure_eq_ok]
    exact hcondition.bind fun _ _ => hthen.map

theorem settles_otherwise (hleaves : Phrase.elseBranch.body.Leaves children)
    (hlawful : ∀ t ∈ children, t.Lawful) (ih : ∀ t ∈ children, s.LowersBlocks t) :
    s.Settles (s.lowerElse site children) (Tree.obstaclesOf children) := by
  obtain ⟨_, _, rfl, ⟨word, rfl, hword⟩, block, rfl, hblock⟩ := hleaves
  have hnone := (hlawful word (by simp)).obstacles_word hword (by decide)
  have hthen := (ih block (by simp)).block hblock
  simp only [List.singleton_append, Tree.obstaclesOf_cons, hnone, Tree.obstaclesOf_nil,
    List.nil_append, List.append_nil, lowerElse, expectChild_eq hword, ok_bind,
    expectChild_eq hblock]
  exact hthen

theorem settles_loop (hleaves : Phrase.whileStmt.body.Leaves children)
    (hlawful : ∀ t ∈ children, t.Lawful) (ih : ∀ t ∈ children, s.LowersBlocks t) :
    s.Settles (s.lowerWhile site children) (Tree.obstaclesOf children) := by
  obtain ⟨_, _, rfl, ⟨word, rfl, hword⟩, _, _, rfl, rfl, _, _, rfl, ⟨test, rfl, htest⟩, _, _, rfl,
    rfl, block, rfl, hblock⟩ := hleaves
  have hnone := (hlawful word (by simp)).obstacles_word hword (by decide)
  have hcondition := settles_expr (s := s) htest (hlawful test (by simp))
  have hbody := (ih block (by simp)).block hblock
  simp only [List.nil_append, List.singleton_append, Tree.obstaclesOf_cons, hnone,
    Tree.obstaclesOf_nil, List.append_nil, lowerWhile, expectChild_eq hword, ok_bind,
    expectChild_eq htest, expectChild_eq hblock, pure_eq_ok]
  exact hcondition.bind fun _ _ => hbody.map

/-- A statement settles the obstacles of whatever statement it is. -/
theorem settles_statement (hleaves : Phrase.statement.body.Leaves children)
    (hlawful : ∀ t ∈ children, t.Lawful) (ih : ∀ t ∈ children, s.LowersBlocks t) :
    s.Settles (s.lowerStatement (.node (.phrase .statement) start text children))
      (Tree.obstaclesOf children) := by
  rcases hleaves with ⟨inner, rfl, hrule⟩ | ⟨inner, rfl, hrule⟩ | ⟨inner, rfl, hrule⟩ |
    ⟨inner, rfl, hrule⟩ | ⟨inner, rfl, hrule⟩
  all_goals
    have hinner := hlawful inner (by simp)
    have hleaves := hinner.leaves hrule
    have hbelow := hinner.children
    have hblocks := ih inner (by simp)
    have hown := Tree.ownObstacles_phrase hrule (by decide)
    rw [Tree.obstaclesOf_cons, Tree.obstaclesOf_nil, List.append_nil]
    obtain ⟨_, start', text', below⟩ := inner
    obtain rfl := hrule
    simp only [lowerStatement, expectRule_node, ok_bind]
  · rw [Tree.obstacles_of_own_nil hown]
    exact settles_assignment hleaves hbelow
  · rw [Tree.obstacles_of_own_nil hown]
    exact settles_expressionStatement hleaves hbelow
  · exact hblocks.conditional rfl _
  · exact hblocks.loop rfl _
  · rw [Tree.obstacles_of_own_nil hown]
    exact settles_return hleaves hbelow

end

end Source

/-- What the lowering of blocks makes of any tree that the grammar gives. -/
theorem Tree.Lawful.lowersBlocks {t : Tree} (s : Source) (h : t.Lawful) : s.LowersBlocks t := by
  induction h with
  | @node r start text children hleaves hlawful hspells ih =>
      refine ⟨?_, ?_, ?_, ?_, ?_⟩
      all_goals
        rintro ⟨⟩
        rw [Tree.obstacles_of_own_nil rfl]
      · exact Source.settles_block hleaves hlawful ih
      · exact Source.settles_statement hleaves hlawful ih
      · exact fun site => Source.settles_conditional hleaves hlawful ih
      · exact fun site => Source.settles_otherwise hleaves hlawful ih
      · exact fun site => Source.settles_loop hleaves hlawful ih

end DecafFrontEnd
