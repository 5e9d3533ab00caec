/-
  DecafFrontEnd/Proofs/Lowering/Program.lean --- lowering methods, classes and programs.

  The parts of a class settle their obstacles in the order in which they are written,
  and so does the program (`Source.settles_program`): lowering the tree of a text
  succeeds if the tree has no obstacle, and otherwise gives the error of the first.
-/
import DecafFrontEnd.Lowering.Program
import DecafFrontEnd.Proofs.Grammar.Place
import DecafFrontEnd.Proofs.Lowering.Statement

set_option autoImplicit false

namespace DecafFrontEnd

namespace Source

variable {s : Source} {t : Tree}

/-! ## Optional children -/

theorem takeOptional_some {r : Rule} {ts : List Tree} (h : t.rule = r) :
    takeOptional r (t :: ts) = (some t, ts) := by rw [takeOptional, if_pos h]

theorem takeOptional_none {r : Rule} {ts : List Tree} (h : ∀ t ∈ ts, t.rule ≠ r) :
    takeOptional r ts = (none, ts) := by
  cases ts with
  | nil => rfl
  | cons t ts => rw [takeOptional, if_neg (h t (by simp))]

/-! ## Methods -/

theorem settles_returnType (hrule : t.rule = .phrase .returnType) (hlawful : t.Lawful) :
    s.Settles (s.lowerReturnType t) t.obstacles := by
  have hleaves := hlawful.leaves hrule
  have hown := Tree.ownObstacles_phrase hrule (by decide)
  rw [lowerReturnType, expectRule_eq hrule, ok_bind, Tree.obstacles_of_own_nil hown]
  rcases hleaves with ⟨inner, hchildren, hinner⟩ | ⟨inner, hchildren, hinner⟩
  · have hnone := (hlawful.children inner (by simp [hchildren])).obstacles_word hinner (by decide)
    simp only [onlyChild_eq hchildren, ok_bind, hinner, hchildren, Tree.obstaclesOf_cons, hnone,
      Tree.obstaclesOf_nil, pure_eq_ok]
    exact .ok _
  · have htype := settles_type (s := s) hinner (hlawful.children inner (by simp [hchildren]))
    simp only [onlyChild_eq hchildren, ok_bind, hinner, hchildren, Tree.obstaclesOf_cons,
      Tree.obstaclesOf_nil, List.append_nil]
    exact htype

theorem settles_parameter (hrule : t.rule = .phrase .param) (hlawful : t.Lawful) :
    s.Settles (s.lowerParameter t) t.obstacles := by
  have hleaves := hlawful.leaves hrule
  have hinner := hlawful.children
  have hown := Tree.ownObstacles_phrase hrule (by decide)
  obtain ⟨_, _, hchildren, ⟨typeName, rfl, htype⟩, _, marker, rfl, ⟨name, rfl, hname⟩, hmarker⟩ :=
    hleaves
  simp only [List.singleton_append] at hchildren
  rw [hchildren] at hinner
  have hnone := leaves_marked hmarker fun c hc => hinner c (by simp [hc])
  have hnameNone := (hinner name (by simp)).obstacles_word hname (by decide)
  have hsettles := settles_type (s := s) htype (hinner typeName (by simp))
  rw [lowerParameter, expectRule_eq hrule, ok_bind, Tree.obstacles_of_own_nil hown, hchildren]
  simp only [takeChild_eq htype, takeChild_eq hname, ok_bind, pure_eq_ok, Tree.obstaclesOf_cons,
    hnameNone, hnone, List.append_nil]
  exact hsettles.map

/-- A method settles the obstacles of its body. -/
theorem settles_method (hrule : t.rule = .phrase .methodDecl) (hlawful : t.Lawful) :
    s.Settles (s.lowerMethod t) t.obstacles := by
  have hleaves := hlawful.leaves hrule
  have hinner := hlawful.children
  have hown := Tree.ownObstacles_phrase hrule (by decide)
  obtain ⟨_, _, hchildren, ⟨result, rfl, hresult⟩, _, _, rfl, ⟨name, rfl, hname⟩, _, _, rfl, rfl,
    list, _, rfl, hlist, _, _, rfl, rfl, block, rfl, hblock⟩ := hleaves
  simp only [List.singleton_append, List.nil_append] at hchildren
  rw [hchildren] at hinner
  have hnone := (hinner name (by simp)).obstacles_word hname (by decide)
  have hreturn := settles_returnType (s := s) hresult (hinner result (by simp))
  have hbody := ((hinner block (by simp)).lowersBlocks s).block hblock
  rw [lowerMethod, expectRule_eq hrule, ok_bind, Tree.obstacles_of_own_nil hown, hchildren]
  simp only [takeChild_eq hresult, ok_bind, Tree.obstaclesOf_cons, hnone, List.nil_append]
  apply hreturn.bind
  intro _ _
  rcases hlist with ⟨parameters, rfl, hparameters⟩ | rfl
  · have hlawful' := hinner parameters (by simp)
    have hrules : ∀ c ∈ parameters.children, c.rule = .phrase .param := by
      have hleaves := hlawful'.leaves hparameters
      exact Pattern.rule_of_leaves_commaList hleaves
    have hmap : s.Settles (parameters.children.mapM s.lowerParameter) parameters.obstacles := by
      rw [Tree.obstacles_of_own_nil (Tree.ownObstacles_phrase hparameters (by decide))]
      exact .mapM fun c hc => settles_parameter (hrules c hc) (hlawful'.children c hc)
    simp only [takeChild_eq hname, ok_bind, List.singleton_append, takeOptional_some hparameters,
      Tree.obstaclesOf_cons, Tree.obstaclesOf_nil, List.append_nil, pure_eq_ok]
    apply hmap.bind
    intro _ _
    simp only [takeChild_eq hblock, ok_bind]
    exact hbody.map
  · have hnoList : takeOptional (.phrase .paramList) [block] = (none, [block]) :=
      takeOptional_none (by simp [hblock])
    simp only [takeChild_eq hname, ok_bind, List.nil_append, hnoList, takeChild_eq hblock,
      pure_eq_ok, Tree.obstaclesOf_cons, Tree.obstaclesOf_nil, List.append_nil]
    exact hbody.map

/-! ## Classes -/

/-- The members of a class are lowered one after the other. -/
theorem settles_members {ts : List Tree}
    (hrules : ∀ t ∈ ts, t.rule = .phrase .varDecl ∨ t.rule = .phrase .methodDecl)
    (hlawful : ∀ t ∈ ts, t.Lawful) :
    s.Settles (s.lowerMembers ts) (Tree.obstaclesOf ts) := by
  induction ts with
  | nil => exact .ok _
  | cons t ts ih =>
      have hmember := hlawful t (by simp)
      have hothers := ih (fun t ht => hrules t (by simp [ht]))
        (fun t ht => hlawful t (by simp [ht]))
      rw [Tree.obstaclesOf_cons]
      rcases hrules t (by simp) with hrule | hrule
      · simp only [lowerMembers, hrule, pure_eq_ok]
        exact (settles_varDecl hrule hmember).bind fun _ _ => hothers.map
      · simp only [lowerMembers, hrule, pure_eq_ok]
        exact (settles_method hrule hmember).bind fun _ _ => hothers.map

theorem settles_superclass (hrule : t.rule = .phrase .superclass) (hlawful : t.Lawful) :
    s.Settles (s.lowerSuperclass t) t.obstacles := by
  have hleaves := hlawful.leaves hrule
  obtain ⟨_, _, hchildren, ⟨word, rfl, hword⟩, name, rfl, hname⟩ := hleaves
  rw [List.singleton_append] at hchildren
  have hnone : t.obstacles = [] := by
    apply hlawful.obstacles_words hrule (by decide)
    rw [hchildren]
    simp [hword, hname]
  rw [hnone, lowerSuperclass, hchildren]
  simp only [takeChild_eq hword, takeChild_eq hname, ok_bind, pure_eq_ok]
  exact .ok _

/-- A class settles the obstacles of its members. -/
theorem settles_class (hrule : t.rule = .phrase .classDecl) (hlawful : t.Lawful) :
    s.Settles (s.lowerClass t) t.obstacles := by
  have hleaves := hlawful.leaves hrule
  have hinner := hlawful.children
  have hown := Tree.ownObstacles_phrase hrule (by decide)
  obtain ⟨_, _, hchildren, ⟨word, rfl, hword⟩, _, _, rfl, ⟨name, rfl, hname⟩, parent, _, rfl,
    hparent, _, _, rfl, rfl, fields, _, rfl, hfields, methods, _, rfl, hmethods, rfl⟩ := hleaves
  simp only [List.singleton_append, List.nil_append, List.append_nil] at hchildren
  rw [hchildren] at hinner
  have hwordNone := (hinner word (by simp)).obstacles_word hword (by decide)
  have hnameNone := (hinner name (by simp)).obstacles_word hname (by decide)
  have hrules : ∀ c ∈ fields ++ methods,
      c.rule = .phrase .varDecl ∨ c.rule = .phrase .methodDecl := by
    intro c hc
    rcases List.mem_append.1 hc with hc | hc
    · exact Or.inl (Pattern.rule_of_leaves_many hfields c hc)
    · exact Or.inr (Pattern.rule_of_leaves_many hmethods c hc)
  have hmembers : s.Settles (s.lowerMembers (fields ++ methods))
      (Tree.obstaclesOf (fields ++ methods)) := by
    refine settles_members hrules fun c hc => hinner c ?_
    exact List.mem_cons_of_mem _ (List.mem_cons_of_mem _ (List.mem_append_right _ hc))
  generalize fields ++ methods = members at *
  rw [lowerClass, expectRule_eq hrule, ok_bind, Tree.obstacles_of_own_nil hown, hchildren]
  simp only [takeChild_eq hword, takeChild_eq hname, ok_bind, Tree.obstaclesOf_cons, hwordNone,
    hnameNone, List.nil_append]
  rcases hparent with ⟨parent, rfl, hparent⟩ | rfl
  · have hsuper := settles_superclass (s := s) hparent (hinner parent (by simp))
    simp only [List.singleton_append, takeOptional_some hparent, Tree.obstaclesOf_cons, pure_eq_ok]
    have hoption : s.Settles ((some parent).mapM s.lowerSuperclass) parent.obstacles := by
      rw [Option.mapM_some, map_eq_pure_bind]
      exact hsuper.map
    exact hoption.bind fun _ _ => hmembers.map
  · have hnoParent : takeOptional (.phrase .superclass) members = (none, members) := by
      apply takeOptional_none
      intro c hc
      rcases hrules c hc with hrule | hrule <;> simp [hrule]
    simp only [List.nil_append, hnoParent, pure_eq_ok]
    exact hmembers.map

/-! ## Programs -/

theorem settles_program {start : Nat} {text : List Char} {nodes : List Tree} {stop : Tree}
    (hleaves : classes.Leaves nodes) (hlawful : ∀ t ∈ nodes, t.Lawful)
    (hstop : stop.rule = .endOfInput) (hnone : stop.children = []) :
    s.Settles (s.lowerProgram (.node (.phrase .program) start text (nodes ++ [stop])))
      (Tree.node (.phrase .program) start text (nodes ++ [stop])).obstacles := by
  obtain ⟨_, others, rfl, ⟨first, rfl, hfirst⟩, hothers⟩ := hleaves
  rw [List.singleton_append] at *
  have hrules : ∀ t ∈ first :: others, t.rule = .phrase .classDecl := by
    intro t ht
    rcases List.mem_cons.1 ht with rfl | ht
    · exact hfirst
    · exact Pattern.rule_of_leaves_many hothers t ht
  have hnodes : classNodes (.node (.phrase .program) start text (first :: others ++ [stop])) =
      first :: others := by
    rw [classNodes, Tree.children, List.filter_append, List.filter_eq_self.2]
    · simp [hstop]
    · intro t ht
      simp [hrules t ht]
  have hend := Tree.obstacles_endOfInput hstop hnone
  have hclass := settles_class (s := s) hfirst (hlawful first (by simp))
  have hmore : s.Settles (others.mapM s.lowerClass) (Tree.obstaclesOf others) :=
    .mapM fun t ht => settles_class (hrules t (by simp [ht])) (hlawful t (by simp [ht]))
  rw [Tree.obstacles_of_own_nil rfl, Tree.children, Tree.obstaclesOf_append,
    Tree.obstaclesOf_cons, Tree.obstaclesOf_cons, hend, Tree.obstaclesOf_nil, List.append_nil,
    List.append_nil, lowerProgram, expectRule_node, ok_bind, hnodes, List.mapM_cons, bind_assoc]
  apply hclass.bind
  intro _ _
  rw [bind_assoc]
  exact hmore.map

/-- The obstacles of the tree of a text are those of its classes. -/
theorem obstacles_of_parseProgram (h : s.parseProgram = .ok t) :
    t.obstacles = Tree.obstaclesOf t.children := by
  obtain ⟨_, _, _, _, rfl, -⟩ := nodes_of_parseProgram h
  exact Tree.obstacles_of_own_nil rfl

/-- Lowering the tree of a text settles its obstacles. -/
theorem settles_parseProgram (h : s.parseProgram = .ok t) :
    s.Settles (s.lowerProgram t) t.obstacles := by
  obtain ⟨start, text, nodes, stop, rfl, hleaves, hlawful, -, -, hstop, hnone⟩ :=
    nodes_of_parseProgram h
  exact settles_program hleaves hlawful hstop hnone

end Source

end DecafFrontEnd
