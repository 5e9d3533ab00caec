/-
  DecafFrontEnd/Proofs/Compilation/Obstacle.lean --- which obstacle is reported.

  The lowering stops at the first of a tree's obstacles in the order of its nodes, and
  that is the one that stands first in the text.  So a text that parses compiles exactly
  when it has no obstacles, and its error is otherwise that of the obstacle with the
  smallest offset (`Source.reported_obstacle`).
-/
import DecafFrontEnd.Proofs.Compilation.Malformed
import DecafFrontEnd.Proofs.Lowering.Order

set_option autoImplicit false

namespace DecafFrontEnd

/-! ## Where obstacles stand -/

namespace Tree

/-- An obstacle of a node is the node or one right below it. -/
theorem node_of_mem_ownObstacles {t : Tree} {o : Obstacle} (h : o ∈ t.ownObstacles) :
    o.node = t ∨ o.node ∈ t.children := by
  unfold ownObstacles at h
  split at h
  · obtain rfl := List.mem_singleton.1 h
    exact Or.inl rfl
  · obtain rfl := List.mem_singleton.1 h
    exact Or.inl rfl
  · split at h
    · obtain rfl := List.mem_singleton.1 h
      exact Or.inl rfl
    · simp at h
  · obtain ⟨c, hc, rfl⟩ := List.mem_map.1 h
    exact Or.inr (List.mem_filter.1 hc).1
  · split at h
    · obtain rfl := List.mem_singleton.1 h
      exact Or.inl rfl
    · simp at h
  · simp at h

/-- Obstacles of a tree stand where its nodes do. -/
theorem Placed.obstacles {cs : List Char} {t : Tree} (h : t.Placed cs) :
    ∀ o ∈ t.obstacles, o.node.Placed cs := by
  induction h with
  | @node r start text children _ _ hplace hne hseq hchildren ih =>
      intro o ho
      rw [obstacles_eq, List.mem_append] at ho
      rcases ho with ho | ho
      · rcases node_of_mem_ownObstacles ho with heq | hmem
        · rw [heq]
          exact .node hplace hne hseq hchildren
        · exact hchildren _ hmem
      · obtain ⟨t, ht, ho⟩ := List.mem_flatMap.1 ho
        exact ih t ht o ho

end Tree

namespace Source

variable {s : Source} {t : Tree}

/-- The obstacles of a program are in the order of the text, each at the start of a
character. -/
theorem ascending_obstacles (h : s.parseProgram = .ok t) :
    t.obstacles.Pairwise (·.start < ·.start) ∧ ∀ o ∈ t.obstacles, o.node.Placed s.chars := by
  obtain ⟨start, text, nodes, stop, rfl, -, hlawful, hplaced, ⟨lo, hi, hseq⟩, hstop, hnone⟩ :=
    nodes_of_parseProgram h
  have hascends := hseq.ascends fun t ht => (hlawful t ht).ascends (hplaced t ht)
  rw [Tree.obstacles_of_own_nil rfl, Tree.children, Tree.obstaclesOf_append, Tree.obstaclesOf_cons,
    Tree.obstacles_endOfInput hstop hnone, Tree.obstaclesOf_nil, List.nil_append, List.append_nil]
  refine ⟨hascends.1, ?_⟩
  intro o ho
  obtain ⟨t, ht, ho⟩ := List.mem_flatMap.1 ho
  exact (hplaced t ht).obstacles o ho

/-- The error of an obstacle stands where the obstacle does. -/
theorem position_offset_error {o : Obstacle} (h : o.node.Placed s.chars) :
    (o.error s).position.offset = o.start := by
  have hfloor := h.floorBoundary_start
  unfold Obstacle.error
  cases o.construct <;> exact hfloor

/-! ## The obstacle that is reported -/

/-- A text that parses compiles if nothing in its tree is an obstacle.  Otherwise the
error is that of the one obstacle that starts before all others, and stands at its
start.  No other fault of the front end is ever reported: each is an integer literal
of the tree that is too big. -/
theorem reported_obstacle (s : Source) :
    (∀ t, s.parseProgram = .ok t → t.obstacles = [] → ∃ p, s.compile = .ok p) ∧
    (∀ t, s.parseProgram = .ok t → t.obstacles ≠ [] →
      ∃ o ∈ t.obstacles, (∀ o' ∈ t.obstacles, o' = o ∨ o.start < o'.start) ∧
        s.compile = .error (o.error s) ∧ (o.error s).position.offset = o.start) ∧
    (∀ e, s.compile = .error e → e.isInternal = true →
      ∃ t, s.parseProgram = .ok t ∧ ∃ o ∈ t.obstacles, o.construct = .bigInteger ∧
        e = o.error s ∧ e.cause? = some ⟨.integer, .overflow, o.node.string⟩) := by
  refine ⟨fun t hparse hnone => ?_, fun t hparse hsome => ?_, fun e he hinternal => ?_⟩
  · have hsettles := settles_parseProgram hparse
    rw [hnone] at hsettles
    rw [compile_of_parseProgram hparse]
    exact hsettles
  · have hsettles := settles_parseProgram hparse
    obtain ⟨hordered, hplaced⟩ := ascending_obstacles hparse
    rw [compile_of_parseProgram hparse]
    cases hos : t.obstacles with
    | nil => exact absurd hos hsome
    | cons o os =>
        rw [hos] at hsettles hordered hplaced
        refine ⟨o, by simp, fun o' ho' => ?_, hsettles, position_offset_error (hplaced o (by simp))⟩
        rcases List.mem_cons.1 ho' with heq | hmem
        · exact Or.inl heq
        · exact Or.inr ((List.pairwise_cons.1 hordered).1 o' hmem)
  · cases hparse : s.parseProgram with
    | ok t =>
        rw [compile_of_parseProgram hparse] at he
        obtain ⟨o, ho, rfl⟩ := exists_obstacle_of_lowerProgram_error hparse he
        refine ⟨t, rfl, o, ho, ?_⟩
        unfold Obstacle.error at hinternal ⊢
        cases hconstruct : o.construct with
        | bigInteger => exact ⟨rfl, rfl, rfl⟩
        | _ =>
            rw [hconstruct] at hinternal
            cases hinternal
    | error m =>
        obtain ⟨_, _, -, hcompile⟩ | ⟨-, hcompile⟩ := compile_of_parseProgram_error hparse
        all_goals
          obtain rfl := Except.error.inj (he.symm.trans hcompile)
          cases hinternal

end Source

end DecafFrontEnd
