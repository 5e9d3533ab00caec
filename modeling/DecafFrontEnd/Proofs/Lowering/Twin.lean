/-
  DecafFrontEnd/Proofs/Lowering/Twin.lean --- the obstacles of twin trees.

  Whether a node is an obstacle depends on the rules of its children and, for an integer
  literal, on its text.  Twin trees therefore have twin obstacles in the same order
  (`Tree.Twin.obstacles`).
-/
import DecafFrontEnd.Proofs.Grammar.Twin
import DecafFrontEnd.Proofs.Lowering.Obstacles

set_option autoImplicit false

namespace DecafFrontEnd

variable {b b' : Cursor} {t t' : Tree} {ts ts' : List Tree}

/-! ## Nodes of twin trees -/

namespace Tree

theorem Twin.rule_eq (h : Tree.Twin b b' t t') : t.rule = t'.rule := by
  cases h with
  | node _ _ _ => rfl

/-- Twin trees keep their twins where nodes are chosen by their rules. -/
theorem Twin.filter (h : List.Forall₂ (Tree.Twin b b') ts ts') (p : Rule → Bool) :
    List.Forall₂ (Tree.Twin b b') (ts.filter fun t => p t.rule) (ts'.filter fun t => p t.rule) :=
  List.rel_filter (fun _ _ ht => iff_of_eq (congrArg (p · = true) ht.rule_eq)) h

mutual

theorem Twin.nodes {t t' : Tree} (h : Tree.Twin b b' t t') :
    List.Forall₂ (Tree.Twin b b') t.nodes t'.nodes := by
  cases h with
  | node hlevel htext hchildren =>
      exact .cons (.node hlevel htext hchildren) (Twin.nodesOf hchildren)

theorem Twin.nodesOf {ts ts' : List Tree} (h : List.Forall₂ (Tree.Twin b b') ts ts') :
    List.Forall₂ (Tree.Twin b b') (Tree.nodesOf ts) (Tree.nodesOf ts') := by
  cases h with
  | nil => exact .nil
  | cons hfirst hothers => exact List.rel_append hfirst.nodes (Twin.nodesOf hothers)

end

end Tree

/-! ## Obstacles -/

/-- Obstacles of one construct at level offsets.  Of a literal the text is the same. -/
structure Obstacle.Twin (b b' : Cursor) (o o' : Obstacle) : Prop where
  construct_eq : o.construct = o'.construct
  level : b.Level b' o.start o'.start
  string_eq : o.construct = .bigInteger → o.node.string = o'.node.string

namespace Tree

theorem Twin.obstacle (h : Tree.Twin b b' t t') (c : Construct)
    (hc : c = .bigInteger → t.text = t'.text) : Obstacle.Twin b b' ⟨c, t⟩ ⟨c, t'⟩ := by
  cases h with
  | node hlevel _ _ => exact ⟨rfl, hlevel, fun hbig => congrArg String.ofList (hc hbig)⟩

theorem Twin.ownObstacles (h : Tree.Twin b b' t t') :
    List.Forall₂ (Obstacle.Twin b b') t.ownObstacles t'.ownObstacles := by
  have hself := h.obstacle
  cases h with
  | @node r start start' text text' ts ts' _ htext hchildren =>
      cases r with
      | phrase p =>
          cases p with
          | newObject | newArray => exact .cons (hself _ (by simp)) .nil
          | location =>
              have hselectors : (Tree.node (.phrase .location) start text ts).selectors.length =
                  (Tree.node (.phrase .location) start' text' ts').selectors.length :=
                (Twin.filter hchildren fun r =>
                  r = .phrase .fieldAccess || r = .phrase .indexAccess).length_eq
              rw [ownObstacles_location rfl, ownObstacles_location rfl, hselectors]
              split
              · exact .cons (hself _ (by simp)) .nil
              · exact .nil
          | calloutArg =>
              have hstrings := Twin.filter hchildren fun r => r = .terminal .stringLit
              refine List.rel_map ?_ hstrings
              intro t t' ht
              exact ht.obstacle _ (by simp)
          | _ => exact .nil
      | terminal w =>
          cases w with
          | intLit =>
              obtain rfl : text = text' := htext .intLit rfl
              rw [ownObstacles_intLit rfl, ownObstacles_intLit rfl, Tree.text, Tree.text]
              split
              · exact .cons (hself _ fun _ => rfl) .nil
              · exact .nil
          | _ => exact .nil
      | _ => exact .nil

/-- Twin trees have twin obstacles. -/
theorem Twin.obstacles (h : Tree.Twin b b' t t') :
    List.Forall₂ (Obstacle.Twin b b') t.obstacles t'.obstacles :=
  List.rel_flatMap h.nodes fun _ _ ht => ht.ownObstacles

theorem Twin.obstaclesOf (h : List.Forall₂ (Tree.Twin b b') ts ts') :
    List.Forall₂ (Obstacle.Twin b b') (Tree.obstaclesOf ts) (Tree.obstaclesOf ts') :=
  List.rel_flatMap h fun _ _ ht => ht.obstacles

end Tree

end DecafFrontEnd
