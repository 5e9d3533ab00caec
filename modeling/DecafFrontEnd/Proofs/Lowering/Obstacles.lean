/-
  DecafFrontEnd/Proofs/Lowering/Obstacles.lean --- what keeps a tree from being lowered.

  Five things that the grammar admits cannot be lowered: objects and arrays made with
  `new`, locations with more than one selector, strings as arguments of callouts, and
  integer literals that do not fit in 32 bits.  `Tree.obstacles` lists those of a parse
  tree in the order of its nodes, each before the nodes within it.

  `Source.Settles s x os` says what the list `os` decides about a step `x` of the
  lowering: without obstacles it succeeds, and otherwise its error is that of the first
  of them.  Steps in sequence settle the lists of both (`Source.Settles.bind`).
-/
import DecafFrontEnd.Lowering.Program
import DecafFrontEnd.Proofs.Sequence

set_option autoImplicit false

namespace DecafFrontEnd

/-! ## Obstacles -/

/-- The sorts of things that cannot be lowered. -/
inductive Construct where
  | newObject
  | newArray
  /-- a location with more than one selector -/
  | deepLocation
  /-- a string as an argument of a callout -/
  | stringArgument
  /-- an integer literal above the greatest value -/
  | bigInteger
  deriving DecidableEq, Repr

/-- A node that cannot be lowered. -/
structure Obstacle where
  construct : Construct
  node : Tree

/-- The byte offset at which an obstacle starts. -/
def Obstacle.start (o : Obstacle) : Nat := o.node.start

/-- The error for an obstacle. -/
def Obstacle.error (s : Source) (o : Obstacle) : CompileError :=
  match o.construct with
  | .newObject => s.unsupported "new object expression" o.node.span
  | .newArray => s.unsupported "new array expression" o.node.span
  | .deepLocation => s.unsupported "multi-level field access" (s.contentSpan o.node.span)
  | .stringArgument => s.unsupported "string literal callout argument" o.node.span
  | .bigInteger =>
      s.defect (.literal ⟨.integer, .overflow, o.node.string⟩) o.node.span

/-- The value of decimal digits. -/
def decimalValue (digits : List Char) : Nat :=
  digits.foldl (fun value c => value * 10 + (c.toNat - '0'.toNat)) 0

namespace Tree

mutual

/-- All nodes of a tree, each before those within it. -/
def nodes : Tree → List Tree
  | node r start text children => .node r start text children :: nodesOf children

/-- All nodes of several trees, one after the other. -/
def nodesOf : List Tree → List Tree
  | [] => []
  | t :: ts => nodes t ++ nodesOf ts

end

/-- The selectors of a location. -/
def selectors (t : Tree) : List Tree :=
  t.children.filter fun c => c.rule = .phrase .fieldAccess || c.rule = .phrase .indexAccess

/-- What in a node, but not in the nodes within it, cannot be lowered. -/
def ownObstacles (t : Tree) : List Obstacle :=
  match t.rule with
  | .phrase .newObject => [⟨.newObject, t⟩]
  | .phrase .newArray => [⟨.newArray, t⟩]
  | .phrase .location => if 2 ≤ t.selectors.length then [⟨.deepLocation, t⟩] else []
  | .phrase .calloutArg =>
      (t.children.filter fun c => c.rule = .terminal .stringLit).map (⟨.stringArgument, ·⟩)
  | .terminal .intLit =>
      if maxInteger < decimalValue t.text then [⟨.bigInteger, t⟩] else []
  | _ => []

theorem ownObstacles_location {t : Tree} (h : t.rule = .phrase .location) :
    t.ownObstacles = if 2 ≤ t.selectors.length then [⟨.deepLocation, t⟩] else [] := by
  rw [ownObstacles, h]

theorem ownObstacles_intLit {t : Tree} (h : t.rule = .terminal .intLit) :
    t.ownObstacles = if maxInteger < decimalValue t.text then [⟨.bigInteger, t⟩] else [] := by
  rw [ownObstacles, h]

/-- Everything in a tree that cannot be lowered. -/
def obstacles (t : Tree) : List Obstacle := t.nodes.flatMap ownObstacles

/-- Everything in several trees that cannot be lowered. -/
def obstaclesOf (ts : List Tree) : List Obstacle := ts.flatMap obstacles

@[simp] theorem obstaclesOf_nil : obstaclesOf [] = [] := rfl

@[simp] theorem obstaclesOf_cons (t : Tree) (ts : List Tree) :
    obstaclesOf (t :: ts) = t.obstacles ++ obstaclesOf ts := rfl

@[simp] theorem obstaclesOf_append (ts ts' : List Tree) :
    obstaclesOf (ts ++ ts') = obstaclesOf ts ++ obstaclesOf ts' := List.flatMap_append

theorem nodesOf_eq (ts : List Tree) : nodesOf ts = ts.flatMap nodes := by
  induction ts with
  | nil => rfl
  | cons t ts ih => simp [nodesOf, ih]

/-- The obstacles of a node are its own and those of its children. -/
theorem obstacles_eq (t : Tree) : t.obstacles = t.ownObstacles ++ obstaclesOf t.children := by
  obtain ⟨r, start, text, inner⟩ := t
  rw [obstacles, nodes, nodesOf_eq, List.flatMap_cons, List.flatMap_assoc]
  rfl

end Tree

/-! ## Steps that obstacles decide -/

/-- A step of the lowering succeeds if there are no obstacles, and otherwise fails
with the error of the first. -/
def Source.Settles (s : Source) {α : Type} (x : Lowered α) (os : List Obstacle) : Prop :=
  match os with
  | [] => ∃ v, x = .ok v
  | o :: _ => x = .error (o.error s)

namespace Source.Settles

variable {s : Source} {α β : Type} {x : Lowered α} {os os' : List Obstacle}

theorem ok (v : α) : s.Settles (.ok v : Lowered α) [] := ⟨v, rfl⟩

/-- A step that succeeds has no obstacles. -/
theorem eq_nil_of_ok {v : α} (h : s.Settles x os) (hx : x = .ok v) : os = [] := by
  cases os with
  | nil => rfl
  | cons o os =>
      have herror : x = .error (o.error s) := h
      exact absurd (hx.symm.trans herror) (by simp)

/-- One step after the other. -/
theorem bind {f : α → Lowered β} (h : s.Settles x os)
    (hf : ∀ v, x = .ok v → s.Settles (f v) os') : s.Settles (x >>= f) (os ++ os') := by
  cases os with
  | nil =>
      obtain ⟨v, hv⟩ := h
      rw [hv, ok_bind]
      exact hf v hv
  | cons o os =>
      have hx : x = .error (o.error s) := h
      rw [hx, error_bind]
      rfl

/-- A step and something that cannot fail. -/
theorem map {f : α → β} (h : s.Settles x os) :
    s.Settles (x >>= fun v => .ok (f v)) os := by
  have hbind : s.Settles (x >>= fun v => .ok (f v)) (os ++ []) := h.bind fun v _ => ok (f v)
  rwa [List.append_nil] at hbind

/-- One step for each of several nodes. -/
theorem mapM {f : Tree → Lowered α} {ts : List Tree}
    (h : ∀ t ∈ ts, s.Settles (f t) t.obstacles) : s.Settles (ts.mapM f) (Tree.obstaclesOf ts) := by
  induction ts with
  | nil => exact ok []
  | cons t ts ih =>
      rw [List.mapM_cons, Tree.obstaclesOf_cons]
      apply (h t (by simp)).bind
      intro v _
      exact (ih fun t' ht' => h t' (by simp [ht'])).map

end Source.Settles

end DecafFrontEnd
