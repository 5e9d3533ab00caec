/-
  DecafFrontEnd/Proofs/Ast/Order.lean --- where the nodes of a tree stand.

  A node stands at the first token of its construct.  Some constructs begin with a token
  of their own and some with their first child, a construct of an operator perhaps with
  brackets before that.  `Outline.Placed` says so of every node of a tree, and
  `Outline.Ordered` that the nodes stand in the order in which they are listed.
-/
import DecafFrontEnd.Ast.Outline
import DecafFrontEnd.Lexical.Token

set_option autoImplicit false

namespace DecafFrontEnd

/-! ## Lists of outlines -/

theorem Expression.outlines_eq_map (es : List Expression) : outlines es = es.map outline := by
  induction es with
  | nil => rfl
  | cons e es ih => rw [outlines, ih, List.map_cons]

theorem Outline.mem_nodesOfAll {n : NodeKind × Position} {os : List Outline} :
    n ∈ nodesOfAll os ↔ ∃ o ∈ os, n ∈ o.nodes := by
  induction os with
  | nil => simp [nodesOfAll]
  | cons o os ih => simp [nodesOfAll, ih]

/-! ## First tokens -/

/-- Whether a node of some kind begins with a token of some kind that belongs to none of
its children. -/
def NodeKind.opens : NodeKind → TokenKind → Bool
  | classDecl, t => t = .keyword .classKw
  | block, t => t = .lbrace
  | typeRef, t =>
      t = .keyword .intKw || t = .keyword .booleanKw || t = .keyword .voidKw || t = .ident
  | varBind, t | location, t => t = .ident
  | callout, t => t = .keyword .calloutKw
  | ifStatement, t => t = .keyword .ifKw
  | whileStatement, t => t = .keyword .whileKw
  | returnStatement, t => t = .keyword .returnKw
  | simple, t => t = .keyword .thisKw || t = .ident
  | unary, t => t = .not
  | integer, t => t = .intLit
  | character, t => t = .charLit
  | boolean, t => t = .keyword .trueKw || t = .keyword .falseKw
  | null, t => t = .keyword .nullKw
  | program, _ | methodDecl, _ | variableDeclaration, _ | parameter, _ | assignment, _
  | expressionStatement, _ | call, _ | binary, _ => false

/-- Whether a node of some kind begins with its first child. -/
def NodeKind.opensWithChild : NodeKind → Bool
  | program | methodDecl | variableDeclaration | parameter | assignment | expressionStatement
  | call | binary => true
  | classDecl | block | typeRef | varBind | location | callout | ifStatement | whileStatement
  | returnStatement | simple | unary | integer | character | boolean | null => false

/-- The position of a token. -/
def Token.position (s : Source) (t : Token) : Position := ⟨s.name, t.line, t.column, t.offset⟩

namespace Outline

/-- The position of the node. -/
def position : Outline → Position
  | node _ p _ => p

/-- Every node stands at the first token of its construct, which is one of the given:
either its own or that of its first child, and then an operation may have opening brackets
before it. -/
inductive Placed (s : Source) (ts : List Token) : Outline → Prop
  | own {kind : NodeKind} {t : Token} {children : List Outline} : t ∈ ts →
      kind.opens t.kind = true → (∀ o ∈ children, Placed s ts o) →
      Placed s ts (.node kind (t.position s) children)
  | child {kind : NodeKind} {before brackets after : List Token} {t : Token} {first : Outline}
      {others : List Outline} : kind.opensWithChild = true →
      ts = before ++ brackets ++ t :: after → first.position = t.position s →
      (∀ b ∈ brackets, kind = .binary ∧ b.kind = .lparen) →
      (∀ o ∈ first :: others, Placed s ts o) →
      Placed s ts (.node kind ((brackets.headD t).position s) (first :: others))

/-- No node stands before its parent, and every node stands before the next of the same
parent. -/
inductive Ordered : Outline → Prop
  | node {kind : NodeKind} {p : Position} {children : List Outline} :
      (∀ o ∈ children, p.offset ≤ o.position.offset) →
      children.Pairwise (fun o o' => o.position.offset < o'.position.offset) →
      (∀ o ∈ children, o.Ordered) → Ordered (.node kind p children)

/-- Outlines one behind the other in order, all of them between two offsets. -/
structure Within (start stop : Nat) (os : List Outline) : Prop where
  bounds : ∀ n ∈ nodesOfAll os, start ≤ n.2.offset ∧ n.2.offset < stop
  sorted : (nodesOfAll os).Pairwise (fun n n' => n.2.offset ≤ n'.2.offset)
  siblings : os.Pairwise (fun o o' => o.position.offset < o'.position.offset)
  ordered : ∀ o ∈ os, o.Ordered

namespace Within

variable {start stop : Nat} {os : List Outline}

theorem nil (start stop : Nat) : Within start stop [] :=
  ⟨by simp [nodesOfAll], .nil, .nil, by simp⟩

theorem position_bounds (h : Within start stop os) :
    ∀ o ∈ os, start ≤ o.position.offset ∧ o.position.offset < stop := by
  intro o ho
  have hmem : ∃ kind, (kind, o.position) ∈ nodesOfAll os := by
    obtain ⟨kind, p, children⟩ := o
    exact ⟨kind, mem_nodesOfAll.2 ⟨_, ho, by simp [nodes, position]⟩⟩
  obtain ⟨kind, hkind⟩ := hmem
  exact h.bounds _ hkind

/-- A node with its children behind it, and other nodes behind those. -/
theorem cons {kind : NodeKind} {p : Position} {children : List Outline} {inner middle : Nat}
    (hstart : start ≤ p.offset) (hinner : p.offset ≤ inner) (hmiddle : p.offset < middle)
    (hchildren : Within inner middle children) (hos : Within middle stop os)
    (hstop : middle ≤ stop) : Within start stop (.node kind p children :: os) := by
  have hnodes : nodesOfAll (.node kind p children :: os) =
      (kind, p) :: (nodesOfAll children ++ nodesOfAll os) := by
    rw [nodesOfAll, nodes, List.cons_append]
  refine ⟨?_, ?_, ?_, ?_⟩
  · rw [hnodes, List.forall_mem_cons, List.forall_mem_append]
    refine ⟨by simp only; omega, fun n hn => ?_, fun n hn => ?_⟩
    · have hbounds := hchildren.bounds n hn
      omega
    · have hbounds := hos.bounds n hn
      omega
  · rw [hnodes, List.pairwise_cons, List.forall_mem_append, List.pairwise_append]
    refine ⟨⟨fun n hn => ?_, fun n hn => ?_⟩, hchildren.sorted, hos.sorted, fun n hn n' hn' => ?_⟩
    · have hbounds := hchildren.bounds n hn
      simp only
      omega
    · have hbounds := hos.bounds n hn
      simp only
      omega
    · have hbounds := hchildren.bounds n hn
      have hbounds' := hos.bounds n' hn'
      omega
  · refine List.pairwise_cons.2 ⟨fun o ho => ?_, hos.siblings⟩
    have hbounds := hos.position_bounds o ho
    have hposition : (node kind p children).position = p := rfl
    rw [hposition]
    omega
  · refine List.forall_mem_cons.2 ⟨.node (fun o ho => ?_) hchildren.siblings hchildren.ordered,
      hos.ordered⟩
    have hbounds := hchildren.position_bounds o ho
    omega

end Within

end Outline

end DecafFrontEnd
