/-
  DecafFrontEnd/Ast/Outline.lean --- one view of every node of a tree.

  The outline of a tree keeps of each node its kind, its position and its
  children in the order of the text, and forgets the rest.  Listing an outline
  gives the nodes with every parent before its children; counting the list gives
  the number of nodes of each kind.
-/
import DecafFrontEnd.Ast.Basic

set_option autoImplicit false

namespace DecafFrontEnd

/-! ## Kinds -/

/-- The kinds of nodes. -/
inductive NodeKind where
  | program | classDecl | methodDecl | block | variableDeclaration | typeRef | varBind
  | parameter | location
  | assignment | expressionStatement | call | callout | ifStatement | whileStatement
  | returnStatement
  | simple | binary | unary | integer | character | boolean | null
  deriving DecidableEq, Repr, Inhabited

namespace NodeKind

/-- The kinds in the order in which summaries list them. -/
def all : List NodeKind :=
  [.program, .classDecl, .methodDecl, .block, .variableDeclaration, .typeRef, .varBind,
   .parameter, .location, .assignment, .expressionStatement, .call, .callout,
   .ifStatement, .whileStatement, .returnStatement, .simple, .binary, .unary, .integer,
   .character, .boolean, .null]

theorem mem_all (k : NodeKind) : k ∈ all := by cases k <;> decide

/-- The name of a kind in listings and summaries. -/
def name : NodeKind → String
  | program => "Program"
  | classDecl => "ClassDecl"
  | methodDecl => "MethodDecl"
  | block => "Block"
  | variableDeclaration => "VariableDeclaration"
  | typeRef => "Type"
  | varBind => "VarBind"
  | parameter => "Parameter"
  | location => "Location"
  | assignment => "Assignment"
  | expressionStatement => "ExpressionStatement"
  | call => "Call"
  | callout => "PrimitiveCall"
  | ifStatement => "If"
  | whileStatement => "While"
  | returnStatement => "Return"
  | simple => "SimpleExpression"
  | binary => "BinaryOp"
  | unary => "PrefixOp"
  | integer => "IntegerLiteral"
  | character => "CharLiteral"
  | boolean => "BoolLiteral"
  | null => "NullLiteral"

end NodeKind

/-! ## Outlines -/

/-- A node reduced to its kind and position, with the outlines of its children. -/
inductive Outline where
  | node (kind : NodeKind) (position : Position) (children : List Outline)
  deriving Repr, Inhabited

namespace Outline

mutual

/-- The nodes of an outline, each before its children. -/
def nodes : Outline → List (NodeKind × Position)
  | node kind position children => (kind, position) :: nodesOfAll children

/-- The nodes of several outlines, one after the other. -/
def nodesOfAll : List Outline → List (NodeKind × Position)
  | [] => []
  | o :: os => o.nodes ++ nodesOfAll os

end

/-- How many nodes of each kind there are; kinds that do not occur are left
out. -/
def counts (o : Outline) : List (NodeKind × Nat) :=
  let kinds := o.nodes.map Prod.fst
  NodeKind.all.filterMap fun k =>
    match kinds.count k with
    | 0 => none
    | n => some (k, n)

end Outline

/-! ## The outline of each node -/

/-- The outline of a type. -/
def TypeRef.outline (t : TypeRef) : Outline := .node .typeRef t.position []

/-- The outline of a declared name. -/
def VarBind.outline (b : VarBind) : Outline := .node .varBind b.position []

/-- The outline of a declaration. -/
def VariableDeclaration.outline (d : VariableDeclaration) : Outline :=
  .node .variableDeclaration d.position (d.varType.outline :: d.varBinds.map VarBind.outline)

/-- The outline of a parameter. -/
def Parameter.outline (p : Parameter) : Outline :=
  .node .parameter p.position [p.paramType.outline]

mutual

/-- The outline of a location; its child is the index. -/
def Location.outline : Location → Outline
  | ⟨position, _, _, index⟩ =>
      .node .location position
        (match index with
        | some e => [e.outline]
        | none => [])

/-- The outline of an expression. -/
def Expression.outline : Expression → Outline
  | .simple p _ => .node .simple p []
  | .binary p lhs _ rhs => .node .binary p [lhs.outline, rhs.outline]
  | .unary p _ operand => .node .unary p [operand.outline]
  | .call p method arguments =>
      .node .call p (method.outline :: Expression.outlines arguments)
  | .callout p _ arguments => .node .callout p (Expression.outlines arguments)
  | .integer p _ => .node .integer p []
  | .character p _ => .node .character p []
  | .boolean p _ => .node .boolean p []
  | .null p => .node .null p []

/-- The outlines of several expressions. -/
def Expression.outlines : List Expression → List Outline
  | [] => []
  | e :: es => e.outline :: Expression.outlines es

end

mutual

/-- The outline of a block: declarations, then statements. -/
def Block.outline : Block → Outline
  | ⟨position, declarations, statements⟩ =>
      .node .block position
        (declarations.map VariableDeclaration.outline ++ Statement.outlines statements)

/-- The outline of a statement. -/
def Statement.outline : Statement → Outline
  | .assignment p location expression =>
      .node .assignment p [location.outline, expression.outline]
  | .expressionStatement p call => .node .expressionStatement p [call.outline]
  | .ifStatement p condition trueBranch falseBranch =>
      .node .ifStatement p
        (condition.outline :: trueBranch.outline ::
          (match falseBranch with
          | some b => [b.outline]
          | none => []))
  | .whileStatement p condition body =>
      .node .whileStatement p [condition.outline, body.outline]
  | .returnStatement p value =>
      .node .returnStatement p (value.toList.map Expression.outline)

/-- The outlines of several statements. -/
def Statement.outlines : List Statement → List Outline
  | [] => []
  | s :: ss => s.outline :: Statement.outlines ss

end

/-- The outline of a method: return type, parameters, body. -/
def MethodDecl.outline (m : MethodDecl) : Outline :=
  .node .methodDecl m.position
    (m.returnType.outline :: m.parameters.map Parameter.outline ++ [m.body.outline])

/-- The outline of a class: fields, then methods. -/
def ClassDecl.outline (c : ClassDecl) : Outline :=
  .node .classDecl c.position
    (c.variableDeclarations.map VariableDeclaration.outline ++
      c.methodDeclarations.map MethodDecl.outline)

/-- The outline of a program. -/
def Program.outline (p : Program) : Outline :=
  .node .program p.position (p.classes.map ClassDecl.outline)

end DecafFrontEnd
