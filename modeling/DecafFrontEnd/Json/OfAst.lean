/-
  DecafFrontEnd/Json/OfAst.lean --- a program as a JSON value.

  Every node becomes an object with a member `type`, the tag of its kind.  An
  absent part is `null`.  The members of an object are written in the order of
  their names.
-/
import DecafFrontEnd.Json.Basic
import DecafFrontEnd.Ast.Outline

set_option autoImplicit false

namespace DecafFrontEnd

/-! ## Tags -/

/-- The value of the member `type` of a node. -/
def NodeKind.tag : NodeKind → String
  | program => "Program"
  | classDecl => "ClassDeclaration"
  | methodDecl => "MethodDeclaration"
  | block => "Block"
  | variableDeclaration => "VariableDeclaration"
  | typeRef => "Type"
  | varBind => "VarBind"
  | parameter => "Parameter"
  | location => "Location"
  | assignment => "AssignmentStatement"
  | expressionStatement => "ExpressionStatement"
  | call => "CallExpression"
  | callout => "PrimitiveCallExpression"
  | ifStatement => "IfStatement"
  | whileStatement => "WhileStatement"
  | returnStatement => "ReturnStatement"
  | simple => "SimpleExpression"
  | binary => "BinopExpression"
  | unary => "PrefixExpression"
  | integer => "IntegerLiteral"
  | character => "CharLiteral"
  | boolean => "BoolLiteral"
  | null => "NullLiteral"

/-- The name of the member that holds a position. -/
def positionKey : String := "position"

/-- The tag of a kind as a value. -/
def NodeKind.json (k : NodeKind) : Json := .str k.tag

/-- A string, or `null` where there is none. -/
def Json.ofName? : Option String → Json
  | some s => .str s
  | none => .null

/-! ## Leaves -/

/-- A position as an object. -/
def Position.json (p : Position) : Json :=
  .obj [("column", .int p.column), ("line", .int p.line), ("offset", .int p.offset),
    ("sourceName", .ofName? p.sourceName)]

/-- A type as an object. -/
def TypeRef.json (t : TypeRef) : Json :=
  .obj [("name", .str t.name), (positionKey, t.position.json),
    ("type", NodeKind.typeRef.json)]

/-- A declared name as an object. -/
def VarBind.json (b : VarBind) : Json :=
  .obj [("isArray", .bool b.isArray), ("name", .str b.name),
    (positionKey, b.position.json), ("type", NodeKind.varBind.json)]

/-- A declaration as an object. -/
def VariableDeclaration.json (d : VariableDeclaration) : Json :=
  .obj [(positionKey, d.position.json), ("type", NodeKind.variableDeclaration.json),
    ("varBinds", .arr (d.varBinds.map VarBind.json)), ("varType", d.varType.json)]

/-- A parameter as an object. -/
def Parameter.json (p : Parameter) : Json :=
  .obj [("isArray", .bool p.isArray), ("name", .str p.name),
    ("paramType", p.paramType.json), (positionKey, p.position.json),
    ("type", NodeKind.parameter.json)]

/-! ## Expressions -/

mutual

/-- A location as an object. -/
def Location.json : Location → Json
  | ⟨position, root, path, index⟩ =>
      .obj [("indexExpr",
          match index with
          | some e => e.json
          | none => .null),
        ("path", .ofName? path), (positionKey, position.json), ("root", .str root),
        ("type", NodeKind.location.json)]

/-- An expression as an object. -/
def Expression.json : Expression → Json
  | .simple p text =>
      .obj [(positionKey, p.json), ("text", .str text), ("type", NodeKind.simple.json)]
  | .binary p lhs operator rhs =>
      .obj [("lhs", lhs.json), ("operator", .str operator), (positionKey, p.json),
        ("rhs", rhs.json), ("type", NodeKind.binary.json)]
  | .unary p operator operand =>
      .obj [("operand", operand.json), ("operator", .str operator),
        (positionKey, p.json), ("type", NodeKind.unary.json)]
  | .call p method arguments =>
      .obj [("arguments", .arr (Expression.jsons arguments)), ("method", method.json),
        (positionKey, p.json), ("type", NodeKind.call.json)]
  | .callout p primitiveId arguments =>
      .obj [("arguments", .arr (Expression.jsons arguments)), (positionKey, p.json),
        ("primitiveId", .str primitiveId), ("type", NodeKind.callout.json)]
  | .integer p value =>
      .obj [(positionKey, p.json), ("type", NodeKind.integer.json),
        ("value", .int value.toInt)]
  | .character p value =>
      .obj [(positionKey, p.json), ("type", NodeKind.character.json),
        ("value", .str (String.singleton value))]
  | .boolean p value =>
      .obj [(positionKey, p.json), ("type", NodeKind.boolean.json), ("value", .bool value)]
  | .null p => .obj [(positionKey, p.json), ("type", NodeKind.null.json)]

/-- Several expressions as objects. -/
def Expression.jsons : List Expression → List Json
  | [] => []
  | e :: es => e.json :: Expression.jsons es

end

/-! ## Statements -/

mutual

/-- A block as an object. -/
def Block.json : Block → Json
  | ⟨position, declarations, statements⟩ =>
      .obj [(positionKey, position.json), ("statements", .arr (Statement.jsons statements)),
        ("type", NodeKind.block.json),
        ("variableDeclarations", .arr (declarations.map VariableDeclaration.json))]

/-- A statement as an object. -/
def Statement.json : Statement → Json
  | .assignment p location expression =>
      .obj [("expression", expression.json), ("location", location.json),
        (positionKey, p.json), ("type", NodeKind.assignment.json)]
  | .expressionStatement p call =>
      .obj [("call", call.json), (positionKey, p.json),
        ("type", NodeKind.expressionStatement.json)]
  | .ifStatement p condition trueBranch falseBranch =>
      .obj [("condition", condition.json),
        ("falseBranch",
          match falseBranch with
          | some b => b.json
          | none => .null),
        (positionKey, p.json), ("trueBranch", trueBranch.json),
        ("type", NodeKind.ifStatement.json)]
  | .whileStatement p condition body =>
      .obj [("body", body.json), ("condition", condition.json), (positionKey, p.json),
        ("type", NodeKind.whileStatement.json)]
  | .returnStatement p value =>
      .obj [(positionKey, p.json), ("type", NodeKind.returnStatement.json),
        ("value",
          match value with
          | some e => e.json
          | none => .null)]

/-- Several statements as objects. -/
def Statement.jsons : List Statement → List Json
  | [] => []
  | s :: ss => s.json :: Statement.jsons ss

end

/-! ## Declarations -/

/-- A method as an object. -/
def MethodDecl.json (m : MethodDecl) : Json :=
  .obj [("body", m.body.json), ("name", .str m.name),
    ("parameters", .arr (m.parameters.map Parameter.json)), (positionKey, m.position.json),
    ("returnType", m.returnType.json), ("type", NodeKind.methodDecl.json)]

/-- A class as an object. -/
def ClassDecl.json (c : ClassDecl) : Json :=
  .obj [("methodDeclarations", .arr (c.methodDeclarations.map MethodDecl.json)),
    ("name", .str c.name), (positionKey, c.position.json),
    ("superClassName", .ofName? c.superClassName), ("type", NodeKind.classDecl.json),
    ("variableDeclarations", .arr (c.variableDeclarations.map VariableDeclaration.json))]

/-- A program as an object. -/
def Program.json (p : Program) : Json :=
  .obj [("classes", .arr (p.classes.map ClassDecl.json)), (positionKey, p.position.json),
    ("type", NodeKind.program.json)]

/-- A value without the positions of its nodes. -/
def Json.withoutPositions {Number : Type} (j : Json Number) : Json Number :=
  j.without positionKey

/-- A program as an object, with or without positions. -/
def Program.dump (p : Program) (positions : Bool) : Json :=
  if positions then p.json else p.json.withoutPositions

end DecafFrontEnd
