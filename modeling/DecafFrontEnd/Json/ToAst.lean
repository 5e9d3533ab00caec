/-
  DecafFrontEnd/Json/ToAst.lean --- a program read back from a JSON value.

  A node is read from an object by the names of its members.  Members of other
  names are passed over.  An optional part may be `null` or left out; every other
  part has to be there and to be of the right sort.  Only statements and
  expressions look at the member `type`, since only they come in several kinds.

  Reading goes down one level of nesting at a time, so the depth of the value
  bounds it (`Program.ofJson?`).
-/
import DecafFrontEnd.Json.OfAst

set_option autoImplicit false

namespace DecafFrontEnd

namespace Json

/-! ## Parts of an object -/

/-- A string. -/
def string? : Json → Option String
  | str s => some s
  | _ => none

/-- A truth value. -/
def bool? : Json → Option Bool
  | bool b => some b
  | _ => none

/-- A string of exactly one character. -/
def char? : Json → Option Char
  | str s =>
      match s.toList with
      | [c] => some c
      | _ => none
  | _ => none

/-- A number that 64 bits without a sign can hold. -/
def word? : Json → Option Nat
  | int i => if 0 ≤ i ∧ i < 18446744073709551616 then some i.toNat else none
  | _ => none

/-- A number that 32 bits with a sign can hold. -/
def int32? : Json → Option Int32
  | int i => if -2147483648 ≤ i ∧ i ≤ 2147483647 then some (Int32.ofInt i) else none
  | _ => none

/-- A list of parts that are all read alike. -/
def list? {α : Type} (read : Json → Option α) : Json → Option (List α)
  | arr items => items.mapM read
  | _ => none

/-- A part that has to be there. -/
def required {α : Type} (j : Json) (key : String) (read : Json → Option α) : Option α := do
  read (← j.member? key)

/-- A part that may be `null` or left out. -/
def optional {α : Type} (j : Json) (key : String) (read : Json → Option α) :
    Option (Option α) :=
  match j.member? key with
  | none | some null => some none
  | some v => (read v).map some

/-- The kind that an object says it is, out of several. Where `byNumber` holds,
a kind may also be given by its number in the list, counted from zero. -/
def kind? (j : Json) (kinds : List NodeKind) (byNumber : Bool) : Option NodeKind :=
  match j.member? "type" with
  | some (str tag) => kinds.find? fun k => k.tag = tag
  | some (int i) => if byNumber ∧ 0 ≤ i then kinds[i.toNat]? else none
  | _ => none

end Json

/-! ## Leaves -/

/-- Reads a position. -/
def Position.ofJson? (j : Json) : Option Position := do
  let sourceName ← j.optional "sourceName" Json.string?
  let line ← j.required "line" Json.word?
  let column ← j.required "column" Json.word?
  let offset ← j.required "offset" Json.word?
  return { sourceName, line, column, offset }

/-- Reads a type. -/
def TypeRef.ofJson? (j : Json) : Option TypeRef := do
  let position ← j.required positionKey Position.ofJson?
  let name ← j.required "name" Json.string?
  return { position, name }

/-- Reads a declared name. -/
def VarBind.ofJson? (j : Json) : Option VarBind := do
  let position ← j.required positionKey Position.ofJson?
  let name ← j.required "name" Json.string?
  let isArray ← j.required "isArray" Json.bool?
  return { position, name, isArray }

/-- Reads a declaration. -/
def VariableDeclaration.ofJson? (j : Json) : Option VariableDeclaration := do
  let position ← j.required positionKey Position.ofJson?
  let varType ← j.required "varType" TypeRef.ofJson?
  let varBinds ← j.required "varBinds" (Json.list? VarBind.ofJson?)
  return { position, varType, varBinds }

/-- Reads a parameter. -/
def Parameter.ofJson? (j : Json) : Option Parameter := do
  let position ← j.required positionKey Position.ofJson?
  let paramType ← j.required "paramType" TypeRef.ofJson?
  let name ← j.required "name" Json.string?
  let isArray ← j.required "isArray" Json.bool?
  return { position, paramType, name, isArray }

/-! ## Expressions -/

/-- The kinds of expressions, in the order of their numbers. -/
def Expression.kinds : List NodeKind :=
  [.simple, .binary, .unary, .call, .callout, .integer, .character, .boolean, .null]

mutual

/-- Reads a location from a value of limited depth. -/
def Location.ofJsonWithin : Nat → Json → Option Location
  | 0, _ => none
  | depth + 1, j => do
      let position ← j.required positionKey Position.ofJson?
      let root ← j.required "root" Json.string?
      let path ← j.optional "path" Json.string?
      let indexExpr ← j.optional "indexExpr" (Expression.ofJsonWithin depth)
      return { position, root, path, indexExpr }

/-- Reads an expression from a value of limited depth. -/
def Expression.ofJsonWithin : Nat → Json → Option Expression
  | 0, _ => none
  | depth + 1, j => do
      let kind ← j.kind? Expression.kinds true
      let position ← j.required positionKey Position.ofJson?
      match kind with
      | .simple =>
          return .simple position (← j.required "text" Json.string?)
      | .binary =>
          let lhs ← j.required "lhs" (Expression.ofJsonWithin depth)
          let operator ← j.required "operator" Json.string?
          let rhs ← j.required "rhs" (Expression.ofJsonWithin depth)
          return .binary position lhs operator rhs
      | .unary =>
          let operator ← j.required "operator" Json.string?
          let operand ← j.required "operand" (Expression.ofJsonWithin depth)
          return .unary position operator operand
      | .call =>
          let method ← j.required "method" (Location.ofJsonWithin depth)
          let arguments ← j.required "arguments" (Json.list? (Expression.ofJsonWithin depth))
          return .call position method arguments
      | .callout =>
          let primitiveId ← j.required "primitiveId" Json.string?
          let arguments ← j.required "arguments" (Json.list? (Expression.ofJsonWithin depth))
          return .callout position primitiveId arguments
      | .integer => return .integer position (← j.required "value" Json.int32?)
      | .character => return .character position (← j.required "value" Json.char?)
      | .boolean => return .boolean position (← j.required "value" Json.bool?)
      | .null => return .null position
      | _ => none

end

/-! ## Statements -/

/-- The kinds of statements, in the order of their numbers. -/
def Statement.kinds : List NodeKind :=
  [.assignment, .expressionStatement, .ifStatement, .whileStatement, .returnStatement]

mutual

/-- Reads a block from a value of limited depth. `inner` holds inside another
statement, where kinds may be given by their numbers. -/
def Block.ofJsonWithin (inner : Bool) : Nat → Json → Option Block
  | 0, _ => none
  | depth + 1, j => do
      let position ← j.required positionKey Position.ofJson?
      let variableDeclarations ←
        j.required "variableDeclarations" (Json.list? VariableDeclaration.ofJson?)
      let statements ← j.required "statements" (Json.list? (Statement.ofJsonWithin inner depth))
      return { position, variableDeclarations, statements }

/-- Reads a statement from a value of limited depth. -/
def Statement.ofJsonWithin (inner : Bool) : Nat → Json → Option Statement
  | 0, _ => none
  | depth + 1, j => do
      let kind ← j.kind? Statement.kinds inner
      let position ← j.required positionKey Position.ofJson?
      match kind with
      | .assignment =>
          let location ← j.required "location" (Location.ofJsonWithin depth)
          let expression ← j.required "expression" (Expression.ofJsonWithin depth)
          return .assignment position location expression
      | .expressionStatement =>
          return .expressionStatement position
            (← j.required "call" (Expression.ofJsonWithin depth))
      | .ifStatement =>
          let condition ← j.required "condition" (Expression.ofJsonWithin depth)
          let trueBranch ← j.required "trueBranch" (Block.ofJsonWithin true depth)
          let falseBranch ← j.optional "falseBranch" (Block.ofJsonWithin true depth)
          return .ifStatement position condition trueBranch falseBranch
      | .whileStatement =>
          let condition ← j.required "condition" (Expression.ofJsonWithin depth)
          let body ← j.required "body" (Block.ofJsonWithin true depth)
          return .whileStatement position condition body
      | .returnStatement =>
          return .returnStatement position
            (← j.optional "value" (Expression.ofJsonWithin depth))
      | _ => none

end

/-! ## Declarations -/

/-- Reads a method. -/
def MethodDecl.ofJson? (j : Json) : Option MethodDecl := do
  let position ← j.required positionKey Position.ofJson?
  let returnType ← j.required "returnType" TypeRef.ofJson?
  let name ← j.required "name" Json.string?
  let parameters ← j.required "parameters" (Json.list? Parameter.ofJson?)
  let body ← j.required "body" (Block.ofJsonWithin false j.depth)
  return { position, returnType, name, parameters, body }

/-- Reads a class. -/
def ClassDecl.ofJson? (j : Json) : Option ClassDecl := do
  let position ← j.required positionKey Position.ofJson?
  let name ← j.required "name" Json.string?
  let superClassName ← j.optional "superClassName" Json.string?
  let variableDeclarations ←
    j.required "variableDeclarations" (Json.list? VariableDeclaration.ofJson?)
  let methodDeclarations ←
    j.required "methodDeclarations" (Json.list? MethodDecl.ofJson?)
  return { position, name, superClassName, variableDeclarations, methodDeclarations }

/-- Reads a program. -/
def Program.ofJson? (j : Json) : Option Program := do
  let position ← j.required positionKey Position.ofJson?
  let classes ← j.required "classes" (Json.list? ClassDecl.ofJson?)
  return { position, classes }

end DecafFrontEnd
