/-
  DecafFrontEnd/Lowering/Program.lean --- methods, classes and whole programs.

  A program begins where its first class does: blanks and comments in front of it
  belong to no class.
-/
import DecafFrontEnd.Lowering.Statement

set_option autoImplicit false

namespace DecafFrontEnd

namespace Source

/-! ## Methods -/

/-- Lowers the type that a method returns. -/
def lowerReturnType (s : Source) (t : Tree) : Lowered TypeRef := do
  s.expectRule (.phrase .returnType) t
  let inner ← s.onlyChild t
  match inner.rule with
  | .terminal (.keyword .voidKw) =>
      return { position := s.positionAt t.start, name := inner.string }
  | .phrase .typeName => s.lowerType inner
  | _ => .error (s.unexpected inner "return type")

/-- Lowers a parameter. -/
def lowerParameter (s : Source) (t : Tree) : Lowered Parameter := do
  s.expectRule (.phrase .param) t
  let (typeName, rest) ← s.takeChild t.site (.phrase .typeName) t.children
  let paramType ← s.lowerType typeName
  let (name, rest) ← s.takeChild t.site (.terminal .ident) rest
  return {
    position := s.positionAt t.start
    paramType
    name := name.string
    isArray := rest.head?.map Tree.rule = some (.phrase .arrayMarker) }

/-- The first of several nodes with the others, if it is of one rule. -/
def takeOptional (rule : Rule) : List Tree → Option Tree × List Tree
  | [] => (none, [])
  | t :: ts => if t.rule = rule then (some t, ts) else (none, t :: ts)

/-- Lowers a method. -/
def lowerMethod (s : Source) (t : Tree) : Lowered MethodDecl := do
  s.expectRule (.phrase .methodDecl) t
  let (typeName, rest) ← s.takeChild t.site (.phrase .returnType) t.children
  let returnType ← s.lowerReturnType typeName
  let (name, rest) ← s.takeChild t.site (.terminal .ident) rest
  let (list?, rest) := takeOptional (.phrase .paramList) rest
  let parameters ←
    match list? with
    | some list => list.children.mapM s.lowerParameter
    | none => pure []
  let (block, _) ← s.takeChild t.site (.phrase .block) rest
  let body ← s.lowerBlock block
  return { position := s.positionAt t.start, returnType, name := name.string, parameters, body }

/-! ## Classes -/

/-- Lowers the members of a class: its fields and its methods. -/
def lowerMembers (s : Source) :
    List Tree → Lowered (List VariableDeclaration × List MethodDecl)
  | [] => .ok ([], [])
  | t :: ts =>
      match t.rule with
      | .phrase .varDecl => do
          let field ← s.lowerVarDecl t
          let (fields, methods) ← s.lowerMembers ts
          return (field :: fields, methods)
      | .phrase .methodDecl => do
          let method ← s.lowerMethod t
          let (fields, methods) ← s.lowerMembers ts
          return (fields, method :: methods)
      | _ => .error (s.unexpected t "class body")

/-- Lowers the name of the class that a class extends. -/
def lowerSuperclass (s : Source) (t : Tree) : Lowered String := do
  let (_, rest) ← s.takeChild t.site (.kw .extendsKw) t.children
  let (name, _) ← s.takeChild t.site (.terminal .ident) rest
  return name.string

/-- Lowers a class. -/
def lowerClass (s : Source) (t : Tree) : Lowered ClassDecl := do
  s.expectRule (.phrase .classDecl) t
  let (_, rest) ← s.takeChild t.site (.kw .classKw) t.children
  let (name, rest) ← s.takeChild t.site (.terminal .ident) rest
  let (superclass?, members) := takeOptional (.phrase .superclass) rest
  let superClassName ← superclass?.mapM s.lowerSuperclass
  let (variableDeclarations, methodDeclarations) ← s.lowerMembers members
  return {
    position := s.positionAt t.start
    name := name.string
    superClassName
    variableDeclarations
    methodDeclarations }

/-! ## Programs -/

/-- The nodes of the classes of a program. -/
def classNodes (t : Tree) : List Tree := t.children.filter fun c => c.rule ≠ .endOfInput

/-- Lowers a program. -/
def lowerProgram (s : Source) (t : Tree) : Lowered Program := do
  s.expectRule (.phrase .program) t
  let classes ← (classNodes t).mapM s.lowerClass
  match classes with
  | [] => .error (s.defect .noClasses t.span)
  | first :: _ => return { position := first.position, classes }

end Source

end DecafFrontEnd
