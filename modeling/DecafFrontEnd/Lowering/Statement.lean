/-
  DecafFrontEnd/Lowering/Statement.lean --- types, variables, blocks and statements.

  A block holds its declarations before its statements; a declaration after a
  statement is a shape that the grammar rules out.
-/
import DecafFrontEnd.Lowering.Expression

set_option autoImplicit false

namespace DecafFrontEnd

namespace Source

/-! ## Types and variables -/

/-- Lowers the name of a type. -/
def lowerType (s : Source) (t : Tree) : Lowered TypeRef := do
  s.expectRule (.phrase .typeName) t
  let name ← s.onlyChild t
  match name.rule with
  | .terminal (.keyword .intKw) | .terminal (.keyword .booleanKw) | .terminal .ident =>
      return { position := s.positionAt t.start, name := name.string }
  | _ => .error (s.unexpected name "type")

/-- Lowers one declared name. -/
def lowerVarBind (s : Source) (t : Tree) : Lowered VarBind := do
  s.expectRule (.phrase .varBind) t
  let (name, rest) ← s.takeChild t.site (.terminal .ident) t.children
  return {
    position := s.positionAt t.start
    name := name.string
    isArray := rest.head?.map Tree.rule = some (.phrase .arrayMarker) }

/-- Lowers a declaration of one type and one or more names. -/
def lowerVarDecl (s : Source) (t : Tree) : Lowered VariableDeclaration := do
  s.expectRule (.phrase .varDecl) t
  let (typeName, rest) ← s.takeChild t.site (.phrase .typeName) t.children
  let varType ← s.lowerType typeName
  let (binds, _) ← s.takeChild t.site (.phrase .varBindList) rest
  let varBinds ← binds.children.mapM s.lowerVarBind
  return { position := s.positionAt t.start, varType, varBinds }

/-! ## Statements without blocks -/

/-- Lowers an assignment from its children. -/
def lowerAssignment (s : Source) (site : Site) (children : List Tree) :
    Lowered Statement := do
  let (place, rest) ← s.takeChild site (.phrase .location) children
  let location ← s.lowerLocation place
  let (value, _) ← s.takeChild site (.phrase .expr) rest
  let expression ← s.lowerExpression value
  return .assignment (s.positionAt site.span.offset) location expression

/-- Lowers a call that stands as a statement from its children. -/
def lowerExpressionStatement (s : Source) (site : Site) (children : List Tree) :
    Lowered Statement := do
  let (call, _) ← s.takeChild site (.phrase .callExpr) children
  return .expressionStatement (s.positionAt site.span.offset) (← s.lowerCall call)

/-- Lowers a return from its children. -/
def lowerReturn (s : Source) (site : Site) (children : List Tree) : Lowered Statement := do
  let (_, rest) ← s.takeChild site (.kw .returnKw) children
  let position := s.positionAt site.span.offset
  match rest with
  | value :: _ =>
      if value.rule = .phrase .expr then
        return .returnStatement position (some (← s.lowerExpression value))
      else return .returnStatement position none
  | [] => return .returnStatement position none

/-! ## Blocks -/

mutual

/-- Lowers a block. -/
def lowerBlock (s : Source) : Tree → Lowered Block
  | .node rule start text children => do
      s.expectRule (.phrase .block) (.node rule start text children)
      let (variableDeclarations, statements) ← s.lowerBlockItems false children
      return { position := s.positionAt start, variableDeclarations, statements }

/-- Lowers what stands between the braces of a block. `started` holds after the
first statement. -/
def lowerBlockItems (s : Source) (started : Bool) :
    List Tree → Lowered (List VariableDeclaration × List Statement)
  | [] => .ok ([], [])
  | t :: ts =>
      if t.rule = .phrase .varDecl ∧ started = false then do
        let declaration ← s.lowerVarDecl t
        let (declarations, statements) ← s.lowerBlockItems false ts
        return (declaration :: declarations, statements)
      else if t.rule = .phrase .statement then do
        let statement ← s.lowerStatement t
        let (declarations, statements) ← s.lowerBlockItems true ts
        return (declarations, statement :: statements)
      else .error (s.unexpected t "block")

/-- Lowers a statement. -/
def lowerStatement (s : Source) : Tree → Lowered Statement
  | .node rule start text children => do
      s.expectRule (.phrase .statement) (.node rule start text children)
      match children with
      | [] => .error (s.defect (.empty rule) ⟨start, byteLength text⟩)
      | .node rule' start' text' inner :: _ =>
          let site : Site := ⟨rule', ⟨start', byteLength text'⟩⟩
          match rule' with
          | .phrase .assignStmt => s.lowerAssignment site inner
          | .phrase .expressionStmt => s.lowerExpressionStatement site inner
          | .phrase .ifStmt => s.lowerIf site inner
          | .phrase .whileStmt => s.lowerWhile site inner
          | .phrase .returnStmt => s.lowerReturn site inner
          | _ => .error (s.defect (.unexpected rule' "statement") site.span)

/-- Lowers a conditional from its children. -/
def lowerIf (s : Source) (site : Site) : List Tree → Lowered Statement
  | [] => .error (s.missing site (.kw .ifKw))
  | word :: rest => do
      s.expectChild site (.kw .ifKw) word
      match rest with
      | [] => .error (s.missing site (.phrase .expr))
      | test :: rest => do
          s.expectChild site (.phrase .expr) test
          let condition ← s.lowerExpression test
          match rest with
          | [] => .error (s.missing site (.phrase .block))
          | block :: rest => do
              s.expectChild site (.phrase .block) block
              let trueBranch ← s.lowerBlock block
              let position := s.positionAt site.span.offset
              match rest with
              | .node (.phrase .elseBranch) start text inner :: _ => do
                  let falseBranch ←
                    s.lowerElse ⟨.phrase .elseBranch, ⟨start, byteLength text⟩⟩ inner
                  return .ifStatement position condition trueBranch (some falseBranch)
              | _ => return .ifStatement position condition trueBranch none

/-- Lowers the other branch of a conditional from its children. -/
def lowerElse (s : Source) (site : Site) : List Tree → Lowered Block
  | [] => .error (s.missing site (.kw .elseKw))
  | word :: rest => do
      s.expectChild site (.kw .elseKw) word
      match rest with
      | [] => .error (s.missing site (.phrase .block))
      | block :: _ => do
          s.expectChild site (.phrase .block) block
          s.lowerBlock block

/-- Lowers a loop from its children. -/
def lowerWhile (s : Source) (site : Site) : List Tree → Lowered Statement
  | [] => .error (s.missing site (.kw .whileKw))
  | word :: rest => do
      s.expectChild site (.kw .whileKw) word
      match rest with
      | [] => .error (s.missing site (.phrase .expr))
      | test :: rest => do
          s.expectChild site (.phrase .expr) test
          let condition ← s.lowerExpression test
          match rest with
          | [] => .error (s.missing site (.phrase .block))
          | block :: _ => do
              s.expectChild site (.phrase .block) block
              let body ← s.lowerBlock block
              return .whileStatement (s.positionAt site.span.offset) condition body

end

end Source

end DecafFrontEnd
