/-
  DecafFrontEnd/Lowering/Expression.lean --- expressions, calls and locations.

  Lowering takes a node of a parse tree to a node of the syntax tree.  Children
  are lowered from left to right, and the first error is the result.

  `this`, a location or a call inside an expression is kept as its text.  What
  stands in it is lowered all the same, so that an unsupported construct does not
  go unnoticed there.

  A parse tree that the grammar cannot give ends in a `Defect`.
-/
import DecafFrontEnd.Lexical.Token
import DecafFrontEnd.Grammar.Match
import DecafFrontEnd.Ast.Basic
import DecafFrontEnd.Lowering.Literal

set_option autoImplicit false

namespace DecafFrontEnd

/-! ## Nodes and their children -/

/-- What an error says of a node: its rule and its bytes. -/
structure Site where
  rule : Rule
  span : Span
  deriving DecidableEq, Repr, Inhabited

/-- The rule and the bytes of a node. -/
def Tree.site (t : Tree) : Site := ⟨t.rule, t.span⟩

/-- The result of lowering. -/
abbrev Lowered (α : Type) : Type := Except CompileError α

namespace Source

/-- Fails unless a node is of the rule asked for. -/
def expectRule (s : Source) (wanted : Rule) (t : Tree) : Lowered Unit :=
  if t.rule = wanted then .ok ()
  else .error (s.defect (.expected wanted t.rule) t.span)

/-- Fails unless a child of a node is of the rule asked for. -/
def expectChild (s : Source) (parent : Site) (wanted : Rule) (t : Tree) : Lowered Unit :=
  if t.rule = wanted then .ok ()
  else .error (s.defect (.expectedIn wanted parent.rule t.rule) t.span)

/-- The error for a node that lacks a child. -/
def missing (s : Source) (parent : Site) (wanted : Rule) : CompileError :=
  s.defect (.missing wanted parent.rule) parent.span

/-- The error for a node of a rule that has no place in a context. -/
def unexpected (s : Source) (t : Tree) (context : String) : CompileError :=
  s.defect (.unexpected t.rule context) t.span

/-- The first of the children of a node, of the rule asked for, and the others. -/
def takeChild (s : Source) (parent : Site) (wanted : Rule) (children : List Tree) :
    Lowered (Tree × List Tree) :=
  match children with
  | [] => .error (s.missing parent wanted)
  | t :: ts => do
      s.expectChild parent wanted t
      .ok (t, ts)

/-- The first child of a node that stands for a choice between others. -/
def onlyChild (s : Source) (t : Tree) : Lowered Tree :=
  match t.children with
  | [] => .error (s.defect (.empty t.rule) t.span)
  | c :: _ => .ok c

/-- The bytes of a node up to the end of its last lexeme. A node that ends in an
optional part may have trivia after it. -/
def contentSpan (s : Source) (span : Span) : Span :=
  -- The whole span is never fallen back on, because the two ends always make a range: a node
  -- starts with a lexeme, so `contentEnd` finds the end of a lexeme from there on, which is
  -- not before the start and lies between two characters (`Source.Occupies.contentSpan_eq`
  -- in `Proofs/Lowering/Kept.lean`).
  ⟨span.offset, s.contentEnd span.offset (span.offset + span.length) - span.offset⟩

/-! ## Literals -/

/-- Turns a literal without a value into an error at its node. -/
def valueAt {α : Type} (s : Source) (t : Tree) (value : Except LiteralError α) :
    Lowered α :=
  match value with
  | .ok v => .ok v
  | .error cause => .error (s.defect (.literal cause) t.span)

/-- Lowers a literal. -/
def lowerLiteral (s : Source) (t : Tree) : Lowered Expression := do
  let position := s.positionAt t.start
  let literal ← s.onlyChild t
  match literal.rule with
  | .terminal .intLit =>
      return .integer position (← s.valueAt literal (integerValue literal.string))
  | .terminal .charLit =>
      return .character position (← s.valueAt literal (characterValue literal.string))
  | .phrase .boolLit =>
      return .boolean position (← s.valueAt literal (booleanValue literal.string))
  | .phrase .nullLit => return .null position
  | _ => .error (s.unexpected literal "literal")

/-! ## Expressions -/

/-- The class of operators that a level of binary operators is made with. -/
def levelOperator? : Phrase → Option Terminal
  | .orExpr => some .orOp
  | .andExpr => some .andOp
  | .eqExpr => some .eqOp
  | .relExpr => some .relOp
  | .addExpr => some .addOp
  | .mulExpr => some .mulOp
  | _ => none

mutual

/-- Lowers an expression of any level. -/
def lowerExpression (s : Source) : Tree → Lowered Expression
  | .node rule start text children =>
      let site : Site := ⟨rule, ⟨start, byteLength text⟩⟩
      let position := s.positionAt start
      match rule with
      | .phrase .expr | .phrase .unaryExpr | .phrase .primary | .phrase .parenExpr =>
          match children with
          | [] => .error (s.defect (.empty rule) site.span)
          | inner :: _ => s.lowerExpression inner
      | .phrase .notExpr =>
          match children with
          | operator :: operand :: _ =>
              if operator.rule = .terminal .notOp then do
                return .unary position operator.string (← s.lowerExpression operand)
              else .error (s.defect .malformedPrefix site.span)
          | _ => .error (s.defect .malformedPrefix site.span)
      | .phrase .newObject => .error (s.unsupported "new object expression" site.span)
      | .phrase .newArray => .error (s.unsupported "new array expression" site.span)
      | .phrase .literal => s.lowerLiteral (.node rule start text children)
      | .phrase .simpleExpr =>
          match children with
          | [] => .error (s.defect (.empty rule) site.span)
          | inner :: _ => do
              match inner.rule with
              | .terminal (.keyword .thisKw) => pure ()
              | .phrase .methodCall => let _ ← s.lowerMethodCall inner
              | .phrase .location => let _ ← s.lowerLocation inner
              | _ => .error (s.unexpected inner "simple expression")
              let content := s.contentSpan site.span
              let kept := s.slice content.offset (content.offset + content.length)
              return .simple position (String.ofList kept)
      | .phrase level =>
          match levelOperator? level with
          | some operator =>
              match children with
              | [] => .error (s.defect (.empty rule) site.span)
              | first :: rest => do
                  s.lowerOperands operator position (← s.lowerExpression first) rest
          | none =>
              .error (s.defect (.unexpected rule "expression") site.span)
      | _ => .error (s.defect (.unexpected rule "expression") site.span)

/-- Joins the operands of one level to the left. Every operation has the position
of the level, which is that of its first operand. -/
def lowerOperands (s : Source) (operator : Terminal) (position : Position)
    (lhs : Expression) : List Tree → Lowered Expression
  | [] => .ok lhs
  | sign :: rest =>
      if sign.rule = .terminal operator then
        match rest with
        | [] => .error (s.defect .noRightOperand sign.span)
        | operand :: more => do
            let rhs ← s.lowerExpression operand
            s.lowerOperands operator position (.binary position lhs sign.string rhs) more
      else .error (s.unexpected sign "binary expression")

/-- Lowers each of several expressions. -/
def lowerExpressions (s : Source) : List Tree → Lowered (List Expression)
  | [] => .ok []
  | t :: ts => do
      let e ← s.lowerExpression t
      return e :: (← s.lowerExpressions ts)

/-- Lowers a call of a method. -/
def lowerMethodCall (s : Source) : Tree → Lowered Expression
  | .node rule start text children => do
      let site : Site := ⟨rule, ⟨start, byteLength text⟩⟩
      s.expectRule (.phrase .methodCall) (.node rule start text children)
      match children with
      | [] => .error (s.missing site (.phrase .location))
      | location :: rest => do
          s.expectChild site (.phrase .location) location
          let method ← s.lowerLocation location
          match rest with
          | .node (.phrase .argList) _ _ arguments :: _ =>
              return .call (s.positionAt start) method (← s.lowerExpressions arguments)
          | _ => return .call (s.positionAt start) method []

/-- Lowers a location. It has at most one selector: longer ones cannot be lowered
yet. -/
def lowerLocation (s : Source) : Tree → Lowered Location
  | .node rule start text children => do
      let site : Site := ⟨rule, ⟨start, byteLength text⟩⟩
      let position := s.positionAt start
      s.expectRule (.phrase .location) (.node rule start text children)
      match children with
      | [] => .error (s.missing site (.terminal .ident))
      | root :: selectors => do
          s.expectChild site (.terminal .ident) root
          match selectors with
          | [] => return ⟨position, root.string, none, none⟩
          | [.node rule' start' text' inner] =>
              let site' : Site := ⟨rule', ⟨start', byteLength text'⟩⟩
              match rule' with
              | .phrase .fieldAccess =>
                  let (field, _) ← s.takeChild site' (.terminal .ident) inner
                  return ⟨position, root.string, some field.string, none⟩
              | .phrase .indexAccess =>
                  match inner with
                  | [] => .error (s.missing site' (.phrase .expr))
                  | index :: _ => do
                      s.expectChild site' (.phrase .expr) index
                      return ⟨position, root.string, none, some (← s.lowerExpression index)⟩
              | _ => .error (s.defect (.unexpected rule' "location") site'.span)
          | _ :: _ :: _ =>
              .error (s.unsupported "multi-level field access" (s.contentSpan site.span))

end

/-! ## Calls -/

/-- Lowers an argument of a callout. A string cannot be lowered yet. -/
def lowerCalloutArgument (s : Source) (t : Tree) : Lowered Expression := do
  s.expectRule (.phrase .calloutArg) t
  let value ← s.onlyChild t
  match value.rule with
  | .phrase .expr => s.lowerExpression value
  | .terminal .stringLit =>
      .error (s.unsupported "string literal callout argument" value.span)
  | _ => .error (s.unexpected value "callout argument")

/-- Lowers a callout. What is called is named by a string, whose escapes are
kept. -/
def lowerCallout (s : Source) (t : Tree) : Lowered Expression := do
  s.expectRule (.phrase .primCallout) t
  let (_, rest) ← s.takeChild t.site (.kw .calloutKw) t.children
  let (name, rest) ← s.takeChild t.site (.terminal .stringLit) rest
  match stripQuotes '"' name.text with
  | none => .error (s.defect .unquotedName name.span)
  | some primitiveId =>
      let arguments ← rest.mapM s.lowerCalloutArgument
      return .callout (s.positionAt t.start) (String.ofList primitiveId) arguments

/-- Lowers a call that stands as a statement. -/
def lowerCall (s : Source) (t : Tree) : Lowered Expression := do
  s.expectRule (.phrase .callExpr) t
  let call ← s.onlyChild t
  match call.rule with
  | .phrase .methodCall => s.lowerMethodCall call
  | .phrase .primCallout => s.lowerCallout call
  | _ => .error (s.unexpected call "call")

end Source

end DecafFrontEnd
