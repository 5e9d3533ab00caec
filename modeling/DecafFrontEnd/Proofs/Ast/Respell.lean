/-
  DecafFrontEnd/Proofs/Ast/Respell.lean --- trees with other texts in them.

  The only texts of a tree that depend on the layout of the source are those of the
  expressions that are kept as their text.  `Program.respell f` applies `f` to each of
  them and keeps all else.  Two programs are the same apart from layout when taking off
  their positions and replacing every kept text by the tokens in it makes them equal
  (`Program.SameUpToLayout`).
-/
import DecafFrontEnd.Proofs.Ast.Relocate
import DecafFrontEnd.Proofs.Lexical.Tokens

set_option autoImplicit false

namespace DecafFrontEnd

/-! ## Expressions -/

mutual

/-- A location with every kept text changed. -/
def Location.respell (f : String → String) : Location → Location
  | ⟨position, root, path, index⟩ =>
      ⟨position, root, path,
        match index with
        | some e => some (e.respell f)
        | none => none⟩

/-- An expression with every kept text changed. -/
def Expression.respell (f : String → String) : Expression → Expression
  | .simple p text => .simple p (f text)
  | .binary p lhs sign rhs => .binary p (lhs.respell f) sign (rhs.respell f)
  | .unary p sign operand => .unary p sign (operand.respell f)
  | .call p method arguments =>
      .call p (method.respell f) (Expression.respellAll f arguments)
  | .callout p primitiveId arguments =>
      .callout p primitiveId (Expression.respellAll f arguments)
  | .integer p value => .integer p value
  | .character p value => .character p value
  | .boolean p value => .boolean p value
  | .null p => .null p

/-- Several expressions with every kept text changed. -/
def Expression.respellAll (f : String → String) : List Expression → List Expression
  | [] => []
  | e :: es => e.respell f :: Expression.respellAll f es

end

/-! ## Statements and declarations -/

mutual

/-- A block with every kept text changed. -/
def Block.respell (f : String → String) : Block → Block
  | ⟨position, declarations, statements⟩ =>
      ⟨position, declarations, Statement.respellAll f statements⟩

/-- A statement with every kept text changed. -/
def Statement.respell (f : String → String) : Statement → Statement
  | .assignment p location expression =>
      .assignment p (location.respell f) (expression.respell f)
  | .expressionStatement p call => .expressionStatement p (call.respell f)
  | .ifStatement p condition trueBranch falseBranch =>
      .ifStatement p (condition.respell f) (trueBranch.respell f)
        (match falseBranch with
        | some b => some (b.respell f)
        | none => none)
  | .whileStatement p condition body => .whileStatement p (condition.respell f) (body.respell f)
  | .returnStatement p value => .returnStatement p (value.map (·.respell f))

/-- Several statements with every kept text changed. -/
def Statement.respellAll (f : String → String) : List Statement → List Statement
  | [] => []
  | s :: ss => s.respell f :: Statement.respellAll f ss

end

/-- A method with every kept text changed. -/
def MethodDecl.respell (f : String → String) (m : MethodDecl) : MethodDecl :=
  { m with body := m.body.respell f }

/-- A class with every kept text changed. -/
def ClassDecl.respell (f : String → String) (c : ClassDecl) : ClassDecl :=
  { c with methodDeclarations := c.methodDeclarations.map (·.respell f) }

/-- A program with every kept text changed. -/
def Program.respell (f : String → String) (p : Program) : Program :=
  { p with classes := p.classes.map (·.respell f) }

/-! ## Programs that differ in their layout -/

/-- Two programs are equal when their positions are taken off and every kept text is
replaced by something that depends on its tokens only. -/
def Program.SameUpToLayout (p q : Program) : Prop :=
  ∀ f : List (TokenKind × String) → String,
    (p.respell (f ∘ tokensOf)).unplaced = (q.respell (f ∘ tokensOf)).unplaced

end DecafFrontEnd
