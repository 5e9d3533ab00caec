/-
  DecafFrontEnd/Proofs/Ast/Subexpression.lean --- the expressions of a program.

  Expressions stand within expressions, within the indices of locations, and within the
  statements of methods.  `Program.expressions` lists all of them, each before those within
  it.
-/
import DecafFrontEnd.Ast.Basic

set_option autoImplicit false

namespace DecafFrontEnd

mutual

/-- All expressions within a location. -/
def Location.expressions : Location → List Expression
  | ⟨_, _, _, index⟩ =>
      match index with
      | some e => e.expressions
      | none => []

/-- An expression and all expressions within it. -/
def Expression.expressions : Expression → List Expression
  | .simple p text => [.simple p text]
  | .binary p lhs op rhs => .binary p lhs op rhs :: (lhs.expressions ++ rhs.expressions)
  | .unary p op operand => .unary p op operand :: operand.expressions
  | .call p method arguments =>
      .call p method arguments :: (method.expressions ++ Expression.expressionsOf arguments)
  | .callout p name arguments =>
      .callout p name arguments :: Expression.expressionsOf arguments
  | .integer p value => [.integer p value]
  | .character p value => [.character p value]
  | .boolean p value => [.boolean p value]
  | .null p => [.null p]

/-- Several expressions and all expressions within them. -/
def Expression.expressionsOf : List Expression → List Expression
  | [] => []
  | e :: es => e.expressions ++ Expression.expressionsOf es

end

theorem Expression.expressionsOf_eq (es : List Expression) :
    expressionsOf es = es.flatMap Expression.expressions := by
  induction es with
  | nil => rfl
  | cons e es ih => rw [expressionsOf, ih, List.flatMap_cons]

mutual

/-- All expressions of a block. -/
def Block.expressions : Block → List Expression
  | ⟨_, _, statements⟩ => Statement.expressionsOf statements

/-- All expressions of a statement. -/
def Statement.expressions : Statement → List Expression
  | .assignment _ location e => location.expressions ++ e.expressions
  | .expressionStatement _ call => call.expressions
  | .ifStatement _ condition trueBranch falseBranch =>
      condition.expressions ++ (trueBranch.expressions ++
        (match falseBranch with
        | some b => b.expressions
        | none => []))
  | .whileStatement _ condition body => condition.expressions ++ body.expressions
  | .returnStatement _ value =>
      match value with
      | some e => e.expressions
      | none => []

/-- All expressions of several statements. -/
def Statement.expressionsOf : List Statement → List Expression
  | [] => []
  | st :: sts => st.expressions ++ Statement.expressionsOf sts

end

/-- All expressions of a method. -/
def MethodDecl.expressions (m : MethodDecl) : List Expression := m.body.expressions

/-- All expressions of a class. -/
def ClassDecl.expressions (c : ClassDecl) : List Expression :=
  c.methodDeclarations.flatMap MethodDecl.expressions

/-- All expressions of a program. -/
def Program.expressions (p : Program) : List Expression := p.classes.flatMap ClassDecl.expressions

end DecafFrontEnd
