/-
  DecafFrontEnd/Ast/Pretty.lean --- expressions and programs in brief.

  An expression is written with its operator in front and in parentheses, so that
  the shape of the tree is plain to see: `1 + 2 * 3` becomes `(+ 1 (* 2 3))`.  A
  location is written as in a program.  A program is listed as one flat sequence
  of `Item`s in the order of the text.
-/
import DecafFrontEnd.Ast.Basic

set_option autoImplicit false

namespace DecafFrontEnd

/-! ## Expressions -/

mutual

/-- A location as written: `a`, `a.b` or `a[e]`. A field hides an index. -/
def Location.pretty : Location → String
  | ⟨_, root, some path, _⟩ => root ++ "." ++ path
  | ⟨_, root, none, some index⟩ => root ++ "[" ++ index.pretty ++ "]"
  | ⟨_, root, none, none⟩ => root

/-- An expression with every operator before its operands. -/
def Expression.pretty : Expression → String
  | .simple _ text => text
  | .binary _ lhs operator rhs =>
      "(" ++ operator ++ " " ++ lhs.pretty ++ " " ++ rhs.pretty ++ ")"
  | .unary _ operator operand => "(" ++ operator ++ " " ++ operand.pretty ++ ")"
  | .call _ method arguments =>
      "(call " ++ method.pretty ++ Expression.prettyArguments arguments ++ ")"
  | .callout _ primitiveId arguments =>
      "(call callout \"" ++ primitiveId ++ "\"" ++ Expression.prettyArguments arguments ++ ")"
  | .integer _ value => toString value.toInt
  | .character _ value => "'" ++ String.singleton value ++ "'"
  | .boolean _ value => if value then "true" else "false"
  | .null _ => "null"

/-- Arguments with a blank before each. -/
def Expression.prettyArguments : List Expression → String
  | [] => ""
  | e :: es => " " ++ e.pretty ++ Expression.prettyArguments es

end

/-! ## Programs -/

/-- An entry of the listing of a program. -/
inductive Item where
  | classHeader (name : String)
  | methodHeader (name : String) (returnsVoid : Bool)
  | assign (location : Location) (expression : Expression)
  | call (call : Expression)
  | giveBack (value : Option Expression)
  | whenTrue (condition : Expression)
  | otherwise
  | loop (condition : Expression)
  | close

mutual

/-- The listing of the statements of a block. -/
def Block.items : Block → List Item
  | ⟨_, _, statements⟩ => Statement.itemsOfAll statements

/-- The listing of a statement. -/
def Statement.items : Statement → List Item
  | .assignment _ location expression => [.assign location expression]
  | .expressionStatement _ call => [.call call]
  | .ifStatement _ condition trueBranch falseBranch =>
      .whenTrue condition :: trueBranch.items ++
        (match falseBranch with
        | some b => .otherwise :: b.items
        | none => []) ++ [.close]
  | .whileStatement _ condition body => .loop condition :: body.items ++ [.close]
  | .returnStatement _ value => [.giveBack value]

/-- The listing of several statements. -/
def Statement.itemsOfAll : List Statement → List Item
  | [] => []
  | s :: ss => s.items ++ Statement.itemsOfAll ss

end

/-- The listing of a method. -/
def MethodDecl.items (m : MethodDecl) : List Item :=
  .methodHeader m.name m.returnType.isVoid :: m.body.items

/-- The listing of a class; its fields are left out. -/
def ClassDecl.items (c : ClassDecl) : List Item :=
  .classHeader c.name :: c.methodDeclarations.flatMap MethodDecl.items

/-- The listing of a program. -/
def Program.items (p : Program) : List Item := p.classes.flatMap ClassDecl.items

end DecafFrontEnd
