/-
  DecafFrontEnd/Proofs/Ast/WellFormed.lean --- the trees that a text can stand for.

  The types of the syntax tree admit more than a text can say: names that are reserved
  words, locations with two selectors, calls inside expressions, operators that do not
  exist.  `Program.WellFormed` leaves out what no text stands for.
-/
import DecafFrontEnd.Proofs.Lexical.Excerpt
import DecafFrontEnd.Proofs.Operator.Writing

set_option autoImplicit false

namespace DecafFrontEnd

/-! ## Texts within a tree -/

/-- A name: the text of an identifier, which no reserved word is. -/
def IsName (x : String) : Prop := (⟨.ident, x.toList⟩ : Lexeme).IsWhole

instance (x : String) : Decidable (IsName x) := inferInstanceAs (Decidable (Lexeme.IsWhole _))

/-- The text between the quotes of a string: no bare quote and no line break, and
escapes as they are written. -/
def IsStringBody (x : String) : Prop := IsStringTail (x.toList ++ ['"'])

/-- The text of an expression that is kept as its text: `this`, a call or a location, and
nothing else.  On its own it is matched to the end by the phrase for such expressions,
nothing in it keeps it from being lowered, and it has no trivia at its front or behind its
last lexeme. -/
structure IsKeptText (x : String) : Prop where
  matched : ∃ t d attempts, (Rule.phrase .simpleExpr).matchAt (Cursor.start x.toList) =
    .matched [t] d attempts ∧ d.rest = [] ∧ t.obstacles = []
  front : leadingTrivia x.toList = []
  back : ∃ d, (Cursor.start x.toList).Holds x.toList d

/-! ## Types and variables -/

/-- A type that a variable can have. -/
def TypeRef.IsVariableType (t : TypeRef) : Prop :=
  t.name = "int" ∨ t.name = "boolean" ∨ IsName t.name

/-- A type that a method can return. -/
def TypeRef.IsReturnType (t : TypeRef) : Prop := t.name = "void" ∨ t.IsVariableType

/-- Variables, one at least, of a type that a variable can have. -/
structure VariableDeclaration.WellFormed (d : VariableDeclaration) : Prop where
  type : d.varType.IsVariableType
  nonempty : d.varBinds ≠ []
  names : ∀ b ∈ d.varBinds, IsName b.name

/-- A parameter of a type that a variable can have. -/
structure Parameter.WellFormed (p : Parameter) : Prop where
  type : p.paramType.IsVariableType
  name : IsName p.name

/-! ## Expressions -/

mutual

/-- A name with one selector at most. -/
def Location.WellFormed : Location → Prop
  | ⟨_, root, path, index⟩ =>
      IsName root ∧ (∀ x ∈ path, IsName x) ∧ (path = none ∨ index = none) ∧
        match index with
        | some e => e.WellFormed
        | none => True

/-- An expression that is not a call: calls in an expression are kept as their text. -/
def Expression.WellFormed : Expression → Prop
  | .simple _ text => IsKeptText text
  | .binary _ lhs sign rhs =>
      lhs.WellFormed ∧ (∃ op : InfixOp, sign = op.spelling) ∧ rhs.WellFormed
  | .unary _ sign operand => sign = "!" ∧ operand.WellFormed
  | .call .. | .callout .. => False
  | .integer _ value => 0 ≤ value.toInt ∧ value.toInt ≤ maxInteger
  | .character _ value => value ≠ '\'' ∧ value ≠ '\n' ∧ value ≠ '\r'
  | .boolean .. | .null _ => True

end

/-- A call that can stand as a statement. -/
def Expression.WellFormedCall : Expression → Prop
  | .call _ method arguments => method.WellFormed ∧ ∀ e ∈ arguments, e.WellFormed
  | .callout _ primitiveId arguments => IsStringBody primitiveId ∧ ∀ e ∈ arguments, e.WellFormed
  | .simple .. | .binary .. | .unary .. | .integer .. | .character .. | .boolean ..
  | .null _ => False

/-! ## Statements and declarations -/

mutual

/-- A block of declarations and statements that a text can stand for. -/
def Block.WellFormed : Block → Prop
  | ⟨_, declarations, statements⟩ =>
      (∀ d ∈ declarations, d.WellFormed) ∧ Statement.AllWellFormed statements

/-- A statement whose parts a text can stand for.  The only expressions that are statements
are calls. -/
def Statement.WellFormed : Statement → Prop
  | .assignment _ location expression => location.WellFormed ∧ expression.WellFormed
  | .expressionStatement _ call => call.WellFormedCall
  | .ifStatement _ condition trueBranch falseBranch =>
      condition.WellFormed ∧ trueBranch.WellFormed ∧
        match falseBranch with
        | some b => b.WellFormed
        | none => True
  | .whileStatement _ condition body => condition.WellFormed ∧ body.WellFormed
  | .returnStatement _ value => ∀ e ∈ value, e.WellFormed

/-- Several statements, each of which a text can stand for. -/
def Statement.AllWellFormed : List Statement → Prop
  | [] => True
  | s :: ss => s.WellFormed ∧ Statement.AllWellFormed ss

end

/-- A method of a type that a method can return, with parameters and a body that a text can
stand for. -/
structure MethodDecl.WellFormed (m : MethodDecl) : Prop where
  type : m.returnType.IsReturnType
  name : IsName m.name
  parameters : ∀ p ∈ m.parameters, p.WellFormed
  body : m.body.WellFormed

/-- A class that goes by a name, as its superclass does if it has one, with fields and methods
that a text can stand for. -/
structure ClassDecl.WellFormed (c : ClassDecl) : Prop where
  name : IsName c.name
  superclass : ∀ x ∈ c.superClassName, IsName x
  fields : ∀ d ∈ c.variableDeclarations, d.WellFormed
  methods : ∀ m ∈ c.methodDeclarations, m.WellFormed

/-- A program that a text can stand for. -/
structure Program.WellFormed (p : Program) : Prop where
  nonempty : p.classes ≠ []
  classes : ∀ c ∈ p.classes, c.WellFormed

end DecafFrontEnd
