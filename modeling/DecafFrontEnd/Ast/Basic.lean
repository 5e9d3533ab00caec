/-
  DecafFrontEnd/Ast/Basic.lean --- the tree that a program is lowered to.

  Every node has exactly one position, that of the first token of the construct.
  Names and operators are kept as they are written: what they stand for is the
  business of later phases.

  The types admit more than a program text can say.  A location, for instance,
  has at most one selector when it comes from a text, and the call of an
  expression statement is a call.
-/
import DecafFrontEnd.Text.Position

set_option autoImplicit false

namespace DecafFrontEnd

/-! ## Types and variables -/

/-- A type as written: `int`, `boolean`, `void` or the name of a class. -/
structure TypeRef where
  position : Position
  name : String
  deriving DecidableEq, Repr, Inhabited

/-- Whether a type is `void`, which only a method can return. -/
def TypeRef.isVoid (t : TypeRef) : Bool := t.name = "void"

/-- A declared name, with or without the mark of an array. -/
structure VarBind where
  position : Position
  name : String
  isArray : Bool
  deriving DecidableEq, Repr, Inhabited

/-- One type shared by several declared names. -/
structure VariableDeclaration where
  position : Position
  varType : TypeRef
  varBinds : List VarBind
  deriving DecidableEq, Repr, Inhabited

/-- A parameter of a method. -/
structure Parameter where
  position : Position
  paramType : TypeRef
  name : String
  isArray : Bool
  deriving DecidableEq, Repr, Inhabited

/-! ## Expressions -/

mutual

/-- A place that can be assigned to or called: a name, a field of it, or an
element of it. -/
structure Location where
  position : Position
  root : String
  path : Option String
  indexExpr : Option Expression

/-- Expressions, calls and literals. -/
inductive Expression where
  /-- `this`, a location or a call within an expression, kept as its text -/
  | simple (position : Position) (text : String)
  | binary (position : Position) (lhs : Expression) (operator : String) (rhs : Expression)
  | unary (position : Position) (operator : String) (operand : Expression)
  | call (position : Position) (method : Location) (arguments : List Expression)
  /-- a call out of the language, by the name of what is called -/
  | callout (position : Position) (primitiveId : String) (arguments : List Expression)
  | integer (position : Position) (value : Int32)
  /-- the character after the opening quote, escapes not decoded -/
  | character (position : Position) (value : Char)
  | boolean (position : Position) (value : Bool)
  | null (position : Position)

end

deriving instance Repr for Location, Expression

instance : Inhabited Expression := ⟨.null default⟩

instance : Inhabited Location := ⟨⟨default, default, none, none⟩⟩

/-- Whether a location is a name and nothing else. -/
def Location.isBare (l : Location) : Bool := l.path.isNone && l.indexExpr.isNone

namespace Expression

/-- The position of an expression. -/
def position : Expression → Position
  | simple p _ | binary p _ _ _ | unary p _ _ | call p _ _ | callout p _ _
  | integer p _ | character p _ | boolean p _ | null p => p

/-- Whether an expression is a literal. -/
def isLiteral : Expression → Bool
  | integer .. | character .. | boolean .. | null .. => true
  | simple .. | binary .. | unary .. | call .. | callout .. => false

/-- Whether an expression is a call. -/
def isCall : Expression → Bool
  | call .. | callout .. => true
  | simple .. | binary .. | unary .. | integer .. | character .. | boolean ..
  | null .. => false

end Expression

/-! ## Statements -/

mutual

/-- Declarations and then statements between braces. -/
structure Block where
  position : Position
  variableDeclarations : List VariableDeclaration
  statements : List Statement

/-- The statements of the language. -/
inductive Statement where
  | assignment (position : Position) (location : Location) (expression : Expression)
  /-- a call made for its effect -/
  | expressionStatement (position : Position) (call : Expression)
  | ifStatement (position : Position) (condition : Expression) (trueBranch : Block)
      (falseBranch : Option Block)
  | whileStatement (position : Position) (condition : Expression) (body : Block)
  | returnStatement (position : Position) (value : Option Expression)

end

deriving instance Repr for Block, Statement

instance : Inhabited Block := ⟨⟨default, [], []⟩⟩

instance : Inhabited Statement := ⟨.returnStatement default none⟩

/-- The position of a statement. -/
def Statement.position : Statement → Position
  | assignment p _ _ | expressionStatement p _ | ifStatement p _ _ _
  | whileStatement p _ _ | returnStatement p _ => p

/-! ## Declarations -/

/-- A method of a class. -/
structure MethodDecl where
  position : Position
  returnType : TypeRef
  name : String
  parameters : List Parameter
  body : Block
  deriving Repr, Inhabited

/-- A class: its name, the name of the class it extends, its fields and its
methods. -/
structure ClassDecl where
  position : Position
  name : String
  superClassName : Option String
  variableDeclarations : List VariableDeclaration
  methodDeclarations : List MethodDecl
  deriving Repr, Inhabited

/-- The classes of one text in order. -/
structure Program where
  position : Position
  classes : List ClassDecl
  deriving Repr, Inhabited

end DecafFrontEnd
