/-
  DecafFrontEnd/Proofs/Ast/Relocate.lean --- trees in other positions.

  `Program.relocate f` applies `f` to every position of a program and keeps all else,
  and there is a function of that name for every sort of node.  Two programs that are
  equal up to their positions have one `Program.unplaced`, in which every position is
  the same.
-/
import DecafFrontEnd.Ast.Basic

set_option autoImplicit false

namespace DecafFrontEnd

/-! ## Types and variables -/

/-- A type with its position changed. -/
def TypeRef.relocate (f : Position → Position) (t : TypeRef) : TypeRef :=
  { t with position := f t.position }

/-- A declared name with its position changed. -/
def VarBind.relocate (f : Position → Position) (b : VarBind) : VarBind :=
  { b with position := f b.position }

/-- A declaration with every position changed. -/
def VariableDeclaration.relocate (f : Position → Position) (d : VariableDeclaration) :
    VariableDeclaration :=
  ⟨f d.position, d.varType.relocate f, d.varBinds.map (·.relocate f)⟩

/-- A parameter with every position changed. -/
def Parameter.relocate (f : Position → Position) (p : Parameter) : Parameter :=
  { p with position := f p.position, paramType := p.paramType.relocate f }

/-! ## Expressions -/

mutual

/-- A location with every position changed. -/
def Location.relocate (f : Position → Position) : Location → Location
  | ⟨position, root, path, index⟩ =>
      ⟨f position, root, path,
        match index with
        | some e => some (e.relocate f)
        | none => none⟩

/-- An expression with every position changed. -/
def Expression.relocate (f : Position → Position) : Expression → Expression
  | .simple p text => .simple (f p) text
  | .binary p lhs sign rhs => .binary (f p) (lhs.relocate f) sign (rhs.relocate f)
  | .unary p sign operand => .unary (f p) sign (operand.relocate f)
  | .call p method arguments =>
      .call (f p) (method.relocate f) (Expression.relocateAll f arguments)
  | .callout p primitiveId arguments =>
      .callout (f p) primitiveId (Expression.relocateAll f arguments)
  | .integer p value => .integer (f p) value
  | .character p value => .character (f p) value
  | .boolean p value => .boolean (f p) value
  | .null p => .null (f p)

/-- Several expressions with every position changed. -/
def Expression.relocateAll (f : Position → Position) : List Expression → List Expression
  | [] => []
  | e :: es => e.relocate f :: Expression.relocateAll f es

end

/-- An expression without its positions: all are the same. -/
def Expression.unplaced (e : Expression) : Expression := e.relocate fun _ => default

namespace Expression

@[simp] theorem unplaced_binary (p : Position) (lhs : Expression) (sign : String)
    (rhs : Expression) :
    (binary p lhs sign rhs).unplaced = .binary default lhs.unplaced sign rhs.unplaced := rfl

@[simp] theorem unplaced_unary (p : Position) (sign : String) (operand : Expression) :
    (unary p sign operand).unplaced = .unary default sign operand.unplaced := rfl

@[simp] theorem unplaced_simple (p : Position) (text : String) :
    (simple p text).unplaced = .simple default text := rfl

@[simp] theorem unplaced_integer (p : Position) (value : Int32) :
    (integer p value).unplaced = .integer default value := rfl

@[simp] theorem unplaced_character (p : Position) (value : Char) :
    (character p value).unplaced = .character default value := rfl

@[simp] theorem unplaced_boolean (p : Position) (value : Bool) :
    (boolean p value).unplaced = .boolean default value := rfl

@[simp] theorem unplaced_null (p : Position) : (null p).unplaced = .null default := rfl

theorem relocateAll_eq_map (f : Position → Position) (es : List Expression) :
    relocateAll f es = es.map (·.relocate f) := by
  induction es with
  | nil => rfl
  | cons e es ih => rw [relocateAll, ih, List.map_cons]

end Expression

/-! ## Statements and declarations -/

mutual

/-- A block with every position changed. -/
def Block.relocate (f : Position → Position) : Block → Block
  | ⟨position, declarations, statements⟩ =>
      ⟨f position, declarations.map (·.relocate f), Statement.relocateAll f statements⟩

/-- A statement with every position changed. -/
def Statement.relocate (f : Position → Position) : Statement → Statement
  | .assignment p location expression =>
      .assignment (f p) (location.relocate f) (expression.relocate f)
  | .expressionStatement p call => .expressionStatement (f p) (call.relocate f)
  | .ifStatement p condition trueBranch falseBranch =>
      .ifStatement (f p) (condition.relocate f) (trueBranch.relocate f)
        (match falseBranch with
        | some b => some (b.relocate f)
        | none => none)
  | .whileStatement p condition body =>
      .whileStatement (f p) (condition.relocate f) (body.relocate f)
  | .returnStatement p value => .returnStatement (f p) (value.map (·.relocate f))

/-- Several statements with every position changed. -/
def Statement.relocateAll (f : Position → Position) : List Statement → List Statement
  | [] => []
  | s :: ss => s.relocate f :: Statement.relocateAll f ss

end

/-- A method with every position changed. -/
def MethodDecl.relocate (f : Position → Position) (m : MethodDecl) : MethodDecl :=
  ⟨f m.position, m.returnType.relocate f, m.name, m.parameters.map (·.relocate f),
    m.body.relocate f⟩

/-- A class with every position changed. -/
def ClassDecl.relocate (f : Position → Position) (c : ClassDecl) : ClassDecl :=
  ⟨f c.position, c.name, c.superClassName, c.variableDeclarations.map (·.relocate f),
    c.methodDeclarations.map (·.relocate f)⟩

/-- A program with every position changed. -/
def Program.relocate (f : Position → Position) (p : Program) : Program :=
  ⟨f p.position, p.classes.map (·.relocate f)⟩

/-- A program without its positions: all are the same. -/
def Program.unplaced (p : Program) : Program := p.relocate fun _ => default

/-! ## Positions as they are -/

mutual

theorem Location.relocate_id : ∀ l : Location, l.relocate id = l
  | ⟨_, _, _, none⟩ => rfl
  | ⟨_, _, _, some e⟩ => by rw [Location.relocate, Expression.relocate_id e, id]

theorem Expression.relocate_id : ∀ e : Expression, e.relocate id = e
  | .simple _ _ | .integer _ _ | .character _ _ | .boolean _ _ | .null _ => rfl
  | .binary _ lhs _ rhs => by
      rw [Expression.relocate, Expression.relocate_id lhs, Expression.relocate_id rhs, id]
  | .unary _ _ operand => by rw [Expression.relocate, Expression.relocate_id operand, id]
  | .call _ method arguments => by
      rw [Expression.relocate, Location.relocate_id method,
        Expression.relocateAll_id arguments, id]
  | .callout _ _ arguments => by
      rw [Expression.relocate, Expression.relocateAll_id arguments, id]

theorem Expression.relocateAll_id : ∀ es : List Expression, Expression.relocateAll id es = es
  | [] => rfl
  | e :: es => by
      rw [Expression.relocateAll, Expression.relocate_id e, Expression.relocateAll_id es]

end

theorem VariableDeclaration.relocate_id (d : VariableDeclaration) : d.relocate id = d := by
  have hbinds : d.varBinds.map (·.relocate id) = d.varBinds := List.map_id _
  rw [VariableDeclaration.relocate, hbinds]
  rfl

theorem VariableDeclaration.map_relocate_id (ds : List VariableDeclaration) :
    ds.map (·.relocate id) = ds := by
  rw [List.map_congr_left fun d _ => d.relocate_id, List.map_id']

mutual

theorem Block.relocate_id : ∀ b : Block, b.relocate id = b
  | ⟨_, declarations, statements⟩ => by
      rw [Block.relocate, VariableDeclaration.map_relocate_id,
        Statement.relocateAll_id statements, id]

theorem Statement.relocate_id : ∀ st : Statement, st.relocate id = st
  | .assignment _ location expression => by
      rw [Statement.relocate, location.relocate_id, expression.relocate_id, id]
  | .expressionStatement _ call => by rw [Statement.relocate, call.relocate_id, id]
  | .ifStatement _ condition trueBranch none => by
      rw [Statement.relocate, condition.relocate_id, Block.relocate_id trueBranch, id]
  | .ifStatement _ condition trueBranch (some falseBranch) => by
      rw [Statement.relocate, condition.relocate_id, Block.relocate_id trueBranch,
        Block.relocate_id falseBranch, id]
  | .whileStatement _ condition body => by
      rw [Statement.relocate, condition.relocate_id, Block.relocate_id body, id]
  | .returnStatement _ none => rfl
  | .returnStatement _ (some value) => by
      rw [Statement.relocate, Option.map_some, value.relocate_id, id]

theorem Statement.relocateAll_id : ∀ sts : List Statement, Statement.relocateAll id sts = sts
  | [] => rfl
  | st :: sts => by
      rw [Statement.relocateAll, Statement.relocate_id st, Statement.relocateAll_id sts]

end

theorem MethodDecl.relocate_id (m : MethodDecl) : m.relocate id = m := by
  have hparameters : m.parameters.map (·.relocate id) = m.parameters := List.map_id _
  rw [MethodDecl.relocate, m.body.relocate_id, hparameters]
  rfl

theorem ClassDecl.relocate_id (c : ClassDecl) : c.relocate id = c := by
  have hmethods : c.methodDeclarations.map (·.relocate id) = c.methodDeclarations := by
    rw [List.map_congr_left fun m _ => m.relocate_id, List.map_id']
  rw [ClassDecl.relocate, VariableDeclaration.map_relocate_id, hmethods]
  rfl

theorem ClassDecl.map_relocate_id (cs : List ClassDecl) : cs.map (·.relocate id) = cs := by
  rw [List.map_congr_left fun c _ => c.relocate_id, List.map_id']

end DecafFrontEnd
