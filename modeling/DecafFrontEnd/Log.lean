/-
  DecafFrontEnd/Log.lean --- what a compilation tells of its progress.

  A compilation can be followed through records: its start, each method and each
  class as soon as it is lowered, and its end or the place at which it halted.
  The records are a function of the text alone.  What was lowered before an error
  has its record, what comes after has none.
-/
import DecafFrontEnd.Compile

set_option autoImplicit false

namespace DecafFrontEnd

/-- How much detail a record is. -/
inductive LogLevel where
  | debug
  | trace
  deriving DecidableEq, Repr, Inhabited

/-- The name of a level. -/
def LogLevel.name : LogLevel → String
  | debug => "DEBUG"
  | trace => "TRACE"

/-- A record: a level, what it says and named values. -/
structure LogRecord where
  level : LogLevel
  message : String
  fields : List (String × String)
  deriving DecidableEq, Repr, Inhabited

namespace Source

/-! ## Lowering -/

/-- The record of a lowered method. -/
def methodRecord (m : MethodDecl) : LogRecord :=
  ⟨.trace, "lowered method",
    [("method", m.name), ("params", toString m.parameters.length)]⟩

/-- The record of a lowered class. -/
def classRecord (c : ClassDecl) : LogRecord :=
  ⟨.trace, "lowered class",
    [("class", c.name), ("fields", toString c.variableDeclarations.length),
     ("methods", toString c.methodDeclarations.length)]⟩

/-- The records of the members of a class up to the first that fails. -/
def memberRecords (s : Source) : List Tree → List LogRecord
  | [] => []
  | t :: ts =>
      match t.rule with
      | .phrase .methodDecl =>
          match s.lowerMethod t with
          | .ok m => methodRecord m :: s.memberRecords ts
          | .error _ => []
      | .phrase .varDecl =>
          match s.lowerVarDecl t with
          | .ok _ => s.memberRecords ts
          | .error _ => []
      | _ => s.memberRecords ts

/-- The records of the classes of a program up to the first that fails. -/
def classRecords (s : Source) : List Tree → List LogRecord
  | [] => []
  | t :: ts =>
      s.memberRecords t.children ++
        match s.lowerClass t with
        | .ok c => classRecord c :: s.classRecords ts
        | .error _ => []

/-! ## Compilations -/

/-- The record of the place at which a text is malformed. -/
def haltRecord (event : SyntaxEvent) : LogRecord :=
  ⟨.debug, "halting on first syntax error",
    [("origin", event.origin.name), ("position", event.position.display)]⟩

/-- The records of a compilation in order. -/
def compileRecords (s : Source) : List LogRecord :=
  ⟨.debug, "compilation started", [("bytes", toString s.size)]⟩ ::
    match s.parseOrEvent with
    | .error event => [haltRecord event]
    | .ok tree =>
        s.classRecords (classNodes tree) ++
          match s.lowerProgram tree with
          | .ok program =>
              [⟨.debug, "compilation finished",
                [("classes", toString program.classes.length)]⟩]
          | .error _ => []

end Source

end DecafFrontEnd
