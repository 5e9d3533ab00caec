/-
  DecafFrontEnd/Proofs/Printing/Words.lean --- a program as a text.

  A program is printed as its words with blanks between them.  Every operand of an
  operator stands in brackets, a kept text is one word, and a backslash is written as an
  escape.
-/
import DecafFrontEnd.Proofs.Operator.Writing

set_option autoImplicit false

namespace DecafFrontEnd

/-! ## Lists and marks -/

/-- The words of several things with a comma in front of each. -/
def wordsBehindCommas (wss : List (List String)) : List String := wss.flatMap ("," :: ·)

/-- The words of several things with commas between them. -/
def wordsOfList : List (List String) → List String
  | [] => []
  | ws :: wss => ws ++ wordsBehindCommas wss

/-- The mark of an array. -/
def arrayWords (isArray : Bool) : List String := if isArray then ["[", "]"] else []

/-- Words between brackets. -/
def bracketedWords (ws : List String) : List String := "(" :: ws ++ [")"]

/-! ## Types and variables -/

/-- The words of a declared name. -/
def VarBind.words (b : VarBind) : List String := b.name :: arrayWords b.isArray

/-- The words of a declaration. -/
def VariableDeclaration.words (d : VariableDeclaration) : List String :=
  d.varType.name :: wordsOfList (d.varBinds.map VarBind.words) ++ [";"]

/-- The words of a parameter. -/
def Parameter.words (p : Parameter) : List String :=
  p.paramType.name :: p.name :: arrayWords p.isArray

/-! ## Expressions -/

mutual

/-- The words of a location. -/
def Location.words : Location → List String
  | ⟨_, root, path, index⟩ =>
      root ::
        (match path with
        | some field => [".", field]
        | none => []) ++
        (match index with
        | some e => "[" :: e.words ++ ["]"]
        | none => [])

/-- The words of an expression. -/
def Expression.words : Expression → List String
  | .simple _ text => [text]
  | .binary _ lhs sign rhs => bracketedWords lhs.words ++ sign :: bracketedWords rhs.words
  | .unary _ sign operand => sign :: bracketedWords operand.words
  | .call _ method arguments =>
      method.words ++ bracketedWords (wordsOfList (Expression.wordsOfEach arguments))
  | .callout _ primitiveId arguments =>
      "callout" :: bracketedWords
        (String.ofList ('"' :: primitiveId.toList ++ ['"']) ::
          wordsBehindCommas (Expression.wordsOfEach arguments))
  | .integer _ value => [String.ofList (Nat.toDigits 10 value.toInt.toNat)]
  | .character _ value => [String.ofList (Lexeme.quoted value)]
  | .boolean _ value => [if value then "true" else "false"]
  | .null _ => ["null"]

/-- The words of each of several expressions. -/
def Expression.wordsOfEach : List Expression → List (List String)
  | [] => []
  | e :: es => e.words :: Expression.wordsOfEach es

end

theorem Expression.wordsOfEach_eq (es : List Expression) :
    wordsOfEach es = es.map words := by
  induction es with
  | nil => rfl
  | cons e es ih => rw [wordsOfEach, ih, List.map_cons]

/-! ## Statements and declarations -/

mutual

/-- The words of a block. -/
def Block.words : Block → List String
  | ⟨_, declarations, statements⟩ =>
      "\x7b" :: declarations.flatMap VariableDeclaration.words ++
        Statement.wordsOfAll statements ++ ["\x7d"]

/-- The words of a statement. -/
def Statement.words : Statement → List String
  | .assignment _ location expression => location.words ++ "=" :: expression.words ++ [";"]
  | .expressionStatement _ call => call.words ++ [";"]
  | .ifStatement _ condition trueBranch falseBranch =>
      "if" :: bracketedWords condition.words ++ trueBranch.words ++
        (match falseBranch with
        | some b => "else" :: b.words
        | none => [])
  | .whileStatement _ condition body => "while" :: bracketedWords condition.words ++ body.words
  | .returnStatement _ value => "return" :: (value.map Expression.words).getD [] ++ [";"]

/-- The words of several statements. -/
def Statement.wordsOfAll : List Statement → List String
  | [] => []
  | st :: sts => st.words ++ Statement.wordsOfAll sts

end

/-- The words of a method. -/
def MethodDecl.words (m : MethodDecl) : List String :=
  m.returnType.name :: m.name :: bracketedWords (wordsOfList (m.parameters.map Parameter.words)) ++
    m.body.words

/-- The words that say which class a class extends. -/
def superclassWords : Option String → List String
  | some parent => ["extends", parent]
  | none => []

/-- The words of a class. -/
def ClassDecl.words (c : ClassDecl) : List String :=
  "class" :: c.name :: superclassWords c.superClassName ++
    "\x7b" :: c.variableDeclarations.flatMap VariableDeclaration.words ++
    c.methodDeclarations.flatMap MethodDecl.words ++ ["\x7d"]

/-- The words of a program. -/
def Program.words (p : Program) : List String := p.classes.flatMap ClassDecl.words

/-- A program as a text, one blank between two words. -/
def Program.printed (p : Program) : String := " ".intercalate p.words

end DecafFrontEnd
