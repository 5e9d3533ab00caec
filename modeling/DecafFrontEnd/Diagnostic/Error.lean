/-
  DecafFrontEnd/Diagnostic/Error.lean --- why a text has no tree.

  A compilation stops for one of three reasons: the text is malformed
  (`SyntaxError`), it uses a construct that cannot be lowered yet, or the lowering
  met something that the grammar rules out (`Defect`).  Each is a value that says
  what happened; the wording of a report is in the functions `message`.

  The plain report of an error has two lines, one for the place and one for the
  message.  Beside it an error has a code, an exit status, a line of help and a
  label on the range of bytes that it is about.
-/
import DecafFrontEnd.Grammar.Rule
import DecafFrontEnd.Text.Position

set_option autoImplicit false

namespace DecafFrontEnd

/-! ## Literals -/

/-- The sorts of literals that have a value to be computed. -/
inductive LiteralType where
  | integer
  | character
  | boolean
  deriving DecidableEq, Repr, Inhabited

/-- The name of a sort of literals. -/
def LiteralType.name : LiteralType → String
  | integer => "integer"
  | character => "char"
  | boolean => "boolean"

/-- What keeps a lexeme from having a value. -/
inductive LiteralFault where
  /-- the value does not fit in 32 bits -/
  | overflow
  /-- the lexeme is not of the sort it is taken for -/
  | malformed
  deriving DecidableEq, Repr, Inhabited

/-- A fault in words, after the lexeme. -/
def LiteralFault.message : LiteralFault → String
  | overflow => "does not fit in 32 bits"
  | malformed => "is malformed"

/-- A lexeme that has no value. -/
structure LiteralError where
  literalType : LiteralType
  fault : LiteralFault
  lexeme : String
  deriving DecidableEq, Repr, Inhabited

/-- The error in words. -/
def LiteralError.message (e : LiteralError) : String :=
  e.literalType.name ++ " literal `" ++ e.lexeme ++ "` " ++ e.fault.message

/-! ## Malformed texts -/

/-- Which part of the front end found a text to be malformed. -/
inductive ErrorOrigin where
  | lexer
  | parser
  deriving DecidableEq, Repr, Inhabited

/-- The name of a part of the front end. -/
def ErrorOrigin.name : ErrorOrigin → String
  | lexer => "lexer"
  | parser => "parser"

/-- A malformed text: the message, the place and the bytes it is about. -/
structure SyntaxError where
  origin : ErrorOrigin
  message : String
  position : Position
  /-- the name of the text in reports -/
  reportedName : String
  span : Span
  deriving DecidableEq, Repr, Inhabited

/-! ## Defects of the lowering -/

/-- Shapes of a parse tree that the grammar rules out, and literals without a
value. -/
inductive Defect where
  /-- one rule stands where another should -/
  | expected (wanted found : Rule)
  /-- one rule stands where another should, within a third -/
  | expectedIn (wanted parent found : Rule)
  /-- a rule has no more nodes where one should be -/
  | missing (wanted parent : Rule)
  /-- a rule that has no place in a context -/
  | unexpected (found : Rule) (context : String)
  /-- a rule without nodes that should have one -/
  | empty (parent : Rule)
  | noClasses
  | malformedPrefix
  | noRightOperand
  | unquotedName
  | literal (cause : LiteralError)
  /-- any other, in words of its own -/
  | other (text : String)
  deriving DecidableEq, Repr, Inhabited

namespace Defect

/-- A defect in words. -/
def message : Defect → String
  | expected wanted found => "expected " ++ wanted.name ++ ", found " ++ found.name
  | expectedIn wanted parent found =>
      "expected " ++ wanted.name ++ " in " ++ parent.name ++ ", found " ++ found.name
  | missing wanted parent => "missing " ++ wanted.name ++ " in " ++ parent.name
  | unexpected found context => "unexpected " ++ found.name ++ " in " ++ context
  | empty parent => "empty " ++ parent.name
  | noClasses => "program without classes"
  | malformedPrefix => "malformed prefix expression"
  | noRightOperand => "operator without right operand"
  | unquotedName => "unquoted callout name"
  | literal cause => cause.message
  | other text => text

/-- The literal that a defect comes from. -/
def cause? : Defect → Option LiteralError
  | literal cause => some cause
  | _ => none

end Defect

/-! ## Errors -/

/-- Why a compilation gave no tree. -/
inductive CompileError where
  | malformed (error : SyntaxError)
  | unsupported (construct : String) (position : Position) (reportedName : String)
      (span : Span)
  | internal (defect : Defect) (position : Position) (reportedName : String) (span : Span)
  deriving DecidableEq, Repr, Inhabited

/-- The first line of a report: the name of the text, the line and the column. -/
def Position.reportLine (p : Position) : String :=
  "File \"" ++ p.displayName ++ "\":" ++ toString p.line ++ ":" ++ toString p.column ++ ":"

/-- The report of a malformed text. -/
def SyntaxError.report (e : SyntaxError) : String :=
  e.position.reportLine ++ "\nError: " ++ e.message

namespace CompileError

/-- Where the error is. -/
def position : CompileError → Position
  | malformed e => e.position
  | unsupported _ p _ _ | internal _ p _ _ => p

/-- The name of the text in reports. -/
def reportedName : CompileError → String
  | malformed e => e.reportedName
  | unsupported _ _ n _ | internal _ _ n _ => n

/-- The bytes that the error is about. -/
def span : CompileError → Span
  | malformed e => e.span
  | unsupported _ _ _ s | internal _ _ _ s => s

/-- What happened, without the words that every report of the kind begins with. -/
def detail : CompileError → String
  | malformed e => e.message
  | unsupported construct _ _ _ => construct
  | internal defect _ _ _ => defect.message

/-- The part of the front end that found the text to be malformed. -/
def origin? : CompileError → Option ErrorOrigin
  | malformed e => some e.origin
  | unsupported .. | internal .. => none

/-- The literal that the error comes from. -/
def cause? : CompileError → Option LiteralError
  | internal defect _ _ _ => defect.cause?
  | malformed _ | unsupported .. => none

/-- The first line of the report. -/
def locationLine (e : CompileError) : String := e.position.reportLine

/-- The second line of the report. -/
def messageLine : CompileError → String
  | malformed e => "Error: " ++ e.message
  | unsupported construct _ _ _ => "Error: unsupported construct `" ++ construct ++ "`"
  | internal defect _ _ _ => "Internal error: " ++ defect.message

/-- The report: the place, and behind a line feed what happened, in a form for each kind. -/
def report : CompileError → String
  | malformed e => e.report
  | unsupported construct p _ _ =>
      p.reportLine ++ "\nError: unsupported construct `" ++ construct ++ "`"
  | internal defect p _ _ => p.reportLine ++ "\nInternal error: " ++ defect.message

/-- Whether the error is a fault of the front end and not of the text. -/
def isInternal : CompileError → Bool
  | internal .. => true
  | malformed _ | unsupported .. => false

/-- The exit status of a run that ends in the error. -/
def exitCode : CompileError → Nat
  | malformed _ => 1
  | unsupported .. => 2
  | internal .. => 70

/-- The code under which an error is documented. -/
def code : CompileError → String
  | malformed e =>
      match e.origin with
      | .lexer => "decaf::syntax::lexer"
      | .parser => "decaf::syntax::parser"
  | unsupported .. => "decaf::lower::unsupported"
  | internal .. => "decaf::internal"

/-- Advice that goes with an error. -/
def help? : CompileError → Option String
  | malformed _ => none
  | unsupported .. => "this construct parses but cannot be lowered yet"
  | internal .. => "This is an internal compiler error. Please report this as a bug."

/-- What the label on the bytes says. -/
def label : CompileError → String
  | malformed e => e.origin.name ++ " stopped here"
  | unsupported .. => "not supported"
  | internal .. => "while lowering this"

end CompileError

/-! ## Errors about a range of a source -/

namespace Source

/-- A range of bytes, cut off at the end of the text. -/
def clampSpan (s : Source) (span : Span) : Span := span.clamp s.size

/-- The range between two byte offsets, where both are character boundaries of
the text and the second is not before the first. -/
def span? (s : Source) (start stop : Nat) : Option Span :=
  if start ≤ stop ∧ isBoundary s.chars start ∧ isBoundary s.chars stop then
    some ⟨start, stop - start⟩
  else none

/-- A construct that cannot be lowered yet. -/
def unsupported (s : Source) (construct : String) (span : Span) : CompileError :=
  .unsupported construct (s.positionAt span.offset) s.displayName (s.clampSpan span)

/-- A defect met at a range of bytes. -/
def defect (s : Source) (defect : Defect) (span : Span) : CompileError :=
  .internal defect (s.positionAt span.offset) s.displayName (s.clampSpan span)

end Source

end DecafFrontEnd
