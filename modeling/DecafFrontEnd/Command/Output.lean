/-
  DecafFrontEnd/Command/Output.lean --- what the commands print.

  Results are listings: the tokens of a text one to a line, or a count of the
  nodes of its tree.  Errors are the two lines of their report.  Where colours are
  wanted, parts of a line are marked by control sequences; the text is the same
  without them.
-/
import DecafFrontEnd.Ast.Outline
import DecafFrontEnd.Command.Input
import DecafFrontEnd.Lexical.Token
import DecafFrontEnd.Log
import DecafFrontEnd.Text.Wrap

set_option autoImplicit false

namespace DecafFrontEnd

/-! ## Colours -/

/-- The colours of parts of a line. -/
inductive Colour where
  | red
  | green
  | magenta
  | cyan
  deriving DecidableEq, Repr, Inhabited

/-- The digit that a colour has in a control sequence. -/
def Colour.digit : Colour → String
  | red => "1"
  | green => "2"
  | magenta => "5"
  | cyan => "6"

/-- A control sequence. -/
def controlSequence (code : String) : String := "\x1b[" ++ code ++ "m"

/-- How text is to look from some place on. -/
structure Style where
  bold : Bool
  colour : Option Colour
  deriving DecidableEq, Repr, Inhabited

/-- Plain text. -/
def Style.plain : Style := ⟨false, none⟩

/-- What turns a style on, if styles are shown at all. -/
def Style.turnOn (s : Style) (shown : Bool) : String :=
  if shown then
    controlSequence "0" ++
      (if s.bold then controlSequence "1" else "") ++
      (match s.colour with
      | some c => controlSequence ("3" ++ c.digit)
      | none => "")
  else ""

/-! ## Errors -/

/-- The report of an error, one line for the place and one for the message. -/
def CompileError.print (e : CompileError) (coloured : Bool) : String :=
  let colour : Colour := if e.isInternal then .magenta else .red
  Style.turnOn ⟨true, none⟩ coloured ++ e.locationLine ++ "\n" ++
    Style.turnOn ⟨false, some colour⟩ coloured ++ e.messageLine ++ "\n" ++
    Style.plain.turnOn coloured

/-- The greatest width of a line in the report of a file, in columns. -/
def reportWidth : Nat := 78

/-- The report of a file that gives no text: what failed and why, each wrapped to
the width of a line. -/
def ReadFault.print (f : ReadFault) (file : String) : String :=
  "decaf::io\n\n" ++
    wrapText reportWidth "  × " "  │ " ("could not read `" ++ fileName file ++ "`") ++ "\n" ++
    wrapText reportWidth "  ╰─▶ " "      " f.reason ++ "\n\n"

/-! ## Results -/

/-- A token on a line: its kind, its text and where it starts. -/
def Token.print (t : Token) (coloured : Bool) : String :=
  Style.turnOn ⟨false, some .cyan⟩ coloured ++ t.kind.name ++
    Style.plain.turnOn coloured ++ " '" ++ t.text ++ "' " ++ toString t.line ++ ":" ++
    toString t.column ++ "\n"

/-- Tokens, each on a line. -/
def printTokens (ts : List Token) (coloured : Bool) : String :=
  String.join (ts.map fun t => t.print coloured)

/-- A text with blanks after it up to a width. -/
def padRight (width : Nat) (s : String) : String :=
  s ++ String.ofList (List.replicate (width - s.length) ' ')

/-- The number of classes of a program and of its nodes of each kind. -/
def Program.summary (p : Program) (file : String) (coloured : Bool) : String :=
  let noun := if p.classes.length = 1 then "class" else "classes"
  Style.turnOn ⟨true, some .green⟩ coloured ++ "ok" ++ Style.plain.turnOn coloured ++
    ": " ++ fileName file ++ " (" ++ toString p.classes.length ++ " " ++ noun ++ ")\n" ++
    String.join (p.outline.counts.map fun (kind, count) =>
      "  " ++ padRight 20 kind.name ++ " " ++ toString count ++ "\n")

/-! ## Progress -/

/-- A record on a line: its level, what it says and its named values. -/
def LogRecord.print (r : LogRecord) : String :=
  r.level.name ++ " " ++ r.message ++
    String.join (r.fields.map fun (name, value) => " " ++ name ++ "=" ++ value) ++ "\n"

/-- The records of a compilation that are printed at a degree of verbosity: none
at first, then all but the finest, then all. -/
def Source.printRecords (s : Source) (verbose : Nat) : String :=
  let shown := s.compileRecords.filter fun r => match r.level with
    | .debug => 1 ≤ verbose
    | .trace => 2 ≤ verbose
  String.join (shown.map LogRecord.print)

end DecafFrontEnd
