/-
  DecafFrontEnd/Command/Run.lean --- from a command line to its output.

  A run is a function of the words of the command line, of what a file holds, and
  of whether colours are wanted.  It ends in an exit status and in what goes to
  the two output streams: results to the first, all else to the second.

  Three texts are not here to the letter: the usage has a wording of its own, a record
  of progress has no time in front of it, and an error of compilation has its two lines
  also where `--fancy` asks for a drawing of the text around it.  Neither the exit status
  nor the result of a command depends on these.
-/
import DecafFrontEnd.Command.Arguments
import DecafFrontEnd.Command.Output
import DecafFrontEnd.Json.OfAst

set_option autoImplicit false

namespace DecafFrontEnd

/-- How a run ends. -/
structure Finish where
  exitCode : Nat
  stdout : String
  stderr : String
  deriving DecidableEq, Repr, Inhabited

namespace Finish

/-- The exit status of a run whose file cannot be read. -/
def unreadable : Nat := 74

/-- The exit status of a command line that asks for nothing that can be done. -/
def misused : Nat := 2

/-- A run that succeeds. -/
def success (stdout : String) : Finish := ⟨0, stdout, ""⟩

/-- A run that ends in an error of the text. -/
def ofError (e : CompileError) (coloured : Bool) : Finish :=
  ⟨e.exitCode, "", e.print coloured⟩

end Finish

/-- The name and the version of the program. -/
def versionText : String := "decaf 0.1.0\n"

/-- How the program is used. -/
def usageText : String :=
  "usage: decaf [-v] [--fancy] COMMAND FILE\n\n" ++
  "  ast FILE [--no-positions] [--compact]   print the tree as JSON\n" ++
  "  tokens FILE                             print the tokens\n" ++
  "  check FILE                              print a summary of the tree\n\n" ++
  "A dash for FILE stands for standard input.\n"

namespace Invocation

/-- What a command gives for a source. -/
def answer (i : Invocation) (s : Source) (coloured : Bool) : Except CompileError String :=
  match i.command with
  | .ast => do
      let program ← s.compile
      return (program.dump (!i.noPositions)).text i.compact ++ "\n"
  | .tokens => do
      let tokens ← s.tokens
      return printTokens tokens coloured
  | .check => do
      let program ← s.compile
      return program.summary i.file coloured

/-- Runs a command on the bytes of its file. -/
def run (i : Invocation) (bytes : Except ReadFault ByteArray) (coloured : Bool) : Finish :=
  match sourceOf i.file bytes with
  | .error fault => ⟨Finish.unreadable, "", fault.print i.file⟩
  | .ok source =>
      let finish := match i.answer source coloured with
        | .ok text => Finish.success text
        | .error e => Finish.ofError e coloured
      match i.command with
      | .tokens => finish
      | .ast | .check =>
          { finish with stderr := source.printRecords i.verbose ++ finish.stderr }

end Invocation

/-- How a line that names no work ends: with information where that is asked for,
else with how the program is used. -/
def UsageFault.finish : UsageFault → Finish
  | helpAsked => .success usageText
  | versionAsked => .success versionText
  | _ => ⟨Finish.misused, "", usageText⟩

/-- Runs a command line; `read` gives the bytes of a file. -/
def runWords (words : List String) (read : String → Except ReadFault ByteArray)
    (coloured : Bool) : Finish :=
  match Invocation.ofWords words with
  | .ok i => i.run (read i.file) coloured
  | .error fault => fault.finish

end DecafFrontEnd
