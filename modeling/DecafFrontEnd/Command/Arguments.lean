/-
  DecafFrontEnd/Command/Arguments.lean --- the words of a command line.

  A command line is a command, the file that it works on, and flags.  Some flags
  belong to one command, others may stand on either side of it.  Names are
  written out in full, and a flag has no value.  Words are read from left to
  right, and the first word that does not fit decides the fault.

  The word `--` says that no flag follows.  The name of a file is looked at only
  when the next flag, or the end of the line, is reached: a second file or an
  unknown flag is found before an empty name is.
-/
set_option autoImplicit false

namespace DecafFrontEnd

/-! ## Commands and flags -/

/-- What can be asked for. -/
inductive CommandName where
  | ast
  | tokens
  | check
  deriving DecidableEq, Repr, Inhabited

namespace CommandName

/-- How a command is written. -/
def spelling : CommandName → String
  | ast => "ast"
  | tokens => "tokens"
  | check => "check"

/-- The command of a name. -/
def ofSpelling? (w : String) : Option CommandName :=
  [ast, tokens, check].find? fun c => c.spelling = w

end CommandName

/-- The words that change how a command works. -/
inductive Flag where
  | verbose
  | fancy
  | noPositions
  | compact
  | help
  | version
  deriving DecidableEq, Repr, Inhabited

namespace Flag

/-- How a flag is written after two dashes. -/
def long : Flag → String
  | verbose => "verbose"
  | fancy => "fancy"
  | noPositions => "no-positions"
  | compact => "compact"
  | help => "help"
  | version => "version"

/-- How a flag is written after one dash. -/
def short? : Flag → Option Char
  | verbose => some 'v'
  | help => some 'h'
  | version => some 'V'
  | fancy | noPositions | compact => none

/-- The flags that may stand in front of the command. -/
def beforeCommand : List Flag := [verbose, fancy, help, version]

/-- The flags that may stand behind a command. -/
def behind : CommandName → List Flag
  | .ast => [noPositions, compact, verbose, fancy, help]
  | .tokens | .check => [verbose, fancy, help]

end Flag

/-! ## Results -/

/-- Why a command line asks for nothing that can be done, or for information. -/
inductive UsageFault where
  /-- an empty line -/
  | nothingGiven
  | noCommand
  /-- a word where a command should stand is none -/
  | unknownCommand
  | noFile
  /-- the name of the file is empty -/
  | emptyFile
  /-- a flag that is not known here, or a word too many -/
  | unknownWord
  /-- a flag that is given twice on one side -/
  | repeatedFlag
  /-- a flag with a value -/
  | valueGiven
  | helpAsked
  | versionAsked
  deriving DecidableEq, Repr, Inhabited

/-- A command line that asks for something. -/
structure Invocation where
  command : CommandName
  file : String
  /-- leave positions out of a tree -/
  noPositions : Bool
  /-- write a tree on one line -/
  compact : Bool
  /-- how much is told of the progress -/
  verbose : Nat
  /-- draw errors with their source lines -/
  fancy : Bool
  deriving DecidableEq, Repr, Inhabited

/-- What has been read on one side of the command. -/
structure Given where
  verbose : Nat := 0
  fancy : Bool := false
  noPositions : Bool := false
  compact : Bool := false
  file : Option String := none
  deriving DecidableEq, Repr, Inhabited

namespace Given

/-! ## Flags -/

/-- The greatest count of a flag that counts. -/
def maxCount : Nat := 255

/-- Reads one flag. -/
def addFlag (g : Given) (f : Flag) : Except UsageFault Given :=
  if g.file = some "" then .error .emptyFile
  else match f with
    | .verbose =>
        .ok { g with verbose := if g.verbose < maxCount then g.verbose + 1 else maxCount }
    | .fancy => if g.fancy then .error .repeatedFlag else .ok { g with fancy := true }
    | .noPositions =>
        if g.noPositions then .error .repeatedFlag else .ok { g with noPositions := true }
    | .compact => if g.compact then .error .repeatedFlag else .ok { g with compact := true }
    | .help => .error .helpAsked
    | .version => .error .versionAsked

/-- Reads a flag written after two dashes. -/
def addLong (known : List Flag) (g : Given) (word : List Char) : Except UsageFault Given :=
  let name := word.takeWhile (· ≠ '=')
  match known.find? fun f => f.long.toList = name with
  | none => .error .unknownWord
  | some f => if word.contains '=' then .error .valueGiven else g.addFlag f

/-- Reads flags of one letter each. -/
def addShort (known : List Flag) (g : Given) : List Char → Except UsageFault Given
  | [] => .ok g
  | c :: cs =>
      match known.find? fun f => f.short? = some c with
      | none => .error .unknownWord
      | some f => do (← g.addFlag f).addShort known cs

/-- Reads the name of the file; there is one at most. -/
def addFile (g : Given) (word : String) : Except UsageFault Given :=
  if g.file.isSome then .error .unknownWord else .ok { g with file := some word }

/-- Reads the words after `--`. -/
def addFiles (g : Given) : List String → Except UsageFault Given
  | [] => .ok g
  | w :: ws => do (← g.addFile w).addFiles ws

end Given

/-- The sorts of words, by how they begin. -/
inductive Word where
  /-- two dashes and nothing else -/
  | separator
  /-- what stands after two dashes -/
  | long (name : List Char)
  /-- what stands after one dash -/
  | short (letters : List Char)
  /-- any other word, a dash alone included -/
  | plain
  deriving DecidableEq, Repr, Inhabited

/-- The sort of a word. -/
def Word.ofString (w : String) : Word :=
  match w.toList with
  | ['-', '-'] => separator
  | '-' :: '-' :: name => long name
  | ['-'] => plain
  | '-' :: letters => short letters
  | _ => plain

namespace Given

/-- Reads the words behind a command. -/
def addWords (known : List Flag) (g : Given) : List String → Except UsageFault Given
  | [] => .ok g
  | w :: ws =>
      match Word.ofString w with
      | .separator => g.addFiles ws
      | .long name => do (← g.addLong known name).addWords known ws
      | .short letters => do (← g.addShort known letters).addWords known ws
      | .plain => do (← g.addFile w).addWords known ws

end Given

namespace Invocation

/-- Joins what stands on the two sides of a command. A count behind the command
takes the place of the one in front of it. -/
def ofGiven (command : CommandName) (front back : Given) : Except UsageFault Invocation :=
  match back.file with
  | none => .error .noFile
  | some "" => .error .emptyFile
  | some file =>
      .ok {
        command
        file
        noPositions := back.noPositions
        compact := back.compact
        verbose := if 0 < back.verbose then back.verbose else front.verbose
        fancy := front.fancy || back.fancy }

/-- How help is asked for by a word instead of a flag. -/
def helpWord : String := "help"

/-- Whether a word is the name of a command, that of help included. -/
def isCommand (w : String) : Bool := (CommandName.ofSpelling? w).isSome || w = helpWord

/-- What a request for help on some words comes to. -/
def helpFault : List String → UsageFault
  | [] => .helpAsked
  | [w] => if isCommand w then .helpAsked else .unknownCommand
  | _ :: _ :: _ => .unknownCommand

/-- What a line without a command comes to. -/
def endFault (front : Given) : UsageFault :=
  if front.verbose = 0 ∧ front.fancy = false then .nothingGiven else .noCommand

/-- Reads a command line, given what has been read in front of its command. -/
def read (front : Given) : List String → Except UsageFault Invocation
  | [] => .error (endFault front)
  | w :: ws =>
      match CommandName.ofSpelling? w with
      | some command => do
          let back ← Given.addWords (Flag.behind command) {} ws
          ofGiven command front back
      | none =>
          if w = helpWord then .error (helpFault ws)
          else match Word.ofString w with
            | .separator =>
                match ws with
                | [] => .error (endFault front)
                | v :: _ => .error (if isCommand v then .unknownWord else .unknownCommand)
            | .long name => do read (← front.addLong Flag.beforeCommand name) ws
            | .short letters => do read (← front.addShort Flag.beforeCommand letters) ws
            | .plain => .error .unknownCommand

/-- Reads a command line. -/
def ofWords (words : List String) : Except UsageFault Invocation := read {} words

end Invocation

end DecafFrontEnd
