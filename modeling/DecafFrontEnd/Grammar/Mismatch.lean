/-
  DecafFrontEnd/Grammar/Mismatch.lean --- why a text does not parse.

  A failed parse leaves the furthest attempts.  A `Mismatch` turns them into the
  three things a report says: where the text stops being a beginning of a
  program, what stands there, and which rules would have been accepted instead.
-/
import DecafFrontEnd.Lexical.Token
import DecafFrontEnd.Grammar.Match

set_option autoImplicit false

namespace DecafFrontEnd

/-- What a report calls the end of the text. -/
def endOfInputText : String := "<EOF>"

/-- A place at which a text stops being a beginning of what was looked for. -/
structure Mismatch where
  offset : Nat
  /-- the token there, or the character where no token starts -/
  found : String
  /-- the rules that were tried there, in the order of the grammar -/
  expected : List Rule
  deriving DecidableEq, Repr, Inhabited

/-- What stands at an offset: the token that starts there, else the character,
else the end of the text. -/
def Source.foundAt (s : Source) (offset : Nat) : String :=
  if s.size ≤ offset then endOfInputText
  else match s.tokenAt offset with
    | some token => String.ofList token
    | none =>
        match dropBytes offset s.chars with
        | c :: _ => String.ofList [c]
        | [] => endOfInputText

/-- A list without its repetitions, the first occurrences kept. -/
def firstOccurrences (names : List String) : List String :=
  names.foldl (fun seen n => if seen.contains n then seen else seen ++ [n]) []

/-- The names of the expected rules: one alone, or several in braces. -/
def expectedList (rules : List Rule) : String :=
  match firstOccurrences (rules.map Rule.describe) with
  | [one] => one
  | names => "\x7b" ++ ", ".intercalate names ++ "\x7d"

namespace Mismatch

/-- Describes the furthest attempts of a parse. -/
def ofAttempts (s : Source) (a : Attempts) : Mismatch :=
  { offset := a.offset, found := s.foundAt a.offset, expected := a.expected }

/-- The mismatch in words. -/
def message (m : Mismatch) : String :=
  if m.expected.isEmpty then "extraneous input `" ++ m.found ++ "`"
  else "mismatched input `" ++ m.found ++ "` expecting " ++ expectedList m.expected

end Mismatch

/-- The tree of a whole program, or why there is none. -/
def Source.parseProgram (s : Source) : Except Mismatch Tree :=
  match s.parseRule (.phrase .program) with
  | .ok (t :: _) => .ok t
  | .ok [] => .error ⟨0, endOfInputText, []⟩
  | .error a => .error (.ofAttempts s a)

end DecafFrontEnd
