/-
  DecafFrontEnd/Lexical/Trivia.lean --- blanks and comments, and a place in a text.

  Between two lexemes there may be trivia: blanks, tabs, line ends, and comments,
  which begin with two slashes and run to the end of their line.  A carriage
  return ends a comment just as a line feed does.  `splitTrivia` divides a text
  into the trivia at its front and the rest.

  A `Cursor` is a place in a text: the byte offset and the characters from there
  on.
-/
import DecafFrontEnd.Text.Utf8
import DecafFrontEnd.Lexical.Terminal

set_option autoImplicit false

namespace DecafFrontEnd

/-! ## Trivia -/

/-- A space, a tab, a carriage return or a line feed. -/
def isBlank (c : Char) : Bool := c = ' ' || c = '\t' || c = '\r' || c = '\n'

/-- Divides a text into the trivia at its front and the rest; `inComment` says
whether the text begins inside a comment. -/
def splitTriviaFrom : Bool → List Char → List Char × List Char
  | _, [] => ([], [])
  | true, c :: cs =>
      let (t, r) := splitTriviaFrom (!isLineBreak c) cs
      (c :: t, r)
  | false, c :: cs =>
      if isBlank c then
        let (t, r) := splitTriviaFrom false cs
        (c :: t, r)
      else if c = '/' && cs.head? = some '/' then
        let (t, r) := splitTriviaFrom true cs
        (c :: t, r)
      else ([], c :: cs)

/-- Divides a text into the trivia at its front and the rest. -/
def splitTrivia (cs : List Char) : List Char × List Char := splitTriviaFrom false cs

/-- The trivia at the front of a text. -/
def leadingTrivia (cs : List Char) : List Char := (splitTrivia cs).1

/-- A text without the trivia at its front. -/
def skipTrivia (cs : List Char) : List Char := (splitTrivia cs).2

theorem splitTriviaFrom_append (inComment : Bool) (cs : List Char) :
    (splitTriviaFrom inComment cs).1 ++ (splitTriviaFrom inComment cs).2 = cs := by
  fun_induction splitTriviaFrom inComment cs <;> simp_all

/-- Trivia and the rest make up the text. -/
theorem leadingTrivia_append_skipTrivia (cs : List Char) :
    leadingTrivia cs ++ skipTrivia cs = cs := splitTriviaFrom_append false cs

/-- One comment at the front of a text, its line end excluded. -/
def scanComment : List Char → Scan
  | '/' :: '/' :: cs =>
      some ('/' :: '/' :: cs.takeWhile (!isLineBreak ·), cs.dropWhile (!isLineBreak ·))
  | _ => none

/-! ## Places -/

/-- A place in a text. -/
structure Cursor where
  /-- number of bytes before the place -/
  offset : Nat
  /-- the characters from the place on -/
  rest : List Char
  deriving DecidableEq, Repr, Inhabited

namespace Cursor

/-- The front of a text. -/
def start (cs : List Char) : Cursor := ⟨0, cs⟩

/-- The place `n` bytes into a text. -/
def atOffset (cs : List Char) (n : Nat) : Cursor := ⟨floorBoundary cs n, dropBytes n cs⟩

/-- The place `n` characters further on. -/
def advance (c : Cursor) (n : Nat) : Cursor :=
  ⟨c.offset + byteLength (c.rest.take n), c.rest.drop n⟩

/-- The place after the trivia that begins here. -/
def skip (c : Cursor) : Cursor :=
  ⟨c.offset + byteLength (leadingTrivia c.rest), skipTrivia c.rest⟩

@[simp] theorem rest_advance (c : Cursor) (n : Nat) : (c.advance n).rest = c.rest.drop n := rfl

end Cursor

end DecafFrontEnd
