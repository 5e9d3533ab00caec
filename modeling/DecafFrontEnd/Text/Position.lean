/-
  DecafFrontEnd/Text/Position.lean --- lines, columns and the texts they are in.

  A `Position` says where a construct begins: the line, counted from one, the
  column, counted from zero in characters, and the byte offset.  Lines end at
  the line feed and at nothing else.  A `LineIndex` keeps the offsets at which
  lines start, so that the line of an offset is the number of starts that do not
  lie after it.  A `Source` is a text under its name together with its index,
  and a `Span` is a range of its bytes.
-/
import DecafFrontEnd.Text.Utf8

set_option autoImplicit false

namespace DecafFrontEnd

/-! ## Line starts -/

/-- The byte offsets at which the lines of a text begin, in order. -/
structure LineIndex where
  starts : List Nat
  deriving DecidableEq, Repr, Inhabited

namespace LineIndex

/-- The offset after each line feed of a text that begins at `offset`. -/
def startsAfter : Nat → List Char → List Nat
  | _, [] => []
  | offset, c :: cs =>
      let next := offset + c.utf8Size
      if c = '\n' then next :: startsAfter next cs else startsAfter next cs

/-- The index of a text: its first line starts at zero. -/
def ofText (cs : List Char) : LineIndex := ⟨0 :: startsAfter 0 cs⟩

/-- Number of lines; a text without a line feed has one. -/
def lineCount (index : LineIndex) : Nat := index.starts.length

/-- Number of line starts that are not after `offset`, which is the number of
the line that `offset` lies in. -/
def lineOf (index : LineIndex) (offset : Nat) : Nat :=
  (index.starts.takeWhile (· ≤ offset)).length

/-- The offset at which line number `line` starts. -/
def startOf (index : LineIndex) (line : Nat) : Nat :=
  (index.starts[line - 1]?).getD 0

/-- Line and column of a byte offset; an offset inside a character counts as
the start of that character, one past the end as the end. -/
def lineColumn (index : LineIndex) (cs : List Char) (offset : Nat) : Nat × Nat :=
  let offset := floorBoundary cs offset
  let line := index.lineOf offset
  let start := index.startOf line
  (line, (takeBytes (offset - start) (dropBytes start cs)).length)

end LineIndex

/-! ## Positions -/

/-- The name shown for a text that has none. -/
def unknownName : String := "<unknown>"

/-- Where a construct begins. -/
structure Position where
  /-- name of the text, absent for a text that has none -/
  sourceName : Option String
  /-- counted from one -/
  line : Nat
  /-- counted from zero, in characters -/
  column : Nat
  /-- counted from zero, in bytes -/
  offset : Nat
  deriving DecidableEq, Repr, Inhabited

namespace Position

/-- Position of a byte offset, found through the index of the text. -/
def locate (cs : List Char) (index : LineIndex) (offset : Nat)
    (sourceName : Option String) : Position :=
  let offset := floorBoundary cs offset
  let (line, column) := index.lineColumn cs offset
  { sourceName, line, column, offset }

/-- Position of a byte offset in a text whose index is not at hand. -/
def atOffset (cs : List Char) (offset : Nat) (sourceName : Option String) : Position :=
  locate cs (LineIndex.ofText cs) offset sourceName

/-- The name shown in reports. -/
def displayName (p : Position) : String := p.sourceName.getD unknownName

/-- A position in one line: name, line and column between colons. -/
def display (p : Position) : String :=
  p.displayName ++ ":" ++ toString p.line ++ ":" ++ toString p.column

end Position

/-! ## Sources and spans -/

/-- A text under its name, with the index of its lines. -/
structure Source where
  name : Option String
  chars : List Char
  lines : LineIndex
  /-- the index belongs to the text -/
  lines_eq : lines = LineIndex.ofText chars := by rfl
  deriving DecidableEq, Repr

namespace Source

/-- A text and the name it is reported under. -/
def ofText (text : String) (name : Option String) : Source :=
  { name, chars := text.toList, lines := LineIndex.ofText text.toList }

/-- Number of bytes of the text. -/
def size (s : Source) : Nat := byteLength s.chars

/-- The name shown in reports. -/
def displayName (s : Source) : String := s.name.getD unknownName

/-- Position of a byte offset. -/
def positionAt (s : Source) (offset : Nat) : Position :=
  Position.locate s.chars s.lines offset s.name

/-- The characters between two byte offsets. -/
def slice (s : Source) (start stop : Nat) : List Char :=
  takeBytes (stop - start) (dropBytes start s.chars)

end Source

/-- A range of bytes of a text. -/
structure Span where
  offset : Nat
  length : Nat
  deriving DecidableEq, Repr, Inhabited

namespace Span

/-- The part of a range that lies within a text of `size` bytes. -/
def clamp (size : Nat) (span : Span) : Span :=
  let offset := if span.offset ≤ size then span.offset else size
  let room := size - offset
  ⟨offset, if span.length ≤ room then span.length else room⟩

theorem clamp_within (size : Nat) (span : Span) :
    (span.clamp size).offset + (span.clamp size).length ≤ size := by
  simp only [clamp]
  split <;> split <;> omega

end Span

end DecafFrontEnd
