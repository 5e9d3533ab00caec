/-
  DecafFrontEnd/Text/Wrap.lean --- a text in lines of limited width.

  A line of the text is divided where a line may end, and words with a hyphen
  between letters after the hyphen.  What is still wider than a line is cut at the
  last character that fits.  The pieces are then put on lines from left to right:
  each goes on the current line if it fits there, else it begins the next one.
  Spaces where a line ends are left out; apart from that nothing is lost, as each
  division keeps all characters (`flatten_words`, `flatten_hyphenated`).

  This is how the report of a file that cannot be read is laid out
  (`ReadFault.print`).  A library of graphical reports, miette, draws that report;
  this module, `Text/Width.lean` and `Text/LineBreak` stand for what it makes of the
  two sentences in it.  Nothing else of the library is here: it can also draw the
  text around an error of compilation, which is left out.
-/
import DecafFrontEnd.Text.Alphanumeric
import DecafFrontEnd.Text.LineBreak.Opportunity
import DecafFrontEnd.Text.Split
import DecafFrontEnd.Text.Width

set_option autoImplicit false

namespace DecafFrontEnd

/-! ## Words -/

/-- The mark of a place where a word may be divided. -/
def softHyphen : Char := '\u00ad'

/-- A list of answers in which the last one that is `true` is not. -/
def withoutLastTrue : List Bool → List Bool
  | [] => []
  | b :: bs => if bs.any id then b :: withoutLastTrue bs else false :: bs

/-- For each character of a line, whether a word ends after it. Hyphens are left to
`hyphenated`. The last place found is that after the whole line, unless the line ends
in a hyphen; it does not count. -/
def wordEnds (cs : List Char) : List Bool :=
  let breaks := (lineBreaks cs).drop 1 ++ [true]
  withoutLastTrue <|
    (cs.zip breaks).map fun (c, b) => b && c != '-' && c != softHyphen

/-- Joins glyphs to words, given for each shown character whether a word ends after
it; `word` is what the current word has so far. -/
def wordsFrom (word : List Char) : List Glyph → List Bool → List (List Char)
  | [], _ => if word.isEmpty then [] else [word]
  | .control cs :: gs, ends => wordsFrom (word ++ cs) gs ends
  | .shown c :: gs, [] => wordsFrom (word ++ [c]) gs []
  | .shown c :: gs, b :: ends =>
      if b then (word ++ [c]) :: wordsFrom [] gs ends else wordsFrom (word ++ [c]) gs ends

/-- The words of a line, each with the spaces behind it. Control sequences do not
count as text. -/
def words (line : List Char) : List (List Char) :=
  let glyphs := Glyph.split line
  let shown := glyphs.filterMap fun
    | .shown c => some c
    | .control _ => none
  wordsFrom [] glyphs (wordEnds shown)

theorem flatten_wordsFrom (word : List Char) (gs : List Glyph) (ends : List Bool) :
    (wordsFrom word gs ends).flatten = word ++ gs.flatMap Glyph.chars := by
  fun_induction wordsFrom word gs ends <;> simp_all [Glyph.chars]

/-- The words of a line make up the line. -/
theorem flatten_words (line : List Char) : (words line).flatten = line := by
  simp [words, flatten_wordsFrom, Glyph.flatMap_chars_split]

/-! ## Pieces -/

/-- A part of a line that is not divided, and the spaces behind it. -/
structure Piece where
  text : List Char
  spaces : List Char
  deriving DecidableEq, Repr, Inhabited

namespace Piece

/-- A piece from its characters. -/
def ofChars (cs : List Char) : Piece :=
  let reversed := cs.reverse
  ⟨(reversed.dropWhile (· = ' ')).reverse, (reversed.takeWhile (· = ' ')).reverse⟩

/-- Number of columns of a piece without its spaces. -/
def width (p : Piece) : Nat := textWidth p.text

/-- Gives a piece's spaces to the last of its parts. -/
def ofParts (spaces : List Char) : List (List Char) → List Piece
  | [] => []
  | [part] => [⟨part, spaces⟩]
  | part :: parts => ⟨part, []⟩ :: ofParts spaces parts

end Piece

/-- Divides a word after each hyphen that stands between letters or numbers;
`before` is the character in front, `part` what the current part has so far. -/
def hyphenatedFrom (before : Option Char) (part : List Char) : List Char → List (List Char)
  | [] => [part]
  | c :: cs =>
      if c = '-' && before.any isAlphanumeric && cs.head?.any isAlphanumeric then
        (part ++ [c]) :: hyphenatedFrom (some c) [] cs
      else hyphenatedFrom (some c) (part ++ [c]) cs

/-- Divides a word after each hyphen that stands between letters or numbers. -/
def hyphenated (word : List Char) : List (List Char) := hyphenatedFrom none [] word

theorem flatten_hyphenatedFrom (before : Option Char) (part cs : List Char) :
    (hyphenatedFrom before part cs).flatten = part ++ cs := by
  fun_induction hyphenatedFrom before part cs <;> simp_all

/-- The parts of a word make up the word. -/
theorem flatten_hyphenated (word : List Char) : (hyphenated word).flatten = word := by
  simp [hyphenated, flatten_hyphenatedFrom]

/-- Cuts glyphs into parts of at most `room` columns; `part` is the current part,
which takes `width` columns. -/
def cutFrom (room : Nat) (part : List Char) (width : Nat) : List Glyph → List (List Char)
  | [] => if part.isEmpty then [] else [part]
  | g :: gs =>
      if 0 < width && 0 < g.width && room < width + g.width then
        part :: cutFrom room g.chars g.width gs
      else cutFrom room (part ++ g.chars) (width + g.width) gs

/-- The pieces of a line, none of them wider than `room` columns unless a single
character is. -/
def pieces (room : Nat) (line : List Char) : List Piece :=
  (words line).flatMap fun word =>
    let whole := Piece.ofChars word
    (Piece.ofParts whole.spaces (hyphenated whole.text)).flatMap fun p =>
      if room < p.width then Piece.ofParts p.spaces (cutFrom room [] 0 (Glyph.split p.text))
      else [p]

/-! ## Lines -/

/-- Puts pieces on lines of `room` columns; `line` is the current line, which takes
`width` columns. -/
def linesFrom (room : Nat) (line : List Piece) (width : Nat) : List Piece → List (List Piece)
  | [] => [line]
  | p :: ps =>
      if !line.isEmpty && room < width + p.width then
        line :: linesFrom room [p] (p.width + p.spaces.length) ps
      else linesFrom room (line ++ [p]) (width + p.width + p.spaces.length) ps

/-- The characters of a line; the spaces at its end are left out. -/
def lineChars : List Piece → List Char
  | [] => []
  | [p] => p.text
  | p :: ps => p.text ++ p.spaces ++ lineChars ps

/-- Writes a text in lines of at most `width` columns, the first one after `first`
and the others after `rest`, which take as many columns. -/
def wrapText (width : Nat) (first rest : String) (text : String) : String :=
  let room := width - textWidth rest.toList
  let lines := (splitAtEach '\n' text.toList).flatMap fun line =>
    (linesFrom room [] 0 (pieces room line)).map lineChars
  match lines with
  | [] => first
  | line :: lines =>
      first ++ String.ofList line ++
        String.join (lines.map fun l => "\n" ++ rest ++ String.ofList l)

end DecafFrontEnd
