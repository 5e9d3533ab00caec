/-
  DecafFrontEnd/Lexical/Token.lean --- the tokens of a text.

  A text is a sequence of lexemes with trivia between them.  `tokenize` gives one
  token per lexeme and a last token at the end of the text, or the first place
  at which neither trivia nor a lexeme starts.  `tokenAt` gives the lexeme that
  starts at one offset, and `contentEnd` the place at which the last lexeme of a
  range ends, so that trivia at the end of the range is left out.

  No lexeme runs over a line end.  The scans are therefore made on the rest of
  the current line only, and trivia that fills a line is followed into the next
  one.  How much of the text a scan sees is the argument `view` of the
  definitions whose names end in `By`: `lineRest` here.
-/
import DecafFrontEnd.Text.Position
import DecafFrontEnd.Lexical.Trivia

set_option autoImplicit false

namespace DecafFrontEnd

/-! ## Lexemes -/

/-- A class and the text of that class found at some place. -/
structure Lexeme where
  terminal : Terminal
  text : List Char
  deriving DecidableEq, Repr, Inhabited

/-- The lexeme at the front of a text. -/
def Lexeme.first? (cs : List Char) : Option Lexeme :=
  Terminal.order.findSome? fun t => (t.scan cs).map fun (text, _) => ⟨t, text⟩

theorem Lexeme.ne_nil_of_first? {cs : List Char} {l : Lexeme} (h : first? cs = some l) :
    l.text ≠ [] := by
  obtain ⟨t, _, ht⟩ := List.exists_of_findSome?_eq_some h
  obtain ⟨⟨text, r⟩, hs, rfl⟩ := Option.map_eq_some_iff.1 ht
  exact Terminal.ne_nil_of_scan hs

/-- What a scan sees of the characters from some place on. -/
abbrev View : Type := List Char → List Char

/-- The rest of the line, its line feed included. -/
def lineRest : View
  | [] => []
  | c :: cs => if c = '\n' then [c] else c :: lineRest cs

/-- The lexeme at the front of what `view` shows of a text. -/
def lexemeBy (view : View) : List Char → Option Lexeme
  | [] => none
  | c :: cs => Lexeme.first? (view (c :: cs))

theorem ne_nil_of_lexemeBy {view : View} {cs : List Char} {l : Lexeme}
    (h : lexemeBy view cs = some l) : cs ≠ [] ∧ l.text ≠ [] := by
  cases cs with
  | nil => exact absurd h (by simp [lexemeBy])
  | cons c cs => exact ⟨by simp, Lexeme.ne_nil_of_first? h⟩

/-! ## Trivia, one view at a time -/

/-- The place after the trivia that begins here. A view that shows nothing but
trivia is followed by the next one. -/
def Cursor.skipBy (view : View) (c : Cursor) : Cursor :=
  let skipped := (leadingTrivia (view c.rest)).length
  if 0 < skipped ∧ c.rest ≠ [] then
    if skipped < (view c.rest).length then c.advance skipped
    else (c.advance skipped).skipBy view
  else c
termination_by c.rest.length
decreasing_by
  next h _ =>
    have := List.length_pos_iff.2 h.2
    simp only [rest_advance, List.length_drop]
    omega

theorem Cursor.length_rest_skipBy_le (view : View) (c : Cursor) :
    (c.skipBy view).rest.length ≤ c.rest.length := by
  fun_induction Cursor.skipBy view c with
  | case1 => simp
  | case2 c skipped h _ ih =>
      simp only [rest_advance, List.length_drop] at ih
      omega
  | case3 => exact Nat.le_refl _

/-- Moving over a lexeme and the trivia behind it shortens the rest. -/
theorem Cursor.length_rest_next_lt {view : View} {c : Cursor} {l : Lexeme}
    (h : lexemeBy view c.rest = some l) :
    ((c.advance l.text.length).skipBy view).rest.length < c.rest.length := by
  obtain ⟨hr, ht⟩ := ne_nil_of_lexemeBy h
  have h1 := length_rest_skipBy_le view (c.advance l.text.length)
  have h2 := List.length_pos_iff.2 hr
  have h3 := List.length_pos_iff.2 ht
  simp only [rest_advance, List.length_drop] at h1
  omega

/-! ## Tokens -/

/-- The kinds of tokens: the classes of lexemes with the operators told apart,
and the end of the text. -/
inductive TokenKind where
  | keyword (k : Keyword)
  | ident | intLit | charLit | stringLit
  | lparen | rparen | lbrace | rbrace | lbrack | rbrack | semi | comma | dot
  | not | plus | minus | mult | div | leq | geq | lt | gt | eq | neq | and | or | assign
  | eof
  deriving DecidableEq, Repr, Inhabited

namespace TokenKind

/-- The kind of a lexeme. -/
def ofLexeme (l : Lexeme) : TokenKind :=
  match l.terminal with
  | .keyword k => keyword k
  | .ident => ident
  | .intLit => intLit
  | .charLit => charLit
  | .stringLit => stringLit
  | .orOp => or
  | .andOp => and
  | .eqOp => if l.text = ['=', '='] then eq else neq
  | .relOp =>
      if l.text = ['<', '='] then leq
      else if l.text = ['>', '='] then geq
      else if l.text = ['<'] then lt
      else gt
  | .addOp => if l.text = ['+'] then plus else minus
  | .mulOp => if l.text = ['*'] then mult else div
  | .notOp => not
  | .assign => assign
  | .lparen => lparen
  | .rparen => rparen
  | .lbrace => lbrace
  | .rbrace => rbrace
  | .lbrack => lbrack
  | .rbrack => rbrack
  | .semi => semi
  | .comma => comma
  | .dot => dot

/-- The name under which a kind is listed. -/
def name : TokenKind → String
  | keyword .booleanKw => "Boolean"
  | keyword .calloutKw => "Callout"
  | keyword .classKw => "Class"
  | keyword .elseKw => "Else"
  | keyword .extendsKw => "Extends"
  | keyword .falseKw => "False"
  | keyword .ifKw => "If"
  | keyword .intKw => "Int"
  | keyword .newKw => "New"
  | keyword .nullKw => "Null"
  | keyword .returnKw => "Return"
  | keyword .thisKw => "This"
  | keyword .trueKw => "True"
  | keyword .voidKw => "Void"
  | keyword .whileKw => "While"
  | ident => "Ident"
  | intLit => "IntLit"
  | charLit => "CharLit"
  | stringLit => "StringLit"
  | lparen => "LParen"
  | rparen => "RParen"
  | lbrace => "LBrace"
  | rbrace => "RBrace"
  | lbrack => "LBrack"
  | rbrack => "RBrack"
  | semi => "Semi"
  | comma => "Comma"
  | dot => "Dot"
  | not => "Not"
  | plus => "Plus"
  | minus => "Minus"
  | mult => "Mult"
  | div => "Div"
  | leq => "Leq"
  | geq => "Geq"
  | lt => "Lt"
  | gt => "Gt"
  | eq => "Eq"
  | neq => "Neq"
  | and => "And"
  | or => "Or"
  | assign => "Assign"
  | eof => "Eof"

end TokenKind

/-- One lexeme of a text with the place where it starts. -/
structure Token where
  kind : TokenKind
  text : String
  offset : Nat
  line : Nat
  column : Nat
  deriving DecidableEq, Repr, Inhabited

/-- The first place of a text at which no token starts. -/
structure LexFailure where
  offset : Nat
  deriving DecidableEq, Repr, Inhabited

/-- The token of one kind and text at an offset. -/
def Source.token (s : Source) (offset : Nat) (kind : TokenKind) (text : List Char) : Token :=
  let (line, column) := s.lines.lineColumn s.chars offset
  { kind, text := String.ofList text, offset, line, column }

/-- The tokens from a place on that is not within trivia. -/
def Source.tokensFrom (s : Source) (view : View) (c : Cursor) :
    Except LexFailure (List Token) :=
  if c.rest = [] then .ok [s.token c.offset .eof []]
  else
    match _h : lexemeBy view c.rest with
    | none => .error ⟨c.offset⟩
    | some l => do
        let ts ← s.tokensFrom view ((c.advance l.text.length).skipBy view)
        .ok (s.token c.offset (.ofLexeme l) l.text :: ts)
termination_by c.rest.length
decreasing_by exact Cursor.length_rest_next_lt _h

/-- The tokens of a text, each found in what `view` shows. -/
def Source.tokenizeBy (s : Source) (view : View) : Except LexFailure (List Token) :=
  s.tokensFrom view ((Cursor.start s.chars).skipBy view)

/-- The text of the lexeme at an offset, found in what `view` shows. -/
def Source.tokenAtBy (s : Source) (view : View) (offset : Nat) : Option (List Char) :=
  if isBoundary s.chars offset then
    (lexemeBy view (dropBytes offset s.chars)).map Lexeme.text
  else none

/-- The end of the last lexeme before `limit`, from a place on. `reached` is
the end of the lexeme before that place. -/
def contentEndFrom (view : View) (limit reached : Nat) (c : Cursor) : Nat :=
  if c.offset < limit then
    match _h : lexemeBy view c.rest with
    | none => limit
    | some l =>
        let stop := c.offset + byteLength l.text
        if limit ≤ stop then limit
        else contentEndFrom view limit stop ((c.advance l.text.length).skipBy view)
  else reached
termination_by c.rest.length
decreasing_by exact Cursor.length_rest_next_lt _h

/-- The end of the last lexeme of a range, found in what `view` shows. -/
def Source.contentEndBy (s : Source) (view : View) (start limit : Nat) : Nat :=
  let limit := if limit ≤ s.size then limit else s.size
  contentEndFrom view limit start ⟨start, dropBytes start s.chars⟩

/-! ## Reading one line at a time -/

/-- The tokens of a text, the last one at its end. -/
def Source.tokenize (s : Source) : Except LexFailure (List Token) := s.tokenizeBy lineRest

/-- The text of the token that starts exactly at a byte offset. -/
def Source.tokenAt (s : Source) (offset : Nat) : Option (List Char) :=
  s.tokenAtBy lineRest offset

/-- The byte offset after the last token that starts between `start` and
`limit`, but not above `limit`. Where something there is no token, it is
`limit` itself. -/
def Source.contentEnd (s : Source) (start limit : Nat) : Nat :=
  s.contentEndBy lineRest start limit

/-- The character at which no token starts; empty at the end of the text. -/
def LexFailure.offendingText (f : LexFailure) (s : Source) : List Char :=
  (dropBytes f.offset s.chars).take 1

end DecafFrontEnd
