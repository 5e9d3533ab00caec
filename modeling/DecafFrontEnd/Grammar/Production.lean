/-
  DecafFrontEnd/Grammar/Production.lean --- what each rule stands for.

  The grammar is data: `Rule.body` gives every rule a `Pattern`, built from
  primitive scans and other rules by sequence, ordered choice, option and
  repetition.  How a pattern is matched is the subject of `Grammar/Match.lean`.

  A bracket, a separator or the sign of assignment inside a phrase is a primitive
  scan and not a rule, so it leaves no node and is never named as expected.
-/
import DecafFrontEnd.Grammar.Rule
import DecafFrontEnd.Lexical.Trivia

set_option autoImplicit false

namespace DecafFrontEnd

/-! ## Primitive scans -/

/-- What a pattern is built from at the bottom. -/
inductive Primitive where
  /-- nothing, at the front of the text only -/
  | inputStart
  /-- nothing, at the end of the text only -/
  | inputEnd
  /-- a lexeme of one class -/
  | lexeme (t : Terminal)
  | blank
  | comment
  | wordChar
  /-- the inside of a character literal, read on its own -/
  | charBody
  /-- all trivia that follows -/
  | trivia
  deriving DecidableEq, Repr, Inhabited

/-- One character of a class. -/
def oneChar (p : Char → Bool) : List Char → Option (List Char)
  | c :: _ => if p c then some [c] else none
  | [] => none

/-- Trivia and the character after it. -/
def triviaAndChar (cs : List Char) : Option (List Char) :=
  match skipTrivia cs with
  | [] => none
  | c :: _ => some (leadingTrivia cs ++ [c])

/-- The inside of a character literal when it is not read as part of one: trivia
may then stand between the backslash and the character after it, and before a
character that stands alone. -/
def looseCharBody : List Char → Option (List Char)
  | [] => none
  | c :: cs =>
      if c = '\\' then (triviaAndChar cs).map (c :: ·)
      else if c = '\'' || isLineBreak c then none
      else triviaAndChar (c :: cs)

/-- The text that a primitive takes at a place, if it fits there. -/
def Primitive.take? (p : Primitive) (c : Cursor) : Option (List Char) :=
  match p with
  | inputStart => if c.offset = 0 then some [] else none
  | inputEnd => if c.rest = [] then some [] else none
  | lexeme t => (t.scan c.rest).map Prod.fst
  | blank => oneChar isBlank c.rest
  | comment => (scanComment c.rest).map Prod.fst
  | wordChar => oneChar isWordChar c.rest
  | charBody => looseCharBody c.rest
  | trivia => some (leadingTrivia c.rest)

/-! ## Patterns -/

/-- The right-hand sides of the grammar. -/
inductive Pattern where
  | prim (p : Primitive)
  | rule (r : Rule)
  /-- one after the other, with trivia between them -/
  | seq (p q : Pattern)
  /-- the first one that matches -/
  | alt (p q : Pattern)
  | opt (p : Pattern)
  /-- as often as it matches, with trivia between, possibly never -/
  | many (p : Pattern)
  deriving DecidableEq, Repr, Inhabited

namespace Pattern

/-- The sequence of two patterns, written `p >> q`. -/
instance : AndThen Pattern := ⟨fun p q => seq p (q ())⟩

/-- The ordered choice between two patterns, written `p <|> q`. -/
instance : OrElse Pattern := ⟨fun p q => alt p (q ())⟩

/-- A reserved word. -/
abbrev kw (k : Keyword) : Pattern := rule (.kw k)

/-- A class of lexemes that leaves a node. -/
abbrev term (t : Terminal) : Pattern := rule (.terminal t)

/-- A phrase. -/
abbrev phrase (p : Phrase) : Pattern := rule (.phrase p)

/-- A bracket, separator or sign that leaves no node. -/
abbrev mark (t : Terminal) : Pattern := prim (.lexeme t)

/-- One or more. -/
abbrev many1 (p : Pattern) : Pattern := p >> many p

/-- One or more with commas between them. -/
abbrev commaList (p : Pattern) : Pattern := p >> many (mark .comma >> p)

/-- Operands with operators between them. -/
abbrev chain (operand : Phrase) (operator : Terminal) : Pattern :=
  phrase operand >> many (term operator >> phrase operand)

end Pattern

/-! ## The grammar -/

open Pattern in
/-- What a phrase is made of. -/
def Phrase.body : Phrase → Pattern
  -- declarations
  | program => prim .inputStart >> many1 (phrase classDecl) >> rule .endOfInput
  | classDecl =>
      kw .classKw >> term .ident >> opt (phrase superclass) >> mark .lbrace >>
        many (phrase varDecl) >> many (phrase methodDecl) >> mark .rbrace
  | superclass => kw .extendsKw >> term .ident
  | varDecl => phrase typeName >> phrase varBindList >> mark .semi
  | varBindList => commaList (phrase varBind)
  | varBind => term .ident >> opt (phrase arrayMarker)
  | arrayMarker => mark .lbrack >> mark .rbrack
  | typeName => kw .intKw <|> kw .booleanKw <|> term .ident
  | methodDecl =>
      phrase returnType >> term .ident >> mark .lparen >> opt (phrase paramList) >>
        mark .rparen >> phrase block
  | returnType => kw .voidKw <|> phrase typeName
  | paramList => commaList (phrase param)
  | param => phrase typeName >> term .ident >> opt (phrase arrayMarker)
  | block => mark .lbrace >> many (phrase varDecl) >> many (phrase statement) >> mark .rbrace
  -- statements
  | statement =>
      phrase assignStmt <|> phrase expressionStmt <|> phrase ifStmt <|>
        phrase whileStmt <|> phrase returnStmt
  | assignStmt => phrase location >> mark .assign >> phrase expr >> mark .semi
  | expressionStmt => phrase callExpr >> mark .semi
  | ifStmt =>
      kw .ifKw >> mark .lparen >> phrase expr >> mark .rparen >> phrase block >>
        opt (phrase elseBranch)
  | elseBranch => kw .elseKw >> phrase block
  | whileStmt =>
      kw .whileKw >> mark .lparen >> phrase expr >> mark .rparen >> phrase block
  | returnStmt => kw .returnKw >> opt (phrase expr) >> mark .semi
  -- calls and locations
  | callExpr => phrase methodCall <|> phrase primCallout
  | methodCall =>
      phrase location >> mark .lparen >> opt (phrase argList) >> mark .rparen
  | argList => commaList (phrase expr)
  | primCallout =>
      kw .calloutKw >> mark .lparen >> term .stringLit >>
        many (mark .comma >> phrase calloutArg) >> mark .rparen
  | calloutArg => term .stringLit <|> phrase expr
  | location => term .ident >> many (phrase fieldAccess <|> phrase indexAccess)
  | fieldAccess => mark .dot >> term .ident
  | indexAccess => mark .lbrack >> phrase expr >> mark .rbrack
  -- expressions, the loosest binding first
  | expr => phrase orExpr
  | orExpr => chain andExpr .orOp
  | andExpr => chain eqExpr .andOp
  | eqExpr => chain relExpr .eqOp
  | relExpr => chain addExpr .relOp
  | addExpr => chain mulExpr .addOp
  | mulExpr => chain unaryExpr .mulOp
  | unaryExpr => phrase notExpr <|> phrase primary
  | notExpr => term .notOp >> phrase unaryExpr
  | primary =>
      phrase parenExpr <|> phrase newObject <|> phrase newArray <|> phrase literal <|>
        phrase simpleExpr
  | parenExpr => mark .lparen >> phrase expr >> mark .rparen
  | newObject => kw .newKw >> term .ident >> mark .lparen >> mark .rparen
  | newArray =>
      kw .newKw >> phrase typeName >> mark .lbrack >> phrase expr >> mark .rbrack
  | simpleExpr => kw .thisKw <|> phrase methodCall <|> phrase location
  | literal => term .intLit <|> term .charLit <|> phrase boolLit <|> phrase nullLit
  | boolLit => kw .trueKw <|> kw .falseKw
  | nullLit => kw .nullKw

open Pattern in
/-- What a rule is made of. -/
def Rule.body : Rule → Pattern
  | endOfInput => prim .inputEnd
  | blank => prim .blank
  | comment => prim .comment
  | wordChar => prim .wordChar
  | terminal t => prim (.lexeme t)
  | anyKeyword =>
      Pattern.kw .booleanKw <|> Pattern.kw .calloutKw <|> Pattern.kw .classKw <|>
      Pattern.kw .elseKw <|> Pattern.kw .extendsKw <|> Pattern.kw .falseKw <|>
      Pattern.kw .ifKw <|> Pattern.kw .intKw <|> Pattern.kw .newKw <|>
      Pattern.kw .nullKw <|> Pattern.kw .returnKw <|> Pattern.kw .thisKw <|>
      Pattern.kw .trueKw <|> Pattern.kw .voidKw <|> Pattern.kw .whileKw
  | charBody => prim .charBody
  | operator =>
      term .orOp <|> term .andOp <|> term .eqOp <|> term .relOp <|> term .addOp <|>
      term .mulOp <|> term .notOp <|> term .assign
  | punctuation =>
      term .lparen <|> term .rparen <|> term .lbrace <|> term .rbrace <|>
      term .lbrack <|> term .rbrack <|> term .semi <|> term .comma <|> term .dot
  | lexeme =>
      rule anyKeyword <|> term .intLit <|> term .charLit <|> term .stringLit <|>
      term .ident <|> rule operator <|> rule punctuation
  | trivia => prim .trivia
  | phrase p => p.body

end DecafFrontEnd
