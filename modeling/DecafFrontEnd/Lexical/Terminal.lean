/-
  DecafFrontEnd/Lexical/Terminal.lean --- the words and marks of the language.

  A `Terminal` is a class of lexemes: one class for each keyword, one for names,
  one for each sort of literal, and one for each group of operators or mark.
  `Terminal.scan` recognises a lexeme of one class at the front of a text and
  gives back the lexeme and the rest.

  Two properties of a scan are used everywhere: it loses nothing
  (`Terminal.append_of_scan`) and what it recognises is never empty
  (`Terminal.ne_nil_of_scan`).
-/
set_option autoImplicit false

namespace DecafFrontEnd

/-! ## Character classes -/

/-- A line feed or a carriage return: the characters no lexeme runs over. -/
def isLineBreak (c : Char) : Bool := c = '\n' || c = '\r'

/-- A letter of the Latin alphabet, a decimal digit or the underscore. -/
def isWordChar (c : Char) : Bool := c.isAlphanum || c = '_'

/-- A character that a name may begin with. -/
def isNameStart (c : Char) : Bool := c.isAlpha || c = '_'

/-! ## Classes -/

/-- The reserved words. -/
inductive Keyword where
  | booleanKw | calloutKw | classKw | elseKw | extendsKw | falseKw | ifKw | intKw
  | newKw | nullKw | returnKw | thisKw | trueKw | voidKw | whileKw
  deriving DecidableEq, Repr, Inhabited

namespace Keyword

/-- The reserved words in alphabetical order. -/
def all : List Keyword :=
  [.booleanKw, .calloutKw, .classKw, .elseKw, .extendsKw, .falseKw, .ifKw, .intKw,
   .newKw, .nullKw, .returnKw, .thisKw, .trueKw, .voidKw, .whileKw]

/-- How a reserved word is written. -/
def spelling : Keyword → String
  | .booleanKw => "boolean"
  | .calloutKw => "callout"
  | .classKw => "class"
  | .elseKw => "else"
  | .extendsKw => "extends"
  | .falseKw => "false"
  | .ifKw => "if"
  | .intKw => "int"
  | .newKw => "new"
  | .nullKw => "null"
  | .returnKw => "return"
  | .thisKw => "this"
  | .trueKw => "true"
  | .voidKw => "void"
  | .whileKw => "while"

theorem mem_all (k : Keyword) : k ∈ all := by cases k <;> decide

end Keyword

/-- Whether a word is reserved. -/
def isReserved (w : List Char) : Bool := Keyword.all.any fun k => k.spelling.toList = w

/-- The classes of lexemes. -/
inductive Terminal where
  | keyword (k : Keyword)
  /-- a name: letters, digits and underscores, not starting with a digit, not reserved -/
  | ident
  | intLit
  | charLit
  | stringLit
  | orOp
  | andOp
  /-- `==` and `!=` -/
  | eqOp
  /-- `<=`, `>=`, `<` and `>` -/
  | relOp
  /-- `+` and `-` -/
  | addOp
  /-- `*` and `/` -/
  | mulOp
  | notOp
  | assign
  | lparen
  | rparen
  | lbrace
  | rbrace
  | lbrack
  | rbrack
  | semi
  | comma
  | dot
  deriving DecidableEq, Repr, Inhabited

/-! ## Scanners -/

/-- What a scan gives: the lexeme at the front of a text and what follows it. -/
abbrev Scan : Type := Option (List Char × List Char)

/-- The fixed spelling `s`. -/
def scanSpelling (s cs : List Char) : Scan :=
  if s.isPrefixOf cs then some (s, cs.drop s.length) else none

/-- The first of several spellings that fits. -/
def scanAny (ss : List (List Char)) (cs : List Char) : Scan :=
  ss.findSome? fun s => scanSpelling s cs

/-- A reserved word; a longer word that begins with it is not one. -/
def scanKeyword (k : Keyword) (cs : List Char) : Scan :=
  if cs.takeWhile isWordChar = k.spelling.toList then
    some (cs.takeWhile isWordChar, cs.dropWhile isWordChar)
  else none

/-- A name: a whole word that does not begin with a digit and is not reserved. -/
def scanName (cs : List Char) : Scan :=
  match cs.takeWhile isWordChar with
  | [] => none
  | c :: w =>
      if isNameStart c && !isReserved (c :: w) then
        some (c :: w, cs.dropWhile isWordChar)
      else none

/-- One or more decimal digits. -/
def scanDigits (cs : List Char) : Scan :=
  match cs.takeWhile Char.isDigit with
  | [] => none
  | c :: w => some (c :: w, cs.dropWhile Char.isDigit)

/-- A character between two single quotes, or a backslash and a character
between them. -/
def scanCharLit : List Char → Scan
  | '\'' :: '\\' :: c :: '\'' :: rest =>
      if isLineBreak c then none else some (['\'', '\\', c, '\''], rest)
  | '\'' :: c :: '\'' :: rest =>
      if c = '\'' || c = '\\' || isLineBreak c then none
      else some (['\'', c, '\''], rest)
  | _ => none

/-- The part of a string literal after its opening quote, the closing quote
included. A backslash takes the next character with it. -/
def scanStringTail : List Char → Scan
  | [] => none
  | '"' :: rest => some (['"'], rest)
  | '\\' :: c :: rest =>
      if isLineBreak c then none
      else (scanStringTail rest).map fun (l, r) => ('\\' :: c :: l, r)
  | c :: rest =>
      if c = '\\' || isLineBreak c then none
      else (scanStringTail rest).map fun (l, r) => (c :: l, r)

/-- Characters between double quotes. -/
def scanStringLit : List Char → Scan
  | '"' :: rest => (scanStringTail rest).map fun (l, r) => ('"' :: l, r)
  | _ => none

namespace Terminal

/-- The spellings of an operator or mark, those that begin others last. -/
def spellings : Terminal → List (List Char)
  | orOp => [['|', '|']]
  | andOp => [['&', '&']]
  | eqOp => [['=', '='], ['!', '=']]
  | relOp => [['<', '='], ['>', '='], ['<'], ['>']]
  | addOp => [['+'], ['-']]
  | mulOp => [['*'], ['/']]
  | notOp => [['!']]
  | assign => [['=']]
  | lparen => [['(']]
  | rparen => [[')']]
  | lbrace => [['\x7b']]
  | rbrace => [['\x7d']]
  | lbrack => [['[']]
  | rbrack => [[']']]
  | semi => [[';']]
  | comma => [[',']]
  | dot => [['.']]
  | keyword k => [k.spelling.toList]
  | ident | intLit | charLit | stringLit => []

/-- Recognises a lexeme of one class at the front of a text. -/
def scan : Terminal → List Char → Scan
  | keyword k => scanKeyword k
  | ident => scanName
  | intLit => scanDigits
  | charLit => scanCharLit
  | stringLit => scanStringLit
  | t => scanAny t.spellings

end Terminal

/-! ## A scan loses nothing and recognises something -/

/-- A scan result splits `cs` at a place that is not its front. -/
def Scan.Splits (cs : List Char) (s : Scan) : Prop :=
  ∀ l r, s = some (l, r) → l ++ r = cs ∧ l ≠ []

theorem scanAny_splits {ss : List (List Char)} (h : ∀ s ∈ ss, s ≠ []) (cs : List Char) :
    Scan.Splits cs (scanAny ss cs) := by
  intro l r hs
  obtain ⟨s, hmem, heq⟩ := List.exists_of_findSome?_eq_some hs
  unfold scanSpelling at heq
  split at heq
  · next hp =>
      obtain ⟨rfl, rfl⟩ : s = l ∧ cs.drop s.length = r := by simpa using heq
      obtain ⟨t, rfl⟩ := List.isPrefixOf_iff_prefix.1 hp
      exact ⟨by simp, h s hmem⟩
  · exact absurd heq (by simp)

theorem scanKeyword_splits (k : Keyword) (cs : List Char) :
    Scan.Splits cs (scanKeyword k cs) := by
  intro l r hs
  unfold scanKeyword at hs
  split at hs
  · next hw =>
      obtain ⟨rfl, rfl⟩ :
          cs.takeWhile isWordChar = l ∧ cs.dropWhile isWordChar = r := by simpa using hs
      refine ⟨List.takeWhile_append_dropWhile, ?_⟩
      rw [hw]
      cases k <;> decide
  · exact absurd hs (by simp)

theorem scanName_splits (cs : List Char) : Scan.Splits cs (scanName cs) := by
  intro l r hs
  unfold scanName at hs
  split at hs
  · exact absurd hs (by simp)
  · next c w hw =>
      split at hs
      · obtain ⟨rfl, rfl⟩ : c :: w = l ∧ cs.dropWhile isWordChar = r := by simpa using hs
        exact ⟨by rw [← hw]; exact List.takeWhile_append_dropWhile, by simp⟩
      · exact absurd hs (by simp)

theorem scanDigits_splits (cs : List Char) : Scan.Splits cs (scanDigits cs) := by
  intro l r hs
  unfold scanDigits at hs
  split at hs
  · exact absurd hs (by simp)
  · next c w hw =>
      obtain ⟨rfl, rfl⟩ : c :: w = l ∧ cs.dropWhile Char.isDigit = r := by simpa using hs
      exact ⟨by rw [← hw]; exact List.takeWhile_append_dropWhile, by simp⟩

theorem scanCharLit_splits (cs : List Char) : Scan.Splits cs (scanCharLit cs) := by
  intro l r hs
  unfold scanCharLit at hs
  split at hs
  · next c rest =>
      split at hs
      · exact absurd hs (by simp)
      · obtain ⟨rfl, rfl⟩ : ['\'', '\\', c, '\''] = l ∧ rest = r := by simpa using hs
        exact ⟨by simp, by simp⟩
  · next c rest _ =>
      split at hs
      · exact absurd hs (by simp)
      · obtain ⟨rfl, rfl⟩ : ['\'', c, '\''] = l ∧ rest = r := by simpa using hs
        exact ⟨by simp, by simp⟩
  · exact absurd hs (by simp)

theorem scanStringTail_splits (cs : List Char) : Scan.Splits cs (scanStringTail cs) := by
  fun_induction scanStringTail cs with
  | case1 => intro l r hs; exact absurd hs (by simp)
  | case2 rest =>
      intro l r hs
      obtain ⟨rfl, rfl⟩ : ['"'] = l ∧ rest = r := by simpa using hs
      exact ⟨by simp, by simp⟩
  | case3 c rest h => intro l r hs; exact absurd hs (by simp)
  | case4 c rest h ih =>
      intro l r hs
      obtain ⟨⟨l', r'⟩, heq, hlr⟩ := Option.map_eq_some_iff.1 hs
      obtain ⟨rfl, rfl⟩ : '\\' :: c :: l' = l ∧ r' = r := by simpa using hlr
      exact ⟨by simpa using (ih l' r' heq).1, by simp⟩
  | case5 c rest _ _ h => intro l r hs; exact absurd hs (by simp)
  | case6 c rest _ _ h ih =>
      intro l r hs
      obtain ⟨⟨l', r'⟩, heq, hlr⟩ := Option.map_eq_some_iff.1 hs
      obtain ⟨rfl, rfl⟩ : c :: l' = l ∧ r' = r := by simpa using hlr
      exact ⟨by simpa using (ih l' r' heq).1, by simp⟩

theorem scanStringLit_splits (cs : List Char) : Scan.Splits cs (scanStringLit cs) := by
  intro l r hs
  unfold scanStringLit at hs
  split at hs
  · next rest =>
      obtain ⟨⟨l', r'⟩, heq, hlr⟩ := Option.map_eq_some_iff.1 hs
      obtain ⟨rfl, rfl⟩ : '"' :: l' = l ∧ r' = r := by simpa using hlr
      exact ⟨by simpa using (scanStringTail_splits rest l' r' heq).1, by simp⟩
  · exact absurd hs (by simp)

namespace Terminal

theorem scan_splits (t : Terminal) (cs : List Char) : Scan.Splits cs (t.scan cs) := by
  cases t with
  | keyword k => exact scanKeyword_splits k cs
  | ident => exact scanName_splits cs
  | intLit => exact scanDigits_splits cs
  | charLit => exact scanCharLit_splits cs
  | stringLit => exact scanStringLit_splits cs
  | _ => exact scanAny_splits (by simp [spellings]) cs

/-- A lexeme and the rest make up the text. -/
theorem append_of_scan {t : Terminal} {cs l r : List Char} (h : t.scan cs = some (l, r)) :
    l ++ r = cs := (scan_splits t cs l r h).1

/-- A lexeme is not empty. -/
theorem ne_nil_of_scan {t : Terminal} {cs l r : List Char} (h : t.scan cs = some (l, r)) :
    l ≠ [] := (scan_splits t cs l r h).2

/-- The classes in the order in which a lexeme is looked for: a reserved word
is tried before a name, and a longer operator before one that begins it. -/
def order : List Terminal :=
  Keyword.all.map keyword ++
    [intLit, charLit, stringLit, ident,
     orOp, andOp, eqOp, relOp, addOp, mulOp, notOp, assign,
     lparen, rparen, lbrace, rbrace, lbrack, rbrack, semi, comma, dot]

end Terminal

end DecafFrontEnd
