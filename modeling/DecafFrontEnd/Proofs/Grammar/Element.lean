/-
  DecafFrontEnd/Proofs/Grammar/Element.lean --- the grammar down to single characters.

  `Rule.body` takes a lexeme, a comment or all trivia at a place in one primitive scan.
  Here the scans are written out: an `Element` is made of single characters, of rules,
  and of lookaheads, and `Rule.element` gives every rule such a right-hand side.  The
  reserved words that a name must not be, the characters of a word and the insides of
  quotes are then rules called by rules, as the phrases are.

  SPACING.  Between two parts of a phrase, and in front of each round of a repetition
  behind the first, there may be trivia, which is itself matched by rules
  (`Element.between`).  The rules for words, for literals and for trivia are tight: nothing
  may stand between their parts, nor between those of the rules that they call, and these
  leave neither nodes nor attempts.

  DEPTH.  `Rule.evaluateWithin` matches a rule by its element with at most a given number
  of rules nested in one another.  Unlike in `Rule.matchWithin`, the rules of lexemes and
  of trivia count.
-/
import DecafFrontEnd.Grammar.Match

set_option autoImplicit false

namespace DecafFrontEnd

/-! ## Elements -/

/-- What the right-hand sides are made of when nothing is left to a scan. -/
inductive Element where
  | inputStart
  | inputEnd
  /-- these characters -/
  | word (text : List Char)
  /-- one character of a class -/
  | one (p : Char → Bool)
  | rule (r : Rule)
  /-- one after the other -/
  | seq (p q : Element)
  /-- the first one that matches -/
  | alt (p q : Element)
  | opt (p : Element)
  /-- as often as it matches, possibly never -/
  | many (p : Element)
  /-- nothing, at a place where the element does not match -/
  | without (p : Element)

namespace Element

/-- The sequence of two elements, written `p >> q`. -/
instance : AndThen Element := ⟨fun p q => seq p (q ())⟩

/-- The ordered choice between two elements, written `p <|> q`. -/
instance : OrElse Element := ⟨fun p q => alt p (q ())⟩

/-! ## Lexemes and trivia written out -/

/-- Any character. -/
def any : Element := one fun _ => true

/-- The end of a line. -/
def lineEnd : Element := word ['\n'] <|> word ['\r', '\n'] <|> word ['\r']

/-- A backslash and the character behind it. -/
def escape : Element := word ['\\'] >> without lineEnd >> any

/-- A character that stands for itself between quotes. -/
def plain (quote : Char) : Element :=
  without (word [quote] <|> word ['\\'] <|> lineEnd) >> any

/-- One character between quotes, or a backslash and a character. -/
def inside (quote : Char) : Element := escape <|> plain quote

/-- The first of several spellings that fits. -/
def anyOf : List (List Char) → Element
  | [] => without (word [])
  | [w] => word w
  | w :: v :: ws => word w <|> anyOf (v :: ws)

/-- All that may stand between two parts of a phrase. -/
def between : Element :=
  many (rule .blank) >> many (rule .comment >> many (rule .blank))

end Element

open Element in
/-- A class of lexemes, written out. -/
def Terminal.element : Terminal → Element
  | keyword k => word k.spelling.toList >> without (rule .wordChar)
  | ident =>
      without (rule .anyKeyword) >> (one Char.isAlpha <|> word ['_']) >> many (rule .wordChar)
  | intLit => one Char.isDigit >> many (one Char.isDigit)
  | charLit => word ['\''] >> rule .charBody >> word ['\'']
  | stringLit => word ['"'] >> many (inside '"') >> word ['"']
  | t => anyOf t.spellings

open Element in
/-- A primitive scan, written out. -/
def Primitive.element : Primitive → Element
  | inputStart => .inputStart
  | inputEnd => .inputEnd
  | lexeme t => t.element
  | blank => word [' '] <|> word ['\t'] <|> word ['\r'] <|> word ['\n']
  | comment => word ['/', '/'] >> many (without lineEnd >> any)
  | wordChar => one Char.isAlphanum <|> word ['_']
  | charBody => inside '\''
  | trivia => many (rule .blank <|> rule .comment)

/-- A pattern with its primitive scans written out. -/
def Pattern.element : Pattern → Element
  | prim p => p.element
  | rule r => .rule r
  | seq p q => .seq p.element q.element
  | alt p q => .alt p.element q.element
  | opt p => .opt p.element
  | many p => .many p.element

namespace Rule

/-- What a rule is made of, down to single characters. -/
def element (r : Rule) : Element := r.body.element

/-- Whether nothing may stand between the parts of a rule. -/
def isTight : Rule → Bool
  | blank | comment | trivia => true
  | terminal t => match t with
      | .keyword _ | .ident | .intLit | .charLit | .stringLit => true
      | _ => false
  | _ => false

end Rule

/-! ## Matching element by element -/

/-- Whether trivia may stand between parts. -/
inductive Spacing where
  | tight
  | spaced
  deriving DecidableEq, Repr, Inhabited

/-- The spacing within a rule that is called with a spacing: a tight rule makes all of
its parts tight. -/
def Spacing.within (s : Spacing) (r : Rule) : Spacing := if r.isTight then tight else s

namespace Matcher

/-- Matches nothing. -/
def nothing : Matcher := fun c a => .matched [] c a

/-- A match behind another one that leaves no nodes. -/
def behind (gap step : Matcher) : Matcher := fun c a =>
  match gap c a with
  | .matched _ d b => step d b
  | other => other

/-- Repeats a match. What the round that fails has taken is given back. -/
def again (step : Matcher) : Nat → List Tree → Matcher
  | 0, _, _, _ => .unfinished
  | rounds + 1, nodes, c, a =>
      match step c a with
      | .matched more d b => again step rounds (nodes ++ more) d b
      | .failed b => .matched nodes c b
      | .unfinished => .unfinished

end Matcher

/-- Matches an element, given how rules are matched and what stands between parts. A
lookahead leaves neither nodes nor attempts. -/
def Element.evaluate (call : Rule → Matcher) (gap : Matcher) : Element → Matcher
  | inputStart, c, a => if c.offset = 0 then .matched [] c a else .failed a
  | inputEnd, c, a => if c.rest = [] then .matched [] c a else .failed a
  | word w, c, a =>
      if w.isPrefixOf c.rest then .matched [] (c.advance w.length) a else .failed a
  | one p, c, a =>
      if c.rest.head?.any p then .matched [] (c.advance 1) a else .failed a
  | rule r, c, a => call r c a
  | seq p q, c, a =>
      match p.evaluate call gap c a with
      | .matched first d b =>
          match gap.behind (q.evaluate call gap) d b with
          | .matched second e b' => .matched (first ++ second) e b'
          | other => other
      | other => other
  | alt p q, c, a =>
      match p.evaluate call gap c a with
      | .failed b => q.evaluate call gap c b
      | other => other
  | opt p, c, a =>
      match p.evaluate call gap c a with
      | .failed b => .matched [] c b
      | other => other
  | many p, c, a =>
      match p.evaluate call gap c a with
      | .matched nodes d b =>
          Matcher.again (gap.behind (p.evaluate call gap)) (d.rest.length + 1) nodes d b
      | .failed b => .matched [] c b
      | .unfinished => .unfinished
  | without p, c, a =>
      match p.evaluate call gap c a with
      | .matched _ _ _ => .failed a
      | .failed _ => .matched [] c a
      | .unfinished => .unfinished

/-- Matches what stands between two parts. -/
def Spacing.gap (calls : Spacing → Rule → Matcher) : Spacing → Matcher
  | tight => .nothing
  | spaced => Element.between.evaluate (calls tight) .nothing

/-- Matches an element with a spacing. -/
def Element.evaluateIn (calls : Spacing → Rule → Matcher) (s : Spacing) (e : Element) :
    Matcher := e.evaluate (calls s) (s.gap calls)

/-- Wraps the match of a rule's element. Within a tight rule it leaves no trace. -/
def Spacing.wrap (s : Spacing) (r : Rule) (body : Matcher) : Matcher :=
  match s with
  | tight => body
  | spaced => r.wrap body

/-- Matches a rule by its element with at most `depth` rules nested in one another. -/
def Rule.evaluateWithin : Nat → Spacing → Rule → Matcher
  | 0, _, _ => fun _ _ => .unfinished
  | depth + 1, s, r =>
      s.wrap r (r.element.evaluateIn (evaluateWithin depth) (s.within r))

end DecafFrontEnd
