/-
  DecafFrontEnd/Grammar/Match.lean --- matching a rule against a text.

  A match goes from left to right, tries the alternatives of a choice in order
  and keeps to the first one that fits.  It ends in one of two ways: with the
  nodes of the parse tree and the place that it reached, or without.  Either way
  it leaves a record of the attempts that failed furthest on in the text, which
  is what an error report is made from.

  THE FURTHEST ATTEMPTS.  The record holds one offset and the rules that failed
  there.  A rule that fails at a later offset starts the record afresh.  A rule
  that fails at the recorded offset takes the place of the rules that failed
  there on its behalf, unless that was exactly one, which then says more than the
  rule itself.

  DEPTH.  Rules refer to one another without end, so a match is bounded by the
  depth to which rules may be nested; a match that would go deeper is
  `unfinished`.  `Rule.matchAt` allows every rule once for each character that is
  left.
-/
import DecafFrontEnd.Text.Position
import DecafFrontEnd.Grammar.Production

set_option autoImplicit false

namespace DecafFrontEnd

/-! ## Parse trees -/

/-- A rule that matched, the text it took and the nodes of the rules within. -/
inductive Tree where
  | node (rule : Rule) (start : Nat) (text : List Char) (children : List Tree)
  deriving Repr, Inhabited

namespace Tree

/-- The rule that matched. -/
def rule : Tree → Rule
  | node r _ _ _ => r

/-- The byte offset at which the text starts. -/
def start : Tree → Nat
  | node _ start _ _ => start

/-- The text that the rule took. -/
def text : Tree → List Char
  | node _ _ text _ => text

/-- The nodes of the rules within, in order. -/
def children : Tree → List Tree
  | node _ _ _ children => children

/-- The byte offset at which the text ends. -/
def stop (t : Tree) : Nat := t.start + byteLength t.text

/-- The text as a string. -/
def string (t : Tree) : String := String.ofList t.text

/-- The range of bytes of the text. -/
def span (t : Tree) : Span := ⟨t.start, byteLength t.text⟩

mutual

/-- A tree as a list of its nodes with their depths, each before its children. -/
def listing (depth : Nat) : Tree → List (Nat × Rule × Nat × Nat)
  | node r start text children =>
      (depth, r, start, start + byteLength text) :: listings (depth + 1) children

/-- The listings of several trees, one after the other. -/
def listings (depth : Nat) : List Tree → List (Nat × Rule × Nat × Nat)
  | [] => []
  | t :: ts => listing depth t ++ listings depth ts

end

end Tree

/-! ## The furthest attempts -/

/-- The furthest offset at which a rule failed and the rules that did. -/
structure Attempts where
  offset : Nat
  rules : List Rule
  deriving DecidableEq, Repr, Inhabited

namespace Attempts

/-- No rule has failed. -/
def none : Attempts := ⟨0, []⟩

/-- Number of rules recorded at an offset. -/
def countAt (a : Attempts) (offset : Nat) : Nat :=
  if a.offset = offset then a.rules.length else 0

/-- Records that a rule failed at an offset, when `before` rules were recorded
there as it began. -/
def record (a : Attempts) (r : Rule) (offset before : Nat) : Attempts :=
  if a.countAt offset = before + 1 then a
  else if a.offset = offset then ⟨offset, a.rules.take before ++ [r]⟩
  else if a.offset < offset then ⟨offset, [r]⟩
  else a

/-- The recorded rules in the order of the grammar, each once. -/
def expected (a : Attempts) : List Rule := Rule.all.filter fun r => a.rules.contains r

end Attempts

/-! ## Matching -/

/-- How a match ends. -/
inductive Outcome where
  | matched (nodes : List Tree) (place : Cursor) (attempts : Attempts)
  | failed (attempts : Attempts)
  /-- the match would nest too many rules -/
  | unfinished
  deriving Repr, Inhabited

/-- A match from a place on, with the attempts made before it. -/
abbrev Matcher : Type := Cursor → Attempts → Outcome

/-- Repeats a match with trivia before each round. The trivia before the round
that fails is given back. -/
def repeatAfter (step : Matcher) : Nat → List Tree → Matcher
  | 0, _, _, _ => .unfinished
  | rounds + 1, nodes, c, a =>
      match step c.skip a with
      | .matched more c' a' => repeatAfter step rounds (nodes ++ more) c' a'
      | .failed a' => .matched nodes c a'
      | .unfinished => .unfinished

/-- Matches a pattern, given how rules are matched. -/
def Pattern.matchWith (call : Rule → Matcher) : Pattern → Matcher
  | prim p, c, a =>
      match p.take? c with
      | some text => .matched [] (c.advance text.length) a
      | none => .failed a
  | rule r, c, a => call r c a
  | seq p q, c, a =>
      match p.matchWith call c a with
      | .matched first c' a' =>
          match q.matchWith call c'.skip a' with
          | .matched second c'' a'' => .matched (first ++ second) c'' a''
          | other => other
      | other => other
  | alt p q, c, a =>
      match p.matchWith call c a with
      | .failed a' => q.matchWith call c a'
      | other => other
  | opt p, c, a =>
      match p.matchWith call c a with
      | .failed a' => .matched [] c a'
      | other => other
  | many p, c, a =>
      match p.matchWith call c a with
      | .matched nodes c' a' =>
          repeatAfter (p.matchWith call) (c'.rest.length + 1) nodes c' a'
      | .failed a' => .matched [] c a'
      | .unfinished => .unfinished

/-- Wraps the match of a rule's body: a match becomes one node, a failure is
recorded, and a silent rule leaves neither. -/
def Rule.wrap (r : Rule) (body : Matcher) : Matcher := fun c a =>
  match body c a with
  | .matched nodes c' a' =>
      if r.isSilent then .matched nodes c' a'
      else
        let text := takeBytes (c'.offset - c.offset) c.rest
        .matched [.node r c.offset text nodes] c' a'
  | .failed a' =>
      .failed (if r.isSilent then a' else a'.record r c.offset (a.countAt c.offset))
  | .unfinished => .unfinished

/-- Matches a rule with at most `depth` rules nested in one another. -/
def Rule.matchWithin : Nat → Rule → Matcher
  | 0, _ => fun _ _ => .unfinished
  | depth + 1, r => r.wrap (r.body.matchWith (matchWithin depth))

/-- A depth that no match at a place with `n` characters left goes beyond. -/
def Rule.depthBound (n : Nat) : Nat := Rule.all.length * (n + 1)

/-- Matches a rule at a place. -/
def Rule.matchAt (r : Rule) (c : Cursor) : Outcome :=
  r.matchWithin (Rule.depthBound c.rest.length) c Attempts.none

/-! ## Parsing a text -/

/-- The trees of a rule matched at the front of a text, or the furthest
attempts. The rule need not take all of the text. -/
def Source.parseRule (s : Source) (r : Rule) : Except Attempts (List Tree) :=
  match r.matchAt (Cursor.start s.chars) with
  | .matched nodes _ _ => .ok nodes
  | .failed a => .error a
  | .unfinished => .error Attempts.none

end DecafFrontEnd
