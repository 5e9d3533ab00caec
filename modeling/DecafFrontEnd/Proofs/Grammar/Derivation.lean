/-
  DecafFrontEnd/Proofs/Grammar/Derivation.lean --- the grammar read without context.

  `Derives p ls ts` reads a pattern as the right side of a context-free rule: the
  alternatives of a choice have no order, a repetition may stop after any round,
  and nothing depends on what stands before or behind the lexemes `ls`.  Trivia
  does not occur.  The derivation is kept as a list of `Skeleton`s, which are
  parse trees without places.

  `Derivable p ls` is the language of a pattern: its lexemes have a derivation.
-/
import DecafFrontEnd.Grammar.Match
import DecafFrontEnd.Lexical.Token

set_option autoImplicit false

namespace DecafFrontEnd

/-! ## Trees without places -/

/-- A rule with the word that it stands for and the trees of the rules within.
Only a class of lexemes stands for a word. -/
inductive Skeleton where
  | node (rule : Rule) (word : List Char) (children : List Skeleton)
  deriving Repr, Inhabited

/-- The word that a rule stands for when it takes a text. -/
def Rule.word (r : Rule) (text : List Char) : List Char :=
  match r with
  | terminal _ => text
  | _ => []

namespace Tree

mutual

/-- A parse tree without its places. -/
def skeleton : Tree → Skeleton
  | node r _ text children => .node r (r.word text) (skeletons children)

/-- Parse trees without their places. -/
def skeletons : List Tree → List Skeleton
  | [] => []
  | t :: ts => skeleton t :: skeletons ts

end

@[simp] theorem skeletons_nil : skeletons [] = [] := rfl

@[simp] theorem skeletons_cons (t : Tree) (ts : List Tree) :
    skeletons (t :: ts) = t.skeleton :: skeletons ts := rfl

@[simp] theorem skeletons_append (ts ts' : List Tree) :
    skeletons (ts ++ ts') = skeletons ts ++ skeletons ts' := by
  induction ts with
  | nil => rfl
  | cons t ts ih => simp [ih]

end Tree

/-! ## Derivations -/

/-- The characters of a list of lexemes. -/
def Lexeme.texts (ls : List Lexeme) : List Char := ls.flatMap Lexeme.text

/-- The trees that a rule leaves over the lexemes of its body. -/
def Rule.sketch (r : Rule) (ls : List Lexeme) (ts : List Skeleton) : List Skeleton :=
  if r.isSilent then ts else [.node r (r.word (Lexeme.texts ls)) ts]

/-- The lexemes that a pattern stands for, with the trees of their derivation. -/
inductive Derives : Pattern → List Lexeme → List Skeleton → Prop
  | inputStart : Derives (.prim .inputStart) [] []
  | inputEnd : Derives (.prim .inputEnd) [] []
  | lexeme (l : Lexeme) : Derives (.prim (.lexeme l.terminal)) [l] []
  | rule {r : Rule} {ls : List Lexeme} {ts : List Skeleton} :
      Derives r.body ls ts → Derives (.rule r) ls (r.sketch ls ts)
  | seq {p q : Pattern} {ls ls' : List Lexeme} {ts ts' : List Skeleton} :
      Derives p ls ts → Derives q ls' ts' → Derives (.seq p q) (ls ++ ls') (ts ++ ts')
  | left {p q : Pattern} {ls : List Lexeme} {ts : List Skeleton} :
      Derives p ls ts → Derives (.alt p q) ls ts
  | right {p q : Pattern} {ls : List Lexeme} {ts : List Skeleton} :
      Derives q ls ts → Derives (.alt p q) ls ts
  | present {p : Pattern} {ls : List Lexeme} {ts : List Skeleton} :
      Derives p ls ts → Derives (.opt p) ls ts
  | absent {p : Pattern} : Derives (.opt p) [] []
  | more {p : Pattern} {ls ls' : List Lexeme} {ts ts' : List Skeleton} :
      Derives p ls ts → Derives (.many p) ls' ts' → Derives (.many p) (ls ++ ls') (ts ++ ts')
  | none {p : Pattern} : Derives (.many p) [] []

/-- Whether a pattern stands for these lexemes. -/
def Derivable (p : Pattern) (ls : List Lexeme) : Prop := ∃ ts, Derives p ls ts

end DecafFrontEnd
