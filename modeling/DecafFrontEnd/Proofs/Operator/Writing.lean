/-
  DecafFrontEnd/Proofs/Operator/Writing.lean --- expressions written with operators.

  An `InfixOp` is one of the twelve operators that stand between their operands, and
  its tightness says how closely it binds.  `Expression.Written e ls` says that the
  lexemes `ls` are a way to write `e`: brackets stand around an operand wherever the
  operators demand them, and any number of pairs may stand around any expression
  besides.  What is written has no calls and no selectors, and each expression of that
  sort can be written (`Expression.IsOperation.exists_written`).
-/
import DecafFrontEnd.Ast.Basic
import DecafFrontEnd.Proofs.Lexical.Layout
import DecafFrontEnd.Proofs.Lowering.Obstacles

set_option autoImplicit false

namespace DecafFrontEnd

/-! ## Operators -/

/-- The operators that stand between two operands. -/
inductive InfixOp where
  | or | and | eq | neq | leq | geq | lt | gt | plus | minus | mult | div
  deriving DecidableEq, Repr, Inhabited

namespace InfixOp

/-- The operators, the loosest first. -/
def all : List InfixOp := [or, and, eq, neq, leq, geq, lt, gt, plus, minus, mult, div]

theorem mem_all (op : InfixOp) : op ∈ all := by cases op <;> decide

/-- How an operator is written. -/
def spelling : InfixOp → String
  | or => "||"
  | and => "&&"
  | eq => "=="
  | neq => "!="
  | leq => "<="
  | geq => ">="
  | lt => "<"
  | gt => ">"
  | plus => "+"
  | minus => "-"
  | mult => "*"
  | div => "/"

/-- How closely an operator binds its operands. -/
def tightness : InfixOp → Nat
  | or => 0
  | and => 1
  | eq | neq => 2
  | leq | geq | lt | gt => 3
  | plus | minus => 4
  | mult | div => 5

/-- The class of lexemes that an operator is of. -/
def terminal : InfixOp → Terminal
  | or => .orOp
  | and => .andOp
  | eq | neq => .eqOp
  | leq | geq | lt | gt => .relOp
  | plus | minus => .addOp
  | mult | div => .mulOp

/-- The lexeme of an operator. -/
def lexeme (op : InfixOp) : Lexeme := ⟨op.terminal, op.spelling.toList⟩

/-- The operator that is written in a given way. -/
def ofSpelling? (sign : String) : Option InfixOp := all.find? (·.spelling = sign)

theorem ofSpelling?_spelling (op : InfixOp) : ofSpelling? op.spelling = some op := by
  have key : ∀ op ∈ all, ofSpelling? op.spelling = some op := by decide
  exact key op op.mem_all

theorem isWhole_lexeme (op : InfixOp) : op.lexeme.IsWhole := by
  have key : ∀ op ∈ all, op.spelling.toList ∈ op.terminal.spellings := by decide
  exact Terminal.isWhole _ (key op op.mem_all)

end InfixOp

/-- How closely an expression holds together: as its operator binds, and closer than
any if it does not consist of two operands. -/
def Expression.tightness : Expression → Nat
  | .binary _ _ sign _ => ((InfixOp.ofSpelling? sign).map InfixOp.tightness).getD 6
  | _ => 6

/-- Whether an expression consists of two operands. -/
def Expression.isBinary : Expression → Bool
  | .binary .. => true
  | _ => false

/-! ## Lexemes of an expression -/

namespace Lexeme

/-- A reserved word. -/
def word (k : Keyword) : Lexeme := ⟨.keyword k, k.spelling.toList⟩

/-- The sign of negation. -/
def notSign : Lexeme := ⟨.notOp, ['!']⟩

/-- The text of a literal of a character. -/
def quoted (c : Char) : List Char := if c = '\\' then ['\'', '\\', c, '\''] else ['\'', c, '\'']

/-- Lexemes between brackets. -/
def bracketed (ls : List Lexeme) : List Lexeme :=
  ⟨.lparen, ['(']⟩ :: (ls ++ [⟨.rparen, [')']⟩])

/-- Lexemes between brackets where a condition holds. -/
def bracketedIf (p : Prop) [Decidable p] (ls : List Lexeme) : List Lexeme :=
  if p then bracketed ls else ls

end Lexeme

/-- The expressions that are a single lexeme: literals, names and `this`. -/
inductive Expression.Spelled : Expression → Lexeme → Prop
  | integer (p : Position) {v : Int32} {digits : List Char} :
      (⟨.intLit, digits⟩ : Lexeme).IsWhole → v.toInt = decimalValue digits →
      Spelled (.integer p v) ⟨.intLit, digits⟩
  | character (p : Position) {c : Char} : c ≠ '\'' → c ≠ '\n' → c ≠ '\r' →
      Spelled (.character p c) ⟨.charLit, Lexeme.quoted c⟩
  | boolean (p : Position) (b : Bool) :
      Spelled (.boolean p b) (.word (if b then .trueKw else .falseKw))
  | null (p : Position) : Spelled (.null p) (.word .nullKw)
  | name (p : Position) {text : List Char} : (⟨.ident, text⟩ : Lexeme).IsWhole →
      Spelled (.simple p (String.ofList text)) ⟨.ident, text⟩
  | this (p : Position) : Spelled (.simple p "this") (.word .thisKw)

/-- The ways to write an expression.  Brackets stand around a left operand whose
operator binds looser, around a right operand whose operator binds looser or equally,
and around two operands that are negated; more may stand anywhere. -/
inductive Expression.Written : Expression → List Lexeme → Prop
  | leaf {e : Expression} {l : Lexeme} : e.Spelled l → Written e [l]
  | negation (p : Position) {operand : Expression} {ls : List Lexeme} : Written operand ls →
      Written (.unary p "!" operand)
        (.notSign :: Lexeme.bracketedIf (operand.isBinary = true) ls)
  | operation (p : Position) (op : InfixOp) {lhs rhs : Expression} {ls ls' : List Lexeme} :
      Written lhs ls → Written rhs ls' →
      Written (.binary p lhs op.spelling rhs)
        (Lexeme.bracketedIf (lhs.tightness < op.tightness) ls ++
          op.lexeme :: Lexeme.bracketedIf (rhs.tightness ≤ op.tightness) ls')
  | brackets {e : Expression} {ls : List Lexeme} : Written e ls → Written e (Lexeme.bracketed ls)

/-! ## What can be written -/

/-- Expressions of operators, negations, literals, names and `this`. -/
inductive Expression.IsOperation : Expression → Prop
  | integer (p : Position) {v : Int32} : 0 ≤ v.toInt → IsOperation (.integer p v)
  | character (p : Position) {c : Char} : c ≠ '\'' → c ≠ '\n' → c ≠ '\r' →
      IsOperation (.character p c)
  | boolean (p : Position) (b : Bool) : IsOperation (.boolean p b)
  | null (p : Position) : IsOperation (.null p)
  | name (p : Position) {text : List Char} : (⟨.ident, text⟩ : Lexeme).IsWhole →
      IsOperation (.simple p (String.ofList text))
  | this (p : Position) : IsOperation (.simple p "this")
  | negation (p : Position) {operand : Expression} : IsOperation operand →
      IsOperation (.unary p "!" operand)
  | operation (p : Position) (op : InfixOp) {lhs rhs : Expression} :
      IsOperation lhs → IsOperation rhs → IsOperation (.binary p lhs op.spelling rhs)

namespace Lexeme

theorem isWhole_of_digits {digits : List Char} (hne : digits ≠ [])
    (h : ∀ c ∈ digits, c.isDigit = true) : (⟨.intLit, digits⟩ : Lexeme).IsWhole := by
  have htake : digits.takeWhile Char.isDigit = digits := by
    rw [← List.append_nil digits, List.takeWhile_append_of_pos h]
    simp
  have hdrop : digits.dropWhile Char.isDigit = [] := by
    rw [← List.append_nil digits, List.dropWhile_append_of_pos h]
    rfl
  have hscan : Terminal.intLit.scan digits = some (digits, []) := by
    cases digits with
    | nil => exact absurd rfl hne
    | cons c cs => simp only [Terminal.scan, scanDigits, htake, hdrop]
  rcases first?_of_scan hscan with hfirst | ⟨h, -⟩
  · exact hfirst
  · rcases h with h | h <;> simp at h

theorem isWhole_quoted {c : Char} (hquote : c ≠ '\'') (hn : c ≠ '\n') (hr : c ≠ '\r') :
    (⟨.charLit, quoted c⟩ : Lexeme).IsWhole := by
  have hlit : IsCharLit (quoted c) := by
    unfold quoted
    split
    · exact Or.inl ⟨c, rfl, by simp [isLineBreak, hn, hr]⟩
    · next hc => exact Or.inr ⟨c, rfl, hquote, hc, by simp [isLineBreak, hn, hr]⟩
  have hscan : Terminal.charLit.scan (quoted c) = some (quoted c, []) :=
    (scanCharLit_iff _ _ _).2 ⟨hlit, by rw [List.append_nil]⟩
  rcases first?_of_scan hscan with hfirst | ⟨h, -⟩
  · exact hfirst
  · rcases h with h | h <;> simp at h

theorem isWhole_word (k : Keyword) : (word k).IsWhole := by
  have key : ∀ k ∈ Keyword.all, (word k).IsWhole := by decide
  exact key k k.mem_all

theorem isWhole_of_mem_bracketed {ls : List Lexeme} (h : ∀ l ∈ ls, l.IsWhole) :
    ∀ l ∈ bracketed ls, l.IsWhole := by
  intro l hl
  simp only [bracketed, List.mem_cons, List.mem_append, List.not_mem_nil, or_false] at hl
  rcases hl with rfl | hl | rfl
  · decide
  · exact h l hl
  · decide

theorem isWhole_of_mem_bracketedIf {p : Prop} [Decidable p] {ls : List Lexeme}
    (h : ∀ l ∈ ls, l.IsWhole) : ∀ l ∈ bracketedIf p ls, l.IsWhole := by
  unfold bracketedIf
  split
  · exact isWhole_of_mem_bracketed h
  · exact h

end Lexeme

theorem decimalValue_toDigits (n : Nat) :
    decimalValue (Nat.toDigits 10 n) = n := by
  have hfold := Nat.ofDigitChars_ten_toDigits (n := n)
  rw [Nat.ofDigitChars_eq_foldl] at hfold
  simpa only [decimalValue, Nat.mul_comm] using hfold

namespace Expression

variable {e : Expression}

theorem Spelled.isWhole {l : Lexeme} (h : e.Spelled l) : l.IsWhole := by
  cases h with
  | integer p hwhole _ => exact hwhole
  | character p hquote hn hr => exact Lexeme.isWhole_quoted hquote hn hr
  | boolean p b => exact Lexeme.isWhole_word _
  | null p => exact Lexeme.isWhole_word _
  | name p hwhole => exact hwhole
  | this p => exact Lexeme.isWhole_word _

/-- An expression is written in whole lexemes. -/
theorem Written.isWhole {ls : List Lexeme} (h : e.Written ls) : ∀ l ∈ ls, l.IsWhole := by
  induction h with
  | leaf hspelled =>
      intro l hl
      rw [List.mem_singleton.1 hl]
      exact hspelled.isWhole
  | negation p _ ih =>
      intro l hl
      rcases List.mem_cons.1 hl with rfl | hl
      · decide
      · exact Lexeme.isWhole_of_mem_bracketedIf ih l hl
  | operation p op _ _ ihl ihr =>
      intro l hl
      rcases List.mem_append.1 hl with hl | hl
      · exact Lexeme.isWhole_of_mem_bracketedIf ihl l hl
      · rcases List.mem_cons.1 hl with rfl | hl
        · exact op.isWhole_lexeme
        · exact Lexeme.isWhole_of_mem_bracketedIf ihr l hl
  | brackets _ ih => exact Lexeme.isWhole_of_mem_bracketed ih

/-- Every expression of operators can be written. -/
theorem IsOperation.exists_written (h : e.IsOperation) : ∃ ls, e.Written ls := by
  induction h with
  | @integer p v hv =>
      have hwhole : (⟨.intLit, Nat.toDigits 10 v.toInt.toNat⟩ : Lexeme).IsWhole :=
        Lexeme.isWhole_of_digits Nat.toDigits_ne_nil fun c hc =>
          Nat.isDigit_of_mem_toDigits (by decide) (by decide) hc
      refine ⟨_, .leaf (.integer p hwhole ?_)⟩
      rw [decimalValue_toDigits, Int.toNat_of_nonneg hv]
  | character p hquote hn hr => exact ⟨_, .leaf (.character p hquote hn hr)⟩
  | boolean p b => exact ⟨_, .leaf (.boolean p b)⟩
  | null p => exact ⟨_, .leaf (.null p)⟩
  | name p hwhole => exact ⟨_, .leaf (.name p hwhole)⟩
  | this p => exact ⟨_, .leaf (.this p)⟩
  | negation p _ ih =>
      obtain ⟨ls, hls⟩ := ih
      exact ⟨_, .negation p hls⟩
  | operation p op _ _ ihl ihr =>
      obtain ⟨ls, hls⟩ := ihl
      obtain ⟨ls', hls'⟩ := ihr
      exact ⟨_, .operation p op hls hls'⟩

end Expression

end DecafFrontEnd
