/-
  DecafFrontEnd/Lowering/Literal.lean --- the values of literals.

  A decimal literal has a value when that value fits in 32 bits with a sign.  A
  character literal stands for the character after its opening quote: an escape
  is not decoded, so its value is the backslash.
-/
import DecafFrontEnd.Diagnostic.Error

set_option autoImplicit false

namespace DecafFrontEnd

/-- The greatest value of an integer literal. -/
def maxInteger : Nat := 2147483647

/-- Appends decimal digits to a value, as long as it does not go above
`maxInteger`. -/
def appendDigits : Nat → List Char → Option Nat
  | value, [] => some value
  | value, c :: cs =>
      let value := value * 10 + (c.toNat - '0'.toNat)
      if value ≤ maxInteger then appendDigits value cs else none

/-- The value of a decimal literal. -/
def integerValue (lexeme : String) : Except LiteralError Int32 :=
  if lexeme.toList.isEmpty || !lexeme.toList.all Char.isDigit then
    .error ⟨.integer, .malformed, lexeme⟩
  else
    match appendDigits 0 lexeme.toList with
    | some value => .ok (Int32.ofNat value)
    | none => .error ⟨.integer, .overflow, lexeme⟩

/-- A text without a character that it both begins and ends with; the two have
to be different places of the text. -/
def stripQuotes (quote : Char) (text : List Char) : Option (List Char) :=
  match text with
  | [] => none
  | c :: rest =>
      if c = quote ∧ rest.getLast? = some quote then some rest.dropLast else none

/-- The value of a character literal. -/
def characterValue (lexeme : String) : Except LiteralError Char :=
  match stripQuotes '\'' lexeme.toList with
  | some (c :: _) => .ok c
  | _ => .error ⟨.character, .malformed, lexeme⟩

/-- The value of a truth literal. -/
def booleanValue (lexeme : String) : Except LiteralError Bool :=
  if lexeme = "true" then .ok true
  else if lexeme = "false" then .ok false
  else .error ⟨.boolean, .malformed, lexeme⟩

end DecafFrontEnd
