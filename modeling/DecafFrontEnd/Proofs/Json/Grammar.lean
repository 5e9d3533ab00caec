/-
  DecafFrontEnd/Proofs/Json/Grammar.lean --- what a JSON text says.

  The standard grammar of JSON, as a relation between a text and a value.  Blanks may
  stand around a whole text and around every structural mark.  Inside a string any
  character but a quote, a backslash and the control characters stands for itself;
  each of them may also be escaped, one beyond the first plane as a pair of two units.

  The numbers of the values that a text says are integers, so one with a fraction or an
  exponent says none of them.  The members of an object are kept in the order of the text.

  The relation says nothing about how a text is read.  That no text says two values is
  proved with a reader (`Json.Says.functional` in `Proofs/Json/Reader.lean`).
-/
import DecafFrontEnd.Json.Basic
import DecafFrontEnd.Lexical.Trivia

set_option autoImplicit false

namespace DecafFrontEnd

namespace Json

/-! ## Blanks and marks -/

/-- A text of blanks. -/
def IsSpace (cs : List Char) : Prop := ∀ c ∈ cs, isBlank c = true

/-- A structural mark with the blanks around it. -/
def IsMark (mark : Char) (cs : List Char) : Prop :=
  ∃ before behind, IsSpace before ∧ IsSpace behind ∧ cs = before ++ mark :: behind

/-! ## Strings -/

/-- The value of a hexadecimal digit of either case. -/
def hexValue? (c : Char) : Option Nat :=
  if '0' ≤ c ∧ c ≤ '9' then some (c.toNat - '0'.toNat)
  else if 'a' ≤ c ∧ c ≤ 'f' then some (c.toNat - 'a'.toNat + 10)
  else if 'A' ≤ c ∧ c ≤ 'F' then some (c.toNat - 'A'.toNat + 10)
  else none

/-- The number that four hexadecimal digits say. -/
def unit? (a b c d : Char) : Option Nat := do
  return ((16 * (← hexValue? a) + (← hexValue? b)) * 16 + (← hexValue? c)) * 16 + (← hexValue? d)

/-- Whether a unit is the first of a pair. -/
def isHighUnit (n : Nat) : Bool := 0xd800 ≤ n && n < 0xdc00

/-- Whether a unit is the second of a pair. -/
def isLowUnit (n : Nat) : Bool := 0xdc00 ≤ n && n < 0xe000

/-- The letters behind a backslash and what they stand for. -/
def letters : List (Char × Char) :=
  [('"', '"'), ('\\', '\\'), ('/', '/'), ('b', '\x08'), ('f', '\x0c'), ('n', '\n'),
    ('r', '\r'), ('t', '\t')]

/-- One character as it may be written inside a string. -/
inductive IsChar : List Char → Char → Prop
  | plain {c : Char} : 32 ≤ c.toNat → c ≠ '"' → c ≠ '\\' → IsChar [c] c
  | letter {e c : Char} : letters.lookup e = some c → IsChar ['\\', e] c
  | unit {w x y z c : Char} : unit? w x y z = some c.toNat → IsChar ['\\', 'u', w, x, y, z] c
  | pair {w x y z w' x' y' z' c : Char} {high low : Nat} : unit? w x y z = some high →
      unit? w' x' y' z' = some low → isHighUnit high = true → isLowUnit low = true →
      c.toNat = 0x10000 + (high - 0xd800) * 0x400 + (low - 0xdc00) →
      IsChar ['\\', 'u', w, x, y, z, '\\', 'u', w', x', y', z'] c

/-- The characters of a string one after the other. -/
inductive AreChars : List Char → List Char → Prop
  | nil : AreChars [] []
  | cons {cs cs' text : List Char} {c : Char} :
      IsChar cs c → AreChars cs' text → AreChars (cs ++ cs') (c :: text)

/-- A string between quotes. -/
def IsString (cs : List Char) (s : String) : Prop :=
  ∃ inner, AreChars inner s.toList ∧ cs = '"' :: (inner ++ ['"'])

/-! ## Numbers -/

/-- A number without a sign; it has no zero in front unless it is one. -/
structure IsNatural (digits : List Char) (n : Nat) : Prop where
  ne_nil : digits ≠ []
  isDigit : ∀ c ∈ digits, c.isDigit = true
  no_leading_zero : digits.head? = some '0' → digits = ['0']
  value : Nat.ofDigitChars 10 digits 0 = n

/-- A number without a fraction and an exponent. -/
inductive IsInteger : List Char → Int → Prop
  | natural {digits : List Char} {n : Nat} : IsNatural digits n → IsInteger digits n
  | negative {digits : List Char} {n : Nat} : IsNatural digits n → IsInteger ('-' :: digits) (-n)

/-! ## Values -/

/-- What a part of a text can say. -/
inductive Part where
  | value (j : Json)
  /-- the values of an array without its brackets -/
  | items (js : List Json)
  /-- the members of an object without its braces -/
  | members (ms : List (String × Json))

/-- What the parts of a text say. -/
inductive Spells : List Char → Part → Prop
  | null : Spells ['n', 'u', 'l', 'l'] (.value .null)
  | true : Spells ['t', 'r', 'u', 'e'] (.value (.bool true))
  | false : Spells ['f', 'a', 'l', 's', 'e'] (.value (.bool false))
  | int {cs : List Char} {i : Int} : IsInteger cs i → Spells cs (.value (.int i))
  | str {cs : List Char} {s : String} : IsString cs s → Spells cs (.value (.str s))
  | emptyArray {opening closing : List Char} : IsMark '[' opening → IsMark ']' closing →
      Spells (opening ++ closing) (.value (.arr []))
  | array {opening cs closing : List Char} {js : List Json} : IsMark '[' opening →
      Spells cs (.items js) → IsMark ']' closing →
      Spells (opening ++ cs ++ closing) (.value (.arr js))
  | emptyObject {opening closing : List Char} : IsMark '\x7b' opening →
      IsMark '\x7d' closing → Spells (opening ++ closing) (.value (.obj []))
  | object {opening cs closing : List Char} {ms : List (String × Json)} :
      IsMark '\x7b' opening → Spells cs (.members ms) → IsMark '\x7d' closing →
      Spells (opening ++ cs ++ closing) (.value (.obj ms))
  | lastItem {cs : List Char} {j : Json} : Spells cs (.value j) → Spells cs (.items [j])
  | item {cs comma cs' : List Char} {j : Json} {js : List Json} : Spells cs (.value j) →
      IsMark ',' comma → Spells cs' (.items js) → Spells (cs ++ comma ++ cs') (.items (j :: js))
  | lastMember {key colon cs : List Char} {k : String} {j : Json} : IsString key k →
      IsMark ':' colon → Spells cs (.value j) → Spells (key ++ colon ++ cs) (.members [(k, j)])
  | member {key colon cs comma cs' : List Char} {k : String} {j : Json}
      {ms : List (String × Json)} : IsString key k → IsMark ':' colon → Spells cs (.value j) →
      IsMark ',' comma → Spells cs' (.members ms) →
      Spells (key ++ colon ++ cs ++ comma ++ cs') (.members ((k, j) :: ms))

/-- A whole text that says a value. -/
def Says (text : String) (j : Json) : Prop :=
  ∃ before cs behind, IsSpace before ∧ Spells cs (.value j) ∧ IsSpace behind ∧
    text.toList = before ++ cs ++ behind

end Json

end DecafFrontEnd
