/-
  DecafFrontEnd/Json/Basic.lean --- JSON values and their text.

  What a number is, is left open: a value is a value over a type of numbers.  The numbers
  that are written and read here are integers, and `Json` alone is a value over these.  The
  members of an object are a list: their order is kept, and a text is written in that order.

  A text comes in two forms.  The compact one has no blanks outside strings; the
  indented one puts every member and every element on a line of its own, two
  blanks deeper than what holds it.
-/
set_option autoImplicit false

namespace DecafFrontEnd

/-- A JSON value whose numbers are of a given type. -/
inductive Json (Number : Type := Int) where
  | null
  | bool (b : Bool)
  | num (n : Number)
  | str (s : String)
  | arr (items : List (Json Number))
  | obj (members : List (String × Json Number))
  deriving Repr, Inhabited

namespace Json

variable {Number : Type}

/-- A number that is an integer. -/
@[match_pattern]
abbrev int (i : Int) : Json := num i

/-! ## Members -/

/-- The member of an object under a name. -/
def member? (key : String) : Json Number → Option (Json Number)
  | obj members => members.lookup key
  | _ => none

mutual

/-- How deep a value is nested; a value that holds no other is one deep. -/
def depth : Json Number → Nat
  | arr items => depthOfItems items + 1
  | obj members => depthOfMembers members + 1
  | _ => 1

/-- The greatest depth of several values. -/
def depthOfItems : List (Json Number) → Nat
  | [] => 0
  | j :: js => Nat.max j.depth (depthOfItems js)

/-- The greatest depth of the values of several members. -/
def depthOfMembers : List (String × Json Number) → Nat
  | [] => 0
  | (_, j) :: ms => Nat.max j.depth (depthOfMembers ms)

end

mutual

/-- A value without the members of one name, at every depth. -/
def without (key : String) : Json Number → Json Number
  | arr items => arr (withoutInItems key items)
  | obj members => obj (withoutInMembers key members)
  | j => j

/-- Several values without the members of one name. -/
def withoutInItems (key : String) : List (Json Number) → List (Json Number)
  | [] => []
  | j :: js => j.without key :: withoutInItems key js

/-- Several members without those of one name, at every depth. -/
def withoutInMembers (key : String) : List (String × Json Number) → List (String × Json Number)
  | [] => []
  | (k, j) :: ms =>
      if k = key then withoutInMembers key ms
      else (k, j.without key) :: withoutInMembers key ms

end

/-! ## Text -/

/-- A hexadecimal digit in lower case. -/
def hexDigit (n : Nat) : Char :=
  if n < 10 then Char.ofNat ('0'.toNat + n) else Char.ofNat ('a'.toNat + (n - 10))

/-- A character as it is written inside a string. Quotes, backslashes and control
characters are escaped, all else stands for itself. -/
def escape (c : Char) : List Char :=
  if c = '"' then ['\\', '"']
  else if c = '\\' then ['\\', '\\']
  else if c = '\x08' then ['\\', 'b']
  else if c = '\x0c' then ['\\', 'f']
  else if c = '\n' then ['\\', 'n']
  else if c = '\r' then ['\\', 'r']
  else if c = '\t' then ['\\', 't']
  else if c.toNat < 32 then
    ['\\', 'u', '0', '0', hexDigit (c.toNat / 16), hexDigit (c.toNat % 16)]
  else [c]

/-- A string between quotes. -/
def quoted (s : String) : List Char := '"' :: (s.toList.flatMap escape ++ ['"'])

/-- The text of a value that holds no other. -/
def atom : Json → List Char
  | null => "null".toList
  | bool true => "true".toList
  | bool false => "false".toList
  | int i => (toString i).toList
  | str s => quoted s
  | arr _ | obj _ => []

mutual

/-- The text of a value without blanks. -/
def compact : Json → List Char
  | arr items => '[' :: (compactItems items ++ [']'])
  | obj members => '\x7b' :: (compactMembers members ++ ['\x7d'])
  | j => j.atom

/-- The texts of several values with commas between them. -/
def compactItems : List Json → List Char
  | [] => []
  | [j] => j.compact
  | j :: js => j.compact ++ ',' :: compactItems js

/-- The texts of several members with commas between them. -/
def compactMembers : List (String × Json) → List Char
  | [] => []
  | [(k, j)] => quoted k ++ ':' :: j.compact
  | (k, j) :: ms => quoted k ++ ':' :: j.compact ++ ',' :: compactMembers ms

end

/-- A new line that begins with `indent` blanks. -/
def newLine (indent : Nat) : List Char := '\n' :: List.replicate indent ' '

mutual

/-- The text of a value whose inner lines begin with at least `indent` blanks. -/
def indented (indent : Nat) : Json → List Char
  | arr [] => ['[', ']']
  | arr (j :: js) =>
      '[' :: (indentedItems (indent + 2) (j :: js) ++ newLine indent ++ [']'])
  | obj [] => ['\x7b', '\x7d']
  | obj (m :: ms) =>
      '\x7b' :: (indentedMembers (indent + 2) (m :: ms) ++ newLine indent ++ ['\x7d'])
  | j => j.atom

/-- The texts of several values, each on a line of its own. -/
def indentedItems (indent : Nat) : List Json → List Char
  | [] => []
  | [j] => newLine indent ++ indented indent j
  | j :: js => newLine indent ++ indented indent j ++ ',' :: indentedItems indent js

/-- The texts of several members, each on a line of its own. -/
def indentedMembers (indent : Nat) : List (String × Json) → List Char
  | [] => []
  | [(k, j)] => newLine indent ++ quoted k ++ ':' :: ' ' :: indented indent j
  | (k, j) :: ms =>
      newLine indent ++ quoted k ++ ':' :: ' ' :: indented indent j ++
        ',' :: indentedMembers indent ms

end

/-- The text of a value, compact or indented. -/
def text (j : Json) (isCompact : Bool) : String :=
  String.ofList (if isCompact then j.compact else j.indented 0)

end Json

end DecafFrontEnd
