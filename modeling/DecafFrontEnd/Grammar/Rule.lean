/-
  DecafFrontEnd/Grammar/Rule.lean --- the rules of the grammar and their names.

  A `Rule` is anything that a match may start from: a class of lexemes, a
  `Phrase` of the language, or one of the helper classes that the lexemes and
  the trivia are made of.  Every rule has the name that the grammar gives it and
  a description for error reports, and the rules have an order, that of
  `Rule.all`, in which reports list them.

  A silent rule leaves no node in a parse tree and is never named as expected.
-/
import DecafFrontEnd.Lexical.Terminal

set_option autoImplicit false

namespace DecafFrontEnd

/-! ## Phrases -/

/-- The constructs of the language that are made of several lexemes, and those
that stand for a choice between others. -/
inductive Phrase where
  | program
  | classDecl
  /-- the `extends` part of a class -/
  | superclass
  | varDecl
  | varBindList
  | varBind
  /-- the pair of square brackets after a declared name -/
  | arrayMarker
  | typeName
  | methodDecl
  | returnType
  | paramList
  | param
  | block
  | statement
  | assignStmt
  | expressionStmt
  | ifStmt
  | elseBranch
  | whileStmt
  | returnStmt
  | callExpr
  | methodCall
  | argList
  | primCallout
  | calloutArg
  | location
  | fieldAccess
  | indexAccess
  | expr
  | orExpr
  | andExpr
  | eqExpr
  | relExpr
  | addExpr
  | mulExpr
  | unaryExpr
  | notExpr
  | primary
  | parenExpr
  | newObject
  | newArray
  | simpleExpr
  | literal
  | boolLit
  | nullLit
  deriving DecidableEq, Repr, Inhabited

namespace Phrase

/-- The phrases in the order of the grammar. -/
def all : List Phrase :=
  [.program, .classDecl, .superclass, .varDecl, .varBindList, .varBind, .arrayMarker,
   .typeName, .methodDecl, .returnType, .paramList, .param, .block, .statement,
   .assignStmt, .expressionStmt, .ifStmt, .elseBranch, .whileStmt, .returnStmt,
   .callExpr, .methodCall, .argList, .primCallout, .calloutArg, .location,
   .fieldAccess, .indexAccess, .expr, .orExpr, .andExpr, .eqExpr, .relExpr, .addExpr,
   .mulExpr, .unaryExpr, .notExpr, .primary, .parenExpr, .newObject, .newArray,
   .simpleExpr, .literal, .boolLit, .nullLit]

theorem mem_all (p : Phrase) : p ∈ all := by cases p <;> decide

/-- The name of a phrase in the grammar. -/
def name : Phrase → String
  | program => "program"
  | classDecl => "class_decl"
  | superclass => "superclass"
  | varDecl => "var_decl"
  | varBindList => "var_bind_list"
  | varBind => "var_bind"
  | arrayMarker => "array_marker"
  | typeName => "type_name"
  | methodDecl => "method_decl"
  | returnType => "return_type"
  | paramList => "param_list"
  | param => "param"
  | block => "block"
  | statement => "statement"
  | assignStmt => "assign_stmt"
  | expressionStmt => "expression_stmt"
  | ifStmt => "if_stmt"
  | elseBranch => "else_branch"
  | whileStmt => "while_stmt"
  | returnStmt => "return_stmt"
  | callExpr => "call_expr"
  | methodCall => "method_call"
  | argList => "arg_list"
  | primCallout => "prim_callout"
  | calloutArg => "callout_arg"
  | location => "location"
  | fieldAccess => "field_access"
  | indexAccess => "index_access"
  | expr => "expr"
  | orExpr => "or_expr"
  | andExpr => "and_expr"
  | eqExpr => "eq_expr"
  | relExpr => "rel_expr"
  | addExpr => "add_expr"
  | mulExpr => "mul_expr"
  | unaryExpr => "unary_expr"
  | notExpr => "not_expr"
  | primary => "primary"
  | parenExpr => "paren_expr"
  | newObject => "new_object"
  | newArray => "new_array"
  | simpleExpr => "simple_expr"
  | literal => "literal"
  | boolLit => "bool_lit"
  | nullLit => "null_lit"

/-- What a report says instead of the name; absent where the name is good
enough. -/
def description? : Phrase → Option String
  | program => none
  | classDecl => "class declaration"
  | superclass => "'extends'"
  | varDecl => "variable declaration"
  | varBindList | varBind => "variable name"
  | arrayMarker => "'[]'"
  | typeName | returnType => "type"
  | methodDecl => "method declaration"
  | paramList | param => "parameter"
  | block => "block"
  | statement | assignStmt | expressionStmt | ifStmt | whileStmt | returnStmt =>
      "statement"
  | elseBranch => "'else'"
  | callExpr | methodCall | primCallout => "call"
  | argList | calloutArg => "argument"
  | location => "location"
  | fieldAccess => "'.'"
  | indexAccess => "'['"
  | expr | orExpr | andExpr | eqExpr | relExpr | addExpr | mulExpr | unaryExpr
  | notExpr | primary | parenExpr | simpleExpr => "expression"
  | newObject | newArray => "'new'"
  | literal | boolLit | nullLit => "literal"

end Phrase

/-! ## Names of lexeme classes -/

namespace Keyword

/-- The name of a reserved word in the grammar: its spelling in capitals. -/
def name (k : Keyword) : String := k.spelling.map Char.toUpper

end Keyword

namespace Terminal

/-- The name of a class of lexemes in the grammar. -/
def name : Terminal → String
  | keyword k => k.name
  | ident => "ident"
  | intLit => "int_lit"
  | charLit => "char_lit"
  | stringLit => "string_lit"
  | orOp => "or_op"
  | andOp => "and_op"
  | eqOp => "eq_op"
  | relOp => "rel_op"
  | addOp => "add_op"
  | mulOp => "mul_op"
  | notOp => "not_op"
  | assign => "ASSIGN"
  | lparen => "LPAREN"
  | rparen => "RPAREN"
  | lbrace => "LBRACE"
  | rbrace => "RBRACE"
  | lbrack => "LBRACK"
  | rbrack => "RBRACK"
  | semi => "SEMI"
  | comma => "COMMA"
  | dot => "DOT"

/-- What a report says instead of the name; absent where the name is good
enough. -/
def description? : Terminal → Option String
  | keyword k => some ("'" ++ k.spelling ++ "'")
  | ident => "identifier"
  | intLit => "integer literal"
  | charLit => "char literal"
  | stringLit => "string literal"
  | orOp => "'||'"
  | andOp => "'&&'"
  | eqOp => "equality operator"
  | relOp => "relational operator"
  | addOp => "'+' or '-'"
  | mulOp => "'*' or '/'"
  | notOp => "'!'"
  | assign | lparen | rparen | lbrace | rbrace | lbrack | rbrack | semi | comma
  | dot => none

/-- The operators, the sign of assignment included. -/
def operators : List Terminal :=
  [.orOp, .andOp, .eqOp, .relOp, .addOp, .mulOp, .notOp, .assign]

/-- Brackets and separators. -/
def marks : List Terminal :=
  [.lparen, .rparen, .lbrace, .rbrace, .lbrack, .rbrack, .semi, .comma, .dot]

end Terminal

/-! ## Rules -/

/-- Everything that a match may start from. -/
inductive Rule where
  | endOfInput
  /-- one blank character -/
  | blank
  | comment
  /-- one character of a word -/
  | wordChar
  | terminal (t : Terminal)
  /-- any reserved word -/
  | anyKeyword
  /-- what stands between the quotes of a character literal -/
  | charBody
  | operator
  | punctuation
  /-- any lexeme -/
  | lexeme
  /-- blanks and comments, possibly none -/
  | trivia
  | phrase (p : Phrase)
  deriving DecidableEq, Repr, Inhabited

namespace Rule

/-- A rule for a reserved word. -/
abbrev kw (k : Keyword) : Rule := terminal (.keyword k)

/-- The rules in the order in which reports list them. -/
def all : List Rule :=
  [endOfInput, blank, comment, wordChar] ++
  Keyword.all.map kw ++
  [anyKeyword, terminal .ident, terminal .intLit, terminal .charLit, charBody,
   terminal .stringLit] ++
  Terminal.operators.map terminal ++
  Terminal.marks.map terminal ++
  [operator, punctuation, lexeme, trivia] ++
  Phrase.all.map phrase

/-- The name of a rule in the grammar. -/
def name : Rule → String
  | endOfInput => "EOI"
  | blank => "WHITESPACE"
  | comment => "COMMENT"
  | wordChar => "ident_char"
  | terminal t => t.name
  | anyKeyword => "keyword"
  | charBody => "char_body"
  | operator => "operator"
  | punctuation => "punctuation"
  | lexeme => "lexeme"
  | trivia => "trivia"
  | phrase p => p.name

/-- The rule of a name. -/
def ofName? (name : String) : Option Rule := all.find? fun r => r.name = name

/-- Whether a rule leaves no node and is never named as expected. -/
def isSilent : Rule → Bool
  | blank | comment | wordChar | anyKeyword | charBody | operator | punctuation => true
  | endOfInput | terminal _ | lexeme | trivia | phrase _ => false

/-- How a report names a rule. A rule without a description of its own goes by
its name with blanks for underscores. -/
def describe (r : Rule) : String :=
  let own := match r with
    | endOfInput => some "<EOF>"
    | terminal t => t.description?
    | phrase p => p.description?
    | _ => none
  own.getD (r.name.map fun c => if c = '_' then ' ' else c)

theorem mem_all (r : Rule) : r ∈ all := by
  cases r with
  | terminal t => cases t with
    | keyword k => cases k <;> decide
    | _ => decide
  | phrase p => cases p <;> decide
  | _ => decide

end Rule

end DecafFrontEnd
