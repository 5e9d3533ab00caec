/-
  DecafFrontEnd/Proofs/Brief/Front.lean --- how expressions begin in brief.

  The front of a text in brief tells what kind of an expression it is: a word begins it, or a
  quote, or a bracket with a sign behind it, up to the first blank.  `kindAt` reads the kind
  from there, whatever stands behind the expression (`Expression.kindAt_pretty`).
-/
import DecafFrontEnd.Ast.Pretty
import DecafFrontEnd.Proofs.Brief.Legible
import DecafFrontEnd.Proofs.Json.Decode
import DecafFrontEnd.Proofs.Text.Parts

set_option autoImplicit false

namespace DecafFrontEnd

/-! ## Texts in brief and what stands behind them -/

/-- What stands behind the name of a location in brief. -/
def Location.selector : Location → List Char
  | ⟨_, _, some path, _⟩ => '.' :: path.toList
  | ⟨_, _, none, some index⟩ => '[' :: (index.pretty.toList ++ [']'])
  | ⟨_, _, none, none⟩ => []

theorem Location.toList_pretty (l : Location) : l.pretty.toList = l.root.toList ++ l.selector := by
  obtain ⟨p, root, path, index⟩ := l
  cases path with
  | some path => simp [pretty, selector]
  | none =>
      cases index with
      | some index => simp [pretty, selector]
      | none => simp [pretty, selector]

/-- What stands behind the name of a location is no part of a word. -/
theorem Location.not_isWordChar_selector (l : Location) {r : List Char} (hr : IsBehind r) :
    ∀ c ∈ (l.selector ++ r).head?, isWordChar c = false := by
  intro c hc
  obtain ⟨p, root, path, index⟩ := l
  cases path with
  | some path =>
      obtain rfl : '.' = c := by simpa [selector] using hc
      decide
  | none =>
      cases index with
      | some index =>
          obtain rfl : '[' = c := by simpa [selector] using hc
          decide
      | none => exact hr.not_isWordChar c hc

theorem Location.Legible.isName_root {l : Location} (h : l.Legible) : IsName l.root := by
  obtain ⟨p, root, path, index⟩ := l
  cases index with
  | none => exact h.1
  | some index => exact h.1

/-- A location begins with its name. -/
theorem Location.takeWhile_pretty (l : Location) (h : IsName l.root) {r : List Char}
    (hr : IsBehind r) : (l.pretty.toList ++ r).takeWhile isWordChar = l.root.toList := by
  rw [l.toList_pretty, List.append_assoc,
    takeWhile_append_of_head _ (l.not_isWordChar_selector hr)]
  exact List.takeWhile_eq_self_iff.2 h.spells.1.2

namespace Expression

variable (p : Position) (r : List Char)

theorem pretty_binary_append (lhs : Expression) (sign : String) (rhs : Expression) :
    (binary p lhs sign rhs).pretty.toList ++ r = '(' :: (sign.toList ++ ' ' ::
      (lhs.pretty.toList ++ ' ' :: (rhs.pretty.toList ++ ')' :: r))) := by
  have hpretty : (binary p lhs sign rhs).pretty =
      "(" ++ sign ++ " " ++ lhs.pretty ++ " " ++ rhs.pretty ++ ")" := rfl
  simp [hpretty]

theorem pretty_unary_append (sign : String) (operand : Expression) :
    (unary p sign operand).pretty.toList ++ r =
      '(' :: (sign.toList ++ ' ' :: (operand.pretty.toList ++ ')' :: r)) := by
  have hpretty : (unary p sign operand).pretty =
      "(" ++ sign ++ " " ++ operand.pretty ++ ")" := rfl
  simp [hpretty]

theorem pretty_call_append (method : Location) (arguments : List Expression) :
    (call p method arguments).pretty.toList ++ r = '(' :: ("call".toList ++ ' ' ::
      (method.pretty.toList ++ ((prettyArguments arguments).toList ++ ')' :: r))) := by
  have hpretty : (call p method arguments).pretty =
      "(call " ++ method.pretty ++ prettyArguments arguments ++ ")" := rfl
  simp [hpretty]

theorem pretty_callout_append (name : String) (arguments : List Expression) :
    (callout p name arguments).pretty.toList ++ r = '(' :: ("call".toList ++ ' ' ::
      ("callout".toList ++ ' ' :: '"' :: (name.toList ++ '"' ::
        ((prettyArguments arguments).toList ++ ')' :: r)))) := by
  have hpretty : (callout p name arguments).pretty =
      "(call callout \"" ++ name ++ "\"" ++ prettyArguments arguments ++ ")" := rfl
  simp [hpretty]

theorem pretty_character_append (value : Char) :
    (character p value).pretty.toList ++ r = '\'' :: value :: '\'' :: r := by
  have hpretty : (character p value).pretty = "'" ++ String.singleton value ++ "'" := rfl
  simp [hpretty]

theorem prettyArguments_cons_append (e : Expression) (es : List Expression) :
    (prettyArguments (e :: es)).toList ++ r =
      ' ' :: (e.pretty.toList ++ ((prettyArguments es).toList ++ r)) := by
  simp [prettyArguments]

/-- Behind the arguments of a call, and behind its method, stands a blank or a bracket. -/
theorem isBehind_arguments (es : List Expression) :
    IsBehind ((prettyArguments es).toList ++ ')' :: r) := by
  cases es with
  | nil => exact isBehind_paren r
  | cons e es =>
      rw [prettyArguments_cons_append]
      exact isBehind_blank _

end Expression

/-! ## Words -/

/-- The kind of an expression that begins with a word in brief. -/
def kindOfWord (w : List Char) : NodeKind :=
  if w = "true".toList ∨ w = "false".toList then .boolean
  else if w = "null".toList then .null
  else if w.all Char.isDigit then .integer
  else .simple

/-- The kind of an expression in brackets, from what stands behind the opening one: its sign
is the word up to the first blank. -/
def kindInside (cs : List Char) : NodeKind :=
  let sign := cs.takeWhile (· ≠ ' ')
  if sign = "call".toList then
    if (cs.drop 5).takeWhile isWordChar = "callout".toList then .callout else .call
  else if sign = "!".toList then .unary
  else .binary

/-- The kind of the expression that a text in brief begins with. -/
def kindAt (cs : List Char) : NodeKind :=
  match cs.takeWhile isWordChar with
  | [] => if cs.head? = some '\'' then .character else kindInside cs.tail
  | c :: w => kindOfWord (c :: w)

/-- The word at the front of a text in brief is that of the text with what stands behind it. -/
theorem kindAt_append_of_word {text r w : List Char} (hr : IsBehind r)
    (h : text.takeWhile isWordChar = w) (hw : w ≠ []) : kindAt (text ++ r) = kindOfWord w := by
  rw [kindAt, takeWhile_append_of_head text hr.not_isWordChar, h]
  cases w with
  | nil => exact absurd rfl hw
  | cons c w => rfl

theorem kindAt_append_keyword (k : Keyword) {r : List Char} (hr : IsBehind r) :
    kindAt (k.spelling.toList ++ r) = kindOfWord k.spelling.toList :=
  kindAt_append_of_word hr (List.takeWhile_eq_self_iff.2 k.isWordText_spelling.2)
    k.isWordText_spelling.ne_nil

theorem kindAt_bracket (cs : List Char) : kindAt ('(' :: cs) = kindInside cs := rfl

theorem kindAt_quote (cs : List Char) : kindAt ('\'' :: cs) = .character := rfl

theorem kindInside_of_sign {sign rest : List Char} (h : ' ' ∉ sign) (hcall : sign ≠ "call".toList) :
    kindInside (sign ++ ' ' :: rest) = if sign = "!".toList then .unary else .binary := by
  have hsign : (sign ++ ' ' :: rest).takeWhile (· ≠ ' ') = sign := by
    rw [takeWhile_append_of_head sign (by simp)]
    exact List.takeWhile_eq_self_iff.2 fun c hc => decide_eq_true fun heq => h (heq ▸ hc)
  rw [kindInside, hsign, if_neg hcall]

theorem kindInside_call (rest : List Char) :
    kindInside ("call".toList ++ ' ' :: rest) =
      if rest.takeWhile isWordChar = "callout".toList then .callout else .call := rfl

/-- A name is none of the words that literals are written as. -/
theorem kindOfWord_name {w : List Char} (h : TokenKind.ident.Spells w) :
    kindOfWord w = .simple := by
  obtain ⟨⟨⟨c, hc, hstart⟩, -⟩, hreserved⟩ := h
  have hdigit : w.all Char.isDigit = false := by
    rw [List.all_eq_false]
    refine ⟨c, List.mem_of_mem_head? hc, fun hdigit => ?_⟩
    rw [not_isNameStart_of_isDigit hdigit] at hstart
    exact absurd hstart (by decide)
  have htrue : w ≠ "true".toList := hreserved .trueKw
  have hfalse : w ≠ "false".toList := hreserved .falseKw
  have hnull : w ≠ "null".toList := hreserved .nullKw
  rw [kindOfWord, if_neg (not_or.2 ⟨htrue, hfalse⟩), if_neg hnull, hdigit]
  rfl

theorem kindOfWord_digits {w : List Char} (hne : w ≠ []) (h : ∀ c ∈ w, c.isDigit = true) :
    kindOfWord w = .integer := by
  have hword : ∀ k : Keyword, w ≠ k.spelling.toList := by
    rintro k rfl
    obtain ⟨⟨c, hc, hstart⟩, -⟩ := k.isWordText_spelling
    rw [not_isNameStart_of_isDigit (h c (List.mem_of_mem_head? hc))] at hstart
    exact absurd hstart (by decide)
  have htrue : w ≠ "true".toList := hword .trueKw
  have hfalse : w ≠ "false".toList := hword .falseKw
  have hnull : w ≠ "null".toList := hword .nullKw
  rw [kindOfWord, if_neg (not_or.2 ⟨htrue, hfalse⟩), if_neg hnull, if_pos (List.all_eq_true.2 h)]

/-! ## Kinds -/

theorem InfixOp.toList_spelling (op : InfixOp) : ' ' ∉ op.spelling.toList ∧
    op.spelling.toList ≠ "call".toList ∧ op.spelling.toList ≠ "!".toList := by
  cases op <;> decide

/-- An integer without a sign is its digits. -/
theorem exists_digits {value : Int32} (h : 0 ≤ value.toInt) :
    ∃ n : Nat, value.toInt = n ∧ (toString value.toInt).toList = Nat.toDigits 10 n := by
  obtain ⟨n, hn⟩ := Int.eq_ofNat_of_zero_le h
  refine ⟨n, hn, ?_⟩
  rw [hn]
  exact Nat.toList_repr

namespace Expression

variable {e : Expression} {r : List Char}

/-- The front of a text in brief tells the kind of the expression. -/
theorem kindAt_pretty (h : e.Legible) (hr : IsBehind r) :
    kindAt (e.pretty.toList ++ r) = e.kind := by
  cases e with
  | simple p text =>
      obtain ⟨w, hw, hspells⟩ := h.1.exists_word
      rcases hspells with hthis | hname
      · exact (kindAt_append_of_word hr (hw.trans hthis) (by decide)).trans rfl
      · exact (kindAt_append_of_word hr hw hname.1.ne_nil).trans (kindOfWord_name hname)
  | binary p lhs sign rhs =>
      obtain ⟨-, ⟨op, rfl⟩, -⟩ := h
      obtain ⟨hblank, hcall, hnot⟩ := op.toList_spelling
      rw [pretty_binary_append, kindAt_bracket, kindInside_of_sign hblank hcall, if_neg hnot]
      rfl
  | unary p sign operand =>
      obtain ⟨rfl, -⟩ := h
      rw [pretty_unary_append, kindAt_bracket, kindInside_of_sign (by decide) (by decide)]
      rfl
  | call p method arguments =>
      have hroot :
          (method.pretty.toList ++ ((prettyArguments arguments).toList ++ ')' :: r)).takeWhile
            isWordChar = method.root.toList :=
        method.takeWhile_pretty h.1.isName_root (isBehind_arguments r arguments)
      have hcallout : method.root.toList ≠ "callout".toList :=
        h.1.isName_root.spells.2 .calloutKw
      rw [pretty_call_append, kindAt_bracket, kindInside_call, hroot, if_neg hcallout]
      rfl
  | callout p name arguments =>
      rw [pretty_callout_append, kindAt_bracket, kindInside_call]
      rfl
  | integer p value =>
      obtain ⟨n, -, htext⟩ := exists_digits h
      have hdigit : ∀ c ∈ Nat.toDigits 10 n, c.isDigit = true := fun c hc =>
        Nat.isDigit_of_mem_toDigits (by decide) (by decide) hc
      have hword : (toString value.toInt).toList.takeWhile isWordChar = Nat.toDigits 10 n := by
        rw [htext]
        exact List.takeWhile_eq_self_iff.2 fun c hc => isWordChar_of_isDigit (hdigit c hc)
      exact (kindAt_append_of_word hr hword Nat.toDigits_ne_nil).trans
        (kindOfWord_digits Nat.toDigits_ne_nil hdigit)
  | character p value =>
      rw [pretty_character_append, kindAt_quote]
      rfl
  | boolean p value =>
      cases value with
      | true => exact (kindAt_append_keyword .trueKw hr).trans rfl
      | false => exact (kindAt_append_keyword .falseKw hr).trans rfl
  | null p => exact (kindAt_append_keyword .nullKw hr).trans rfl

end Expression

end DecafFrontEnd
