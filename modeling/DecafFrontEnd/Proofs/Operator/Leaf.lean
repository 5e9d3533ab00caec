/-
  DecafFrontEnd/Proofs/Operator/Leaf.lean --- expressions of one lexeme.

  The lexeme of a literal, of a name or of `this` is an operand that denotes it
  (`Expression.Spelled.yields`).  The tree of such an operand is derived from no other
  lexemes, so its value and the text that is kept of it are those of the lexeme.
-/
import DecafFrontEnd.Proofs.Lowering.Literal
import DecafFrontEnd.Proofs.Operator.Denotation

set_option autoImplicit false

namespace DecafFrontEnd

open Pattern

/-! ## The lexemes of small trees -/

namespace Derives

variable {ls : List Lexeme} {sks : List Skeleton}

theorem of_word {t : Terminal} (h : Derives (term t) ls sks) :
    ∃ text, ls = [⟨t, text⟩] ∧ sks = [.node (.terminal t) text []] := by
  cases h with
  | rule hbody =>
      have hlexeme : Derives (.prim (.lexeme t)) ls _ := hbody
      cases hlexeme with
      | lexeme l =>
          exact ⟨l.text, rfl, by simp [Rule.sketch, Rule.isSilent, Rule.word, Lexeme.texts]⟩

theorem of_phrase {p : Phrase} (h : Derives (Pattern.phrase p) ls sks) :
    ∃ inner, Derives p.body ls inner ∧ sks = [.node (.phrase p) [] inner] := by
  cases h with
  | rule hbody => exact ⟨_, hbody, rfl⟩

/-- Rounds that leave no trees have no lexemes. -/
theorem of_many_nil {p : Pattern} (hp : ∀ ls, ¬ Derives p ls []) (h : Derives (.many p) ls []) :
    ls = [] := by
  generalize hsks : ([] : List Skeleton) = sks at h
  cases h with
  | more hfirst _ =>
      obtain ⟨rfl, -⟩ := List.append_eq_nil_iff.1 hsks.symm
      exact absurd hfirst (hp _)
  | none => rfl

theorem lexemes_boolLit {k : Keyword} {text : List Char}
    (h : Derives Phrase.boolLit.body ls [.node (.terminal (.keyword k)) text []]) :
    ls = [⟨.keyword k, text⟩] := by
  cases h with
  | left htrue =>
      obtain ⟨_, rfl, hsk⟩ := htrue.of_word
      cases hsk
      rfl
  | right hfalse =>
      obtain ⟨_, rfl, hsk⟩ := hfalse.of_word
      cases hsk
      rfl

theorem lexemes_location {text : List Char}
    (h : Derives Phrase.location.body ls [.node (.terminal .ident) text []]) :
    ls = [⟨.ident, text⟩] := by
  generalize hsks : [Skeleton.node (.terminal .ident) text []] = sks at h
  cases h with
  | seq hname hselectors =>
      obtain ⟨_, rfl, rfl⟩ := hname.of_word
      obtain ⟨⟨⟩, rfl⟩ := List.cons.inj hsks
      have hnone : ∀ ls,
          ¬ Derives (Pattern.phrase .fieldAccess <|> Pattern.phrase .indexAccess) ls [] := by
        intro ls hselector
        cases hselector with
        | left hfield =>
            obtain ⟨_, -, hsk⟩ := hfield.of_phrase
            simp at hsk
        | right hindex =>
            obtain ⟨_, -, hsk⟩ := hindex.of_phrase
            simp at hsk
      rw [hselectors.of_many_nil hnone]
      rfl

theorem lexemes_simpleExpr_this {text : List Char}
    (h : Derives Phrase.simpleExpr.body ls [.node (.terminal (.keyword .thisKw)) text []]) :
    ls = [⟨.keyword .thisKw, text⟩] := by
  cases h with
  | left hthis =>
      obtain ⟨_, rfl, hsk⟩ := hthis.of_word
      cases hsk
      rfl
  | right hother =>
      cases hother with
      | left hcall =>
          obtain ⟨_, -, hsk⟩ := hcall.of_phrase
          cases hsk
      | right hlocation =>
          obtain ⟨_, -, hsk⟩ := hlocation.of_phrase
          cases hsk

theorem lexemes_simpleExpr_name {text : List Char}
    (h : Derives Phrase.simpleExpr.body ls
      [.node (.phrase .location) [] [.node (.terminal .ident) text []]]) :
    ls = [⟨.ident, text⟩] := by
  cases h with
  | left hthis =>
      obtain ⟨_, -, hsk⟩ := hthis.of_word
      cases hsk
  | right hother =>
      cases hother with
      | left hcall =>
          obtain ⟨_, -, hsk⟩ := hcall.of_phrase
          cases hsk
      | right hlocation =>
          obtain ⟨_, hbody, hsk⟩ := hlocation.of_phrase
          cases hsk
          exact hbody.lexemes_location

end Derives

/-! ## Values of literals -/

theorem integerValue_of_isWhole {v : Int32} {digits : List Char}
    (hwhole : (⟨.intLit, digits⟩ : Lexeme).IsWhole) (hv : v.toInt = decimalValue digits) :
    integerValue (String.ofList digits) = .ok v := by
  have hspells : (Rule.terminal .intLit).Spells digits := by
    refine ⟨[], ?_⟩
    rw [List.append_nil]
    exact hwhole.scan_text
  have hlt := v.toInt_lt
  have hle : decimalValue digits ≤ maxInteger := by
    unfold maxInteger
    omega
  rw [integerValue_eq hspells, if_neg (Nat.not_lt.2 hle), ← (eq_ofNat_iff hle v).2 hv]

theorem characterValue_quoted (c : Char) :
    characterValue (String.ofList (Lexeme.quoted c)) = .ok c := by
  unfold Lexeme.quoted
  split
  · next hc => simp [characterValue, stripQuotes, hc]
  · simp [characterValue, stripQuotes]

/-- A truth literal has the text of its word. -/
theorem Tree.Placed.text_boolLit {cs : List Char} {b : Bool} {start start' : Nat}
    {text : List Char} {word : List Char}
    (h : (Tree.node (.phrase .boolLit) start text
      [.node (.terminal (.keyword (if b then .trueKw else .falseKw))) start' word []]).Placed cs) :
    text = (Lexeme.word (if b then .trueKw else .falseKw)).text := by
  cases h with
  | @node _ _ _ _ c d hbounds _ _ _ =>
      obtain ⟨ls, hreads, hderives⟩ := hbounds.derives _ rfl
      obtain rfl := hderives.lexemes_boolLit
      obtain ⟨r, hscan⟩ := Lexeme.scan_of_first? hreads.of_one.1
      have hrest := hbounds.rest_eq
      rw [← Terminal.append_of_scan hscan] at hrest
      have hspells : text = _ ∨ text = _ := hbounds.spells
      have hword := scanKeyword_eq_some hscan
      subst hword
      rcases hspells with rfl | rfl
      · cases b with
        | true => rfl
        | false =>
            have hcons : 'f' :: _ = 't' :: _ := hrest
            simp at hcons
      · cases b with
        | true =>
            have hcons : 't' :: _ = 'f' :: _ := hrest
            simp at hcons
        | false => rfl

/-! ## Literals -/

/-- A location that is a name. -/
theorem Source.lowerLocation_name (s : Source) (start start' : Nat) (text name : List Char) :
    s.lowerLocation
        (.node (.phrase .location) start text [.node (.terminal .ident) start' name []]) =
      .ok ⟨s.positionAt start, String.ofList name, none, none⟩ := by
  rw [lowerLocation, expectRule_node, ok_bind]
  rfl

namespace Phrase.Yields

variable {l : Lexeme} {e : Expression} {p : Position}

theorem unary_of_literal (h : Phrase.literal.Yields [l] e) : Phrase.unaryExpr.Yields [l] e := by
  obtain ⟨sk, hderives, hsk⟩ := h
  exact unary_of_primary (.inner (by decide) (.right (.right (.right (.left hderives)))) hsk)

/-- A literal is lowered by the one node in it. -/
theorem literal {sk : Skeleton} (hderives : Derives Phrase.literal.body [l] [sk])
    (hvalue : ∀ (s : Source) (start : Nat) (text : List Char) (c : Tree), c.skeleton = sk →
      c.Placed s.chars → ∃ e', s.lowerLiteral (.node (.phrase .literal) start text [c]) = .ok e' ∧
        e'.unplaced = e.unplaced) :
    Phrase.literal.Yields [l] e := by
  refine ⟨_, .phrase hderives, ?_⟩
  intro s t ht hplaced
  obtain ⟨start, text, c, rfl, hc⟩ := Tree.skeleton_eq_wrapping ht
  obtain ⟨e', he', hunplaced⟩ := hvalue s start text c hc hplaced.child
  exact ⟨e', by rw [Source.lowerExpression, he'], hunplaced⟩

theorem integer {v : Int32} {digits : List Char}
    (hwhole : (⟨.intLit, digits⟩ : Lexeme).IsWhole) (hv : v.toInt = decimalValue digits) :
    Phrase.literal.Yields [⟨.intLit, digits⟩] (.integer p v) := by
  refine .literal (.left (.word ⟨.intLit, digits⟩)) ?_
  intro s start text c hc _
  obtain ⟨start', rfl⟩ := Tree.skeleton_eq_word (l := ⟨.intLit, digits⟩) hc
  refine ⟨.integer (s.positionAt start) v, ?_, by simp only [Expression.unplaced_integer]⟩
  simp only [Source.lowerLiteral, Source.onlyChild, Tree.children, ok_bind, Tree.rule,
    Tree.string, Tree.text, integerValue_of_isWhole hwhole hv, Source.valueAt, pure_eq_ok]
  rfl

theorem character {x : Char} :
    Phrase.literal.Yields [⟨.charLit, Lexeme.quoted x⟩] (.character p x) := by
  refine .literal (.right (.left (.word ⟨.charLit, Lexeme.quoted x⟩))) ?_
  intro s start text c hc _
  obtain ⟨start', rfl⟩ := Tree.skeleton_eq_word (l := ⟨.charLit, Lexeme.quoted x⟩) hc
  refine ⟨.character (s.positionAt start) x, ?_, by simp only [Expression.unplaced_character]⟩
  simp only [Source.lowerLiteral, Source.onlyChild, Tree.children, ok_bind, Tree.rule,
    Tree.string, Tree.text, characterValue_quoted, Source.valueAt, pure_eq_ok]
  rfl

theorem boolean {b : Bool} :
    Phrase.literal.Yields [.word (if b then .trueKw else .falseKw)] (.boolean p b) := by
  generalize hk : (if b then Keyword.trueKw else Keyword.falseKw) = k
  have hderives : Derives Phrase.boolLit.body [.word k]
      [.node (.terminal (.keyword k)) (Lexeme.word k).text []] := by
    subst hk
    cases b with
    | true => exact .left (.word (.word .trueKw))
    | false => exact .right (.word (.word .falseKw))
  refine .literal (.right (.right (.left (.phrase hderives)))) ?_
  intro s start text c hc hplaced
  obtain ⟨start', text', word, rfl, hword⟩ := Tree.skeleton_eq_wrapping hc
  obtain ⟨start'', rfl⟩ := Tree.skeleton_eq_word (l := .word k) hword
  subst hk
  obtain rfl := hplaced.text_boolLit
  refine ⟨.boolean (s.positionAt start) b, ?_, by simp only [Expression.unplaced_boolean]⟩
  cases b <;> rfl

theorem null : Phrase.literal.Yields [.word .nullKw] (.null p) := by
  have hderives : Derives Phrase.nullLit.body [.word .nullKw] [_] := .word (.word .nullKw)
  refine .literal (.right (.right (.right (.phrase hderives)))) ?_
  intro s start text c hc _
  obtain ⟨start', text', children, rfl, -, -⟩ := Tree.skeleton_eq_node hc
  exact ⟨.null (s.positionAt start), rfl, by simp only [Expression.unplaced_null]⟩

/-! ## Names and `this` -/

theorem unary_of_simpleExpr (h : Phrase.simpleExpr.Yields [l] e) :
    Phrase.unaryExpr.Yields [l] e := by
  obtain ⟨sk, hderives, hsk⟩ := h
  exact unary_of_primary (.inner (by decide) (.right (.right (.right (.right hderives)))) hsk)

theorem name {text : List Char} :
    Phrase.simpleExpr.Yields [⟨.ident, text⟩] (.simple p (String.ofList text)) := by
  have hderives : Derives Phrase.location.body ([⟨.ident, text⟩] ++ []) ([_] ++ []) :=
    .seq (.word ⟨.ident, text⟩) .none
  refine ⟨_, .phrase (.right (.right (.phrase hderives))), ?_⟩
  intro s t ht hplaced
  obtain ⟨start, kept, location, rfl, hlocation⟩ := Tree.skeleton_eq_wrapping ht
  have hlength := hplaced.byteLength_le (List.mem_singleton.2 rfl)
  obtain ⟨start', text', word, rfl, hword⟩ := Tree.skeleton_eq_wrapping hlocation
  have hlength' := hplaced.child.byteLength_le (List.mem_singleton.2 rfl)
  obtain ⟨start'', rfl⟩ := Tree.skeleton_eq_word (l := ⟨.ident, text⟩) hword
  have hkept := Source.slice_contentSpan hplaced
    (fun ls hls => hls.lexemes_simpleExpr_name) (Nat.le_trans hlength' hlength)
  refine ⟨.simple (s.positionAt start) (String.ofList text), ?_,
    by simp only [Expression.unplaced_simple]⟩
  simp only [Source.lowerExpression, Tree.rule, Source.lowerLocation_name, ok_bind, pure_eq_ok,
    hkept]
  rfl

theorem this : Phrase.simpleExpr.Yields [.word .thisKw] (.simple p "this") := by
  refine ⟨_, .phrase (.left (.word (.word .thisKw))), ?_⟩
  intro s t ht hplaced
  obtain ⟨start, kept, word, rfl, hword⟩ := Tree.skeleton_eq_wrapping ht
  obtain ⟨start', rfl⟩ := Tree.skeleton_eq_word (l := .word .thisKw) hword
  have hlength := hplaced.byteLength_le (List.mem_singleton.2 rfl)
  have hkept := Source.slice_contentSpan (l := .word .thisKw) hplaced
    (fun ls hls => hls.lexemes_simpleExpr_this) hlength
  refine ⟨.simple (s.positionAt start) "this", ?_, by simp only [Expression.unplaced_simple]⟩
  simp only [Source.lowerExpression, Tree.rule, Lexeme.word, pure_eq_ok, hkept]
  rfl

end Phrase.Yields

/-- An expression of one lexeme is an operand of any operator. -/
theorem Expression.Spelled.yields {e : Expression} {l : Lexeme} (h : e.Spelled l) :
    Phrase.unaryExpr.Yields [l] e := by
  cases h with
  | integer p hwhole hv => exact .unary_of_literal (.integer hwhole hv)
  | character p _ _ _ => exact .unary_of_literal .character
  | boolean p b => exact .unary_of_literal .boolean
  | null p => exact .unary_of_literal .null
  | name p _ => exact .unary_of_simpleExpr .name
  | this p => exact .unary_of_simpleExpr .this

end DecafFrontEnd
