/-
  DecafFrontEnd/Proofs/Grammar/Lexeme.lean --- the rules that read one lexeme at a time.

  The grammar has a rule for any lexeme, a choice between all classes in the order in
  which a lexeme is looked for, and a rule for trivia.  Matched at the front of a text the
  first takes the lexeme there, and leaves it as a node of its class within its own
  (`Source.parseRule_lexeme`); the second takes the trivia there
  (`Source.parseRule_trivia`).
-/
import DecafFrontEnd.Proofs.Grammar.Depth
import DecafFrontEnd.Proofs.Grammar.Soundness

set_option autoImplicit false

namespace DecafFrontEnd

open Pattern

/-- A rule whose body takes a text leaves a node of the text. -/
theorem Pattern.matches_node {r : Rule} {c : Cursor} {text rest : List Char} {nodes : List Tree}
    (hr : r.isSilent = false) (hrest : c.rest = text ++ rest)
    (h : r.body.Matches c nodes (c.advance text.length)) :
    (rule r).Matches c [.node r c.offset text nodes] (c.advance text.length) := by
  refine matches_rule.2 ⟨nodes, h, ?_⟩
  rw [Rule.leave, hr, Cursor.takeBytes_advance hrest]
  rfl

/-! ## Choices between classes of lexemes -/

/-- A pattern tries some classes of lexemes in order, itself or through rules that leave
no node. -/
inductive Pattern.Tries : Pattern → List Terminal → Prop
  | term (t : Terminal) : Tries (term t) [t]
  | alt {p q : Pattern} {ts us : List Terminal} :
      Tries p ts → Tries q us → Tries (alt p q) (ts ++ us)
  | silent {r : Rule} {ts : List Terminal} :
      r.isSilent = true → Tries r.body ts → Tries (rule r) ts

/-- The first lexeme of some classes that fits at the front of a text. -/
def Lexeme.firstOf (ts : List Terminal) (cs : List Char) : Option Lexeme :=
  ts.findSome? fun t => (t.scan cs).map fun x => ⟨t, x.1⟩

namespace Pattern.Tries

variable {p q : Pattern} {ts : List Terminal} {t : Terminal} {c : Cursor} {l : Lexeme}

theorem cons (h : q.Tries ts) : (Pattern.alt (Pattern.term t) q).Tries (t :: ts) :=
  .alt (.term t) h

theorem anyKeyword : Rule.anyKeyword.body.Tries (Keyword.all.map .keyword) :=
  .cons (.cons (.cons (.cons (.cons (.cons (.cons (.cons (.cons (.cons (.cons (.cons
    (.cons (.cons (.term _))))))))))))))

/-- The rule for any lexeme tries the classes in the order of the lexer. -/
theorem order : Rule.lexeme.body.Tries Terminal.order := by
  have hoperators : Rule.operator.body.Tries Terminal.operators :=
    .cons (.cons (.cons (.cons (.cons (.cons (.cons (.term _)))))))
  have hmarks : Rule.punctuation.body.Tries Terminal.marks :=
    .cons (.cons (.cons (.cons (.cons (.cons (.cons (.cons (.term _))))))))
  have hsigns := Tries.alt (.silent rfl hoperators) (.silent rfl hmarks)
  exact .alt (.silent rfl anyKeyword) (.cons (.cons (.cons (.cons hsigns))))

/-- Where none of the classes fits each of them is recorded. -/
theorem runs_of_none (h : p.Tries ts) (hnone : Lexeme.firstOf ts c.rest = none)
    (rules : List Rule) :
    Runs (.once p) c ⟨c.offset, rules⟩ (.failed ⟨c.offset, rules ++ ts.map .terminal⟩) := by
  induction h generalizing rules with
  | term t =>
      have hscan : t.scan c.rest = none := by simpa [Lexeme.firstOf] using hnone
      have hmiss : (Primitive.lexeme t).take? c = none := by
        rw [Primitive.take?, hscan, Option.map_none]
      have hblame : (Rule.terminal t).blame c ⟨c.offset, rules⟩ ⟨c.offset, rules⟩ =
          ⟨c.offset, rules ++ [.terminal t]⟩ := by
        simp [Rule.blame, Rule.isSilent, Attempts.record, Attempts.countAt]
      exact hblame ▸ .ruleFails (.miss hmiss)
  | @alt p q ts us _ _ ihp ihq =>
      simp only [Lexeme.firstOf, List.findSome?_append, Option.or_eq_none_iff] at hnone
      have hq := ihq hnone.2 (rules ++ ts.map .terminal)
      rw [List.append_assoc, ← List.map_append] at hq
      exact .right (ihp hnone.1 rules) hq
  | @silent r ts hsilent _ ih =>
      have hfails := Runs.ruleFails (r := r) (ih hnone rules)
      rwa [Rule.blame, if_pos hsilent] at hfails

/-- The first class that fits leaves its lexeme as a node. -/
theorem matches_of_some (h : p.Tries ts) (hsome : Lexeme.firstOf ts c.rest = some l) :
    p.Matches c [.node (.terminal l.terminal) c.offset l.text []]
      (c.advance l.text.length) := by
  induction h with
  | term t =>
      obtain ⟨⟨text, r⟩, hscan, rfl⟩ : ∃ x, t.scan c.rest = some x ∧ ⟨t, x.1⟩ = l := by
        simpa [Lexeme.firstOf] using hsome
      have htake := Primitive.take?_lexeme.2 ⟨r, hscan⟩
      exact matches_node rfl (Terminal.append_of_scan hscan).symm
        (matches_prim.2 ⟨text, htake, rfl, rfl⟩)
  | @alt p q ts us hp _ ihp ihq =>
      simp only [Lexeme.firstOf, List.findSome?_append, Option.or_eq_some_iff] at hsome
      obtain hfirst | ⟨hnone, hsecond⟩ := hsome
      · exact matches_alt.2 (Or.inl (ihp hfirst))
      · exact matches_alt.2 (Or.inr ⟨(hp.runs_of_none hnone []).refuses, ihq hsecond⟩)
  | @silent r ts hsilent _ ih =>
      refine matches_rule.2 ⟨_, ih hsome, ?_⟩
      rw [Rule.leave, if_pos hsilent]

end Pattern.Tries

/-! ## The rule for any lexeme and the rule for trivia -/

namespace Source

theorem parseRule_of_matches {s : Source} {r : Rule} {nodes : List Tree} {d : Cursor}
    (h : (rule r).Matches (Cursor.start s.chars) nodes d) : s.parseRule r = .ok nodes := by
  obtain ⟨b, hb⟩ := h .none
  rw [parseRule, Rule.matchAt_eq hb]

/-- The rule for any lexeme takes the lexeme at the front of a text. Where there is none it
is the only rule recorded. -/
theorem parseRule_lexeme (s : Source) :
    s.parseRule .lexeme =
      match Lexeme.first? s.chars with
      | some l => .ok [.node .lexeme 0 l.text [.node (.terminal l.terminal) 0 l.text []]]
      | none => .error ⟨0, [.lexeme]⟩ := by
  cases hfirst : Lexeme.first? s.chars with
  | some l =>
      have hbody := Tries.order.matches_of_some (c := Cursor.start s.chars) hfirst
      obtain ⟨r, hscan⟩ := Lexeme.scan_of_first? hfirst
      have hchars : s.chars = l.text ++ r := (Terminal.append_of_scan hscan).symm
      exact parseRule_of_matches (matches_node rfl hchars hbody)
  | none =>
      have hbody := Tries.order.runs_of_none (c := Cursor.start s.chars) hfirst []
      have hrun : Runs (.once (.rule .lexeme)) (Cursor.start s.chars) .none _ := .ruleFails hbody
      rw [parseRule, Rule.matchAt_eq hrun]
      rfl

/-- The rule for trivia takes the trivia at the front of a text. -/
theorem parseRule_trivia (s : Source) :
    s.parseRule .trivia = .ok [.node .trivia 0 (leadingTrivia s.chars) []] := by
  have hchars := (leadingTrivia_append_skipTrivia s.chars).symm
  exact parseRule_of_matches (matches_node rfl hchars (matches_prim.2 ⟨_, rfl, rfl, rfl⟩))

end Source

end DecafFrontEnd
