/-
  DecafFrontEnd/Proofs/Grammar/Shape.lean --- the shape of a parse tree.

  A node is `Lawful` when its children are those that the body of its rule leaves
  (`Pattern.Leaves`), all of them are lawful again, and its text is one that the rule
  can spell.  Every tree of a match is lawful (`Covers.shape`), so what is proved of
  lawful trees by induction holds of all that the grammar gives.
-/
import DecafFrontEnd.Proofs.Grammar.Soundness

set_option autoImplicit false

namespace DecafFrontEnd

/-! ## What a pattern leaves -/

/-- The lists of nodes that a pattern can leave, judged by their rules. -/
def Pattern.Leaves : Pattern → List Tree → Prop
  | prim _, ts => ts = []
  | rule r, ts => ∃ t, ts = [t] ∧ t.rule = r
  | seq p q, ts => ∃ first second, ts = first ++ second ∧ p.Leaves first ∧ q.Leaves second
  | alt p q, ts => p.Leaves ts ∨ q.Leaves ts
  | opt p, ts => p.Leaves ts ∨ ts = []
  | many p, ts => ∃ rounds : List (List Tree), ts = rounds.flatten ∧ ∀ ts' ∈ rounds, p.Leaves ts'

/-- The texts that the node of a rule can have, where a value is made of them. -/
def Rule.Spells : Rule → List Char → Prop
  | terminal t, text => ∃ r, t.scan (text ++ r) = some (text, r)
  | phrase .boolLit, text =>
      text = Keyword.trueKw.spelling.toList ∨ text = Keyword.falseKw.spelling.toList
  | _, _ => True

namespace Tree

/-- A tree whose nodes are what the grammar says. -/
inductive Lawful : Tree → Prop
  | node {r : Rule} {start : Nat} {text : List Char} {children : List Tree} :
      r.body.Leaves children → (∀ t ∈ children, Lawful t) → r.Spells text →
      Lawful (.node r start text children)

theorem Lawful.children {t : Tree} (h : t.Lawful) : ∀ c ∈ t.children, c.Lawful := by
  cases h with
  | node _ hchildren _ => exact hchildren

theorem Lawful.leaves {t : Tree} {r : Rule} (h : t.Lawful) (hrule : t.rule = r) :
    r.body.Leaves t.children := by
  obtain rfl := hrule
  cases h with
  | node hleaves _ _ => exact hleaves

theorem Lawful.spells {t : Tree} {r : Rule} (h : t.Lawful) (hrule : t.rule = r) :
    r.Spells t.text := by
  obtain rfl := hrule
  cases h with
  | node _ _ hspells => exact hspells

end Tree

/-! ## The trees of a match are lawful -/

theorem Rule.leave_eq {r : Rule} (h : r.isSyntactic = true) (c d : Cursor)
    (nodes : List Tree) :
    r.leave c d nodes = [.node r c.offset (takeBytes (d.offset - c.offset) c.rest) nodes] := by
  cases r <;> first | rfl | simp [isSyntactic] at h

theorem Covers.scan_of_lexeme {t : Terminal} {c d : Cursor} {nodes : List Tree}
    (h : Covers (.once (.prim (.lexeme t))) c nodes d) :
    ∃ l r, t.scan c.rest = some (l, r) ∧ nodes = [] ∧ d = c.advance l.length := by
  cases h with
  | prim htake =>
      obtain ⟨r, hscan⟩ := Primitive.take?_lexeme.1 htake
      exact ⟨_, r, hscan, rfl, rfl⟩

/-- The text of the node of a lexeme is the lexeme. -/
theorem Rule.spells_terminal {t : Terminal} {c d : Cursor} {nodes : List Tree}
    (h : Covers (.once (.prim (.lexeme t))) c nodes d) :
    (terminal t).Spells (takeBytes (d.offset - c.offset) c.rest) := by
  obtain ⟨l, r, hscan, -, rfl⟩ := h.scan_of_lexeme
  have happend := Terminal.append_of_scan hscan
  refine ⟨r, ?_⟩
  rw [Cursor.takeBytes_advance happend.symm, happend]
  exact hscan

theorem scanKeyword_eq_some {k : Keyword} {cs l r : List Char}
    (h : scanKeyword k cs = some (l, r)) : l = k.spelling.toList := by
  unfold scanKeyword at h
  split at h
  · next hw =>
      simp only [Option.some.injEq, Prod.mk.injEq] at h
      rw [← h.1, hw]
  · simp at h

/-- A reserved word is spelled as it is. -/
theorem Covers.text_of_keyword {k : Keyword} {c d : Cursor} {nodes : List Tree}
    (h : Covers (.once (Pattern.kw k)) c nodes d) :
    takeBytes (d.offset - c.offset) c.rest = k.spelling.toList := by
  cases h with
  | rule hbody =>
      obtain ⟨l, r, hscan, -, rfl⟩ := hbody.scan_of_lexeme
      rw [Cursor.takeBytes_advance (Terminal.append_of_scan hscan).symm]
      exact scanKeyword_eq_some hscan

theorem Rule.spells_of_covers {r : Rule} {c d : Cursor} {nodes : List Tree}
    (h : Covers (.once r.body) c nodes d) :
    r.Spells (takeBytes (d.offset - c.offset) c.rest) := by
  cases r with
  | terminal t => exact spells_terminal h
  | phrase p =>
      cases p with
      | boolLit =>
          cases h with
          | left htrue => exact Or.inl htrue.text_of_keyword
          | right hfalse => exact Or.inr hfalse.text_of_keyword
      | _ => trivial
  | _ => trivial

/-- What a goal leaves: the nodes of a pattern, or of the rounds of a repetition. -/
def Goal.Leaves : Goal → List Tree → Prop
  | once p, ts => p.Leaves ts
  | again p, ts => (Pattern.many p).Leaves ts

/-- Another round of a repetition. -/
theorem Pattern.leaves_many_append {p : Pattern} {first others : List Tree}
    (hfirst : p.Leaves first) (hothers : (many p).Leaves others) :
    (many p).Leaves (first ++ others) := by
  obtain ⟨rounds, rfl, hrounds⟩ := hothers
  refine ⟨first :: rounds, rfl, ?_⟩
  intro ts hts
  rcases List.mem_cons.1 hts with rfl | hts
  · exact hfirst
  · exact hrounds ts hts

/-- What is covered has the shape of what covers it. -/
theorem Covers.shape {g : Goal} {c d : Cursor} {nodes : List Tree} (h : Covers g c nodes d)
    (hg : g.pattern.isSyntactic = true) : g.Leaves nodes ∧ ∀ t ∈ nodes, t.Lawful := by
  have happend : ∀ {ts ts' : List Tree}, (∀ t ∈ ts, t.Lawful) → (∀ t ∈ ts', t.Lawful) →
      ∀ t ∈ ts ++ ts', t.Lawful := by
    intro ts ts' hts hts' t ht
    rcases List.mem_append.1 ht with ht | ht
    · exact hts t ht
    · exact hts' t ht
  induction h with
  | prim _ => exact ⟨rfl, by simp⟩
  | @rule r c d nodes hbody ih =>
      obtain ⟨hleaves, hlawful⟩ := ih (Rule.isSyntactic_body hg)
      rw [Rule.leave_eq hg]
      refine ⟨⟨_, rfl, rfl⟩, ?_⟩
      intro t ht
      obtain rfl := List.mem_singleton.1 ht
      exact .node hleaves hlawful (Rule.spells_of_covers hbody)
  | seq _ _ ihp ihq =>
      simp only [Goal.pattern, Pattern.isSyntactic, Bool.and_eq_true] at hg
      obtain ⟨hp, hlawfulp⟩ := ihp hg.1
      obtain ⟨hq, hlawfulq⟩ := ihq hg.2
      exact ⟨⟨_, _, rfl, hp, hq⟩, happend hlawfulp hlawfulq⟩
  | left _ ih =>
      simp only [Goal.pattern, Pattern.isSyntactic, Bool.and_eq_true] at hg
      obtain ⟨hp, hlawful⟩ := ih hg.1
      exact ⟨Or.inl hp, hlawful⟩
  | right _ ih =>
      simp only [Goal.pattern, Pattern.isSyntactic, Bool.and_eq_true] at hg
      obtain ⟨hq, hlawful⟩ := ih hg.2
      exact ⟨Or.inr hq, hlawful⟩
  | present _ ih =>
      simp only [Goal.pattern, Pattern.isSyntactic, Bool.and_eq_true] at hg
      obtain ⟨hp, hlawful⟩ := ih hg.1
      exact ⟨Or.inl hp, hlawful⟩
  | absent => exact ⟨Or.inr rfl, by simp⟩
  | many _ _ ihp ihq =>
      simp only [Goal.pattern, Pattern.isSyntactic, Bool.and_eq_true] at hg
      obtain ⟨hp, hlawfulp⟩ := ihp hg.1
      obtain ⟨hq, hlawfulq⟩ := ihq hg.1
      exact ⟨Pattern.leaves_many_append hp hq, happend hlawfulp hlawfulq⟩
  | never | stop => exact ⟨⟨[], rfl, by simp⟩, by simp⟩
  | round _ _ ihp ihq =>
      obtain ⟨hp, hlawfulp⟩ := ihp hg
      obtain ⟨hq, hlawfulq⟩ := ihq hg
      exact ⟨Pattern.leaves_many_append hp hq, happend hlawfulp hlawfulq⟩

end DecafFrontEnd
