/-
  DecafFrontEnd/Proofs/Grammar/Coverage.lean --- what a match has matched.

  `Covers g c nodes d` says that the text between the places `c` and `d` has the
  form of the goal `g`, with trivia between its parts, and these nodes.  Of a run
  it keeps what was matched and forgets what was tried before, so the alternatives
  of a choice have no order here.  Whatever matches is covered
  (`Goal.Matches.covers`), and the properties of parse trees are proved from that.

  A pattern that is not `nullable` takes at least one character
  (`Covers.length_lt`).
-/
import DecafFrontEnd.Proofs.Grammar.Matches
import DecafFrontEnd.Proofs.Lexical.Reading

set_option autoImplicit false

namespace DecafFrontEnd

/-- The text between two places has the form of a goal. -/
inductive Covers : Goal → Cursor → List Tree → Cursor → Prop
  | prim {p : Primitive} {c : Cursor} {text : List Char} :
      p.take? c = some text → Covers (.once (.prim p)) c [] (c.advance text.length)
  | rule {r : Rule} {c d : Cursor} {nodes : List Tree} :
      Covers (.once r.body) c nodes d → Covers (.once (.rule r)) c (r.leave c d nodes) d
  | seq {p q : Pattern} {c d e : Cursor} {first second : List Tree} :
      Covers (.once p) c first d → Covers (.once q) d.skip second e →
      Covers (.once (.seq p q)) c (first ++ second) e
  | left {p q : Pattern} {c d : Cursor} {nodes : List Tree} :
      Covers (.once p) c nodes d → Covers (.once (.alt p q)) c nodes d
  | right {p q : Pattern} {c d : Cursor} {nodes : List Tree} :
      Covers (.once q) c nodes d → Covers (.once (.alt p q)) c nodes d
  | present {p : Pattern} {c d : Cursor} {nodes : List Tree} :
      Covers (.once p) c nodes d → Covers (.once (.opt p)) c nodes d
  | absent {p : Pattern} {c : Cursor} : Covers (.once (.opt p)) c [] c
  | many {p : Pattern} {c d e : Cursor} {first others : List Tree} :
      Covers (.once p) c first d → Covers (.again p) d others e →
      Covers (.once (.many p)) c (first ++ others) e
  | never {p : Pattern} {c : Cursor} : Covers (.once (.many p)) c [] c
  | round {p : Pattern} {c d e : Cursor} {first others : List Tree} :
      Covers (.once p) c.skip first d → Covers (.again p) d others e →
      Covers (.again p) c (first ++ others) e
  | stop {p : Pattern} {c : Cursor} : Covers (.again p) c [] c

theorem Runs.covers {g : Goal} {c d : Cursor} {a b : Attempts} {nodes : List Tree}
    (h : Runs g c a (.matched nodes d b)) : Covers g c nodes d := by
  have key : ∀ {g : Goal} {c : Cursor} {a : Attempts} {o : Outcome}, Runs g c a o →
      ∀ nodes d b, o = .matched nodes d b → Covers g c nodes d := by
    intro g c a o h
    induction h with
    | take ht => rintro _ _ _ ⟨⟩; exact .prim ht
    | rule _ ih => rintro _ _ _ ⟨⟩; exact .rule (ih _ _ _ rfl)
    | seq _ _ ihp ihq => rintro _ _ _ ⟨⟩; exact .seq (ihp _ _ _ rfl) (ihq _ _ _ rfl)
    | left _ ih => rintro _ _ _ ⟨⟩; exact .left (ih _ _ _ rfl)
    | right _ _ _ ihq => intro nodes d b ho; exact .right (ihq nodes d b ho)
    | present _ ih => rintro _ _ _ ⟨⟩; exact .present (ih _ _ _ rfl)
    | absent _ _ => rintro _ _ _ ⟨⟩; exact .absent
    | many _ _ ihp ihq => rintro _ _ _ ⟨⟩; exact .many (ihp _ _ _ rfl) (ihq _ _ _ rfl)
    | never _ _ => rintro _ _ _ ⟨⟩; exact .never
    | round _ _ ihp ihq => rintro _ _ _ ⟨⟩; exact .round (ihp _ _ _ rfl) (ihq _ _ _ rfl)
    | stop _ _ => rintro _ _ _ ⟨⟩; exact .stop
    | _ => rintro _ _ _ ⟨⟩
  exact key h nodes d b rfl

theorem Goal.Matches.covers {g : Goal} {c d : Cursor} {nodes : List Tree}
    (h : g.Matches c nodes d) : Covers g c nodes d := by
  obtain ⟨b, hb⟩ := h .none
  exact hb.covers

/-- An induction over what a pattern covers that does not look into the rounds of a
repetition behind the first. -/
@[elab_as_elim]
theorem Covers.once_induction
    {motive : ∀ (p : Pattern) (c : Cursor) (nodes : List Tree) (d : Cursor),
      Covers (.once p) c nodes d → Prop}
    (prim : ∀ {p : Primitive} {c : Cursor} {text : List Char} (h : p.take? c = some text),
      motive (.prim p) c [] (c.advance text.length) (.prim h))
    (rule : ∀ {r : Rule} {c d : Cursor} {nodes : List Tree}
      (h : Covers (.once r.body) c nodes d), motive r.body c nodes d h →
        motive (.rule r) c (r.leave c d nodes) d (.rule h))
    (seq : ∀ {p q : Pattern} {c d e : Cursor} {first second : List Tree}
      (hp : Covers (.once p) c first d) (hq : Covers (.once q) d.skip second e),
        motive p c first d hp → motive q d.skip second e hq →
        motive (.seq p q) c (first ++ second) e (.seq hp hq))
    (left : ∀ {p q : Pattern} {c d : Cursor} {nodes : List Tree}
      (h : Covers (.once p) c nodes d), motive p c nodes d h →
        motive (.alt p q) c nodes d (.left h))
    (right : ∀ {p q : Pattern} {c d : Cursor} {nodes : List Tree}
      (h : Covers (.once q) c nodes d), motive q c nodes d h →
        motive (.alt p q) c nodes d (.right h))
    (present : ∀ {p : Pattern} {c d : Cursor} {nodes : List Tree}
      (h : Covers (.once p) c nodes d), motive p c nodes d h →
        motive (.opt p) c nodes d (.present h))
    (absent : ∀ {p : Pattern} {c : Cursor}, motive (.opt p) c [] c .absent)
    (many : ∀ {p : Pattern} {c d e : Cursor} {first others : List Tree}
      (hp : Covers (.once p) c first d) (hq : Covers (.again p) d others e),
        motive p c first d hp → motive (.many p) c (first ++ others) e (.many hp hq))
    (never : ∀ {p : Pattern} {c : Cursor}, motive (.many p) c [] c .never)
    {p : Pattern} {c : Cursor} {nodes : List Tree} {d : Cursor}
    (h : Covers (.once p) c nodes d) : motive p c nodes d h := by
  let goal : ∀ (g : Goal) (c : Cursor) (nodes : List Tree) (d : Cursor),
      Covers g c nodes d → Prop
    | .once p, c, nodes, d, h => motive p c nodes d h
    | .again _, _, _, _, _ => True
  have key : ∀ {g : Goal} {c d : Cursor} {nodes : List Tree} (h : Covers g c nodes d),
      goal g c nodes d h := by
    intro g c d nodes h
    induction h with
    | prim h => exact prim h
    | rule h ih => exact rule h ih
    | seq hp hq ihp ihq => exact seq hp hq ihp ihq
    | left h ih => exact left h ih
    | right h ih => exact right h ih
    | present h ih => exact present h ih
    | absent => exact absent
    | many hp hq ihp _ => exact many hp hq ihp
    | never => exact never
    | round _ _ _ _ | stop => trivial
  exact key h

/-- A match never goes back. -/
theorem Covers.reaches {g : Goal} {c d : Cursor} {nodes : List Tree}
    (h : Covers g c nodes d) : c.Reaches d := by
  induction h with
  | prim _ => exact Cursor.reaches_advance _ _
  | rule _ ih => exact ih
  | seq _ _ ihp ihq => exact (ihp.trans (Cursor.reaches_skip _)).trans ihq
  | left _ ih => exact ih
  | right _ ih => exact ih
  | present _ ih => exact ih
  | absent => exact .refl _
  | many _ _ ihp ihq => exact ihp.trans ihq
  | never => exact .refl _
  | round _ _ ihp ihq => exact ((Cursor.reaches_skip _).trans ihp).trans ihq
  | stop => exact .refl _

/-! ## Patterns that match nothing -/

/-- Whether a primitive may take nothing. -/
def Primitive.nullable : Primitive → Bool
  | inputStart | inputEnd | trivia => true
  | lexeme _ | blank | comment | wordChar | charBody => false

/-- Whether a rule may take nothing. -/
def Rule.nullable : Rule → Bool
  | endOfInput | trivia => true
  | blank | comment | wordChar | terminal _ | anyKeyword | charBody | operator | punctuation
  | lexeme | phrase _ => false

/-- Whether a pattern may take nothing. -/
def Pattern.nullable : Pattern → Bool
  | prim p => p.nullable
  | rule r => r.nullable
  | seq p q => p.nullable && q.nullable
  | alt p q => p.nullable || q.nullable
  | opt _ | many _ => true

theorem Rule.nullable_of_body (r : Rule) (h : r.body.nullable = true) : r.nullable = true := by
  have key : ∀ r ∈ Rule.all, r.body.nullable = true → r.nullable = true := by decide
  exact key r (Rule.mem_all r) h

theorem ne_nil_of_take? {p : Primitive} {c : Cursor} {text : List Char}
    (h : p.take? c = some text) (hp : p.nullable = false) : text ≠ [] ∧ c.rest ≠ [] := by
  obtain ⟨offset, rest⟩ := c
  cases p with
  | lexeme t =>
      obtain ⟨⟨l, r⟩, hs, rfl⟩ := Option.map_eq_some_iff.1 h
      have hl := Terminal.ne_nil_of_scan hs
      refine ⟨hl, ?_⟩
      rw [← Terminal.append_of_scan hs]
      simp [hl]
  | blank | wordChar =>
      simp only [Primitive.take?, oneChar] at h
      split at h
      · next x rest' =>
          split at h
          · simp at h
            simp [← h]
          · simp at h
      · simp at h
  | comment =>
      simp only [Primitive.take?, scanComment] at h
      split at h
      · simp at h
        simp [← h]
      · simp at h
  | charBody =>
      simp only [Primitive.take?] at h
      unfold looseCharBody at h
      split at h
      · simp at h
      · split at h
        · obtain ⟨text', _, rfl⟩ := Option.map_eq_some_iff.1 h
          simp
        · split at h
          · simp at h
          · unfold triviaAndChar at h
            split at h
            · simp at h
            · simp at h
              simp [← h]
  | inputStart | inputEnd | trivia => simp [Primitive.nullable] at hp

/-- A pattern that is not nullable takes at least one character. -/
theorem Covers.length_lt {p : Pattern} {c d : Cursor} {nodes : List Tree}
    (h : Covers (.once p) c nodes d) (hnull : p.nullable = false) :
    d.rest.length < c.rest.length := by
  induction h using Covers.once_induction with
  | prim ht =>
      obtain ⟨htext, hrest⟩ := ne_nil_of_take? ht hnull
      have h1 := List.length_pos_iff.2 htext
      have h2 := List.length_pos_iff.2 hrest
      simp only [Cursor.rest_advance, List.length_drop]
      omega
  | @rule r _ _ _ _ ih =>
      apply ih
      cases hbody : r.body.nullable with
      | false => rfl
      | true => exact absurd (r.nullable_of_body hbody) (by simpa [Pattern.nullable] using hnull)
  | @seq _ _ _ d _ _ _ hp hq ihp ihq =>
      have h1 := hp.reaches.length_le
      have h2 := hq.reaches.length_le
      have h3 := (Cursor.reaches_skip d).length_le
      simp only [Pattern.nullable, Bool.and_eq_false_iff] at hnull
      rcases hnull with hnull | hnull
      · have := ihp hnull
        omega
      · have := ihq hnull
        omega
  | left _ ih =>
      simp only [Pattern.nullable, Bool.or_eq_false_iff] at hnull
      exact ih hnull.1
  | right _ ih =>
      simp only [Pattern.nullable, Bool.or_eq_false_iff] at hnull
      exact ih hnull.2
  | present _ _ | absent | many _ _ _ | never => simp [Pattern.nullable] at hnull

/-- A pattern that takes nothing is nullable. -/
theorem Covers.nullable {p : Pattern} {c : Cursor} {nodes : List Tree}
    (h : Covers (.once p) c nodes c) : p.nullable = true := by
  cases hnull : p.nullable with
  | true => rfl
  | false => exact absurd (h.length_lt hnull) (Nat.lt_irrefl _)

end DecafFrontEnd
