/-
  DecafFrontEnd/Proofs/Grammar/Matches.lean --- runs without their attempts.

  `p.Matches c nodes d` says that the pattern `p` matches at the place `c` with
  these nodes and ends at `d`, and `p.Refuses c` that it fails there, whatever was
  attempted before.  The lemmas below say for each sort of pattern when it does the
  one or the other, so that no later proof looks into a run.
-/
import DecafFrontEnd.Proofs.Grammar.Run

set_option autoImplicit false

namespace DecafFrontEnd

/-- A goal is matched between two places, with these nodes, whatever was
attempted before. -/
def Goal.Matches (g : Goal) (c : Cursor) (nodes : List Tree) (d : Cursor) : Prop :=
  ∀ a, ∃ b, Runs g c a (.matched nodes d b)

/-- A goal fails at a place, whatever was attempted before. -/
def Goal.Refuses (g : Goal) (c : Cursor) : Prop := ∀ a, ∃ b, Runs g c a (.failed b)

theorem Runs.matches {g : Goal} {c d : Cursor} {a b : Attempts} {nodes : List Tree}
    (h : Runs g c a (.matched nodes d b)) : g.Matches c nodes d :=
  fun a' => h.change_attempts a'

theorem Runs.refuses {g : Goal} {c : Cursor} {a b : Attempts} (h : Runs g c a (.failed b)) :
    g.Refuses c := fun a' => h.change_attempts a'

namespace Goal

theorem Matches.functional {g : Goal} {c d d' : Cursor} {nodes nodes' : List Tree}
    (h : g.Matches c nodes d) (h' : g.Matches c nodes' d') : nodes = nodes' ∧ d = d' := by
  obtain ⟨b, hb⟩ := h .none
  obtain ⟨b', hb'⟩ := h' .none
  have heq := Outcome.matched.inj (hb.functional hb')
  exact ⟨heq.1, heq.2.1⟩

end Goal

namespace Pattern

/-- A pattern matches at a place, with these nodes, and ends at another. -/
abbrev Matches (p : Pattern) (c : Cursor) (nodes : List Tree) (d : Cursor) : Prop :=
  (Goal.once p).Matches c nodes d

/-- A pattern fails at a place. -/
abbrev Refuses (p : Pattern) (c : Cursor) : Prop := (Goal.once p).Refuses c

variable {p q : Pattern} {c d : Cursor} {nodes : List Tree}

/-! ## Matching -/

theorem matches_prim {p : Primitive} :
    (prim p).Matches c nodes d ↔
      ∃ text, p.take? c = some text ∧ nodes = [] ∧ d = c.advance text.length := by
  constructor
  · intro h
    obtain ⟨b, hb⟩ := h .none
    cases hb with
    | take ht => exact ⟨_, ht, rfl, rfl⟩
  · rintro ⟨text, ht, rfl, rfl⟩
    exact fun a => ⟨a, .take ht⟩

theorem matches_rule {r : Rule} :
    (rule r).Matches c nodes d ↔
      ∃ inner, r.body.Matches c inner d ∧ nodes = r.leave c d inner := by
  constructor
  · intro h
    obtain ⟨b, hb⟩ := h .none
    cases hb with
    | rule hbody => exact ⟨_, hbody.matches, rfl⟩
  · rintro ⟨inner, h, rfl⟩ a
    obtain ⟨b, hb⟩ := h a
    exact ⟨b, .rule hb⟩

theorem matches_seq :
    (seq p q).Matches c nodes d ↔
      ∃ first m second, p.Matches c first m ∧ q.Matches m.skip second d ∧
        nodes = first ++ second := by
  constructor
  · intro h
    obtain ⟨b, hb⟩ := h .none
    cases hb with
    | seq hp hq => exact ⟨_, _, _, hp.matches, hq.matches, rfl⟩
  · rintro ⟨first, m, second, hp, hq, rfl⟩ a
    obtain ⟨b, hb⟩ := hp a
    obtain ⟨b', hb'⟩ := hq b
    exact ⟨b', .seq hb hb'⟩

theorem matches_alt :
    (alt p q).Matches c nodes d ↔
      p.Matches c nodes d ∨ p.Refuses c ∧ q.Matches c nodes d := by
  constructor
  · intro h
    obtain ⟨b, hb⟩ := h .none
    cases hb with
    | left hp => exact Or.inl hp.matches
    | right hp hq => exact Or.inr ⟨hp.refuses, hq.matches⟩
  · rintro (hp | ⟨hp, hq⟩) a
    · obtain ⟨b, hb⟩ := hp a
      exact ⟨b, .left hb⟩
    · obtain ⟨b, hb⟩ := hp a
      obtain ⟨b', hb'⟩ := hq b
      exact ⟨b', .right hb hb'⟩

theorem matches_opt :
    (opt p).Matches c nodes d ↔
      p.Matches c nodes d ∨ p.Refuses c ∧ nodes = [] ∧ d = c := by
  constructor
  · intro h
    obtain ⟨b, hb⟩ := h .none
    cases hb with
    | present hp => exact Or.inl hp.matches
    | absent hp => exact Or.inr ⟨hp.refuses, rfl, rfl⟩
  · rintro (hp | ⟨hp, rfl, rfl⟩) a
    · obtain ⟨b, hb⟩ := hp a
      exact ⟨b, .present hb⟩
    · obtain ⟨b, hb⟩ := hp a
      exact ⟨b, .absent hb⟩

theorem matches_many :
    (many p).Matches c nodes d ↔
      (∃ first m others, p.Matches c first m ∧ (Goal.again p).Matches m others d ∧
        nodes = first ++ others) ∨ p.Refuses c ∧ nodes = [] ∧ d = c := by
  constructor
  · intro h
    obtain ⟨b, hb⟩ := h .none
    cases hb with
    | many hp hq => exact Or.inl ⟨_, _, _, hp.matches, hq.matches, rfl⟩
    | never hp => exact Or.inr ⟨hp.refuses, rfl, rfl⟩
  · rintro (⟨first, m, others, hp, hq, rfl⟩ | ⟨hp, rfl, rfl⟩) a
    · obtain ⟨b, hb⟩ := hp a
      obtain ⟨b', hb'⟩ := hq b
      exact ⟨b', .many hb hb'⟩
    · obtain ⟨b, hb⟩ := hp a
      exact ⟨b, .never hb⟩

theorem matches_again :
    (Goal.again p).Matches c nodes d ↔
      (∃ first m others, p.Matches c.skip first m ∧ (Goal.again p).Matches m others d ∧
        nodes = first ++ others) ∨ p.Refuses c.skip ∧ nodes = [] ∧ d = c := by
  constructor
  · intro h
    obtain ⟨b, hb⟩ := h .none
    cases hb with
    | round hp hq => exact Or.inl ⟨_, _, _, hp.matches, hq.matches, rfl⟩
    | stop hp => exact Or.inr ⟨hp.refuses, rfl, rfl⟩
  · rintro (⟨first, m, others, hp, hq, rfl⟩ | ⟨hp, rfl, rfl⟩) a
    · obtain ⟨b, hb⟩ := hp a
      obtain ⟨b', hb'⟩ := hq b
      exact ⟨b', .round hb hb'⟩
    · obtain ⟨b, hb⟩ := hp a
      exact ⟨b, .stop hb⟩

end Pattern

end DecafFrontEnd
