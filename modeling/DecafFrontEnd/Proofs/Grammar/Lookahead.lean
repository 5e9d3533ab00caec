/-
  DecafFrontEnd/Proofs/Grammar/Lookahead.lean --- the lexemes a match begins with.

  The phrases inside a program are syntactic patterns: they are made of lexemes and
  of other phrases.  `Pattern.starters` lists the classes of lexemes that a syntactic
  pattern can begin with, and `Pattern.extenders` those that, behind a match of it,
  could make it go on.
  Both are read off the grammar: rules are unfolded to a depth at which nothing is
  added any more (`Rule.starters_body`, `Rule.extenders_body`).

  A pattern that takes something takes one of its starters first
  (`Covers.starts`), so it refuses a place where none of them stands
  (`Pattern.refuses_of_lacks`).
-/
import DecafFrontEnd.Proofs.Grammar.Depth

set_option autoImplicit false

namespace DecafFrontEnd

/-! ## Syntactic patterns -/

/-- Whether a primitive is a lexeme. -/
def Primitive.isSyntactic : Primitive → Bool
  | lexeme _ => true
  | inputStart | inputEnd | blank | comment | wordChar | charBody | trivia => false

/-- Whether a rule stands for a lexeme or for a phrase inside a program. -/
def Rule.isSyntactic : Rule → Bool
  | terminal _ => true
  | phrase p => p != .program
  | endOfInput | blank | comment | wordChar | anyKeyword | charBody | operator | punctuation
  | lexeme | trivia => false

/-- Whether a pattern is made of lexemes and phrases, and what is optional or
repeated in it takes something. -/
def Pattern.isSyntactic : Pattern → Bool
  | prim p => p.isSyntactic
  | rule r => r.isSyntactic
  | seq p q | alt p q => p.isSyntactic && q.isSyntactic
  | opt p | many p => p.isSyntactic && !p.nullable

theorem Rule.isSyntactic_body {r : Rule} (h : r.isSyntactic = true) :
    r.body.isSyntactic = true := by
  have key : ∀ r ∈ all, r.isSyntactic = true → r.body.isSyntactic = true := by decide
  exact key r (mem_all r) h

theorem Pattern.solid_of_isSyntactic {p : Pattern} (h : p.isSyntactic = true) :
    p.solid = true := by
  induction p with
  | prim p => rfl
  | rule r => rfl
  | seq p q ihp ihq | alt p q ihp ihq =>
      simp only [isSyntactic, Bool.and_eq_true] at h
      simp only [solid, Bool.and_eq_true]
      exact ⟨ihp h.1, ihq h.2⟩
  | opt p ih =>
      simp only [isSyntactic, Bool.and_eq_true] at h
      exact ih h.1
  | many p ih =>
      simp only [isSyntactic, Bool.and_eq_true] at h
      simp only [solid, Bool.and_eq_true]
      exact ⟨ih h.1, h.2⟩

/-! ## Starters -/

/-- The class that a primitive takes a lexeme of. -/
def Primitive.starters : Primitive → List Terminal
  | lexeme t => [t]
  | inputStart | inputEnd | blank | comment | wordChar | charBody | trivia => []

/-- The classes of lexemes that a pattern can begin with, given those of rules. -/
def Pattern.startersBy (ofRule : Rule → List Terminal) : Pattern → List Terminal
  | prim p => p.starters
  | rule r => ofRule r
  | seq p q => p.startersBy ofRule ++ if p.nullable then q.startersBy ofRule else []
  | alt p q => p.startersBy ofRule ++ q.startersBy ofRule
  | opt p | many p => p.startersBy ofRule

namespace Rule

/-- The classes of lexemes that a rule can begin with, rules unfolded to a depth. -/
def startersWithin : Nat → Rule → List Terminal
  | 0, _ => []
  | depth + 1, r => r.body.startersBy (startersWithin depth)

/-- A depth to which rules are unfolded. No rule has a higher rank. -/
def lookDepth : Nat := 16

/-- The classes of lexemes that a rule can begin with. -/
def starters (r : Rule) : List Terminal := r.startersWithin lookDepth

end Rule

/-- The classes of lexemes that a pattern can begin with. -/
def Pattern.starters (p : Pattern) : List Terminal := p.startersBy Rule.starters

namespace Pattern

variable (p q : Pattern)

@[simp] theorem starters_prim (p : Primitive) : (prim p).starters = p.starters := rfl

@[simp] theorem starters_seq :
    (seq p q).starters = p.starters ++ if p.nullable then q.starters else [] := rfl

end Pattern

theorem Rule.starters_body (r : Rule) : r.body.starters ⊆ r.starters := by
  have key : ∀ r ∈ all, ∀ t ∈ r.body.starters, t ∈ r.starters := by decide
  exact key r (mem_all r)

/-! ## Extenders -/

/-- The classes of lexemes that can make a match go on, given those of rules. -/
def Pattern.extendersBy (ofRule : Rule → List Terminal) : Pattern → List Terminal
  | prim _ => []
  | rule r => ofRule r
  | seq p q => q.extendersBy ofRule ++ if q.nullable then p.extendersBy ofRule else []
  | alt p q => p.extendersBy ofRule ++ q.extendersBy ofRule
  | opt p | many p => p.extendersBy ofRule ++ p.starters

namespace Rule

/-- What, behind a match of a later alternative, makes it a match of the rule: a
location with a parenthesis behind it is a call. -/
def turners : Rule → List Terminal
  | phrase .methodCall => [.lparen]
  | _ => []

/-- The classes of lexemes that can make the match of a rule go on, rules unfolded
to a depth. -/
def extendersWithin : Nat → Rule → List Terminal
  | 0, _ => []
  | depth + 1, r => r.body.extendersBy (extendersWithin depth) ++ r.turners

/-- The classes of lexemes that can make the match of a rule go on. -/
def extenders (r : Rule) : List Terminal := r.extendersWithin lookDepth

end Rule

/-- The classes of lexemes that can make the match of a pattern go on. -/
def Pattern.extenders (p : Pattern) : List Terminal := p.extendersBy Rule.extenders

namespace Pattern

variable (p q : Pattern)

@[simp] theorem extenders_seq :
    (seq p q).extenders = q.extenders ++ if q.nullable then p.extenders else [] := rfl

@[simp] theorem extenders_alt : (alt p q).extenders = p.extenders ++ q.extenders := rfl

@[simp] theorem extenders_opt : (opt p).extenders = p.extenders ++ p.starters := rfl

@[simp] theorem extenders_many : (many p).extenders = p.extenders ++ p.starters := rfl

end Pattern

theorem Rule.extenders_body (r : Rule) : r.body.extenders ++ r.turners ⊆ r.extenders := by
  have key : ∀ r ∈ all, ∀ t ∈ r.body.extenders ++ r.turners, t ∈ r.extenders := by
    decide +kernel
  exact key r (mem_all r)

/-! ## What stands at a place -/

/-- Whether no two classes of two lists are of one kin. -/
def Terminal.apart (ts ts' : List Terminal) : Bool :=
  ts.all fun t => ts'.all fun t' => t.kin != t'.kin

namespace Cursor

/-- A lexeme of a class starts at a place, perhaps with a longer one. -/
def Shows (c : Cursor) (t : Terminal) : Prop := ∃ l r, t.scan c.rest = some (l, r)

/-- A lexeme of one of these classes starts at a place. -/
def ShowsOne (c : Cursor) (ts : List Terminal) : Prop := ∃ t ∈ ts, c.Shows t

/-- No lexeme of any of these classes starts at a place. -/
def Lacks (c : Cursor) (ts : List Terminal) : Prop := ∀ t ∈ ts, ¬ c.Shows t

theorem Shows.kin_eq {c : Cursor} {t t' : Terminal} (h : c.Shows t) (h' : c.Shows t') :
    t.kin = t'.kin := by
  obtain ⟨l, r, hs⟩ := h
  obtain ⟨l', r', hs'⟩ := h'
  exact Terminal.kin_eq_of_scan hs hs'

theorem Lacks.subset {c : Cursor} {ts ts' : List Terminal} (h : c.Lacks ts) (hts : ts' ⊆ ts) :
    c.Lacks ts' := fun t ht => h t (hts ht)

theorem lacks_append {c : Cursor} {ts ts' : List Terminal} :
    c.Lacks (ts ++ ts') ↔ c.Lacks ts ∧ c.Lacks ts' := by
  constructor
  · intro h
    exact ⟨fun t ht => h t (List.mem_append_left _ ht),
      fun t ht => h t (List.mem_append_right _ ht)⟩
  · rintro ⟨h, h'⟩ t ht
    rcases List.mem_append.1 ht with ht | ht
    · exact h t ht
    · exact h' t ht

theorem Lacks.not_showsOne {c : Cursor} {ts : List Terminal} (h : c.Lacks ts) :
    ¬ c.ShowsOne ts := fun ⟨t, ht, hshows⟩ => h t ht hshows

/-- Where a lexeme of some classes starts, none starts of classes of other kin. -/
theorem ShowsOne.lacks {c : Cursor} {ts ts' : List Terminal} (h : c.ShowsOne ts)
    (hts : Terminal.apart ts' ts = true) : c.Lacks ts' := by
  obtain ⟨t, ht, hshows⟩ := h
  intro t' ht' hshows'
  simp only [Terminal.apart, List.all_eq_true, bne_iff_ne, ne_eq] at hts
  exact hts t' ht' t ht (hshows'.kin_eq hshows)

theorem ShowsOne.absurd {c : Cursor} {ts ts' : List Terminal} (h : c.ShowsOne ts)
    (h' : c.ShowsOne ts') (hts : Terminal.apart ts' ts = true) : False :=
  (h.lacks hts).not_showsOne h'

theorem ShowsOne.subset {c : Cursor} {ts ts' : List Terminal} (h : c.ShowsOne ts)
    (hts : ts ⊆ ts') : c.ShowsOne ts' := by
  obtain ⟨t, ht, hshows⟩ := h
  exact ⟨t, hts ht, hshows⟩

/-- No lexeme starts at the end of the text. -/
theorem lacks_of_rest_nil {c : Cursor} (h : c.rest = []) (ts : List Terminal) : c.Lacks ts := by
  rintro t _ ⟨l, r, hscan⟩
  have happend := Terminal.append_of_scan hscan
  rw [h, List.append_eq_nil_iff] at happend
  exact Terminal.ne_nil_of_scan hscan happend.1

end Cursor

/-! ## A match begins with a starter -/

/-- What a syntactic pattern covers is nothing or begins with one of its starters. -/
theorem Covers.starts {p : Pattern} {c d : Cursor} {nodes : List Tree}
    (h : Covers (.once p) c nodes d) (hp : p.isSyntactic = true) (hc : c.Rested) :
    d = c ∨ c.ShowsOne p.starters := by
  induction h using Covers.once_induction with
  | @prim p c text ht =>
      cases p with
      | lexeme t =>
          obtain ⟨⟨l, r⟩, hs, -⟩ := Option.map_eq_some_iff.1 ht
          exact Or.inr ⟨t, by simp [Primitive.starters], l, r, hs⟩
      | _ => simp [Pattern.isSyntactic, Primitive.isSyntactic] at hp
  | @rule r _ _ _ _ ih =>
      rcases ih (Rule.isSyntactic_body hp) hc with hd | hstarts
      · exact Or.inl hd
      · exact Or.inr (hstarts.subset r.starters_body)
  | @seq p q c d e _ _ hpc hqc ihp ihq =>
      simp only [Pattern.isSyntactic, Bool.and_eq_true] at hp
      rw [Pattern.starters_seq]
      rcases ihp hp.1 hc with rfl | hstarts
      · have hnull : p.nullable = true := by
          cases hnull : p.nullable with
          | true => rfl
          | false => exact absurd (hpc.length_lt hnull) (Nat.lt_irrefl _)
        rw [hc.skip_eq] at ihq
        rcases ihq hp.2 hc with he | hstarts
        · exact Or.inl he
        · rw [if_pos hnull]
          exact Or.inr (hstarts.subset (List.subset_append_right _ _))
      · exact Or.inr (hstarts.subset (List.subset_append_left _ _))
  | left _ ih =>
      simp only [Pattern.isSyntactic, Bool.and_eq_true] at hp
      rcases ih hp.1 hc with hd | hstarts
      · exact Or.inl hd
      · exact Or.inr (hstarts.subset (List.subset_append_left _ _))
  | right _ ih =>
      simp only [Pattern.isSyntactic, Bool.and_eq_true] at hp
      rcases ih hp.2 hc with hd | hstarts
      · exact Or.inl hd
      · exact Or.inr (hstarts.subset (List.subset_append_right _ _))
  | present _ ih =>
      simp only [Pattern.isSyntactic, Bool.and_eq_true] at hp
      exact ih hp.1 hc
  | absent | never => exact Or.inl rfl
  | many hpc _ ihp =>
      simp only [Pattern.isSyntactic, Bool.and_eq_true, Bool.not_eq_true'] at hp
      rcases ihp hp.1 hc with rfl | hstart
      · exact absurd (hpc.length_lt hp.2) (Nat.lt_irrefl _)
      · exact Or.inr hstart

namespace Pattern

variable {p : Pattern} {c : Cursor}

theorem starts (hp : p.isSyntactic = true) (hnull : p.nullable = false) (hc : c.Rested)
    {nodes : List Tree} {d : Cursor} (h : p.Matches c nodes d) :
    c.ShowsOne p.starters := by
  have hcovers := h.covers
  rcases hcovers.starts hp hc with rfl | hstart
  · exact absurd (hcovers.length_lt hnull) (Nat.lt_irrefl _)
  · exact hstart

theorem refuses_of_not_matches (hp : p.isSyntactic = true)
    (h : ∀ nodes d, ¬ p.Matches c nodes d) : p.Refuses c := by
  rcases p.refuses_or (solid_of_isSyntactic hp) c with hrefuses | ⟨nodes, d, hmatches⟩
  · exact hrefuses
  · exact absurd hmatches (h nodes d)

/-- A pattern that takes something refuses a place where none of its starters
stands. -/
theorem refuses_of_lacks (hp : p.isSyntactic = true) (hnull : p.nullable = false)
    (hc : c.Rested) (h : c.Lacks p.starters) : p.Refuses c :=
  refuses_of_not_matches hp fun _ _ hmatches => h.not_showsOne (starts hp hnull hc hmatches)

end Pattern

end DecafFrontEnd
