/-
  DecafFrontEnd/Proofs/Grammar/Soundness.lean --- what matches has a derivation.

  A match takes whole lexemes, except that a lone `=` or `!` also fits the front of
  `==` and `!=`.  The place behind it then stands before an `=`, and nothing that
  may follow in the grammar starts there: `Pattern.isGuarded` checks that what can
  end with such a sign (`Pattern.isBlunt`) is never the end of a phrase and is
  followed by something that begins otherwise.

  A phrase that covers the text between two places is therefore derived from the
  lexemes read between them (`Covers.derives`).
-/
import DecafFrontEnd.Proofs.Grammar.Lookahead
import DecafFrontEnd.Proofs.Grammar.Derivation

set_option autoImplicit false

namespace DecafFrontEnd

/-! ## Signs that begin an operator -/

/-- Whether a pattern can end with a lone `=` or `!`, phrases apart. -/
def Pattern.isBlunt : Pattern → Bool
  | prim (.lexeme .assign) | prim (.lexeme .notOp) => true
  | rule (.terminal .assign) | rule (.terminal .notOp) => true
  | prim _ | rule _ => false
  | seq p q => q.isBlunt || q.nullable && p.isBlunt
  | alt p q => p.isBlunt || q.isBlunt
  | opt p | many p => p.isBlunt

/-- Whether a lone `=` or `!` in a pattern is always followed by something that
does not begin with an `=`. -/
def Pattern.isGuarded : Pattern → Bool
  | prim _ | rule _ => true
  | seq p q =>
      p.isGuarded && q.isGuarded &&
        (!p.isBlunt ||
          !q.nullable && !q.starters.contains .eqOp && !q.starters.contains .assign)
  | alt p q => p.isGuarded && q.isGuarded
  | opt p => p.isGuarded
  | many p => p.isGuarded && !p.isBlunt

theorem Phrase.isGuarded_body (p : Phrase) :
    p.body.isGuarded = true ∧ p.body.isBlunt = false := by
  have key : ∀ p ∈ all, p.body.isGuarded = true ∧ p.body.isBlunt = false := by decide
  exact key p (mem_all p)

theorem Rule.isGuarded_body {r : Rule} (hr : r.isSyntactic = true) :
    r.body.isGuarded = true ∧ (r.body.isBlunt = true → (Pattern.rule r).isBlunt = true) := by
  have key : ∀ r ∈ all, r.isSyntactic = true →
      r.body.isGuarded = true ∧ (r.body.isBlunt = true → (Pattern.rule r).isBlunt = true) := by
    decide
  exact key r (mem_all r) hr

namespace Pattern

/-- A syntactic pattern in which what ends with a lone sign is guarded. -/
def Regular (p : Pattern) : Prop := p.isSyntactic = true ∧ p.isGuarded = true

theorem regular_body {r : Rule} (h : (rule r).Regular) : r.body.Regular :=
  ⟨Rule.isSyntactic_body h.1, (Rule.isGuarded_body h.1).1⟩

theorem Regular.seq {p q : Pattern} (h : (seq p q).Regular) : p.Regular ∧ q.Regular := by
  simp only [Regular, isSyntactic, isGuarded, Bool.and_eq_true] at h
  exact ⟨⟨h.1.1, h.2.1.1⟩, h.1.2, h.2.1.2⟩

theorem Regular.alt {p q : Pattern} (h : (alt p q).Regular) : p.Regular ∧ q.Regular := by
  simp only [Regular, isSyntactic, isGuarded, Bool.and_eq_true] at h
  exact ⟨⟨h.1.1, h.2.1⟩, h.1.2, h.2.2⟩

theorem Regular.opt {p : Pattern} (h : (opt p).Regular) : p.Regular := by
  simp only [Regular, isSyntactic, isGuarded, Bool.and_eq_true] at h
  exact ⟨h.1.1, h.2⟩

theorem Regular.many {p : Pattern} (h : (many p).Regular) : p.Regular := by
  simp only [Regular, isSyntactic, isGuarded, Bool.and_eq_true] at h
  exact ⟨h.1.1, h.2.1⟩

end Pattern

/-- Only `==` and a lone `=` start with that sign. -/
theorem Terminal.eq_of_scan_eqSign {t : Terminal} {cs l r : List Char}
    (h : t.scan ('=' :: cs) = some (l, r)) : t = .eqOp ∨ t = .assign := by
  obtain ⟨c, hc, hlead⟩ := ofLead_of_scan h
  obtain rfl : '=' = c := Option.some.inj hc
  have heq : t.family = .eqOp := hlead.symm
  cases t with
  | notOp =>
      have hscan : scanAny [['!']] ('=' :: cs) = some (l, r) := h
      obtain ⟨hl, hcs⟩ := append_of_scanAny hscan
      obtain rfl : l = ['!'] := by simpa using hl
      simp at hcs
  | eqOp => exact Or.inl rfl
  | assign => exact Or.inr rfl
  | _ => simp [family, kin] at heq

/-! ## Derivations of nothing -/

/-- A pattern that stands for no lexemes is nullable. -/
theorem Derives.nullable {p : Pattern} {ls : List Lexeme} {ts : List Skeleton}
    (h : Derives p ls ts) (hls : ls = []) : p.nullable = true := by
  induction h with
  | inputStart | inputEnd => rfl
  | lexeme l => simp at hls
  | @rule r ls ts _ ih => exact r.nullable_of_body (ih hls)
  | seq _ _ ihp ihq =>
      obtain ⟨hfirst, hsecond⟩ := List.append_eq_nil_iff.1 hls
      simp [Pattern.nullable, ihp hfirst, ihq hsecond]
  | left _ ih => simp [Pattern.nullable, ih hls]
  | right _ ih => simp [Pattern.nullable, ih hls]
  | present _ _ | absent | more _ _ _ _ | none => rfl

/-- A lexeme or a phrase stands for some lexemes. -/
theorem Derives.ne_nil {r : Rule} {ls : List Lexeme} {ts : List Skeleton}
    (h : Derives (.rule r) ls ts) (hr : r.isSyntactic = true) : ls ≠ [] := by
  intro hls
  have hnull := h.nullable hls
  cases r <;> simp_all [Rule.isSyntactic, Pattern.nullable, Rule.nullable]

/-! ## The word of a lexeme -/

namespace Cursor

theorem takeBytes_advance {c : Cursor} {l r : List Char} (h : c.rest = l ++ r) :
    takeBytes ((c.advance l.length).offset - c.offset) c.rest = l := by
  rw [advance_length h, Nat.add_sub_cancel_left, h, takeBytes_byteLength_append]

end Cursor

theorem Primitive.take?_lexeme {t : Terminal} {c : Cursor} {text : List Char} :
    (lexeme t).take? c = some text ↔ ∃ r, t.scan c.rest = some (text, r) := by
  simp [take?]

/-- The tree of a lexeme keeps its text. -/
theorem Rule.skeletons_leave_terminal {t : Terminal} {c : Cursor} {l r : List Char}
    (h : t.scan c.rest = some (l, r)) :
    Tree.skeletons ((terminal t).leave c (c.advance l.length) []) =
      (terminal t).sketch [⟨t, l⟩] [] := by
  have htext := Cursor.takeBytes_advance (Terminal.append_of_scan h).symm
  simp [leave, sketch, isSilent, Tree.skeleton, word, htext, Lexeme.texts]

/-! ## Reading what a match takes -/

/-- A lexeme that is matched is read, unless an `=` makes it a longer operator. -/
theorem Cursor.reads_of_scan {t : Terminal} {c : Cursor} {l r : List Char}
    (h : t.scan c.rest = some (l, r)) :
    c.Reads [⟨t, l⟩] (c.advance l.length).skip ∨
      (t = .assign ∨ t = .notOp) ∧ ∃ r', (c.advance l.length).rest = '=' :: r' := by
  rcases Lexeme.first?_of_scan h with hfirst | ⟨ht, r', hr, -⟩
  · exact Or.inl (.one hfirst)
  · refine Or.inr ⟨ht, r', ?_⟩
    rw [Cursor.advance_length (Terminal.append_of_scan h).symm, hr]

/-- The lexemes between two places derive a pattern with these trees. -/
def DerivesBetween (p : Pattern) (c : Cursor) (nodes : List Tree) (d : Cursor) : Prop :=
  ∃ ls, c.Reads ls d.skip ∧ Derives p ls (Tree.skeletons nodes)

namespace DerivesBetween

variable {p q : Pattern} {c d e : Cursor} {first second : List Tree}

/-- Nothing is derived from no lexemes. -/
theorem nothing (hc : c.Rested) (h : Derives p [] []) : DerivesBetween p c [] c :=
  ⟨[], by rw [hc.skip_eq]; exact .nil c, h⟩

theorem seq (h : DerivesBetween p c first d) (h' : DerivesBetween q d.skip second e) :
    DerivesBetween (.seq p q) c (first ++ second) e := by
  obtain ⟨ls, hreads, hderives⟩ := h
  obtain ⟨ls', hreads', hderives'⟩ := h'
  refine ⟨ls ++ ls', hreads.append hreads', ?_⟩
  rw [Tree.skeletons_append]
  exact .seq hderives hderives'

theorem more (h : DerivesBetween p c first d) (h' : DerivesBetween (.many p) d.skip second e) :
    DerivesBetween (.many p) c (first ++ second) e := by
  obtain ⟨ls, hreads, hderives⟩ := h
  obtain ⟨ls', hreads', hderives'⟩ := h'
  refine ⟨ls ++ ls', hreads.append hreads', ?_⟩
  rw [Tree.skeletons_append]
  exact .more hderives hderives'

end DerivesBetween

/-- What holds of what a goal covers: a pattern is derived from the lexemes there,
unless it ends with a sign taken off the front of an operator; and rounds behind the
first are derived if a round does not end so. -/
def Goal.Explained : Goal → Cursor → List Tree → Cursor → Prop
  | once p, c, nodes, d =>
      p.isSyntactic = true → p.isGuarded = true → c.Rested →
        DerivesBetween p c nodes d ∨ p.isBlunt = true ∧ ∃ r, d.rest = '=' :: r
  | again p, c, nodes, d =>
      p.isSyntactic = true → p.isGuarded = true → p.isBlunt = false →
        DerivesBetween (.many p) c.skip nodes d

/-- Behind a sign taken off the front of an operator nothing matches that begins
otherwise. -/
theorem Covers.not_behind_sign {q : Pattern} {d e : Cursor} {nodes : List Tree} {r : List Char}
    (h : Covers (.once q) d nodes e) (hq : q.isSyntactic = true) (hnull : q.nullable = false)
    (hop : Terminal.eqOp ∉ q.starters) (hsign : Terminal.assign ∉ q.starters)
    (hd : d.rest = '=' :: r) : False := by
  have hrested : d.Rested := Cursor.rested_of_head hd (by decide) (by decide)
  rcases h.starts hq hrested with rfl | ⟨t, ht, l, r', hscan⟩
  · exact absurd (h.length_lt hnull) (Nat.lt_irrefl _)
  · rw [hd] at hscan
    rcases Terminal.eq_of_scan_eqSign hscan with rfl | rfl
    · exact hop ht
    · exact hsign ht

theorem Covers.explained {g : Goal} {c d : Cursor} {nodes : List Tree}
    (h : Covers g c nodes d) : g.Explained c nodes d := by
  induction h with
  | @prim p c text ht =>
      intro hp _ hc
      cases p with
      | lexeme t =>
          obtain ⟨r, hscan⟩ := Primitive.take?_lexeme.1 ht
          rcases Cursor.reads_of_scan hscan with hreads | ⟨ht, hr⟩
          · exact Or.inl ⟨_, hreads, .lexeme ⟨t, text⟩⟩
          · refine Or.inr ⟨?_, hr⟩
            rcases ht with rfl | rfl <;> rfl
      | _ => simp [Pattern.isSyntactic, Primitive.isSyntactic] at hp
  | @rule r c d nodes hbody ih =>
      intro hp hg hc
      cases r with
      | terminal t =>
          cases hbody with
          | prim ht =>
              obtain ⟨r, hscan⟩ := Primitive.take?_lexeme.1 ht
              rcases Cursor.reads_of_scan hscan with hreads | ⟨ht, hr⟩
              · refine Or.inl ⟨_, hreads, ?_⟩
                rw [Rule.skeletons_leave_terminal hscan]
                exact .rule (.lexeme ⟨t, _⟩)
              · refine Or.inr ⟨?_, hr⟩
                rcases ht with rfl | rfl <;> rfl
      | phrase p =>
          obtain ⟨hguarded, hblunt⟩ := p.isGuarded_body
          rcases ih (Rule.isSyntactic_body hp) hguarded hc with
            ⟨ls, hreads, hderives⟩ | ⟨hblunt', -⟩
          · exact Or.inl ⟨ls, hreads, .rule hderives⟩
          · exact absurd (hblunt'.symm.trans hblunt) (by simp)
      | _ => simp [Pattern.isSyntactic, Rule.isSyntactic] at hp
  | @seq p q c d e first second hpc hqc ihp ihq =>
      intro hp hg hc
      simp only [Pattern.isSyntactic, Bool.and_eq_true] at hp
      simp only [Pattern.isGuarded, Bool.and_eq_true] at hg
      obtain ⟨⟨hgp, hgq⟩, hfollow⟩ := hg
      rcases ihp hp.1 hgp hc with hfirst | ⟨hblunt, r, hr⟩
      · rcases ihq hp.2 hgq d.rested_skip with hsecond | ⟨hblunt, hr⟩
        · exact Or.inl (hfirst.seq hsecond)
        · exact Or.inr ⟨by simp [Pattern.isBlunt, hblunt], hr⟩
      · have hrested : d.Rested := Cursor.rested_of_head hr (by decide) (by decide)
        rw [hrested.skip_eq] at hqc
        simp only [hblunt, Bool.not_true, Bool.false_or, Bool.and_eq_true, Bool.not_eq_true',
          List.contains_eq_mem, decide_eq_false_iff_not] at hfollow
        exact (hqc.not_behind_sign hp.2 hfollow.1.1 hfollow.1.2 hfollow.2 hr).elim
  | left _ ih =>
      intro hp hg hc
      simp only [Pattern.isSyntactic, Bool.and_eq_true] at hp
      simp only [Pattern.isGuarded, Bool.and_eq_true] at hg
      rcases ih hp.1 hg.1 hc with ⟨ls, hreads, hderives⟩ | ⟨hblunt, hr⟩
      · exact Or.inl ⟨ls, hreads, .left hderives⟩
      · exact Or.inr ⟨by simp [Pattern.isBlunt, hblunt], hr⟩
  | right _ ih =>
      intro hp hg hc
      simp only [Pattern.isSyntactic, Bool.and_eq_true] at hp
      simp only [Pattern.isGuarded, Bool.and_eq_true] at hg
      rcases ih hp.2 hg.2 hc with ⟨ls, hreads, hderives⟩ | ⟨hblunt, hr⟩
      · exact Or.inl ⟨ls, hreads, .right hderives⟩
      · exact Or.inr ⟨by simp [Pattern.isBlunt, hblunt], hr⟩
  | present _ ih =>
      intro hp hg hc
      simp only [Pattern.isSyntactic, Bool.and_eq_true] at hp
      rcases ih hp.1 hg hc with ⟨ls, hreads, hderives⟩ | ⟨hblunt, hr⟩
      · exact Or.inl ⟨ls, hreads, .present hderives⟩
      · exact Or.inr ⟨hblunt, hr⟩
  | absent =>
      intro _ _ hc
      exact Or.inl (.nothing hc .absent)
  | many _ _ ihp ihq =>
      intro hp hg hc
      simp only [Pattern.isSyntactic, Bool.and_eq_true] at hp
      simp only [Pattern.isGuarded, Bool.and_eq_true, Bool.not_eq_true'] at hg
      rcases ihp hp.1 hg.1 hc with hfirst | ⟨hblunt, -⟩
      · exact Or.inl (hfirst.more (ihq hp.1 hg.1 hg.2))
      · exact absurd (hblunt.symm.trans hg.2) (by simp)
  | never =>
      intro _ _ hc
      exact Or.inl (.nothing hc .none)
  | @round _ c _ _ _ _ _ _ ihp ihq =>
      intro hp hg hblunt
      rcases ihp hp hg c.rested_skip with hfirst | ⟨hblunt', -⟩
      · exact hfirst.more (ihq hp hg hblunt)
      · exact absurd (hblunt'.symm.trans hblunt) (by simp)
  | stop =>
      intro _ _ _
      exact ⟨[], .nil _, .none⟩

/-- What a syntactic pattern covers is derived from the lexemes there, if it does
not end with a lone `=` or `!`. -/
theorem Covers.derives {p : Pattern} {c d : Cursor} {nodes : List Tree}
    (h : Covers (.once p) c nodes d) (hp : p.isSyntactic = true) (hg : p.isGuarded = true)
    (hblunt : p.isBlunt = false) (hc : c.Rested) : DerivesBetween p c nodes d := by
  rcases h.explained hp hg hc with hderives | ⟨hblunt', -⟩
  · exact hderives
  · exact absurd (hblunt'.symm.trans hblunt) (by simp)

end DecafFrontEnd
