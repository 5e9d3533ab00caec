/-
  DecafFrontEnd/Proofs/Grammar/Completeness.lean --- what is covered matches.

  What a pattern covers up to a place is matched, with the same nodes, if the pattern
  stops there (`Covers.matches`).  The induction is on the covering; each part of it is
  matched up to where the next one begins, which is where the pattern was decided to
  stop.

  The lexemes of a derivation, read from a place on, are covered from there, so they
  are matched, and the tree of the match is that of the derivation
  (`Derives.exists_match`).
-/
import DecafFrontEnd.Proofs.Grammar.Decision
import DecafFrontEnd.Proofs.Grammar.Soundness

set_option autoImplicit false

namespace DecafFrontEnd

open Pattern

/-! ## What is covered is matched -/

/-- What holds of what a goal covers: a decided pattern that stops behind it matches it,
and so do the rounds of a repetition behind the first. -/
def Goal.Chosen : Goal → Cursor → List Tree → Cursor → Prop
  | once p, c, nodes, d =>
      p.isSyntactic = true → p.Decided → c.Rested → p.StopsAt d.skip → p.Matches c nodes d
  | again p, c, nodes, d =>
      (many p).isSyntactic = true → (many p).Decided → (many p).StopsAt d.skip →
        (again p).Matches c nodes d

/-- A round stops before another one, or where the repetition does. -/
theorem stopsAt_of_again {p : Pattern} {d e : Cursor} {others : List Tree}
    (hround : ∀ c nodes d, c.Rested → p.Matches c nodes d → p.StopsAt c)
    (hagain : (Goal.again p).Matches d others e) (hstop : (many p).StopsAt e.skip) :
    p.StopsAt d.skip := by
  rcases matches_again.1 hagain with ⟨first, m, _, hfirst, -, -⟩ | ⟨-, -, rfl⟩
  · exact hround d.skip first m d.rested_skip hfirst
  · exact hstop.1

theorem Covers.chosen {g : Goal} {c d : Cursor} {nodes : List Tree} (h : Covers g c nodes d) :
    g.Chosen c nodes d := by
  induction h with
  | prim ht =>
      intro _ _ _ _
      exact matches_prim.2 ⟨_, ht, rfl, rfl⟩
  | @rule r c d nodes hbody ih =>
      intro hp _ hc hstop
      have hstopBody := stopsAt_body hp d.rested_skip hstop
      cases r with
      | terminal t => exact matches_rule.2 ⟨_, ih rfl trivial hc hstopBody, rfl⟩
      | phrase p =>
          have hne : p ≠ .program := by simpa [isSyntactic, Rule.isSyntactic] using hp
          have hmatches := ih (Rule.isSyntactic_body hp) (Phrase.decided_body hne) hc hstopBody
          exact matches_rule.2 ⟨_, hmatches, rfl⟩
      | _ => simp [isSyntactic, Rule.isSyntactic] at hp
  | @seq p q c d e first second _ _ ihp ihq =>
      intro hp hdecided hc hstop
      simp only [isSyntactic, Bool.and_eq_true] at hp
      obtain ⟨hdp, hdq, hnext⟩ := hdecided
      have hq := ihq hp.2 hdq d.rested_skip hstop.1
      have hstopp : p.StopsAt d.skip := by
        rcases hnext d.skip second e d.rested_skip hq with rfl | hstopp
        · rw [Cursor.skip_skip] at hstop
          exact hstop.2 (hq.covers.nullable)
        · exact hstopp
      exact matches_seq.2 ⟨first, d, second, ihp hp.1 hdp hc hstopp, hq, rfl⟩
  | left _ ih =>
      intro hp hdecided hc hstop
      simp only [isSyntactic, Bool.and_eq_true] at hp
      exact matches_alt.2 (Or.inl (ih hp.1 hdecided.1 hc hstop.1))
  | right _ ih =>
      intro hp hdecided hc hstop
      simp only [isSyntactic, Bool.and_eq_true] at hp
      obtain ⟨-, hdq, hrefuses⟩ := hdecided
      have hmatches := ih hp.2 hdq hc hstop.2
      exact matches_alt.2 (Or.inr ⟨hrefuses _ _ _ hc hmatches hstop.1, hmatches⟩)
  | present _ ih =>
      intro hp hdecided hc hstop
      simp only [isSyntactic, Bool.and_eq_true] at hp
      exact matches_opt.2 (Or.inl (ih hp.1 hdecided hc hstop.1))
  | absent =>
      intro _ _ hc hstop
      rw [hc.skip_eq] at hstop
      exact matches_opt.2 (Or.inr ⟨hstop.2, rfl, rfl⟩)
  | @many p c d e first others _ _ ihp ihq =>
      intro hp hdecided hc hstop
      have hagain := ihq hp hdecided hstop
      have hstopp := stopsAt_of_again hdecided.2 hagain hstop
      simp only [isSyntactic, Bool.and_eq_true] at hp
      exact matches_many.2 (Or.inl ⟨first, d, others, ihp hp.1 hdecided.1 hc hstopp, hagain, rfl⟩)
  | never =>
      intro _ _ hc hstop
      rw [hc.skip_eq] at hstop
      exact matches_many.2 (Or.inr ⟨hstop.2, rfl, rfl⟩)
  | @round p c d e first others _ _ ihp ihq =>
      intro hp hdecided hstop
      have hagain := ihq hp hdecided hstop
      have hstopp := stopsAt_of_again hdecided.2 hagain hstop
      simp only [isSyntactic, Bool.and_eq_true] at hp
      have hfirst := ihp hp.1 hdecided.1 c.rested_skip hstopp
      exact matches_again.2 (Or.inl ⟨first, d, others, hfirst, hagain, rfl⟩)
  | stop =>
      intro _ _ hstop
      exact matches_again.2 (Or.inr ⟨hstop.2, rfl, rfl⟩)

/-- What a decided pattern covers up to where it stops is what it matches. -/
theorem Covers.matches {p : Pattern} {c d : Cursor} {nodes : List Tree}
    (h : Covers (.once p) c nodes d) (hp : p.isSyntactic = true) (hdecided : p.Decided)
    (hc : c.Rested) (hstop : p.StopsAt d.skip) : p.Matches c nodes d :=
  h.chosen hp hdecided hc hstop

/-! ## Derivations are covered -/

/-- A lexeme is covered by its class. -/
theorem covers_lexeme {c : Cursor} {l : Lexeme} (h : Lexeme.first? c.rest = some l) :
    Covers (.once (mark l.terminal)) c [] (c.advance l.text.length) := by
  obtain ⟨r, hscan⟩ := Lexeme.scan_of_first? h
  exact .prim (Primitive.take?_lexeme.2 ⟨r, hscan⟩)

/-- A repetition that covers something behind some trivia covers it from before the
trivia on. -/
theorem covers_again_of_many {p : Pattern} {c d : Cursor} {nodes : List Tree}
    (h : Covers (.once (.many p)) c.skip nodes d) :
    ∃ d', Covers (.again p) c nodes d' ∧ d'.skip = d.skip := by
  cases h with
  | many hfirst hothers => exact ⟨d, .round hfirst hothers, rfl⟩
  | never => exact ⟨c, .stop, (Cursor.skip_skip c).symm⟩

/-- The lexemes of a derivation are covered up to where they end. -/
theorem Derives.exists_covers {p : Pattern} {ls : List Lexeme} {ts : List Skeleton}
    (h : Derives p ls ts) (hp : p.isSyntactic = true) {c e : Cursor}
    (hreads : c.Reads ls e) (hc : c.Rested) :
    ∃ nodes d, Covers (.once p) c nodes d ∧ d.skip = e ∧ Tree.skeletons nodes = ts := by
  induction h generalizing c e with
  | inputStart | inputEnd => simp [isSyntactic, Primitive.isSyntactic] at hp
  | lexeme l =>
      cases hreads with
      | cons hl hrest =>
          cases hrest
          exact ⟨[], _, covers_lexeme hl, rfl, rfl⟩
  | @rule r ls ts hbody ih =>
      cases r with
      | terminal t =>
          cases hbody with
          | lexeme l =>
              cases hreads with
              | cons hl hrest =>
                  cases hrest
                  obtain ⟨r, hscan⟩ := Lexeme.scan_of_first? hl
                  exact ⟨_, _, .rule (covers_lexeme hl), rfl,
                    Rule.skeletons_leave_terminal hscan⟩
      | phrase p =>
          obtain ⟨nodes, d, hcovers, hskip, rfl⟩ := ih (Rule.isSyntactic_body hp) hreads hc
          exact ⟨_, d, .rule hcovers, hskip, rfl⟩
      | _ => simp [isSyntactic, Rule.isSyntactic] at hp
  | seq _ _ ihp ihq =>
      simp only [isSyntactic, Bool.and_eq_true] at hp
      obtain ⟨m, hfirst, hsecond⟩ := hreads.split
      obtain ⟨nodes, d, hpc, rfl, rfl⟩ := ihp hp.1 hfirst hc
      obtain ⟨nodes', d', hqc, rfl, rfl⟩ := ihq hp.2 hsecond d.rested_skip
      exact ⟨_, d', .seq hpc hqc, rfl, Tree.skeletons_append _ _⟩
  | left _ ih =>
      simp only [isSyntactic, Bool.and_eq_true] at hp
      obtain ⟨nodes, d, hcovers, hskip, hts⟩ := ih hp.1 hreads hc
      exact ⟨nodes, d, .left hcovers, hskip, hts⟩
  | right _ ih =>
      simp only [isSyntactic, Bool.and_eq_true] at hp
      obtain ⟨nodes, d, hcovers, hskip, hts⟩ := ih hp.2 hreads hc
      exact ⟨nodes, d, .right hcovers, hskip, hts⟩
  | present _ ih =>
      simp only [isSyntactic, Bool.and_eq_true] at hp
      obtain ⟨nodes, d, hcovers, hskip, hts⟩ := ih hp.1 hreads hc
      exact ⟨nodes, d, .present hcovers, hskip, hts⟩
  | absent =>
      cases hreads
      exact ⟨[], c, .absent, hc.skip_eq, rfl⟩
  | more _ _ ihp ihq =>
      have hp' := hp
      simp only [isSyntactic, Bool.and_eq_true] at hp'
      obtain ⟨m, hfirst, hothers⟩ := hreads.split
      obtain ⟨nodes, d, hpc, rfl, rfl⟩ := ihp hp'.1 hfirst hc
      obtain ⟨nodes', d', hmany, rfl, rfl⟩ := ihq hp hothers d.rested_skip
      obtain ⟨d'', hagain, hskip⟩ := covers_again_of_many hmany
      exact ⟨_, d'', .many hpc hagain, hskip, Tree.skeletons_append _ _⟩
  | none =>
      cases hreads
      exact ⟨[], c, .never, hc.skip_eq, rfl⟩

/-! ## Derivations are matched -/

/-- A pattern matches at a place with these trees and, but for trivia, ends at
another. -/
def MatchesTo (p : Pattern) (c : Cursor) (ts : List Skeleton) (e : Cursor) : Prop :=
  ∃ nodes d, p.Matches c nodes d ∧ d.skip = e ∧ Tree.skeletons nodes = ts

/-- The lexemes of a derivation are matched up to where they end, if the match
stops there. -/
theorem Derives.exists_match {p : Pattern} {ls : List Lexeme} {ts : List Skeleton}
    (h : Derives p ls ts) (hp : p.isSyntactic = true) (hdecided : p.Decided) {c e : Cursor}
    (hreads : c.Reads ls e) (hc : c.Rested) (hstop : p.StopsAt e) : MatchesTo p c ts e := by
  obtain ⟨nodes, d, hcovers, rfl, rfl⟩ := h.exists_covers hp hreads hc
  exact ⟨nodes, d, hcovers.matches hp hdecided hc hstop, rfl, rfl⟩

end DecafFrontEnd
