/-
  DecafFrontEnd/Proofs/Grammar/Language.lean --- the language that is parsed.

  A text parses exactly when it has tokens and they are derivable from the phrase
  `program` (`Source.parses_iff_derivable`).  So neither the order of alternatives
  nor the greed of repetitions changes the language of the grammar, and the tree of
  a text is the one of its derivation (`Source.parseProgram_of_derives`).
-/
import DecafFrontEnd.Grammar.Mismatch
import DecafFrontEnd.Proofs.Grammar.Completeness

set_option autoImplicit false

namespace DecafFrontEnd

open Pattern

/-- The classes of a program. -/
def classes : Pattern := many1 (phrase .classDecl)

theorem isSyntactic_classes : classes.isSyntactic = true := by decide

theorem regular_classes : classes.Regular := ⟨isSyntactic_classes, by decide⟩

theorem decided_classes : classes.Decided := decided_of_isSeparate (by decide) (by decide)

/-- A program is classes up to the end of the text. -/
theorem matches_program {c d : Cursor} {nodes : List Tree} :
    (phrase .program).Matches c nodes d ↔
      c.offset = 0 ∧ ∃ inner e, classes.Matches c.skip inner e ∧ e.skip.rest = [] ∧
        d = e.skip ∧
        nodes = (Rule.phrase .program).leave c d (inner ++ Rule.endOfInput.leave d d []) := by
  constructor
  · intro h
    obtain ⟨inner, hbody, hnodes⟩ := matches_rule.1 h
    obtain ⟨_, m, _, hstart, hbody, rfl⟩ := matches_seq.1 hbody
    obtain ⟨text, htake, rfl, rfl⟩ := matches_prim.1 hstart
    simp only [Primitive.take?, Option.ite_none_right_eq_some, Option.some.injEq] at htake
    obtain ⟨hoffset, rfl⟩ := htake
    rw [List.length_nil, Cursor.advance_zero] at hbody
    obtain ⟨inner', e, _, hclasses, hend, rfl⟩ := matches_seq.1 hbody
    obtain ⟨_, hnothing, rfl⟩ := matches_rule.1 hend
    obtain ⟨text, htake, rfl, rfl⟩ := matches_prim.1 hnothing
    simp only [Primitive.take?, Option.ite_none_right_eq_some, Option.some.injEq] at htake
    obtain ⟨hrest, rfl⟩ := htake
    rw [List.length_nil, Cursor.advance_zero] at hnodes ⊢
    exact ⟨hoffset, inner', e, hclasses, hrest, rfl, hnodes⟩
  · rintro ⟨hoffset, inner, e, hclasses, hrest, rfl, rfl⟩
    have hstart : (prim .inputStart).Matches c [] c :=
      matches_prim.2 ⟨[], by simp [Primitive.take?, hoffset], rfl, c.advance_zero.symm⟩
    have hnothing : (prim .inputEnd).Matches e.skip [] e.skip :=
      matches_prim.2 ⟨[], by simp [Primitive.take?, hrest], rfl, e.skip.advance_zero.symm⟩
    have hend : (rule .endOfInput).Matches e.skip (Rule.endOfInput.leave e.skip e.skip []) e.skip :=
      matches_rule.2 ⟨[], hnothing, rfl⟩
    have hrest := matches_seq.2 ⟨_, _, _, hclasses, hend, rfl⟩
    have hbody := matches_seq.2 ⟨[], c, _, hstart, hrest, rfl⟩
    exact matches_rule.2 ⟨_, hbody, rfl⟩

namespace Source

/-- Parsing a text is matching a program at its front. -/
theorem parseProgram_eq_ok_iff {s : Source} {t : Tree} :
    s.parseProgram = .ok t ↔ ∃ d, (phrase .program).Matches (Cursor.start s.chars) [t] d := by
  have hrun := (Rule.phrase .program).runs_matchAt (Cursor.start s.chars)
  unfold parseProgram parseRule
  constructor
  · intro h
    cases hmatch : (Rule.phrase .program).matchAt (Cursor.start s.chars) with
    | matched nodes d b =>
        rw [hmatch] at h hrun
        obtain ⟨_, _, _, _, _, _, hnodes⟩ := matches_program.1 hrun.matches
        simp only [Rule.leave, Rule.isSilent, Bool.false_eq_true, if_false] at hnodes
        subst hnodes
        obtain rfl := Except.ok.inj h
        exact ⟨d, hrun.matches⟩
    | failed b => simp [hmatch] at h
    | unfinished => simp [hmatch] at h
  · rintro ⟨d, hmatches⟩
    obtain ⟨b, hb⟩ := hmatches .none
    rw [Rule.matchAt_eq hb]

/-- The tree of a text is that of a derivation of its tokens. -/
theorem derives_of_parseProgram {s : Source} {t : Tree} (h : s.parseProgram = .ok t) :
    ∃ ts, s.tokenize = .ok ts ∧
      Derives (phrase .program) (ts.filterMap Token.lexeme?) [t.skeleton] := by
  obtain ⟨d, hmatches⟩ := parseProgram_eq_ok_iff.1 h
  obtain ⟨-, inner, e, hclasses, hrest, rfl, hnodes⟩ := matches_program.1 hmatches
  obtain ⟨ls, hreads, hderives⟩ := hclasses.covers.derives isSyntactic_classes (by decide)
    (by decide) (Cursor.rested_skip _)
  obtain ⟨ts, hts, rfl⟩ := tokenize_of_reads hreads hrest
  refine ⟨ts, hts, ?_⟩
  have hend : Derives (rule .endOfInput) [] [.node .endOfInput [] []] := .rule .inputEnd
  have hprogram : Derives (phrase .program) _ _ := .rule (.seq .inputStart (.seq hderives hend))
  obtain rfl := List.singleton_inj.1 hnodes
  simpa [Rule.sketch, Rule.isSilent, Rule.word, Rule.leave, Tree.skeleton] using hprogram

/-- A text whose tokens have a derivation parses, and its tree is that of the
derivation. -/
theorem parseProgram_of_derives {s : Source} {ts : List Token} {sketch : List Skeleton}
    (hts : s.tokenize = .ok ts)
    (hderives : Derives (phrase .program) (ts.filterMap Token.lexeme?) sketch) :
    ∃ t, s.parseProgram = .ok t ∧ sketch = [t.skeleton] := by
  obtain ⟨d, hreads, hrest⟩ := reads_of_tokenize_ok hts
  generalize ts.filterMap Token.lexeme? = ls at hreads hderives
  cases hderives with
  | rule hbody =>
      cases hbody with
      | seq hstart hbody =>
          cases hstart
          cases hbody with
          | seq hclasses hend =>
              cases hend with
              | rule hend =>
                  cases hend
                  rw [List.nil_append, List.append_nil] at hreads
                  have hd := hreads.rested s.rested_firstPlace
                  have hstop : classes.StopsAt d := stopsAt_of_lacks isSyntactic_classes hd
                    (Cursor.lacks_of_rest_nil hrest _)
                  obtain ⟨inner, e, hmatches, rfl, rfl⟩ := hclasses.exists_match
                    isSyntactic_classes decided_classes hreads s.rested_firstPlace hstop
                  refine ⟨_, parseProgram_eq_ok_iff.2 ⟨e.skip, matches_program.2
                    ⟨rfl, inner, e, hmatches, hrest, rfl, rfl⟩⟩, ?_⟩
                  simp [Rule.sketch, Rule.isSilent, Rule.word, Rule.leave, Tree.skeleton]

/-- A text whose lexemes a program stands for parses. -/
theorem parseProgram_of_reads {s : Source} {ls : List Lexeme} {d : Cursor}
    (h : s.firstPlace.Reads ls d) (hend : d.rest = []) (hls : Derivable (phrase .program) ls) :
    ∃ t, s.parseProgram = .ok t := by
  obtain ⟨ts, hts, rfl⟩ := tokenize_of_reads h hend
  obtain ⟨_, hderives⟩ := hls
  obtain ⟨t, ht, -⟩ := parseProgram_of_derives hts hderives
  exact ⟨t, ht⟩

/-- A text parses exactly when it has tokens and they are derivable from the phrase
`program`. -/
theorem parses_iff_derivable (s : Source) :
    (∃ t, s.parseProgram = .ok t) ↔
      ∃ ts, s.tokenize = .ok ts ∧
        Derivable (phrase .program) (ts.filterMap Token.lexeme?) := by
  constructor
  · rintro ⟨t, h⟩
    obtain ⟨ts, hts, hderives⟩ := derives_of_parseProgram h
    exact ⟨ts, hts, _, hderives⟩
  · rintro ⟨ts, hts, _, hderives⟩
    obtain ⟨t, ht, -⟩ := parseProgram_of_derives hts hderives
    exact ⟨t, ht⟩

end Source

end DecafFrontEnd
