/-
  DecafFrontEnd/Proofs/Grammar/Decision.lean --- no choice loses a derivation.

  A match commits itself: it takes the first alternative that fits and as many
  rounds as fit.  `Pattern.StopsAt p c` says that behind a match of `p` that ends at
  `c` nothing could be added, and `Pattern.Decided p` that each commitment in `p` is
  the right one: a part stops where the next part matches, and an alternative
  refuses every place where a later one matches.

  For most of the grammar one lexeme decides: `Pattern.isSeparate` compares starters
  and extenders.  Five choices need more than one lexeme: fields and methods,
  declarations and statements, assignments and calls, calls and locations, and the
  two forms with `new`.  They are decided by what stands behind their common
  beginning.
-/
import DecafFrontEnd.Proofs.Grammar.Lookahead

set_option autoImplicit false

namespace DecafFrontEnd

/-! ## Where a match stops -/

namespace Pattern

/-- Nothing that starts at a place could be added to a match that ends there. -/
def StopsAt : Pattern → Cursor → Prop
  | prim _, _ => True
  | rule r, c => c.Lacks r.extenders
  | seq p q, c => q.StopsAt c ∧ (q.nullable = true → p.StopsAt c)
  | alt p q, c => p.StopsAt c ∧ q.StopsAt c
  | opt p, c | many p, c => p.StopsAt c ∧ p.Refuses c

/-- A match stops where none of its extenders stands. -/
theorem stopsAt_of_lacks {p : Pattern} {c : Cursor} (hp : p.isSyntactic = true)
    (hc : c.Rested) (h : c.Lacks p.extenders) : p.StopsAt c := by
  induction p with
  | prim p => trivial
  | rule r => exact h
  | seq p q ihp ihq =>
      simp only [isSyntactic, Bool.and_eq_true] at hp
      simp only [extenders_seq, Cursor.lacks_append] at h
      refine ⟨ihq hp.2 h.1, fun hnull => ihp hp.1 ?_⟩
      simpa [hnull] using h.2
  | alt p q ihp ihq =>
      simp only [isSyntactic, Bool.and_eq_true] at hp
      simp only [extenders_alt, Cursor.lacks_append] at h
      exact ⟨ihp hp.1 h.1, ihq hp.2 h.2⟩
  | opt p ih | many p ih =>
      simp only [isSyntactic, Bool.and_eq_true, Bool.not_eq_true'] at hp
      simp only [extenders_opt, extenders_many, Cursor.lacks_append] at h
      exact ⟨ih hp.1 h.1, refuses_of_lacks hp.1 hp.2 hc h.2⟩

theorem stopsAt_body {r : Rule} {c : Cursor} (hr : r.isSyntactic = true) (hc : c.Rested)
    (h : (rule r).StopsAt c) : r.body.StopsAt c := by
  refine stopsAt_of_lacks (Rule.isSyntactic_body hr) hc (Cursor.Lacks.subset h ?_)
  exact fun t ht => r.extenders_body (List.mem_append_left _ ht)

/-! ## Decided patterns -/

/-- Every commitment that a match of a pattern makes is the right one. -/
def Decided : Pattern → Prop
  | prim _ | rule _ => True
  | seq p q => p.Decided ∧ q.Decided ∧
      ∀ c nodes d, c.Rested → q.Matches c nodes d → d = c ∨ p.StopsAt c
  | alt p q => p.Decided ∧ q.Decided ∧
      ∀ c nodes d, c.Rested → q.Matches c nodes d → p.StopsAt d.skip → p.Refuses c
  | opt p => p.Decided
  | many p => p.Decided ∧ ∀ c nodes d, c.Rested → p.Matches c nodes d → p.StopsAt c

end Pattern

namespace Pattern

variable {p q : Pattern}

theorem decided_seq (hp : p.isSyntactic = true) (hq : q.isSyntactic = true)
    (hapart : Terminal.apart p.extenders q.starters = true) (hdp : p.Decided)
    (hdq : q.Decided) : (seq p q).Decided := by
  refine ⟨hdp, hdq, ?_⟩
  intro c nodes d hc h
  rcases h.covers.starts hq hc with hd | hstarts
  · exact Or.inl hd
  · exact Or.inr (stopsAt_of_lacks hp hc (hstarts.lacks hapart))

theorem decided_alt (hp : p.isSyntactic = true) (hnullp : p.nullable = false)
    (hq : q.isSyntactic = true) (hnullq : q.nullable = false)
    (hapart : Terminal.apart p.starters q.starters = true) (hdp : p.Decided)
    (hdq : q.Decided) : (alt p q).Decided := by
  refine ⟨hdp, hdq, ?_⟩
  intro c nodes d hc h _
  exact refuses_of_lacks hp hnullp hc ((starts hq hnullq hc h).lacks hapart)

/-- Whether one lexeme is enough for each commitment in a pattern. -/
def isSeparate : Pattern → Bool
  | prim _ | rule _ => true
  | seq p q => p.isSeparate && q.isSeparate && Terminal.apart p.extenders q.starters
  | alt p q =>
      p.isSeparate && q.isSeparate && !p.nullable && !q.nullable &&
        Terminal.apart p.starters q.starters
  | opt p => p.isSeparate
  | many p => p.isSeparate && Terminal.apart p.extenders p.starters

theorem decided_of_isSeparate (hp : p.isSyntactic = true) (h : p.isSeparate = true) :
    p.Decided := by
  induction p with
  | prim p => trivial
  | rule r => trivial
  | seq p q ihp ihq =>
      simp only [isSyntactic, Bool.and_eq_true] at hp
      simp only [isSeparate, Bool.and_eq_true] at h
      exact decided_seq hp.1 hp.2 h.2 (ihp hp.1 h.1.1) (ihq hp.2 h.1.2)
  | alt p q ihp ihq =>
      simp only [isSyntactic, Bool.and_eq_true] at hp
      simp only [isSeparate, Bool.and_eq_true, Bool.not_eq_true'] at h
      obtain ⟨⟨⟨⟨hsp, hsq⟩, hnullp⟩, hnullq⟩, hapart⟩ := h
      exact decided_alt hp.1 hnullp hp.2 hnullq hapart (ihp hp.1 hsp) (ihq hp.2 hsq)
  | opt p ih =>
      simp only [isSyntactic, Bool.and_eq_true] at hp
      exact ih hp.1 h
  | many p ih =>
      simp only [isSyntactic, Bool.and_eq_true, Bool.not_eq_true'] at hp
      simp only [isSeparate, Bool.and_eq_true] at h
      refine ⟨ih hp.1 h.1, ?_⟩
      intro c nodes d hc hmatches
      exact stopsAt_of_lacks hp.1 hc ((starts hp.1 hp.2 hc hmatches).lacks h.2)

end Pattern

/-- The phrases in which one lexeme is not enough. -/
def Phrase.needsMore : Phrase → Bool
  | classDecl | block | statement | primary | simpleExpr => true
  | _ => false

theorem Phrase.isSeparate_body {p : Phrase} (h : p.needsMore = false) :
    p.body.isSeparate = true := by
  have key : ∀ p ∈ all, p.needsMore = false → p.body.isSeparate = true := by decide +kernel
  exact key p (mem_all p) h

/-! ## What stands behind a common beginning -/

namespace Pattern

variable {c d : Cursor} {nodes : List Tree}

theorem shows_of_mark {t : Terminal} (h : (mark t).Matches c nodes d) : c.Shows t := by
  obtain ⟨text, ht, -, -⟩ := matches_prim.1 h
  obtain ⟨⟨l, r⟩, hscan, -⟩ := Option.map_eq_some_iff.1 ht
  exact ⟨l, r, hscan⟩

theorem shows_of_term {t : Terminal} (h : (term t).Matches c nodes d) : c.Shows t := by
  obtain ⟨inner, hbody, -⟩ := matches_rule.1 h
  exact shows_of_mark hbody

/-- A type is a reserved word or a name. -/
theorem typeName_cases (h : (phrase .typeName).Matches c nodes d) :
    c.ShowsOne [.keyword .intKw, .keyword .booleanKw] ∨
      ∃ n, (term .ident).Matches c n d := by
  obtain ⟨inner, hbody, -⟩ := matches_rule.1 h
  rcases matches_alt.1 hbody with hint | ⟨-, hbody⟩
  · exact Or.inl ⟨_, by simp, shows_of_term hint⟩
  rcases matches_alt.1 hbody with hboolean | ⟨-, hident⟩
  · exact Or.inl ⟨_, by simp, shows_of_term hboolean⟩
  · exact Or.inr ⟨_, hident⟩

/-- A name is a type. -/
theorem typeName_of_ident (hc : c.Rested) (h : (term .ident).Matches c nodes d) :
    ∃ n, (phrase .typeName).Matches c n d := by
  have hshows : c.ShowsOne [.ident] := ⟨_, by simp, shows_of_term h⟩
  have hint : (kw .intKw).Refuses c :=
    refuses_of_lacks (by decide) (by decide) hc (hshows.lacks (by decide))
  have hboolean : (kw .booleanKw).Refuses c :=
    refuses_of_lacks (by decide) (by decide) hc (hshows.lacks (by decide))
  have hbody := matches_alt.2 (Or.inr ⟨hint, matches_alt.2 (Or.inr ⟨hboolean, h⟩)⟩)
  exact ⟨_, matches_rule.2 ⟨_, hbody, rfl⟩⟩

/-- A location is a name, and behind the name there is a selector or what stands
behind the location. -/
theorem location_next (h : (phrase .location).Matches c nodes d) :
    ∃ n m, (term .ident).Matches c n m ∧
      (d.skip = m.skip ∨ m.skip.ShowsOne [.dot, .lbrack]) := by
  obtain ⟨inner, hbody, -⟩ := matches_rule.1 h
  obtain ⟨n, m, _, hident, hselectors, -⟩ := matches_seq.1 hbody
  refine ⟨n, m, hident, ?_⟩
  rcases hselectors.covers.starts (by decide) m.rested_skip with hd | hstarts
  · exact Or.inl (by rw [hd, Cursor.skip_skip])
  · exact Or.inr (hstarts.subset (by decide))

/-- A declaration is a type and a name with a mark of declarations behind it. -/
theorem varDecl_next (h : (phrase .varDecl).Matches c nodes d) :
    ∃ n m n' m', (phrase .typeName).Matches c n m ∧ (term .ident).Matches m.skip n' m' ∧
      m'.skip.ShowsOne [.lbrack, .comma, .semi] := by
  obtain ⟨inner, hbody, -⟩ := matches_rule.1 h
  obtain ⟨n, m, _, htype, hbody, -⟩ := matches_seq.1 hbody
  obtain ⟨_, e, _, hlist, hsemi, -⟩ := matches_seq.1 hbody
  obtain ⟨inner', hlist, -⟩ := matches_rule.1 hlist
  obtain ⟨_, f, _, hbind, hothers, -⟩ := matches_seq.1 hlist
  obtain ⟨inner'', hbind, -⟩ := matches_rule.1 hbind
  obtain ⟨n', m', _, hident, hmarker, -⟩ := matches_seq.1 hbind
  refine ⟨n, m, n', m', htype, hident, ?_⟩
  rcases hmarker.covers.starts (by decide) m'.rested_skip with hf | hstarts
  · rw [hf, Cursor.skip_skip] at hothers
    rcases hothers.covers.starts (by decide) m'.rested_skip with he | hstarts
    · rw [he, Cursor.skip_skip] at hsemi
      exact ⟨_, by simp, shows_of_mark hsemi⟩
    · exact hstarts.subset (by decide)
  · exact hstarts.subset (by decide)

/-- A method is a type and a name with a parenthesis behind it, unless it gives
nothing back. -/
theorem methodDecl_next (h : (phrase .methodDecl).Matches c nodes d) :
    c.ShowsOne [.keyword .voidKw] ∨
      ∃ n m n' m', (phrase .typeName).Matches c n m ∧ (term .ident).Matches m.skip n' m' ∧
        m'.skip.ShowsOne [.lparen] := by
  obtain ⟨inner, hbody, -⟩ := matches_rule.1 h
  obtain ⟨n, m, _, hreturn, hbody, -⟩ := matches_seq.1 hbody
  obtain ⟨n', m', _, hident, hbody, -⟩ := matches_seq.1 hbody
  obtain ⟨_, _, _, hparen, -, -⟩ := matches_seq.1 hbody
  obtain ⟨inner', hreturn, -⟩ := matches_rule.1 hreturn
  rcases matches_alt.1 hreturn with hvoid | ⟨-, htype⟩
  · exact Or.inl ⟨_, by simp, shows_of_term hvoid⟩
  · exact Or.inr ⟨_, m, n', m', htype, hident, _, by simp, shows_of_mark hparen⟩

/-- A call of a method is a location with a parenthesis behind it. -/
theorem methodCall_next (h : (phrase .methodCall).Matches c nodes d) :
    ∃ n m, (phrase .location).Matches c n m ∧ m.skip.ShowsOne [.lparen] := by
  obtain ⟨inner, hbody, -⟩ := matches_rule.1 h
  obtain ⟨n, m, _, hlocation, hbody, -⟩ := matches_seq.1 hbody
  obtain ⟨_, _, _, hparen, -, -⟩ := matches_seq.1 hbody
  exact ⟨n, m, hlocation, _, by simp, shows_of_mark hparen⟩

/-- An assignment is a location with an `=` behind it. -/
theorem assignStmt_next (h : (phrase .assignStmt).Matches c nodes d) :
    ∃ n m, (phrase .location).Matches c n m ∧ m.skip.ShowsOne [.assign] := by
  obtain ⟨inner, hbody, -⟩ := matches_rule.1 h
  obtain ⟨n, m, _, hlocation, hbody, -⟩ := matches_seq.1 hbody
  obtain ⟨_, _, _, hassign, -, -⟩ := matches_seq.1 hbody
  exact ⟨n, m, hlocation, _, by simp, shows_of_mark hassign⟩

/-- A call as a statement is a location with a parenthesis behind it, unless it is
a callout. -/
theorem expressionStmt_next (h : (phrase .expressionStmt).Matches c nodes d) :
    c.ShowsOne [.keyword .calloutKw] ∨
      ∃ n m, (phrase .location).Matches c n m ∧ m.skip.ShowsOne [.lparen] := by
  obtain ⟨inner, hbody, -⟩ := matches_rule.1 h
  obtain ⟨_, _, _, hcall, -, -⟩ := matches_seq.1 hbody
  obtain ⟨inner', hcall, -⟩ := matches_rule.1 hcall
  rcases matches_alt.1 hcall with hmethod | ⟨-, hcallout⟩
  · exact Or.inr (methodCall_next hmethod)
  · obtain ⟨inner'', hcallout, -⟩ := matches_rule.1 hcallout
    obtain ⟨_, _, _, hkeyword, -, -⟩ := matches_seq.1 hcallout
    exact Or.inl ⟨_, by simp, shows_of_term hkeyword⟩

/-- A location with a sign behind it is a name with a selector or the sign behind it. -/
theorem location_next_sign {t : Terminal} (h : (phrase .location).Matches c nodes d)
    (hsign : d.skip.ShowsOne [t]) (ht : t ∈ [Terminal.assign, .lparen]) :
    ∃ n m, (term .ident).Matches c n m ∧ m.skip.ShowsOne [.dot, .lbrack, .assign, .lparen] := by
  obtain ⟨n, m, hident, hnext⟩ := location_next h
  refine ⟨n, m, hident, ?_⟩
  rcases hnext with hskip | hnext
  · rw [hskip] at hsign
    apply hsign.subset
    intro t' ht'
    obtain rfl := List.mem_singleton.1 ht'
    exact List.mem_cons_of_mem _ (List.mem_cons_of_mem _ ht)
  · exact hnext.subset (by decide)

/-- A statement is a reserved word or a name with a mark of statements behind it. -/
theorem statement_next (hc : c.Rested) (h : (phrase .statement).Matches c nodes d) :
    c.ShowsOne [.keyword .calloutKw, .keyword .ifKw, .keyword .whileKw, .keyword .returnKw] ∨
      ∃ n m, (term .ident).Matches c n m ∧
        m.skip.ShowsOne [.dot, .lbrack, .assign, .lparen] := by
  obtain ⟨inner, hbody, -⟩ := matches_rule.1 h
  rcases matches_alt.1 hbody with hassign | ⟨-, hbody⟩
  · obtain ⟨n, m, hplace, hsign⟩ := assignStmt_next hassign
    exact Or.inr (location_next_sign hplace hsign (by simp))
  rcases matches_alt.1 hbody with hcall | ⟨-, hbody⟩
  · rcases expressionStmt_next hcall with hcallout | ⟨n, m, hplace, hparen⟩
    · exact Or.inl (hcallout.subset (by decide))
    · exact Or.inr (location_next_sign hplace hparen (by simp))
  · exact Or.inl ((starts (by decide) (by decide) hc hbody).subset (by decide))

/-! ## The five choices -/

/-- Where a method is declared, no field is. -/
theorem varDecl_refuses_of_methodDecl (hc : c.Rested)
    (h : (phrase .methodDecl).Matches c nodes d) : (phrase .varDecl).Refuses c := by
  apply refuses_of_not_matches (by decide)
  intro nodes' d' h'
  rcases methodDecl_next h with hvoid | ⟨n, m, n', m', htype, hident, hparen⟩
  · exact (starts (by decide) (by decide) hc h').absurd hvoid (by decide)
  · obtain ⟨_, _, _, _, htype', hident', hmark⟩ := varDecl_next h'
    obtain ⟨-, rfl⟩ := htype.functional htype'
    obtain ⟨-, rfl⟩ := hident.functional hident'
    exact hmark.absurd hparen (by decide)

/-- A name with a mark of statements behind it is no declaration. -/
theorem varDecl_refuses_of_name (hident : (term .ident).Matches c nodes d)
    (hnext : d.skip.ShowsOne [.dot, .lbrack, .assign, .lparen]) :
    (phrase .varDecl).Refuses c := by
  apply refuses_of_not_matches (by decide)
  intro nodes' d' h'
  obtain ⟨_, _, _, _, htype, hname, -⟩ := varDecl_next h'
  rcases typeName_cases htype with hword | ⟨_, hident'⟩
  · have hshows : c.ShowsOne [.ident] := ⟨_, by simp, shows_of_term hident⟩
    exact hshows.absurd hword (by decide)
  · obtain ⟨-, rfl⟩ := hident.functional hident'
    have hshows : d.skip.ShowsOne [.ident] := ⟨_, by simp, shows_of_term hname⟩
    exact hshows.absurd hnext (by decide)

/-- Where a statement stands, nothing is declared. -/
theorem varDecl_refuses_of_statement (hc : c.Rested)
    (h : (phrase .statement).Matches c nodes d) : (phrase .varDecl).Refuses c := by
  rcases statement_next hc h with hword | ⟨n, m, hident, hnext⟩
  · exact refuses_of_lacks (by decide) (by decide) hc (hword.lacks (by decide))
  · exact varDecl_refuses_of_name hident hnext

/-- A location with a parenthesis behind it is not assigned to. -/
theorem assignStmt_refuses_of_paren (hlocation : (phrase .location).Matches c nodes d)
    (hparen : d.skip.ShowsOne [.lparen]) : (phrase .assignStmt).Refuses c := by
  apply refuses_of_not_matches (by decide)
  intro nodes' d' h'
  obtain ⟨_, _, hlocation', hassign⟩ := assignStmt_next h'
  obtain ⟨-, rfl⟩ := hlocation.functional hlocation'
  exact hassign.absurd hparen (by decide)

/-- Where a call stands as a statement, nothing is assigned. -/
theorem assignStmt_refuses_of_expressionStmt (hc : c.Rested)
    (h : (phrase .expressionStmt).Matches c nodes d) : (phrase .assignStmt).Refuses c := by
  rcases expressionStmt_next h with hcallout | ⟨n, m, hlocation, hparen⟩
  · exact refuses_of_lacks (by decide) (by decide) hc (hcallout.lacks (by decide))
  · exact assignStmt_refuses_of_paren hlocation hparen

/-- A location with no parenthesis behind it is no call. -/
theorem methodCall_refuses_of_location (h : (phrase .location).Matches c nodes d)
    (hparen : d.skip.Lacks [.lparen]) : (phrase .methodCall).Refuses c := by
  apply refuses_of_not_matches (by decide)
  intro nodes' d' h'
  obtain ⟨_, _, hlocation, hparen'⟩ := methodCall_next h'
  obtain ⟨-, rfl⟩ := h.functional hlocation
  exact hparen.not_showsOne hparen'

/-- Where a type with a bracket behind it is made, no object is. -/
theorem newObject_refuses_of_bracket {n n' : List Tree} {m k : Cursor}
    (hnew : (kw .newKw).Matches c n m) (htype : (phrase .typeName).Matches m.skip n' k)
    (hbracket : k.skip.ShowsOne [.lbrack]) : (phrase .newObject).Refuses c := by
  apply refuses_of_not_matches (by decide)
  intro nodes' d' h'
  obtain ⟨_, hbody', -⟩ := matches_rule.1 h'
  obtain ⟨_, _, _, hnew', hbody', -⟩ := matches_seq.1 hbody'
  obtain ⟨_, k', _, hident, hbody', -⟩ := matches_seq.1 hbody'
  obtain ⟨_, _, _, hparen, -, -⟩ := matches_seq.1 hbody'
  obtain ⟨-, rfl⟩ := hnew.functional hnew'
  rcases typeName_cases htype with hword | ⟨_, hident'⟩
  · have hshows : m.skip.ShowsOne [.ident] := ⟨_, by simp, shows_of_term hident⟩
    exact hshows.absurd hword (by decide)
  · obtain ⟨-, rfl⟩ := hident.functional hident'
    have hshows : k'.skip.ShowsOne [.lparen] := ⟨_, by simp, shows_of_mark hparen⟩
    exact hbracket.absurd hshows (by decide)

/-- Where an array is made, no object is. -/
theorem newObject_refuses_of_newArray (h : (phrase .newArray).Matches c nodes d) :
    (phrase .newObject).Refuses c := by
  obtain ⟨_, hbody, -⟩ := matches_rule.1 h
  obtain ⟨_, _, _, hnew, hbody, -⟩ := matches_seq.1 hbody
  obtain ⟨_, _, _, htype, hbody, -⟩ := matches_seq.1 hbody
  obtain ⟨_, _, _, hbracket, -, -⟩ := matches_seq.1 hbody
  exact newObject_refuses_of_bracket hnew htype ⟨_, by simp, shows_of_mark hbracket⟩

end Pattern

/-! ## The grammar is decided -/

namespace Phrase

open Pattern

/-- The declarations at the front of a class or a block stop where the members or
statements behind them begin. -/
theorem decided_declarations {q : Phrase}
    (hrest : (seq (many (phrase q)) (mark .rbrace)).Decided)
    (hrefuses : ∀ {c nodes d}, c.Rested → (phrase q).Matches c nodes d →
      (phrase .varDecl).Refuses c) :
    (seq (many (phrase .varDecl)) (seq (many (phrase q)) (mark .rbrace))).Decided := by
  refine ⟨decided_of_isSeparate (by decide) (by decide), hrest, ?_⟩
  intro c nodes d hc h
  have hnone : (phrase .varDecl).extenders = [] := by decide
  have hlacks : c.Lacks (phrase .varDecl).extenders := by
    intro t ht
    simp [hnone] at ht
  refine Or.inr ⟨stopsAt_of_lacks (by decide) hc hlacks, ?_⟩
  obtain ⟨_, m, _, hothers, hbrace, -⟩ := matches_seq.1 h
  rcases matches_many.1 hothers with ⟨_, _, _, hother, -, -⟩ | ⟨-, -, rfl⟩
  · exact hrefuses hc hother
  · rw [hc.skip_eq] at hbrace
    have hshows : m.ShowsOne [.rbrace] := ⟨_, by simp, shows_of_mark hbrace⟩
    exact refuses_of_lacks (by decide) (by decide) hc (hshows.lacks (by decide))

theorem decided_classDecl : classDecl.body.Decided := by
  have hmembers := decided_declarations (decided_of_isSeparate (by decide) (by decide))
    varDecl_refuses_of_methodDecl
  exact decided_seq (by decide) (by decide) (by decide) trivial
    (decided_seq (by decide) (by decide) (by decide) trivial
      (decided_seq (by decide) (by decide) (by decide) trivial
        (decided_seq (by decide) (by decide) (by decide) trivial hmembers)))

theorem decided_block : block.body.Decided := by
  have hinner := decided_declarations (decided_of_isSeparate (by decide) (by decide))
    varDecl_refuses_of_statement
  exact decided_seq (by decide) (by decide) (by decide) trivial hinner

theorem decided_statement : statement.body.Decided := by
  refine ⟨trivial, decided_of_isSeparate (by decide) (by decide), ?_⟩
  intro c nodes d hc h _
  rcases matches_alt.1 h with hcall | ⟨-, hword⟩
  · exact assignStmt_refuses_of_expressionStmt hc hcall
  · have hstarts := starts (by decide) (by decide) hc hword
    exact refuses_of_lacks (by decide) (by decide) hc (hstarts.lacks (by decide))

theorem decided_simpleExpr : simpleExpr.body.Decided := by
  refine decided_alt (by decide) (by decide) (by decide) (by decide) (by decide) trivial
    ⟨trivial, trivial, fun c nodes d hc h hstop => ?_⟩
  exact methodCall_refuses_of_location h (Cursor.Lacks.subset hstop (by decide))

theorem decided_primary : primary.body.Decided := by
  refine decided_alt (by decide) (by decide) (by decide) (by decide) (by decide) trivial
    ⟨trivial, decided_of_isSeparate (by decide) (by decide), fun c nodes d hc h _ => ?_⟩
  rcases matches_alt.1 h with harray | ⟨-, hother⟩
  · exact newObject_refuses_of_newArray harray
  · have hstarts := starts (by decide) (by decide) hc hother
    exact refuses_of_lacks (by decide) (by decide) hc (hstarts.lacks (by decide))

theorem decided_body {p : Phrase} (h : p ≠ .program) : p.body.Decided := by
  cases hp : p.needsMore with
  | false =>
      have hsyntactic : (Rule.phrase p).isSyntactic = true := by simpa [Rule.isSyntactic] using h
      have hbody : p.body.isSyntactic = true := Rule.isSyntactic_body hsyntactic
      exact decided_of_isSeparate hbody (isSeparate_body hp)
  | true =>
      cases p with
      | classDecl => exact decided_classDecl
      | block => exact decided_block
      | statement => exact decided_statement
      | simpleExpr => exact decided_simpleExpr
      | primary => exact decided_primary
      | _ => simp [needsMore] at hp

end Phrase

end DecafFrontEnd
