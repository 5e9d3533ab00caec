/-
  DecafFrontEnd/Proofs/Grammar/Facing.lean --- no choice passes a rule by.

  Where a pattern opens with a rule behind some lexemes, and the text ends with these,
  the match of the pattern comes to a rule at the end (`Opens.faces`).  A match commits
  itself, so for each commitment there is a question: the part that is left for another
  one, or tried before it, could go on instead.  `Pattern.Steered` says that it then
  comes to a rule at the end too.

  One lexeme answers the question for most of the grammar, as it does for derivations,
  and the choices that need more than one are the same as there.
-/
import DecafFrontEnd.Proofs.Grammar.Opening

set_option autoImplicit false

namespace DecafFrontEnd

namespace Pattern

variable {p q : Pattern} {c d e : Cursor} {nodes : List Tree} {ls : List Lexeme}

/-! ## How a match that comes to a rule begins -/

theorem not_faces_prim {p : Primitive} : ¬ (prim p).Faces e c := by
  intro h
  cases h

/-- A class of lexemes comes to a rule only where it is one. -/
theorem eq_of_faces_term {t : Terminal} (h : (term t).Faces e c) : c = e := by
  cases h with
  | here _ => rfl
  | inside hbody => exact absurd hbody not_faces_prim

/-- Before what stands behind a sign comes to a rule the sign is taken. -/
theorem shows_of_faces_mark {t : Terminal} (h : (seq (mark t) q).Faces e c) : c.Shows t := by
  cases h with
  | first hmark => exact absurd hmark not_faces_prim
  | second hmark _ => exact shows_of_mark hmark

/-- A match that comes to a rule begins there, or with one of its starters. -/
theorem Faces.starts (h : p.Faces e c) (hp : p.isSyntactic = true) (hc : c.Rested) :
    c = e ∨ c.ShowsOne p.starters := by
  induction h with
  | here _ => exact Or.inl rfl
  | @inside r c _ ih =>
      exact (ih (Rule.isSyntactic_body hp) hc).imp_right fun h => h.subset r.starters_body
  | first _ ih =>
      simp only [isSyntactic, Bool.and_eq_true] at hp
      exact (ih hp.1 hc).imp_right fun h => h.subset (List.subset_append_left _ _)
  | @second p q c d nodes hmatches _ ih =>
      simp only [isSyntactic, Bool.and_eq_true] at hp
      rw [starters_seq]
      obtain rfl | hstarts := hmatches.covers.starts hp.1 hc
      · rw [hmatches.covers.nullable, if_pos rfl]
        rw [hc.skip_eq] at ih
        exact (ih hp.2 hc).imp_right fun h => h.subset (List.subset_append_right _ _)
      · exact Or.inr (hstarts.subset (List.subset_append_left _ _))
  | left _ ih =>
      simp only [isSyntactic, Bool.and_eq_true] at hp
      exact (ih hp.1 hc).imp_right fun h => h.subset (List.subset_append_left _ _)
  | right _ _ ih =>
      simp only [isSyntactic, Bool.and_eq_true] at hp
      exact (ih hp.2 hc).imp_right fun h => h.subset (List.subset_append_right _ _)
  | present _ ih | round _ ih =>
      simp only [isSyntactic, Bool.and_eq_true] at hp
      exact ih hp.1 hc
  | again hmatches _ _ =>
      simp only [isSyntactic, Bool.and_eq_true, Bool.not_eq_true'] at hp
      have hstarts := Pattern.starts hp.1 hp.2 hc hmatches
      exact Or.inr hstarts

/-- A match stops where another one comes to a rule that begins otherwise. -/
theorem Faces.stopsAt (h : q.Faces e c) (hend : e.rest = []) (hp : p.isSyntactic = true)
    (hq : q.isSyntactic = true) (hc : c.Rested)
    (hapart : Terminal.apart p.extenders q.starters = true) : p.StopsAt c := by
  obtain rfl | hstarts := h.starts hq hc
  · exact stopsAt_of_lacks hp hc (Cursor.lacks_of_rest_nil hend _)
  · exact stopsAt_of_lacks hp hc (hstarts.lacks hapart)

/-- A pattern refuses a place where another one comes to a rule that begins otherwise. -/
theorem Faces.refuses (h : q.Faces e c) (hend : e.rest = []) (hp : p.isSyntactic = true)
    (hnull : p.nullable = false) (hq : q.isSyntactic = true) (hc : c.Rested)
    (hapart : Terminal.apart p.starters q.starters = true) : p.Refuses c := by
  obtain rfl | hstarts := h.starts hq hc
  · exact refuses_of_lacks hp hnull hc (Cursor.lacks_of_rest_nil hend _)
  · exact refuses_of_lacks hp hnull hc (hstarts.lacks hapart)

/-! ## Steered patterns -/

/-- Behind a match of its own a pattern could go on and come to a rule. -/
def Resumes (e : Cursor) : Pattern → Cursor → Prop
  | many p, c => p.Faces e c
  | _, _ => False

/-- Every commitment that a match makes on the way to a rule is the right one, or it
comes to a rule with the other choice as well. -/
def Steered (e : Cursor) : Pattern → Prop
  | prim _ | rule _ => True
  | seq p q => p.Steered e ∧ q.Steered e ∧
      ∀ c, c.Rested → q.Faces e c → p.StopsAt c ∨ p.Resumes e c
  | alt p q => p.Steered e ∧ q.Steered e ∧
      ∀ c, c.Rested → q.Faces e c → p.Refuses c ∨ p.Faces e c
  | opt p => p.Steered e
  | many p => p.Steered e ∧ ∀ c, c.Rested → p.Faces e c → p.StopsAt c

theorem steered_seq (hend : e.rest = []) (hp : p.isSyntactic = true) (hq : q.isSyntactic = true)
    (hapart : Terminal.apart p.extenders q.starters = true) (hsp : p.Steered e)
    (hsq : q.Steered e) : (seq p q).Steered e :=
  ⟨hsp, hsq, fun _ hc h => Or.inl (h.stopsAt hend hp hq hc hapart)⟩

theorem steered_alt (hend : e.rest = []) (hp : p.isSyntactic = true) (hnull : p.nullable = false)
    (hq : q.isSyntactic = true) (hapart : Terminal.apart p.starters q.starters = true)
    (hsp : p.Steered e) (hsq : q.Steered e) : (alt p q).Steered e :=
  ⟨hsp, hsq, fun _ hc h => Or.inl (h.refuses hend hp hnull hq hc hapart)⟩

theorem steered_of_isSeparate (hend : e.rest = []) (hp : p.isSyntactic = true)
    (h : p.isSeparate = true) : p.Steered e := by
  induction p with
  | prim p => trivial
  | rule r => trivial
  | seq p q ihp ihq =>
      simp only [isSyntactic, Bool.and_eq_true] at hp
      simp only [isSeparate, Bool.and_eq_true] at h
      exact steered_seq hend hp.1 hp.2 h.2 (ihp hp.1 h.1.1) (ihq hp.2 h.1.2)
  | alt p q ihp ihq =>
      simp only [isSyntactic, Bool.and_eq_true] at hp
      simp only [isSeparate, Bool.and_eq_true, Bool.not_eq_true'] at h
      obtain ⟨⟨⟨⟨hsp, hsq⟩, hnull⟩, -⟩, hapart⟩ := h
      exact steered_alt hend hp.1 hnull hp.2 hapart (ihp hp.1 hsp) (ihq hp.2 hsq)
  | opt p ih =>
      simp only [isSyntactic, Bool.and_eq_true] at hp
      exact ih hp.1 h
  | many p ih =>
      simp only [isSyntactic, Bool.and_eq_true] at hp
      simp only [isSeparate, Bool.and_eq_true] at h
      exact ⟨ih hp.1 h.1, fun c hc hfaces => hfaces.stopsAt hend hp.1 hp.1 hc h.2⟩

/-! ## The choices that need more than one lexeme -/

/-- A type comes to a rule only at its front. -/
theorem eq_of_faces_typeName (h : (phrase .typeName).Faces e c) : c = e := by
  cases h with
  | here _ => rfl
  | inside hbody =>
      cases hbody with
      | left hint => exact eq_of_faces_term hint
      | right _ hbody =>
          cases hbody with
          | left hboolean => exact eq_of_faces_term hboolean
          | right _ hident => exact eq_of_faces_term hident

theorem eq_of_faces_returnType (h : (phrase .returnType).Faces e c) : c = e := by
  cases h with
  | here _ => rfl
  | inside hbody =>
      cases hbody with
      | left hvoid => exact eq_of_faces_term hvoid
      | right _ htype => exact eq_of_faces_typeName htype

/-- A declaration with a type in front of the end comes to its list of names. -/
theorem faces_varDecl (htype : (phrase .typeName).Matches c nodes d) (hd : d.skip = e) :
    (phrase .varDecl).Faces e c := by
  have hlist : (phrase .varBindList).Faces e d.skip := hd ▸ .here rfl
  exact .inside (.second htype (.first hlist))

/-- Where a method comes to a rule there is no field, or it comes to a rule too. -/
theorem varDecl_of_faces_methodDecl (hc : c.Rested) (h : (phrase .methodDecl).Faces e c) :
    (phrase .varDecl).Refuses c ∨ (phrase .varDecl).Faces e c := by
  have hvoid : ∀ {d nodes}, (kw .voidKw).Matches c nodes d → (phrase .varDecl).Refuses c := by
    intro d nodes hvoid
    have hshows : c.ShowsOne [.keyword .voidKw] := ⟨_, by simp, shows_of_term hvoid⟩
    exact refuses_of_lacks (by decide) (by decide) hc (hshows.lacks (by decide))
  cases h with
  | here _ => exact Or.inr (.here rfl)
  | inside hbody =>
      cases hbody with
      | first hreturn =>
          obtain rfl := eq_of_faces_returnType hreturn
          exact Or.inr (.here rfl)
      | second hreturn hbody =>
          obtain ⟨_, hreturn, -⟩ := matches_rule.1 hreturn
          obtain hword | ⟨-, htype⟩ := matches_alt.1 hreturn
          · exact Or.inl (hvoid hword)
          cases hbody with
          | first hident => exact Or.inr (faces_varDecl htype (eq_of_faces_term hident))
          | second hident hparen =>
              left
              apply refuses_of_not_matches (by decide)
              intro nodes' d' h'
              obtain ⟨_, _, _, _, htype', hident', hmark⟩ := varDecl_next h'
              obtain ⟨-, rfl⟩ := htype.functional htype'
              obtain ⟨-, rfl⟩ := hident.functional hident'
              have hshows : Cursor.ShowsOne _ [.lparen] :=
                ⟨_, by simp, shows_of_faces_mark hparen⟩
              exact hmark.absurd hshows (by decide)

/-- A location that comes to a rule does so at its front or behind its name. -/
theorem faces_location_cases (h : (phrase .location).Faces e c) :
    c = e ∨ ∃ n m, (term .ident).Matches c n m ∧
      (m.skip = e ∨ m.skip.ShowsOne [.dot, .lbrack]) := by
  cases h with
  | here _ => exact Or.inl rfl
  | inside hbody =>
      cases hbody with
      | first hident => exact Or.inl (eq_of_faces_term hident)
      | @second _ _ _ m n hident hselectors =>
          obtain hm | hstarts := hselectors.starts (by decide) m.rested_skip
          · exact Or.inr ⟨n, m, hident, Or.inl hm⟩
          · exact Or.inr ⟨n, m, hident, Or.inr (hstarts.subset (by decide))⟩

/-- What begins with a location comes to a rule in it, or behind it the sign follows. -/
theorem faces_behind_location {t : Terminal}
    (h : (seq (phrase .location) (seq (mark t) q)).Faces e c) :
    (phrase .location).Faces e c ∨
      ∃ n m, (phrase .location).Matches c n m ∧ m.skip.ShowsOne [t] := by
  cases h with
  | first hlocation => exact Or.inl hlocation
  | second hlocation hsign =>
      exact Or.inr ⟨_, _, hlocation, _, by simp, shows_of_faces_mark hsign⟩

theorem faces_methodCall_cases (h : (phrase .methodCall).Faces e c) :
    c = e ∨ (phrase .location).Faces e c ∨
      ∃ n m, (phrase .location).Matches c n m ∧ m.skip.ShowsOne [.lparen] := by
  cases h with
  | here _ => exact Or.inl rfl
  | inside hbody => exact Or.inr (faces_behind_location hbody)

theorem faces_assignStmt_cases (h : (phrase .assignStmt).Faces e c) :
    c = e ∨ (phrase .location).Faces e c ∨
      ∃ n m, (phrase .location).Matches c n m ∧ m.skip.ShowsOne [.assign] := by
  cases h with
  | here _ => exact Or.inl rfl
  | inside hbody => exact Or.inr (faces_behind_location hbody)

/-- A call as a statement comes to a rule as a call does, unless it is a callout. -/
theorem faces_expressionStmt_cases (hc : c.Rested) (h : (phrase .expressionStmt).Faces e c) :
    c.ShowsOne [.keyword .calloutKw] ∨ c = e ∨ (phrase .location).Faces e c ∨
      ∃ n m, (phrase .location).Matches c n m ∧ m.skip.ShowsOne [.lparen] := by
  cases h with
  | here _ => exact Or.inr (Or.inl rfl)
  | inside hbody =>
      cases hbody with
      | second _ hsemi => exact absurd hsemi not_faces_prim
      | first hcall =>
          cases hcall with
          | here _ => exact Or.inr (Or.inl rfl)
          | inside hbody =>
              cases hbody with
              | left hmethod => exact Or.inr (faces_methodCall_cases hmethod)
              | right _ hcallout =>
                  obtain he | hstarts := hcallout.starts (by decide) hc
                  · exact Or.inr (Or.inl he)
                  · exact Or.inl (hstarts.subset (by decide))

/-- A statement that comes to a rule begins there or with a reserved word, or it begins
with a name and comes to a rule behind it, or it has a mark of statements there. -/
theorem faces_statement_cases (hc : c.Rested) (h : (phrase .statement).Faces e c) :
    c = e ∨
    c.ShowsOne [.keyword .calloutKw, .keyword .ifKw, .keyword .whileKw, .keyword .returnKw] ∨
      ∃ n m, (term .ident).Matches c n m ∧
        (m.skip = e ∨ m.skip.ShowsOne [.dot, .lbrack, .assign, .lparen]) := by
  have hplace : ∀ {t}, t ∈ [Terminal.assign, .lparen] →
      (c = e ∨ (phrase .location).Faces e c ∨
        ∃ n m, (phrase .location).Matches c n m ∧ m.skip.ShowsOne [t]) →
      c = e ∨ ∃ n m, (term .ident).Matches c n m ∧
        (m.skip = e ∨ m.skip.ShowsOne [.dot, .lbrack, .assign, .lparen]) := by
    intro t ht h
    obtain he | hlocation | ⟨n, m, hlocation, hsign⟩ := h
    · exact Or.inl he
    · obtain he | ⟨n, m, hident, hm | hselector⟩ := faces_location_cases hlocation
      · exact Or.inl he
      · exact Or.inr ⟨n, m, hident, Or.inl hm⟩
      · exact Or.inr ⟨n, m, hident, Or.inr (hselector.subset (by decide))⟩
    · obtain ⟨n', m', hident, hnext⟩ := location_next_sign hlocation hsign ht
      exact Or.inr ⟨n', m', hident, Or.inr hnext⟩
  cases h with
  | here _ => exact Or.inl rfl
  | inside hbody =>
      cases hbody with
      | left hassign =>
          exact (hplace (by simp) (faces_assignStmt_cases hassign)).imp_right Or.inr
      | right _ hbody =>
          cases hbody with
          | left hcall =>
              obtain hcallout | hcases := faces_expressionStmt_cases hc hcall
              · exact Or.inr (Or.inl (hcallout.subset (by decide)))
              · exact (hplace (by simp) hcases).imp_right Or.inr
          | right _ hother =>
              obtain he | hstarts := hother.starts (by decide) hc
              · exact Or.inl he
              · exact Or.inr (Or.inl (hstarts.subset (by decide)))

/-- Where a statement comes to a rule nothing is declared, or the declaration comes to a
rule too. -/
theorem varDecl_of_faces_statement (hc : c.Rested) (h : (phrase .statement).Faces e c) :
    (phrase .varDecl).Refuses c ∨ (phrase .varDecl).Faces e c := by
  obtain rfl | hword | ⟨n, m, hident, hnext⟩ := faces_statement_cases hc h
  · exact Or.inr (.here rfl)
  · exact Or.inl (refuses_of_lacks (by decide) (by decide) hc (hword.lacks (by decide)))
  · obtain hm | hnext := hnext
    · obtain ⟨_, htype⟩ := typeName_of_ident hc hident
      exact Or.inr (faces_varDecl htype hm)
    · exact Or.inl (varDecl_refuses_of_name hident hnext)

/-- Where a call as a statement comes to a rule nothing is assigned, or the assignment
comes to a rule too. -/
theorem assignStmt_of_faces_expressionStmt (hc : c.Rested)
    (h : (phrase .expressionStmt).Faces e c) :
    (phrase .assignStmt).Refuses c ∨ (phrase .assignStmt).Faces e c := by
  obtain hcallout | rfl | hlocation | ⟨n, m, hlocation, hparen⟩ :=
    faces_expressionStmt_cases hc h
  · exact Or.inl (refuses_of_lacks (by decide) (by decide) hc (hcallout.lacks (by decide)))
  · exact Or.inr (.here rfl)
  · exact Or.inr (.inside (.first hlocation))
  · exact Or.inl (assignStmt_refuses_of_paren hlocation hparen)

/-- Where an array that is made comes to a rule no object is made, or this comes to a rule
too. -/
theorem newObject_of_faces_newArray (h : (phrase .newArray).Faces e c) :
    (phrase .newObject).Refuses c ∨ (phrase .newObject).Faces e c := by
  cases h with
  | here _ => exact Or.inr (.here rfl)
  | inside hbody =>
      cases hbody with
      | first hnew =>
          obtain rfl := eq_of_faces_term hnew
          exact Or.inr (.here rfl)
      | @second _ _ _ m _ hnew hbody =>
          cases hbody with
          | first htype =>
              have hident : (term .ident).Faces e m.skip := eq_of_faces_typeName htype ▸ .here rfl
              exact Or.inr (.inside (.second hnew (.first hident)))
          | second htype hbracket =>
              have hshows := shows_of_faces_mark hbracket
              exact Or.inl (newObject_refuses_of_bracket hnew htype ⟨_, by simp, hshows⟩)

end Pattern

/-! ## The grammar is steered -/

namespace Phrase

open Pattern

variable {e : Cursor}

/-- The declarations at the front of a class or a block go on, or stop, where the members
or statements behind them come to a rule. -/
theorem steered_declarations {q : Phrase} (hend : e.rest = [])
    (hrest : (seq (many (phrase q)) (mark .rbrace)).Steered e)
    (hrefuses : ∀ {c nodes d}, c.Rested → (phrase q).Matches c nodes d →
      (phrase .varDecl).Refuses c)
    (hfaces : ∀ {c}, c.Rested → (phrase q).Faces e c →
      (phrase .varDecl).Refuses c ∨ (phrase .varDecl).Faces e c) :
    (seq (many (phrase .varDecl)) (seq (many (phrase q)) (mark .rbrace))).Steered e := by
  refine ⟨steered_of_isSeparate hend (by decide) (by decide), hrest, ?_⟩
  intro c hc h
  have hstops : (phrase .varDecl).Refuses c → (many (phrase .varDecl)).StopsAt c := by
    intro hnone
    have hlacks : c.Lacks (phrase .varDecl).extenders := fun t ht => by
      have hempty : (phrase .varDecl).extenders = [] := by decide
      simp [hempty] at ht
    exact ⟨stopsAt_of_lacks (by decide) hc hlacks, hnone⟩
  cases h with
  | second _ hbrace => exact absurd hbrace not_faces_prim
  | first hothers =>
      cases hothers with
      | round hother => exact (hfaces hc hother).imp_left hstops
      | again hother _ => exact Or.inl (hstops (hrefuses hc hother))

theorem steered_classDecl (hend : e.rest = []) : classDecl.body.Steered e := by
  have hmembers := steered_declarations hend
    (steered_of_isSeparate hend (by decide) (by decide)) varDecl_refuses_of_methodDecl
    varDecl_of_faces_methodDecl
  exact steered_seq hend (by decide) (by decide) (by decide) trivial
    (steered_seq hend (by decide) (by decide) (by decide) trivial
      (steered_seq hend (by decide) (by decide) (by decide) trivial
        (steered_seq hend (by decide) (by decide) (by decide) trivial hmembers)))

theorem steered_block (hend : e.rest = []) : block.body.Steered e := by
  have hinner := steered_declarations hend
    (steered_of_isSeparate hend (by decide) (by decide)) varDecl_refuses_of_statement
    varDecl_of_faces_statement
  exact steered_seq hend (by decide) (by decide) (by decide) trivial hinner

theorem steered_statement (hend : e.rest = []) : statement.body.Steered e := by
  refine ⟨trivial, steered_of_isSeparate hend (by decide) (by decide), ?_⟩
  intro c hc h
  cases h with
  | left hcall => exact assignStmt_of_faces_expressionStmt hc hcall
  | right _ hother =>
      exact Or.inl (hother.refuses hend (by decide) (by decide) (by decide) hc (by decide))

theorem steered_simpleExpr (hend : e.rest = []) : simpleExpr.body.Steered e := by
  refine steered_alt hend (by decide) (by decide) (by decide) (by decide) trivial
    ⟨trivial, trivial, ?_⟩
  intro c _ hlocation
  exact Or.inr (.inside (.first hlocation))

theorem steered_primary (hend : e.rest = []) : primary.body.Steered e := by
  refine steered_alt hend (by decide) (by decide) (by decide) (by decide) trivial
    ⟨trivial, steered_of_isSeparate hend (by decide) (by decide), ?_⟩
  intro c hc h
  cases h with
  | left harray => exact newObject_of_faces_newArray harray
  | right _ hother =>
      exact Or.inl (hother.refuses hend (by decide) (by decide) (by decide) hc (by decide))

theorem steered_body {p : Phrase} (h : p ≠ .program) (hend : e.rest = []) :
    p.body.Steered e := by
  cases hp : p.needsMore with
  | false =>
      have hsyntactic : (Rule.phrase p).isSyntactic = true := by simpa [Rule.isSyntactic] using h
      have hbody : p.body.isSyntactic = true := Rule.isSyntactic_body hsyntactic
      exact steered_of_isSeparate hend hbody (isSeparate_body hp)
  | true =>
      cases p with
      | classDecl => exact steered_classDecl hend
      | block => exact steered_block hend
      | statement => exact steered_statement hend
      | simpleExpr => exact steered_simpleExpr hend
      | primary => exact steered_primary hend
      | _ => simp [needsMore] at hp

end Phrase

/-! ## What opens with a rule comes to one -/

namespace Pattern

variable {p q : Pattern} {c m e : Cursor} {ls : List Lexeme}

/-- A repetition that comes to a rule behind a round does so with the round. -/
theorem Faces.again_of_derivable (h : (many p).Faces e m) (hls : Derivable p ls)
    (hp : (many p).isSyntactic = true) (hdecided : (many p).Decided)
    (hsteered : (many p).Steered e) (hreads : c.Reads ls m) (hc : c.Rested) :
    (many p).Faces e c := by
  obtain ⟨ts, hts⟩ := hls
  simp only [isSyntactic, Bool.and_eq_true] at hp
  have hm : m.Rested := hreads.rested hc
  have hstop : p.StopsAt m := by
    cases h with
    | round hround => exact hsteered.2 m hm hround
    | again hround _ => exact hdecided.2 m _ _ hm hround
  obtain ⟨nodes, d, hmatches, rfl, -⟩ := hts.exists_match hp.1 hdecided.1 hreads hc hstop
  exact .again hmatches h

/-- A repetition that could go on and come to a rule does so. -/
theorem faces_of_resumes (h : (many p).Resumes e m) (hls : Derivable (many p) ls)
    (hp : (many p).isSyntactic = true) (hdecided : (many p).Decided)
    (hsteered : (many p).Steered e) (hreads : c.Reads ls m) (hc : c.Rested) :
    (many p).Faces e c := by
  obtain ⟨ts, hts⟩ := hls
  generalize hq : many p = q at hts
  induction hts generalizing c with
  | more hfirst _ _ ih =>
      obtain rfl := Pattern.many.inj hq
      obtain ⟨m', hfirst', hothers⟩ := hreads.split
      have hrest := ih hothers (hfirst'.rested hc) rfl
      exact hrest.again_of_derivable ⟨_, hfirst⟩ hp hdecided hsteered hfirst' hc
  | none =>
      obtain rfl := Pattern.many.inj hq
      cases hreads
      exact .round h
  | _ => simp at hq

/-- In a text that ends behind some lexemes a pattern that opens with a rule there comes
to one. -/
theorem Opens.faces (h : p.Opens ls) (hend : e.rest = []) (hp : p.isSyntactic = true)
    (hdecided : p.Decided) (hsteered : p.Steered e) (hreads : c.Reads ls e) (hc : c.Rested) :
    p.Faces e c := by
  induction h generalizing c with
  | here _ =>
      cases hreads
      exact .here hp
  | @inside r ls hbody ih =>
      cases r with
      | terminal t => cases hbody
      | phrase p =>
          have hne : p ≠ .program := by simpa [isSyntactic, Rule.isSyntactic] using hp
          exact .inside (ih (Rule.isSyntactic_body hp) (Phrase.decided_body hne)
            (Phrase.steered_body hne hend) hreads hc)
      | _ => simp [isSyntactic, Rule.isSyntactic] at hp
  | first _ ih =>
      simp only [isSyntactic, Bool.and_eq_true] at hp
      exact .first (ih hp.1 hdecided.1 hsteered.1 hreads hc)
  | @second p q ls ls' hls _ ih =>
      simp only [isSyntactic, Bool.and_eq_true] at hp
      obtain ⟨m, hfirst, hsecond⟩ := hreads.split
      have hm : m.Rested := hfirst.rested hc
      have hfaces := ih hp.2 hdecided.2.1 hsteered.2.1 hsecond hm
      obtain hstop | hresumes := hsteered.2.2 m hm hfaces
      · obtain ⟨ts, hts⟩ := hls
        obtain ⟨nodes, d, hmatches, rfl, -⟩ := hts.exists_match hp.1 hdecided.1 hfirst hc hstop
        exact .second hmatches hfaces
      · cases p with
        | many p =>
            exact .first (faces_of_resumes hresumes hls hp.1 hdecided.1 hsteered.1 hfirst hc)
        | _ => exact hresumes.elim
  | left _ ih =>
      simp only [isSyntactic, Bool.and_eq_true] at hp
      exact .left (ih hp.1 hdecided.1 hsteered.1 hreads hc)
  | right _ ih =>
      simp only [isSyntactic, Bool.and_eq_true] at hp
      have hfaces := ih hp.2 hdecided.2.1 hsteered.2.1 hreads hc
      obtain hrefuses | hearlier := hsteered.2.2 c hc hfaces
      · exact .right hrefuses hfaces
      · exact .left hearlier
  | present _ ih =>
      simp only [isSyntactic, Bool.and_eq_true] at hp
      exact .present (ih hp.1 hdecided hsteered hreads hc)
  | round _ ih =>
      simp only [isSyntactic, Bool.and_eq_true] at hp
      exact .round (ih hp.1 hdecided.1 hsteered.1 hreads hc)
  | again hls _ ih =>
      obtain ⟨m, hfirst, hothers⟩ := hreads.split
      have hfaces := ih hp hdecided hsteered hothers (hfirst.rested hc)
      exact hfaces.again_of_derivable hls hp hdecided hsteered hfirst hc

end Pattern

end DecafFrontEnd
