/-
  DecafFrontEnd/Proofs/Compilation/Layout.lean --- layout does not change the meaning.

  Where blanks and comments stand shows in the positions of a program and in the texts
  that are kept, and in nothing else.  Two texts with the same tokens, wherever these
  stand, both compile or both do not.  Their programs are the same up to layout, and their
  errors are of the same variant and at the same token (`Source.sameUpToLayout_of_compile`).
-/
import DecafFrontEnd.Proofs.Compilation.Obstacle
import DecafFrontEnd.Proofs.Lowering.Twin
import DecafFrontEnd.Proofs.Meaning.Transport

set_option autoImplicit false

namespace DecafFrontEnd

/-! ## Errors that differ in their layout -/

/-- Two errors of one variant. -/
inductive CompileError.SameVariant : CompileError → CompileError → Prop
  | malformed (e e' : SyntaxError) : SameVariant (.malformed e) (.malformed e')
  | unsupported (c c' : String) (p p' : Position) (n n' : String) (r r' : Span) :
      SameVariant (.unsupported c p n r) (.unsupported c' p' n' r')
  | internal (d d' : Defect) (p p' : Position) (n n' : String) (r r' : Span) :
      SameVariant (.internal d p n r) (.internal d' p' n' r')

/-- Two offsets in tokens of the same index, at the same distance from where these start. -/
def SameToken (ts ts' : List Token) (m m' : Nat) : Prop :=
  ∃ (i k : Nat) (t t' : Token), ts[i]? = some t ∧ ts'[i]? = some t' ∧ m = t.offset + k ∧
    m' = t'.offset + k ∧ (k = 0 ∨ k < byteLength t.text.toList)

/-- Two errors of one variant at one token of two texts.  Unless the texts are malformed
the errors say the same. -/
structure CompileError.SameUpToLayout (ts ts' : List Token) (e e' : CompileError) : Prop where
  variant : e.SameVariant e'
  place : SameToken ts ts' e.position.offset e'.position.offset
  message : (∀ x, e ≠ .malformed x) → e.messageLine = e'.messageLine

namespace Source

variable {s s' : Source} {ts ts' : List Token} {c : Cursor}

/-! ## Level offsets and tokens -/

/-- Where lexemes lead to there is a token. -/
theorem exists_token_of_reads {ls : List Lexeme} (h : s.tokenize = .ok ts)
    (hreads : s.firstPlace.Reads ls c) : ∃ t, ts[ls.length]? = some t ∧ t.offset = c.offset := by
  obtain ⟨d, hd, hend⟩ := reads_of_tokenize_ok h
  have hnone : Lexeme.first? [] = none := rfl
  obtain ⟨more, -, hmore⟩ := hd.before_end (by rw [hend, hnone]) hreads
  cases hmore with
  | nil _ => exact ⟨_, getElem?_of_reads_end h hreads hend, rfl⟩
  | cons hl _ => exact ⟨_, getElem?_of_reads h hreads hl, rfl⟩

/-- A place on course lies in the token that its count says. -/
theorem exists_token_of_counts {n : Nat} (h : s.tokenize = .ok ts) (hc : s.firstPlace.Counts n c) :
    ∃ t, ts[n / 2]? = some t ∧ c.offset = t.offset + n % 2 ∧
      (n % 2 = 0 ∨ n % 2 < byteLength t.text.toList) := by
  cases hc with
  | @front ls _ hreads =>
      obtain ⟨t, ht, hoffset⟩ := exists_token_of_reads h hreads
      have hindex : 2 * ls.length / 2 = ls.length := by omega
      exact ⟨t, by rwa [hindex], by omega, by omega⟩
  | @inside ls m _ hreads hinside =>
      obtain ⟨x, r, hrest, hfirst, rfl⟩ := hinside
      have ht := getElem?_of_reads h hreads hfirst
      have hindex : (2 * ls.length + 1) / 2 = ls.length := by omega
      have hodd : (2 * ls.length + 1) % 2 = 1 := by omega
      -- the first sign of the operator is one byte long
      have hsigns : byteLength [x] = 1 := by
        obtain ⟨r', hscan⟩ := Lexeme.scan_of_first? hfirst
        have hop : scanAny [['=', '='], ['!', '=']] m.rest = some ([x, '='], r') := hscan
        have hmem := (append_of_scanAny hop).1
        simp only [List.mem_cons, List.cons.injEq, and_true, List.not_mem_nil, or_false] at hmem
        rcases hmem with rfl | rfl <;> rfl
      refine ⟨_, by rwa [hindex], ?_, Or.inr ?_⟩
      · have hadvance : (m.advance 1).offset = m.offset + byteLength [x] := by
          rw [Cursor.advance, hrest]
          rfl
        rw [hadvance, hsigns, hodd]
        rfl
      · have htext : (s.token m.offset (.ofLexeme ⟨.eqOp, [x, '=']⟩) [x, '=']).text.toList =
            [x] ++ ['='] := String.toList_ofList
        rw [hodd, htext, byteLength_append, hsigns]
        decide

/-- Level offsets lie in tokens of the same index. -/
theorem sameToken_of_level {m m' : Nat} (h : s.tokenize = .ok ts) (h' : s'.tokenize = .ok ts')
    (hlevel : s.firstPlace.Level s'.firstPlace m m') : SameToken ts ts' m m' := by
  obtain ⟨n, c, c', hc, hc', rfl, rfl⟩ := hlevel
  obtain ⟨t, ht, hoffset, hk⟩ := exists_token_of_counts h hc
  obtain ⟨t', ht', hoffset', -⟩ := exists_token_of_counts h' hc'
  exact ⟨n / 2, n % 2, t, t', ht, ht', hoffset, hoffset', hk⟩

end Source

/-! ## Errors of twin obstacles -/

/-- The errors of twin obstacles are of one variant and say the same. -/
theorem Obstacle.Twin.error {b b' : Cursor} {o o' : Obstacle} (h : Obstacle.Twin b b' o o')
    (s s' : Source) :
    (o.error s).SameVariant (o'.error s') ∧
      (o.error s).messageLine = (o'.error s').messageLine := by
  have hconstruct := h.construct_eq
  have hstring := h.string_eq
  unfold Obstacle.error
  rw [← hconstruct]
  cases hc : o.construct with
  | bigInteger =>
      rw [hstring hc]
      exact ⟨.internal .., rfl⟩
  | _ => exact ⟨.unsupported .., rfl⟩

namespace Source

variable {s s' : Source} {ts ts' : List Token} {e e' : CompileError}

/-- A text that parses and does not compile has a first obstacle, whose error is its own. -/
theorem exists_first_obstacle {t : Tree} (hparse : s.parseProgram = .ok t)
    (h : s.compile = .error e) :
    ∃ o os, t.obstacles = o :: os ∧ e = o.error s ∧ e.position.offset = o.start := by
  have hsettles := settles_parseProgram hparse
  obtain ⟨-, hplaced⟩ := ascending_obstacles hparse
  rw [← compile_of_parseProgram hparse] at hsettles
  cases hos : t.obstacles with
  | nil =>
      rw [hos] at hsettles
      obtain ⟨p, hp⟩ := hsettles
      rw [h] at hp
      simp at hp
  | cons o os =>
      rw [hos] at hsettles hplaced
      obtain rfl := Except.error.inj (h.symm.trans hsettles)
      exact ⟨o, os, rfl, rfl, position_offset_error (hplaced o (by simp))⟩

/-- A text with tokens that does not parse is malformed where the parse stops. -/
theorem malformed_of_parse_error {m : Mismatch} (h : s.tokenize = .ok ts)
    (hparse : s.parseProgram = .error m) (he : s.compile = .error e) :
    ∃ x, e = .malformed x ∧ e.position.offset = m.offset := by
  have hcompile := compile_of_other_offset hparse (by simp [h])
  obtain rfl := Except.error.inj (he.symm.trans hcompile)
  exact ⟨_, rfl, Mismatch.position_offset_event hparse⟩

/-- Errors of two texts with the same lexemes are the same up to layout. -/
theorem sameUpToLayout_of_errors (h : s.tokenize = .ok ts) (h' : s'.tokenize = .ok ts')
    (halike : s.firstPlace.Alike s'.firstPlace) (he : s.compile = .error e)
    (he' : s'.compile = .error e') : e.SameUpToLayout ts ts' e' := by
  cases hparse : s.parseProgram with
  | ok t =>
      obtain ⟨t', hparse', hchildren⟩ := twin_of_parse halike hparse
      obtain ⟨o, os, hos, rfl, hplace⟩ := exists_first_obstacle hparse he
      obtain ⟨o', os', hos', rfl, hplace'⟩ := exists_first_obstacle hparse' he'
      have hobstacles := Tree.Twin.obstaclesOf hchildren
      rw [← obstacles_of_parseProgram hparse, ← obstacles_of_parseProgram hparse', hos, hos']
        at hobstacles
      cases hobstacles with
      | cons ho _ =>
          obtain ⟨hvariant, hmessage⟩ := ho.error s s'
          refine ⟨hvariant, ?_, fun _ => hmessage⟩
          rw [hplace, hplace']
          exact sameToken_of_level h h' ho.level
  | error m =>
      cases hparse' : s'.parseProgram with
      | ok t' =>
          obtain ⟨t, ht, -⟩ := twin_of_parse halike.symm hparse'
          rw [hparse] at ht
          simp at ht
      | error m' =>
          obtain ⟨x, rfl, hplace⟩ := malformed_of_parse_error h hparse he
          obtain ⟨x', rfl, hplace'⟩ := malformed_of_parse_error h' hparse' he'
          refine ⟨.malformed x x', ?_, fun hne => absurd rfl (hne x)⟩
          rw [hplace, hplace']
          exact sameToken_of_level h h' (level_of_parse_error halike hparse hparse')

/-! ## Layout and meaning -/

/-- Two texts with the same tokens, each of the same kind and text wherever it stands,
both compile or both do not.  The programs are equal when their positions are taken off
and every kept text is replaced by something that depends on its tokens only.  The errors
are of one variant and lie in the token of the same index, at the same distance from
where it starts; unless the texts are malformed they say the same. -/
theorem sameUpToLayout_of_compile (h : s.tokenize = .ok ts) (h' : s'.tokenize = .ok ts')
    (hshapes : ts.map Token.shape = ts'.map Token.shape) :
    ((∃ p, s.compile = .ok p) ↔ ∃ p', s'.compile = .ok p') ∧
      (∀ p p', s.compile = .ok p → s'.compile = .ok p' → p.SameUpToLayout p') ∧
      ∀ e e', s.compile = .error e → s'.compile = .error e' → e.SameUpToLayout ts ts' e' := by
  obtain ⟨d, hreads, hend⟩ := reads_of_tokenize_ok h
  obtain ⟨d', hreads', hend'⟩ := reads_of_tokenize_ok h'
  rw [← Token.lexemes_eq_of_shapes hshapes] at hreads'
  have halike : s.firstPlace.Alike s'.firstPlace :=
    ⟨s.rested_firstPlace, s'.rested_firstPlace, _, d, d', hreads, hend, hreads', hend'⟩
  refine ⟨⟨?_, ?_⟩, fun p p' hp hp' => ?_, fun e e' => sameUpToLayout_of_errors h h' halike⟩
  · rintro ⟨p, hp⟩
    obtain ⟨p', hp', -⟩ := (compile_eq_ok_iff.1 hp).of_lexemes hreads hend hreads' hend'
    exact ⟨p', compile_eq_ok_iff.2 hp'⟩
  · rintro ⟨p', hp'⟩
    obtain ⟨p, hp, -⟩ := (compile_eq_ok_iff.1 hp').of_lexemes hreads' hend' hreads hend
    exact ⟨p, compile_eq_ok_iff.2 hp⟩
  · obtain ⟨q, hq, hsame⟩ := (compile_eq_ok_iff.1 hp).of_lexemes hreads hend hreads' hend'
    obtain rfl := Except.ok.inj (hp'.symm.trans (compile_eq_ok_iff.2 hq))
    exact hsame

/-- A class with nothing in it, once on one line and once with comments over several. -/
theorem sameUpToLayout_of_compile_comment :
    let s := Source.ofText "class A\x7b\x7d" none
    let s' := Source.ofText " class\tA // empty\r\n\x7b \x7d //" "a.decaf"
    ∃ ts ts', s.tokenize = .ok ts ∧ s'.tokenize = .ok ts' ∧
      ts.map Token.shape = ts'.map Token.shape ∧
      ((∃ p, s.compile = .ok p) ↔ ∃ p', s'.compile = .ok p') ∧
      (∀ p p', s.compile = .ok p → s'.compile = .ok p' → p.SameUpToLayout p') ∧
      ∀ e e', s.compile = .error e → s'.compile = .error e' → e.SameUpToLayout ts ts' e' := by
  intro s s'
  obtain ⟨ls, d, d', hreads, hend, hreads', hend'⟩ : ∃ ls d d', s.firstPlace.Reads ls d ∧
      d.rest = [] ∧ s'.firstPlace.Reads ls d' ∧ d'.rest = [] :=
    ⟨[⟨.keyword .classKw, "class".toList⟩, ⟨.ident, ['A']⟩, ⟨.lbrace, ['\x7b']⟩,
        ⟨.rbrace, ['\x7d']⟩], _, _,
      .cons rfl (.cons rfl (.cons rfl (.cons rfl (.nil _)))), rfl,
      .cons rfl (.cons rfl (.cons rfl (.cons rfl (.nil _)))), rfl⟩
  obtain ⟨ts, hts, hshapes⟩ := exists_tokens_of_reads_end hreads hend
  obtain ⟨ts', hts', hshapes'⟩ := exists_tokens_of_reads_end hreads' hend'
  have hsame := hshapes.trans hshapes'.symm
  exact ⟨ts, ts', hts, hts', hsame, sameUpToLayout_of_compile hts hts' hsame⟩

end Source

end DecafFrontEnd
