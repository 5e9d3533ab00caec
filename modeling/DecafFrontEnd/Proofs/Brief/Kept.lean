/-
  DecafFrontEnd/Proofs/Brief/Kept.lean --- where a kept text ends.

  In brief a kept text is written as it is, and what stands behind it is a blank, a bracket
  that closes or nothing.  A text with nothing between its lexemes (`IsTight`) can be told
  from what stands behind it then: it has no blank between two lexemes, and of a longer text
  it would be a simple expression already (`IsKeptText.eq_nil_of_append`).
-/
import DecafFrontEnd.Proofs.Ast.WellFormed
import DecafFrontEnd.Proofs.Grammar.Language
import DecafFrontEnd.Proofs.Lexical.Spelling
import DecafFrontEnd.Proofs.Lexical.Tokens

set_option autoImplicit false

namespace DecafFrontEnd

/-! ## Texts without gaps -/

/-- A text that is its tokens one after the other, with neither blanks nor comments between
them. -/
def IsTight (text : String) : Prop := String.join ((tokensOf text).map Prod.snd) = text

instance (text : String) : Decidable (IsTight text) := inferInstanceAs (Decidable (_ = _))

theorem toList_join_shapes (ls : List Lexeme) :
    (String.join ((ls.map Lexeme.shape ++ [(TokenKind.eof, "")]).map Prod.snd)).toList =
      Lexeme.texts ls := by
  simp [Lexeme.texts, Lexeme.shape, List.flatMap_def, Function.comp_def]

/-- Lexemes take as much of a text as they are long, or more. -/
theorem Cursor.Reads.length_texts_le {c d : Cursor} {ls : List Lexeme} (h : c.Reads ls d) :
    (Lexeme.texts ls).length + d.rest.length ≤ c.rest.length := by
  induction h with
  | nil c => simp [Lexeme.texts]
  | @cons c d l ls hl _ ih =>
      have hrest := congrArg List.length (Cursor.rest_eq_past hl)
      simp only [List.length_append] at hrest
      simp only [Lexeme.texts, List.flatMap_cons, List.length_append] at ih ⊢
      omega

/-! ## Words -/

namespace Terminal

variable {cs l r : List Char}

theorem takeWhile_of_scan_keyword {k : Keyword} (h : (keyword k).scan cs = some (l, r)) :
    cs.takeWhile isWordChar = l := by
  simp only [scan, scanKeyword, Option.ite_none_right_eq_some, Option.some.injEq,
    Prod.mk.injEq] at h
  exact h.2.1

theorem takeWhile_of_scan_ident (h : ident.scan cs = some (l, r)) :
    cs.takeWhile isWordChar = l := by
  simp only [scan, scanName] at h
  split at h
  · simp at h
  · next hw =>
      simp only [Option.ite_none_right_eq_some, Option.some.injEq, Prod.mk.injEq] at h
      exact hw.trans h.2.1

end Terminal

theorem IsWordText.ne_nil {w : List Char} (h : IsWordText w) : w ≠ [] := by
  rintro rfl
  obtain ⟨⟨c, hc, -⟩, -⟩ := h
  simp at hc

/-- A name is spelled as names are. -/
theorem IsName.spells {x : String} (h : IsName x) : TokenKind.ident.Spells x.toList :=
  (Lexeme.spells_of_first? h).1

/-! ## Behind an expression -/

/-- What can stand behind an expression in brief. -/
def IsBehind (r : List Char) : Prop := ∀ c ∈ r.head?, c = ' ' ∨ c = ')' ∨ c = ']'

theorem isBehind_nil : IsBehind [] := by simp [IsBehind]

theorem isBehind_blank (r : List Char) : IsBehind (' ' :: r) := by simp [IsBehind]

theorem isBehind_paren (r : List Char) : IsBehind (')' :: r) := by simp [IsBehind]

theorem isBehind_bracket (r : List Char) : IsBehind (']' :: r) := by simp [IsBehind]

theorem IsBehind.of_append {m r : List Char} (h : IsBehind (m ++ r)) : IsBehind m := by
  cases m with
  | nil => exact isBehind_nil
  | cons c m => exact h

theorem IsBehind.cons_ne {r : List Char} (h : IsBehind r) (c : Char) (cs : List Char)
    (hc : c ≠ ' ' ∧ c ≠ ')' ∧ c ≠ ']') : c :: cs ≠ r := by
  rintro rfl
  rcases h c rfl with rfl | rfl | rfl
  · exact hc.1 rfl
  · exact hc.2.1 rfl
  · exact hc.2.2 rfl

theorem IsBehind.isSeparator {r : List Char} (h : IsBehind r) :
    ∀ x, r.head? = some x → isSeparator x = true := by
  intro x hx
  rcases h x hx with rfl | rfl | rfl <;> decide

/-- No word goes on behind an expression. -/
theorem IsBehind.not_isWordChar {r : List Char} (h : IsBehind r) :
    ∀ c ∈ r.head?, isWordChar c = false :=
  fun c hc => isWordChar_of_isSeparator (h.isSeparator c hc)

/-! ## Kept texts -/

namespace IsKeptText

variable {x x' : String} {m : List Char}

/-- A kept text is a simple expression from its front to its end. -/
theorem exists_matches (h : IsKeptText x) : ∃ nodes d,
    (Pattern.phrase .simpleExpr).Matches (Cursor.start x.toList) nodes d ∧ d.rest = [] := by
  obtain ⟨t, d, attempts, hmatch, hend, -⟩ := h.matched
  have hrun := (Rule.phrase .simpleExpr).runs_matchAt (Cursor.start x.toList)
  rw [hmatch] at hrun
  exact ⟨[t], d, hrun.matches, hend⟩

theorem exists_derives (h : IsKeptText x) : ∃ ls d sks,
    (Cursor.start x.toList).Reads ls d ∧ d.rest = [] ∧
      (Cursor.start x.toList).Holds x.toList d ∧ Derives (Pattern.phrase .simpleExpr) ls sks := by
  obtain ⟨nodes, d, hmatches, hend⟩ := h.exists_matches
  obtain ⟨ls, hreads, hderives⟩ := hmatches.covers.derives (by decide) (by decide) (by decide)
    h.front
  have hskip : d.skip.rest = [] := by
    have hrest : d.skip.rest = skipTrivia d.rest := rfl
    rw [hrest, hend]
    rfl
  obtain ⟨e, hholds⟩ := h.back
  obtain ⟨ls', hreads'⟩ := hholds.exists_reads
  obtain rfl := hreads.eq_of_ends hskip hreads' (hholds.rest_eq_nil rfl)
  obtain rfl := hreads.functional hreads'
  exact ⟨ls, _, _, hreads, hskip, hholds, hderives⟩

/-- A kept text without gaps is its lexemes. -/
theorem texts_eq (h : IsKeptText x) (htight : IsTight x) {ls : List Lexeme} {d : Cursor}
    (hreads : (Cursor.start x.toList).Reads ls d) (hend : d.rest = []) :
    Lexeme.texts ls = x.toList := by
  obtain ⟨ls', d', -, hreads', hend', hholds, -⟩ := h.exists_derives
  obtain rfl := hreads.eq_of_ends hend hreads' hend'
  have htokens := tokensOf_eq hholds h.front hreads'
  rw [String.ofList_toList] at htokens
  rw [← toList_join_shapes, ← htokens, htight]

/-- No kept text without gaps begins with another one and a blank. -/
theorem ne_append_blank (h : IsKeptText x) (h' : IsKeptText x') (htight : IsTight x') :
    x'.toList ≠ x.toList ++ ' ' :: m := by
  intro heq
  obtain ⟨ls, d, -, hreads, -, hholds, -⟩ := h.exists_derives
  have hplace : (Cursor.start x'.toList).rest = x.toList ++ ' ' :: m := heq
  obtain ⟨c, hcreads, hcrest, -⟩ := hholds.reads_before rfl hreads (isBehind_blank m).isSeparator
    hplace
  obtain ⟨ls', d', -, hreads', hend', -⟩ := h'.exists_derives
  obtain ⟨more, rfl, hmore⟩ := hreads'.before_end (by rw [hend']; rfl) hcreads
  -- the lexemes behind the blank are all that is left of the text, and the blank is not in them
  have htexts := congrArg List.length (h'.texts_eq htight hreads' hend')
  have hfront := hreads.length_texts_le
  have hback := hmore.length_texts_le
  have hskip : skipTrivia (' ' :: m) = skipTrivia m := rfl
  have hle := congrArg List.length (leadingTrivia_append_skipTrivia m)
  have hstart : (Cursor.start x.toList).rest = x.toList := rfl
  rw [hcrest, hskip] at hback
  rw [hstart] at hfront
  rw [heq] at htexts
  simp only [Lexeme.texts, List.flatMap_append, List.length_append, List.length_cons]
    at htexts hfront hback hle
  omega

/-- No kept text begins with another one and a sign that does not make it go on. -/
theorem ne_append_sign (h : IsKeptText x) (h' : IsKeptText x') {t : Terminal} {w r : List Char}
    (hm : IsBehind m) (hskip : skipTrivia m = m) (hscan : t.scan m = some (w, r))
    (hapart : Terminal.apart (Pattern.phrase .simpleExpr).extenders [t] = true) :
    x'.toList ≠ x.toList ++ m := by
  intro heq
  obtain ⟨ls, d, sks, hreads, -, hholds, hderives⟩ := h.exists_derives
  have hplace : (Cursor.start x'.toList).rest = x.toList ++ m := heq
  obtain ⟨c, hcreads, hcrest, -⟩ := hholds.reads_before rfl hreads hm.isSeparator hplace
  rw [hskip] at hcrest
  have hshows : c.ShowsOne [t] := ⟨t, List.mem_singleton_self t, w, r, by rw [hcrest, hscan]⟩
  -- the simple expression would end in front of the sign
  have hstop : (Pattern.phrase .simpleExpr).StopsAt c :=
    Pattern.stopsAt_of_lacks (by decide) (hcreads.rested h'.front) (hshows.lacks hapart)
  obtain ⟨nodes, e, hmatches, rfl, -⟩ := hderives.exists_match (by decide) trivial hcreads
    h'.front hstop
  obtain ⟨nodes', e', hmatches', hend'⟩ := h'.exists_matches
  obtain ⟨-, rfl⟩ := hmatches.functional hmatches'
  have hnil : e.skip.rest = skipTrivia e.rest := rfl
  rw [hnil, hend'] at hcrest
  rw [← hcrest] at hscan
  exact Terminal.ne_nil_of_scan hscan (List.append_eq_nil_iff.1 (Terminal.append_of_scan hscan)).1

/-- Nothing that can stand behind an expression makes a kept text another one. -/
theorem eq_nil_of_append (h : IsKeptText x) (h' : IsKeptText x') (htight : IsTight x')
    (hm : IsBehind m) (heq : x'.toList = x.toList ++ m) : m = [] := by
  cases m with
  | nil => rfl
  | cons c m =>
      rcases hm c rfl with rfl | rfl | rfl
      · exact absurd heq (h.ne_append_blank h' htight)
      · exact absurd heq (h.ne_append_sign h' (t := .rparen) hm rfl rfl (by decide))
      · exact absurd heq (h.ne_append_sign h' (t := .rbrack) hm rfl rfl (by decide))

/-- A kept text can be told from what stands behind it. -/
theorem append_inj {r r' : List Char} (h : IsKeptText x) (h' : IsKeptText x') (htight : IsTight x)
    (htight' : IsTight x') (hr : IsBehind r) (hr' : IsBehind r')
    (heq : x.toList ++ r = x'.toList ++ r') : x = x' ∧ r = r' := by
  rcases List.append_eq_append_iff.1 heq with ⟨m, hx', rfl⟩ | ⟨m, hx, rfl⟩
  · obtain rfl := h.eq_nil_of_append h' htight' hr.of_append hx'
    rw [List.append_nil] at hx'
    exact ⟨String.toList_injective hx'.symm, rfl⟩
  · obtain rfl := h'.eq_nil_of_append h htight hr'.of_append hx
    rw [List.append_nil] at hx
    exact ⟨String.toList_injective hx, rfl⟩

/-- A kept text begins with a word: `this` or a name. -/
theorem exists_word (h : IsKeptText x) : ∃ w, x.toList.takeWhile isWordChar = w ∧
    (TokenKind.Spells (.keyword .thisKw) w ∨ TokenKind.ident.Spells w) := by
  obtain ⟨nodes, d, hmatches, hend⟩ := h.exists_matches
  rcases hmatches.covers.starts (by decide) h.front with rfl | ⟨t, ht, w, r, hscan⟩
  · obtain ⟨e, hholds⟩ := h.back
    exact absurd hend hholds.ne_nil
  · have hstarts : (Pattern.phrase .simpleExpr).starters = [.keyword .thisKw, .ident, .ident] := by
      decide
    have hspells := TokenKind.spells_of_scan hscan
    rw [hstarts] at ht
    obtain rfl | rfl : t = .keyword .thisKw ∨ t = .ident := by simpa using ht
    · exact ⟨w, Terminal.takeWhile_of_scan_keyword hscan, .inl hspells⟩
    · exact ⟨w, Terminal.takeWhile_of_scan_ident hscan, .inr hspells⟩

end IsKeptText

end DecafFrontEnd
