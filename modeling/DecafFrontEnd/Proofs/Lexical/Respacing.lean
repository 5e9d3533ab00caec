/-
  DecafFrontEnd/Proofs/Lexical/Respacing.lean --- tokens with other gaps between them.

  The tokens of a text may be written with any gaps that begin with a blank: a blank ends
  every token and begins none, so that no token takes in a part of a gap, loses one to it
  or joins with the next token, and a comment in a gap ends with it.  The text that is made
  of the tokens in this way has the same tokens (`Source.tokenize_respaced`).

  The proof is an induction over the lexemes, which stand whole in front of the next gap
  (`Lexeme.IsWhole.first?_append`); the gap itself is skipped
  (`IsSpacing.skipTrivia_append`).
-/
import DecafFrontEnd.Proofs.Lexical.Tokens

set_option autoImplicit false

namespace DecafFrontEnd

/-! ## Gaps that separate -/

/-- Blanks, tabs, line breaks and comments, each comment with the line break that ends it. -/
inductive IsSpacing : List Char → Prop
  | nil : IsSpacing []
  | blank {c : Char} {g : List Char} : isBlank c = true → IsSpacing g → IsSpacing (c :: g)
  | comment {body g : List Char} {c : Char} : (∀ x ∈ body, isLineBreak x = false) →
      isLineBreak c = true → IsSpacing g → IsSpacing ('/' :: '/' :: (body ++ c :: g))

/-- A gap that begins with a blank, a tab or a line break. -/
structure Separates (g : List Char) : Prop where
  spacing : IsSpacing g
  front : ∃ c ∈ g.head?, isBlank c = true

/-- A comment is skipped up to the line break that ends it. -/
theorem splitTriviaFrom_comment {body : List Char} (hbody : ∀ x ∈ body, isLineBreak x = false)
    {c : Char} (hc : isLineBreak c = true) (r : List Char) :
    (splitTriviaFrom true (body ++ c :: r)).2 = skipTrivia r := by
  induction body with
  | nil => simp [splitTriviaFrom, hc, skipTrivia, splitTrivia]
  | cons x body ih =>
      obtain ⟨hx, hothers⟩ := List.forall_mem_cons.1 hbody
      simp only [List.cons_append, splitTriviaFrom, hx, Bool.not_false]
      exact ih hothers

/-- Such a gap is skipped, whatever stands behind it. -/
theorem IsSpacing.skipTrivia_append {g : List Char} (h : IsSpacing g) (r : List Char) :
    skipTrivia (g ++ r) = skipTrivia r := by
  induction h with
  | nil => rfl
  | @blank c g hc _ ih =>
      rw [← ih, List.cons_append, skipTrivia, skipTrivia, splitTrivia, splitTriviaFrom, if_pos hc]
      rfl
  | @comment body g c hbody hc _ ih =>
      have hinside : skipTrivia ('/' :: '/' :: (body ++ c :: g) ++ r) =
          (splitTriviaFrom true (body ++ c :: (g ++ r))).2 := by
        simp [skipTrivia, splitTrivia, splitTriviaFrom, isBlank, isLineBreak]
      rw [hinside, splitTriviaFrom_comment hbody hc, ih]

/-! ## Texts between gaps -/

/-- Texts one behind the other, a gap in front of each. -/
def respaced (gaps texts : List (List Char)) : List Char :=
  (gaps.zipWith (· ++ ·) texts).flatten

@[simp] theorem respaced_cons (gap text : List Char) (gaps texts : List (List Char)) :
    respaced (gap :: gaps) (text :: texts) = gap ++ (text ++ respaced gaps texts) := by
  simp [respaced]

theorem Token.map_text_eq (ts : List Token) :
    ts.map (·.text.toList) = (ts.map Token.shape).map (·.2.toList) := by
  rw [List.map_map]
  rfl

/-- A text behind a gap that separates begins with a blank. -/
theorem Separates.isSeparator_append {g : List Char} (h : Separates g) (r : List Char) :
    ∀ x, (g ++ r).head? = some x → isSeparator x = true := by
  intro x hx
  obtain ⟨c, hc, hblank⟩ := h.front
  obtain ⟨g, rfl⟩ := List.head?_eq_some_iff.1 hc
  obtain rfl : c = x := Option.some.inj hx
  simp [isSeparator, hblank]

/-- Whole lexemes between gaps that separate are read up to the end of the text. -/
theorem Cursor.reads_respaced {ls : List Lexeme} (hls : ∀ l ∈ ls, l.IsWhole)
    {gaps : List (List Char)} (hlength : gaps.length = ls.length + 1)
    (hgaps : ∀ g ∈ gaps, Separates g) {c : Cursor}
    (hc : c.rest = respaced gaps (ls.map Lexeme.text ++ [[]])) :
    ∃ d, c.skip.Reads ls d ∧ d.rest = [] := by
  induction ls generalizing gaps c with
  | nil =>
      obtain ⟨gap, rfl⟩ := List.length_eq_one_iff.1 hlength
      have hgap := (hgaps gap (by simp)).spacing.skipTrivia_append []
      refine ⟨c.skip, .nil _, ?_⟩
      rw [List.map_nil, List.nil_append, respaced_cons] at hc
      rw [skip, hc]
      exact hgap
  | cons l ls ih =>
      obtain ⟨gap, gaps, rfl⟩ := List.exists_cons_of_length_eq_add_one hlength
      obtain ⟨hgap, hothers⟩ := List.forall_mem_cons.1 hgaps
      obtain ⟨hl, hrest⟩ := List.forall_mem_cons.1 hls
      have hlengths : gaps.length = ls.length + 1 := by simpa using hlength
      rw [List.map_cons, List.cons_append, respaced_cons] at hc
      generalize hbehind : respaced gaps (ls.map Lexeme.text ++ [[]]) = behind at hc
      -- the next gap stands right behind the lexeme, and its blank ends the lexeme
      have hseparator : ∀ x, behind.head? = some x → isSeparator x = true := by
        obtain ⟨next, gaps, rfl⟩ := List.exists_cons_of_length_eq_add_one hlengths
        obtain ⟨text, texts, htexts⟩ :=
          List.exists_cons_of_ne_nil (List.append_ne_nil_of_right_ne_nil (ls.map Lexeme.text)
            (List.cons_ne_nil [] []))
        rw [← hbehind, htexts, respaced_cons]
        exact (hothers next (by simp)).isSeparator_append _
      have hplace : c.skip.rest = l.text ++ behind := by
        have hnone := hl.leadingTrivia_append hseparator
        have happend := leadingTrivia_append_skipTrivia (l.text ++ behind)
        rw [hnone, List.nil_append] at happend
        rw [skip, hc, hgap.spacing.skipTrivia_append]
        exact happend
      have hfirst : Lexeme.first? c.skip.rest = some l := by
        rw [hplace]
        exact hl.first?_append hseparator
      have hnext : (c.skip.advance l.text.length).rest =
          respaced gaps (ls.map Lexeme.text ++ [[]]) := by
        rw [advance_length hplace, hbehind]
      obtain ⟨d, hd, hend⟩ := ih hrest hlengths hothers hnext
      exact ⟨d, .cons hfirst hd, hend⟩

namespace Source

variable {s : Source} {ts : List Token}

/-- The tokens of a text, written with one gap in front of each, the one that marks the end
included, are the tokens of what is written so.  Every gap begins with a blank, a tab or a
line break; what is written has tokens of the same kinds and texts. -/
theorem tokenize_respaced (h : s.tokenize = .ok ts) {gaps : List (List Char)}
    (hlength : gaps.length = ts.length) (hgaps : ∀ g ∈ gaps, Separates g)
    (name : Option String) :
    ∃ us, (ofText (String.ofList (respaced gaps (ts.map (·.text.toList)))) name).tokenize =
        .ok us ∧ us.map Token.shape = ts.map Token.shape := by
  obtain ⟨d, hreads, hend⟩ := reads_of_tokenize_ok h
  have hshapes := map_shape_of_tokenize h
  generalize ts.filterMap Token.lexeme? = ls at hreads hshapes
  have htexts : ts.map (·.text.toList) = ls.map Lexeme.text ++ [[]] := by
    rw [Token.map_text_eq, hshapes]
    simp [Lexeme.shape, Function.comp_def]
  have hlengths : gaps.length = ls.length + 1 := by
    rw [hlength, ← List.length_map (·.text.toList), htexts]
    simp
  rw [htexts]
  obtain ⟨e, he, hend'⟩ := Cursor.reads_respaced hreads.isWhole_of_mem hlengths hgaps
    (c := Cursor.start (ofText (String.ofList _) name).chars) String.toList_ofList
  obtain ⟨us, hus, hsame⟩ := exists_tokens_of_reads_end he hend'
  exact ⟨us, hus, hsame.trans hshapes.symm⟩

/-- A literal with slashes in it in front of a division, and comments in the gaps. -/
theorem tokenize_respaced_comment :
    ∃ ts us, (ofText "\"//\"/ x" none).tokenize = .ok ts ∧
      ts.map Token.shape = [(.stringLit, "\"//\""), (.div, "/"), (.ident, "x"), (.eof, "")] ∧
      (ofText "\t\"//\" // a\n/\n// b\n x\r" none).tokenize = .ok us ∧
      us.map Token.shape = ts.map Token.shape := by
  have hreads : (ofText "\"//\"/ x" none).firstPlace.Reads
      [⟨.stringLit, "\"//\"".toList⟩, ⟨.mulOp, ['/']⟩, ⟨.ident, ['x']⟩] ⟨7, []⟩ :=
    .cons rfl (.cons rfl (.cons rfl (.nil _)))
  obtain ⟨ts, hts, hshapes⟩ := exists_tokens_of_reads_end hreads rfl
  have hlength : ts.length = 4 := by simpa using congrArg List.length hshapes
  have htexts : ts.map (·.text.toList) = ["\"//\"".toList, ['/'], ['x'], []] := by
    rw [Token.map_text_eq, hshapes]
    rfl
  have hcomment : IsSpacing ('/' :: '/' :: ([' ', 'a'] ++ '\n' :: [])) :=
    .comment (by simp [isLineBreak]) rfl .nil
  have hline : IsSpacing ('/' :: '/' :: ([' ', 'b'] ++ '\n' :: [' '])) :=
    .comment (by simp [isLineBreak]) rfl (.blank rfl .nil)
  have hgaps : ∀ g ∈ ["\t".toList, " // a\n".toList, "\n// b\n ".toList, "\r".toList],
      Separates g := by
    simp only [List.forall_mem_cons]
    exact ⟨⟨.blank rfl .nil, _, rfl, rfl⟩, ⟨.blank rfl hcomment, _, rfl, rfl⟩,
      ⟨.blank rfl hline, _, rfl, rfl⟩, ⟨.blank rfl .nil, _, rfl, rfl⟩, by simp⟩
  obtain ⟨us, hus, hsame⟩ := tokenize_respaced hts (by rw [hlength]; rfl) hgaps none
  rw [htexts] at hus
  exact ⟨ts, us, hts, hshapes, hus, hsame⟩

end Source

end DecafFrontEnd
