/-
  DecafFrontEnd/Proofs/Lexical/Tokens.lean --- the tokens of a text and its places.

  The lexemes read on the way to a place count the tokens before it: the token of that
  index is the one at the place.  What the tokens are apart from where they stand is
  given by the lexemes alone.
-/
import DecafFrontEnd.Proofs.Lexical.Excerpt

set_option autoImplicit false

namespace DecafFrontEnd

/-! ## Tokens apart from where they stand -/

/-- The kind and the text of a token. -/
def Token.shape (t : Token) : TokenKind × String := (t.kind, t.text)

/-- The kind and the text of the token that a lexeme is. -/
def Lexeme.shape (l : Lexeme) : TokenKind × String := (.ofLexeme l, String.ofList l.text)

/-- The lexeme that a token of a kind and text is. -/
def shapeLexeme? (shape : TokenKind × String) : Option Lexeme :=
  shape.1.terminal?.map fun terminal => ⟨terminal, shape.2.toList⟩

theorem Lexeme.shapeLexeme?_shape (l : Lexeme) : shapeLexeme? l.shape = some l := by
  simp [shapeLexeme?, shape, TokenKind.terminal?_ofLexeme]

theorem Lexeme.filterMap_shapes (ls : List Lexeme) :
    (ls.map Lexeme.shape).filterMap shapeLexeme? = ls := by
  induction ls with
  | nil => rfl
  | cons l ls ih => rw [List.map_cons, List.filterMap_cons, l.shapeLexeme?_shape, ih]

/-- The lexemes of some tokens are given by their shapes. -/
theorem Token.filterMap_shapes (ts : List Token) :
    (ts.map Token.shape).filterMap shapeLexeme? = ts.filterMap Token.lexeme? := by
  rw [List.filterMap_map]
  rfl

/-- The tokens of a text on its own, apart from where they stand; none if it has no
tokens. -/
def tokensOf (text : String) : List (TokenKind × String) :=
  match (Source.ofText text none).tokenize with
  | .ok ts => ts.map Token.shape
  | .error _ => []

namespace Source

variable {s : Source} {c m : Cursor} {ts : List Token} {ls : List Lexeme}

/-! ## Tokens from a place on -/

theorem tokensFrom_of_first? {l : Lexeme} (hl : Lexeme.first? c.rest = some l)
    (h : s.tokensFrom lineRest c = .ok ts) :
    ∃ ts', s.tokensFrom lineRest (c.past l) = .ok ts' ∧
      ts = s.token c.offset (.ofLexeme l) l.text :: ts' := by
  have hne : c.rest ≠ [] := by
    rintro hnil
    have hnone : Lexeme.first? [] = none := rfl
    rw [hnil, hnone] at hl
    simp at hl
  rw [tokensFrom, if_neg hne] at h
  split at h
  · simp at h
  · next l' hl' =>
      rw [lexemeBy_lineRest] at hl'
      obtain rfl := Option.some.inj (hl.symm.trans hl')
      obtain ⟨ts', hts', h⟩ := bind_eq_ok.1 h
      rw [Cursor.skipBy_lineRest] at hts'
      exact ⟨ts', hts', (Except.ok.inj h).symm⟩

/-- The tokens from a place on are those behind as many as lexemes are read. -/
theorem tokensFrom_of_reads (h : s.tokensFrom lineRest c = .ok ts) (hreads : c.Reads ls m) :
    s.tokensFrom lineRest m = .ok (ts.drop ls.length) := by
  induction hreads generalizing ts with
  | nil c => exact h
  | cons hl _ ih =>
      obtain ⟨ts', hts', rfl⟩ := tokensFrom_of_first? hl h
      exact ih hts'

/-- The tokens from a place on are those of the lexemes read and those behind them. -/
theorem exists_tokens_of_reads (h : s.tokensFrom lineRest c = .ok ts) (hreads : c.Reads ls m) :
    ∃ front back, ts = front ++ back ∧ s.tokensFrom lineRest m = .ok back ∧
      front.map Token.kind = ls.map TokenKind.ofLexeme := by
  induction hreads generalizing ts with
  | nil c => exact ⟨[], ts, rfl, h, rfl⟩
  | cons hl _ ih =>
      obtain ⟨ts', hts', rfl⟩ := tokensFrom_of_first? hl h
      obtain ⟨front, back, rfl, hback, hkinds⟩ := ih hts'
      exact ⟨_ :: front, back, rfl, hback, by rw [List.map_cons, List.map_cons, hkinds]; rfl⟩

/-- The token at a place with a lexeme. -/
theorem getElem?_of_reads {l : Lexeme} (h : s.tokenize = .ok ts)
    (hreads : s.firstPlace.Reads ls m) (hl : Lexeme.first? m.rest = some l) :
    ts[ls.length]? = some (s.token m.offset (.ofLexeme l) l.text) := by
  rw [tokenize_eq] at h
  obtain ⟨ts', -, hdrop⟩ := tokensFrom_of_first? hl (tokensFrom_of_reads h hreads)
  rw [← List.head?_drop, hdrop, List.head?_cons]

/-- The token at the end of a text. -/
theorem getElem?_of_reads_end (h : s.tokenize = .ok ts) (hreads : s.firstPlace.Reads ls m)
    (hend : m.rest = []) : ts[ls.length]? = some (s.token m.offset .eof []) := by
  rw [tokenize_eq] at h
  have hm := tokensFrom_of_reads h hreads
  rw [tokensFrom, if_pos hend] at hm
  rw [← List.head?_drop, ← Except.ok.inj hm, List.head?_cons]

/-! ## Tokens and lexemes -/

theorem map_shape_of_reads (h : s.tokensFrom lineRest c = .ok ts) (hreads : c.Reads ls m)
    (hend : m.rest = []) : ts.map Token.shape = ls.map Lexeme.shape ++ [(.eof, "")] := by
  induction hreads generalizing ts with
  | nil c =>
      rw [tokensFrom, if_pos hend] at h
      rw [← Except.ok.inj h]
      rfl
  | cons hl _ ih =>
      obtain ⟨ts', hts', rfl⟩ := tokensFrom_of_first? hl h
      rw [List.map_cons, ih hts' hend]
      rfl

/-- The tokens of a text are its lexemes and its end. -/
theorem map_shape_of_tokenize (h : s.tokenize = .ok ts) :
    ts.map Token.shape = (ts.filterMap Token.lexeme?).map Lexeme.shape ++ [(.eof, "")] := by
  obtain ⟨d, hreads, hend⟩ := reads_of_tokenize_ok h
  rw [tokenize_eq] at h
  exact map_shape_of_reads h hreads hend

theorem length_of_tokenize (h : s.tokenize = .ok ts) :
    ts.length = (ts.filterMap Token.lexeme?).length + 1 := by
  have hlength := congrArg List.length (map_shape_of_tokenize h)
  simpa only [List.length_map, List.length_append, List.length_singleton] using hlength

/-- The tokens in front of a place are those of the lexemes in front of it. -/
theorem map_shape_take (h : s.tokenize = .ok ts) (hreads : s.firstPlace.Reads ls m) :
    (ts.take ls.length).map Token.shape = ls.map Lexeme.shape := by
  obtain ⟨d, hd, hend⟩ := reads_of_tokenize_ok h
  obtain ⟨more, hall, -⟩ := hd.before_end (by rw [hend]; rfl) hreads
  rw [List.map_take, map_shape_of_tokenize h, hall, List.map_append, List.append_assoc,
    List.take_left' (by simp)]

theorem lexemes_take (h : s.tokenize = .ok ts) (hreads : s.firstPlace.Reads ls m) :
    (ts.take ls.length).filterMap Token.lexeme? = ls := by
  rw [← Token.filterMap_shapes, map_shape_take h hreads, Lexeme.filterMap_shapes]

/-- A text whose lexemes can be read up to its end has their tokens. -/
theorem exists_tokens_of_reads_end (hreads : s.firstPlace.Reads ls m) (hend : m.rest = []) :
    ∃ ts, s.tokenize = .ok ts ∧ ts.map Token.shape = ls.map Lexeme.shape ++ [(.eof, "")] := by
  obtain ⟨ts, hts, -⟩ := tokenize_of_reads hreads hend
  refine ⟨ts, hts, ?_⟩
  rw [tokenize_eq] at hts
  exact map_shape_of_reads hts hreads hend

end Source

/-- Texts with the same tokens, wherever they stand, have the same lexemes. -/
theorem Token.lexemes_eq_of_shapes {ts ts' : List Token}
    (h : ts.map Token.shape = ts'.map Token.shape) :
    ts.filterMap Token.lexeme? = ts'.filterMap Token.lexeme? := by
  rw [← filterMap_shapes, h, filterMap_shapes]

/-- The tokens of a text that stands between two places are the lexemes there. -/
theorem tokensOf_eq {c d : Cursor} {text : List Char} {ls : List Lexeme} (h : c.Holds text d)
    (hc : c.Rested) (hreads : c.Reads ls d) :
    tokensOf (String.ofList text) = ls.map Lexeme.shape ++ [(.eof, "")] := by
  have hplace : (Source.ofText (String.ofList text) none).firstPlace.rest = text := by
    have hrest : (Source.ofText (String.ofList text) none).firstPlace.rest =
        skipTrivia (String.ofList text).toList := rfl
    have happend := leadingTrivia_append_skipTrivia text
    rw [h.leadingTrivia_eq hc] at happend
    rw [hrest, String.toList_ofList]
    exact happend
  obtain ⟨d', hreads', hend, -⟩ := h.reads_alone hreads hplace
  obtain ⟨ts, hts, hshapes⟩ := Source.exists_tokens_of_reads_end hreads' hend
  rw [tokensOf, hts]
  exact hshapes

/-! ## Positions -/

/-- The position of a place is where its token is. -/
theorem Source.positionAt_offset {s : Source} {c : Cursor} (h : (Cursor.start s.chars).Reaches c)
    (kind : TokenKind) (text : List Char) :
    s.positionAt c.offset = ⟨s.name, (s.token c.offset kind text).line,
      (s.token c.offset kind text).column, (s.token c.offset kind text).offset⟩ := by
  simp only [positionAt, Position.locate, token, h.floorBoundary_offset]

end DecafFrontEnd
