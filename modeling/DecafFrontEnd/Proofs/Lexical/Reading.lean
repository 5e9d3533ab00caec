/-
  DecafFrontEnd/Proofs/Lexical/Reading.lean --- the lexemes between two places.

  `Cursor.Reads c ls d` says that the lexemes `ls` stand between the places `c`
  and `d`, each with the trivia behind it.  From one place there is one way to
  read on, so two readings from it are one the beginning of the other
  (`Reads.before_end`).

  Tokenizing follows such a reading: it succeeds when the reading gets to the end
  of the text and fails at the place where no lexeme starts
  (`reads_of_tokenize_ok`, `reads_of_tokenize_error`).
-/
import DecafFrontEnd.Proofs.Lexical.Trivia
import DecafFrontEnd.Proofs.Sequence

set_option autoImplicit false

namespace DecafFrontEnd

/-! ## Readings -/

namespace Cursor

/-- The place after a lexeme and the trivia behind it. -/
def past (c : Cursor) (l : Lexeme) : Cursor := (c.advance l.text.length).skip

/-- The lexemes from one place to another. -/
inductive Reads : Cursor → List Lexeme → Cursor → Prop
  | nil (c : Cursor) : Reads c [] c
  | cons {c d : Cursor} {l : Lexeme} {ls : List Lexeme} :
      Lexeme.first? c.rest = some l → Reads (c.past l) ls d → Reads c (l :: ls) d

namespace Reads

theorem one {c : Cursor} {l : Lexeme} (h : Lexeme.first? c.rest = some l) :
    Reads c [l] (c.past l) := .cons h (.nil _)

theorem append {c d e : Cursor} {ls ls' : List Lexeme} (h : Reads c ls d)
    (h' : Reads d ls' e) : Reads c (ls ++ ls') e := by
  induction h with
  | nil c => exact h'
  | cons hl _ ih => exact .cons hl (ih h')

/-- A reading can be cut between any two lexemes. -/
theorem split {c e : Cursor} {ls ls' : List Lexeme} (h : Reads c (ls ++ ls') e) :
    ∃ d, Reads c ls d ∧ Reads d ls' e := by
  induction ls generalizing c with
  | nil => exact ⟨c, .nil c, h⟩
  | cons l ls ih =>
      cases h with
      | cons hl hrest =>
          obtain ⟨d, hd, he⟩ := ih hrest
          exact ⟨d, .cons hl hd, he⟩

/-- A reading of some lexemes has one end. -/
theorem functional {c d e : Cursor} {ls : List Lexeme} (h : Reads c ls d)
    (h' : Reads c ls e) : d = e := by
  induction h with
  | nil c =>
      cases h'
      rfl
  | cons _ _ ih =>
      cases h' with
      | cons _ hrest => exact ih hrest

/-- A reading that can go no further comes by every place that can be read up
to. -/
theorem before_end {c d e : Cursor} {ls ls' : List Lexeme} (h : Reads c ls e)
    (hend : Lexeme.first? e.rest = none) (h' : Reads c ls' d) :
    ∃ ls'', ls = ls' ++ ls'' ∧ Reads d ls'' e := by
  induction h' generalizing ls with
  | nil c => exact ⟨ls, rfl, h⟩
  | cons hl' _ ih =>
      cases h with
      | nil _ => rw [hend] at hl'; simp at hl'
      | cons hl hrest =>
          obtain rfl := Option.some.inj (hl.symm.trans hl')
          obtain ⟨ls'', rfl, hd⟩ := ih hrest
          exact ⟨ls'', rfl, hd⟩

/-- Of two readings the longer one goes on from where the other ends. -/
theorem of_length_le {c d e : Cursor} {ls ls' : List Lexeme} (h : Reads c ls d)
    (h' : Reads c ls' e) (hlength : ls.length ≤ ls'.length) :
    ∃ more, ls' = ls ++ more ∧ Reads d more e := by
  induction h generalizing ls' with
  | nil c => exact ⟨ls', rfl, h'⟩
  | cons hl _ ih =>
      cases h' with
      | nil _ => simp at hlength
      | cons hl' hrest' =>
          obtain rfl := Option.some.inj (hl.symm.trans hl')
          obtain ⟨more, rfl, hmore⟩ := ih hrest' (by simpa using hlength)
          exact ⟨more, rfl, hmore⟩

/-- Two readings that can go no further are the same. -/
theorem eq_of_stops {c d e : Cursor} {ls ls' : List Lexeme} (h : Reads c ls d)
    (hd : Lexeme.first? d.rest = none) (h' : Reads c ls' e) (he : Lexeme.first? e.rest = none) :
    ls = ls' ∧ d = e := by
  obtain ⟨more, rfl, hmore⟩ := h.before_end hd h'
  cases hmore with
  | nil _ => exact ⟨List.append_nil _, rfl⟩
  | cons hl _ =>
      rw [he] at hl
      simp at hl

/-- The lexemes up to the end of a text are always the same. -/
theorem eq_of_ends {c d e : Cursor} {ls ls' : List Lexeme} (h : Reads c ls d) (hd : d.rest = [])
    (h' : Reads c ls' e) (he : e.rest = []) : ls = ls' :=
  (h.eq_of_stops (by rw [hd]; rfl) h' (by rw [he]; rfl)).1

theorem rested {c d : Cursor} {ls : List Lexeme} (h : Reads c ls d) (hc : c.Rested) :
    d.Rested := by
  induction h with
  | nil c => exact hc
  | cons _ _ ih => exact ih (rested_skip _)

theorem reaches {c d : Cursor} {ls : List Lexeme} (h : Reads c ls d) : c.Reaches d := by
  induction h with
  | nil c => exact .refl c
  | cons _ _ ih => exact ((reaches_advance _ _).trans (reaches_skip _)).trans ih

end Reads

end Cursor

/-! ## Tokens and lexemes -/

/-- The class of lexemes that a kind of tokens comes from; the end of the text
comes from none. -/
def TokenKind.terminal? : TokenKind → Option Terminal
  | keyword k => some (.keyword k)
  | ident => some .ident
  | intLit => some .intLit
  | charLit => some .charLit
  | stringLit => some .stringLit
  | lparen => some .lparen
  | rparen => some .rparen
  | lbrace => some .lbrace
  | rbrace => some .rbrace
  | lbrack => some .lbrack
  | rbrack => some .rbrack
  | semi => some .semi
  | comma => some .comma
  | dot => some .dot
  | not => some .notOp
  | plus | minus => some .addOp
  | mult | div => some .mulOp
  | leq | geq | lt | gt => some .relOp
  | eq | neq => some .eqOp
  | and => some .andOp
  | or => some .orOp
  | assign => some .assign
  | eof => none

theorem TokenKind.terminal?_ofLexeme (l : Lexeme) :
    (TokenKind.ofLexeme l).terminal? = some l.terminal := by
  obtain ⟨t, text⟩ := l
  cases t <;> simp only [ofLexeme] <;> (repeat' split) <;> rfl

theorem TokenKind.ofLexeme_ne_eof (l : Lexeme) : TokenKind.ofLexeme l ≠ .eof := by
  intro heof
  have hterminal := terminal?_ofLexeme l
  rw [heof] at hterminal
  simp [terminal?] at hterminal

/-- The lexeme that a token is; the end of the text is none. -/
def Token.lexeme? (t : Token) : Option Lexeme :=
  t.kind.terminal?.map fun terminal => ⟨terminal, t.text.toList⟩

namespace Source

theorem lexeme?_token (s : Source) (offset : Nat) (l : Lexeme) :
    (s.token offset (.ofLexeme l) l.text).lexeme? = some l := by
  simp [Token.lexeme?, token, TokenKind.terminal?_ofLexeme]

/-! ## The place at an offset -/

/-- The text in front of a place and the text behind it make up the whole. -/
theorem offset_add_byteLength_rest {s : Source} {c : Cursor}
    (hc : (Cursor.start s.chars).Reaches c) :
    c.offset + byteLength c.rest = s.size := by
  obtain ⟨text, hchars, hoffset⟩ := hc
  have htext : s.chars = text ++ c.rest := hchars
  rw [hoffset, size, htext, byteLength_append, Cursor.start, Nat.zero_add]

theorem offset_eq_size {s : Source} {c : Cursor} (hc : (Cursor.start s.chars).Reaches c)
    (hend : c.rest = []) : c.offset = s.size := by
  rw [← offset_add_byteLength_rest hc, hend]
  rfl

theorem offset_lt_size_iff {s : Source} {c : Cursor} (hc : (Cursor.start s.chars).Reaches c) :
    c.offset < s.size ↔ c.rest ≠ [] := by
  have hsize := offset_add_byteLength_rest hc
  constructor
  · rintro hlt hnil
    rw [hnil, byteLength_nil] at hsize
    omega
  · intro hne
    have hpos := byteLength_pos hne
    omega

theorem isBoundary_offset {s : Source} {c : Cursor} (hc : (Cursor.start s.chars).Reaches c) :
    isBoundary s.chars c.offset = true := by
  rw [isBoundary, hc.floorBoundary_offset]
  exact beq_self_eq_true _

/-- The token at the offset of a place is the lexeme there. -/
theorem tokenAt_offset {s : Source} {c : Cursor} (hc : (Cursor.start s.chars).Reaches c) :
    s.tokenAt c.offset = (Lexeme.first? c.rest).map Lexeme.text := by
  rw [tokenAt, tokenAtBy, if_pos (isBoundary_offset hc), Cursor.dropBytes_offset hc,
    lexemeBy_lineRest]

/-! ## Tokenizing -/

theorem reads_of_tokensFrom_ok (s : Source) {c : Cursor} {ts : List Token}
    (h : s.tokensFrom lineRest c = .ok ts) :
    ∃ d, c.Reads (ts.filterMap Token.lexeme?) d ∧ d.rest = [] := by
  fun_induction tokensFrom s lineRest c generalizing ts with
  | case1 c hnil =>
      obtain rfl := Except.ok.inj h
      exact ⟨c, .nil c, hnil⟩
  | case2 c hnil hnone => exact absurd h (by simp)
  | case3 c hnil l hl ih =>
      obtain ⟨rest, hrest, hts⟩ := bind_eq_ok.1 h
      obtain rfl := Except.ok.inj hts
      obtain ⟨d, hd, hend⟩ := ih hrest
      rw [Cursor.skipBy_lineRest] at hd
      rw [lexemeBy_lineRest] at hl
      refine ⟨d, ?_, hend⟩
      rw [List.filterMap_cons, lexeme?_token]
      exact .cons hl hd

theorem reads_of_tokensFrom_error (s : Source) {c : Cursor} {f : LexFailure}
    (h : s.tokensFrom lineRest c = .error f) :
    ∃ ls d, c.Reads ls d ∧ d.rest ≠ [] ∧ Lexeme.first? d.rest = none ∧ d.offset = f.offset := by
  fun_induction tokensFrom s lineRest c with
  | case1 c hnil => exact absurd h (by simp)
  | case2 c hnil hnone =>
      obtain rfl := Except.error.inj h
      rw [lexemeBy_lineRest] at hnone
      exact ⟨[], c, .nil c, hnil, hnone, rfl⟩
  | case3 c hnil l hl ih =>
      rcases bind_eq_error.1 h with hrest | ⟨rest, -, hts⟩
      · obtain ⟨ls, d, hd, hne, hnone, hoffset⟩ := ih hrest
        rw [Cursor.skipBy_lineRest] at hd
        rw [lexemeBy_lineRest] at hl
        exact ⟨l :: ls, d, .cons hl hd, hne, hnone, hoffset⟩
      · exact absurd hts (by simp)

/-- The place of the first lexeme of a text. -/
def firstPlace (s : Source) : Cursor := (Cursor.start s.chars).skip

theorem rested_firstPlace (s : Source) : s.firstPlace.Rested := Cursor.rested_skip _

/-- What is read from the front of a text leads to a place of the text. -/
theorem reaches_of_reads {s : Source} {ls : List Lexeme} {d : Cursor}
    (h : s.firstPlace.Reads ls d) : (Cursor.start s.chars).Reaches d :=
  (Cursor.reaches_skip _).trans h.reaches

theorem tokenize_eq (s : Source) : s.tokenize = s.tokensFrom lineRest s.firstPlace := by
  rw [tokenize, tokenizeBy, Cursor.skipBy_lineRest, firstPlace]

/-- The tokens of a text are the lexemes that are read on the way to its end. -/
theorem reads_of_tokenize_ok {s : Source} {ts : List Token} (h : s.tokenize = .ok ts) :
    ∃ d, s.firstPlace.Reads (ts.filterMap Token.lexeme?) d ∧ d.rest = [] := by
  rw [tokenize_eq] at h
  exact s.reads_of_tokensFrom_ok h

/-- Tokenizing fails where the reading of lexemes can go no further. -/
theorem reads_of_tokenize_error {s : Source} {f : LexFailure} (h : s.tokenize = .error f) :
    ∃ ls d, s.firstPlace.Reads ls d ∧ d.rest ≠ [] ∧ Lexeme.first? d.rest = none ∧
      d.offset = f.offset := by
  rw [tokenize_eq] at h
  exact s.reads_of_tokensFrom_error h

/-- A text whose lexemes can be read up to its end has these tokens. -/
theorem tokenize_of_reads {s : Source} {ls : List Lexeme} {d : Cursor}
    (h : s.firstPlace.Reads ls d) (hend : d.rest = []) :
    ∃ ts, s.tokenize = .ok ts ∧ ts.filterMap Token.lexeme? = ls := by
  have hnone : Lexeme.first? d.rest = none := by rw [hend]; rfl
  cases hts : s.tokenize with
  | ok ts =>
      obtain ⟨d', hd', hend'⟩ := reads_of_tokenize_ok hts
      exact ⟨ts, rfl, hd'.eq_of_ends hend' h hend⟩
  | error f =>
      obtain ⟨ls', d', hd', hne, hnone', -⟩ := reads_of_tokenize_error hts
      obtain ⟨-, rfl⟩ := h.eq_of_stops hnone hd' hnone'
      exact absurd hend hne

end Source

end DecafFrontEnd
