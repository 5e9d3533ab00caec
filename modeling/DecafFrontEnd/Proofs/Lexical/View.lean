/-
  DecafFrontEnd/Proofs/Lexical/View.lean --- how much of a text a scan needs to see.

  A view `Suffices` when the lexeme found in what it shows is that of the text, and when
  trivia followed from view to view is followed as far as it goes.  What depends on the
  text through these two alone is the same for every such view: the tokens of a text, the
  token at an offset and the end of the last token of a range.

  The rest of the line suffices, and so does the whole rest of the text.  To read one line
  at a time therefore changes nothing (`Source.one_line_at_a_time`).
-/
import DecafFrontEnd.Proofs.Grammar.Lexeme
import DecafFrontEnd.Proofs.Lexical.Excerpt

set_option autoImplicit false

namespace DecafFrontEnd

/-! ## Views that show enough -/

/-- What a view shows has the lexeme of the text in front, and trivia followed from view
to view ends where that of the text does. -/
structure View.Suffices (view : View) : Prop where
  lexeme : ∀ cs : List Char, lexemeBy view cs = Lexeme.first? cs
  trivia : ∀ c : Cursor, c.skipBy view = c.skip

/-- The rest of the line has the lexeme of the text in front. -/
theorem Lexeme.first?_lineRest (cs : List Char) : first? (lineRest cs) = first? cs := by
  cases cs with
  | nil => rfl
  | cons c cs => exact lexemeBy_lineRest (c :: cs)

theorem lexemeBy_id (cs : List Char) : lexemeBy id cs = Lexeme.first? cs := by
  cases cs <;> rfl

/-- Of a whole text all trivia is skipped at once. -/
theorem Cursor.skipBy_id (c : Cursor) : c.skipBy id = c.skip := by
  have hadvance := c.advance_leadingTrivia
  fun_induction Cursor.skipBy id c with
  | case1 c skipped hpos hlt => exact hadvance
  | case2 c skipped hpos hlt ih =>
      have hend : (c.advance skipped).Rested := by
        have hskip : c.advance skipped = c.skip := hadvance
        rw [hskip]
        exact c.rested_skip
      rw [ih (advance_leadingTrivia _), hend.skip_eq]
      exact hadvance
  | case3 c skipped hpos =>
      refine (Rested.skip_eq ?_).symm
      rw [Rested]
      by_cases hnil : c.rest = []
      · rw [hnil]
        rfl
      · have hnone : ¬ 0 < (leadingTrivia c.rest).length := fun h => hpos ⟨h, hnil⟩
        exact List.length_eq_zero_iff.1 (Nat.eq_zero_of_not_pos hnone)

theorem suffices_lineRest : View.Suffices lineRest := ⟨lexemeBy_lineRest, Cursor.skipBy_lineRest⟩

theorem suffices_id : View.Suffices id := ⟨lexemeBy_id, Cursor.skipBy_id⟩

/-! ## What is read through a view -/

namespace View.Suffices

variable {view view' : View} {c : Cursor}

/-- The tokens from a place on, with no view in it. -/
theorem tokensFrom_eq (h : Suffices view) (s : Source) (c : Cursor) :
    s.tokensFrom view c =
      if c.rest = [] then .ok [s.token c.offset .eof []]
      else match Lexeme.first? c.rest with
        | none => .error ⟨c.offset⟩
        | some l => s.tokensFrom view (c.past l) >>= fun ts =>
            .ok (s.token c.offset (.ofLexeme l) l.text :: ts) := by
  rw [Source.tokensFrom]
  split
  · rfl
  · split
    · next hnone =>
        rw [h.lexeme] at hnone
        rw [hnone]
    · next l hl =>
        rw [h.lexeme] at hl
        rw [hl, h.trivia]
        rfl

/-- The end of the last lexeme before a limit, with no view in it. -/
theorem contentEndFrom_eq (h : Suffices view) (limit reached : Nat) (c : Cursor) :
    contentEndFrom view limit reached c =
      if c.offset < limit then
        match Lexeme.first? c.rest with
        | none => limit
        | some l =>
            if limit ≤ c.offset + byteLength l.text then limit
            else contentEndFrom view limit (c.offset + byteLength l.text) (c.past l)
      else reached := by
  rw [contentEndFrom]
  split
  · split
    · next hnone =>
        rw [h.lexeme] at hnone
        rw [hnone]
    · next l hl =>
        rw [h.lexeme] at hl
        rw [hl, h.trivia]
        rfl
  · rfl

theorem tokensFrom_congr (h : Suffices view) (h' : Suffices view') (s : Source) (c : Cursor) :
    s.tokensFrom view c = s.tokensFrom view' c := by
  induction c using Cursor.past_induction with
  | step c ih =>
      rw [h.tokensFrom_eq, h'.tokensFrom_eq]
      split
      · rfl
      · split
        · rfl
        · next l hl => rw [ih l hl]

theorem contentEndFrom_congr (h : Suffices view) (h' : Suffices view') (limit reached : Nat)
    (c : Cursor) : contentEndFrom view limit reached c = contentEndFrom view' limit reached c := by
  induction c using Cursor.past_induction generalizing reached with
  | step c ih =>
      rw [h.contentEndFrom_eq, h'.contentEndFrom_eq]
      split
      · split
        · rfl
        · next l hl => rw [ih l hl]
      · rfl

end View.Suffices

/-! ## One line at a time -/

/-- Every place that an offset leads to is one of the text. -/
theorem Cursor.reaches_atOffset (cs : List Char) (n : Nat) : (start cs).Reaches (atOffset cs n) :=
  ⟨takeBytes n cs, (takeBytes_append_dropBytes n cs).symm, (Nat.zero_add _).symm⟩

/-- A place of a text is the one that its offset leads to. -/
theorem Cursor.atOffset_offset {cs : List Char} {c : Cursor} (h : (start cs).Reaches c) :
    atOffset cs c.offset = c := by
  rw [atOffset, h.floorBoundary_offset, dropBytes_offset h]

namespace Source

/-- The lexer finds a lexeme in the rest of the line exactly if the rule for any lexeme
takes it from the rest of the text. -/
theorem lexemeBy_lineRest_eq_some_iff (cs : List Char) (l : Lexeme) :
    lexemeBy lineRest cs = some l ↔ (alone cs).parseRule .lexeme =
      .ok [.node .lexeme 0 l.text [.node (.terminal l.terminal) 0 l.text []]] := by
  rw [lexemeBy_lineRest, parseRule_lexeme, chars_alone]
  cases hfirst : Lexeme.first? cs with
  | none => simp
  | some l' =>
      obtain ⟨t, text⟩ := l
      obtain ⟨t', text'⟩ := l'
      simp [and_comm]

/-- Reading one line at a time changes nothing.  At every place of a text the rule for any
lexeme takes the same from the rest of the line as from the whole rest of the text, or it
fails in the same way, and this is what the lexer finds there; and trivia followed from
line to line ends where the rule for trivia ends in the whole rest.  The tokens, the token
at an offset and the end of the last token of a range are those that are found when each
scan sees all that is left. -/
theorem one_line_at_a_time (s : Source) :
    (∀ offset, let c := Cursor.atOffset s.chars offset
      (alone (lineRest c.rest)).parseRule .lexeme = (alone c.rest).parseRule .lexeme ∧
      (∀ l : Lexeme, lexemeBy lineRest c.rest = some l ↔ (alone c.rest).parseRule .lexeme =
        .ok [.node .lexeme 0 l.text [.node (.terminal l.terminal) 0 l.text []]]) ∧
      ∃ t, (alone c.rest).parseRule .trivia = .ok [t] ∧
        c.skipBy lineRest = Cursor.atOffset s.chars (c.offset + byteLength t.text)) ∧
    s.tokenize = s.tokenizeBy id ∧
    (∀ offset, s.tokenAt offset = s.tokenAtBy id offset) ∧
    ∀ start limit, s.contentEnd start limit = s.contentEndBy id start limit := by
  have hline := suffices_lineRest
  have hwhole := suffices_id
  refine ⟨fun offset => ⟨?_, ?_, ?_⟩, ?_, fun offset => ?_, fun start limit => ?_⟩
  · rw [parseRule_lexeme, parseRule_lexeme, chars_alone, chars_alone, Lexeme.first?_lineRest]
  · exact lexemeBy_lineRest_eq_some_iff _
  · refine ⟨_, parseRule_trivia _, ?_⟩
    have hskip := (Cursor.reaches_atOffset s.chars offset).trans (Cursor.reaches_skip _)
    rw [hline.trivia, chars_alone]
    exact (Cursor.atOffset_offset hskip).symm
  · rw [tokenize, tokenizeBy, tokenizeBy, hline.trivia, hwhole.trivia,
      hline.tokensFrom_congr hwhole]
  · rw [tokenAt, tokenAtBy, tokenAtBy, hline.lexeme, hwhole.lexeme]
  · exact hline.contentEndFrom_congr hwhole _ _ _

end Source

end DecafFrontEnd
