/-
  DecafFrontEnd/Proofs/Lexical/Concatenation.lean --- the tokens of two texts as one.

  A line feed between two texts keeps their tokens apart, whatever the first one ends in:
  a comment, half of an operator, a literal without its end.  The tokens of the whole are
  those of the first text and then those of the second, further on by the bytes and the
  lines of the first.  The whole fails where the first text does, and else where the second
  one does (`Source.tokenize_concatenation`).

  The readings of the two texts are carried into the whole by `Cursor.before` and
  `Cursor.shift`.  What is added here is that a place without a lexeme stays one, and where
  the tokens of the carried readings stand.
-/
import DecafFrontEnd.Proofs.Lexical.Lossless
import DecafFrontEnd.Proofs.Lexical.Seam

set_option autoImplicit false

namespace DecafFrontEnd

/-! ## Tokens further on -/

/-- A token of a text where the text stands in a line of its own behind `a`. -/
def Token.behind (a : List Char) (t : Token) : Token :=
  { t with line := t.line + (1 + a.count '\n'), offset := t.offset + (byteLength a + 1) }

/-- Where no lexeme starts none does with a line feed behind the text. -/
theorem Lexeme.first?_line_eq_none {a : List Char} (h : first? a = none) (b : List Char) :
    first? (a ++ '\n' :: b) = none := by
  cases hfirst : first? (a ++ '\n' :: b) with
  | none => rfl
  | some l =>
      obtain ⟨hspells, hfront⟩ := spells_of_first? hfirst
      -- no lexeme goes on over the line feed, so it would be found in `a` alone
      have hlength : l.text.length ≤ a.length := by
        by_contra hlonger
        have hin : a ++ ['\n'] <+: l.text := by
          refine List.prefix_of_prefix_length_le ?_ hfront (by simp; omega)
          exact ⟨b, (List.append_cons a '\n' b).symm⟩
        exact absurd (hspells.no_line_break '\n' (hin.subset (by simp))) (by decide)
      rw [first?_of_append hfirst hlength] at h
      simp at h

namespace Source

variable {s t : Source} {c d : Cursor} {ls : List Lexeme} {n : Nat}

theorem token_followedBy (h : n ≤ s.size) (b : List Char) (kind : TokenKind)
    (text : List Char) : (s.followedBy b).token n kind text = s.token n kind text := by
  simp only [token, followedBy, s.lines_eq, LineIndex.lineColumn_followedBy h]

theorem token_followedBy_add (s t : Source) (n : Nat) (kind : TokenKind) (text : List Char) :
    (s.followedBy t.chars).token (n + (s.size + 1)) kind text =
      (t.token n kind text).behind s.chars := by
  rw [Nat.add_comm, size]
  simp only [token, followedBy, t.lines_eq, LineIndex.lineColumn_followedBy_add, Token.behind,
    Token.mk.injEq, true_and, and_true]
  omega

/-! ## The tokens of the carried readings -/

theorem tokensAlong_before (h : c.Reads ls d) (hreach : (Cursor.start s.chars).Reaches c)
    (hc : c.Rested) (b : List Char) :
    (s.followedBy b).tokensAlong (c.before b) ls = s.tokensAlong c ls := by
  induction h with
  | nil c => rfl
  | @cons c d l ls hl _ ih =>
      have hpast := ih (hreach.trans (Cursor.Reads.one hl).reaches) (Cursor.rested_skip _)
      rw [← Cursor.past_before hc hl] at hpast
      rw [tokensAlong, tokensAlong, hpast, (Cursor.first?_before hc hl b).1,
        token_followedBy (Cursor.offset_le_byteLength hreach)]

theorem tokensAlong_shift (s t : Source) (c : Cursor) (ls : List Lexeme) :
    (s.followedBy t.chars).tokensAlong (c.shift (s.size + 1)) ls =
      (t.tokensAlong c ls).map (·.behind s.chars) := by
  induction ls generalizing c with
  | nil => rfl
  | cons l ls ih =>
      rw [tokensAlong, Cursor.past_shift, ih, Cursor.offset_shift, token_followedBy_add]
      rfl

/-! ## The two texts within the whole -/

/-- A text that fails does so whatever stands in the lines behind it. -/
theorem tokenize_followedBy_of_error {f : LexFailure} (h : s.tokenize = .error f)
    (b : List Char) : (s.followedBy b).tokenize = .error f := by
  obtain ⟨ls, d, hreads, hne, hnone, hoffset⟩ := tokenize_eq_error_iff.1 h
  have hplace := Cursor.before_of_ne_nil (hreads.rested s.rested_firstPlace) hne b
  have hwhole := hreads.before s.rested_firstPlace b
  rw [← firstPlace_followedBy, hplace] at hwhole
  exact tokenize_eq_error_iff.2
    ⟨ls, _, hwhole, by simp, Lexeme.first?_line_eq_none hnone b, hoffset⟩

/-- A text with tokens leads in the whole to the front of the text behind it. -/
theorem reads_followedBy (h : s.firstPlace.Reads ls d) (hend : d.rest = []) (t : Source) :
    (s.followedBy t.chars).firstPlace.Reads ls (t.firstPlace.shift (s.size + 1)) := by
  have hwhole := h.before s.rested_firstPlace t.chars
  rwa [← firstPlace_followedBy, Cursor.before_eq_shift (reaches_of_reads h) hend] at hwhole

theorem tokenize_followedBy_of_ok {front us : List Token} {last : Token}
    (h : s.tokenize = .ok (front ++ [last])) (h' : t.tokenize = .ok us) :
    (s.followedBy t.chars).tokenize = .ok (front ++ us.map (·.behind s.chars)) := by
  obtain ⟨ls, d, hreads, hend, hts⟩ := tokenize_eq_ok_iff.1 h
  obtain ⟨ls', d', hreads', hend', rfl⟩ := tokenize_eq_ok_iff.1 h'
  obtain ⟨rfl, -⟩ := List.append_inj' hts rfl
  have hfirst := reads_followedBy hreads hend t
  refine tokenize_eq_ok_iff.2 ⟨ls ++ ls', _, hfirst.append (hreads'.shift _), hend', ?_⟩
  rw [tokensAlong_append hfirst, firstPlace_followedBy,
    tokensAlong_before hreads (Cursor.reaches_skip _) s.rested_firstPlace, tokensAlong_shift,
    Cursor.offset_shift, token_followedBy_add, List.map_append, List.append_assoc]
  rfl

theorem tokenize_followedBy_of_ok_of_error {ts : List Token} {m : Nat} (h : s.tokenize = .ok ts)
    (h' : t.tokenize = .error ⟨m⟩) :
    (s.followedBy t.chars).tokenize = .error ⟨s.size + 1 + m⟩ := by
  obtain ⟨ls, d, hreads, hend, -⟩ := tokenize_eq_ok_iff.1 h
  obtain ⟨ls', d', hreads', hne, hnone, rfl⟩ := tokenize_eq_error_iff.1 h'
  have hwhole := (reads_followedBy hreads hend t).append (hreads'.shift (s.size + 1))
  exact tokenize_eq_error_iff.2 ⟨_, _, hwhole, hne, hnone, Nat.add_comm _ _⟩

/-! ## Texts and a line feed between them -/

/-- Of two texts with a line feed between them the whole has no tokens if the first one has
none, and fails at the same place.  Otherwise its tokens are those of the first text, the
one that marks its end left out, and behind them those of the second text, every offset
further on by the bytes of the first text and the line feed, every line by the lines of the
first, and the columns unchanged; and it fails as much further on as the second one fails,
exactly if that one does. -/
theorem tokenize_concatenation (a b : String) (name : Option String) :
    (∀ f, (ofText a name).tokenize = .error f →
      (ofText (a ++ "\n" ++ b) name).tokenize = .error f) ∧
    ∀ ts, (ofText a name).tokenize = .ok ts →
      ∃ front last, ts = front ++ [last] ∧ last.kind = .eof ∧
        (∀ us, (ofText b name).tokenize = .ok us →
          (ofText (a ++ "\n" ++ b) name).tokenize = .ok (front ++ us.map (·.behind a.toList))) ∧
        ∀ m, (ofText (a ++ "\n" ++ b) name).tokenize = .error ⟨byteLength a.toList + 1 + m⟩ ↔
          (ofText b name).tokenize = .error ⟨m⟩ := by
  have hchars : (ofText a name).chars = a.toList := rfl
  rw [ofText_concatenation, ← hchars]
  refine ⟨fun f h => tokenize_followedBy_of_error h _, fun ts h => ?_⟩
  obtain ⟨ls, d, -, -, rfl⟩ := tokenize_eq_ok_iff.1 h
  refine ⟨_, _, rfl, rfl, fun us => tokenize_followedBy_of_ok h, fun m => ⟨fun hm => ?_, ?_⟩⟩
  · cases hb : (ofText b name).tokenize with
    | ok us =>
        rw [tokenize_followedBy_of_ok h hb] at hm
        simp at hm
    | error f =>
        rw [tokenize_followedBy_of_ok_of_error h hb] at hm
        have hsame : (ofText a name).size + 1 + f.offset = byteLength a.toList + 1 + m :=
          congrArg LexFailure.offset (Except.error.inj hm)
        have hsize : (ofText a name).size = byteLength a.toList := rfl
        obtain rfl : f.offset = m := by omega
        rfl
  · exact tokenize_followedBy_of_ok_of_error h

/-- An operator divided between two lines is two operators, and a literal divided between
two lines is none. -/
theorem tokenize_concatenation_operator :
    (ofText "x <" none).tokenize =
      .ok [⟨.ident, "x", 0, 1, 0⟩, ⟨.lt, "<", 2, 1, 2⟩, ⟨.eof, "", 3, 1, 3⟩] ∧
    (ofText "= 1" none).tokenize =
      .ok [⟨.assign, "=", 0, 1, 0⟩, ⟨.intLit, "1", 2, 1, 2⟩, ⟨.eof, "", 3, 1, 3⟩] ∧
    (ofText ("x <" ++ "\n" ++ "= 1") none).tokenize =
      .ok [⟨.ident, "x", 0, 1, 0⟩, ⟨.lt, "<", 2, 1, 2⟩, ⟨.assign, "=", 4, 2, 0⟩,
        ⟨.intLit, "1", 6, 2, 2⟩, ⟨.eof, "", 7, 2, 3⟩] ∧
    (ofText "'p" none).tokenize = .error ⟨0⟩ ∧
    (ofText ("'p" ++ "\n" ++ "'") none).tokenize = .error ⟨0⟩ := by
  have hfirst : (ofText "x <" none).tokenize =
      .ok ([⟨.ident, "x", 0, 1, 0⟩, ⟨.lt, "<", 2, 1, 2⟩] ++ [⟨.eof, "", 3, 1, 3⟩]) :=
    tokenize_eq_ok_iff.2 ⟨[⟨.ident, ['x']⟩, ⟨.relOp, ['<']⟩], _,
      .cons rfl (.cons rfl (.nil _)), rfl, rfl⟩
  have hsecond : (ofText "= 1" none).tokenize =
      .ok [⟨.assign, "=", 0, 1, 0⟩, ⟨.intLit, "1", 2, 1, 2⟩, ⟨.eof, "", 3, 1, 3⟩] :=
    tokenize_eq_ok_iff.2 ⟨[⟨.assign, ['=']⟩, ⟨.intLit, ['1']⟩], _,
      .cons rfl (.cons rfl (.nil _)), rfl, rfl⟩
  have hopen : (ofText "'p" none).tokenize = .error ⟨0⟩ :=
    tokenize_eq_error_iff.2 ⟨[], _, .nil _, by decide, rfl, rfl⟩
  obtain ⟨front, last, hts, -, hwhole, -⟩ := (tokenize_concatenation "x <" "= 1" none).2 _ hfirst
  obtain ⟨rfl, -⟩ := List.append_inj' hts rfl
  exact ⟨hfirst, hsecond, hwhole _ hsecond, hopen, (tokenize_concatenation "'p" "'" none).1 _ hopen⟩

end Source

end DecafFrontEnd
