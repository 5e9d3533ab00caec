/-
  DecafFrontEnd/Proofs/Lexical/Lossless.lean --- nothing of a text is lost.

  The tokens of a text and the gaps between them make up the text.  A gap is blanks
  and comments, each comment up to the next line break or the end of the text; a
  token is the longest one that the text has where it stands.  Where tokenizing fails
  the same holds of the text before that place, and no token and no gap begins there
  (`Source.tokenize_lossless`).

  The proof follows the reading of lexemes: `Source.tokensAlong` are the tokens of a
  reading, and each of the three properties of a division is shown of them by
  induction on it.
-/
import DecafFrontEnd.Proofs.Lexical.Spelling
import DecafFrontEnd.Proofs.Lexical.Tokens

set_option autoImplicit false

namespace DecafFrontEnd

/-! ## Gaps -/

/-- The texts that stand between tokens, in front of a text. A comment goes on to the
next line break, or to the end where there is none. -/
inductive IsGap : List Char → List Char → Prop
  | nil (r : List Char) : IsGap [] r
  | blank {c : Char} {g r : List Char} : isBlank c = true → IsGap g r → IsGap (c :: g) r
  | comment {body g r : List Char} : (∀ c ∈ body, isLineBreak c = false) →
      (∀ c ∈ (g ++ r).head?, isLineBreak c = true) → IsGap g r →
      IsGap ('/' :: '/' :: (body ++ g)) r

/-- What is left of a comment, with the gap behind it. -/
def IsCommentTail (t r : List Char) : Prop :=
  ∃ body g, t = body ++ g ∧ (∀ c ∈ body, isLineBreak c = false) ∧
    (∀ c ∈ (g ++ r).head?, isLineBreak c = true) ∧ IsGap g r

/-- A slash that stands in a comment belongs to it. -/
theorem IsCommentTail.isGap {t r : List Char} (h : IsCommentTail ('/' :: t) r) :
    IsGap ('/' :: '/' :: t) r := by
  obtain ⟨body, g, htext, hbody, hend, hgap⟩ := h
  cases body with
  | nil =>
      have hg : '/' :: t = g := htext
      rw [← hg] at hend
      exact absurd (hend '/' rfl) (by decide)
  | cons c body =>
      obtain ⟨rfl, rfl⟩ := List.cons.inj htext
      exact .comment (fun x hx => hbody x (List.mem_cons_of_mem _ hx)) hend hgap

/-- What is divided off a text as trivia is a gap, and inside a comment the rest of the
comment and a gap. -/
theorem isGap_splitTriviaFrom (cs : List Char) :
    IsCommentTail (splitTriviaFrom true cs).1 (splitTriviaFrom true cs).2 ∧
      IsGap (splitTriviaFrom false cs).1 (splitTriviaFrom false cs).2 := by
  induction cs with
  | nil => exact ⟨⟨[], [], rfl, by simp, by simp [splitTriviaFrom], .nil _⟩, .nil _⟩
  | cons c cs ih =>
      obtain ⟨hinside, hgap⟩ := ih
      constructor
      · cases hbreak : isLineBreak c with
        | true =>
            simp only [splitTriviaFrom, hbreak, Bool.not_true]
            exact ⟨[], _, rfl, by simp, by simp [hbreak],
              .blank (isBlank_of_isLineBreak hbreak) hgap⟩
        | false =>
            obtain ⟨body, g, htrivia, hbody, hend, hrest⟩ := hinside
            simp only [splitTriviaFrom, hbreak, Bool.not_false]
            refine ⟨c :: body, g, by rw [htrivia]; rfl, ?_, hend, hrest⟩
            rw [List.forall_mem_cons]
            exact ⟨hbreak, hbody⟩
      · by_cases hblank : isBlank c = true
        · simp only [splitTriviaFrom, hblank, if_true]
          exact .blank hblank hgap
        by_cases hslash : (c = '/' && cs.head? = some '/') = true
        · simp only [splitTriviaFrom, hblank, hslash, if_true]
          simp only [Bool.and_eq_true, decide_eq_true_eq] at hslash
          obtain ⟨rfl, hhead⟩ := hslash
          obtain ⟨cs, rfl⟩ := List.head?_eq_some_iff.1 hhead
          exact hinside.isGap
        · simp only [splitTriviaFrom, hblank, hslash]
          exact .nil _

/-- The trivia at the front of a text is a gap. -/
theorem isGap_leadingTrivia (cs : List Char) : IsGap (leadingTrivia cs) (skipTrivia cs) :=
  (isGap_splitTriviaFrom cs).2

/-- Where no trivia starts there is neither a blank nor a comment. -/
theorem Cursor.Rested.no_trivia {c : Cursor} (h : c.Rested) :
    (∀ x ∈ c.rest.head?, isBlank x = false) ∧ ¬ ['/', '/'] <+: c.rest := by
  unfold Rested leadingTrivia splitTrivia at h
  constructor
  · intro x hx
    obtain ⟨cs, hcs⟩ := List.head?_eq_some_iff.1 hx
    rw [hcs] at h
    cases hblank : isBlank x with
    | false => rfl
    | true => simp [splitTriviaFrom, hblank] at h
  · rintro ⟨cs, hcs⟩
    rw [← hcs] at h
    simp [splitTriviaFrom, isBlank] at h

/-! ## Divisions of a text -/

/-- The offset behind a token. -/
def Token.stop (t : Token) : Nat := t.offset + byteLength t.text.toList

/-- The ranges in front of, between and behind some tokens of the text from `start` to
`stop`. -/
def gapsBetween (start stop : Nat) : List Token → List (Nat × Nat)
  | [] => [(start, stop)]
  | t :: ts => (start, t.offset) :: gapsBetween t.stop stop ts

namespace Source

/-- A token stands where it says that it does, is in one line, and is the longest token
there; it is a reserved word exactly if it is spelled like one. -/
structure HasLongest (s : Source) (t : Token) : Prop where
  boundary : isBoundary s.chars t.offset = true
  text : s.slice t.offset t.stop = t.text.toList
  spells : t.kind.Spells t.text.toList
  longest : ∀ (kind : TokenKind) (w : List Char), kind.Spells w →
    w <+: dropBytes t.offset s.chars → w.length ≤ t.text.toList.length
  oneLine : ∀ c ∈ t.text.toList, c ≠ '\n' ∧ c ≠ '\r'
  keyword : ∀ k : Keyword, t.kind = .keyword k ↔ t.text = k.spelling

/-- The text up to an offset consists of some tokens and the gaps between them. -/
structure DividesInto (s : Source) (ts : List Token) (stop : Nat) : Prop where
  increasing : (ts.map Token.offset).Pairwise (· < ·)
  tokens : ∀ t ∈ ts, s.HasLongest t
  gaps : ∀ range ∈ gapsBetween 0 stop ts, range.1 ≤ range.2 ∧
    IsGap (s.slice range.1 range.2) (dropBytes range.2 s.chars)

variable {s : Source} {c d : Cursor} {l : Lexeme} {ls : List Lexeme} {ts : List Token}

/-! ## The tokens of a reading -/

/-- The tokens of the lexemes that are read from a place on. -/
def tokensAlong (s : Source) : Cursor → List Lexeme → List Token
  | _, [] => []
  | c, l :: ls => s.token c.offset (.ofLexeme l) l.text :: s.tokensAlong (c.past l) ls

/-- The tokens of a text are those of the reading to its end, and the one that marks the
end. -/
theorem tokensFrom_eq_tokensAlong (h : s.tokensFrom lineRest c = .ok ts)
    (hreads : c.Reads ls d) (hend : d.rest = []) :
    ts = s.tokensAlong c ls ++ [s.token d.offset .eof []] := by
  induction hreads generalizing ts with
  | nil c =>
      rw [tokensFrom, if_pos hend] at h
      exact (Except.ok.inj h).symm
  | cons hl _ ih =>
      obtain ⟨ts', hts', rfl⟩ := tokensFrom_of_first? hl h
      rw [ih hts' hend]
      rfl

theorem tokensAlong_append (h : c.Reads ls d) (ls' : List Lexeme) :
    s.tokensAlong c (ls ++ ls') = s.tokensAlong c ls ++ s.tokensAlong d ls' := by
  induction h with
  | nil c => rfl
  | cons _ _ ih => exact congrArg (_ :: ·) ih

/-- A text has tokens exactly if its lexemes can be read to its end. -/
theorem tokenize_eq_ok_iff :
    s.tokenize = .ok ts ↔ ∃ ls d, s.firstPlace.Reads ls d ∧ d.rest = [] ∧
      ts = s.tokensAlong s.firstPlace ls ++ [s.token d.offset .eof []] := by
  constructor
  · intro h
    obtain ⟨d, hreads, hend⟩ := reads_of_tokenize_ok h
    rw [tokenize_eq] at h
    exact ⟨_, d, hreads, hend, tokensFrom_eq_tokensAlong h hreads hend⟩
  · rintro ⟨ls, d, hreads, hend, rfl⟩
    obtain ⟨ts, hts, -⟩ := tokenize_of_reads hreads hend
    have hfrom := hts
    rw [tokenize_eq] at hfrom
    rw [hts, tokensFrom_eq_tokensAlong hfrom hreads hend]

/-- It has none exactly if their reading stops in front of something that is no lexeme, and
fails there. -/
theorem tokenize_eq_error_iff {f : LexFailure} :
    s.tokenize = .error f ↔ ∃ ls d, s.firstPlace.Reads ls d ∧ d.rest ≠ [] ∧
      Lexeme.first? d.rest = none ∧ d.offset = f.offset := by
  constructor
  · exact reads_of_tokenize_error
  · rintro ⟨ls, d, hreads, hne, hnone, hoffset⟩
    cases hts : s.tokenize with
    | ok ts =>
        obtain ⟨e, he, hend⟩ := reads_of_tokenize_ok hts
        obtain ⟨-, rfl⟩ := hreads.eq_of_stops hnone he (by rw [hend]; rfl)
        exact absurd hend hne
    | error f' =>
        obtain ⟨ls', e, he, -, hnone', hoffset'⟩ := reads_of_tokenize_error hts
        obtain ⟨-, rfl⟩ := hreads.eq_of_stops hnone he hnone'
        exact congrArg (fun n => Except.error (LexFailure.mk n)) (hoffset'.symm.trans hoffset)

/-! ## Places and ranges -/

/-- The text between two places. -/
theorem slice_of_rest {text r : List Char} (hc : (Cursor.start s.chars).Reaches c)
    (hrest : c.rest = text ++ r) : s.slice c.offset (c.offset + byteLength text) = text := by
  rw [slice, Cursor.dropBytes_offset hc, hrest, Nat.add_sub_cancel_left,
    takeBytes_byteLength_append]

/-- What a skip passes over is a gap. -/
theorem isGap_skip (hc : (Cursor.start s.chars).Reaches c) :
    c.offset ≤ c.skip.offset ∧
      IsGap (s.slice c.offset c.skip.offset) (dropBytes c.skip.offset s.chars) := by
  have hskip : (Cursor.start s.chars).Reaches c.skip := hc.trans (Cursor.reaches_skip c)
  have htrivia : c.rest = leadingTrivia c.rest ++ skipTrivia c.rest :=
    (leadingTrivia_append_skipTrivia c.rest).symm
  refine ⟨(Cursor.reaches_skip c).offset_le, ?_⟩
  have hslice : s.slice c.offset c.skip.offset = leadingTrivia c.rest := slice_of_rest hc htrivia
  rw [hslice, Cursor.dropBytes_offset hskip]
  exact isGap_leadingTrivia c.rest

/-- The token of the lexeme at a place is the longest there. -/
theorem hasLongest_token (hc : (Cursor.start s.chars).Reaches c)
    (hl : Lexeme.first? c.rest = some l) :
    s.HasLongest (s.token c.offset (.ofLexeme l) l.text) := by
  obtain ⟨hspells, r, hr⟩ := Lexeme.spells_of_first? hl
  have htext : (s.token c.offset (.ofLexeme l) l.text).text.toList = l.text :=
    String.toList_ofList
  constructor
  case boundary => exact isBoundary_offset hc
  case text =>
    rw [Token.stop, htext]
    exact slice_of_rest hc hr.symm
  case spells =>
    rw [htext]
    exact hspells
  case longest =>
    intro kind w hw hfront
    have hplace : dropBytes c.offset s.chars = c.rest := Cursor.dropBytes_offset hc
    rw [htext]
    exact Lexeme.length_le_of_first? hl hw (hplace ▸ hfront)
  case oneLine =>
    rw [htext]
    intro x hx
    have hline := hspells.no_line_break x hx
    simpa [isLineBreak] using hline
  case keyword =>
    intro k
    refine (Lexeme.ofLexeme_eq_keyword_iff hl k).trans ?_
    rw [← String.toList_inj, htext]

/-! ## The division along a reading -/

theorem le_offset_of_mem_tokensAlong (h : c.Reads ls d) {t : Token}
    (ht : t ∈ s.tokensAlong c ls) : c.offset ≤ t.offset := by
  induction h with
  | nil c => simp [tokensAlong] at ht
  | @cons c d l ls hl _ ih =>
      obtain rfl | hrest := List.mem_cons.1 ht
      · exact Nat.le_refl _
      · have hpast : c.offset < (c.past l).offset := (Cursor.Reads.one hl).offset_lt (by simp)
        have hle := ih hrest
        omega

theorem increasing_tokensAlong (h : c.Reads ls d) :
    ((s.tokensAlong c ls).map Token.offset).Pairwise (· < ·) := by
  induction h with
  | nil c => exact .nil
  | @cons c d l ls hl hrest ih =>
      have hpast : c.offset < (c.past l).offset := (Cursor.Reads.one hl).offset_lt (by simp)
      refine List.pairwise_cons.2 ⟨?_, ih⟩
      intro offset hoffset
      obtain ⟨t, ht, rfl⟩ := List.mem_map.1 hoffset
      exact Nat.lt_of_lt_of_le hpast (le_offset_of_mem_tokensAlong hrest ht)

theorem hasLongest_of_mem_tokensAlong (h : c.Reads ls d)
    (hc : (Cursor.start s.chars).Reaches c) {t : Token} (ht : t ∈ s.tokensAlong c ls) :
    s.HasLongest t := by
  induction h with
  | nil c => simp [tokensAlong] at ht
  | @cons c d l ls hl hrest ih =>
      obtain rfl | hlater := List.mem_cons.1 ht
      · exact hasLongest_token hc hl
      · exact ih (hc.trans (Cursor.Reads.one hl).reaches) hlater

/-- Between the tokens of a reading are gaps, if there is one in front of the first. -/
theorem isGap_of_mem_gapsBetween {start : Nat} (h : c.Reads ls d)
    (hc : (Cursor.start s.chars).Reaches c)
    (hstart : start ≤ c.offset ∧
      IsGap (s.slice start c.offset) (dropBytes c.offset s.chars)) :
    ∀ range ∈ gapsBetween start d.offset (s.tokensAlong c ls), range.1 ≤ range.2 ∧
      IsGap (s.slice range.1 range.2) (dropBytes range.2 s.chars) := by
  induction h generalizing start with
  | nil c => exact List.forall_mem_singleton.2 hstart
  | @cons c d l ls hl hrest ih =>
      refine List.forall_mem_cons.2 ⟨hstart, ?_⟩
      have hstop : (s.token c.offset (.ofLexeme l) l.text).stop =
          (c.advance l.text.length).offset := by
        obtain ⟨-, r, hr⟩ := Lexeme.spells_of_first? hl
        rw [Cursor.advance_length hr.symm, Token.stop]
        simp [token]
      rw [hstop]
      have hadvance := hc.trans (Cursor.reaches_advance c l.text.length)
      exact ih (hc.trans (Cursor.Reads.one hl).reaches) (isGap_skip hadvance)

/-- The tokens read on the way to a place divide the text in front of it. -/
theorem dividesInto_of_reads (h : s.firstPlace.Reads ls d) :
    s.DividesInto (s.tokensAlong s.firstPlace ls) d.offset := by
  have hstart : (Cursor.start s.chars).Reaches (Cursor.start s.chars) := .refl _
  have hfirst : (Cursor.start s.chars).Reaches s.firstPlace := Cursor.reaches_skip _
  constructor
  case increasing => exact increasing_tokensAlong h
  case tokens => exact fun t ht => hasLongest_of_mem_tokensAlong h hfirst ht
  case gaps => exact isGap_of_mem_gapsBetween h hfirst (isGap_skip hstart)

/-! ## Tokenizing -/

/-- The tokens of a text are one that marks its end and those into which the text is
divided; each of these is the longest token where it stands, and between them are only
blanks and comments.  Where tokenizing fails the text in front of that place is divided
in the same way.  The place lies between two characters and before the end of the text,
neither a blank nor a comment begins there, and of what follows no beginning is a
token. -/
theorem tokenize_lossless (s : Source) :
    (∀ ts, s.tokenize = .ok ts → ∃ front,
      ts = front ++ [s.token s.size .eof []] ∧ s.DividesInto front s.size) ∧
    (∀ f, s.tokenize = .error f → f.offset < s.size ∧ isBoundary s.chars f.offset = true ∧
      (∃ front, s.DividesInto front f.offset) ∧
      (∀ c ∈ (dropBytes f.offset s.chars).head?, isBlank c = false) ∧
      ¬ ['/', '/'] <+: dropBytes f.offset s.chars ∧
      ∀ (kind : TokenKind) (w : List Char), kind.Spells w →
        ¬ w <+: dropBytes f.offset s.chars) := by
  have hfirst : (Cursor.start s.chars).Reaches s.firstPlace := Cursor.reaches_skip _
  constructor
  · intro ts hts
    obtain ⟨d, hreads, hend⟩ := reads_of_tokenize_ok hts
    rw [tokenize_eq] at hts
    have hsize : d.offset = s.size := by
      rw [← offset_add_byteLength_rest (hfirst.trans hreads.reaches), hend]
      rfl
    refine ⟨_, hsize ▸ tokensFrom_eq_tokensAlong hts hreads hend, ?_⟩
    exact hsize ▸ dividesInto_of_reads hreads
  · intro f hf
    obtain ⟨ls, d, hreads, hne, hnone, hoffset⟩ := reads_of_tokenize_error hf
    have hd : (Cursor.start s.chars).Reaches d := hfirst.trans hreads.reaches
    have hrest : dropBytes f.offset s.chars = d.rest := hoffset ▸ Cursor.dropBytes_offset hd
    have hrested : d.Rested := hreads.rested s.rested_firstPlace
    obtain ⟨hblank, hslashes⟩ := hrested.no_trivia
    rw [hrest, ← hoffset]
    refine ⟨?_, isBoundary_offset hd, ⟨_, dividesInto_of_reads hreads⟩, hblank, hslashes,
      Lexeme.first?_eq_none_iff_spells.1 hnone⟩
    have hsize := offset_add_byteLength_rest hd
    have hpos := byteLength_pos hne
    omega

end Source

end DecafFrontEnd
