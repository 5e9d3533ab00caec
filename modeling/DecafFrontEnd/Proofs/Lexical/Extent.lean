/-
  DecafFrontEnd/Proofs/Lexical/Extent.lean --- the tokens within a range of a text.

  A range `Embraces` tokens when it starts where the first of them does and ends where the
  last of them does.  The tokens that start within a range from one place to another, or to
  any offset between the end of the text there and that other place, are those of the
  lexemes between the places (`Source.tokensWithin_eq`), and the text embraces them
  (`Source.embraces_of_holds`).
-/
import DecafFrontEnd.Proofs.Lexical.Lossless

set_option autoImplicit false

namespace DecafFrontEnd

/-- The tokens that start within a range. -/
def tokensWithin (span : Span) (ts : List Token) : List Token :=
  ts.filter fun t => span.offset ≤ t.offset ∧ t.offset < span.offset + span.length

@[simp] theorem tokensWithin_append (span : Span) (ts ts' : List Token) :
    tokensWithin span (ts ++ ts') = tokensWithin span ts ++ tokensWithin span ts' :=
  List.filter_append ts ts'

theorem tokensWithin_of_within {span : Span} {ts : List Token}
    (h : ∀ t ∈ ts, span.offset ≤ t.offset ∧ t.offset < span.offset + span.length) :
    tokensWithin span ts = ts := by
  rw [tokensWithin, List.filter_eq_self]
  simpa only [decide_eq_true_eq] using h

theorem tokensWithin_of_outside {span : Span} {ts : List Token}
    (h : ∀ t ∈ ts, t.offset < span.offset ∨ span.offset + span.length ≤ t.offset) :
    tokensWithin span ts = [] := by
  rw [tokensWithin, List.filter_eq_nil_iff]
  intro t ht
  have hout := h t ht
  simp only [decide_eq_true_eq]
  omega

/-- A range from the start of the first of some tokens to the end of the last. -/
structure Span.Embraces (span : Span) (ts : List Token) : Prop where
  first : ∃ t ∈ ts.head?, t.offset = span.offset
  last : ∃ t ∈ ts.getLast?, t.stop = span.offset + span.length

namespace Source

variable {s : Source} {c d : Cursor} {ls : List Lexeme} {ts : List Token} {text : List Char}

theorem stop_token (offset : Nat) (kind : TokenKind) (text : List Char) :
    (s.token offset kind text).stop = offset + byteLength text := by
  show offset + byteLength (String.ofList text).toList = _
  rw [String.toList_ofList]

/-! ## Tokens between two places -/

theorem offset_lt_of_mem_tokensAlong (h : c.Reads ls d) {t : Token}
    (ht : t ∈ s.tokensAlong c ls) : t.offset < d.offset := by
  induction h with
  | nil c => simp [tokensAlong] at ht
  | @cons c d l ls hl hrest ih =>
      obtain rfl | hlater := List.mem_cons.1 ht
      · have hpast : c.offset < (c.past l).offset := (Cursor.Reads.one hl).offset_lt (by simp)
        exact Nat.lt_of_lt_of_le hpast hrest.reaches.offset_le
      · exact ih hlater

/-- The tokens between two places start within the text that stands there. -/
theorem offset_lt_of_holds (h : c.Holds text d) (hreads : c.Reads ls d) {t : Token}
    (ht : t ∈ s.tokensAlong c ls) : t.offset < c.offset + byteLength text := by
  induction h generalizing ls with
  | @last c d l hl hd =>
      subst hd
      obtain rfl := hreads.unique (.one hl)
      have hpos := byteLength_pos (Cursor.Holds.last hl rfl).ne_nil
      obtain rfl := List.mem_singleton.1 ht
      exact Nat.lt_add_of_pos_right hpos
  | @cons c d l text hl hrest ih =>
      obtain ⟨ls', hreads'⟩ := hrest.exists_reads
      obtain rfl := hreads.unique (.cons hl hreads')
      have hpast := Cursor.offset_past hl
      rw [byteLength_append, byteLength_append]
      obtain rfl | hlater := List.mem_cons.1 ht
      · have hpos := byteLength_pos hrest.ne_nil
        show c.offset < _
        omega
      · have hlt := ih hreads' hlater
        omega

/-- The text between two places embraces the tokens there. -/
theorem embraces_of_holds (h : c.Holds text d) (hreads : c.Reads ls d) :
    (⟨c.offset, byteLength text⟩ : Span).Embraces (s.tokensAlong c ls) := by
  induction h generalizing ls with
  | @last c d l hl hd =>
      subst hd
      obtain rfl := hreads.unique (.one hl)
      exact ⟨⟨_, rfl, rfl⟩, _, rfl, stop_token _ _ _⟩
  | @cons c d l text hl hrest ih =>
      obtain ⟨ls', hreads'⟩ := hrest.exists_reads
      obtain rfl := hreads.unique (.cons hl hreads')
      obtain ⟨t, ht, hstop⟩ := (ih hreads').last
      refine ⟨⟨_, rfl, rfl⟩, t, ?_, ?_⟩
      · rw [tokensAlong, List.getLast?_cons, Option.mem_def.1 ht]
        rfl
      · have hpast := Cursor.offset_past hl
        dsimp only at hstop ⊢
        rw [hstop, byteLength_append, byteLength_append]
        omega

/-! ## Tokens of a text -/

/-- The tokens that start in a range from one place to another are those of the lexemes
between the places, also if the range ends anywhere behind the last lexeme. -/
theorem tokensWithin_eq {before : List Lexeme} {span : Span} (hts : s.tokenize = .ok ts)
    (hbefore : s.firstPlace.Reads before c) (hreads : c.Reads ls d) (h : c.Holds text d)
    (hstart : span.offset = c.offset)
    (hlow : c.offset + byteLength text ≤ span.offset + span.length)
    (hhigh : span.offset + span.length ≤ d.offset) :
    tokensWithin span ts = s.tokensAlong c ls := by
  obtain ⟨all, e, hall, hend, rfl⟩ := tokenize_eq_ok_iff.1 hts
  obtain ⟨behind, rfl, hbehind⟩ :=
    hall.before_end (by rw [hend]; rfl) (hbefore.append hreads)
  have hfront : tokensWithin span (s.tokensAlong s.firstPlace before) = [] := by
    refine tokensWithin_of_outside fun t ht => Or.inl ?_
    rw [hstart]
    exact offset_lt_of_mem_tokensAlong hbefore ht
  have hmiddle : tokensWithin span (s.tokensAlong c ls) = s.tokensAlong c ls := by
    refine tokensWithin_of_within fun t ht => ⟨?_, ?_⟩
    · rw [hstart]
      exact le_offset_of_mem_tokensAlong hreads ht
    · exact Nat.lt_of_lt_of_le (offset_lt_of_holds h hreads ht) hlow
  have hback : tokensWithin span (s.tokensAlong d behind) = [] :=
    tokensWithin_of_outside fun t ht =>
      Or.inr (Nat.le_trans hhigh (le_offset_of_mem_tokensAlong hbehind ht))
  have hstop : tokensWithin span [s.token e.offset .eof []] = [] :=
    tokensWithin_of_outside (List.forall_mem_singleton.2
      (Or.inr (Nat.le_trans hhigh hbehind.reaches.offset_le)))
  rw [tokensAlong_append (hbefore.append hreads), tokensAlong_append hbefore,
    tokensWithin_append, tokensWithin_append, tokensWithin_append, hfront, hmiddle, hback, hstop,
    List.append_nil, List.append_nil, List.nil_append]

end Source

end DecafFrontEnd
