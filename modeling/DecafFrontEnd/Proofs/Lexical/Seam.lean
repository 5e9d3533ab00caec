/-
  DecafFrontEnd/Proofs/Lexical/Seam.lean --- one text behind another.

  A line feed between two texts keeps them apart: no lexeme contains one, and it ends a
  comment.  So the lexemes of the first text are read with the second one behind it as
  they are without (`Cursor.Reads.before`), and where the first text ends the second one
  begins.  `Cursor.before` takes a place of the first text to that of the whole, and
  `Cursor.shift` a place of the second.
-/
import DecafFrontEnd.Proofs.Lexical.Excerpt
import DecafFrontEnd.Proofs.Text.Lines

set_option autoImplicit false

namespace DecafFrontEnd

theorem isSeparator_line {b : List Char} :
    ∀ x, ('\n' :: b).head? = some x → isSeparator x = true := by
  rintro x ⟨⟩
  decide

namespace Cursor

variable {c d : Cursor} {l : Lexeme} {ls : List Lexeme} {text : List Char}

/-! ## In front of a line feed -/

/-- The place in a text that has a line feed and then `b` behind it. -/
def before (c : Cursor) (b : List Char) : Cursor :=
  (⟨c.offset, c.rest ++ '\n' :: b⟩ : Cursor).skip

theorem before_skip (c : Cursor) (b : List Char) : c.skip.before b = c.before b := by
  have hrest : c.rest ++ '\n' :: b = leadingTrivia c.rest ++ (skipTrivia c.rest ++ '\n' :: b) := by
    rw [← List.append_assoc, leadingTrivia_append_skipTrivia]
  have htrivia : leadingTrivia (c.rest ++ '\n' :: b) =
      leadingTrivia c.rest ++ leadingTrivia (skipTrivia c.rest ++ '\n' :: b) := by
    have hfirst := leadingTrivia_skipTrivia c.rest
    have hsecond := leadingTrivia_append_skipTrivia (skipTrivia c.rest)
    have happend := leadingTrivia_append_skipTrivia c.rest
    rw [hfirst, List.nil_append] at hsecond
    simp only [leadingTrivia, splitTrivia, skipTrivia, splitTriviaFrom_line] at *
    rw [hsecond]
    split
    · next hnil =>
        rw [hnil, List.append_nil] at happend
        rw [happend, hnil, List.nil_append]
    · rw [hfirst, List.append_nil]
  have hskip := skip_advance (c := ⟨c.offset, c.rest ++ '\n' :: b⟩) hrest htrivia
  rwa [advance_length (c := ⟨c.offset, c.rest ++ '\n' :: b⟩) hrest] at hskip

/-- In front of something no trivia is skipped. -/
theorem before_of_ne_nil (hc : c.Rested) (hne : c.rest ≠ []) (b : List Char) :
    c.before b = ⟨c.offset, c.rest ++ '\n' :: b⟩ := by
  refine Rested.skip_eq ?_
  have hskip : skipTrivia c.rest = c.rest := congrArg rest hc.skip_eq
  have hsplit := splitTrivia_append_of_ne_nil (a := c.rest) (b := '\n' :: b)
    (by rwa [hskip]) (by simp)
  rw [Rested, leadingTrivia, hsplit]
  exact hc

/-- Where a text ends the one behind it begins. -/
theorem before_of_nil (h : c.rest = []) (b : List Char) :
    c.before b = (⟨c.offset + 1, b⟩ : Cursor).skip := by
  obtain ⟨offset, rest⟩ := c
  obtain rfl : rest = [] := h
  have htrivia : leadingTrivia ('\n' :: b) = '\n' :: leadingTrivia b := by
    simp [leadingTrivia, splitTrivia, splitTriviaFrom, isBlank]
  exact (skip_advance (c := ⟨offset, '\n' :: b⟩) (t := ['\n']) rfl htrivia).symm

theorem first?_before (hc : c.Rested) (h : Lexeme.first? c.rest = some l) (b : List Char) :
    c.before b = ⟨c.offset, c.rest ++ '\n' :: b⟩ ∧
      Lexeme.first? (c.before b).rest = some l := by
  have hne : c.rest ≠ [] := by
    intro hnil
    have hnone : Lexeme.first? [] = none := rfl
    rw [hnil, hnone] at h
    simp at h
  rw [before_of_ne_nil hc hne]
  exact ⟨rfl, Lexeme.first?_append h isSeparator_line⟩

theorem past_before (hc : c.Rested) (h : Lexeme.first? c.rest = some l) (b : List Char) :
    (c.before b).past l = (c.past l).before b := by
  have hrest := rest_eq_past h
  have hadvance := advance_length hrest
  rw [(first?_before hc h b).1, past, past, before_skip, hadvance, before]
  rw [advance_length (c := ⟨c.offset, c.rest ++ '\n' :: b⟩)]
  conv => lhs; rw [hrest]
  simp

theorem Reads.before (h : c.Reads ls d) (hc : c.Rested) (b : List Char) :
    (c.before b).Reads ls (d.before b) := by
  induction h with
  | nil c => exact .nil _
  | cons hl _ ih =>
      refine .cons (first?_before hc hl b).2 ?_
      rw [past_before hc hl]
      exact ih (rested_skip _)

theorem Holds.before (h : c.Holds text d) (hc : c.Rested) (b : List Char) :
    (c.before b).Holds text (d.before b) := by
  induction h with
  | last hl hd =>
      subst hd
      exact .last (first?_before hc hl b).2 (past_before hc hl b).symm
  | @cons c d l text hl hrest ih =>
      obtain ⟨hplace, hfirst⟩ := first?_before hc hl b
      have hrest' := ih (rested_skip _)
      rw [← past_before hc hl] at hrest'
      have hdrop : (c.before b).rest.drop l.text.length =
          c.rest.drop l.text.length ++ '\n' :: b := by
        rw [hplace]
        conv => lhs; rw [rest_eq_past hl]
        conv => rhs; rw [rest_eq_past hl]
        simp
      have hne : skipTrivia (c.rest.drop l.text.length) ≠ [] := by
        obtain ⟨r, hr⟩ := hrest.exists_rest
        have hskip : skipTrivia (c.rest.drop l.text.length) = text ++ r := hr
        simp [hskip, hrest.ne_nil]
      have htrivia : leadingTrivia ((c.before b).rest.drop l.text.length) =
          leadingTrivia (c.rest.drop l.text.length) := by
        rw [hdrop, leadingTrivia, splitTrivia_append_of_ne_nil hne (by simp)]
      rw [← htrivia]
      exact .cons hfirst hrest'

/-! ## Behind another text -/

/-- The place in a text that has `k` bytes in front of it. -/
def shift (k : Nat) (c : Cursor) : Cursor := ⟨c.offset + k, c.rest⟩

@[simp] theorem rest_shift (k : Nat) (c : Cursor) : (c.shift k).rest = c.rest := rfl

@[simp] theorem offset_shift (k : Nat) (c : Cursor) : (c.shift k).offset = c.offset + k := rfl

theorem advance_shift (k : Nat) (c : Cursor) (n : Nat) :
    (c.shift k).advance n = (c.advance n).shift k := by
  simp only [advance, shift, Cursor.mk.injEq, and_true]
  omega

theorem skip_shift (k : Nat) (c : Cursor) : (c.shift k).skip = c.skip.shift k := by
  simp only [skip, shift, Cursor.mk.injEq, and_true]
  omega

theorem past_shift (k : Nat) (c : Cursor) (l : Lexeme) :
    (c.shift k).past l = (c.past l).shift k := by
  rw [past, past, advance_shift, skip_shift]

/-- Where a text ends the place behind it is the first one of the other text. -/
theorem before_eq_shift {cs : List Char} (hc : (start cs).Reaches c) (h : c.rest = [])
    (b : List Char) : c.before b = (start b).skip.shift (byteLength cs + 1) := by
  obtain ⟨before, hchars, hoffset⟩ := hc
  obtain rfl : cs = before := by simpa [start, h] using hchars
  have hstart : (⟨c.offset + 1, b⟩ : Cursor) = (start b).shift (byteLength cs + 1) := by
    simp only [shift, start, hoffset, Cursor.mk.injEq, and_true]
    omega
  rw [before_of_nil h, hstart, skip_shift]

theorem Reads.shift (h : c.Reads ls d) (k : Nat) : (c.shift k).Reads ls (d.shift k) := by
  induction h with
  | nil c => exact .nil _
  | cons hl _ ih => exact .cons hl (by rwa [past_shift])

theorem Holds.shift (h : c.Holds text d) (k : Nat) : (c.shift k).Holds text (d.shift k) := by
  induction h with
  | last hl hd => exact .last hl (by rw [hd, past_shift])
  | cons hl _ ih => exact .cons hl (by rwa [past_shift])

end Cursor

/-! ## Two texts as one -/

namespace Source

theorem firstPlace_followedBy (s : Source) (b : List Char) :
    (s.followedBy b).firstPlace = s.firstPlace.before b :=
  (Cursor.before_skip (Cursor.start s.chars) b).symm

end Source

end DecafFrontEnd
