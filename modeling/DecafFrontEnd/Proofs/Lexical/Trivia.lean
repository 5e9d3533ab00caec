/-
  DecafFrontEnd/Proofs/Lexical/Trivia.lean --- places and the trivia before them.

  `Cursor.Reaches c d` says that the place `d` lies at or after `c` in one text.
  A place is `Rested` when no trivia starts there: the place after a skip is, and
  a skip does not move it.

  Trivia may be skipped one line at a time (`Cursor.skipBy_lineRest`): trivia that
  fills a line goes on in the next one, whatever it was made of, since a line feed
  ends a comment.
-/
import DecafFrontEnd.Proofs.Lexical.Line

set_option autoImplicit false

namespace DecafFrontEnd

/-! ## Places in one text -/

theorem byteLength_pos {text : List Char} (h : text ≠ []) : 0 < byteLength text := by
  cases text with
  | nil => exact absurd rfl h
  | cons c cs =>
      have hsize := c.utf8Size_pos
      rw [byteLength_cons]
      omega

theorem dropBytes_byteLength_append (a b : List Char) : dropBytes (byteLength a) (a ++ b) = b := by
  have happend := takeBytes_append_dropBytes (byteLength a) (a ++ b)
  rw [takeBytes_byteLength_append] at happend
  exact List.append_cancel_left happend

namespace Cursor

/-- A place that lies at or after another one in one text. -/
def Reaches (c d : Cursor) : Prop :=
  ∃ text, c.rest = text ++ d.rest ∧ d.offset = c.offset + byteLength text

theorem Reaches.refl (c : Cursor) : c.Reaches c := ⟨[], rfl, rfl⟩

theorem Reaches.trans {c d e : Cursor} (h : c.Reaches d) (h' : d.Reaches e) : c.Reaches e := by
  obtain ⟨text, hrest, hoffset⟩ := h
  obtain ⟨text', hrest', hoffset'⟩ := h'
  refine ⟨text ++ text', ?_, ?_⟩
  · rw [hrest, hrest', List.append_assoc]
  · rw [hoffset', hoffset, byteLength_append]
    omega

theorem Reaches.offset_le {c d : Cursor} (h : c.Reaches d) : c.offset ≤ d.offset := by
  obtain ⟨text, -, hoffset⟩ := h
  omega

theorem Reaches.length_le {c d : Cursor} (h : c.Reaches d) :
    d.rest.length ≤ c.rest.length := by
  obtain ⟨text, hrest, -⟩ := h
  rw [hrest, List.length_append]
  omega

theorem reaches_advance (c : Cursor) (n : Nat) : c.Reaches (c.advance n) :=
  ⟨c.rest.take n, (List.take_append_drop n c.rest).symm, rfl⟩

theorem advance_zero (c : Cursor) : c.advance 0 = c := by simp [advance]

theorem advance_advance (c : Cursor) (m n : Nat) :
    (c.advance m).advance n = c.advance (m + n) := by
  simp only [advance, List.take_add, byteLength_append, List.drop_drop]
  rw [Nat.add_assoc]

/-- A place of a text lies between two characters. -/
theorem Reaches.floorBoundary_offset {cs : List Char} {c : Cursor} (h : (start cs).Reaches c) :
    floorBoundary cs c.offset = c.offset := by
  obtain ⟨before, hchars, hoffset⟩ := h
  have hcs : cs = before ++ c.rest := hchars
  have hstart : c.offset = byteLength before := by rw [hoffset, start, Nat.zero_add]
  rw [hstart, floorBoundary, hcs, takeBytes_byteLength_append]

/-- A place of a text is found by its offset. -/
theorem dropBytes_offset {cs : List Char} {c : Cursor} (h : (start cs).Reaches c) :
    dropBytes c.offset cs = c.rest := by
  obtain ⟨before, hchars, hoffset⟩ := h
  have hcs : cs = before ++ c.rest := hchars
  have hbefore : c.offset = byteLength before := by simpa [start] using hoffset
  rw [hbefore, hcs, dropBytes_byteLength_append]

theorem offset_le_byteLength {cs : List Char} {c : Cursor} (h : (start cs).Reaches c) :
    c.offset ≤ byteLength cs := by
  obtain ⟨before, hchars, hoffset⟩ := h
  have hcs : cs = before ++ c.rest := hchars
  have hbefore : c.offset = byteLength before := by simpa [start] using hoffset
  rw [hcs, hbefore, byteLength_append]
  omega

theorem reaches_skip (c : Cursor) : c.Reaches c.skip :=
  ⟨leadingTrivia c.rest, (leadingTrivia_append_skipTrivia c.rest).symm, rfl⟩

/-- Moving over a text that the rest begins with. -/
theorem advance_length {c : Cursor} {text rest : List Char} (h : c.rest = text ++ rest) :
    c.advance text.length = ⟨c.offset + byteLength text, rest⟩ := by
  simp [advance, h]

theorem advance_leadingTrivia (c : Cursor) :
    c.advance (leadingTrivia c.rest).length = c.skip :=
  advance_length (leadingTrivia_append_skipTrivia c.rest).symm

/-! ## Places where no trivia starts -/

/-- No trivia starts at a place. -/
def Rested (c : Cursor) : Prop := leadingTrivia c.rest = []

end Cursor

theorem leadingTrivia_skipTrivia (cs : List Char) : leadingTrivia (skipTrivia cs) = [] := by
  have key : ∀ (inComment : Bool) (cs : List Char),
      (splitTriviaFrom false (splitTriviaFrom inComment cs).2).1 = [] := by
    intro inComment cs
    fun_induction splitTriviaFrom inComment cs with
    | case1 => rfl
    | case2 c cs t r heq ih => rw [heq] at ih; exact ih
    | case3 c cs hblank t r heq ih => rw [heq] at ih; exact ih
    | case4 c cs hblank hslash t r heq ih => rw [heq] at ih; exact ih
    | case5 c cs hblank hslash => simp [splitTriviaFrom, hblank, hslash]
  exact key false cs

namespace Cursor

theorem rested_skip (c : Cursor) : c.skip.Rested := leadingTrivia_skipTrivia c.rest

theorem Rested.skip_eq {c : Cursor} (h : c.Rested) : c.skip = c := by
  have hrest := leadingTrivia_append_skipTrivia c.rest
  rw [Rested] at h
  rw [h, List.nil_append] at hrest
  simp [skip, h, hrest]

@[simp] theorem skip_skip (c : Cursor) : c.skip.skip = c.skip := (rested_skip c).skip_eq

/-- Where trivia starts there is a blank or a slash. -/
theorem rested_of_head {c : Cursor} {x : Char} {cs : List Char} (h : c.rest = x :: cs)
    (hblank : isBlank x = false) (hslash : x ≠ '/') : c.Rested := by
  simp [Rested, leadingTrivia, splitTrivia, h, splitTriviaFrom, hblank, hslash]

end Cursor

/-! ## Trivia line by line -/

theorem isBlank_of_isLineBreak {c : Char} (h : isLineBreak c = true) : isBlank c = true := by
  simp only [isLineBreak, Bool.or_eq_true, decide_eq_true_eq] at h
  obtain rfl | rfl := h <;> decide

theorem splitTriviaFrom_line (inComment : Bool) (a b : List Char) :
    splitTriviaFrom inComment (a ++ '\n' :: b) =
      if (splitTriviaFrom inComment a).2 = [] then
        (a ++ '\n' :: leadingTrivia b, skipTrivia b)
      else ((splitTriviaFrom inComment a).1, (splitTriviaFrom inComment a).2 ++ '\n' :: b) := by
  fun_induction splitTriviaFrom inComment a with
  | case1 inComment =>
      cases inComment <;> simp [splitTriviaFrom, isBlank, isLineBreak, leadingTrivia, skipTrivia,
        splitTrivia]
  | case2 c cs t r heq ih =>
      rw [heq] at ih
      by_cases hr : r = [] <;> simp [splitTriviaFrom, ih, hr]
  | case3 c cs hblank t r heq ih =>
      rw [heq] at ih
      by_cases hr : r = [] <;> simp [splitTriviaFrom, hblank, ih, hr]
  | case4 c cs hblank hslash t r heq ih =>
      rw [heq] at ih
      have hslash' : (c = '/' && (cs ++ '\n' :: b).head? = some '/') = true := by
        cases cs <;> simp_all
      simp only [List.cons_append, splitTriviaFrom, hslash', ih]
      by_cases hr : r = [] <;> simp [hblank, hr]
  | case5 c cs hblank hslash =>
      have hslash' : (c = '/' && (cs ++ '\n' :: b).head? = some '/') = false := by
        cases cs <;> simp_all
      simp only [List.cons_append, splitTriviaFrom, hslash']
      simp [hblank]

/-- Trivia in one line is the trivia of the text, unless it fills the line and
goes on behind it. -/
theorem leadingTrivia_lineRest (cs : List Char) :
    leadingTrivia (lineRest cs) = leadingTrivia cs ∨
      ∃ r, cs = lineRest cs ++ r ∧ leadingTrivia (lineRest cs) = lineRest cs ∧
        leadingTrivia cs = lineRest cs ++ leadingTrivia r := by
  rcases lineRest_cases cs with h | ⟨a, b, hcs, hline⟩
  · exact Or.inl (by rw [h])
  · rw [hline, hcs]
    simp only [leadingTrivia, splitTrivia, splitTriviaFrom_line]
    split
    · exact Or.inr ⟨b, by simp, by simp [splitTriviaFrom], by simp⟩
    · exact Or.inl rfl

theorem lineRest_eq_nil {cs : List Char} (h : lineRest cs = []) : cs = [] := by
  cases cs with
  | nil => rfl
  | cons c cs =>
      unfold lineRest at h
      split at h <;> simp at h

namespace Cursor

/-- Trivia may be skipped in two parts. -/
theorem skip_advance {c : Cursor} {t r : List Char} (hrest : c.rest = t ++ r)
    (htrivia : leadingTrivia c.rest = t ++ leadingTrivia r) :
    (c.advance t.length).skip = c.skip := by
  rw [advance_length hrest]
  have hskip : t ++ leadingTrivia r ++ skipTrivia c.rest = t ++ r := by
    rw [← htrivia, leadingTrivia_append_skipTrivia, hrest]
  have hrest' : skipTrivia c.rest = skipTrivia r := by
    rw [List.append_assoc] at hskip
    have hr := List.append_cancel_left hskip
    exact List.append_cancel_left (hr.trans (leadingTrivia_append_skipTrivia r).symm)
  simp [skip, hrest', htrivia, Nat.add_assoc]

/-- Trivia skipped one line at a time is skipped as a whole. -/
theorem skipBy_lineRest (c : Cursor) : c.skipBy lineRest = c.skip := by
  fun_induction Cursor.skipBy lineRest c with
  | case1 c skipped hpos hlt =>
      rcases leadingTrivia_lineRest c.rest with h | ⟨r, -, h, -⟩
      · rw [← advance_leadingTrivia, ← h]
      · simp only [skipped, h] at hlt
        omega
  | case2 c skipped hpos hlt ih =>
      rw [ih]
      rcases leadingTrivia_lineRest c.rest with h | ⟨r, hrest, h, htrivia⟩
      · have heq : c.advance skipped = c.skip := by rw [← advance_leadingTrivia, ← h]
        rw [heq, skip_skip]
      · have heq : skipped = (lineRest c.rest).length := by simp only [skipped, h]
        rw [heq]
        exact skip_advance hrest htrivia
  | case3 c skipped hpos =>
      refine (Rested.skip_eq ?_).symm
      rw [Rested]
      by_cases hnil : c.rest = []
      · rw [hnil]
        rfl
      have hzero : leadingTrivia (lineRest c.rest) = [] := by
        rw [← List.length_eq_zero_iff]
        simp only [hnil, ne_eq, not_false_eq_true, and_true] at hpos
        omega
      rcases leadingTrivia_lineRest c.rest with h | ⟨r, hrest, h, htrivia⟩
      · rw [← h, hzero]
      · rw [hzero] at h
        exact absurd (lineRest_eq_nil h.symm) hnil

end Cursor

end DecafFrontEnd
