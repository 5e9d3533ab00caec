/-
  DecafFrontEnd/Proofs/Lexical/Front.lean --- the front of a text on its own.

  A text that is cut off at a place that was read up to has, on its own, the lexemes and
  the trivia that stand before the place (`Cursor.Reads.upTo`).  `Cursor.upTo` takes a
  place of the whole to that of the front.
-/
import DecafFrontEnd.Proofs.Lexical.Excerpt

set_option autoImplicit false

namespace DecafFrontEnd

/-- Trivia is the same however much of what follows is cut off. -/
theorem splitTriviaFrom_cut {inComment : Bool} {cs t z r : List Char}
    (h : splitTriviaFrom inComment cs = (t, z ++ r)) :
    splitTriviaFrom inComment (t ++ z) = (t, z) := by
  fun_induction splitTriviaFrom inComment cs generalizing t with
  | case1 inComment =>
      obtain ⟨rfl, hz⟩ := Prod.mk.inj h
      obtain ⟨rfl, -⟩ := List.append_eq_nil_iff.1 hz.symm
      cases inComment <;> rfl
  | case2 c cs t' r' heq ih =>
      obtain ⟨rfl, rfl⟩ := Prod.mk.inj h
      simp [splitTriviaFrom, ih heq]
  | case3 c cs hblank t' r' heq ih =>
      obtain ⟨rfl, rfl⟩ := Prod.mk.inj h
      simp [splitTriviaFrom, hblank, ih heq]
  | case4 c cs hblank hslash t' r' heq ih =>
      obtain ⟨rfl, rfl⟩ := Prod.mk.inj h
      have hslash' : (c = '/' && (t' ++ z).head? = some '/') = true := by
        simp only [Bool.and_eq_true, decide_eq_true_eq] at hslash ⊢
        obtain ⟨rfl, hhead⟩ := hslash
        obtain ⟨cs, rfl⟩ := List.head?_eq_some_iff.1 hhead
        obtain ⟨rfl, -⟩ := Prod.mk.inj heq
        exact ⟨rfl, rfl⟩
      rw [List.cons_append, splitTriviaFrom, if_neg hblank, if_pos hslash', ih heq]
  | case5 c cs hblank hslash =>
      obtain ⟨rfl, hz⟩ := Prod.mk.inj h
      cases z with
      | nil => rfl
      | cons x z =>
          obtain ⟨rfl, rfl⟩ := List.cons.inj hz
          have hslash' : (c = '/' && z.head? = some '/') = false := by
            cases z <;> simp_all
          simp [splitTriviaFrom, hblank, hslash']

namespace Cursor

variable {c d : Cursor} {l : Lexeme} {ls : List Lexeme} {z r : List Char}

/-- The place in the text that ends where `r` begins. -/
def upTo (r : List Char) (c : Cursor) : Cursor :=
  ⟨c.offset, c.rest.take (c.rest.length - r.length)⟩

theorem upTo_of_append (h : c.rest = z ++ r) : c.upTo r = ⟨c.offset, z⟩ := by
  simp [upTo, h]

theorem skip_upTo (h : c.skip.rest = z ++ r) : (c.upTo r).skip = c.skip.upTo r := by
  have hsplit : splitTrivia c.rest = (leadingTrivia c.rest, z ++ r) := by
    rw [← h]
    rfl
  have hrest : c.rest = (leadingTrivia c.rest ++ z) ++ r := by
    have happend := leadingTrivia_append_skipTrivia c.rest
    rw [List.append_assoc, ← h]
    exact happend.symm
  have hcut : splitTrivia (leadingTrivia c.rest ++ z) = (leadingTrivia c.rest, z) :=
    splitTriviaFrom_cut hsplit
  have hlead : leadingTrivia (leadingTrivia c.rest ++ z) = leadingTrivia c.rest := by
    rw [leadingTrivia, hcut]
  have hskip : skipTrivia (leadingTrivia c.rest ++ z) = z := by rw [skipTrivia, hcut]
  rw [upTo_of_append h, upTo_of_append hrest, skip, hlead, hskip]
  rfl

/-- The place behind the trivia at the front of a text that is cut off. -/
theorem skip_start_upTo {cs text : List Char} (hcs : cs = text ++ r)
    (h : (start cs).skip.rest = z ++ r) : (start text).skip = (start cs).skip.upTo r := by
  rw [← skip_upTo h, upTo_of_append hcs]
  rfl

theorem first?_upTo (hl : Lexeme.first? c.rest = some l) (hr : (c.past l).rest = z ++ r) :
    Lexeme.first? (c.upTo r).rest = some l ∧ (c.upTo r).past l = (c.past l).upTo r := by
  have hrest := rest_eq_past hl
  have happend : c.rest =
      (l.text ++ (leadingTrivia (c.rest.drop l.text.length) ++ z)) ++ r := by
    rw [List.append_assoc, List.append_assoc, ← hr]
    exact hrest
  have hdrop : (c.advance l.text.length).rest =
      (leadingTrivia (c.rest.drop l.text.length) ++ z) ++ r := by
    conv => lhs; rw [rest_advance, happend]
    rw [List.append_assoc, List.drop_left]
  have hadvance : (c.upTo r).advance l.text.length = (c.advance l.text.length).upTo r := by
    rw [upTo_of_append hdrop, upTo_of_append happend, advance_length rfl, advance_length hrest]
  constructor
  · rw [upTo_of_append happend]
    refine Lexeme.first?_of_append (b := r) ?_ (by simp)
    rw [← happend]
    exact hl
  · rw [past, past, hadvance]
    exact skip_upTo hr

/-- What is read up to a place is read when the text is cut off behind it. -/
theorem Reads.upTo (h : c.Reads ls d) (hr : d.rest = z ++ r) :
    (c.upTo r).Reads ls (d.upTo r) := by
  induction h with
  | nil c => exact .nil _
  | cons hl hrest ih =>
      obtain ⟨text, htext, -⟩ := hrest.reaches
      rw [hr, ← List.append_assoc] at htext
      obtain ⟨hfirst, hpast⟩ := first?_upTo hl htext
      refine .cons hfirst ?_
      rw [hpast]
      exact ih hr

end Cursor

end DecafFrontEnd
