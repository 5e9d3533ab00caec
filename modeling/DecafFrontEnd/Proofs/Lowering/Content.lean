/-
  DecafFrontEnd/Proofs/Lowering/Content.lean --- the text that is kept of a node.

  The text of a node may end in trivia, which is not kept.  What is kept is the text
  between the places of the node (`Source.slice_of_stands`).  Where one lexeme stands
  there it is the lexeme (`Source.slice_contentSpan`).
-/
import DecafFrontEnd.Lowering.Expression
import DecafFrontEnd.Proofs.Grammar.Span
import DecafFrontEnd.Proofs.Lexical.View

set_option autoImplicit false

namespace DecafFrontEnd

namespace Source

variable {s : Source} {c d : Cursor} {l : Lexeme}

/-- Where the text between two places ends before a limit, and the next place is not before
the limit, the last lexeme ends where the text does. -/
theorem contentEndFrom_of_holds {text : List Char} {limit : Nat} (h : c.Holds text d)
    (htext : c.offset + byteLength text ≤ limit) (hlimit : limit ≤ d.offset) (reached : Nat) :
    contentEndFrom lineRest limit reached c = c.offset + byteLength text := by
  have hpos := byteLength_pos h.ne_nil
  have hstep := suffices_lineRest.contentEndFrom_eq limit
  induction h generalizing reached with
  | @last c d l hl hd =>
      rw [hstep, if_pos (by omega), hl]
      dsimp only
      by_cases hstop : limit ≤ c.offset + byteLength l.text
      · rw [if_pos hstop]
        omega
      · rw [if_neg hstop, hstep, if_neg (by rw [← hd]; omega)]
  | @cons c d l text hl hrest ih =>
      have hpast := Cursor.offset_past hl
      have hmore := byteLength_pos hrest.ne_nil
      rw [byteLength_append, byteLength_append] at htext ⊢
      rw [hstep, if_pos (by omega), hl]
      dsimp only
      rw [if_neg (by omega), ih (by omega) hlimit _ hmore]
      omega

/-- The content between two places ends where the text between them does. -/
theorem contentEnd_of_holds {text : List Char} (hd : (Cursor.start s.chars).Reaches d)
    (hc : (Cursor.start s.chars).Reaches c) (h : c.Holds text d.skip)
    (hlength : c.offset + byteLength text ≤ d.offset) :
    s.contentEnd c.offset d.offset = c.offset + byteLength text := by
  have hle := (Cursor.reaches_skip d).offset_le
  have hsize : d.offset ≤ s.size := Cursor.offset_le_byteLength hd
  have hplace : (⟨c.offset, dropBytes c.offset s.chars⟩ : Cursor) = c := by
    rw [Cursor.dropBytes_offset hc]
  simp only [contentEnd, contentEndBy, if_pos hsize, hplace]
  exact contentEndFrom_of_holds h hlength hle _

/-- What is kept between two places is the text between them. -/
theorem slice_of_holds {text : List Char} (hd : (Cursor.start s.chars).Reaches d)
    (hc : (Cursor.start s.chars).Reaches c) (h : c.Holds text d.skip)
    (hlength : c.offset + byteLength text ≤ d.offset) :
    let content := s.contentSpan ⟨c.offset, d.offset - c.offset⟩
    s.slice content.offset (content.offset + content.length) = text := by
  obtain ⟨r, hr⟩ := h.exists_rest
  have hend := contentEnd_of_holds hd hc h hlength
  have hspan : (s.contentSpan ⟨c.offset, d.offset - c.offset⟩).length = byteLength text := by
    have hsum : c.offset + (d.offset - c.offset) = d.offset := by omega
    simp only [contentSpan, hsum, hend, Nat.add_sub_cancel_left]
  show s.slice c.offset (c.offset + _) = text
  rw [hspan, slice, Nat.add_sub_cancel_left, Cursor.dropBytes_offset hc, hr,
    takeBytes_byteLength_append]

/-- What is kept of the node of a phrase is the text between its places. -/
theorem slice_of_stands {p : Phrase} {start : Nat} {text : List Char} {children : List Tree}
    (h : (Tree.node (.phrase p) start text children).Stands c d) (hp : p ≠ .program)
    (hc : s.IsPlace c) :
    ∃ kept, c.Holds kept d ∧
      let content := s.contentSpan ⟨start, byteLength text⟩
      s.slice content.offset (content.offset + content.length) = kept := by
  obtain ⟨e, hcovers, rfl⟩ := h
  obtain ⟨kept, hkept, hlength⟩ := hcovers.exists_holds hp hc.rested
  refine ⟨kept, hkept, ?_⟩
  have hreach := hcovers.reaches
  have hslice := slice_of_holds (hc.reaches.trans hreach) hc.reaches hkept hlength
  generalize hts : [Tree.node (.phrase p) start text children] = ts at hcovers
  cases hcovers with
  | rule hbody =>
      simp only [Tree.rule, Rule.leave, Rule.isSilent, Bool.false_eq_true, if_false,
        List.cons.injEq, Tree.node.injEq, and_true, true_and] at hts
      obtain ⟨rfl, rfl, rfl⟩ := hts
      obtain ⟨text, htext, -, hoffset⟩ := hreach.takeBytes_eq
      rw [htext]
      rwa [hoffset, Nat.add_sub_cancel_left] at hslice

/-- What is kept of a node with one lexeme is the lexeme. -/
theorem slice_contentSpan {p : Phrase} {start : Nat} {text : List Char} {children : List Tree}
    (hplaced : (Tree.node (.phrase p) start text children).Placed s.chars)
    (hlexeme : ∀ ls, Derives p.body ls (Tree.skeletons children) → ls = [l])
    (hlength : byteLength l.text ≤ byteLength text) :
    let content := s.contentSpan ⟨start, byteLength text⟩
    s.slice content.offset (content.offset + content.length) = l.text := by
  cases hplaced with
  | @node _ _ _ _ c d hbounds _ _ _ =>
      obtain ⟨hreach, rfl, hrest, hstop, -, hderives⟩ := hbounds
      obtain ⟨ls, hreads, hls⟩ := hderives p rfl
      obtain rfl := hlexeme ls hls
      have hd : (Cursor.start s.chars).Reaches d := hreach.trans ⟨text, hrest, hstop⟩
      have hholds : c.Holds l.text d.skip := .last hreads.of_one.1 hreads.of_one.2
      have hslice := slice_of_holds hd hreach hholds (by omega)
      rwa [hstop, Nat.add_sub_cancel_left] at hslice

end Source

end DecafFrontEnd
