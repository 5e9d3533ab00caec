/-
  DecafFrontEnd/Proofs/Text/Offset.lean --- where the offsets of a text are.

  The position of an offset is that of the greatest boundary between characters that is not
  behind it.  Its line is found among the line starts, its column by counting from the start
  of the line on.  Both can be told from the text in front of the boundary alone: there are as
  many lines before it as line feeds, and the characters behind the last line feed are the
  columns (`Source.isOf_positionAt`).  Boundaries are in the order of their lines and columns
  (`Source.precedes_of_lt`).
-/
import Mathlib.Data.List.DropRight
import Mathlib.Order.Bounds.Basic
import DecafFrontEnd.Proofs.Lexical.Trivia
import DecafFrontEnd.Proofs.Text.Lines

set_option autoImplicit false

namespace DecafFrontEnd

/-! ## Boundaries -/

/-- An offset in front of a character of a text or at its end. -/
def Source.IsBoundary (s : Source) (n : Nat) : Prop :=
  ∃ front back, s.chars = front ++ back ∧ byteLength front = n

theorem Source.isBoundary_of_prefix {s : Source} {start front back : List Char}
    (hstart : start <+: front) (h : s.chars = front ++ back) : s.IsBoundary (byteLength start) := by
  obtain ⟨line, rfl⟩ := hstart
  exact ⟨start, line ++ back, by rw [h, List.append_assoc], rfl⟩

theorem floorBoundary_byteLength (front back : List Char) :
    floorBoundary (front ++ back) (byteLength front) = byteLength front := by
  rw [floorBoundary, takeBytes_byteLength_append]

/-- No boundary lies between an offset and the one it is moved back to. -/
theorem Source.isGreatest_floorBoundary (s : Source) (n : Nat) :
    IsGreatest {b | s.IsBoundary b ∧ b ≤ min n s.size} (floorBoundary s.chars n) := by
  have hcut := takeBytes_append_dropBytes n s.chars
  constructor
  · have hsize : floorBoundary s.chars n ≤ s.size := by
      have hlength := congrArg byteLength hcut
      rw [byteLength_append] at hlength
      exact Nat.le.intro hlength
    exact ⟨⟨_, _, hcut.symm, rfl⟩, Nat.le_min.2 ⟨floorBoundary_le s.chars n, hsize⟩⟩
  · rintro b ⟨⟨front, back, hchars, rfl⟩, hle⟩
    obtain ⟨k, rfl⟩ := Nat.exists_eq_add_of_le (Nat.le_min.1 hle).1
    rw [floorBoundary, hchars, takeBytes_append_add, byteLength_append]
    exact Nat.le_add_right _ _

/-! ## Line starts -/

namespace LineIndex

variable {k n x : Nat}

theorem lt_of_mem_startsAfter {cs : List Char} (h : x ∈ startsAfter k cs) : k < x := by
  induction cs generalizing k with
  | nil => simp [startsAfter] at h
  | cons c cs ih =>
      have hsize := c.utf8Size_pos
      simp only [startsAfter] at h
      split at h
      · rcases List.mem_cons.1 h with rfl | h
        · omega
        · have hlt := ih h
          omega
      · have hlt := ih h
        omega

theorem pairwise_startsAfter (k : Nat) (cs : List Char) :
    (startsAfter k cs).Pairwise (· < ·) := by
  induction cs generalizing k with
  | nil => exact .nil
  | cons c cs ih =>
      simp only [startsAfter]
      split
      · exact List.pairwise_cons.2 ⟨fun x hx => lt_of_mem_startsAfter hx, ih _⟩
      · exact ih _

/-- The line starts are in order, so that the line of an offset can be searched by halves. -/
theorem pairwise_starts (cs : List Char) : (ofText cs).starts.Pairwise (· < ·) :=
  List.pairwise_cons.2 ⟨fun _ hx => lt_of_mem_startsAfter hx, pairwise_startsAfter 0 cs⟩

theorem starts_append (front back : List Char) :
    (ofText (front ++ back)).starts =
      (ofText front).starts ++ startsAfter (byteLength front) back := by
  simp [ofText, startsAfter_append]

/-- Of a text the lines that start up to the end of its front are those of the front. -/
theorem takeWhile_starts (front back : List Char) :
    (ofText (front ++ back)).starts.takeWhile (· ≤ byteLength front) =
      (ofText front).starts := by
  have hfront : (ofText front).starts.takeWhile (· ≤ byteLength front) = (ofText front).starts :=
    List.takeWhile_eq_self_iff.2 fun x hx => decide_eq_true (le_of_mem_starts hx)
  have hback : (startsAfter (byteLength front) back).takeWhile (· ≤ byteLength front) = [] := by
    cases hstarts : startsAfter (byteLength front) back with
    | nil => rfl
    | cons x xs =>
        have hlt : byteLength front < x := lt_of_mem_startsAfter (by rw [hstarts]; simp)
        exact List.takeWhile_cons_of_neg (by simpa using hlt)
  rw [starts_append, List.takeWhile_append, hfront, if_pos rfl, hback, List.append_nil]

theorem lineOf_front (front back : List Char) :
    (ofText (front ++ back)).lineOf (byteLength front) = 1 + front.count '\n' := by
  rw [lineOf, takeWhile_starts, length_starts, Nat.add_comm]

/-- The last line of a text starts behind its last line feed. -/
theorem getLast?_starts (cs : List Char) :
    (ofText cs).starts.getLast? = some (byteLength (cs.rdropWhile (· ≠ '\n'))) := by
  induction cs using List.reverseRecOn with
  | nil => rfl
  | append_singleton cs c ih =>
      by_cases hc : c = '\n'
      · subst hc
        have hline : '\n'.utf8Size = 1 := by decide
        simp [starts_append, startsAfter, List.rdropWhile_concat_neg, hline]
      · rw [List.rdropWhile_concat_pos _ _ _ (by simpa using hc), ← ih]
        simp [starts_append, startsAfter, hc]

/-- The line of an offset starts behind the last line feed before it. -/
theorem getElem?_starts (front back : List Char) :
    (ofText (front ++ back)).starts[front.count '\n']? =
      some (byteLength (front.rdropWhile (· ≠ '\n'))) := by
  have hlength := length_starts front
  rw [starts_append, List.getElem?_append_left (by omega), ← getLast?_starts,
    List.getLast?_eq_getElem?, hlength, Nat.add_sub_cancel]

/-- Which starts are not behind an offset is decided by the number of its line. -/
theorem le_iff_lt_lineOf (cs : List Char) {i start : Nat}
    (h : (ofText cs).starts[i]? = some start) (n : Nat) :
    start ≤ n ↔ i < (ofText cs).lineOf n := by
  have hsorted := pairwise_starts cs
  rw [lineOf]
  generalize (ofText cs).starts = starts at h hsorted
  induction starts generalizing i with
  | nil => simp at h
  | cons x starts ih =>
      obtain ⟨hx, hstarts⟩ := List.pairwise_cons.1 hsorted
      by_cases hxn : x ≤ n
      · rw [List.takeWhile_cons_of_pos (by simpa using hxn), List.length_cons]
        cases i with
        | zero =>
            obtain rfl : x = start := by simpa using h
            simp [hxn]
        | succ i =>
            rw [List.getElem?_cons_succ] at h
            rw [Nat.add_lt_add_iff_right]
            exact ih h hstarts
      · -- every later start is behind the offset, too
        rw [List.takeWhile_cons_of_neg (by simpa using hxn), List.length_nil]
        have hle : x ≤ start := by
          rcases List.mem_cons.1 (List.mem_of_getElem? h) with rfl | hmem
          · exact Nat.le_refl _
          · exact Nat.le_of_lt (hx start hmem)
        omega

end LineIndex

/-! ## Positions -/

/-- The text between two boundaries. -/
theorem Source.slice_eq {s : Source} {a b c : List Char} (h : s.chars = a ++ (b ++ c)) :
    s.slice (byteLength a) (byteLength (a ++ b)) = b := by
  rw [slice, h, dropBytes_byteLength_append, byteLength_append, Nat.add_sub_cancel_left,
    takeBytes_byteLength_append]

/-- A position is the one of an offset of a text. -/
structure Position.IsOf (s : Source) (n : Nat) (p : Position) : Prop where
  name : p.sourceName = s.name
  /-- the end of the text where the offset is behind it -/
  offset : IsGreatest {b | s.IsBoundary b ∧ b ≤ min n s.size} p.offset
  /-- lines and columns are counted in the text up to the position -/
  counted : ∃ front back, s.chars = front ++ back ∧ byteLength front = p.offset ∧
    p.line = 1 + front.count '\n' ∧ p.column = (front.rtakeWhile (· ≠ '\n')).length
  /-- the line has a start, and the cut from there to the position is one between boundaries -/
  cut : ∃ start, s.lines.starts[p.line - 1]? = some start ∧ s.IsBoundary start ∧
    start ≤ p.offset ∧ p.column = (s.slice start p.offset).length
  /-- the line is where the starts up to the offset end and those behind it begin -/
  searched : ∀ i start : Nat, s.lines.starts[i]? = some start → (start ≤ p.offset ↔ i < p.line)
  lineColumn : s.lines.lineColumn s.chars n = (p.line, p.column)

/-- A position comes before another one by its line or, in one line, by its column. -/
def Position.Precedes (p q : Position) : Prop :=
  p.line < q.line ∨ p.line = q.line ∧ p.column < q.column

namespace Source

variable {s : Source} {front back : List Char}

/-- The line that the end of a front of the text lies in, up to there. -/
theorem slice_lastLine (h : s.chars = front ++ back) :
    s.slice (byteLength (front.rdropWhile (· ≠ '\n'))) (byteLength front) =
      front.rtakeWhile (· ≠ '\n') := by
  have hfront := List.rdropWhile_append_rtakeWhile (p := (· ≠ '\n')) (l := front)
  have hchars : s.chars =
      front.rdropWhile (· ≠ '\n') ++ (front.rtakeWhile (· ≠ '\n') ++ back) := by
    rw [← List.append_assoc, hfront, h]
  have hslice := slice_eq hchars
  rwa [hfront] at hslice

/-- The position at the end of a front of the text. -/
theorem positionAt_byteLength (h : s.chars = front ++ back) :
    s.positionAt (byteLength front) = ⟨s.name, 1 + front.count '\n',
      (front.rtakeWhile (· ≠ '\n')).length, byteLength front⟩ := by
  have hstart : (LineIndex.ofText (front ++ back)).startOf (1 + front.count '\n') =
      byteLength (front.rdropWhile (· ≠ '\n')) := by
    rw [LineIndex.startOf, Nat.add_sub_cancel_left, LineIndex.getElem?_starts, Option.getD_some]
  have hslice := slice_lastLine h
  rw [slice, h] at hslice
  simp only [positionAt, Position.locate, LineIndex.lineColumn, s.lines_eq, h,
    floorBoundary_byteLength, LineIndex.lineOf_front, hstart, hslice]

theorem floorBoundary_floorBoundary (s : Source) (n : Nat) :
    floorBoundary s.chars (floorBoundary s.chars n) = floorBoundary s.chars n := by
  have hfloor := floorBoundary_byteLength (takeBytes n s.chars) (dropBytes n s.chars)
  rwa [takeBytes_append_dropBytes] at hfloor

/-- The position of an offset is that of the boundary it is moved back to. -/
theorem positionAt_floorBoundary (s : Source) (n : Nat) :
    s.positionAt (floorBoundary s.chars n) = s.positionAt n := by
  simp only [positionAt, Position.locate, s.floorBoundary_floorBoundary]

theorem lineColumn_eq (s : Source) (n : Nat) :
    s.lines.lineColumn s.chars n = ((s.positionAt n).line, (s.positionAt n).column) := by
  simp only [positionAt, Position.locate, LineIndex.lineColumn, s.floorBoundary_floorBoundary]

theorem isOf_positionAt (s : Source) (n : Nat) : (s.positionAt n).IsOf s n := by
  have hgreatest := s.isGreatest_floorBoundary n
  have hlineColumn := s.lineColumn_eq n
  rw [← s.positionAt_floorBoundary n] at hlineColumn ⊢
  obtain ⟨front, back, hchars, hfront⟩ := hgreatest.1.1
  have hposition := positionAt_byteLength hchars
  rw [← hfront] at hgreatest hlineColumn ⊢
  rw [hposition] at hlineColumn ⊢
  refine ⟨rfl, hgreatest, ⟨front, back, hchars, rfl, rfl, rfl⟩, ⟨_, ?_,
    isBoundary_of_prefix (List.rdropWhile_prefix _ front) hchars, ?_,
    congrArg List.length (slice_lastLine hchars).symm⟩, fun i start hstart => ?_, hlineColumn⟩
  · rw [Nat.add_sub_cancel_left, s.lines_eq, hchars, LineIndex.getElem?_starts]
  · conv => rhs; rw [← List.rdropWhile_append_rtakeWhile (p := (· ≠ '\n')) (l := front)]
    rw [byteLength_append]
    exact Nat.le_add_right _ _
  · rw [s.lines_eq, hchars] at hstart
    rw [← LineIndex.lineOf_front front back]
    exact LineIndex.le_iff_lt_lineOf _ hstart _

/-! ## The order of positions -/

/-- What stands between two fronts of a text brings the position at their ends on. -/
theorem precedes_positionAt_append {between : List Char}
    (h : s.chars = front ++ between ++ back) (hne : between ≠ []) :
    (s.positionAt (byteLength front)).Precedes
      (s.positionAt (byteLength (front ++ between))) := by
  have hfront : s.chars = front ++ (between ++ back) := by rw [h, List.append_assoc]
  rw [positionAt_byteLength hfront, positionAt_byteLength h]
  by_cases hfeed : '\n' ∈ between
  · have hpos := List.count_pos_iff.2 hfeed
    left
    simp only [List.count_append]
    omega
  · have hlength := List.length_pos_iff.2 hne
    have hall : ∀ c ∈ between.reverse, (decide (c ≠ '\n')) = true := by
      intro c hc
      rw [decide_eq_true_eq]
      rintro rfl
      exact hfeed (List.mem_reverse.1 hc)
    right
    simp only [List.count_append, List.count_eq_zero_of_not_mem hfeed, Nat.add_zero, true_and,
      List.rtakeWhile, List.reverse_append, List.takeWhile_append_of_pos hall,
      List.length_append, List.length_reverse]
    omega

theorem precedes_of_lt {b b' : Nat} (hb : s.IsBoundary b) (hb' : s.IsBoundary b') (h : b < b') :
    (s.positionAt b).Precedes (s.positionAt b') := by
  obtain ⟨front, back, hchars, rfl⟩ := hb
  obtain ⟨front', back', hchars', rfl⟩ := hb'
  have hfront : front <+: s.chars := ⟨back, hchars.symm⟩
  have hfront' : front' <+: s.chars := ⟨back', hchars'.symm⟩
  obtain ⟨between, rfl⟩ : front <+: front' := by
    rcases List.prefix_or_prefix_of_prefix hfront hfront' with hprefix | ⟨between, rfl⟩
    · exact hprefix
    · rw [byteLength_append] at h
      omega
  refine precedes_positionAt_append hchars' ?_
  rintro rfl
  rw [List.append_nil] at h
  exact Nat.lt_irrefl _ h

end Source

/-- No position comes before one in the same line and column. -/
theorem Position.not_precedes {p q : Position} (hline : p.line = q.line)
    (hcolumn : p.column = q.column) : ¬ p.Precedes q := by
  simp only [Precedes]
  omega

theorem Position.Precedes.asymm {p q : Position} (h : p.Precedes q) : ¬ q.Precedes p := by
  simp only [Precedes] at h ⊢
  omega

namespace Source

/-- The position of an offset is that of the greatest boundary that is not behind it: its line
and its column are counted in the text up to there, and the line is found among the line
starts, which are in order.  Boundaries are in the order of their lines and columns, and no
two of them have the same. -/
theorem positions_of_offsets (s : Source) :
    s.lines.starts.Pairwise (· < ·) ∧ (∀ n, (s.positionAt n).IsOf s n) ∧
      ∀ b b', s.IsBoundary b → s.IsBoundary b' →
        (b < b' ↔ (s.positionAt b).Precedes (s.positionAt b')) ∧
        ((s.positionAt b).line = (s.positionAt b').line →
          (s.positionAt b).column = (s.positionAt b').column → b = b') := by
  refine ⟨?_, s.isOf_positionAt, fun b b' hb hb' => ⟨⟨precedes_of_lt hb hb', fun h => ?_⟩,
    fun hline hcolumn => ?_⟩⟩
  · rw [s.lines_eq]
    exact LineIndex.pairwise_starts s.chars
  · rcases Nat.lt_trichotomy b b' with hlt | rfl | hlt
    · exact hlt
    · exact absurd h h.asymm
    · exact absurd h (precedes_of_lt hb' hb hlt).asymm
  · refine Nat.le_antisymm (Nat.not_lt.1 fun hlt => ?_) (Nat.not_lt.1 fun hlt => ?_)
    · exact Position.not_precedes hline.symm hcolumn.symm (precedes_of_lt hb' hb hlt)
    · exact Position.not_precedes hline hcolumn (precedes_of_lt hb hb' hlt)

/-- An offset within a character of four bytes, one behind the text, and the boundaries
before and behind a line feed. -/
theorem positions_of_offsets_clef :
    let s := ofText "é\n𝄞x" none
    s.positionAt 5 = ⟨none, 2, 0, 3⟩ ∧ (s.positionAt 5).IsOf s 5 ∧
    s.positionAt 99 = ⟨none, 2, 2, 8⟩ ∧ (s.positionAt 99).IsOf s 99 ∧
    s.IsBoundary 2 ∧ s.IsBoundary 3 ∧ (s.positionAt 2).Precedes (s.positionAt 3) ∧
    ((s.positionAt 2).line = (s.positionAt 3).line →
      (s.positionAt 2).column = (s.positionAt 3).column → 2 = 3) := by
  intro s
  obtain ⟨-, hposition, horder⟩ := s.positions_of_offsets
  have hbefore : s.IsBoundary 2 := ⟨['é'], ['\n', '𝄞', 'x'], rfl, rfl⟩
  have hbehind : s.IsBoundary 3 := ⟨['é', '\n'], ['𝄞', 'x'], rfl, rfl⟩
  obtain ⟨hlt, heq⟩ := horder 2 3 hbefore hbehind
  exact ⟨rfl, hposition 5, rfl, hposition 99, hbefore, hbehind, hlt.1 (by decide), heq⟩

end Source

end DecafFrontEnd
