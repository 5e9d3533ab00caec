/-
  DecafFrontEnd/Proofs/Text/Lines.lean --- lines and columns of one text behind another.

  `Source.followedBy` puts a text into a line of its own behind another one.  The offsets
  of the first text keep their positions (`Source.positionAt_followedBy`).  Those of the
  second one get further on by the bytes and the lines of the first, and their columns
  stay (`Source.positionAt_followedBy_add`).
-/
import Mathlib.Data.List.TakeWhile
import DecafFrontEnd.Text.Position

set_option autoImplicit false

namespace DecafFrontEnd

/-! ## Cuts of two texts -/

variable {a b : List Char} {k m n : Nat}

theorem takeBytes_append_of_le (h : n ≤ byteLength a) (b : List Char) :
    takeBytes n (a ++ b) = takeBytes n a := by
  induction a generalizing n with
  | nil =>
      obtain rfl : n = 0 := Nat.le_zero.1 h
      exact takeBytes_byteLength_append [] b
  | cons c a ih =>
      rw [byteLength_cons] at h
      simp only [List.cons_append, takeBytes]
      rw [ih (by omega)]

theorem takeBytes_append_add (a b : List Char) (n : Nat) :
    takeBytes (byteLength a + n) (a ++ b) = a ++ takeBytes n b := by
  induction a with
  | nil => rw [byteLength_nil, Nat.zero_add, List.nil_append, List.nil_append]
  | cons c a ih =>
      rw [byteLength_cons, List.cons_append, takeBytes, if_pos (by omega), Nat.add_assoc,
        Nat.add_sub_cancel_left, ih, List.cons_append]

theorem dropBytes_append_of_le (h : n ≤ byteLength a) (b : List Char) :
    dropBytes n (a ++ b) = dropBytes n a ++ b := by
  have happend := takeBytes_append_dropBytes n (a ++ b)
  rw [takeBytes_append_of_le h] at happend
  refine List.append_cancel_left (happend.trans ?_)
  rw [← List.append_assoc, takeBytes_append_dropBytes]

theorem dropBytes_append_add (a b : List Char) (n : Nat) :
    dropBytes (byteLength a + n) (a ++ b) = dropBytes n b := by
  have happend := takeBytes_append_dropBytes (byteLength a + n) (a ++ b)
  rw [takeBytes_append_add, List.append_assoc] at happend
  refine List.append_cancel_left ((List.append_cancel_left happend).trans ?_)
  rw [takeBytes_append_dropBytes]

theorem le_byteLength_dropBytes (n : Nat) (cs : List Char) :
    byteLength cs - n ≤ byteLength (dropBytes n cs) := by
  have happend := congrArg byteLength (takeBytes_append_dropBytes n cs)
  have htake := byteLength_takeBytes_le n cs
  rw [byteLength_append] at happend
  omega

theorem floorBoundary_le (cs : List Char) (n : Nat) : floorBoundary cs n ≤ n :=
  byteLength_takeBytes_le n cs

theorem floorBoundary_append_of_le (h : n ≤ byteLength a) (b : List Char) :
    floorBoundary (a ++ b) n = floorBoundary a n := by
  rw [floorBoundary, takeBytes_append_of_le h, floorBoundary]

theorem byteLength_line (a : List Char) : byteLength (a ++ ['\n']) = byteLength a + 1 := by
  rw [byteLength_append]
  rfl

theorem floorBoundary_line_add (a b : List Char) (n : Nat) :
    floorBoundary (a ++ '\n' :: b) (byteLength a + 1 + n) =
      byteLength a + 1 + floorBoundary b n := by
  rw [floorBoundary, List.append_cons, ← byteLength_line, takeBytes_append_add, byteLength_append,
    floorBoundary]

/-! ## Line starts of two texts -/

namespace LineIndex

theorem startsAfter_append (k : Nat) (a b : List Char) :
    startsAfter k (a ++ b) = startsAfter k a ++ startsAfter (k + byteLength a) b := by
  induction a generalizing k with
  | nil => rfl
  | cons c a ih =>
      simp only [List.cons_append, startsAfter, ih, byteLength_cons, ← Nat.add_assoc]
      split
      · rw [List.cons_append]
      · rfl

theorem startsAfter_add (k n : Nat) (cs : List Char) :
    startsAfter (k + n) cs = (startsAfter n cs).map (k + ·) := by
  induction cs generalizing n with
  | nil => rfl
  | cons c cs ih =>
      simp only [startsAfter, Nat.add_assoc, ih]
      split <;> rfl

theorem length_startsAfter (k : Nat) (cs : List Char) :
    (startsAfter k cs).length = cs.count '\n' := by
  induction cs generalizing k with
  | nil => rfl
  | cons c cs ih =>
      simp only [startsAfter, List.count_cons, beq_iff_eq]
      split
      · rw [List.length_cons, ih]
      · rw [ih, Nat.add_zero]

theorem le_of_mem_startsAfter {x : Nat} {cs : List Char} (h : x ∈ startsAfter k cs) :
    x ≤ k + byteLength cs := by
  induction cs generalizing k with
  | nil => simp [startsAfter] at h
  | cons c cs ih =>
      simp only [startsAfter] at h
      rw [byteLength_cons, ← Nat.add_assoc]
      split at h
      · rcases List.mem_cons.1 h with rfl | h
        · exact Nat.le_add_right _ _
        · exact ih h
      · exact ih h

theorem le_of_mem_starts {x : Nat} {cs : List Char} (h : x ∈ (ofText cs).starts) :
    x ≤ byteLength cs := by
  rcases List.mem_cons.1 h with rfl | h
  · exact Nat.zero_le _
  · simpa using le_of_mem_startsAfter h

/-- The lines of two texts are those of the first and, further on, those of the second. -/
theorem starts_followedBy (a b : List Char) :
    (ofText (a ++ '\n' :: b)).starts =
      (ofText a).starts ++ (ofText b).starts.map (byteLength a + 1 + ·) := by
  have hline : '\n'.utf8Size = 1 := by decide
  simp only [ofText, startsAfter_append, startsAfter, hline, if_pos, List.map_cons,
    List.cons_append, Nat.zero_add, Nat.add_zero, ← startsAfter_add]

theorem length_starts (cs : List Char) : (ofText cs).starts.length = cs.count '\n' + 1 := by
  rw [ofText, List.length_cons, length_startsAfter]

theorem lineOf_pos (cs : List Char) (n : Nat) : 0 < (ofText cs).lineOf n := by
  simp [lineOf, ofText]

theorem lineOf_le (cs : List Char) (n : Nat) :
    (ofText cs).lineOf n ≤ (ofText cs).starts.length :=
  (List.takeWhile_prefix _).length_le

/-- The start of the line of an offset is one of the line starts. -/
theorem getElem?_lineOf (cs : List Char) (n : Nat) :
    (ofText cs).starts[(ofText cs).lineOf n - 1]? =
      some ((ofText cs).startOf ((ofText cs).lineOf n)) := by
  have hpos := lineOf_pos cs n
  have hle := lineOf_le cs n
  rw [startOf, List.getElem?_eq_getElem (by omega), Option.getD_some]

theorem lineColumn_followedBy (h : n ≤ byteLength a) (b : List Char) :
    (ofText (a ++ '\n' :: b)).lineColumn (a ++ '\n' :: b) n = (ofText a).lineColumn a n := by
  have hle := Nat.le_trans (floorBoundary_le a n) h
  rw [lineColumn, lineColumn, floorBoundary_append_of_le h]
  generalize floorBoundary a n = n at hle
  have hline : (ofText (a ++ '\n' :: b)).lineOf n = (ofText a).lineOf n := by
    have hnone : ((ofText b).starts.map (byteLength a + 1 + ·)).takeWhile (· ≤ n) = [] := by
      simp only [ofText, List.map_cons, Nat.add_zero]
      rw [List.takeWhile_cons_of_neg (by simp; omega)]
    rw [lineOf, starts_followedBy, List.takeWhile_append, hnone, lineOf]
    split
    · next hall => rw [List.append_nil, (List.takeWhile_prefix _).eq_of_length hall]
    · rfl
  have hpos := lineOf_pos a n
  have hlast := lineOf_le a n
  have hstart : (ofText (a ++ '\n' :: b)).startOf ((ofText a).lineOf n) =
      (ofText a).startOf ((ofText a).lineOf n) := by
    rw [startOf, starts_followedBy, List.getElem?_append_left (by omega), startOf]
  have hin := le_of_mem_starts (List.mem_of_getElem? (getElem?_lineOf a n))
  have hroom := le_byteLength_dropBytes ((ofText a).startOf ((ofText a).lineOf n)) a
  simp only [hline, hstart]
  rw [dropBytes_append_of_le hin, takeBytes_append_of_le (by omega)]

theorem lineColumn_followedBy_add (a b : List Char) (n : Nat) :
    (ofText (a ++ '\n' :: b)).lineColumn (a ++ '\n' :: b) (byteLength a + 1 + n) =
      (a.count '\n' + 1 + ((ofText b).lineColumn b n).1, ((ofText b).lineColumn b n).2) := by
  rw [lineColumn, lineColumn, floorBoundary_line_add]
  generalize floorBoundary b n = n
  have hall : (ofText a).starts.takeWhile (· ≤ byteLength a + 1 + n) = (ofText a).starts := by
    rw [List.takeWhile_eq_self_iff]
    intro x hx
    have hle := le_of_mem_starts hx
    rw [decide_eq_true_eq]
    omega
  have hline : (ofText (a ++ '\n' :: b)).lineOf (byteLength a + 1 + n) =
      a.count '\n' + 1 + (ofText b).lineOf n := by
    rw [lineOf, starts_followedBy, List.takeWhile_append, hall, if_pos rfl, List.length_append,
      length_starts, List.takeWhile_map, List.length_map, lineOf]
    congr 2
    exact congrArg (List.takeWhile · _) (funext fun x => by simp)
  have hpos := lineOf_pos b n
  have hstart : (ofText (a ++ '\n' :: b)).startOf (a.count '\n' + 1 + (ofText b).lineOf n) =
      byteLength a + 1 + (ofText b).startOf ((ofText b).lineOf n) := by
    have hindex : a.count '\n' + 1 + (ofText b).lineOf n - 1 - (a.count '\n' + 1) =
        (ofText b).lineOf n - 1 := by omega
    rw [startOf, starts_followedBy, List.getElem?_append_right (by rw [length_starts]; omega),
      length_starts, hindex, List.getElem?_map, getElem?_lineOf, Option.map_some,
      Option.getD_some]
  simp only [hline, hstart, Nat.add_sub_add_left]
  rw [List.append_cons, ← byteLength_line, dropBytes_append_add]

end LineIndex

/-! ## Positions in two texts -/

/-- A position of a text where the text stands in a line of its own behind `a`. -/
def Position.behind (a : List Char) (p : Position) : Position :=
  { p with line := p.line + (1 + a.count '\n'), offset := p.offset + (byteLength a + 1) }

/-- A range of bytes of a text where the text stands in a line of its own behind `a`. -/
def Span.behind (a : List Char) (span : Span) : Span :=
  { span with offset := span.offset + (byteLength a + 1) }

namespace Source

/-- A text and behind it, in a line of its own, another one. -/
def followedBy (s : Source) (b : List Char) : Source :=
  { name := s.name, chars := s.chars ++ '\n' :: b,
    lines := LineIndex.ofText (s.chars ++ '\n' :: b) }

@[simp] theorem chars_followedBy (s : Source) (b : List Char) :
    (s.followedBy b).chars = s.chars ++ '\n' :: b := rfl

@[simp] theorem name_followedBy (s : Source) (b : List Char) :
    (s.followedBy b).name = s.name := rfl

theorem ofText_concatenation (a b : String) (name : Option String) :
    ofText (a ++ "\n" ++ b) name = (ofText a name).followedBy (ofText b name).chars := by
  simp [ofText, followedBy]

theorem positionAt_followedBy {s : Source} (h : n ≤ s.size) (b : List Char) :
    (s.followedBy b).positionAt n = s.positionAt n := by
  have hle := Nat.le_trans (floorBoundary_le s.chars n) h
  simp only [positionAt, Position.locate, followedBy, floorBoundary_append_of_le h, s.lines_eq,
    LineIndex.lineColumn_followedBy hle]

theorem positionAt_followedBy_add (s t : Source) (hname : t.name = s.name) (n : Nat) :
    (s.followedBy t.chars).positionAt (n + (s.size + 1)) =
      (t.positionAt n).behind s.chars := by
  rw [Nat.add_comm, size]
  simp only [positionAt, Position.locate, followedBy, floorBoundary_line_add, t.lines_eq,
    LineIndex.lineColumn_followedBy_add, Position.behind, hname, Position.mk.injEq, true_and]
  omega

end Source

end DecafFrontEnd
