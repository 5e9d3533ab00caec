/-
  DecafFrontEnd/Text/Utf8.lean --- byte offsets into a text.

  A text is a list of characters, and every offset that the front end stores or
  prints counts the bytes of its UTF-8 form.  This file holds the three
  operations that connect the two readings: the byte length of a text, the part
  of a text before a byte offset and the part from it on.  A cut that would fall
  inside a character is moved back to the start of that character, so the two
  parts always make up the whole (`takeBytes_append_dropBytes`).
-/
set_option autoImplicit false

namespace DecafFrontEnd

/-! ## Lengths -/

/-- Number of bytes of a text in UTF-8. -/
def byteLength : List Char → Nat
  | [] => 0
  | c :: cs => c.utf8Size + byteLength cs

@[simp] theorem byteLength_nil : byteLength [] = 0 := rfl

@[simp] theorem byteLength_cons (c : Char) (cs : List Char) :
    byteLength (c :: cs) = c.utf8Size + byteLength cs := rfl

@[simp] theorem byteLength_append (a b : List Char) :
    byteLength (a ++ b) = byteLength a + byteLength b := by
  induction a with
  | nil => simp
  | cons c a ih => simp [ih, Nat.add_assoc]

/-! ## Cuts -/

/-- The longest beginning of a text that takes at most `n` bytes. -/
def takeBytes : Nat → List Char → List Char
  | _, [] => []
  | n, c :: cs => if c.utf8Size ≤ n then c :: takeBytes (n - c.utf8Size) cs else []

/-- What `takeBytes` leaves. -/
def dropBytes : Nat → List Char → List Char
  | _, [] => []
  | n, c :: cs => if c.utf8Size ≤ n then dropBytes (n - c.utf8Size) cs else c :: cs

/-- A cut loses nothing. -/
theorem takeBytes_append_dropBytes (n : Nat) (cs : List Char) :
    takeBytes n cs ++ dropBytes n cs = cs := by
  induction cs generalizing n with
  | nil => rfl
  | cons c cs ih =>
      simp only [takeBytes, dropBytes]
      split
      · simp [ih]
      · rfl

/-- The part before a cut takes no more bytes than asked for. -/
theorem byteLength_takeBytes_le (n : Nat) (cs : List Char) :
    byteLength (takeBytes n cs) ≤ n := by
  induction cs generalizing n with
  | nil => simp [takeBytes]
  | cons c cs ih =>
      simp only [takeBytes]
      split
      · have := ih (n - c.utf8Size)
        simp only [byteLength_cons]
        omega
      · simp

/-- A cut after a whole part of a text gives back that part. -/
theorem takeBytes_byteLength_append (a b : List Char) :
    takeBytes (byteLength a) (a ++ b) = a := by
  induction a with
  | nil =>
      cases b with
      | nil => rfl
      | cons c b =>
          have := c.utf8Size_pos
          simp only [byteLength_nil, List.nil_append, takeBytes]
          rw [if_neg (by omega)]
  | cons c a ih =>
      simp only [byteLength_cons, List.cons_append, takeBytes]
      rw [if_pos (by omega), Nat.add_sub_cancel_left, ih]

/-- The greatest character boundary of `cs` that is not above `n`; the end of
the text when `n` lies past it. -/
def floorBoundary (cs : List Char) (n : Nat) : Nat := byteLength (takeBytes n cs)

/-- Whether a cut at byte `n` falls between two characters or at an end. -/
def isBoundary (cs : List Char) (n : Nat) : Bool := floorBoundary cs n == n

end DecafFrontEnd
