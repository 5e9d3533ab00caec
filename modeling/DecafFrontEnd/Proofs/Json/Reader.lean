/-
  DecafFrontEnd/Proofs/Json/Reader.lean --- a JSON text says one value.

  The grammar leaves open which blanks belong to which mark, and where a number ends that
  goes on with another digit.  `Json.readValue` reads a text from left to right and takes
  all blanks behind everything it reads.  It finds every value that the grammar gives to
  the front of a text (`Json.Spells.read`), so two values of one text are the same
  (`Json.Says.functional`).
-/
import DecafFrontEnd.Proofs.Json.Grammar

set_option autoImplicit false

namespace DecafFrontEnd

namespace Json

/-! ## Reading -/

/-- A text without the blanks at its front. -/
def skipSpace (cs : List Char) : List Char := cs.dropWhile isBlank

/-- Reads one mark and the blanks behind it. -/
def readMark (mark : Char) : List Char → Option (List Char)
  | c :: cs => if c = mark then some (skipSpace cs) else none
  | [] => none

/-- Reads a character of a string. -/
def readChar : List Char → Option (Char × List Char)
  | '\\' :: 'u' :: w :: x :: y :: z :: rest =>
      match unit? w x y z with
      | none => none
      | some high =>
          if isHighUnit high then
            match rest with
            | '\\' :: 'u' :: w' :: x' :: y' :: z' :: rest =>
                (unit? w' x' y' z').map fun low =>
                  (Char.ofNat (0x10000 + (high - 0xd800) * 0x400 + (low - 0xdc00)), rest)
            | _ => none
          else some (Char.ofNat high, rest)
  | '\\' :: e :: rest => (letters.lookup e).map (·, rest)
  | c :: rest => some (c, rest)
  | [] => none

/-- Reads the characters of a string up to its closing quote. -/
def readChars : Nat → List Char → Option (List Char × List Char)
  | 0, _ => none
  | _, '"' :: rest => some ([], rest)
  | n + 1, cs => do
      let (c, rest) ← readChar cs
      let (text, rest) ← readChars n rest
      return (c :: text, rest)

/-- Reads a string between quotes and the blanks behind it. -/
def readString (n : Nat) : List Char → Option (String × List Char)
  | '"' :: cs => (readChars n cs).map fun (text, rest) => (String.ofList text, skipSpace rest)
  | _ => none

/-- Reads digits and the blanks behind them. -/
def readNatural (cs : List Char) : Option (Nat × List Char) :=
  match cs.takeWhile Char.isDigit with
  | [] => none
  | digits => some (Nat.ofDigitChars 10 digits 0, skipSpace (cs.dropWhile Char.isDigit))

/-- Reads a number and the blanks behind it. -/
def readInteger : List Char → Option (Int × List Char)
  | '-' :: cs => (readNatural cs).map fun (n, rest) => (-n, rest)
  | cs => (readNatural cs).map fun (n, rest) => (n, rest)

mutual

/-- Reads a value and the blanks behind it. -/
def readValue : Nat → List Char → Option (Json × List Char)
  | 0, _ => none
  | n + 1, cs =>
      match readInteger cs with
      | some (i, rest) => some (.int i, rest)
      | none =>
          match cs with
          | 'n' :: 'u' :: 'l' :: 'l' :: rest => some (.null, skipSpace rest)
          | 't' :: 'r' :: 'u' :: 'e' :: rest => some (.bool true, skipSpace rest)
          | 'f' :: 'a' :: 'l' :: 's' :: 'e' :: rest => some (.bool false, skipSpace rest)
          | '"' :: rest => (readString n ('"' :: rest)).map fun (s, rest) => (.str s, rest)
          | '[' :: rest =>
              match readItems n (skipSpace rest) with
              | some (js, rest) => some (.arr js, rest)
              | none => (readMark ']' (skipSpace rest)).map fun rest => (.arr [], rest)
          | '\x7b' :: rest =>
              match readMembers n (skipSpace rest) with
              | some (ms, rest) => some (.obj ms, rest)
              | none => (readMark '\x7d' (skipSpace rest)).map fun rest => (.obj [], rest)
          | _ => none

/-- Reads the values of an array, its closing bracket and the blanks behind it. -/
def readItems : Nat → List Char → Option (List Json × List Char)
  | 0, _ => none
  | n + 1, cs => do
      let (j, rest) ← readValue n cs
      match readMark ',' rest with
      | some rest => (readItems n rest).map fun (js, rest) => (j :: js, rest)
      | none => (readMark ']' rest).map fun rest => ([j], rest)

/-- Reads the members of an object, its closing brace and the blanks behind it. -/
def readMembers : Nat → List Char → Option (List (String × Json) × List Char)
  | 0, _ => none
  | n + 1, cs => do
      let (k, rest) ← readString n cs
      let rest ← readMark ':' rest
      let (j, rest) ← readValue n rest
      match readMark ',' rest with
      | some rest => (readMembers n rest).map fun (ms, rest) => ((k, j) :: ms, rest)
      | none => (readMark '\x7d' rest).map fun rest => ([(k, j)], rest)

end

/-! ## Blanks and marks -/

theorem skipSpace_append {blanks : List Char} (h : IsSpace blanks) (cs : List Char) :
    skipSpace (blanks ++ cs) = skipSpace cs := by
  rw [skipSpace, List.dropWhile_append_of_pos h]
  rfl

theorem skipSpace_of_head {c : Char} {cs : List Char} (h : isBlank c = false) :
    skipSpace (c :: cs) = c :: cs := by
  rw [skipSpace, List.dropWhile_cons_of_neg (by simp [h])]

/-- What a mark leaves of a text that begins with it. -/
theorem IsMark.skipSpace {mark : Char} {cs : List Char} (h : IsMark mark cs)
    (hmark : isBlank mark = false) (rest : List Char) :
    ∃ behind, Json.skipSpace (cs ++ rest) = mark :: behind ∧
      Json.skipSpace behind = Json.skipSpace rest := by
  obtain ⟨before, behind, hbefore, hbehind, rfl⟩ := h
  refine ⟨behind ++ rest, ?_, skipSpace_append hbehind rest⟩
  rw [List.append_assoc, skipSpace_append hbefore, List.cons_append, skipSpace_of_head hmark]

theorem IsMark.read {mark : Char} {cs : List Char} (h : IsMark mark cs)
    (hmark : isBlank mark = false) (rest : List Char) :
    readMark mark (Json.skipSpace (cs ++ rest)) = some (Json.skipSpace rest) := by
  obtain ⟨behind, hcs, hbehind⟩ := h.skipSpace hmark rest
  rw [hcs, readMark, if_pos rfl, hbehind]

theorem IsMark.read_other {mark : Char} {cs : List Char} (h : IsMark mark cs)
    (hmark : isBlank mark = false) {other : Char} (hother : mark ≠ other) (rest : List Char) :
    readMark other (Json.skipSpace (cs ++ rest)) = none := by
  obtain ⟨behind, hcs, -⟩ := h.skipSpace hmark rest
  rw [hcs, readMark, if_neg hother]

/-! ## Strings -/

/-- A scalar value is no unit of a pair. -/
theorem isHighUnit_toNat (c : Char) : isHighUnit c.toNat = false := by
  have hvalid : c.toNat < 0xd800 ∨ 0xdfff < c.toNat ∧ c.toNat < 0x110000 := c.valid
  simp only [isHighUnit, Bool.and_eq_false_iff, decide_eq_false_iff_not]
  omega

theorem IsChar.read {cs : List Char} {c : Char} (h : IsChar cs c) (rest : List Char) :
    readChar (cs ++ rest) = some (c, rest) := by
  cases h with
  | plain _ _ hbackslash =>
      rw [List.singleton_append, readChar]
      · rintro w x y z rest' heq
        exact fun _ => hbackslash heq
      · rintro e rest' heq
        exact fun _ => hbackslash heq
  | @letter e _ hletter =>
      have hu : e ≠ 'u' := by
        rintro rfl
        have hnone : letters.lookup 'u' = none := by decide
        rw [hnone] at hletter
        simp at hletter
      have hcons : ['\\', e] ++ rest = '\\' :: e :: rest := rfl
      rw [hcons, readChar, hletter]
      · rfl
      · rintro w x y z rest' heq
        exact absurd heq hu
  | unit hunit => simp [readChar, hunit, isHighUnit_toNat]
  | pair hhigh hlow hishigh _ hc =>
      simp only [List.cons_append, List.nil_append, readChar, hhigh, hishigh, if_true, hlow,
        Option.map_some]
      rw [← hc, Char.ofNat_toNat]

/-- No character inside a string is written with a quote in front. -/
theorem IsChar.exists_head {cs : List Char} {c : Char} (h : IsChar cs c) :
    ∃ x cs', cs = x :: cs' ∧ x ≠ '"' := by
  cases h with
  | plain _ hquote _ => exact ⟨_, _, rfl, hquote⟩
  | letter _ => exact ⟨_, _, rfl, by decide⟩
  | unit _ => exact ⟨_, _, rfl, by decide⟩
  | pair _ _ _ _ _ => exact ⟨_, _, rfl, by decide⟩

theorem AreChars.read {cs text : List Char} (h : AreChars cs text) {n : Nat}
    (hn : cs.length < n) (rest : List Char) :
    readChars n (cs ++ '"' :: rest) = some (text, rest) := by
  induction h generalizing n with
  | nil =>
      obtain ⟨n, rfl⟩ := Nat.exists_eq_succ_of_ne_zero (Nat.ne_of_gt hn)
      rfl
  | @cons cs cs' text c hc _ ih =>
      obtain ⟨n, rfl⟩ := Nat.exists_eq_succ_of_ne_zero (Nat.ne_of_gt (Nat.zero_lt_of_lt hn))
      have hread := hc.read (cs' ++ '"' :: rest)
      obtain ⟨x, front, rfl, hx⟩ := hc.exists_head
      have hlength : cs'.length < n := by
        simp only [List.length_append, List.length_cons] at hn
        omega
      rw [List.append_assoc, List.cons_append] at *
      rw [readChars, hread]
      · simp [ih hlength]
      · rintro rest' heq
        exact hx (List.cons.inj heq).1

theorem IsString.read {cs : List Char} {s : String} (h : IsString cs s) {n : Nat}
    (hn : cs.length ≤ n) (rest : List Char) :
    readString n (cs ++ rest) = some (s, skipSpace rest) := by
  obtain ⟨inner, hinner, rfl⟩ := h
  have hlength : inner.length < n := by
    simp only [List.length_cons, List.length_append] at hn
    omega
  simp [readString, hinner.read hlength, String.ofList_toList]

/-! ## Numbers -/

theorem isDigit_of_isBlank {c : Char} (h : isBlank c = true) : c.isDigit = false := by
  simp only [isBlank, Bool.or_eq_true, decide_eq_true_eq] at h
  rcases h with ((rfl | rfl) | rfl) | rfl <;> decide

/-- No digit stands at the front of a text. -/
def LacksDigit (cs : List Char) : Prop := ∀ c, cs.head? = some c → c.isDigit = false

theorem IsMark.lacksDigit {mark : Char} {cs : List Char} (h : IsMark mark cs)
    (hmark : mark.isDigit = false) (rest : List Char) : LacksDigit (cs ++ rest) := by
  obtain ⟨before, behind, hbefore, -, rfl⟩ := h
  cases before with
  | nil => simpa [LacksDigit] using hmark
  | cons c before =>
      rintro x hx
      obtain rfl : c = x := by simpa using hx
      exact isDigit_of_isBlank (hbefore c (by simp))

theorem IsNatural.read {digits : List Char} {n : Nat} (h : IsNatural digits n) {rest : List Char}
    (hrest : LacksDigit rest) : readNatural (digits ++ rest) = some (n, skipSpace rest) := by
  have htake : rest.takeWhile Char.isDigit = [] := by
    cases rest with
    | nil => rfl
    | cons c rest => simp [hrest c rfl]
  have hdrop : rest.dropWhile Char.isDigit = rest := by
    cases rest with
    | nil => rfl
    | cons c rest => simp [hrest c rfl]
  have hall : (digits ++ rest).takeWhile Char.isDigit = digits := by
    rw [List.takeWhile_append_of_pos h.isDigit, htake, List.append_nil]
  have hbehind : (digits ++ rest).dropWhile Char.isDigit = rest := by
    rw [List.dropWhile_append_of_pos h.isDigit, hdrop]
  obtain ⟨c, ds, hds⟩ := List.exists_cons_of_ne_nil h.ne_nil
  rw [readNatural, hall, hbehind, hds]
  simp only [← hds, h.value]

/-- A digit begins no value but a number. -/
theorem IsNatural.exists_head {digits : List Char} {n : Nat} (h : IsNatural digits n) :
    ∃ c cs, digits = c :: cs ∧ c.isDigit = true := by
  obtain ⟨c, cs, rfl⟩ := List.exists_cons_of_ne_nil h.ne_nil
  exact ⟨c, cs, rfl, h.isDigit c (by simp)⟩

theorem IsInteger.read {cs : List Char} {i : Int} (h : IsInteger cs i) {rest : List Char}
    (hrest : LacksDigit rest) : readInteger (cs ++ rest) = some (i, skipSpace rest) := by
  cases h with
  | natural h =>
      have hread := h.read hrest
      obtain ⟨c, digits, rfl, hc⟩ := h.exists_head
      rw [List.cons_append] at hread ⊢
      rw [readInteger, hread]
      · rfl
      · rintro rest' heq
        obtain rfl : c = '-' := (List.cons.inj heq).1
        exact absurd hc (by decide)
  | negative h => simp [readInteger, h.read hrest]

/-- What a number begins with. -/
theorem IsInteger.exists_head {cs : List Char} {i : Int} (h : IsInteger cs i) :
    ∃ c cs', cs = c :: cs' ∧ (c = '-' ∨ c.isDigit = true) := by
  cases h with
  | natural h =>
      obtain ⟨c, digits, rfl, hc⟩ := h.exists_head
      exact ⟨c, digits, rfl, Or.inr hc⟩
  | negative h => exact ⟨'-', _, rfl, Or.inl rfl⟩

/-! ## Values -/

/-- Where no number begins none is read. -/
theorem readInteger_of_head {c : Char} (hsign : c ≠ '-') (hdigit : c.isDigit = false)
    (cs : List Char) : readInteger (c :: cs) = none := by
  rw [readInteger]
  · simp [readNatural, hdigit]
  · rintro rest heq
    exact hsign (List.cons.inj heq).1

theorem readMark_eq_some {mark : Char} {cs rest : List Char} (h : readMark mark cs = some rest) :
    ∃ behind, cs = mark :: behind := by
  cases cs with
  | nil => simp [readMark] at h
  | cons c cs =>
      obtain ⟨rfl, -⟩ : c = mark ∧ _ := by simpa [readMark] using h
      exact ⟨cs, rfl⟩

section

variable {n : Nat} {cs rest : List Char}

theorem readValue_string {s : String} (h : readString n ('"' :: cs) = some (s, rest)) :
    readValue (n + 1) ('"' :: cs) = some (.str s, rest) := by
  simp [readValue, readInteger_of_head, h]

theorem readValue_array {js : List Json} (h : readItems n (skipSpace cs) = some (js, rest)) :
    readValue (n + 1) ('[' :: cs) = some (.arr js, rest) := by
  simp [readValue, readInteger_of_head, h]

/-- No value begins with a closing bracket. -/
theorem readValue_emptyArray (h : readMark ']' (skipSpace cs) = some rest) :
    readValue (n + 1) ('[' :: cs) = some (.arr [], rest) := by
  have hnone : readItems n (skipSpace cs) = none := by
    obtain ⟨behind, hcs⟩ := readMark_eq_some h
    rw [hcs]
    rcases n with _ | _ | n <;> simp [readItems, readValue, readInteger_of_head]
  simp [readValue, readInteger_of_head, hnone, h]

theorem readValue_object {ms : List (String × Json)}
    (h : readMembers n (skipSpace cs) = some (ms, rest)) :
    readValue (n + 1) ('\x7b' :: cs) = some (.obj ms, rest) := by
  simp [readValue, readInteger_of_head, h]

/-- No member begins with a closing brace. -/
theorem readValue_emptyObject (h : readMark '\x7d' (skipSpace cs) = some rest) :
    readValue (n + 1) ('\x7b' :: cs) = some (.obj [], rest) := by
  have hnone : readMembers n (skipSpace cs) = none := by
    obtain ⟨behind, hcs⟩ := readMark_eq_some h
    rw [hcs]
    cases n <;> simp [readMembers, readString]
  simp [readValue, readInteger_of_head, hnone, h]

end

/-- What the reader finds at the front of a text that a part begins. -/
def Part.IsReadFrom (cs : List Char) : Part → Prop
  | value j => ∀ n rest, 2 * cs.length ≤ n → LacksDigit rest →
      readValue n (skipSpace (cs ++ rest)) = some (j, skipSpace rest)
  | items js => ∀ n closing rest, 2 * cs.length < n → IsMark ']' closing →
      readItems n (skipSpace (cs ++ (closing ++ rest))) = some (js, skipSpace rest)
  | members ms => ∀ n closing rest, 2 * cs.length < n → IsMark '\x7d' closing →
      readMembers n (skipSpace (cs ++ (closing ++ rest))) = some (ms, skipSpace rest)

theorem IsMark.length_pos {mark : Char} {cs : List Char} (h : IsMark mark cs) :
    0 < cs.length := by
  obtain ⟨before, behind, -, -, rfl⟩ := h
  rw [List.length_append, List.length_cons]
  omega

theorem IsString.skipSpace {cs : List Char} {s : String} (h : IsString cs s) (rest : List Char) :
    Json.skipSpace (cs ++ rest) = cs ++ rest := by
  obtain ⟨inner, -, rfl⟩ := h
  exact skipSpace_of_head (by decide)

theorem IsString.length_pos {cs : List Char} {s : String} (h : IsString cs s) :
    0 < cs.length := by
  obtain ⟨inner, -, rfl⟩ := h
  simp

/-- The reader finds what the grammar gives to the front of a text. -/
theorem Spells.read {cs : List Char} {part : Part} (h : Spells cs part) : part.IsReadFrom cs := by
  induction h with
  | null =>
      rintro (_ | n) rest hn -
      · simp at hn
      · rw [List.cons_append, skipSpace_of_head (by decide)]
        simp [readValue, readInteger_of_head]
  | true =>
      rintro (_ | n) rest hn -
      · simp at hn
      · rw [List.cons_append, skipSpace_of_head (by decide)]
        simp [readValue, readInteger_of_head]
  | false =>
      rintro (_ | n) rest hn -
      · simp at hn
      · rw [List.cons_append, skipSpace_of_head (by decide)]
        simp [readValue, readInteger_of_head]
  | int h =>
      rintro (_ | n) rest hn hrest
      · obtain ⟨c, cs, rfl, -⟩ := h.exists_head
        simp at hn
      · have hread := h.read hrest
        obtain ⟨c, cs, rfl, hc⟩ := h.exists_head
        have hblank : isBlank c = Bool.false := by
          rcases hc with rfl | hc
          · rfl
          · rw [← Bool.not_eq_true]
            intro hblank
            simp [isDigit_of_isBlank hblank] at hc
        rw [List.cons_append] at hread ⊢
        rw [skipSpace_of_head hblank]
        simp [readValue, hread]
  | str h =>
      rintro (_ | n) rest hn -
      · have hpos := h.length_pos
        omega
      · have hpos := h.length_pos
        have hread := h.read (n := n) (by omega) rest
        obtain ⟨inner, -, rfl⟩ := h
        rw [List.cons_append] at hread ⊢
        rw [skipSpace_of_head (by decide), readValue_string hread]
  | emptyArray hopening hclosing =>
      rintro (_ | n) rest hn -
      · have hpos := hopening.length_pos
        rw [List.length_append] at hn
        omega
      · obtain ⟨behind, hfront, hbehind⟩ := hopening.skipSpace (by decide) (_ ++ rest)
        have hmark := hclosing.read (by decide) rest
        rw [← hbehind] at hmark
        rw [List.append_assoc, hfront, readValue_emptyArray hmark]
  | @array opening cs closing js hopening _ hclosing ih =>
      rintro (_ | n) rest hn -
      · have hpos := hopening.length_pos
        simp only [List.length_append] at hn
        omega
      · obtain ⟨behind, hfront, hbehind⟩ :=
          hopening.skipSpace (by decide) (cs ++ (closing ++ rest))
        have hpos := hopening.length_pos
        have hitems := ih n closing rest (by simp only [List.length_append] at hn; omega) hclosing
        rw [← hbehind] at hitems
        rw [List.append_assoc, List.append_assoc, hfront, readValue_array hitems]
  | emptyObject hopening hclosing =>
      rintro (_ | n) rest hn -
      · have hpos := hopening.length_pos
        rw [List.length_append] at hn
        omega
      · obtain ⟨behind, hfront, hbehind⟩ := hopening.skipSpace (by decide) (_ ++ rest)
        have hmark := hclosing.read (by decide) rest
        rw [← hbehind] at hmark
        rw [List.append_assoc, hfront, readValue_emptyObject hmark]
  | @object opening cs closing ms hopening _ hclosing ih =>
      rintro (_ | n) rest hn -
      · have hpos := hopening.length_pos
        simp only [List.length_append] at hn
        omega
      · obtain ⟨behind, hfront, hbehind⟩ :=
          hopening.skipSpace (by decide) (cs ++ (closing ++ rest))
        have hpos := hopening.length_pos
        have hmembers := ih n closing rest (by simp only [List.length_append] at hn; omega)
          hclosing
        rw [← hbehind] at hmembers
        rw [List.append_assoc, List.append_assoc, hfront, readValue_object hmembers]
  | lastItem h ih =>
      rintro (_ | n) closing rest hn hclosing
      · omega
      · have hvalue := ih n (closing ++ rest) (by omega) (hclosing.lacksDigit (by decide) rest)
        have hcomma := hclosing.read_other (by decide) (show _ ≠ ',' by decide) rest
        have hmark := hclosing.read (by decide) rest
        simp [readItems, hvalue, hcomma, hmark]
  | @item cs comma cs' j js h hcomma _ ih ihs =>
      rintro (_ | n) closing rest hn hclosing
      · omega
      · have hpos := hcomma.length_pos
        simp only [List.length_append] at hn
        have hvalue := ih n (comma ++ (cs' ++ (closing ++ rest))) (by omega)
          (hcomma.lacksDigit (by decide) _)
        have hmark := hcomma.read (by decide) (cs' ++ (closing ++ rest))
        have hitems := ihs n closing rest (by omega) hclosing
        simp [readItems, hvalue, hmark, hitems]
  | @lastMember key colon cs k j hkey hcolon h ih =>
      rintro (_ | n) closing rest hn hclosing
      · omega
      · have hpos := hcolon.length_pos
        simp only [List.length_append] at hn
        have hname := hkey.read (n := n) (by omega) (colon ++ (cs ++ (closing ++ rest)))
        have hmark := hcolon.read (by decide) (cs ++ (closing ++ rest))
        have hvalue := ih n (closing ++ rest) (by omega) (hclosing.lacksDigit (by decide) rest)
        have hcomma := hclosing.read_other (by decide) (show _ ≠ ',' by decide) rest
        have hend := hclosing.read (by decide) rest
        rw [List.append_assoc, List.append_assoc, hkey.skipSpace]
        simp [readMembers, hname, hmark, hvalue, hcomma, hend]
  | @member key colon cs comma cs' k j ms hkey hcolon h hcomma _ ih ihs =>
      rintro (_ | n) closing rest hn hclosing
      · omega
      · have hpos := hcolon.length_pos
        simp only [List.length_append] at hn
        have hname := hkey.read (n := n) (by omega)
          (colon ++ (cs ++ (comma ++ (cs' ++ (closing ++ rest)))))
        have hmark := hcolon.read (by decide) (cs ++ (comma ++ (cs' ++ (closing ++ rest))))
        have hvalue := ih n (comma ++ (cs' ++ (closing ++ rest))) (by omega)
          (hcomma.lacksDigit (by decide) _)
        have hnext := hcomma.read (by decide) (cs' ++ (closing ++ rest))
        have hmembers := ihs n closing rest (by omega) hclosing
        simp only [List.append_assoc]
        rw [hkey.skipSpace]
        simp [readMembers, hname, hmark, hvalue, hnext, hmembers]

/-! ## One value for a text -/

/-- The reader finds the value of a whole text and reads the text to its end. -/
theorem Says.read {text : String} {j : Json} (h : Says text j) :
    readValue (2 * text.toList.length) (skipSpace text.toList) = some (j, []) := by
  obtain ⟨before, cs, behind, hbefore, hcs, hbehind, htext⟩ := h
  have hend : skipSpace behind = [] := by
    have happend := skipSpace_append hbehind []
    rwa [List.append_nil] at happend
  have hlacks : LacksDigit behind := by
    rintro c hc
    exact isDigit_of_isBlank (hbehind c (List.mem_of_mem_head? hc))
  rw [htext, List.append_assoc, skipSpace_append hbefore,
    hcs.read _ behind (by simp only [List.length_append]; omega) hlacks, hend]

/-- A text says one value. -/
theorem Says.functional {text : String} {j j' : Json} (h : Says text j) (h' : Says text j') :
    j = j' := by
  have heq := Option.some.inj (h.read.symm.trans h'.read)
  exact congrArg Prod.fst heq

end Json

end DecafFrontEnd
