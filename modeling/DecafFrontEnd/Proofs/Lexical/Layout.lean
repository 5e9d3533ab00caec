/-
  DecafFrontEnd/Proofs/Lexical/Layout.lean --- texts made of given lexemes.

  A lexeme is `IsWhole` when its text alone reads as it.  It reads so in front of a
  separator too, whatever stands behind that (`Lexeme.IsWhole.first?_append`), where a
  separator is a blank, a round bracket, a brace or a semicolon.  A text that sets whole
  lexemes one behind the other, with blanks or separators between them, therefore has
  these lexemes (`LaidOut.reads`).
-/
import DecafFrontEnd.Proofs.Lexical.Reading

set_option autoImplicit false

namespace DecafFrontEnd

/-! ## Lexemes in front of a separator -/

/-- The text of a lexeme alone reads as the lexeme. -/
def Lexeme.IsWhole (l : Lexeme) : Prop := first? l.text = some l

instance (l : Lexeme) : Decidable l.IsWhole := inferInstanceAs (Decidable (_ = _))

theorem Keyword.isWhole (k : Keyword) : (⟨.keyword k, k.spelling.toList⟩ : Lexeme).IsWhole := by
  cases k <;> decide

/-- Every spelling of an operator, a mark or a reserved word reads as what it spells. -/
theorem Terminal.isWhole {t : Terminal} : ∀ w ∈ t.spellings, (⟨t, w⟩ : Lexeme).IsWhole := by
  cases t with
  | keyword k => simpa [spellings] using k.isWhole
  | _ => decide

/-- A character that ends any lexeme before it that is not a quoted one. -/
def isSeparator (c : Char) : Bool :=
  isBlank c || c = '(' || c = ')' || c = '\x7b' || c = '\x7d' || c = ']' || c = ';'

theorem isWordChar_of_isSeparator {c : Char} (h : isSeparator c = true) : isWordChar c = false := by
  simp only [isSeparator, isBlank, Bool.or_eq_true, decide_eq_true_eq] at h
  rcases h with ((((((((rfl | rfl) | rfl) | rfl) | rfl) | rfl) | rfl) | rfl) | rfl) | rfl <;>
    decide

theorem takeWhile_separator {p : Char → Bool} (text : List Char) {c : Char} (rest : List Char)
    (hc : p c = false) :
    (text ++ c :: rest).takeWhile p = text.takeWhile p ∧
      (text ++ c :: rest).dropWhile p = text.dropWhile p ++ c :: rest := by
  induction text with
  | nil => simp [hc]
  | cons x text ih =>
      simp only [List.cons_append, List.takeWhile_cons, List.dropWhile_cons]
      split
      · exact ⟨by rw [ih.1], ih.2⟩
      · exact ⟨rfl, rfl⟩

/-- A spelling with no separator behind its front fits before a separator only if it
fits without it. -/
theorem isPrefixOf_separator {s text : List Char} {c : Char} (rest : List Char)
    (hs : ∀ x ∈ s.tail, isSeparator x = false) (hc : isSeparator c = true) (htext : text ≠ []) :
    s.isPrefixOf (text ++ c :: rest) = s.isPrefixOf text := by
  induction s generalizing text with
  | nil => simp
  | cons x s ih =>
      cases text with
      | nil => exact absurd rfl htext
      | cons y text =>
          simp only [List.cons_append, List.isPrefixOf]
          cases text with
          | cons z text =>
              rw [ih (fun x hx => hs x (List.mem_of_mem_tail hx)) (by simp)]
          | nil =>
              cases s with
              | nil => simp
              | cons z s =>
                  have hz : z ≠ c := by
                    rintro rfl
                    simp [hc] at hs
                  simp [List.isPrefixOf, hz]

theorem scanAny_separator {ss : List (List Char)} {text l r : List Char} {c : Char}
    (rest : List Char) (hss : ∀ s ∈ ss, ∀ x ∈ s.tail, isSeparator x = false)
    (h : scanAny ss text = some (l, r)) (hc : isSeparator c = true) (htext : text ≠ []) :
    scanAny ss (text ++ c :: rest) = some (l, r ++ c :: rest) := by
  have hfind : ss.find? (·.isPrefixOf (text ++ c :: rest)) = ss.find? (·.isPrefixOf text) := by
    clear h
    induction ss with
    | nil => rfl
    | cons s ss ih =>
        rw [List.find?_cons, List.find?_cons,
          isPrefixOf_separator rest (hss s (by simp)) hc htext,
          ih fun s' hs' => hss s' (by simp [hs'])]
  rw [← map_scanAny, ← map_scanAny, h] at hfind
  obtain ⟨⟨l', r'⟩, hscan, rfl⟩ := Option.map_eq_some_iff.1 hfind
  have htail := (append_of_scanAny hscan).2
  rw [(append_of_scanAny h).2, List.append_assoc] at htail
  obtain rfl := List.append_cancel_left htail
  exact hscan

namespace Terminal

/-- A scan takes as much in front of a separator as at the end of the text. -/
theorem scan_separator {t : Terminal} {text l r : List Char} {c : Char} (rest : List Char)
    (h : t.scan text = some (l, r)) (hc : isSeparator c = true) :
    t.scan (text ++ c :: rest) = some (l, r ++ c :: rest) := by
  have hword := isWordChar_of_isSeparator hc
  have htext : text ≠ [] := by
    rw [← append_of_scan h]
    simp [ne_nil_of_scan h]
  cases t with
  | keyword k =>
      obtain ⟨htake, hdrop⟩ := takeWhile_separator text rest hword
      simp only [scan, scanKeyword, Option.ite_none_right_eq_some, Option.some.injEq,
        Prod.mk.injEq, htake, hdrop] at h ⊢
      exact ⟨h.1, h.2.1, by rw [h.2.2]⟩
  | ident =>
      obtain ⟨htake, hdrop⟩ := takeWhile_separator text rest hword
      simp only [scan, scanName, htake, hdrop] at h ⊢
      split at h
      · simp at h
      · next x w hw =>
          simp only [Option.ite_none_right_eq_some, Option.some.injEq, Prod.mk.injEq] at h ⊢
          exact ⟨h.1, h.2.1, by rw [h.2.2]⟩
  | intLit =>
      have hdigit : c.isDigit = false := by
        simp only [isWordChar, Char.isAlphanum, Bool.or_eq_false_iff] at hword
        exact hword.1.2
      obtain ⟨htake, hdrop⟩ := takeWhile_separator text rest hdigit
      simp only [scan, scanDigits, htake, hdrop] at h ⊢
      split at h
      · simp at h
      · next x w hw =>
          simp only [Option.some.injEq, Prod.mk.injEq] at h ⊢
          exact ⟨h.1, by rw [h.2]⟩
  | charLit =>
      obtain ⟨hlit, rfl⟩ := (scanCharLit_iff _ _ _).1 h
      exact (scanCharLit_iff _ _ _).2 ⟨hlit, List.append_assoc _ _ _⟩
  | stringLit =>
      obtain ⟨hlit, rfl⟩ := (scanStringLit_iff _ _ _).1 h
      exact (scanStringLit_iff _ _ _).2 ⟨hlit, List.append_assoc _ _ _⟩
  | _ =>
      exact scanAny_separator rest (by simp [spellings, isSeparator, isBlank]) h hc htext

end Terminal

/-- The lexeme at the front of a text is the same in front of a separator. -/
theorem Lexeme.first?_append {text behind : List Char} {l : Lexeme} (h : first? text = some l)
    (hbehind : ∀ c, behind.head? = some c → isSeparator c = true) :
    first? (text ++ behind) = some l := by
  cases behind with
  | nil => rwa [List.append_nil]
  | cons c rest =>
      obtain ⟨r, hscan⟩ := scan_of_first? h
      have hc := hbehind c rfl
      rcases first?_of_scan (Terminal.scan_separator rest hscan hc) with hfirst | ⟨ht, r', hr, -⟩
      · exact hfirst
      · -- a lone sign has no second one behind it, neither a separator nor in the text
        obtain ⟨x, -, hl, htext, hlonger⟩ := scan_lone ht hscan
        cases r with
        | nil =>
            obtain ⟨rfl, -⟩ := List.cons.inj hr
            exact absurd hc (by decide)
        | cons y r =>
            obtain ⟨rfl, -⟩ := List.cons.inj hr
            have hop := first?_eq_of_eqOp (hlonger r)
            rw [← htext, h] at hop
            rw [Option.some.inj hop] at hl
            simp at hl

/-- No lexeme begins with a blank. -/
theorem Lexeme.first?_blank {x : Char} (cs : List Char) (h : isBlank x = true) :
    first? (x :: cs) = none := by
  simp only [isBlank, Bool.or_eq_true, decide_eq_true_eq] at h
  rcases h with ((rfl | rfl) | rfl) | rfl <;> rfl

namespace Lexeme.IsWhole

variable {l : Lexeme}

theorem scan_text (h : l.IsWhole) : l.terminal.scan l.text = some (l.text, []) := by
  obtain ⟨r, hscan⟩ := scan_of_first? h
  have happend := Terminal.append_of_scan hscan
  obtain rfl : r = [] := by simpa using happend
  exact hscan

/-- A whole lexeme is read in front of a separator. -/
theorem first?_append (h : l.IsWhole) {behind : List Char}
    (hbehind : ∀ c, behind.head? = some c → isSeparator c = true) :
    first? (l.text ++ behind) = some l := Lexeme.first?_append h hbehind

/-- No trivia starts where a whole lexeme does. -/
theorem leadingTrivia_append (h : l.IsWhole) {behind : List Char}
    (hbehind : ∀ c, behind.head? = some c → isSeparator c = true) :
    leadingTrivia (l.text ++ behind) = [] := by
  have hfirst := h.first?_append hbehind
  cases htext : l.text with
  | nil => exact absurd htext (ne_nil_of_first? hfirst)
  | cons x w =>
      rw [htext, List.cons_append] at hfirst
      have hblank : isBlank x = false := by
        cases hx : isBlank x with
        | false => rfl
        | true =>
            rw [first?_blank _ hx] at hfirst
            simp at hfirst
      have hcomment : (x = '/' && (w ++ behind).head? = some '/') = false := by
        rw [Bool.eq_false_iff]
        intro hslash
        simp only [Bool.and_eq_true, decide_eq_true_eq] at hslash
        obtain ⟨rfl, hhead⟩ := hslash
        -- Of two slashes the first alone would be the lexeme.
        obtain rfl : ⟨.mulOp, ['/']⟩ = l := Option.some.inj hfirst
        obtain rfl : [] = w := (List.cons.inj htext).2
        exact absurd (hbehind '/' hhead) (by decide)
      simp only [List.cons_append, leadingTrivia, splitTrivia, splitTriviaFrom, hblank, hcomment,
        Bool.false_eq_true, if_false]

end Lexeme.IsWhole

theorem skipTrivia_blanks {blanks rest : List Char} (hblanks : ∀ x ∈ blanks, isBlank x = true)
    (hrest : leadingTrivia rest = []) : skipTrivia (blanks ++ rest) = rest := by
  induction blanks with
  | nil =>
      have happend := leadingTrivia_append_skipTrivia rest
      rwa [hrest] at happend
  | cons x blanks ih =>
      have hothers := ih fun y hy => hblanks y (by simp [hy])
      simp only [skipTrivia, splitTrivia] at hothers ⊢
      rw [List.cons_append, splitTriviaFrom, if_pos (hblanks x (by simp))]
      exact hothers

/-! ## Texts made of lexemes -/

theorem Source.chars_ofText (text : String) (name : Option String) :
    (ofText text name).chars = text.toList := rfl

/-- A text that is nothing but the given one. -/
def Source.alone (text : List Char) : Source := Source.ofText (String.ofList text) none

@[simp] theorem Source.chars_alone (text : List Char) : (Source.alone text).chars = text :=
  String.toList_ofList

/-- Whole lexemes one behind the other, blanks or a separator behind each. -/
inductive LaidOut : List Lexeme → List Char → Prop
  | nil : LaidOut [] []
  | cons {l : Lexeme} {ls : List Lexeme} {blanks rest : List Char} :
      l.IsWhole → (∀ c ∈ blanks, isBlank c = true) →
      (∀ c, (blanks ++ rest).head? = some c → isSeparator c = true) → LaidOut ls rest →
      LaidOut (l :: ls) (l.text ++ (blanks ++ rest))

namespace LaidOut

variable {ls : List Lexeme} {text : List Char}

theorem leadingTrivia_eq (h : LaidOut ls text) : leadingTrivia text = [] := by
  cases h with
  | nil => rfl
  | cons hl _ hbehind _ => exact hl.leadingTrivia_append hbehind

/-- The lexemes of a text that is laid out are read up to its end. -/
theorem reads (h : LaidOut ls text) {c : Cursor} (hc : c.rest = text) :
    ∃ d, c.Reads ls d ∧ d.rest = [] := by
  induction h generalizing c with
  | nil => exact ⟨c, .nil c, hc⟩
  | @cons l ls blanks rest hl hblanks hbehind hrest ih =>
      have hfirst : Lexeme.first? c.rest = some l := by
        rw [hc]
        exact hl.first?_append hbehind
      have hpast : (c.past l).rest = rest := by
        rw [Cursor.past, Cursor.advance_length hc]
        exact skipTrivia_blanks hblanks hrest.leadingTrivia_eq
      obtain ⟨d, hreads, hd⟩ := ih hpast
      exact ⟨d, .cons hfirst hreads, hd⟩

/-- The tokens of a text that is laid out are its lexemes. -/
theorem tokenize {s : Source} (h : LaidOut ls text) (hs : s.chars = text) :
    ∃ ts, s.tokenize = .ok ts ∧ ts.filterMap Token.lexeme? = ls := by
  obtain rfl := hs
  have hplace : s.firstPlace = Cursor.start s.chars := Cursor.Rested.skip_eq h.leadingTrivia_eq
  obtain ⟨d, hreads, hd⟩ := h.reads (congrArg Cursor.rest hplace)
  exact Source.tokenize_of_reads hreads hd

end LaidOut

/-- Lexemes with blanks between them. -/
inductive Spaced : List Lexeme → List Char → Prop
  | one (l : Lexeme) : Spaced [l] l.text
  | cons {l : Lexeme} {ls : List Lexeme} {blanks rest : List Char} :
      blanks ≠ [] → (∀ c ∈ blanks, isBlank c = true) → Spaced ls rest →
      Spaced (l :: ls) (l.text ++ (blanks ++ rest))

/-- A lexeme with one blank behind it. -/
theorem Spaced.blank {l : Lexeme} {ls : List Lexeme} {rest : List Char} (h : Spaced ls rest) :
    Spaced (l :: ls) (l.text ++ (' ' :: rest)) := by
  have hspaced : Spaced (l :: ls) (l.text ++ ([' '] ++ rest)) :=
    .cons (by decide) (by simp [isBlank]) h
  exact hspaced

/-- Lexemes with blanks between them are laid out in front of a separator. -/
theorem Spaced.laidOut {ls ls' : List Lexeme} {text behind : List Char} (h : Spaced ls text)
    (hls : ∀ l ∈ ls, l.IsWhole) (hbehind : LaidOut ls' behind)
    (hhead : ∀ c, behind.head? = some c → isSeparator c = true) :
    LaidOut (ls ++ ls') (text ++ behind) := by
  induction h with
  | one l =>
      have hlaid : LaidOut (l :: ls') (l.text ++ ([] ++ behind)) :=
        .cons (hls l (by simp)) (by simp) hhead hbehind
      exact hlaid
  | @cons l ls blanks rest hne hblanks _ ih =>
      have hrest := ih fun l hl => hls l (by simp [hl])
      rw [List.append_assoc, List.append_assoc]
      refine .cons (hls l (by simp)) hblanks ?_ hrest
      intro c hc
      cases blanks with
      | nil => exact absurd rfl hne
      | cons x blanks =>
          obtain rfl : x = c := Option.some.inj hc
          simp [isSeparator, hblanks x (by simp)]

end DecafFrontEnd
