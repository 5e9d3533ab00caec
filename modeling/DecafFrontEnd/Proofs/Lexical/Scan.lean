/-
  DecafFrontEnd/Proofs/Lexical/Scan.lean --- which scans fit at one place.

  At one place of a text the classes of lexemes exclude each other, with one
  exception: a lone `=` or `!` also fits in front of `==` and `!=`.  The classes
  of that group are of one kin, and otherwise a class is of its own kin.  Two
  scans that fit at one place are therefore of one kin (`kin_eq_of_scan`), and a
  scan that fits either gives the lexeme at that place or the first character of
  a longer operator (`first?_of_scan`).
-/
import DecafFrontEnd.Lexical.Token

set_option autoImplicit false

namespace DecafFrontEnd

/-! ## Words -/

theorem Keyword.spelling_injective {k k' : Keyword}
    (h : k.spelling.toList = k'.spelling.toList) : k = k' := by
  have key : ∀ a ∈ Keyword.all, ∀ b ∈ Keyword.all,
      a.spelling.toList = b.spelling.toList → a = b := by decide
  exact key k (Keyword.mem_all k) k' (Keyword.mem_all k') h

theorem isReserved_spelling (k : Keyword) : isReserved k.spelling.toList = true := by
  cases k <;> decide

theorem not_isNameStart_of_isDigit {c : Char} (h : c.isDigit = true) :
    isNameStart c = false := by
  have hletter : c.isAlpha = (decide (c.val ≥ 'A'.val ∧ c.val ≤ 'Z'.val) ||
      (decide (c.val ≥ 'a'.val) && decide (c.val ≤ 'z'.val))) := rfl
  rw [isNameStart, hletter]
  simp only [Char.isDigit, ge_iff_le, Bool.and_eq_true, decide_eq_true_eq,
    Bool.or_eq_false_iff, Bool.and_eq_false_imp, decide_eq_false_iff_not] at *
  constructor
  · grind
  · rintro rfl
    simp at h

/-- A run of characters begins where the text does, with a character of its
class. -/
theorem head?_of_takeWhile {p : Char → Bool} {cs w : List Char} {c : Char}
    (h : cs.takeWhile p = c :: w) : cs.head? = some c ∧ p c = true := by
  have hhead : cs.head?.filter p = some c := by rw [← List.head?_takeWhile, h]; rfl
  exact Option.filter_eq_some_iff.1 hhead

/-! ## Kin -/

namespace Terminal

theorem mem_order (t : Terminal) : t ∈ order := by
  cases t with
  | keyword k => cases k <;> decide
  | _ => decide

/-- The kin of a class. A lone `=` or `!` is of one kin with the operators that
begin with it. -/
def kin : Terminal → Terminal
  | assign | notOp => eqOp
  | t => t

/-- The kin of a class, where reserved words count as names. -/
def family : Terminal → Terminal
  | keyword _ => ident
  | t => t.kin

/-- The family that a first character leads to. -/
def ofLead (c : Char) : Terminal :=
  if isNameStart c then ident
  else if c.isDigit then intLit
  else match c with
    | '\'' => charLit
    | '"' => stringLit
    | '|' => orOp
    | '&' => andOp
    | '=' | '!' => eqOp
    | '<' | '>' => relOp
    | '+' | '-' => addOp
    | '*' | '/' => mulOp
    | '(' => lparen
    | ')' => rparen
    | '\x7b' => lbrace
    | '\x7d' => rbrace
    | '[' => lbrack
    | ']' => rbrack
    | ';' => semi
    | ',' => comma
    | _ => dot

theorem ofLead_of_scanAny {ss : List (List Char)} {cs l r : List Char} {t : Terminal}
    (hss : ∀ s ∈ ss, ∃ c, s.head? = some c ∧ ofLead c = t)
    (h : scanAny ss cs = some (l, r)) : ∃ c, cs.head? = some c ∧ ofLead c = t := by
  obtain ⟨s, hmem, hs⟩ := List.exists_of_findSome?_eq_some h
  obtain ⟨c, hc, ht⟩ := hss s hmem
  unfold scanSpelling at hs
  split at hs
  · next hp =>
      obtain ⟨tail, rfl⟩ := List.isPrefixOf_iff_prefix.1 hp
      cases s with
      | nil => simp at hc
      | cons d s => exact ⟨c, by simpa using hc, ht⟩
  · exact absurd hs (by simp)

/-- The first character of a lexeme tells its family. -/
theorem ofLead_of_scan {t : Terminal} {cs l r : List Char} (h : t.scan cs = some (l, r)) :
    ∃ c, cs.head? = some c ∧ ofLead c = t.family := by
  cases t with
  | keyword k =>
      simp only [scan, scanKeyword] at h
      split at h
      · next hw =>
          have hk : ∃ c w, k.spelling.toList = c :: w ∧ isNameStart c = true := by
            cases k <;> exact ⟨_, _, rfl, by decide⟩
          obtain ⟨c, w, hcw, hc⟩ := hk
          exact ⟨c, (head?_of_takeWhile (hw.trans hcw)).1, by simp [ofLead, hc, family]⟩
      · simp at h
  | ident =>
      simp only [scan, scanName] at h
      split at h
      · simp at h
      · next c w hw =>
          split at h
          · next hc =>
              simp only [Bool.and_eq_true] at hc
              exact ⟨c, (head?_of_takeWhile hw).1, by simp [ofLead, hc.1, family, kin]⟩
          · simp at h
  | intLit =>
      simp only [scan, scanDigits] at h
      split at h
      · simp at h
      · next c w hw =>
          obtain ⟨hhead, hc⟩ := head?_of_takeWhile hw
          refine ⟨c, hhead, ?_⟩
          simp [ofLead, not_isNameStart_of_isDigit hc, hc, family, kin]
  | charLit =>
      simp only [scan] at h
      unfold scanCharLit at h
      split at h
      · exact ⟨_, rfl, by decide⟩
      · exact ⟨_, rfl, by decide⟩
      · simp at h
  | stringLit =>
      simp only [scan] at h
      unfold scanStringLit at h
      split at h
      · exact ⟨_, rfl, by decide⟩
      · simp at h
  | _ => exact ofLead_of_scanAny (by simp [spellings]; decide) h

/-- A text that begins with a reserved word begins with no other and with no
name. -/
theorem keyword_of_scan {k : Keyword} {t : Terminal} {cs l r l' r' : List Char}
    (hk : scanKeyword k cs = some (l, r)) (ht : t.scan cs = some (l', r'))
    (hfamily : t.family = ident) : t = keyword k := by
  unfold scanKeyword at hk
  split at hk
  · next hw =>
      cases t with
      | keyword k' =>
          simp only [scan, scanKeyword] at ht
          split at ht
          · next hw' => rw [Keyword.spelling_injective (hw.symm.trans hw')]
          · simp at ht
      | ident =>
          simp only [scan, scanName] at ht
          split at ht
          · simp at ht
          · next c w hcw =>
              have hres : isReserved (c :: w) = true := by
                rw [← hcw, hw]
                exact isReserved_spelling k
              simp [hres] at ht
      | _ => simp [family, kin] at hfamily
  · simp at hk

theorem family_eq_kin {t : Terminal} (h : ∀ k, t ≠ keyword k) : t.family = t.kin := by
  cases t with
  | keyword k => exact absurd rfl (h k)
  | _ => rfl

/-- Two scans that fit at one place are of one kin. -/
theorem kin_eq_of_scan {t t' : Terminal} {cs l r l' r' : List Char}
    (h : t.scan cs = some (l, r)) (h' : t'.scan cs = some (l', r')) : t.kin = t'.kin := by
  obtain ⟨c, hc, hlead⟩ := ofLead_of_scan h
  obtain ⟨c', hc', hlead'⟩ := ofLead_of_scan h'
  obtain rfl : c = c' := Option.some.inj (hc.symm.trans hc')
  have hfamily : t.family = t'.family := hlead.symm.trans hlead'
  by_cases hk : ∃ k, t = keyword k
  · obtain ⟨k, rfl⟩ := hk
    rw [keyword_of_scan h h' hfamily.symm]
  by_cases hk' : ∃ k, t' = keyword k
  · obtain ⟨k, rfl⟩ := hk'
    rw [keyword_of_scan h' h hfamily]
  rw [not_exists] at hk hk'
  rw [← family_eq_kin hk, ← family_eq_kin hk', hfamily]

/-- Only a lone `=` or `!` is not its own kin. -/
theorem kin_eq_self_or (t : Terminal) : t.kin = t ∨ t = assign ∨ t = notOp := by
  cases t <;> simp [kin]

/-- The operators `==` and `!=` are looked for before the signs that begin
them, and nothing before them is of their kin. -/
theorem order_eq : ∃ early late, order = early ++ eqOp :: late ∧ ∀ t ∈ early, t.kin ≠ eqOp :=
  ⟨Keyword.all.map keyword ++ [intLit, charLit, stringLit, ident, orOp, andOp],
    [relOp, addOp, mulOp, notOp, assign, lparen, rparen, lbrace, rbrace, lbrack, rbrack,
     semi, comma, dot], rfl, by decide⟩

end Terminal

/-! ## The lexeme at a place -/

/-- What one of several spellings takes is one of them. -/
theorem append_of_scanAny {ss : List (List Char)} {cs l r : List Char}
    (h : scanAny ss cs = some (l, r)) : l ∈ ss ∧ cs = l ++ r := by
  obtain ⟨s, hmem, hs⟩ := List.exists_of_findSome?_eq_some h
  unfold scanSpelling at hs
  split at hs
  · next hp =>
      obtain ⟨tail, rfl⟩ := List.isPrefixOf_iff_prefix.1 hp
      simp only [List.drop_left, Option.some.injEq, Prod.mk.injEq] at hs
      obtain ⟨rfl, rfl⟩ := hs
      exact ⟨hmem, rfl⟩
  · simp at hs

namespace Lexeme

theorem scan_of_first? {cs : List Char} {l : Lexeme} (h : first? cs = some l) :
    ∃ r, l.terminal.scan cs = some (l.text, r) := by
  obtain ⟨t, _, ht⟩ := List.exists_of_findSome?_eq_some h
  obtain ⟨⟨text, r⟩, hs, rfl⟩ := Option.map_eq_some_iff.1 ht
  exact ⟨r, hs⟩

theorem first?_eq_none_iff {cs : List Char} :
    first? cs = none ↔ ∀ t : Terminal, t.scan cs = none := by
  simp only [first?, List.findSome?_eq_none_iff, Option.map_eq_none_iff]
  exact ⟨fun h t => h t t.mem_order, fun h t _ => h t⟩

theorem first?_eq (cs : List Char) :
    first? cs = Terminal.order.findSome? fun t => (t.scan cs).map fun x => ⟨t, x.1⟩ := rfl

theorem first?_eq_of_eqOp {cs l r : List Char} (h : Terminal.eqOp.scan cs = some (l, r)) :
    first? cs = some ⟨.eqOp, l⟩ := by
  obtain ⟨early, late, horder, hearly⟩ := Terminal.order_eq
  have hnone : early.findSome? (fun t => (t.scan cs).map fun x => (⟨t, x.1⟩ : Lexeme)) =
      none := by
    rw [List.findSome?_eq_none_iff]
    intro t ht
    cases hs : t.scan cs with
    | none => rfl
    | some lr => exact absurd (Terminal.kin_eq_of_scan hs h) (hearly t ht)
  rw [first?_eq, horder, List.findSome?_append, hnone]
  simp [h]

/-- A lone sign and the sign that makes it an operator. -/
theorem scan_lone {t : Terminal} {cs l r : List Char} (ht : t = .assign ∨ t = .notOp)
    (h : t.scan cs = some (l, r)) :
    ∃ c, t.spellings = [[c]] ∧ l = [c] ∧ cs = c :: r ∧
      ∀ r', Terminal.eqOp.scan (c :: '=' :: r') = some ([c, '='], r') := by
  rcases ht with rfl | rfl
  · have hscan : scanAny [['=']] cs = some (l, r) := h
    obtain ⟨hl, hcs⟩ := append_of_scanAny hscan
    obtain rfl : l = ['='] := by simpa using hl
    exact ⟨'=', rfl, rfl, hcs, fun r' => by simp [Terminal.scan, scanAny, scanSpelling,
      Terminal.spellings]⟩
  · have hscan : scanAny [['!']] cs = some (l, r) := h
    obtain ⟨hl, hcs⟩ := append_of_scanAny hscan
    obtain rfl : l = ['!'] := by simpa using hl
    exact ⟨'!', rfl, rfl, hcs, fun r' => by simp [Terminal.scan, scanAny, scanSpelling,
      Terminal.spellings]⟩

/-- A scan that fits gives the lexeme at the place, or it is a lone `=` or `!`
and the lexeme is the operator that begins with it. -/
theorem first?_of_scan {t : Terminal} {cs l r : List Char} (h : t.scan cs = some (l, r)) :
    first? cs = some ⟨t, l⟩ ∨
      ((t = .assign ∨ t = .notOp) ∧
        ∃ r', r = '=' :: r' ∧ first? cs = some ⟨.eqOp, l ++ ['=']⟩) := by
  cases hfirst : first? cs with
  | none => rw [first?_eq_none_iff.1 hfirst t] at h; simp at h
  | some lexeme =>
      obtain ⟨t', l'⟩ := lexeme
      obtain ⟨r', hs'⟩ := scan_of_first? hfirst
      have hkin : t.kin = t'.kin := Terminal.kin_eq_of_scan h hs'
      by_cases hne : t = t'
      · subst hne
        rw [h] at hs'
        simp only [Option.some.injEq, Prod.mk.injEq] at hs'
        exact Or.inl (by rw [hs'.1])
      rcases t.kin_eq_self_or with ht | ht
      · rcases t'.kin_eq_self_or with ht' | ht'
        · exact absurd (ht.symm.trans (hkin.trans ht')) hne
        · have hop : t = .eqOp := by
            rw [← ht, hkin]
            rcases ht' with rfl | rfl <;> rfl
          subst hop
          rw [← hfirst]
          exact Or.inl (first?_eq_of_eqOp h)
      · refine Or.inr ⟨ht, ?_⟩
        obtain ⟨c, hc, rfl, rfl, hlonger⟩ := scan_lone ht h
        rcases t'.kin_eq_self_or with ht' | ht'
        · have hop : t' = .eqOp := by
            rw [← ht', ← hkin]
            rcases ht with rfl | rfl <;> rfl
          subst hop
          have hop : scanAny [['=', '='], ['!', '=']] (c :: r) = some (l', r') := hs'
          obtain ⟨hl', hcs⟩ := append_of_scanAny hop
          have hr : ∃ r'', r = '=' :: r'' := by
            simp only [List.mem_cons, List.not_mem_nil, or_false] at hl'
            rcases hl' with rfl | rfl <;> exact ⟨r', (List.cons.inj hcs).2⟩
          obtain ⟨r'', rfl⟩ := hr
          rw [hlonger] at hs'
          simp only [Option.some.injEq, Prod.mk.injEq] at hs'
          exact ⟨r'', rfl, by rw [← hs'.1]; rfl⟩
        · obtain ⟨c', hc', -, hcs, -⟩ := scan_lone ht' hs'
          obtain rfl : c = c' := (List.cons.inj hcs).1
          have hspell : t.spellings = t'.spellings := hc.trans hc'.symm
          rcases ht with rfl | rfl <;> rcases ht' with rfl | rfl
          · exact absurd rfl hne
          · exact absurd hspell (by decide)
          · exact absurd hspell (by decide)
          · exact absurd rfl hne

/-- Where two texts have the same lexeme in front every scan takes the same from both. -/
theorem scan_of_first?_eq {cs cs' l r : List Char} (hsame : first? cs = first? cs')
    {t : Terminal} (h : t.scan cs = some (l, r)) : ∃ r', t.scan cs' = some (l, r') := by
  rcases first?_of_scan h with hfirst | ⟨ht, _, rfl, hfirst⟩
  · exact scan_of_first? (hsame.symm.trans hfirst)
  · obtain ⟨x, hspell, rfl, -, -⟩ := scan_lone ht h
    obtain ⟨r', hscan'⟩ := scan_of_first? (hsame.symm.trans hfirst)
    have hrest' : cs' = x :: '=' :: r' := (Terminal.append_of_scan hscan').symm
    rcases ht with rfl | rfl <;>
      exact ⟨'=' :: r', by simp [Terminal.scan, scanAny, scanSpelling, hspell, hrest']⟩

theorem scan_eq_none_of_first?_eq {cs cs' : List Char} (hsame : first? cs = first? cs')
    {t : Terminal} (h : t.scan cs = none) : t.scan cs' = none := by
  cases hscan : t.scan cs' with
  | none => rfl
  | some lr =>
      obtain ⟨r, hr⟩ := scan_of_first?_eq hsame.symm hscan
      rw [h] at hr
      simp at hr

end Lexeme

end DecafFrontEnd
