/-
  DecafFrontEnd/Proofs/Lexical/Spelling.lean --- which texts are tokens.

  `TokenKind.Spells` says for each kind of tokens which texts are tokens of it, and
  nothing about what stands behind them or in which order the kinds are tried.  The
  lexeme at the front of a text is a token in this sense (`Lexeme.spells_of_first?`),
  and of all tokens that the text begins with it is the longest
  (`Lexeme.length_le_of_first?`); where there is no lexeme the text begins with no
  token (`Lexeme.first?_eq_none_iff_spells`).
-/
import DecafFrontEnd.Proofs.Lexical.Reading

set_option autoImplicit false

namespace DecafFrontEnd

/-! ## The tokens of the language -/

/-- The texts of words: letters, digits and underscores, without a digit in front. -/
def IsWordText (w : List Char) : Prop :=
  (∃ c ∈ w.head?, isNameStart c = true) ∧ ∀ c ∈ w, isWordChar c = true

/-- The texts of a kind of tokens. The end of the text is no token that is spelled. -/
def TokenKind.Spells : TokenKind → List Char → Prop
  | keyword k, w => w = k.spelling.toList
  | ident, w => IsWordText w ∧ ∀ k : Keyword, w ≠ k.spelling.toList
  | intLit, w => w ≠ [] ∧ ∀ c ∈ w, c.isDigit = true
  | charLit, w => IsCharLit w
  | stringLit, w => IsStringLit w
  | lparen, w => w = ['(']
  | rparen, w => w = [')']
  | lbrace, w => w = ['\x7b']
  | rbrace, w => w = ['\x7d']
  | lbrack, w => w = ['[']
  | rbrack, w => w = [']']
  | semi, w => w = [';']
  | comma, w => w = [',']
  | dot, w => w = ['.']
  | not, w => w = ['!']
  | plus, w => w = ['+']
  | minus, w => w = ['-']
  | mult, w => w = ['*']
  | div, w => w = ['/']
  | leq, w => w = ['<', '=']
  | geq, w => w = ['>', '=']
  | lt, w => w = ['<']
  | gt, w => w = ['>']
  | eq, w => w = ['=', '=']
  | neq, w => w = ['!', '=']
  | and, w => w = ['&', '&']
  | or, w => w = ['|', '|']
  | assign, w => w = ['=']
  | eof, _ => False

/-! ## Words -/

theorem isReserved_iff {w : List Char} :
    isReserved w = true ↔ ∃ k : Keyword, w = k.spelling.toList := by
  simp only [isReserved, List.any_eq_true, decide_eq_true_eq]
  constructor
  · rintro ⟨k, -, hk⟩
    exact ⟨k, hk.symm⟩
  · rintro ⟨k, hk⟩
    exact ⟨k, k.mem_all, hk.symm⟩

theorem Keyword.isWordText_spelling (k : Keyword) : IsWordText k.spelling.toList := by
  cases k <;> exact ⟨⟨_, rfl, by decide⟩, List.all_eq_true.1 (by decide)⟩

theorem isLineBreak_of_isWordChar {c : Char} (h : isWordChar c = true) :
    isLineBreak c = false := by
  cases hbreak : isLineBreak c with
  | false => rfl
  | true =>
      simp only [isLineBreak, Bool.or_eq_true, decide_eq_true_eq] at hbreak
      obtain rfl | rfl := hbreak <;> exact absurd h (by decide)

theorem isWordChar_of_isDigit {c : Char} (h : c.isDigit = true) : isWordChar c = true := by
  simp [isWordChar, Char.isAlphanum, h]

namespace TokenKind

variable {kind : TokenKind} {w cs l r : List Char}

/-! ## Lines -/

/-- No token runs over the end of a line. -/
theorem Spells.no_line_break (h : kind.Spells w) : ∀ c ∈ w, isLineBreak c = false := by
  cases kind with
  | keyword k =>
      obtain rfl : w = k.spelling.toList := h
      intro c hc
      exact isLineBreak_of_isWordChar (k.isWordText_spelling.2 c hc)
  | ident =>
      intro c hc
      exact isLineBreak_of_isWordChar (h.1.2 c hc)
  | intLit =>
      intro c hc
      exact isLineBreak_of_isWordChar (isWordChar_of_isDigit (h.2 c hc))
  | charLit => exact IsCharLit.no_line_break h
  | stringLit => exact IsStringLit.no_line_break h
  | eof => exact h.elim
  | _ =>
      unfold Spells at h
      have hall : w.all (fun c => !isLineBreak c) = true := by
        rw [h]
        decide
      simpa using hall

/-! ## What a scan takes is a token -/

/-- What a scan takes is a token of the kind that it is given. -/
theorem spells_of_scan {t : Terminal} (h : t.scan cs = some (l, r)) :
    (ofLexeme ⟨t, l⟩).Spells l := by
  cases t with
  | keyword k =>
      simp only [Terminal.scan, scanKeyword] at h
      split at h
      · next hw =>
          obtain ⟨rfl, -⟩ : cs.takeWhile isWordChar = l ∧ _ := by simpa using h
          exact hw
      · simp at h
  | ident =>
      simp only [Terminal.scan, scanName] at h
      split at h
      · simp at h
      · next c w hw =>
          split at h
          · next hname =>
              obtain ⟨rfl, -⟩ : c :: w = l ∧ _ := by simpa using h
              simp only [Bool.and_eq_true, Bool.not_eq_true'] at hname
              refine ⟨⟨⟨c, rfl, hname.1⟩, ?_⟩, ?_⟩
              · rw [← hw]
                exact List.all_eq_true.1 List.all_takeWhile
              · intro k hk
                rw [hk, isReserved_spelling] at hname
                simp at hname
          · simp at h
  | intLit =>
      simp only [Terminal.scan, scanDigits] at h
      split at h
      · simp at h
      · next c w hw =>
          obtain ⟨rfl, -⟩ : c :: w = l ∧ _ := by simpa using h
          refine ⟨by simp, ?_⟩
          rw [← hw]
          exact List.all_eq_true.1 List.all_takeWhile
  | charLit => exact ((scanCharLit_iff cs l r).1 h).1
  | stringLit => exact ((scanStringLit_iff cs l r).1 h).1
  | _ =>
      obtain ⟨hmem, -⟩ := append_of_scanAny h
      simp only [Terminal.spellings, List.mem_cons, List.not_mem_nil, or_false] at hmem
      obtain rfl | rfl | rfl | rfl := hmem <;> rfl

/-! ## A scan takes every token -/

/-- Of several spellings, longer ones first, one is taken that is as long as any that
the text begins with. -/
theorem exists_scanAny_of_mem {ss : List (List Char)}
    (hss : ss.Pairwise fun a b => b.length ≤ a.length) (hmem : w ∈ ss) (r : List Char) :
    ∃ l r', scanAny ss (w ++ r) = some (l, r') ∧ w.length ≤ l.length := by
  induction ss with
  | nil => simp at hmem
  | cons s ss ih =>
      obtain ⟨hfirst, hlater⟩ := List.pairwise_cons.1 hss
      unfold scanAny
      rw [List.findSome?_cons]
      unfold scanSpelling
      by_cases hs : s.isPrefixOf (w ++ r)
      · rw [if_pos hs]
        refine ⟨s, _, rfl, ?_⟩
        obtain rfl | hw := List.mem_cons.1 hmem
        · exact Nat.le_refl _
        · exact hfirst w hw
      · rw [if_neg hs]
        obtain rfl | hw := List.mem_cons.1 hmem
        · exact absurd (List.isPrefixOf_iff_prefix.2 (List.prefix_append w r)) hs
        · exact ih hlater hw

/-- The kinds of the operators and the marks. -/
def IsMark : TokenKind → Prop
  | keyword _ | ident | intLit | charLit | stringLit | eof => False
  | _ => True

/-- An operator or a mark is one of the spellings of its class, which are sought longer
ones first. -/
theorem Spells.exists_spelling (h : kind.Spells w) (hmark : kind.IsMark) :
    ∃ t, kind.terminal? = some t ∧ t.scan = scanAny t.spellings ∧ w ∈ t.spellings ∧
      t.spellings.Pairwise fun a b => b.length ≤ a.length := by
  cases kind with
  | keyword | ident | intLit | charLit | stringLit | eof => exact hmark.elim
  | _ =>
      unfold Spells at h
      subst h
      exact ⟨_, rfl, rfl, by decide, by decide⟩

/-- A word in front of a text is a reserved word or the beginning of a longer one, or
the same for a name. -/
theorem exists_scan_of_isWordText (h : IsWordText w) (r : List Char) :
    ∃ (t : Terminal) (l r' : List Char), t.scan (w ++ r) = some (l, r') ∧
      w.length ≤ l.length := by
  obtain ⟨⟨c, hc, hstart⟩, hall⟩ := h
  have hrun : (w ++ r).takeWhile isWordChar = w ++ r.takeWhile isWordChar :=
    List.takeWhile_append_of_pos hall
  have hlength : w.length ≤ (w ++ r.takeWhile isWordChar).length := by simp
  by_cases hreserved : isReserved (w ++ r.takeWhile isWordChar) = true
  · obtain ⟨k, hk⟩ := isReserved_iff.1 hreserved
    refine ⟨.keyword k, w ++ r.takeWhile isWordChar, (w ++ r).dropWhile isWordChar, ?_, hlength⟩
    simp only [Terminal.scan, scanKeyword, hrun]
    exact if_pos hk
  · obtain ⟨w', rfl⟩ : ∃ w', w = c :: w' := List.head?_eq_some_iff.1 hc
    refine ⟨.ident, (c :: w') ++ r.takeWhile isWordChar,
      ((c :: w') ++ r).dropWhile isWordChar, ?_, hlength⟩
    rw [List.cons_append] at hreserved hrun
    simp only [Terminal.scan, scanName, List.cons_append, hrun]
    exact if_pos (by simp [hstart, hreserved])

/-- Where a text begins with a token there is a scan that takes at least as much. -/
theorem Spells.exists_scan (h : kind.Spells w) (r : List Char) :
    ∃ (t : Terminal) (l r' : List Char), t.scan (w ++ r) = some (l, r') ∧
      w.length ≤ l.length := by
  by_cases hmark : kind.IsMark
  · obtain ⟨t, -, hscan, hmem, hlonger⟩ := h.exists_spelling hmark
    obtain ⟨l, r', htake, hle⟩ := exists_scanAny_of_mem hlonger hmem r
    exact ⟨t, l, r', by rw [hscan, htake], hle⟩
  cases kind with
  | keyword k =>
      obtain rfl : w = k.spelling.toList := h
      exact exists_scan_of_isWordText k.isWordText_spelling r
  | ident => exact exists_scan_of_isWordText h.1 r
  | intLit =>
      obtain ⟨hne, hall⟩ := h
      obtain ⟨c, w, rfl⟩ := List.exists_cons_of_ne_nil hne
      have hrun : ((c :: w) ++ r).takeWhile Char.isDigit = c :: (w ++ r.takeWhile Char.isDigit) :=
        List.takeWhile_append_of_pos hall
      refine ⟨.intLit, c :: (w ++ r.takeWhile Char.isDigit),
        ((c :: w) ++ r).dropWhile Char.isDigit, ?_, by simp⟩
      simp only [Terminal.scan, scanDigits, hrun]
  | charLit => exact ⟨.charLit, w, r, (scanCharLit_iff _ _ _).2 ⟨h, rfl⟩, Nat.le_refl _⟩
  | stringLit => exact ⟨.stringLit, w, r, (scanStringLit_iff _ _ _).2 ⟨h, rfl⟩, Nat.le_refl _⟩
  | eof => exact h.elim
  | _ => exact absurd trivial hmark

end TokenKind

/-! ## The lexeme at a place -/

namespace Lexeme

variable {cs w : List Char} {l : Lexeme} {kind : TokenKind}

/-- The lexeme at the front of a text is a token. -/
theorem spells_of_first? (h : first? cs = some l) :
    (TokenKind.ofLexeme l).Spells l.text ∧ l.text <+: cs := by
  obtain ⟨r, hscan⟩ := scan_of_first? h
  exact ⟨TokenKind.spells_of_scan hscan, r, Terminal.append_of_scan hscan⟩

/-- It is the longest of all tokens that the text begins with. -/
theorem length_le_of_first? (h : first? cs = some l) (hspells : kind.Spells w)
    (hw : w <+: cs) : w.length ≤ l.text.length := by
  obtain ⟨r, rfl⟩ := hw
  obtain ⟨t, text, r', hscan, hle⟩ := hspells.exists_scan r
  obtain hfirst | ⟨-, -, -, hfirst⟩ := first?_of_scan hscan
  · obtain rfl := Option.some.inj (h.symm.trans hfirst)
    exact hle
  · -- the text begins with an operator of which the scan takes the first sign only
    obtain rfl := Option.some.inj (h.symm.trans hfirst)
    simp only [List.length_append]
    omega

/-- Where there is no lexeme a text begins with no token. -/
theorem first?_eq_none_iff_spells :
    first? cs = none ↔ ∀ (kind : TokenKind) (w : List Char), kind.Spells w → ¬ w <+: cs := by
  rw [first?_eq_none_iff]
  constructor
  · rintro h kind w hspells ⟨r, rfl⟩
    obtain ⟨t, text, r', hscan, -⟩ := hspells.exists_scan r
    rw [h t] at hscan
    simp at hscan
  · intro h t
    cases hscan : t.scan cs with
    | none => rfl
    | some lr =>
        have hprefix : lr.1 <+: cs := ⟨lr.2, Terminal.append_of_scan hscan⟩
        exact absurd hprefix (h _ _ (TokenKind.spells_of_scan hscan))

/-- A lexeme is a reserved word exactly if it is spelled like one. -/
theorem ofLexeme_eq_keyword_iff (h : first? cs = some l) (k : Keyword) :
    TokenKind.ofLexeme l = .keyword k ↔ l.text = k.spelling.toList := by
  obtain ⟨hspells, r, hr⟩ := spells_of_first? h
  constructor
  · intro hkind
    rw [hkind] at hspells
    exact hspells
  · intro htext
    obtain ⟨r', hscan⟩ := scan_of_first? h
    obtain ⟨c, hc, hlead⟩ := Terminal.ofLead_of_scan hscan
    obtain ⟨⟨c', hc', hstart⟩, -⟩ := k.isWordText_spelling
    -- a spelling begins as a name does, so that the class is a reserved word or a name
    have hsame : c = c' := by
      obtain ⟨w, hw⟩ := List.head?_eq_some_iff.1 hc'
      rw [← hr, htext, hw] at hc
      exact (Option.some.inj hc).symm
    have hname : Terminal.ofLead c' = .ident := by simp [Terminal.ofLead, hstart]
    rw [hsame, hname] at hlead
    obtain ⟨t, text⟩ := l
    cases t with
    | keyword k' =>
        have hk : text = k'.spelling.toList := hspells
        have hkk : k' = k := Keyword.spelling_injective (hk.symm.trans htext)
        rw [hkk]
        rfl
    | ident => exact absurd htext (hspells.2 k)
    | _ => simp [Terminal.family, Terminal.kin] at hlead

end Lexeme

end DecafFrontEnd
