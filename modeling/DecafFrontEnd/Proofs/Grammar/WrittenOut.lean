/-
  DecafFrontEnd/Proofs/Grammar/WrittenOut.lean --- lexemes and trivia character by character.

  Each class of lexemes and the trivia, written out, takes what the lexer takes there: a
  reserved word that does not go on, a name that is not reserved, the insides of quotes as
  far as they go, and blanks and comments in turn (`scans_keyword` to
  `Spacing.skips_spaced`).
-/
import DecafFrontEnd.Proofs.Grammar.Lexeme
import DecafFrontEnd.Proofs.Grammar.Scans

set_option autoImplicit false

namespace DecafFrontEnd

open Element

theorem drop_of_append {a b cs : List Char} (h : a ++ b = cs) : cs.drop a.length = b := by
  rw [← h, List.drop_left]

theorem drop_length_takeWhile (p : Char → Bool) (cs : List Char) :
    cs.drop (cs.takeWhile p).length = cs.dropWhile p :=
  drop_of_append List.takeWhile_append_dropWhile

/-! ## Words -/

/-- A run of characters is a word if the word is there and does not go on. -/
theorem takeWhile_eq_iff {p : Char → Bool} {w : List Char} (hw : ∀ x ∈ w, p x = true) :
    ∀ {cs : List Char},
      cs.takeWhile p = w ↔ w <+: cs ∧ oneChar p (cs.drop w.length) = none := by
  induction w with
  | nil =>
      intro cs
      cases cs with
      | nil => simp [oneChar]
      | cons c cs => by_cases hc : p c = true <;> simp [oneChar, hc]
  | cons x w ih =>
      intro cs
      have hx := hw x List.mem_cons_self
      cases cs with
      | nil => simp
      | cons c cs =>
          have hih := @ih (fun y hy => hw y (List.mem_cons_of_mem x hy)) cs
          by_cases hc : c = x
          · subst hc
            simp [hx, hih]
          · have hne : x ≠ c := fun h => hc h.symm
            by_cases hp : p c = true <;> simp [hp, hc, hne]

theorem scans_keyword (k : Keyword) :
    (Terminal.keyword k).element.Scans .tight fun cs => (scanKeyword k cs).map Prod.fst := by
  have hletters : k.spelling.toList.all isWordChar = true := by cases k <;> decide
  have hword := List.all_eq_true.1 hletters
  refine ((scans_word _).seq_tight (scans_rule scans_wordChar).without).congr fun cs => ?_
  by_cases hrun : cs.takeWhile isWordChar = k.spelling.toList
  · obtain ⟨hfits, hends⟩ := (takeWhile_eq_iff hword).1 hrun
    simp [spellingScan, scanKeyword, hrun, hfits, hends]
  · -- either the word is not there, or a longer one begins with it
    have hnot := mt (takeWhile_eq_iff hword).2 hrun
    rw [not_and] at hnot
    by_cases hfits : k.spelling.toList <+: cs
    · have hgoes := hnot hfits
      simp [spellingScan, scanKeyword, hrun, hfits, hgoes]
    · simp [spellingScan, scanKeyword, hrun, hfits]

/-- A choice between classes takes the first lexeme that fits. -/
theorem Pattern.Tries.scans {p : Pattern} {ts : List Terminal} (h : p.Tries ts)
    (hts : ∀ t ∈ ts, t.element.Scans .tight fun cs => (t.scan cs).map Prod.fst) :
    p.element.Scans .tight fun cs => (Lexeme.firstOf ts cs).map Lexeme.text := by
  induction h with
  | term t =>
      refine (scans_rule (r := .terminal t) (hts t (by simp))).congr fun cs => ?_
      simp only [Lexeme.firstOf, List.findSome?_singleton, Option.map_map]
      rfl
  | @alt p q ts us _ _ ihp ihq =>
      have hp := ihp fun t ht => hts t (List.mem_append_left _ ht)
      have hq := ihq fun t ht => hts t (List.mem_append_right _ ht)
      refine (hp.alt hq).congr fun cs => ?_
      rw [Lexeme.firstOf, Lexeme.firstOf, Lexeme.firstOf, List.findSome?_append, Option.map_or]
  | silent _ _ ih => exact scans_rule (ih hts)

/-- A reserved word is at the front of a text if the word there is reserved. -/
theorem isSome_firstOf_keyword (cs : List Char) :
    (Lexeme.firstOf (Keyword.all.map .keyword) cs).isSome =
      isReserved (cs.takeWhile isWordChar) := by
  have hscan : ∀ k : Keyword, (scanKeyword k cs).isSome =
      decide (k.spelling.toList = cs.takeWhile isWordChar) := by
    intro k
    unfold scanKeyword
    by_cases hrun : cs.takeWhile isWordChar = k.spelling.toList
    · simp [hrun]
    · simp [hrun, Ne.symm hrun]
  rw [Bool.eq_iff_iff, Lexeme.firstOf, List.findSome?_isSome_iff, isReserved, List.any_eq_true]
  constructor
  · rintro ⟨t, ht, hsome⟩
    obtain ⟨k, hk, rfl⟩ := List.mem_map.1 ht
    rw [Option.isSome_map] at hsome
    exact ⟨k, hk, (hscan k).symm.trans hsome⟩
  · rintro ⟨k, hk, hspelling⟩
    refine ⟨.keyword k, List.mem_map_of_mem hk, ?_⟩
    rw [Option.isSome_map]
    exact (hscan k).trans hspelling

theorem isWordChar_of_isNameStart {c : Char} (h : isNameStart c = true) :
    isWordChar c = true := by
  simp only [isNameStart, isWordChar, Char.isAlphanum, Bool.or_eq_true] at h ⊢
  exact h.imp_left Or.inl

theorem scans_ident :
    Terminal.ident.element.Scans .tight fun cs => (scanName cs).map Prod.fst := by
  have hkeyword := Pattern.Tries.anyKeyword.scans fun t ht => by
    obtain ⟨k, -, rfl⟩ := List.mem_map.1 ht
    exact scans_keyword k
  have hstart : Element.Scans .tight (one Char.isAlpha <|> word ['_']) (oneChar isNameStart) :=
    (scans_one Char.isAlpha).or (scans_char '_')
  have hrest := (scans_rule scans_wordChar).many (iterates_oneChar isWordChar)
  have hword := (scans_rule (r := .anyKeyword) hkeyword).without.seq_tight
    (hstart.seq_tight hrest)
  refine hword.congr fun cs => ?_
  rw [Option.isSome_map, isSome_firstOf_keyword]
  cases cs with
  | nil => rfl
  | cons c cs =>
      by_cases hc : isNameStart c = true
      · have hchar : isWordChar c = true := isWordChar_of_isNameStart hc
        by_cases hreserved : isReserved (c :: cs.takeWhile isWordChar) = true <;>
          simp [oneChar, scanName, hc, hchar, hreserved]
      · by_cases hchar : isWordChar c = true <;> simp [oneChar, scanName, hc, hchar]

theorem scans_intLit :
    Terminal.intLit.element.Scans .tight fun cs => (scanDigits cs).map Prod.fst := by
  have hdigit := scans_one (s := .tight) Char.isDigit
  refine (hdigit.seq_tight (hdigit.many (iterates_oneChar _))).congr fun cs => ?_
  cases cs with
  | nil => rfl
  | cons c cs => by_cases hc : c.isDigit = true <;> simp [oneChar, scanDigits, hc]

/-! ## Quotes -/

/-- The scan that takes nothing, except in front of a character of a class. -/
def unlessChar (p : Char → Bool) (cs : List Char) : Option (List Char) :=
  if cs.head?.any p then none else some []

/-- The scan of the end of a line. -/
def lineEndScan (cs : List Char) : Option (List Char) :=
  (oneChar (· = '\n') cs).or ((spellingScan ['\r', '\n'] cs).or (oneChar (· = '\r') cs))

theorem isSome_lineEndScan (cs : List Char) :
    (lineEndScan cs).isSome = cs.head?.any isLineBreak := by
  cases cs with
  | nil => rfl
  | cons c cs =>
      by_cases hfeed : c = '\n'
      · simp [lineEndScan, oneChar, isLineBreak, hfeed]
      · by_cases hreturn : c = '\r'
        · simp [lineEndScan, oneChar, isLineBreak, hreturn]
        · have hne : '\r' ≠ c := fun h => hreturn h.symm
          simp [lineEndScan, oneChar, isLineBreak, spellingScan, hfeed, hreturn, hne]

namespace Element

variable {s : Spacing}

theorem scans_lineEnd : lineEnd.Scans s lineEndScan :=
  (scans_char '\n').alt ((scans_word ['\r', '\n']).alt (scans_char '\r'))

theorem Scans.unless {p : Element} {f : List Char → Option (List Char)} {q : Char → Bool}
    (hp : p.Scans s f) (hf : ∀ cs, (f cs).isSome = cs.head?.any q) :
    (Element.without p).Scans s (unlessChar q) :=
  hp.without.congr fun cs => by rw [hf, unlessChar]

theorem scans_any : any.Scans s (oneChar fun _ => true) := scans_one _

/-- One character that is not of a class. -/
theorem Scans.other {p : Element} {q : Char → Bool} (hp : p.Scans .tight (unlessChar q)) :
    (Element.seq p any).Scans .tight (oneChar (!q ·)) := by
  refine (hp.seq_tight scans_any).congr fun cs => ?_
  cases cs with
  | nil => rfl
  | cons c cs => by_cases hc : q c = true <;> simp [unlessChar, oneChar, hc]

theorem scans_unlessLineEnd : (Element.without lineEnd).Scans s (unlessChar isLineBreak) :=
  scans_lineEnd.unless isSome_lineEndScan

theorem scans_unlessSpecial (quote : Char) :
    (Element.without (word [quote] <|> word ['\\'] <|> lineEnd)).Scans s
      (unlessChar fun c => c = quote || c = '\\' || isLineBreak c) := by
  refine ((scans_char quote).alt ((scans_char '\\').alt scans_lineEnd)).unless fun cs => ?_
  rw [Option.isSome_or, Option.isSome_or, isSome_lineEndScan, isSome_oneChar, isSome_oneChar]
  cases cs with
  | nil => rfl
  | cons c cs => simp [Bool.or_assoc]

end Element

/-- What stands for one character between quotes. -/
def quoted (quote : Char) : List Char → Option (List Char)
  | [] => none
  | c :: cs =>
      if c = '\\' then (oneChar (!isLineBreak ·) cs).map (c :: ·)
      else if c = quote || isLineBreak c then none
      else some [c]

theorem scans_inside (quote : Char) : (inside quote).Scans .tight (quoted quote) := by
  have hescape := (scans_char '\\').seq_tight scans_unlessLineEnd.other
  refine (hescape.alt (scans_unlessSpecial quote).other).congr fun cs => ?_
  cases cs with
  | nil => rfl
  | cons c cs =>
      by_cases hc : c = '\\'
      · simp [quoted, oneChar, hc]
      · by_cases hquote : c = quote
        · subst hquote
          simp [quoted, oneChar, hc]
        · cases hline : isLineBreak c <;> simp [quoted, oneChar, hc, hquote, hline]

/-- What stands between double quotes. -/
def quotedRun (quote : Char) : List Char → List Char
  | [] => []
  | [c] => if c = '\\' then [] else if c = quote || isLineBreak c then [] else [c]
  | c :: d :: cs =>
      if c = '\\' then if isLineBreak d then [] else c :: d :: quotedRun quote cs
      else if c = quote || isLineBreak c then [] else c :: quotedRun quote (d :: cs)

theorem iterates_quoted (quote : Char) : Iterates (quoted quote) (quotedRun quote) := by
  intro cs
  fun_cases quotedRun quote cs <;> simp_all [quoted, oneChar, quotedRun]

/-! ## Literals and comments -/

theorem scanCharLit_escape (c : Char) (cs : List Char) :
    (scanCharLit ('\'' :: '\\' :: c :: cs)).map Prod.fst =
      if isLineBreak c then none
      else (oneChar (· = '\'') cs).map fun last => '\'' :: '\\' :: c :: last := by
  unfold scanCharLit
  split
  · next d r heq =>
      obtain ⟨rfl, rfl⟩ : c = d ∧ cs = '\'' :: r := by simpa using heq
      split <;> simp [oneChar]
  · next d r hnot heq =>
      obtain ⟨rfl, rfl, rfl⟩ : '\\' = d ∧ c = '\'' ∧ cs = r := by simpa using heq
      cases cs with
      | nil => rfl
      | cons e cs =>
          have he : e ≠ '\'' := by rintro rfl; exact hnot cs rfl rfl
          simp [oneChar, he]
  · next hnot _ =>
      cases cs with
      | nil => simp [oneChar]
      | cons d cs =>
          have hd : d ≠ '\'' := by rintro rfl; exact hnot c cs rfl
          simp [oneChar, hd]

theorem scanCharLit_plain {c : Char} (hc : c ≠ '\\') (cs : List Char) :
    (scanCharLit ('\'' :: c :: cs)).map Prod.fst =
      if c = '\'' || isLineBreak c then none
      else (oneChar (· = '\'') cs).map fun last => '\'' :: c :: last := by
  unfold scanCharLit
  split
  · next d r heq =>
      obtain ⟨rfl, -⟩ : c = '\\' ∧ cs = d :: '\'' :: r := by simpa using heq
      exact absurd rfl hc
  · next d r _ heq =>
      obtain ⟨rfl, rfl⟩ : c = d ∧ cs = '\'' :: r := by simpa using heq
      by_cases hquote : c = '\''
      · simp [hquote]
      · cases isLineBreak c <;> simp [oneChar, hquote, hc]
  · next hnot =>
      cases cs with
      | nil => simp [oneChar]
      | cons d cs =>
          have hd : d ≠ '\'' := by rintro rfl; exact hnot c cs rfl
          simp [oneChar, hd]

theorem scans_charLit :
    Terminal.charLit.element.Scans .tight fun cs => (scanCharLit cs).map Prod.fst := by
  have hbody := scans_rule (r := .charBody) (scans_inside '\'')
  refine ((scans_char '\'').seq_tight (hbody.seq_tight (scans_char '\''))).congr fun cs => ?_
  cases cs with
  | nil => rfl
  | cons x cs =>
      by_cases hx : x = '\''
      · subst hx
        cases cs with
        | nil => rfl
        | cons c cs =>
            by_cases hc : c = '\\'
            · subst hc
              cases cs with
              | nil => rfl
              | cons d cs =>
                  rw [scanCharLit_escape]
                  cases hline : isLineBreak d <;>
                    simp [oneChar, quoted, hline, Function.comp_def]
            · rw [scanCharLit_plain hc]
              by_cases hquote : c = '\''
              · simp [oneChar, quoted, hquote]
              · cases hline : isLineBreak c <;>
                  simp [oneChar, quoted, hc, hquote, hline, Function.comp_def]
      · simp [scanCharLit, oneChar, hx]

/-- Between double quotes the scan goes as far as it can, and a quote must follow. -/
theorem scanStringTail_eq (cs : List Char) :
    (scanStringTail cs).map Prod.fst =
      (oneChar (· = '"') (cs.drop (quotedRun '"' cs).length)).map (quotedRun '"' cs ++ ·) := by
  fun_induction scanStringTail cs with
  | case1 => rfl
  | case2 rest => cases rest <;> simp [quotedRun, oneChar]
  | case3 c rest hline => simp [quotedRun, hline, oneChar]
  | case4 c rest hline ih =>
      have hrun : quotedRun '"' ('\\' :: c :: rest) = '\\' :: c :: quotedRun '"' rest := by
        simp [quotedRun, hline]
      have hih := congrArg (Option.map (['\\', c] ++ ·)) ih
      rw [Option.map_map, Option.map_map] at hih
      rw [hrun, Option.map_map]
      exact hih
  | case5 c rest hquote hescape hstop =>
      have hne : c ≠ '"' := hquote
      by_cases hc : c = '\\'
      · subst hc
        cases rest with
        | nil => rfl
        | cons d rest => exact absurd rfl (hescape d rest rfl)
      · have hline : isLineBreak c = true := by simpa [hc] using hstop
        cases rest <;> simp [quotedRun, oneChar, hc, hne, hline]
  | case6 c rest hquote _ hstop ih =>
      have hne : c ≠ '"' := hquote
      have hrun : quotedRun '"' (c :: rest) = c :: quotedRun '"' rest := by
        cases rest <;> simp_all [quotedRun]
      have hih := congrArg (Option.map ([c] ++ ·)) ih
      rw [Option.map_map, Option.map_map] at hih
      rw [hrun, Option.map_map]
      exact hih

theorem scans_stringLit :
    Terminal.stringLit.element.Scans .tight fun cs => (scanStringLit cs).map Prod.fst := by
  have hbody := (scans_inside '"').many (iterates_quoted '"')
  refine ((scans_char '"').seq_tight (hbody.seq_tight (scans_char '"'))).congr fun cs => ?_
  cases cs with
  | nil => rfl
  | cons c cs =>
      by_cases hc : c = '"'
      · subst hc
        have htail := congrArg (Option.map (['"'] ++ ·)) (scanStringTail_eq cs)
        rw [Option.map_map] at htail
        simp only [scanStringLit, Option.map_map]
        exact htail.symm
      · simp [scanStringLit, oneChar, hc]

theorem scans_comment :
    Rule.comment.element.Scans .tight fun cs => (scanComment cs).map Prod.fst := by
  have hline := scans_unlessLineEnd.other.many (iterates_oneChar _)
  refine ((scans_word ['/', '/']).seq_tight hline).congr fun cs => ?_
  unfold scanComment
  split
  · simp [spellingScan]
  · next hnot =>
      have hfits : ['/', '/'].isPrefixOf cs = false := by
        rw [Bool.eq_false_iff]
        intro h
        obtain ⟨r, rfl⟩ := List.isPrefixOf_iff_prefix.1 h
        exact hnot r rfl
      simp [spellingScan, hfits]

/-! ## Trivia -/

/-- Trivia that begins inside a comment: the rest of the line and the trivia behind it. -/
theorem splitTriviaFrom_true (cs : List Char) :
    (splitTriviaFrom true cs).1 =
      cs.takeWhile (!isLineBreak ·) ++ leadingTrivia (cs.dropWhile (!isLineBreak ·)) := by
  induction cs with
  | nil => rfl
  | cons c cs ih =>
      cases hline : isLineBreak c with
      | false => simp [splitTriviaFrom, hline, ih]
      | true =>
          have hblank := isBlank_of_isLineBreak hline
          simp [splitTriviaFrom, leadingTrivia, splitTrivia, hline, hblank]

theorem append_of_scanComment {cs text r : List Char} (h : scanComment cs = some (text, r)) :
    text ++ r = cs := by
  unfold scanComment at h
  split at h
  · next cs =>
      obtain ⟨rfl, rfl⟩ : '/' :: '/' :: cs.takeWhile (!isLineBreak ·) = text ∧
          cs.dropWhile (!isLineBreak ·) = r := by simpa using h
      simp
  · simp at h

/-- Trivia that begins with a comment. -/
theorem leadingTrivia_of_scanComment {cs text r : List Char}
    (h : scanComment cs = some (text, r)) : leadingTrivia cs = text ++ leadingTrivia r := by
  unfold scanComment at h
  split at h
  · next cs =>
      obtain ⟨rfl, rfl⟩ : '/' :: '/' :: cs.takeWhile (!isLineBreak ·) = text ∧
          cs.dropWhile (!isLineBreak ·) = r := by simpa using h
      have hslash : isLineBreak '/' = false := by decide
      simpa [leadingTrivia, splitTrivia, splitTriviaFrom, isBlank, hslash] using
        splitTriviaFrom_true cs
  · simp at h

/-- Where neither a blank nor a comment begins there is no trivia. -/
theorem leadingTrivia_of_neither {c : Char} {cs : List Char} (hblank : isBlank c = false)
    (h : scanComment (c :: cs) = none) : leadingTrivia (c :: cs) = [] := by
  have hslash : ¬ (c = '/' ∧ cs.head? = some '/') := by
    rintro ⟨rfl, hhead⟩
    obtain ⟨r, rfl⟩ := List.head?_eq_some_iff.1 hhead
    simp [scanComment] at h
  simp [leadingTrivia, splitTrivia, splitTriviaFrom, hblank, hslash]

theorem leadingTrivia_of_isBlank {c : Char} {cs : List Char} (h : isBlank c = true) :
    leadingTrivia (c :: cs) = c :: leadingTrivia cs := by
  simp [leadingTrivia, splitTrivia, splitTriviaFrom, h]

theorem iterates_trivia : Iterates
    (fun cs => (oneChar isBlank cs).or ((scanComment cs).map Prod.fst)) leadingTrivia := by
  intro cs
  cases cs with
  | nil => rfl
  | cons c cs =>
      cases hblank : isBlank c with
      | true => simp [oneChar, hblank, leadingTrivia_of_isBlank]
      | false =>
          cases hcomment : scanComment (c :: cs) with
          | none =>
              rw [leadingTrivia_of_neither hblank hcomment]
              simp [oneChar, hblank, hcomment]
          | some x =>
              have hdrop := drop_of_append (append_of_scanComment hcomment)
              rw [leadingTrivia_of_scanComment hcomment]
              simp [oneChar, hblank, hcomment, hdrop]

/-- The trivia at the front of a text, if it begins with a comment. -/
def commentsRun (cs : List Char) : List Char :=
  if (scanComment cs).isSome then leadingTrivia cs else []

theorem leadingTrivia_eq_append (cs : List Char) :
    leadingTrivia cs = cs.takeWhile isBlank ++ commentsRun (cs.dropWhile isBlank) := by
  induction cs with
  | nil => rfl
  | cons c cs ih =>
      cases hblank : isBlank c with
      | true => simp [leadingTrivia_of_isBlank, hblank, ih]
      | false =>
          cases hcomment : scanComment (c :: cs) with
          | none => simp [hblank, commentsRun, hcomment, leadingTrivia_of_neither hblank hcomment]
          | some x => simp [hblank, commentsRun, hcomment]

theorem iterates_comments : Iterates
    (fun cs => ((scanComment cs).map Prod.fst).bind fun text =>
      (some ((cs.drop text.length).takeWhile isBlank)).map (text ++ ·)) commentsRun := by
  intro cs
  cases hcomment : scanComment cs with
  | none => simp [commentsRun, hcomment]
  | some x =>
      have hdrop := drop_of_append (append_of_scanComment hcomment)
      have hsplit : commentsRun cs =
          x.1 ++ (x.2.takeWhile isBlank ++ commentsRun (x.2.dropWhile isBlank)) := by
        rw [← leadingTrivia_eq_append, ← leadingTrivia_of_scanComment hcomment, commentsRun,
          hcomment]
        rfl
      rw [hsplit]
      simp only [hcomment, Option.map_some, Option.bind_some, hdrop, List.length_append,
        ← List.drop_drop, drop_length_takeWhile, List.append_assoc]

theorem scans_trivia : Rule.trivia.element.Scans .tight fun cs => some (leadingTrivia cs) :=
  ((scans_rule scans_blank).alt (scans_rule scans_comment)).many iterates_trivia

/-- What stands between two parts is all the trivia there. -/
theorem Spacing.skips_spaced : Spacing.spaced.Skips leadingTrivia := by
  have hblanks := (scans_rule scans_blank).many (iterates_oneChar isBlank)
  have hcomments := ((scans_rule scans_comment).seq_tight hblanks).many iterates_comments
  refine (hblanks.seq_tight hcomments).congr fun cs => ?_
  simp [drop_length_takeWhile, ← leadingTrivia_eq_append]

end DecafFrontEnd
