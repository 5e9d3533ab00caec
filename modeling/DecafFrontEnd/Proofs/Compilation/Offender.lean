/-
  DecafFrontEnd/Proofs/Compilation/Offender.lean --- which token a failed parse names.

  A text that has tokens and does not parse fails at a place on course.  Where that is a
  place that lexemes lead to, the parse names the token that starts there, whole
  (`Mismatch.Names`).  The other places on course lie inside an `==` or `!=`: the first
  sign of the operator has been taken for a lone `=` or `!`, and what is named is read
  from the second sign on (`Mismatch.Halves`).  It is then the second sign alone, or that
  sign and the one behind the operator.
-/
import DecafFrontEnd.Proofs.Compilation.Layout

set_option autoImplicit false

namespace DecafFrontEnd

/-! ## Named tokens -/

/-- A mismatch is at the start of a token and names the whole of it. -/
structure Mismatch.Names (m : Mismatch) (t : Token) : Prop where
  offset : m.offset = t.offset
  found : m.found = if t.kind = .eof then endOfInputText else t.text

/-- A mismatch is between the two signs of an operator and names what the second sign
begins. -/
structure Mismatch.Halves (m : Mismatch) (t : Token) : Prop where
  kind : t.kind = .eq ∨ t.kind = .neq
  offset : m.offset = t.offset + 1
  found : m.found = "=" ∨ m.found = "=="

/-! ## What stands at a place -/

namespace Source

variable {s : Source} {ts : List Token} {c : Cursor}

/-- Behind the last character stands the end of the text. -/
theorem foundAt_of_end (hc : (Cursor.start s.chars).Reaches c) (hend : c.rest = []) :
    s.foundAt c.offset = endOfInputText :=
  if_pos (Nat.not_lt.1 fun hlt => (offset_lt_size_iff hc).1 hlt hend)

/-- Where a lexeme starts its text is found. -/
theorem foundAt_of_first? {l : Lexeme} (hc : (Cursor.start s.chars).Reaches c)
    (hl : Lexeme.first? c.rest = some l) : s.foundAt c.offset = String.ofList l.text := by
  have hne : c.rest ≠ [] := by
    intro hnil
    rw [hnil] at hl
    cases hl
  have hinside : ¬ s.size ≤ c.offset := Nat.not_le.2 ((offset_lt_size_iff hc).2 hne)
  rw [foundAt, if_neg hinside, tokenAt_offset hc, hl]
  rfl

/-- What stands at a place that lexemes lead to is a token. -/
theorem names_of_reads {ls : List Lexeme} (h : s.tokenize = .ok ts)
    (hreads : s.firstPlace.Reads ls c) (expected : List Rule) :
    ∃ t, ts[ls.length]? = some t ∧
      Mismatch.Names ⟨c.offset, s.foundAt c.offset, expected⟩ t := by
  have hc := reaches_of_reads hreads
  obtain ⟨d, hd, hend⟩ := reads_of_tokenize_ok h
  have hnone : Lexeme.first? [] = none := rfl
  obtain ⟨more, -, hmore⟩ := hd.before_end (by rw [hend, hnone]) hreads
  cases hmore with
  | nil _ =>
      have ht := getElem?_of_reads_end h hreads hend
      exact ⟨_, ht, rfl, foundAt_of_end hc hend⟩
  | @cons _ _ l _ hl _ =>
      have ht := getElem?_of_reads h hreads hl
      refine ⟨_, ht, rfl, ?_⟩
      exact (foundAt_of_first? hc hl).trans (if_neg (TokenKind.ofLexeme_ne_eof l)).symm

/-- What stands at a place inside an operator begins with its second sign. -/
theorem halves_of_inside {ls : List Lexeme} {m : Cursor} (h : s.tokenize = .ok ts)
    (hreads : s.firstPlace.Reads ls m) (hinside : m.Inside c) (expected : List Rule) :
    ∃ t, ts[ls.length]? = some t ∧
      Mismatch.Halves ⟨c.offset, s.foundAt c.offset, expected⟩ t := by
  have hc : (Cursor.start s.chars).Reaches c :=
    (Cursor.reaches_skip (Cursor.start s.chars)).trans
      (Cursor.OnCourse.reaches ⟨ls, m, hreads, Or.inr hinside⟩)
  obtain ⟨r, hr⟩ := hinside.rest_eq
  obtain ⟨x, r', hrest, hfirst, hadvance⟩ := hinside
  have ht := getElem?_of_reads h hreads hfirst
  obtain ⟨r'', hscan⟩ := Lexeme.scan_of_first? hfirst
  have hop : scanAny [['=', '='], ['!', '=']] m.rest = some ([x, '='], r'') := hscan
  have hx := (append_of_scanAny hop).1
  simp only [List.mem_cons, List.cons.injEq, and_true, List.not_mem_nil, or_false] at hx
  refine ⟨_, ht, ?_, ?_, ?_⟩
  · rcases hx with rfl | rfl
    · exact Or.inl rfl
    · exact Or.inr rfl
  · -- the first sign of the operator is one byte long
    have hsign : byteLength [x] = 1 := by rcases hx with rfl | rfl <;> rfl
    have hoffset : c.offset = m.offset + byteLength [x] := by
      rw [hadvance, Cursor.advance, hrest]
      rfl
    rw [hoffset, hsign]
    rfl
  · -- a lone sign is found unless another one stands behind the operator
    obtain ⟨l, hl⟩ : ∃ l, Lexeme.first? c.rest = some l := by
      have hassign : Terminal.assign.scan c.rest = some (['='], r) := by
        rw [hr]
        simp [Terminal.scan, scanAny, scanSpelling, Terminal.spellings]
      rcases Lexeme.first?_of_scan hassign with hfirst' | ⟨-, _, -, hfirst'⟩
      · exact ⟨_, hfirst'⟩
      · exact ⟨_, hfirst'⟩
    have hfound := foundAt_of_first? hc hl
    obtain ⟨behind, hscan'⟩ := Lexeme.scan_of_first? hl
    rw [hr] at hscan'
    obtain ⟨terminal, text⟩ := l
    rcases Terminal.eq_of_scan_eqSign hscan' with rfl | rfl
    · have hop' : scanAny [['=', '='], ['!', '=']] ('=' :: r) = some (text, behind) := hscan'
      obtain ⟨htext, happend⟩ := append_of_scanAny hop'
      simp only [List.mem_cons, List.not_mem_nil, or_false] at htext
      rcases htext with rfl | rfl
      · exact Or.inr hfound
      · simp at happend
    · have hsign' : scanAny [['=']] ('=' :: r) = some (text, behind) := hscan'
      obtain ⟨htext, -⟩ := append_of_scanAny hsign'
      obtain rfl : text = ['='] := by simpa using htext
      exact Or.inl hfound

/-! ## Failures of texts with tokens -/

/-- A text that has tokens and does not parse fails at a place that lexemes lead to, or
inside an operator that stands there. -/
theorem exists_place_of_parse_error {m : Mismatch} (h : s.tokenize = .ok ts)
    (hparse : s.parseProgram = .error m) : ∃ ls c, s.firstPlace.Reads ls c ∧
      (m.offset = c.offset ∨ ∃ d, c.Inside d ∧ m.offset = d.offset) := by
  obtain ⟨d, hreads, hend⟩ := reads_of_tokenize_ok h
  have halike : s.firstPlace.Alike s.firstPlace :=
    ⟨s.rested_firstPlace, s.rested_firstPlace, _, d, d, hreads, hend, hreads, hend⟩
  obtain ⟨n, c, -, hc, -, hoffset, -⟩ := level_of_parse_error halike hparse hparse
  cases hc with
  | front hls => exact ⟨_, _, hls, Or.inl hoffset⟩
  | inside hls hinside => exact ⟨_, _, hls, Or.inr ⟨_, hinside, hoffset⟩⟩

theorem eq_foundAt_of_parse_error {m : Mismatch} (hparse : s.parseProgram = .error m) :
    m = ⟨m.offset, s.foundAt m.offset, m.expected⟩ := by
  obtain ⟨a, -, rfl⟩ := runs_of_parseProgram_error hparse
  rfl

/-- A text that has tokens and does not parse fails at the start of one of them, which is
named whole, or between the two signs of an `==` or `!=`. -/
theorem names_or_halves_of_parse_error {m : Mismatch} (h : s.tokenize = .ok ts)
    (hparse : s.parseProgram = .error m) : ∃ t ∈ ts, m.Names t ∨ m.Halves t := by
  obtain ⟨ls, c, hreads, hoffset | ⟨d, hinside, hoffset⟩⟩ := exists_place_of_parse_error h hparse
  · obtain ⟨t, ht, hnames⟩ := names_of_reads h hreads m.expected
    rw [← hoffset, ← eq_foundAt_of_parse_error hparse] at hnames
    exact ⟨t, List.mem_of_getElem? ht, Or.inl hnames⟩
  · obtain ⟨t, ht, hhalves⟩ := halves_of_inside h hreads hinside m.expected
    rw [← hoffset, ← eq_foundAt_of_parse_error hparse] at hhalves
    exact ⟨t, List.mem_of_getElem? ht, Or.inr hhalves⟩

/-- A comparison where a statement is looked for. -/
def strayComparison : Source := .ofText "class A\x7bvoid f()\x7bx==1;\x7d\x7d" none

theorem strayComparison_chars : strayComparison =
    ⟨none, ['c', 'l', 'a', 's', 's', ' ', 'A', '\x7b', 'v', 'o', 'i', 'd', ' ', 'f', '(', ')',
      '\x7b', 'x', '=', '=', '1', ';', '\x7d', '\x7d'], strayComparison.lines, rfl⟩ := rfl

/-- Where the tokens of a stray comparison start. -/
theorem tokens_strayComparison : ∃ ts, strayComparison.tokenize = .ok ts ∧
    ts.map Token.offset = [0, 6, 7, 8, 13, 14, 15, 16, 17, 18, 20, 21, 22, 23, 24] := by
  have hoffsets : strayComparison.tokenize.toOption.map (·.map Token.offset) =
      some [0, 6, 7, 8, 13, 14, 15, 16, 17, 18, 20, 21, 22, 23, 24] := by
    rw [strayComparison_chars]
    decide +kernel
  cases hts : strayComparison.tokenize with
  | ok ts =>
      rw [hts] at hoffsets
      exact ⟨ts, rfl, Option.some.inj hoffsets⟩
  | error f => simp [hts, Except.toOption] at hoffsets

/-- A mismatch that is found by running the parse. -/
theorem parseProgram_eq_error {m : Mismatch}
    (h : (match s.parseProgram with
      | .ok _ => none
      | .error m => some m) = some m) : s.parseProgram = .error m := by
  split at h
  · simp at h
  · next hparse => rw [hparse, Option.some.inj h]

/-- The first sign of the comparison is taken for that of an assignment. -/
theorem mismatch_strayComparison :
    strayComparison.parseProgram = .error ⟨19, "=", [.phrase .unaryExpr]⟩ := by
  apply parseProgram_eq_error
  rw [strayComparison_chars]
  decide +kernel

/-- A stray comparison fails inside its operator. -/
theorem names_or_halves_strayComparison : ∃ ts m, strayComparison.tokenize = .ok ts ∧
    strayComparison.parseProgram = .error m ∧ ∃ t ∈ ts, m.Names t ∨ m.Halves t := by
  obtain ⟨ts, hts, -⟩ := tokens_strayComparison
  exact ⟨ts, _, hts, mismatch_strayComparison,
    names_or_halves_of_parse_error hts mismatch_strayComparison⟩

/-- No token of a stray comparison starts where its parse fails. -/
theorem no_token_at_strayComparison : ∃ ts m, strayComparison.tokenize = .ok ts ∧
    strayComparison.parseProgram = .error m ∧ ∀ t ∈ ts, m.offset ≠ t.offset := by
  obtain ⟨ts, hts, hoffsets⟩ := tokens_strayComparison
  refine ⟨ts, _, hts, mismatch_strayComparison, fun t ht hoffset => ?_⟩
  have hmem := List.mem_map_of_mem (f := Token.offset) ht
  rw [hoffsets, ← hoffset] at hmem
  simp at hmem

end Source

end DecafFrontEnd
