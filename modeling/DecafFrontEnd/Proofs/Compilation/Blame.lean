/-
  DecafFrontEnd/Proofs/Compilation/Blame.lean --- whether the first wrong token is blamed.

  The first wrong token of a text is the first one with which the tokens of the text no
  longer begin those of a program.  The error of a malformed text never blames a token
  behind it.  It blames that token where a program could go on with a rule in front of it.
  Where nothing but a bracket, a separator or a sign can stand, the parse leaves no trace
  of the place, and a token in front is blamed, with which nothing is wrong
  (`Source.blamed_of_malformed`).
-/
import Mathlib.Data.Nat.Order.Lemmas
import DecafFrontEnd.Proofs.Compilation.Listener
import DecafFrontEnd.Proofs.Compilation.Offender
import DecafFrontEnd.Proofs.Grammar.Trace
import DecafFrontEnd.Proofs.Grammar.Whole

set_option autoImplicit false

namespace DecafFrontEnd

open Pattern

/-! ## Programs that tokens begin -/

/-- Some text that parses has tokens that begin with these, wherever they stand. -/
def BeginsProgram (shapes : List (TokenKind × String)) : Prop :=
  ∃ (s : Source) (t : Tree) (ts : List Token), s.parseProgram = .ok t ∧ s.tokenize = .ok ts ∧
    shapes <+: ts.map Token.shape

/-- The text in front of an offset. -/
def Source.cutAt (s : Source) (offset : Nat) : Source :=
  .ofText (String.ofList (takeBytes offset s.chars)) s.name

/-- Behind these tokens a program can go on with a rule, and not only with a bracket, a
separator or a sign. -/
def AwaitsRule (ts : List Token) : Prop :=
  (phrase .program).Opens (ts.filterMap Token.lexeme?)

/-- Up to this index, and no further, some tokens begin those of a program. -/
structure FirstWrong (ts : List Token) (k : Nat) : Prop where
  begins : BeginsProgram ((ts.take k).map Token.shape)
  wrong : ¬ BeginsProgram ((ts.take (k + 1)).map Token.shape)

section

variable {ls : List Lexeme} {ts : List Token} {shapes shapes' : List (TokenKind × String)}
  {j k : Nat}

theorem BeginsProgram.of_prefix (h : BeginsProgram shapes) (hbefore : shapes' <+: shapes) :
    BeginsProgram shapes' := by
  obtain ⟨s, t, ts, hparse, hts, hshapes⟩ := h
  exact ⟨s, t, ts, hparse, hts, hbefore.trans hshapes⟩

/-- Whole lexemes begin the tokens of a program if more lexemes make them one. -/
theorem beginsProgram_of_derivable {behind : List Lexeme}
    (hwhole : ∀ l ∈ ls ++ behind, l.IsWhole)
    (h : Derivable (phrase .program) (ls ++ behind)) : BeginsProgram (ls.map Lexeme.shape) := by
  let s := Source.ofText (String.ofList (Lexeme.written (ls ++ behind))) none
  have hplace : s.firstPlace.rest = Lexeme.written (ls ++ behind) := by
    have hrest : s.firstPlace.rest = skipTrivia s.chars := rfl
    rw [hrest, Source.chars_ofText, String.toList_ofList, Lexeme.skipTrivia_written hwhole]
  obtain ⟨d, hreads, hend, -⟩ := Lexeme.reads_written hwhole hplace
  obtain ⟨t, hparse⟩ := Source.parseProgram_of_reads hreads hend h
  obtain ⟨ts, hts, hshapes⟩ := Source.exists_tokens_of_reads_end hreads hend
  refine ⟨s, t, ts, hparse, hts, ?_⟩
  rw [hshapes, List.map_append, List.append_assoc]
  exact List.prefix_append _ _

/-- Lexemes whose tokens begin those of a program are made one by more lexemes. -/
theorem BeginsProgram.derivable (h : BeginsProgram (ls.map Lexeme.shape ++ shapes)) :
    ∃ behind, (∀ l ∈ behind, l.IsWhole) ∧ Derivable (phrase .program) (ls ++ behind) ∧
      shapes <+: behind.map Lexeme.shape ++ [(.eof, "")] := by
  obtain ⟨s, t, ts, hparse, hts, hbefore⟩ := h
  obtain ⟨ts', hts', hderives⟩ := Source.derives_of_parseProgram hparse
  obtain rfl := Except.ok.inj (hts.symm.trans hts')
  obtain ⟨d, hreads, -⟩ := Source.reads_of_tokenize_ok hts
  have hlexemes : ls <+: ts.filterMap Token.lexeme? := by
    have hfront := ((List.prefix_append _ shapes).trans hbefore).filterMap shapeLexeme?
    rwa [Lexeme.filterMap_shapes, Token.filterMap_shapes] at hfront
  rw [Source.map_shape_of_tokenize hts] at hbefore
  obtain ⟨behind, hbehind⟩ := hlexemes
  rw [← hbehind] at hbefore hderives hreads
  refine ⟨behind, ?_, ⟨_, hderives⟩, ?_⟩
  · obtain ⟨_, -, hmore⟩ := hreads.split
    exact hmore.isWhole_of_mem
  · rwa [List.map_append, List.append_assoc, List.prefix_append_right_inj] at hbefore

/-- The first wrong token is not among tokens that begin those of a program. -/
theorem FirstWrong.le (h : FirstWrong ts k) (hj : BeginsProgram ((ts.take j).map Token.shape)) :
    j ≤ k := by
  by_contra hlt
  exact h.wrong (hj.of_prefix ((List.take_prefix_take_left (by omega)).map _))

end

namespace Source

variable {s : Source} {m : Mismatch} {c d e : Cursor} {ls : List Lexeme} {ts : List Token}
  {j k : Nat}

/-- Tokens of a text that does not parse have a first wrong one. -/
theorem exists_firstWrong (hts : s.tokenize = .ok ts) (hparse : s.parseProgram = .error m) :
    ∃ k, FirstWrong ts k := by
  have hnone : BeginsProgram ((ts.take 0).map Token.shape) := by
    obtain ⟨ls, hls, hwhole⟩ := Rule.productive (r := .phrase .program) rfl
    have hempty : BeginsProgram (([] : List Lexeme).map Lexeme.shape) :=
      beginsProgram_of_derivable hwhole hls
    exact hempty
  have hall : ¬ BeginsProgram ((ts.take ts.length).map Token.shape) := by
    rw [List.take_length, map_shape_of_tokenize hts]
    intro hbegins
    obtain ⟨behind, -, hprogram, hbefore⟩ := hbegins.derivable
    cases behind with
    | nil =>
        rw [List.append_nil] at hprogram
        obtain ⟨d, hreads, hend⟩ := reads_of_tokenize_ok hts
        obtain ⟨t, ht⟩ := parseProgram_of_reads hreads hend hprogram
        simp [hparse] at ht
    | cons l behind =>
        -- no lexeme stands where the text ends
        obtain ⟨_, hshape⟩ := hbefore
        have hfirst : ((.eof, "") : TokenKind × String) = l.shape := (List.cons.inj hshape).1
        have hlexeme := l.shapeLexeme?_shape
        rw [← hfirst] at hlexeme
        simp [shapeLexeme?, TokenKind.terminal?] at hlexeme
  obtain ⟨k, hbegins, hwrong⟩ := Nat.exists_not_and_succ_of_not_zero_of_exists
    (p := fun i => ¬ BeginsProgram ((ts.take i).map Token.shape)) (not_not.2 hnone) ⟨_, hall⟩
  exact ⟨k, not_not.1 hbegins, hwrong⟩

/-- The lexemes in front of the first wrong token lead to its place, which is blocked. -/
theorem exists_place_of_firstWrong (hts : s.tokenize = .ok ts) (hk : FirstWrong ts k) :
    ∃ ls e, ls.length = k ∧ s.firstPlace.Reads ls e ∧ s.firstPlace.Blocks e := by
  obtain ⟨d, hreads, -⟩ := reads_of_tokenize_ok hts
  have hle : k ≤ (ts.filterMap Token.lexeme?).length := by
    have hlength := length_of_tokenize hts
    by_contra hlt
    have hsame : ts.take k = ts.take (k + 1) := by
      rw [List.take_of_length_le (by omega), List.take_of_length_le (by omega)]
    have hwrong := hk.wrong
    rw [← hsame] at hwrong
    exact hwrong hk.begins
  rw [← List.take_append_drop k (ts.filterMap Token.lexeme?)] at hreads
  obtain ⟨e, hfront, -⟩ := hreads.split
  have hlength : ((ts.filterMap Token.lexeme?).take k).length = k := by simp [hle]
  refine ⟨_, e, hlength, hfront, ?_⟩
  intro ls l behind hls hl hbehind hprogram
  obtain rfl := hls.unique hfront
  have hnext := hfront.append (.one hl)
  have hwrong := hk.wrong
  have htake := map_shape_take hts hnext
  rw [List.length_append, hlength, List.length_singleton] at htake
  rw [htake] at hwrong
  refine hwrong (beginsProgram_of_derivable ?_ (by rwa [List.append_assoc]))
  rw [List.forall_mem_append]
  exact ⟨hnext.isWhole_of_mem, hbehind⟩

/-- A place at which a text fails stands in a token that is not behind the first wrong one,
and in that one if a program could go on with a rule there. -/
theorem blamed_index {z x : List Char} (hts : s.tokenize = .ok ts)
    (hparse : s.parseProgram = .error m) (hk : FirstWrong ts k)
    (hreads : s.firstPlace.Reads ls c) (hrest : c.rest = z ++ x)
    (hoffset : m.offset = c.offset + byteLength z)
    (hahead : ∀ {l more e}, c.Reads (l :: more) e → m.offset < e.offset) :
    ls.length ≤ k ∧ (AwaitsRule (ts.take k) → ls.length = k) := by
  obtain ⟨r, hawaits⟩ := exists_awaits_of_parse_error hparse
  obtain ⟨⟨behind, hbehind, hprogram⟩, -⟩ := hawaits.begins hreads hrest hoffset
  have hwhole : ∀ l ∈ ls ++ behind, l.IsWhole := by
    rw [List.forall_mem_append]
    exact ⟨hreads.isWhole_of_mem, hbehind⟩
  have hbegins := beginsProgram_of_derivable hwhole hprogram
  rw [← map_shape_take hts hreads] at hbegins
  have hle := hk.le hbegins
  refine ⟨hle, fun hopens => ?_⟩
  obtain ⟨ls', e, rfl, hplace, hblocks⟩ := exists_place_of_firstWrong hts hk
  rw [AwaitsRule, lexemes_take hts hplace] at hopens
  have hreached := offset_le_of_opens hparse hplace hblocks hopens
  obtain ⟨more, rfl, hmore⟩ := hreads.of_length_le hplace hle
  cases more with
  | nil => rw [List.append_nil]
  | cons l more => exact absurd hreached (Nat.not_le_of_lt (hahead hmore))

/-- A text with tokens that does not parse blames one of them, at a place where a program
could go on with a rule, or inside an operator. -/
theorem exists_blamed (hts : s.tokenize = .ok ts) (hparse : s.parseProgram = .error m)
    (hk : FirstWrong ts k) :
    ∃ j t, ts[j]? = some t ∧ (m.Names t ∧ AwaitsRule (ts.take j) ∨ m.Halves t) ∧ j ≤ k ∧
      (AwaitsRule (ts.take k) → j = k) := by
  obtain ⟨ls, c, hreads, hoffset | ⟨d, hinside, hoffset⟩⟩ := exists_place_of_parse_error hts hparse
  · obtain ⟨t, ht, hnames⟩ := names_of_reads hts hreads m.expected
    rw [← hoffset, ← eq_foundAt_of_parse_error hparse] at hnames
    obtain ⟨r, hawaits⟩ := exists_awaits_of_parse_error hparse
    have hopens := (hawaits.begins (z := []) hreads rfl hoffset).2 rfl
    rw [← lexemes_take hts hreads] at hopens
    refine ⟨_, t, ht, Or.inl ⟨hnames, hopens⟩, ?_⟩
    exact blamed_index (z := []) hts hparse hk hreads rfl hoffset fun hmore => by
      rw [hoffset]
      exact hmore.offset_lt (by simp)
  · obtain ⟨t, ht, hhalves⟩ := halves_of_inside hts hreads hinside m.expected
    rw [← hoffset, ← eq_foundAt_of_parse_error hparse] at hhalves
    have hahead : ∀ {l more e}, c.Reads (l :: more) e → m.offset < e.offset := fun hmore => by
      rw [hoffset]
      exact hinside.offset_lt_of_reads hmore
    obtain ⟨x, r, hrest, -, hadvance⟩ := hinside
    refine ⟨_, t, ht, Or.inr hhalves, ?_⟩
    refine blamed_index (z := [x]) hts hparse hk hreads hrest ?_ hahead
    rw [hoffset, hadvance, Cursor.advance, hrest]
    rfl

/-- Where all tokens of a text in front of its end begin a program, the end is the first
wrong one. -/
theorem firstWrong_of_dropLast (hts : s.tokenize = .ok ts) (hparse : s.parseProgram = .error m)
    (h : BeginsProgram (ts.dropLast.map Token.shape)) :
    ∃ k t, FirstWrong ts k ∧ ts[k]? = some t ∧ t.kind = .eof ∧
      (ts.take k).filterMap Token.lexeme? = ts.filterMap Token.lexeme? := by
  obtain ⟨d, hreads, hend⟩ := reads_of_tokenize_ok hts
  have hlast := getElem?_of_reads_end hts hreads hend
  have hlength := length_of_tokenize hts
  obtain ⟨k, hk⟩ := exists_firstWrong hts hparse
  rw [List.dropLast_eq_take] at h
  have hle := hk.le h
  obtain ⟨ls, e, hindex, hplace, -⟩ := exists_place_of_firstWrong hts hk
  obtain ⟨more, hall, -⟩ := hreads.before_end (by rw [hend]; rfl) hplace
  have hmore := congrArg List.length hall
  rw [List.length_append] at hmore
  obtain rfl : k = (ts.filterMap Token.lexeme?).length := by omega
  exact ⟨_, _, hk, hlast, rfl, lexemes_take hts hreads⟩

/-- The tokens in front of a place are those of the text that is cut off there. -/
theorem exists_tokens_cutAt (hreads : s.firstPlace.Reads ls d) :
    ∃ ts, (s.cutAt d.offset).tokenize = .ok ts ∧ ts.filterMap Token.lexeme? = ls := by
  obtain ⟨before, hchars, hbefore⟩ := reaches_of_reads hreads
  obtain ⟨z, hz, -⟩ := hreads.reaches
  have hsplit : s.chars = before ++ d.rest := hchars
  have htext : (s.cutAt d.offset).chars = before := by
    have hlength : d.offset = byteLength before := by simpa [Cursor.start] using hbefore
    rw [cutAt, chars_ofText, String.toList_ofList, hlength, hsplit, takeBytes_byteLength_append]
  have hstart : (s.cutAt d.offset).firstPlace = s.firstPlace.upTo d.rest := by
    have hplace : (s.cutAt d.offset).firstPlace =
        (Cursor.start (s.cutAt d.offset).chars).skip := rfl
    rw [hplace, htext]
    exact Cursor.skip_start_upTo hsplit hz
  have hfront := hreads.upTo (z := []) rfl
  rw [← hstart] at hfront
  exact tokenize_of_reads hfront (by rw [Cursor.upTo_of_append (z := []) rfl])

/-! ## The error of a malformed text -/

/-- The error of a text without tokens is that of the tokens if a program could go on with
a rule where they end, and otherwise it lies in front of that place. -/
theorem compile_of_tokenize_error {f : LexFailure} {error : SyntaxError}
    (htokens : s.tokenize = .error f) (h : s.compile = .error (.malformed error)) :
    ∃ ts, (s.cutAt f.offset).tokenize = .ok ts ∧
      (AwaitsRule ts → error.origin = .lexer ∧ error.position.offset = f.offset) ∧
      (¬ AwaitsRule ts → error.origin = .parser ∧ error.position.offset < f.offset) := by
  obtain ⟨m, hparse, hle⟩ := offset_le_of_tokenize_error htokens
  obtain ⟨ls, d, hreads, -, hnone, hd⟩ := reads_of_tokenize_error htokens
  obtain ⟨ts, hts, rfl⟩ := exists_tokens_cutAt hreads
  rw [← hd] at hle ⊢
  refine ⟨ts, hts, fun hopens => ?_, fun hopens => ?_⟩
  · have hblocks : s.firstPlace.Blocks d := fun ls l behind _ hl => by simp [hnone] at hl
    have hsame : m.offset = f.offset := by
      have hreached := offset_le_of_opens hparse hreads hblocks hopens
      omega
    obtain rfl := CompileError.malformed.inj
      (Except.error.inj (h.symm.trans (compile_of_same_offset hparse htokens hsame)))
    have hboundary := floorBoundary_of_parseProgram_error hparse
    rw [hsame] at hboundary
    exact ⟨rfl, hboundary.trans hd.symm⟩
  · have hother : m.offset ≠ d.offset := by
      intro hsame
      obtain ⟨r, hawaits⟩ := exists_awaits_of_parse_error hparse
      exact hopens ((hawaits.begins (z := []) hreads rfl hsame).2 rfl)
    have hcompile := compile_of_other_offset hparse fun f' hf' hsame => by
      obtain rfl := Except.error.inj (htokens.symm.trans hf')
      exact hother (hsame.trans hd.symm)
    obtain rfl := CompileError.malformed.inj (Except.error.inj (h.symm.trans hcompile))
    have hplace : (m.event s).error.position.offset = m.offset :=
      Mismatch.position_offset_event hparse
    refine ⟨rfl, ?_⟩
    rw [hplace]
    omega

/-- Where the tokens of a text end before a character that none begins with, the error is
at that character exactly if a program could go on with a rule behind the tokens; else it is
a parse error in front of it.  A text that has tokens has a first wrong one.  The error then
is that of the parse, and it blames a token which is not behind the first wrong one, at a
place where a program could go on with a rule, or inside an `==` or `!=`.  If a program could
go on with a rule in front of the first wrong token, it is this token that is blamed; in
particular the end of the text is blamed if its tokens begin a program and a rule could
follow them. -/
theorem blamed_of_malformed {error : SyntaxError} (h : s.compile = .error (.malformed error)) :
    (∀ f, s.tokenize = .error f → ∃ ts, (s.cutAt f.offset).tokenize = .ok ts ∧
      (AwaitsRule ts → error.origin = .lexer ∧ error.position.offset = f.offset) ∧
      (¬ AwaitsRule ts → error.origin = .parser ∧ error.position.offset < f.offset)) ∧
    ∀ ts, s.tokenize = .ok ts → error.origin = .parser ∧
      ∃ m, s.parseProgram = .error m ∧ error.position.offset = m.offset ∧
        (∃ k, FirstWrong ts k ∧ ∃ j t, ts[j]? = some t ∧
          (m.Names t ∧ AwaitsRule (ts.take j) ∨ m.Halves t) ∧ j ≤ k ∧
          (AwaitsRule (ts.take k) → j = k)) ∧
        (BeginsProgram (ts.dropLast.map Token.shape) → AwaitsRule ts →
          ∃ t ∈ ts, t.kind = .eof ∧ m.Names t) := by
  refine ⟨fun f htokens => compile_of_tokenize_error htokens h, fun ts hts => ?_⟩
  cases hparse : s.parseProgram with
  | ok t =>
      rw [compile_of_parseProgram hparse] at h
      exact absurd h (lowerProgram_ne_malformed hparse error)
  | error m =>
      have hcompile := compile_of_other_offset hparse fun f hf => by simp [hts] at hf
      obtain rfl := CompileError.malformed.inj (Except.error.inj (h.symm.trans hcompile))
      obtain ⟨k, hk⟩ := exists_firstWrong hts hparse
      refine ⟨rfl, m, rfl, Mismatch.position_offset_event hparse,
        ⟨k, hk, exists_blamed hts hparse hk⟩, fun hbegins hopens => ?_⟩
      obtain ⟨k', t, hk', ht, heof, hlexemes⟩ := firstWrong_of_dropLast hts hparse hbegins
      obtain ⟨j, t', ht', hblamed, -, hsame⟩ := exists_blamed hts hparse hk'
      obtain rfl : j = k' := hsame (by rwa [AwaitsRule, hlexemes])
      obtain rfl := Option.some.inj (ht.symm.trans ht')
      refine ⟨t, List.mem_of_getElem? ht, heof, ?_⟩
      obtain ⟨hnames, -⟩ | hhalves := hblamed
      · exact hnames
      · have hkind := hhalves.kind
        simp [heof] at hkind

/-! ## Classes that are not finished -/

/-- A class that has no name yet. -/
def unnamedClass : Source := .ofText "class" none

/-- The word that a class begins with. -/
def classWord : Lexeme := ⟨.keyword .classKw, "class".toList⟩

theorem derivable_classWord : Derivable (kw .classKw) [classWord] :=
  ⟨_, .rule (.lexeme classWord)⟩

/-- A name and an empty body make the word a program. -/
theorem beginsProgram_classWord : BeginsProgram ([classWord].map Lexeme.shape) := by
  let behind := [Terminal.ident.sample, Terminal.lbrace.sample, Terminal.rbrace.sample]
  have hfirst : classWord.IsWhole := Keyword.isWhole .classKw
  have hwhole : ∀ l ∈ [classWord] ++ behind, l.IsWhole := by
    simp [behind, hfirst, Terminal.isWhole_sample]
  obtain ⟨_, hword⟩ := derivable_classWord
  have hname : Derives (term .ident) [Terminal.ident.sample] _ :=
    .rule (.lexeme Terminal.ident.sample)
  have hbody : Derives (Rule.phrase .classDecl).body ([classWord] ++ behind) _ :=
    .seq hword (.seq hname (.seq .absent (.seq (.lexeme Terminal.lbrace.sample)
      (.seq .none (.seq .none (.lexeme Terminal.rbrace.sample))))))
  have hclasses : Derives classes ([classWord] ++ behind ++ []) _ := .seq (.rule hbody) .none
  have hend : Derives (rule .endOfInput) [] _ := .rule .inputEnd
  have hprogram : Derives (Rule.phrase .program).body
      ([] ++ ([classWord] ++ behind ++ [] ++ [])) _ := .seq .inputStart (.seq hclasses hend)
  exact beginsProgram_of_derivable hwhole ⟨_, .rule hprogram⟩

/-- A name can follow the word. -/
theorem opens_classWord : (phrase .program).Opens [classWord] := by
  have hclass : (Rule.phrase .classDecl).body.Opens [classWord] :=
    .second derivable_classWord (.first (.here rfl))
  have hprogram : (Rule.phrase .program).body.Opens [classWord] :=
    .second ⟨[], .inputStart⟩ (.first (.first (.inside hclass)))
  exact .inside hprogram

theorem mismatch_unnamedClass : unnamedClass.parseProgram =
    .error ⟨5, "<EOF>", [.terminal .ident]⟩ := by
  have hchars : unnamedClass = ⟨none, ['c', 'l', 'a', 's', 's'], unnamedClass.lines, rfl⟩ := rfl
  apply parseProgram_eq_error
  rw [hchars]
  decide +kernel

/-- A name can stand where an unnamed class ends, so the end is blamed. -/
theorem blamed_unnamedClass : ∃ error m t, unnamedClass.compile = .error (.malformed error) ∧
    unnamedClass.parseProgram = .error m ∧ m.Names t ∧ t.kind = .eof := by
  obtain ⟨d, hreads, hend⟩ : ∃ d, unnamedClass.firstPlace.Reads [classWord] d ∧ d.rest = [] :=
    ⟨_, .cons rfl (.nil _), rfl⟩
  obtain ⟨ts, hts, hshapes⟩ := exists_tokens_of_reads_end hreads hend
  have hbegins := beginsProgram_classWord
  have hfront : ts.dropLast.map Token.shape = [classWord].map Lexeme.shape := by
    rw [List.map_dropLast, hshapes, List.dropLast_concat]
  rw [← hfront] at hbegins
  have hopens : AwaitsRule ts := by
    rw [AwaitsRule, ← Token.filterMap_shapes, hshapes]
    exact opens_classWord
  have hcompile := compile_of_other_offset mismatch_unnamedClass fun f hf => by simp [hts] at hf
  obtain ⟨-, hparser⟩ := blamed_of_malformed hcompile
  obtain ⟨-, m, hparse, -, -, hlast⟩ := hparser ts hts
  obtain ⟨t, -, heof, hnames⟩ := hlast hbegins hopens
  exact ⟨_, m, t, hcompile, hparse, hnames, heof⟩

/-- A class whose body is not opened before a character that no token begins with. -/
def unopenedClass : Source := .ofText "class A extends B #" none

theorem unopenedClass_chars : unopenedClass =
    ⟨none, ['c', 'l', 'a', 's', 's', ' ', 'A', ' ', 'e', 'x', 't', 'e', 'n', 'd', 's', ' ', 'B',
      ' ', '#'], unopenedClass.lines, rfl⟩ := rfl

theorem tokenize_unopenedClass : unopenedClass.tokenize = .error ⟨18⟩ := by
  rw [unopenedClass_chars]
  decide +kernel

/-- The parse leaves no trace of the bracket that is missing. -/
theorem mismatch_unopenedClass :
    unopenedClass.parseProgram = .error ⟨0, "class", [.phrase .classDecl]⟩ := by
  apply parseProgram_eq_error
  rw [unopenedClass_chars]
  decide +kernel

/-- The text in front of the character goes on to a program, but the start of the class is
blamed, and not the character: only a bracket can follow there. -/
theorem unopenedClass_blames_start : ∃ f error, unopenedClass.tokenize = .error f ∧
    unopenedClass.compile = .error (.malformed error) ∧ f.offset = 18 ∧
    (∃ (s : Source) (t : Tree), takeBytes 18 unopenedClass.chars <+: s.chars ∧
      s.parseProgram = .ok t) ∧
    error.origin = .parser ∧ error.position.offset = 0 := by
  have hcompile := compile_of_other_offset mismatch_unopenedClass fun f hf hsame => by
    obtain rfl := Except.error.inj (tokenize_unopenedClass.symm.trans hf)
    simp at hsame
  refine ⟨_, _, tokenize_unopenedClass, hcompile, rfl, ?_, rfl,
    Mismatch.position_offset_event mismatch_unopenedClass⟩
  let opened := ofText "class A extends B \x7b\x7d" none
  have hchars : opened = ⟨none, ['c', 'l', 'a', 's', 's', ' ', 'A', ' ', 'e', 'x', 't', 'e', 'n',
    'd', 's', ' ', 'B', ' ', '\x7b', '\x7d'], opened.lines, rfl⟩ := rfl
  have hparses : opened.parseProgram.toOption.isSome = true := by
    rw [hchars]
    decide +kernel
  cases ht : opened.parseProgram with
  | error m => simp [ht, Except.toOption] at hparses
  | ok t =>
      refine ⟨opened, t, ?_, ht⟩
      rw [hchars, unopenedClass_chars]
      decide +kernel

end Source

end DecafFrontEnd
