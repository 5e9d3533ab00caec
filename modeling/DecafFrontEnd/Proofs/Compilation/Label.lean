/-
  DecafFrontEnd/Proofs/Compilation/Label.lean --- what the label of an error is on.

  The label of an error is on a range of whole characters that starts at the position of the
  error (`Source.Labels`).  What its text is depends on the sort of the error
  (`Source.Explains`): the character that no token begins with, what the parse found in the
  way, a construct from its first token to its last, or a literal.  The parts about a parse
  rest on where a parse can fail: never in front of the first lexeme, in trivia or inside a
  character, but at a place on course (`Source.exists_found_of_parse_error`).
-/
import DecafFrontEnd.Proofs.Compilation.Kept
import DecafFrontEnd.Proofs.Compilation.Obstacle
import DecafFrontEnd.Proofs.Compilation.Offender

set_option autoImplicit false

namespace DecafFrontEnd

/-! ## Labels -/

/-- The label of an error is on a text of whole characters at the error's position. -/
structure Source.Labels (s : Source) (e : CompileError) (text : List Char) : Prop where
  offset : e.span.offset = e.position.offset
  within : e.span.offset + e.span.length ≤ s.size
  starts : isBoundary s.chars e.span.offset = true
  stops : isBoundary s.chars (e.span.offset + e.span.length) = true
  text : s.textOf e.span = text

/-- A text that is not empty, stands in one line and begins neither with a blank nor with a
comment. -/
structure IsUnbroken (text : List Char) : Prop where
  ne_nil : text ≠ []
  oneLine : ∀ c ∈ text, isLineBreak c = false
  noBlank : ∀ c ∈ text.head?, isBlank c = false
  noComment : ¬ ['/', '/'] <+: text

/-- What the text of a label is, by the sort of the error: the one character that no token
begins with; nothing at the end of the text, or else what the parse names as found; the
construct that cannot be lowered, and no more; the literal that has no value. -/
def Source.Explains (s : Source) (e : CompileError) (text : List Char) : Prop :=
  match e with
  | .malformed ⟨.lexer, message, _, _, span⟩ =>
      ∃ f c, s.tokenize = .error f ∧ span.offset = f.offset ∧ text = [c] ∧
        message = unrecognizedMessage (String.ofList [c])
  | .malformed ⟨.parser, message, _, _, span⟩ =>
      ∃ m, s.parseProgram = .error m ∧ span.offset = m.offset ∧
        message = mismatchMessage m.message ∧
        if m.found = endOfInputText then text = [] ∧ span.offset = s.size
        else text = m.found.toList ∧ IsUnbroken text
  | .unsupported _ _ _ span =>
      ∃ t ts, s.parseProgram = .ok t ∧ s.tokenize = .ok ts ∧
        ∃ o ∈ t.obstacles, e = o.error s ∧ s.Exact ts o.node span
  | .internal defect _ _ span =>
      ∃ t ts, s.parseProgram = .ok t ∧ s.tokenize = .ok ts ∧
        ∃ o ∈ t.obstacles, e = o.error s ∧ s.Exact ts o.node span ∧
          ∃ cause, defect = .literal cause ∧ text = cause.lexeme.toList

/-! ## Why a text is not compiled -/

/-- The errors that a text can be given: that of its tokens, that of its parse, or that of
an obstacle in its tree. -/
inductive Source.Stops (s : Source) : CompileError → Prop
  | lexer {f : LexFailure} : s.tokenize = .error f → Stops s (.malformed (f.event s).error)
  | parser {m : Mismatch} : s.parseProgram = .error m →
      (∀ f, s.tokenize = .error f → m.offset ≠ f.offset) →
      Stops s (.malformed (m.event s).error)
  | obstacle {t : Tree} {o : Obstacle} : s.parseProgram = .ok t → o ∈ t.obstacles →
      Stops s (o.error s)

theorem Source.stops_of_compile_error {s : Source} {e : CompileError}
    (h : s.compile = .error e) : s.Stops e := by
  cases hparse : s.parseProgram with
  | ok t =>
      rw [compile_of_parseProgram hparse] at h
      obtain ⟨o, ho, rfl⟩ := exists_obstacle_of_lowerProgram_error hparse h
      exact .obstacle hparse ho
  | error m =>
      obtain ⟨f, htokens, -, hcompile⟩ | ⟨hother, hcompile⟩ := compile_of_parseProgram_error hparse
      · obtain rfl := Except.error.inj (h.symm.trans hcompile)
        exact .lexer htokens
      · obtain rfl := Except.error.inj (h.symm.trans hcompile)
        exact .parser hparse hother

theorem Source.stops_of_tokens_error {s : Source} {e : CompileError} (h : s.tokens = .error e) :
    s.Stops e := by
  cases htokens : s.tokenize with
  | ok ts => simp [tokens, htokens] at h
  | error f =>
      obtain rfl := Except.error.inj (h.symm.trans (tokens_of_tokenize_error htokens))
      exact .lexer htokens

/-! ## Ranges at a place -/

namespace Source

variable {s : Source} {c d : Cursor} {text : List Char}

/-- A range at a place with its text lies within the whole text. -/
theorem clampSpan_of_rest {r : List Char} (hc : (Cursor.start s.chars).Reaches c)
    (hrest : c.rest = text ++ r) :
    s.clampSpan ⟨c.offset, byteLength text⟩ = ⟨c.offset, byteLength text⟩ := by
  have hsize := offset_add_byteLength_rest hc
  rw [hrest, byteLength_append] at hsize
  have hstart : c.offset ≤ s.size := by omega
  have hroom : byteLength text ≤ s.size - c.offset := by omega
  simp only [clampSpan, Span.clamp, if_pos hstart, if_pos hroom]

/-- An error at a place with the bytes of the text there. -/
theorem labels_of_rest {e : CompileError} {r : List Char}
    (hc : (Cursor.start s.chars).Reaches c) (hrest : c.rest = text ++ r)
    (hposition : e.position.offset = c.offset)
    (hspan : e.span = s.clampSpan ⟨c.offset, byteLength text⟩) : s.Labels e text := by
  have hsize := offset_add_byteLength_rest hc
  rw [hrest, byteLength_append] at hsize
  rw [clampSpan_of_rest hc hrest] at hspan
  have hstop : (Cursor.start s.chars).Reaches (c.advance text.length) :=
    hc.trans (Cursor.reaches_advance _ _)
  have hstops := isBoundary_offset hstop
  rw [Cursor.advance_length hrest] at hstops
  constructor
  case text =>
    rw [hspan]
    exact slice_of_rest hc hrest
  all_goals rw [hspan]
  · exact hposition.symm
  · show c.offset + byteLength text ≤ s.size
    omega
  · exact isBoundary_offset hc
  · exact hstops

/-! ## Characters that no token begins with -/

/-- The tokens of a text fail in front of a character that starts no trivia. -/
theorem exists_offending_of_tokenize_error {f : LexFailure} (h : s.tokenize = .error f) :
    ∃ c x r, s.IsPlace c ∧ c.offset = f.offset ∧ c.rest = x :: r ∧ f.offendingText s = [x] := by
  obtain ⟨ls, c, hreads, hne, -, hoffset⟩ := tokenize_eq_error_iff.1 h
  have hc := s.isPlace_firstPlace.of_reads hreads
  obtain ⟨x, r, hrest⟩ := List.exists_cons_of_ne_nil hne
  refine ⟨c, x, r, hc, hoffset, hrest, ?_⟩
  rw [LexFailure.offendingText, ← hoffset, Cursor.dropBytes_offset hc.reaches, hrest]
  rfl

theorem label_of_lexFailure {f : LexFailure} (h : s.tokenize = .error f) :
    ∃ text, s.Labels (.malformed (f.event s).error) text ∧
      s.Explains (.malformed (f.event s).error) text := by
  obtain ⟨c, x, r, hc, hoffset, hrest, hoffending⟩ := exists_offending_of_tokenize_error h
  have hposition : (s.positionAt f.offset).offset = c.offset := by
    rw [← hoffset]
    exact offset_positionAt hc
  have hsign : String.ofList [x] ≠ endOfInputText := by
    intro heq
    have hlength := congrArg (fun text : String => text.toList.length) heq
    simp [endOfInputText] at hlength
  have hspan : (f.event s).error.span = s.clampSpan ⟨c.offset, byteLength [x]⟩ := by
    simp only [SyntaxEvent.error, LexFailure.event, hoffending, hposition, if_neg hsign,
      String.toList_ofList]
  have hlabel : s.Labels (.malformed (f.event s).error) [x] :=
    labels_of_rest hc.reaches (r := r) hrest hposition hspan
  refine ⟨[x], hlabel, f, x, h, ?_, rfl, ?_⟩
  · exact hlabel.offset.trans (hposition.trans hoffset)
  · show unrecognizedMessage (String.ofList (f.offendingText s)) = _
    rw [hoffending]

/-! ## What a parse finds -/

end Source

/-- No lexeme is written like the end of the text. -/
theorem Lexeme.ofList_text_ne_endOfInputText {cs : List Char} {l : Lexeme}
    (h : first? cs = some l) : String.ofList l.text ≠ endOfInputText := by
  intro heq
  have htext : l.text = endOfInputText.toList := by rw [← heq, String.toList_ofList]
  obtain ⟨r, hscan⟩ := scan_of_first? h
  have happend := Terminal.append_of_scan hscan
  rw [← happend] at h
  have halone := first?_of_append h (Nat.le_refl _)
  -- it would begin with an operator
  have hless : first? endOfInputText.toList = some ⟨.relOp, ['<']⟩ := by decide
  rw [htext, hless] at halone
  rw [← Option.some.inj halone] at htext
  exact absurd htext (by decide)

/-- Where no trivia starts a lexeme is unbroken. -/
theorem Lexeme.isUnbroken {c : Cursor} {l : Lexeme} (hc : c.Rested)
    (h : first? c.rest = some l) : IsUnbroken l.text := by
  obtain ⟨hspells, r, hr⟩ := spells_of_first? h
  obtain ⟨hblank, hcomment⟩ := hc.no_trivia
  have hne : l.text ≠ [] := (Cursor.Holds.last h rfl).ne_nil
  refine ⟨hne, hspells.no_line_break, fun x hx => hblank x ?_, fun hslashes => hcomment ?_⟩
  · rw [← hr, List.head?_append_of_ne_nil _ hne]
    exact hx
  · rw [← hr]
    exact hslashes.trans (List.prefix_append _ _)

namespace Source

variable {s : Source} {c d : Cursor} {text : List Char} {m : Mismatch}

/-- A parse that does not fail with the tokens fails at the end of the text or in front of
a lexeme, which is what it finds. -/
theorem exists_found_of_parse_error (hparse : s.parseProgram = .error m)
    (hother : ∀ f, s.tokenize = .error f → m.offset ≠ f.offset) :
    ∃ c, s.IsPlace c ∧ m.offset = c.offset ∧
      (c.rest = [] ∧ m.found = endOfInputText ∨
        ∃ l, Lexeme.first? c.rest = some l ∧ m.found = String.ofList l.text) := by
  obtain ⟨c, hcourse, hoffset⟩ := exists_onCourse_of_parse_error hparse
  have hreach : (Cursor.start s.chars).Reaches c := (Cursor.reaches_skip _).trans hcourse.reaches
  have hfound : m.found = s.foundAt c.offset := by
    rw [← hoffset]
    exact congrArg Mismatch.found (eq_foundAt_of_parse_error hparse)
  refine ⟨c, ⟨hreach, hcourse.rested s.rested_firstPlace⟩, hoffset, ?_⟩
  by_cases hend : c.rest = []
  · exact Or.inl ⟨hend, hfound.trans (foundAt_of_end hreach hend)⟩
  · obtain ⟨l, hl⟩ : ∃ l, Lexeme.first? c.rest = some l := by
      obtain ⟨ls, e, hreads, rfl | hinside⟩ := hcourse
      · -- without a lexeme the tokens fail here too
        refine Option.ne_none_iff_exists'.1 fun hnone => ?_
        have hfails : s.tokenize = .error ⟨c.offset⟩ :=
          tokenize_eq_error_iff.2 ⟨ls, c, hreads, hend, hnone, rfl⟩
        exact hother _ hfails hoffset
      · obtain ⟨r, hr⟩ := hinside.rest_eq
        refine Option.ne_none_iff_exists'.1 fun hnone => ?_
        have hmiss := Lexeme.first?_eq_none_iff.1 hnone .assign
        rw [hr] at hmiss
        simp [Terminal.scan, scanAny, scanSpelling, Terminal.spellings] at hmiss
    exact Or.inr ⟨l, hl, hfound.trans (foundAt_of_first? hreach hl)⟩

theorem label_of_mismatch (hparse : s.parseProgram = .error m)
    (hother : ∀ f, s.tokenize = .error f → m.offset ≠ f.offset) :
    ∃ text, s.Labels (.malformed (m.event s).error) text ∧
      s.Explains (.malformed (m.event s).error) text := by
  have hposition := Mismatch.position_offset_event hparse
  obtain ⟨c, hc, hoffset, ⟨hend, hfound⟩ | ⟨l, hl, hfound⟩⟩ :=
    exists_found_of_parse_error hparse hother
  · have hspan : (m.event s).error.span = s.clampSpan ⟨c.offset, byteLength []⟩ := by
      rw [SyntaxEvent.error, hposition, hoffset]
      simp only [Mismatch.event, hfound, if_true, byteLength_nil]
    have hlabel : s.Labels (.malformed (m.event s).error) [] :=
      labels_of_rest hc.reaches (r := c.rest) rfl (hposition.trans hoffset) hspan
    refine ⟨[], hlabel, m, hparse, hlabel.offset.trans hposition, rfl, ?_⟩
    rw [if_pos hfound]
    have hsize := offset_eq_size hc.reaches hend
    exact ⟨rfl, hlabel.offset.trans (hposition.trans (hoffset.trans hsize))⟩
  · have hsign : m.found ≠ endOfInputText := by
      rw [hfound]
      exact Lexeme.ofList_text_ne_endOfInputText hl
    have htext : m.found.toList = l.text := by rw [hfound, String.toList_ofList]
    have hspan : (m.event s).error.span = s.clampSpan ⟨c.offset, byteLength l.text⟩ := by
      rw [SyntaxEvent.error, hposition, hoffset]
      simp only [Mismatch.event, if_neg hsign, htext]
    obtain ⟨-, r, hr⟩ := Lexeme.spells_of_first? hl
    have hlabel : s.Labels (.malformed (m.event s).error) l.text :=
      labels_of_rest hc.reaches hr.symm (hposition.trans hoffset) hspan
    refine ⟨l.text, hlabel, m, hparse, hlabel.offset.trans hposition, rfl, ?_⟩
    rw [if_neg hsign]
    exact ⟨htext.symm, Lexeme.isUnbroken hc.rested hl⟩

end Source

/-! ## Constructs that cannot be lowered -/

/-- The rule of the nodes for a construct. -/
def Construct.rule : Construct → Rule
  | newObject => .phrase .newObject
  | newArray => .phrase .newArray
  | deepLocation => .phrase .location
  | stringArgument => .terminal .stringLit
  | bigInteger => .terminal .intLit

namespace Tree

variable {t : Tree} {o : Obstacle}

theorem rule_of_mem_ownObstacles (h : o ∈ t.ownObstacles) : o.node.rule = o.construct.rule := by
  unfold ownObstacles at h
  split at h
  case h_1 hrule | h_2 hrule =>
    obtain rfl := List.mem_singleton.1 h
    exact hrule
  case h_3 hrule | h_5 hrule =>
    split at h
    · obtain rfl := List.mem_singleton.1 h
      exact hrule
    · simp at h
  case h_4 =>
    obtain ⟨c, hc, rfl⟩ := List.mem_map.1 h
    exact of_decide_eq_true (List.mem_filter.1 hc).2
  case h_6 => simp at h

/-- An obstacle of a tree is a node of it. -/
theorem node_mem_nodes (h : o ∈ t.obstacles) :
    o.node ∈ t.nodes ∧ o.node.rule = o.construct.rule := by
  obtain ⟨n, hn, ho⟩ := List.mem_flatMap.1 h
  refine ⟨?_, rule_of_mem_ownObstacles ho⟩
  rcases node_of_mem_ownObstacles ho with heq | hchild
  · rw [heq]
    exact hn
  · exact mem_nodes_of_mem_children hchild t hn

end Tree

namespace Source

variable {s : Source} {t : Tree} {o : Obstacle} {ts : List Token}

/-- An obstacle stands at a token. -/
theorem standing_of_mem_obstacles (hparse : s.parseProgram = .ok t) (ho : o ∈ t.obstacles) :
    o.node.StandsFrom s.firstPlace ∧ o.node.rule = o.construct.rule := by
  obtain ⟨hnode, hrule⟩ := Tree.node_mem_nodes ho
  rcases standing_of_mem_nodes hparse hnode with hprogram | hend | hstands
  · exact absurd (hrule.symm.trans hprogram) (by cases o.construct <;> simp [Construct.rule])
  · exact absurd (hrule.symm.trans hend) (by cases o.construct <;> simp [Construct.rule])
  · exact ⟨hstands, hrule⟩

/-- The bytes of an obstacle's error are those that are kept of its node. -/
theorem span_error {c d : Cursor} {text : List Char} (h : s.Occupies o.node c text d)
    (hrule : o.node.rule = o.construct.rule) :
    (o.error s).span = s.clampSpan (s.contentSpan o.node.span) := by
  unfold Obstacle.error
  cases hconstruct : o.construct <;> rw [hconstruct] at hrule
  case deepLocation => rfl
  all_goals
    rw [h.contentSpan_of_isClosed (by rw [hrule]; rfl)]
    rfl

theorem position_error (s : Source) (o : Obstacle) :
    (o.error s).position = s.positionAt o.node.start := by
  unfold Obstacle.error
  cases o.construct <;> rfl

theorem label_of_obstacle (hparse : s.parseProgram = .ok t) (ho : o ∈ t.obstacles) :
    ∃ text, s.Labels (o.error s) text ∧ s.Explains (o.error s) text := by
  obtain ⟨ts, hts, -⟩ := derives_of_parseProgram hparse
  obtain ⟨hstands, hrule⟩ := standing_of_mem_obstacles hparse ho
  have hblunt : (Pattern.rule o.node.rule).isBlunt = false := by
    rw [hrule]
    cases o.construct <;> rfl
  obtain ⟨c, text, d, hoccupies⟩ := hstands.occupies hblunt
  obtain ⟨r, hrest⟩ := hoccupies.holds.exists_rest
  have hc := hoccupies.isPlace
  have hposition : (o.error s).position.offset = c.offset := by
    rw [position_error, hoccupies.start_eq]
    exact offset_positionAt hc
  have hspan : (o.error s).span = s.clampSpan ⟨c.offset, byteLength text⟩ := by
    rw [span_error hoccupies hrule, hoccupies.contentSpan_eq]
  have hexact : s.Exact ts o.node (o.error s).span := by
    rw [hspan, clampSpan_of_rest hc.reaches hrest]
    exact hoccupies.exact hblunt hts
  refine ⟨text, labels_of_rest hc.reaches hrest hposition hspan, ?_⟩
  obtain ⟨construct, node⟩ := o
  cases construct
  case bigInteger =>
    refine ⟨t, ts, hparse, hts, _, ho, rfl, hexact, ⟨.integer, .overflow, node.string⟩, rfl, ?_⟩
    have htext := hoccupies.text_of_isClosed (by rw [hrule]; rfl)
    exact htext.symm.trans (String.toList_ofList).symm
  all_goals exact ⟨t, ts, hparse, hts, _, ho, rfl, hexact⟩

/-! ## All errors -/

/-- The label of every error is on a text of whole characters at the position of the error:
on the character that no token begins with, as the message quotes it; on nothing at the end
of the text or on what the parse found, which is unbroken; on a construct that cannot be
lowered, from its first token to the end of its last; or on the literal that the error comes
from. -/
theorem labels_of_compile_error {e : CompileError} (h : s.compile = .error e) :
    ∃ text, s.Labels e text ∧ s.Explains e text := by
  cases stops_of_compile_error h with
  | lexer htokens => exact label_of_lexFailure htokens
  | parser hparse hother => exact label_of_mismatch hparse hother
  | obstacle hparse ho => exact label_of_obstacle hparse ho

/-- The label of a stray comparison is on the second sign of its operator. -/
theorem labels_of_compile_error_strayComparison : ∃ e, strayComparison.compile = .error e ∧
    strayComparison.Labels e ['='] ∧ strayComparison.Explains e ['='] := by
  obtain ⟨ts, hts, -⟩ := tokens_strayComparison
  have hcompile := compile_of_other_offset mismatch_strayComparison (by simp [hts])
  obtain ⟨text, hlabels, hexplains⟩ := labels_of_compile_error hcompile
  obtain ⟨m, hm, -, -, hfound⟩ := id hexplains
  obtain rfl := Except.error.inj (mismatch_strayComparison.symm.trans hm)
  obtain ⟨rfl, -⟩ : text = ['='] ∧ IsUnbroken text := hfound
  exact ⟨_, hcompile, hlabels, hexplains⟩

end Source

end DecafFrontEnd
