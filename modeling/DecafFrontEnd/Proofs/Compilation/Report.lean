/-
  DecafFrontEnd/Proofs/Compilation/Report.lean --- the lines of a report.

  A report is written in one form for each kind of error, and the two lines of an error in
  others; they agree for all errors (`CompileError.report_eq`).  A report has no more than
  these lines if what the message quotes from the text has no line feed in it: the character
  that no token begins with starts no trivia, what a parse finds is a lexeme, and a literal
  is one too.
-/
import DecafFrontEnd.Proofs.Compilation.Label
import DecafFrontEnd.Proofs.Text.Parts

set_option autoImplicit false

namespace DecafFrontEnd

/-! ## Texts in one line -/

/-- A text without a line feed. -/
def IsOneLine (text : String) : Prop := '\n' ∉ text.toList

instance (text : String) : Decidable (IsOneLine text) := inferInstanceAs (Decidable (¬ _))

namespace IsOneLine

variable {a b : String} {cs : List Char}

theorem append (ha : IsOneLine a) (hb : IsOneLine b) : IsOneLine (a ++ b) := by
  rw [IsOneLine, String.toList_append, List.mem_append]
  exact not_or.2 ⟨ha, hb⟩

theorem of_line_breaks (h : ∀ c ∈ cs, isLineBreak c = false) : IsOneLine (String.ofList cs) := by
  rw [IsOneLine, String.toList_ofList]
  intro hmem
  exact absurd (h '\n' hmem) (by decide)

theorem number (n : Nat) : IsOneLine (toString n) := notMem_toString (by decide) n

theorem intercalate {separator : String} {texts : List String} (hseparator : IsOneLine separator)
    (htexts : ∀ text ∈ texts, IsOneLine text) : IsOneLine (separator.intercalate texts) := by
  rw [IsOneLine, String.toList_intercalate]
  induction texts with
  | nil => simp
  | cons text texts ih =>
      have hfirst : '\n' ∉ text.toList := htexts text (by simp)
      cases texts with
      | nil => simpa using hfirst
      | cons next texts =>
          have hothers := ih fun text htext => htexts text (by simp [htext])
          rw [List.map_cons, List.map_cons, List.intercalate_cons_cons, List.mem_append,
            List.mem_append]
          exact not_or.2 ⟨not_or.2 ⟨hfirst, hseparator⟩, hothers⟩

end IsOneLine

/-! ## The two lines -/

/-- A line behind another one, where the line feed is written with what follows. -/
theorem append_broken {text line : String} (h : text = "\n" ++ line) (front back : String) :
    front ++ text ++ back = front ++ "\n" ++ (line ++ back) := by
  rw [h]
  simp only [String.append_assoc]

/-- The report of an error is its two lines. -/
theorem CompileError.report_eq (e : CompileError) :
    e.report = e.locationLine ++ "\n" ++ e.messageLine := by
  have hsyntax : "\nError: " = "\n" ++ "Error: " := by decide +kernel
  have hunsupported : "\nError: unsupported construct `" =
      "\n" ++ "Error: unsupported construct `" := by decide +kernel
  have hinternal : "\nInternal error: " = "\n" ++ "Internal error: " := by decide +kernel
  cases e with
  | malformed e => exact append_broken hsyntax _ _
  | unsupported construct p name span =>
      have hline := append_broken hunsupported p.reportLine construct
      exact (congrArg (· ++ "`") hline).trans (String.append_assoc ..)
  | internal defect p name span => exact append_broken hinternal _ _

theorem Position.isOneLine_reportLine {p : Position} (h : IsOneLine p.displayName) :
    IsOneLine p.reportLine := by
  have hname : IsOneLine ("File \"" ++ p.displayName ++ "\":") :=
    (IsOneLine.append (by decide) h).append (by decide)
  have hline : IsOneLine (toString p.line ++ ":") := (IsOneLine.number _).append (by decide)
  have hcolumn : IsOneLine (toString p.column ++ ":") := (IsOneLine.number _).append (by decide)
  have hall := (hname.append hline).append hcolumn
  rw [reportLine]
  simpa only [String.append_assoc] using hall

/-! ## What messages quote -/

/-- The names of rules in reports are one line each. -/
theorem Rule.isOneLine_describe (r : Rule) : IsOneLine r.describe := by
  have key : ∀ r ∈ all, IsOneLine r.describe := by decide +kernel
  exact key r (mem_all r)

theorem mem_of_mem_firstOccurrences {names : List String} {name : String}
    (h : name ∈ firstOccurrences names) : name ∈ names := by
  have key : ∀ {names seen : List String}, name ∈ names.foldl
      (fun seen n => if seen.contains n then seen else seen ++ [n]) seen →
      name ∈ seen ∨ name ∈ names := by
    intro names
    induction names with
    | nil => exact Or.inl
    | cons n names ih =>
        intro seen hname
        rw [List.foldl_cons] at hname
        rcases ih hname with hseen | hname
        · split at hseen
          · exact Or.inl hseen
          · rcases List.mem_append.1 hseen with hseen | hn
            · exact Or.inl hseen
            · exact Or.inr (by simp_all)
        · exact Or.inr (List.mem_cons_of_mem _ hname)
  exact (key h).resolve_left List.not_mem_nil

theorem isOneLine_expectedList (rules : List Rule) : IsOneLine (expectedList rules) := by
  have hnames : ∀ name ∈ firstOccurrences (rules.map Rule.describe), IsOneLine name := by
    intro name hname
    obtain ⟨r, -, rfl⟩ := List.mem_map.1 (mem_of_mem_firstOccurrences hname)
    exact r.isOneLine_describe
  unfold expectedList
  split
  · next heq =>
      rw [heq] at hnames
      exact hnames _ (by simp)
  · exact ((by decide : IsOneLine "\x7b").append (.intercalate (by decide) hnames)).append
      (by decide)

theorem Mismatch.isOneLine_message {m : Mismatch} (h : IsOneLine m.found) :
    IsOneLine m.message := by
  unfold message
  split
  · exact ((by decide : IsOneLine "extraneous input `").append h).append (by decide)
  · exact (((by decide : IsOneLine "mismatched input `").append h).append (by decide)).append
      (isOneLine_expectedList _)

namespace Source

variable {s : Source} {e : CompileError} {t n : Tree} {o : Obstacle}

/-- The node of a lexeme is in one line. -/
theorem isOneLine_of_terminal {place : Cursor} {w : Terminal} (h : n.StandsFrom place)
    (hrule : n.rule = .terminal w) : IsOneLine n.string := by
  obtain ⟨-, _, c, d, -, hstands⟩ := h
  obtain ⟨r, start, text, children⟩ := n
  obtain rfl := hrule
  obtain ⟨-, -, r, hscan, -⟩ := hstands.of_terminal
  exact .of_line_breaks (TokenKind.spells_of_scan hscan).no_line_break

/-- What is said of an obstacle is one line. -/
theorem isOneLine_messageLine_error (hparse : s.parseProgram = .ok t) (ho : o ∈ t.obstacles) :
    IsOneLine (o.error s).messageLine := by
  have hunsupported : ∀ construct, IsOneLine construct →
      IsOneLine ("Error: unsupported construct `" ++ construct ++ "`") := fun construct h =>
    (IsOneLine.append (by decide) h).append (by decide)
  obtain ⟨hstands, hrule⟩ := standing_of_mem_obstacles hparse ho
  obtain ⟨construct, node⟩ := o
  cases construct with
  | newObject | newArray | deepLocation | stringArgument => exact hunsupported _ (by decide)
  | bigInteger =>
      have hlexeme : IsOneLine node.string := isOneLine_of_terminal hstands hrule
      have hliteral : IsOneLine ("integer" ++ " literal `" ++ node.string ++ "` " ++
          "does not fit in 32 bits") :=
        ((IsOneLine.append (by decide) hlexeme).append (by decide)).append (by decide)
      exact IsOneLine.append (by decide) hliteral

/-- The line for what happened is one. -/
theorem Stops.isOneLine_messageLine (h : s.Stops e) : IsOneLine e.messageLine := by
  cases h with
  | @lexer f htokens =>
      obtain ⟨c, x, r, hc, -, hrest, hoffending⟩ := exists_offending_of_tokenize_error htokens
      have hblank := hc.rested.no_trivia.1 x (by rw [hrest]; rfl)
      have hquoted : IsOneLine (String.ofList (f.offendingText s)) := by
        rw [hoffending, IsOneLine, String.toList_ofList, List.mem_singleton]
        rintro rfl
        exact absurd hblank (by decide)
      exact (by decide : IsOneLine "Error: ").append
        (((by decide : IsOneLine "syntax error unrecognized token `").append hquoted).append
          (by decide))
  | @parser m hparse hother =>
      have hfound : IsOneLine m.found := by
        obtain ⟨c, hc, -, ⟨-, hfound⟩ | ⟨l, hl, hfound⟩⟩ :=
          exists_found_of_parse_error hparse hother
        · rw [hfound]
          decide
        · rw [hfound]
          exact .of_line_breaks (Lexeme.isUnbroken hc.rested hl).oneLine
      exact (by decide : IsOneLine "Error: ").append
        ((by decide : IsOneLine "syntax error ").append (Mismatch.isOneLine_message hfound))
  | obstacle hparse ho => exact isOneLine_messageLine_error hparse ho

/-- The error of a text is at a position in it. -/
theorem Stops.exists_position (h : s.Stops e) : ∃ offset, e.position = s.positionAt offset := by
  cases h with
  | lexer _ => exact ⟨_, rfl⟩
  | parser _ _ => exact ⟨_, rfl⟩
  | obstacle _ _ => exact ⟨_, position_error _ _⟩

/-- The report of an error of a compilation or of a division into tokens is the line for the
place and the line for what happened, and has one line feed, whatever the text holds, if the
name of the text has none. -/
theorem two_lines_of_report (h : s.compile = .error e ∨ s.tokens = .error e)
    (hname : ∀ name ∈ s.name, IsOneLine name) :
    e.report = e.locationLine ++ "\n" ++ e.messageLine ∧ e.report.toList.count '\n' = 1 := by
  have hstops : s.Stops e := h.elim stops_of_compile_error stops_of_tokens_error
  refine ⟨e.report_eq, ?_⟩
  obtain ⟨offset, hposition⟩ := hstops.exists_position
  have hlocation : IsOneLine e.locationLine := by
    rw [CompileError.locationLine, hposition]
    refine Position.isOneLine_reportLine ?_
    show IsOneLine (s.name.getD unknownName)
    cases hs : s.name with
    | none => decide
    | some name => exact hname name hs
  have hmessage := hstops.isOneLine_messageLine
  rw [e.report_eq, String.toList_append, String.toList_append, List.count_append,
    List.count_append, List.count_eq_zero.2 hlocation, List.count_eq_zero.2 hmessage]
  rfl

/-- The report of a sign that no token begins with, behind a comment. -/
theorem two_lines_of_report_sign :
    let s := ofText "//\n#" (some "a")
    ∃ e, s.tokens = .error e ∧
      e.report = "File \"a\":2:0:\nError: syntax error unrecognized token `#`" ∧
      e.report = e.locationLine ++ "\n" ++ e.messageLine ∧ e.report.toList.count '\n' = 1 := by
  intro s
  have hfails : s.tokenize = .error ⟨3⟩ :=
    tokenize_eq_error_iff.2 ⟨[], _, .nil _, by decide, rfl, rfl⟩
  have htokens := tokens_of_tokenize_error hfails
  have hname : ∀ name ∈ s.name, IsOneLine name := by
    rintro name ⟨⟩
    decide
  exact ⟨_, htokens, by decide +kernel, two_lines_of_report (Or.inr htokens) hname⟩

end Source

end DecafFrontEnd
