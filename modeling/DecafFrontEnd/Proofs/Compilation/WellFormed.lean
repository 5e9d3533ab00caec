/-
  DecafFrontEnd/Proofs/Compilation/WellFormed.lean --- the programs that compile.

  The types of the syntax tree admit trees that stand for no text.  The front end returns
  none of them, and each of the others it returns for the text that it is printed as.
-/
import DecafFrontEnd.Proofs.Printing.Program

set_option autoImplicit false

namespace DecafFrontEnd

/-- Whatever text is compiled, the program is one that a text can stand for. -/
theorem Source.wellFormed_of_compile {s : Source} {p : Program} (h : s.compile = .ok p) :
    p.WellFormed :=
  (compile_eq_ok_iff.1 h).wellFormed

/-- The countdown compiles to something well-formed. -/
theorem Source.wellFormed_of_compile_countdown :
    ∃ p, (Source.ofText Program.countdown.printed none).compile = .ok p ∧ p.WellFormed := by
  obtain ⟨p, hp⟩ := Program.exists_compile_countdown
  exact ⟨p, hp, wellFormed_of_compile hp⟩

/-- Nothing that is written is lost or put elsewhere: a well-formed program, printed with
any blanks between its words, compiles to itself up to positions. -/
theorem Program.WellFormed.compile_printed {p : Program} (h : p.WellFormed) :
    Spread p.words p.printed.toList ∧
    ∀ (text : String) (name : Option String), Spread p.words text.toList →
      ∃ p', (Source.ofText text name).compile = .ok p' ∧ p'.unplaced = p.unplaced := by
  refine ⟨h.spread_printed, fun text name htext => ?_⟩
  obtain ⟨p', hmeans, hbare⟩ := h.means_of_words (s := Source.ofText text name) htext
  exact ⟨p', Source.compile_eq_ok_iff.2 hmeans, hbare⟩

/-- The countdown as it is printed. -/
theorem Program.WellFormed.compile_printed_countdown :
    Program.countdown.WellFormed ∧
      Program.countdown.printed =
        "class Timer \x7b int n ; void tick ( ) \x7b n = ( n ) - ( 1 ) ; \x7d \x7d" ∧
      ∃ p, (Source.ofText Program.countdown.printed none).compile = .ok p ∧
        p.unplaced = Program.countdown.unplaced := by
  obtain ⟨hprinted, hcompile⟩ := compile_printed wellFormed_countdown
  exact ⟨wellFormed_countdown, by decide, hcompile _ none hprinted⟩

end DecafFrontEnd
