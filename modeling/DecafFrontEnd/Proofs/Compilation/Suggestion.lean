/-
  DecafFrontEnd/Proofs/Compilation/Suggestion.lean --- what an error suggests.

  A text that does not parse is reported with the rules that were tried where it stopped.
  Each of them is a way to go on: the text in front of that place, a line feed, something
  that the rule takes all of, and some more make up a program
  (`Source.suggestions_possible`).
-/
import DecafFrontEnd.Proofs.Grammar.Expectation
import DecafFrontEnd.Proofs.Grammar.Whole
import DecafFrontEnd.Proofs.Lexical.Seam

set_option autoImplicit false

namespace DecafFrontEnd

theorem Attempts.mem_expected {a : Attempts} {r : Rule} : r ∈ a.expected ↔ r ∈ a.rules := by
  simp [expected, Rule.mem_all]

theorem Mismatch.message_of_expected {m : Mismatch} (h : m.expected ≠ []) :
    m.message = "mismatched input `" ++ m.found ++ "` expecting " ++ expectedList m.expected := by
  rw [message, List.isEmpty_eq_false_iff.2 h]
  rfl

namespace Source

/-- Lexemes in a line of their own go on from the end of a text. -/
theorem parseProgram_of_line {front : String} {ls ls' behind : List Lexeme} {e : Cursor}
    (hreads : (Cursor.start front.toList).skip.Reads ls e) (hend : e.rest = [])
    (hwhole : ∀ l ∈ ls' ++ behind, l.IsWhole)
    (hprogram : Derivable (.phrase .program) (ls ++ (ls' ++ behind))) (name : Option String) :
    ∃ t, (ofText (front ++ "\n" ++ String.ofList (Lexeme.written ls') ++
      String.ofList (Lexeme.behindBlanks behind)) name).parseProgram = .ok t := by
  have hfront := hreads.before (Cursor.rested_skip _)
    (Lexeme.written ls' ++ Lexeme.behindBlanks behind)
  rw [Cursor.before_skip, Cursor.before_of_nil hend] at hfront
  have hline := Lexeme.skipTrivia_written_append hwhole
  obtain ⟨d, hback, hd, -⟩ := Lexeme.reads_written hwhole (c := Cursor.skip ⟨e.offset + 1, _⟩) hline
  have hchars : (front ++ "\n" ++ String.ofList (Lexeme.written ls') ++
      String.ofList (Lexeme.behindBlanks behind)).toList =
        front.toList ++ '\n' :: (Lexeme.written ls' ++ Lexeme.behindBlanks behind) := by
    simp
  refine parseProgram_of_reads ?_ hd hprogram
  rw [firstPlace, chars_ofText, hchars]
  exact hfront.append hback

/-- With a rule that is awaited a program can go on, in a new line. -/
theorem Awaits.exists_program {s : Source} {offset : Nat} {r : Rule} (h : s.Awaits offset r)
    {front : String} (hfront : front.toList = takeBytes offset s.chars) (name : Option String) :
    ∃ w more : String, r.MatchesAll w ∧ (r = .endOfInput → w = "") ∧
      ∃ t, (ofText (front ++ "\n" ++ w ++ more) name).parseProgram = .ok t := by
  obtain ⟨hpart, before, e, hreads, hend, hviable, -⟩ := h
  obtain ⟨ls, ⟨hls, hwhole⟩, hnone, hall⟩ := r.exists_matchesAll hpart
  obtain ⟨behind, hbehind, hprogram⟩ := hviable ls hls
  rw [← hfront] at hreads
  have hboth : ∀ l ∈ ls ++ behind, l.IsWhole := by
    intro l hl
    rcases List.mem_append.1 hl with hl | hl
    · exact hwhole l hl
    · exact hbehind l hl
  refine ⟨_, _, hall, fun hr => ?_, parseProgram_of_line hreads hend hboth hprogram name⟩
  rw [hnone hr]
  rfl

/-- A text that does not parse is said to stop at a place up to which it is the beginning
of a program. Some rule is always said to be expected there, and every such rule is a way to
go on: it takes all of some text, and with that text in a new line and more behind it the
beginning is a program. -/
theorem suggestions_possible (text : String) (name : Option String) (m : Mismatch)
    (h : (ofText text name).parseProgram = .error m) :
    m.expected ≠ [] ∧
      m.message = "mismatched input `" ++ m.found ++ "` expecting " ++ expectedList m.expected ∧
      ∃ front rest : String, text = front ++ rest ∧ byteLength front.toList = m.offset ∧
        (∀ r ∈ m.expected, ∃ w more : String, r.MatchesAll w ∧ (r = .endOfInput → w = "") ∧
          ∃ t, (ofText (front ++ "\n" ++ w ++ more) name).parseProgram = .ok t) ∧
        ∃ more t, (ofText (front ++ more) name).parseProgram = .ok t := by
  have hoffset := floorBoundary_of_parseProgram_error h
  obtain ⟨a, rfl, ⟨-, hawaits⟩, hrules⟩ := justified_of_parseProgram_error h
  obtain ⟨r, hr⟩ := List.exists_mem_of_ne_nil _ hrules
  have hexpected : (Mismatch.ofAttempts (ofText text name) a).expected ≠ [] :=
    List.ne_nil_of_mem (Attempts.mem_expected.2 hr)
  have hpossible : ∀ r ∈ a.rules, ∃ w more : String, r.MatchesAll w ∧
      (r = .endOfInput → w = "") ∧
      ∃ t, (ofText (String.ofList (takeBytes a.offset text.toList) ++ "\n" ++ w ++ more)
        name).parseProgram = .ok t :=
    fun r hr => (hawaits r hr).exists_program String.toList_ofList name
  refine ⟨hexpected, Mismatch.message_of_expected hexpected,
    String.ofList (takeBytes a.offset text.toList), String.ofList (dropBytes a.offset text.toList),
    ?_, ?_, fun r hr => hpossible r (Attempts.mem_expected.1 hr), ?_⟩
  · rw [← String.ofList_append, takeBytes_append_dropBytes, String.ofList_toList]
  · rw [String.toList_ofList]
    exact hoffset
  · obtain ⟨w, more, -, -, t, ht⟩ := hpossible r hr
    refine ⟨"\n" ++ w ++ more, t, ?_⟩
    rwa [← String.append_assoc, ← String.append_assoc]

/-- Where `==` stands for `=`, the text stops between the two signs, and an expression is
expected there. -/
theorem suggestions_possible_equality :
    (ofText "class A\x7bvoid f()\x7bx==1;\x7d\x7d" none).parseProgram =
        .error ⟨19, "=", [.phrase .unaryExpr]⟩ ∧
      ∃ w more : String, (Rule.phrase .unaryExpr).MatchesAll w ∧
        ∃ t, (ofText ("class A\x7bvoid f()\x7bx=" ++ "\n" ++ w ++ more) none).parseProgram =
          .ok t := by
  have hparse : (ofText "class A\x7bvoid f()\x7bx==1;\x7d\x7d" none).parseProgram =
      .error ⟨19, "=", [.phrase .unaryExpr]⟩ := by
    have hchars : ofText "class A\x7bvoid f()\x7bx==1;\x7d\x7d" none =
        ⟨none, ['c', 'l', 'a', 's', 's', ' ', 'A', '\x7b', 'v', 'o', 'i', 'd', ' ', 'f', '(', ')',
          '\x7b', 'x', '=', '=', '1', ';', '\x7d', '\x7d'], _, rfl⟩ := rfl
    have hfails : (match (ofText "class A\x7bvoid f()\x7bx==1;\x7d\x7d" none).parseProgram with
        | .error m => some m
        | .ok _ => none) = some ⟨19, "=", [.phrase .unaryExpr]⟩ := by
      rw [hchars]
      decide +kernel
    split at hfails
    · next m hm => rw [hm, Option.some.inj hfails]
    · simp at hfails
  obtain ⟨-, -, front, rest, htext, hlength, hpossible, -⟩ :=
    suggestions_possible _ none _ hparse
  obtain ⟨w, more, hall, -, hprogram⟩ := hpossible (.phrase .unaryExpr) (by simp)
  have hfront : front = "class A\x7bvoid f()\x7bx=" := by
    apply String.toList_injective
    have htake := takeBytes_byteLength_append front.toList rest.toList
    rw [hlength, ← String.toList_append, ← htext] at htake
    exact htake.symm
  exact ⟨hparse, w, more, hall, by rwa [hfront] at hprogram⟩

end Source

end DecafFrontEnd
