/-
  DecafFrontEnd/Proofs/Grammar/Whole.lean --- a rule matched against all of a text.

  Whole lexemes with blanks between them make up a text that has just these lexemes
  (`Lexeme.reads_written`).  A rule that stands for them, matched on its own against the
  text, takes all of it (`Rule.matchesAll_of_isSyntactic`), and every rule of a program
  stands for some (`Rule.exists_matchesAll`).
-/
import DecafFrontEnd.Proofs.Grammar.Sample
import DecafFrontEnd.Proofs.Grammar.Span
import DecafFrontEnd.Proofs.Grammar.Language

set_option autoImplicit false

namespace DecafFrontEnd

open Pattern

/-! ## The text of lexemes -/

namespace Lexeme

/-- The texts of lexemes with a blank in front of each. -/
def behindBlanks (ls : List Lexeme) : List Char := ls.flatMap fun l => ' ' :: l.text

/-- The texts of lexemes with a blank between two of them. -/
def written (ls : List Lexeme) : List Char := (behindBlanks ls).tail

variable {l : Lexeme} {ls ls' : List Lexeme}

@[simp] theorem behindBlanks_cons (l : Lexeme) (ls : List Lexeme) :
    behindBlanks (l :: ls) = ' ' :: written (l :: ls) := rfl

theorem written_cons (l : Lexeme) (ls : List Lexeme) :
    written (l :: ls) = l.text ++ behindBlanks ls := rfl

theorem isSeparator_behindBlanks :
    ∀ x, (behindBlanks ls).head? = some x → isSeparator x = true := by
  cases ls with
  | nil => simp [behindBlanks]
  | cons l ls =>
      rintro x ⟨⟩
      decide

theorem leadingTrivia_written (hls : ∀ l ∈ ls, l.IsWhole) : leadingTrivia (written ls) = [] := by
  cases ls with
  | nil => rfl
  | cons l ls => exact (hls l (by simp)).leadingTrivia_append isSeparator_behindBlanks

theorem skipTrivia_written (hls : ∀ l ∈ ls, l.IsWhole) :
    skipTrivia (written ls) = written ls := by
  have happend := leadingTrivia_append_skipTrivia (written ls)
  rwa [leadingTrivia_written hls] at happend

theorem skipTrivia_behindBlanks (hls : ∀ l ∈ ls, l.IsWhole) :
    skipTrivia (behindBlanks ls) = written ls := by
  cases ls with
  | nil => rfl
  | cons l ls =>
      have hblank : ∀ x ∈ [' '], isBlank x = true := by simp [isBlank]
      exact skipTrivia_blanks hblank (leadingTrivia_written hls)

/-- More lexemes behind a text of some. -/
theorem skipTrivia_written_append (hls : ∀ l ∈ ls ++ ls', l.IsWhole) :
    skipTrivia (written ls ++ behindBlanks ls') = written (ls ++ ls') := by
  cases ls with
  | nil => exact skipTrivia_behindBlanks hls
  | cons l ls =>
      have happend : written (l :: ls) ++ behindBlanks ls' = written (l :: ls ++ ls') := by
        simp [written_cons, behindBlanks]
      rw [happend]
      exact skipTrivia_written hls

/-- The text of whole lexemes has these lexemes and ends with the last one. -/
theorem reads_written (hls : ∀ l ∈ ls, l.IsWhole) {c : Cursor} (hc : c.rest = written ls) :
    ∃ d, c.Reads ls d ∧ d.rest = [] ∧ (ls ≠ [] → c.Holds (written ls) d) := by
  induction ls generalizing c with
  | nil => exact ⟨c, .nil c, hc, fun hne => absurd rfl hne⟩
  | cons l ls ih =>
      have hothers : ∀ l ∈ ls, l.IsWhole := fun l hl => hls l (by simp [hl])
      have hfirst : Lexeme.first? c.rest = some l := by
        rw [hc]
        exact (hls l (by simp)).first?_append isSeparator_behindBlanks
      have hdrop : c.rest.drop l.text.length = behindBlanks ls := by
        rw [hc, written_cons, List.drop_left]
      have hpast : (c.past l).rest = written ls := by
        have hskip : (c.past l).rest = skipTrivia (c.rest.drop l.text.length) := rfl
        rw [hskip, hdrop, skipTrivia_behindBlanks hothers]
      obtain ⟨d, hreads, hend, hholds⟩ := ih hothers hpast
      refine ⟨d, .cons hfirst hreads, hend, fun _ => ?_⟩
      cases ls with
      | nil =>
          obtain ⟨-, rfl⟩ := hreads.cases.resolve_right (by simp)
          have hlast : c.Holds l.text (c.past l) := .last hfirst rfl
          rwa [← List.append_nil l.text] at hlast
      | cons l' ls =>
          have hblank : leadingTrivia (c.rest.drop l.text.length) = [' '] := by
            have happend := leadingTrivia_append_skipTrivia (behindBlanks (l' :: ls))
            rw [skipTrivia_behindBlanks hothers, behindBlanks_cons,
              ← List.singleton_append] at happend
            rw [hdrop]
            exact List.append_cancel_right happend
          have hmore : c.Holds _ d := .cons hfirst (hholds (by simp))
          rwa [hblank] at hmore

end Lexeme

/-! ## All of a text -/

/-- A rule that, matched on its own against a text, takes all of it. -/
def Rule.MatchesAll (r : Rule) (text : String) : Prop :=
  ∃ t, (Source.ofText text none).parseRule r = .ok [t] ∧ t.rule = r ∧ t.start = 0 ∧
    t.string = text

namespace Rule

variable {r : Rule} {ls : List Lexeme} {text : List Char}

theorem isSilent_of_isPart (h : r.isPart = true) : r.isSilent = false := by
  have key : ∀ r ∈ all, r.isPart = true → r.isSilent = false := by decide
  exact key r (mem_all r) h

/-- A match that ends where the text does takes all of it. -/
theorem matchesAll_of_matches {nodes : List Tree} {d : Cursor} (hr : r.isPart = true)
    (h : (Pattern.rule r).Matches (Cursor.start text) nodes d) (hend : d.rest = []) :
    r.MatchesAll (String.ofList text) := by
  obtain ⟨before, hrest, hoffset⟩ := h.covers.reaches
  have htext : before = text := by simpa [hend, Cursor.start] using hrest.symm
  have hall : takeBytes (d.offset - (Cursor.start text).offset) text = text := by
    have hd : d.offset - (Cursor.start text).offset = byteLength text := by
      rw [hoffset, htext]
      simp [Cursor.start]
    have hbytes := takeBytes_byteLength_append text []
    rwa [List.append_nil, ← hd] at hbytes
  obtain ⟨inner, -, rfl⟩ := matches_rule.1 h
  obtain ⟨b, hb⟩ := h .none
  have hleave : r.leave (Cursor.start text) d inner = [.node r 0 text inner] := by
    rw [leave, isSilent_of_isPart hr]
    exact congrArg (fun x => [Tree.node r 0 x inner]) hall
  refine ⟨.node r 0 text inner, ?_, rfl, rfl, rfl⟩
  unfold Source.parseRule
  rw [Source.chars_ofText, String.toList_ofList, matchAt_eq hb, hleave]

/-- A lexeme or a phrase takes all of a text that begins and ends with the lexemes that it
stands for. -/
theorem matchesAll_of_derives {ts : List Skeleton} {d : Cursor} (hr : r.isSyntactic = true)
    (hts : Derives (.rule r) ls ts) (hc : (Cursor.start text).Rested)
    (hreads : (Cursor.start text).Reads ls d) (hend : d.rest = [])
    (hholds : (Cursor.start text).Holds text d) : r.MatchesAll (String.ofList text) := by
  have hstop : (Pattern.rule r).StopsAt d := Cursor.lacks_of_rest_nil hend _
  obtain ⟨nodes, e, hmatches, rfl, -⟩ := hts.exists_match hr trivial hreads hc hstop
  exact matchesAll_of_matches (r.isPart_of_isSyntactic hr) hmatches
    (hmatches.covers.rest_eq_nil hr rfl hc hholds)

/-- A lexeme or a phrase takes all of the text of lexemes that it stands for. -/
theorem matchesAll_of_isSyntactic (hr : r.isSyntactic = true)
    (h : (Pattern.rule r).Samples ls) : r.MatchesAll (String.ofList (Lexeme.written ls)) := by
  obtain ⟨⟨ts, hts⟩, hwhole⟩ := h
  obtain ⟨d, hreads, hend, hholds⟩ :=
    Lexeme.reads_written hwhole (c := Cursor.start (Lexeme.written ls)) rfl
  exact matchesAll_of_derives hr hts (Lexeme.leadingTrivia_written hwhole) hreads hend
    (hholds (hts.ne_nil hr))

/-- A program takes all of the text of its lexemes. -/
theorem matchesAll_program (h : (Pattern.phrase .program).Samples ls) :
    (phrase .program).MatchesAll (String.ofList (Lexeme.written ls)) := by
  obtain ⟨⟨ts, hts⟩, hwhole⟩ := h
  have hplace : (Source.alone (Lexeme.written ls)).firstPlace.rest = Lexeme.written ls := by
    rw [Source.firstPlace, Source.chars_alone]
    exact Lexeme.skipTrivia_written hwhole
  obtain ⟨d, hreads, hend, -⟩ := Lexeme.reads_written hwhole hplace
  obtain ⟨tree, hparse⟩ := Source.parseProgram_of_reads hreads hend ⟨ts, hts⟩
  obtain ⟨e, hmatches⟩ := Source.parseProgram_eq_ok_iff.1 hparse
  rw [Source.chars_alone] at hmatches
  obtain ⟨-, _, f, -, hrest, rfl, -⟩ := matches_program.1 hmatches
  exact matchesAll_of_matches rfl hmatches hrest

/-- The end of the text takes all of a text that is empty. -/
theorem matchesAll_endOfInput : endOfInput.MatchesAll "" := by
  have hnothing : (prim .inputEnd).Matches (Cursor.start []) [] (Cursor.start []) :=
    matches_prim.2 ⟨[], rfl, rfl, rfl⟩
  exact matchesAll_of_matches rfl (matches_rule.2 ⟨[], hnothing, rfl⟩) rfl

/-- Every rule of a program takes all of some text of whole lexemes, the end of the text
that of none. -/
theorem exists_matchesAll (hr : r.isPart = true) :
    ∃ ls, (Pattern.rule r).Samples ls ∧ (r = endOfInput → ls = []) ∧
      r.MatchesAll (String.ofList (Lexeme.written ls)) := by
  by_cases hend : r = endOfInput
  · subst hend
    exact ⟨[], ⟨⟨_, .rule .inputEnd⟩, by simp⟩, fun _ => rfl, matchesAll_endOfInput⟩
  · obtain ⟨ls, hls⟩ := r.productive hr
    refine ⟨ls, hls, fun h => absurd h hend, ?_⟩
    by_cases hprogram : r = phrase .program
    · subst hprogram
      exact matchesAll_program hls
    · exact matchesAll_of_isSyntactic (by simpa [isPart, hend, hprogram] using hr) hls

end Rule

end DecafFrontEnd
