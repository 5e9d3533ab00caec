/-
  DecafFrontEnd/Proofs/Grammar/Trace.lean --- where a failed parse leaves a trace.

  A text goes wrong at a place if no program goes on with the lexeme that stands there.
  A failed parse does not end in front of that place if a program could go on with a rule
  there (`Source.offset_le_of_opens`).  Wherever it ends, the text in front begins a
  program that could go on with a rule (`Source.Awaits.begins`).

  The bound from below compares the text with its own front.  A parse that leaves no trace
  at the place is the same in the text that is cut off there (`Runs.cut`), and in that text
  it comes to a rule at the end (`Pattern.Opens.faces`).
-/
import DecafFrontEnd.Proofs.Grammar.Cut
import DecafFrontEnd.Proofs.Grammar.Facing

set_option autoImplicit false

namespace DecafFrontEnd

open Pattern

/-! ## What opens a program -/

section

variable {p : Pattern} {ls : List Lexeme}

/-- Behind some rounds of a repetition another one can begin. -/
theorem opens_of_derivable_many (hp : p.Opens []) (h : Derivable (many p) ls) :
    (many p).Opens ls := by
  obtain ⟨ts, hts⟩ := h
  generalize hq : many p = q at hts
  induction hts with
  | more hround _ _ ih =>
      obtain rfl := Pattern.many.inj hq
      exact .again ⟨_, hround⟩ (ih rfl)
  | none =>
      obtain rfl := Pattern.many.inj hq
      exact .round hp
  | _ => simp at hq

/-- Behind some classes another one can begin. -/
theorem opens_of_derivable_classes (h : Derivable classes ls) : classes.Opens ls := by
  obtain ⟨ts, hts⟩ := h
  cases hts with
  | seq hfirst hothers =>
      exact .second ⟨_, hfirst⟩ (opens_of_derivable_many (.here rfl) ⟨_, hothers⟩)

/-- Where a program opens with a rule its classes do. -/
theorem opens_classes_of_program (h : (phrase .program).Opens ls) : classes.Opens ls := by
  cases h with
  | here _ => exact .first (.here rfl)
  | inside hbody =>
      cases hbody with
      | first hstart => cases hstart
      | second hstart hrest =>
          obtain ⟨_, hstart⟩ := hstart
          cases hstart
          cases hrest with
          | first hclasses => exact hclasses
          | second hclasses hend =>
              cases hend with
              | here _ =>
                  rw [List.append_nil]
                  exact opens_of_derivable_classes hclasses
              | inside hbody => cases hbody

end

/-! ## The bound from below -/

namespace Source

variable {s : Source} {m : Mismatch} {c e : Cursor} {front ls : List Lexeme}

/-- The run of the classes of a text that does not parse. -/
theorem exists_classes_of_parse_error (hparse : s.parseProgram = .error m) :
    ∃ o, Runs (.once classes) s.firstPlace .none o ∧ o ≠ .unfinished ∧
      o.attempts.offset ≤ m.offset := by
  obtain ⟨a, hrun, rfl⟩ := runs_of_parseProgram_error hparse
  obtain ⟨x, hclasses, hx⟩ | ⟨_, d, x, hclasses, -, hx⟩ := attempts_of_program_fails rfl hrun
  · exact ⟨_, hclasses, by simp, Nat.le_of_eq hx.symm⟩
  · refine ⟨_, hclasses, by simp, ?_⟩
    have hle : x.offset ≤ a.offset := by
      rw [hx]
      exact Nat.le_max_left _ _
    exact hle

/-- Classes whose attempts end before a blocked place are tried alike in the text that is
cut off there. -/
theorem cut_classes {o : Outcome} (hblocks : s.firstPlace.Blocks e)
    (hreads : s.firstPlace.Reads front e) (h : Runs (.once classes) s.firstPlace .none o)
    (ho : o ≠ .unfinished) (hquiet : o.attempts.offset < e.offset) :
    ∃ o', Runs (.once classes) (s.firstPlace.upTo e.rest) .none o' ∧
      o'.attempts = o.attempts := by
  have hcut := h.cut hblocks regular_classes (by decide) s.awaited_classes
    (Or.inl ⟨.nil _, front, hreads⟩) hquiet
  cases o with
  | matched nodes d a =>
      obtain ⟨ls, hpass, ⟨-, nodes', hcut⟩ | ⟨hhalfway, -⟩⟩ := hcut
      · exact ⟨_, hcut, rfl⟩
      · -- a class does not end with a lone sign
        obtain hblunt | ⟨-, before, _, _, hnil, -⟩ := hpass.blunt hhalfway
        · exact absurd hblunt (by decide)
        · simp at hnil
  | failed a => exact ⟨_, hcut, rfl⟩
  | unfinished => exact absurd rfl ho

/-- A text that goes wrong at a place where a program opens with a rule does not fail in
front of that place. -/
theorem offset_le_of_opens (hparse : s.parseProgram = .error m)
    (hreads : s.firstPlace.Reads front e) (hblocks : s.firstPlace.Blocks e)
    (hopens : (phrase .program).Opens front) : e.offset ≤ m.offset := by
  obtain ⟨o, hclasses, ho, hle⟩ := exists_classes_of_parse_error hparse
  refine Nat.le_trans (Nat.le_of_not_lt fun hquiet => ?_) hle
  obtain ⟨o', hcut, hsame⟩ := cut_classes hblocks hreads hclasses ho hquiet
  have hend : (e.upTo e.rest).rest = [] := by rw [Cursor.upTo_of_append (z := []) rfl]
  have hstart : (s.firstPlace.upTo e.rest).Rested := by
    obtain ⟨z, hz, -⟩ := hreads.reaches
    have hskip : (s.firstPlace.upTo e.rest).skip = s.firstPlace.upTo e.rest := by
      rw [Cursor.skip_upTo (z := z) (by rw [s.rested_firstPlace.skip_eq, hz]),
        s.rested_firstPlace.skip_eq]
    rw [← hskip]
    exact Cursor.rested_skip _
  have hfaces : classes.Faces (e.upTo e.rest) (s.firstPlace.upTo e.rest) :=
    (opens_classes_of_program hopens).faces hend isSyntactic_classes decided_classes
      (steered_of_isSeparate hend (by decide) (by decide)) (hreads.upTo (z := []) rfl) hstart
  have hloud : e.offset ≤ o'.attempts.offset := hfaces.offset_le hend hcut
  rw [hsame] at hloud
  omega

/-! ## The bound from above -/

/-- Where a rule is awaited the lexemes in front begin a program, and if nothing stands
behind them there the program opens with a rule. -/
theorem Awaits.begins {offset : Nat} {r : Rule} {z x : List Char} (h : s.Awaits offset r)
    (hreads : s.firstPlace.Reads ls c) (hrest : c.rest = z ++ x)
    (hoffset : offset = c.offset + byteLength z) :
    (∃ behind, (∀ l ∈ behind, l.IsWhole) ∧ Derivable (phrase .program) (ls ++ behind)) ∧
      (z = [] → (phrase .program).Opens ls) := by
  obtain ⟨hr, ls', e, hfront, hend, hviable, hopens⟩ := h
  obtain ⟨before, hchars, hbefore⟩ := reaches_of_reads hreads
  have hsplit : s.chars = (before ++ z) ++ x := by
    rw [List.append_assoc, ← hrest]
    exact hchars
  have htext : takeBytes offset s.chars = before ++ z := by
    have hlength : offset = byteLength (before ++ z) := by
      rw [hoffset, hbefore, byteLength_append]
      simp [Cursor.start]
    rw [hlength, hsplit, takeBytes_byteLength_append]
  obtain ⟨text, hplace, -⟩ := hreads.reaches
  have hstart : (Cursor.start (before ++ z)).skip = s.firstPlace.upTo x := by
    refine Cursor.skip_start_upTo (z := text ++ z) hsplit ?_
    rw [List.append_assoc, ← hrest]
    exact hplace
  rw [htext, hstart] at hfront
  have hcut := hreads.upTo hrest
  obtain ⟨more, rfl, hmore⟩ := hfront.before_end (by rw [hend]; rfl) hcut
  refine ⟨?_, fun hz => ?_⟩
  · obtain ⟨ls', hls', hwhole⟩ := Rule.productive hr
    obtain ⟨behind, hbehind, hprogram⟩ := hviable ls' hls'
    refine ⟨more ++ (ls' ++ behind), ?_, by rwa [← List.append_assoc]⟩
    simp only [List.forall_mem_append]
    exact ⟨hmore.isWhole_of_mem, hwhole, hbehind⟩
  · have hnil : (c.upTo x).rest = [] := by rw [Cursor.upTo_of_append hrest, hz]
    cases hmore with
    | nil => rwa [List.append_nil] at hopens
    | cons hl _ =>
        rw [hnil] at hl
        simp [show Lexeme.first? [] = none from rfl] at hl

/-- A text that does not parse fails where some rule is awaited. -/
theorem exists_awaits_of_parse_error (hparse : s.parseProgram = .error m) :
    ∃ r, s.Awaits m.offset r := by
  obtain ⟨a, rfl, ⟨-, hawaits⟩, hrules⟩ := justified_of_parseProgram_error hparse
  obtain ⟨r, hr⟩ := List.exists_mem_of_ne_nil _ hrules
  exact ⟨r, hawaits r hr⟩

end Source

end DecafFrontEnd
