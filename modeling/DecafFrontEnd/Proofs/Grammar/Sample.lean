/-
  DecafFrontEnd/Proofs/Grammar/Sample.lean --- a text for every rule.

  A pattern is `Productive` when there are whole lexemes that it stands for.  Every rule
  of a program is productive (`Rule.productive`): `Rule.sample?` finds lexemes for it, the
  last alternative of every choice taken and nothing that may be left out.
-/
import DecafFrontEnd.Proofs.Grammar.Soundness
import DecafFrontEnd.Proofs.Lexical.Layout

set_option autoImplicit false

namespace DecafFrontEnd

/-! ## Lexemes -/

/-- A text that a lexeme of a class can have: its first spelling if it has one. -/
def Terminal.sampleText : Terminal → List Char
  | ident => ['x']
  | intLit => ['0']
  | charLit => ['\'', 'x', '\'']
  | stringLit => ['"', '"']
  | t => t.spellings.headD []

/-- A lexeme of a class. -/
def Terminal.sample (t : Terminal) : Lexeme := ⟨t, t.sampleText⟩

theorem Terminal.isWhole_sample (t : Terminal) : t.sample.IsWhole := by
  cases t with
  | keyword k => exact k.isWhole
  | _ => decide

/-! ## Rules -/

/-- Lexemes that a pattern stands for, given those of rules. -/
def Pattern.sampleBy (ofRule : Rule → Option (List Lexeme)) : Pattern → Option (List Lexeme)
  | prim .inputStart | prim .inputEnd => some []
  | prim (.lexeme t) => some [t.sample]
  | prim _ => none
  | rule r => ofRule r
  | seq p q =>
      match p.sampleBy ofRule, q.sampleBy ofRule with
      | some ls, some ls' => some (ls ++ ls')
      | _, _ => none
  | alt _ q => q.sampleBy ofRule
  | opt _ | many _ => some []

/-- Lexemes that a rule stands for, rules unfolded to a depth. -/
def Rule.sampleWithin : Nat → Rule → Option (List Lexeme)
  | 0, _ => none
  | depth + 1, r => r.body.sampleBy (sampleWithin depth)

/-- Lexemes that a rule stands for. -/
def Rule.sample? (r : Rule) : Option (List Lexeme) := r.sampleWithin lookDepth

/-- Whole lexemes that a pattern stands for. -/
def Pattern.Samples (p : Pattern) (ls : List Lexeme) : Prop :=
  Derivable p ls ∧ ∀ l ∈ ls, l.IsWhole

/-- A pattern that stands for something. -/
def Pattern.Productive (p : Pattern) : Prop := ∃ ls, p.Samples ls

namespace Pattern

variable {p q : Pattern} {ls ls' : List Lexeme}

theorem Samples.seq (h : p.Samples ls) (h' : q.Samples ls') : (seq p q).Samples (ls ++ ls') := by
  obtain ⟨⟨ts, hts⟩, hwhole⟩ := h
  obtain ⟨⟨ts', hts'⟩, hwhole'⟩ := h'
  refine ⟨⟨_, .seq hts hts'⟩, fun l hl => ?_⟩
  rcases List.mem_append.1 hl with hl | hl
  · exact hwhole l hl
  · exact hwhole' l hl

theorem samples_mark (t : Terminal) : (mark t).Samples [t.sample] :=
  ⟨⟨[], .lexeme t.sample⟩, by simpa using t.isWhole_sample⟩

theorem samples_of_sampleBy {ofRule : Rule → Option (List Lexeme)}
    (hrule : ∀ {r ls}, ofRule r = some ls → (rule r).Samples ls)
    (h : p.sampleBy ofRule = some ls) : p.Samples ls := by
  induction p generalizing ls with
  | prim p =>
      cases p with
      | inputStart =>
          obtain rfl := Option.some.inj h
          exact ⟨⟨[], .inputStart⟩, by simp⟩
      | inputEnd =>
          obtain rfl := Option.some.inj h
          exact ⟨⟨[], .inputEnd⟩, by simp⟩
      | lexeme t =>
          obtain rfl := Option.some.inj h
          exact samples_mark t
      | _ => simp [sampleBy] at h
  | rule r => exact hrule h
  | seq p q ihp ihq =>
      simp only [sampleBy] at h
      split at h
      · next hp hq =>
          obtain rfl := Option.some.inj h
          exact (ihp hp).seq (ihq hq)
      · simp at h
  | alt p q _ ihq =>
      obtain ⟨⟨ts, hts⟩, hwhole⟩ := ihq h
      exact ⟨⟨ts, .right hts⟩, hwhole⟩
  | opt p _ =>
      obtain rfl := Option.some.inj h
      exact ⟨⟨[], .absent⟩, by simp⟩
  | many p _ =>
      obtain rfl := Option.some.inj h
      exact ⟨⟨[], .none⟩, by simp⟩

end Pattern

theorem Rule.samples_of_sampleWithin {depth : Nat} {r : Rule} {ls : List Lexeme}
    (h : r.sampleWithin depth = some ls) : (Pattern.rule r).Samples ls := by
  induction depth generalizing r ls with
  | zero => simp [sampleWithin] at h
  | succ depth ih =>
      obtain ⟨⟨ts, hts⟩, hwhole⟩ := Pattern.samples_of_sampleBy ih h
      exact ⟨⟨_, .rule hts⟩, hwhole⟩

/-- Whether a rule is a program, its end, or a lexeme or a phrase inside it. -/
def Rule.isPart (r : Rule) : Bool :=
  r.isSyntactic || r == endOfInput || r == phrase .program

theorem Rule.isPart_of_isSyntactic {r : Rule} (h : r.isSyntactic = true) : r.isPart = true := by
  simp [isPart, h]

/-- Every rule of a program stands for something. -/
theorem Rule.productive {r : Rule} (h : r.isPart = true) : (Pattern.rule r).Productive := by
  have key : ∀ r ∈ all, r.isPart = true → r.sample?.isSome = true := by decide +kernel
  obtain ⟨ls, hls⟩ := Option.isSome_iff_exists.1 (key r (mem_all r) h)
  exact ⟨ls, samples_of_sampleWithin hls⟩

theorem Pattern.productive {p : Pattern} (h : p.isSyntactic = true) : p.Productive := by
  induction p with
  | prim p =>
      cases p with
      | lexeme t => exact ⟨_, samples_mark t⟩
      | _ => simp [isSyntactic, Primitive.isSyntactic] at h
  | rule r => exact r.productive (r.isPart_of_isSyntactic h)
  | seq p q ihp ihq =>
      simp only [isSyntactic, Bool.and_eq_true] at h
      obtain ⟨ls, hls⟩ := ihp h.1
      obtain ⟨ls', hls'⟩ := ihq h.2
      exact ⟨_, hls.seq hls'⟩
  | alt p q ihp _ =>
      simp only [isSyntactic, Bool.and_eq_true] at h
      obtain ⟨ls, ⟨ts, hts⟩, hwhole⟩ := ihp h.1
      exact ⟨ls, ⟨ts, .left hts⟩, hwhole⟩
  | opt p _ => exact ⟨[], ⟨[], .absent⟩, by simp⟩
  | many p _ => exact ⟨[], ⟨[], .none⟩, by simp⟩

end DecafFrontEnd
