/-
  DecafFrontEnd/Proofs/Compilation/Malformed.lean --- which failure is reported.

  The tokens of a text and its parse fail independently of each other.  The parse
  fails wherever the tokens do, and no later, so the error of the tokens is reported
  exactly when both stop at the same place (`Source.reported_failure`).
-/
import DecafFrontEnd.Compile
import DecafFrontEnd.Proofs.Grammar.Furthest
import DecafFrontEnd.Proofs.Lowering.Program

set_option autoImplicit false

namespace DecafFrontEnd

/-- An obstacle is no malformed text. -/
theorem Obstacle.origin?_error (o : Obstacle) (s : Source) : (o.error s).origin? = none := by
  unfold error
  cases o.construct <;> rfl

/-- The position of an event of the parse is the place where the parse stops. -/
theorem Mismatch.position_offset_event {s : Source} {m : Mismatch}
    (h : s.parseProgram = .error m) : (m.event s).position.offset = m.offset :=
  Source.floorBoundary_of_parseProgram_error h

namespace Source

variable {s : Source} {t : Tree} {m : Mismatch} {f : LexFailure}

/-! ## The outcome of each stage -/

/-- A text that parses is lowered. -/
theorem compile_of_parseProgram (h : s.parseProgram = .ok t) : s.compile = s.lowerProgram t := by
  obtain ⟨ts, hts, -⟩ := derives_of_parseProgram h
  unfold compile compileWith parseOrEvent
  rw [h, hts]

theorem compile_of_parseOrEvent_error {event : SyntaxEvent} (h : s.parseOrEvent = .error event) :
    s.compile = .error (.malformed event.error) := by
  unfold compile compileWith
  rw [h]
  rfl

theorem tokens_of_tokenize_error (h : s.tokenize = .error f) :
    s.tokens = .error (.malformed (f.event s).error) := by
  unfold tokens
  rw [h]
  rfl

/-- The error of the tokens stands for that of the parse where both stop at the same
place. -/
theorem compile_of_same_offset (hparse : s.parseProgram = .error m)
    (htokens : s.tokenize = .error f) (hoffset : m.offset = f.offset) :
    s.compile = .error (.malformed (f.event s).error) := by
  apply compile_of_parseOrEvent_error
  unfold parseOrEvent
  rw [hparse, htokens]
  exact if_pos (Nat.le_of_eq hoffset.symm)

/-- Elsewhere the error of the parse is reported. -/
theorem compile_of_other_offset (hparse : s.parseProgram = .error m)
    (hother : ∀ f, s.tokenize = .error f → m.offset ≠ f.offset) :
    s.compile = .error (.malformed (m.event s).error) := by
  apply compile_of_parseOrEvent_error
  unfold parseOrEvent
  cases htokens : s.tokenize with
  | ok ts => rw [hparse]
  | error f =>
      obtain ⟨m', hparse', hle⟩ := offset_le_of_tokenize_error htokens
      obtain rfl := Except.error.inj (hparse.symm.trans hparse')
      have hne := hother f htokens
      rw [hparse]
      exact if_neg (by omega)

/-- A text that does not parse has the error of its tokens or that of the parse. -/
theorem compile_of_parseProgram_error (hparse : s.parseProgram = .error m) :
    (∃ f, s.tokenize = .error f ∧ m.offset = f.offset ∧
        s.compile = .error (.malformed (f.event s).error)) ∨
      (∀ f, s.tokenize = .error f → m.offset ≠ f.offset) ∧
        s.compile = .error (.malformed (m.event s).error) := by
  by_cases hsame : ∃ f, s.tokenize = .error f ∧ m.offset = f.offset
  · obtain ⟨f, htokens, hoffset⟩ := hsame
    exact Or.inl ⟨f, htokens, hoffset, compile_of_same_offset hparse htokens hoffset⟩
  · have hother : ∀ f, s.tokenize = .error f → m.offset ≠ f.offset :=
      fun f htokens hoffset => hsame ⟨f, htokens, hoffset⟩
    exact Or.inr ⟨hother, compile_of_other_offset hparse hother⟩

/-- Lowering the tree of a text finds obstacles only. -/
theorem exists_obstacle_of_lowerProgram_error {e : CompileError}
    (hparse : s.parseProgram = .ok t) (h : s.lowerProgram t = .error e) :
    ∃ o ∈ t.obstacles, e = o.error s := by
  have hsettles := settles_parseProgram hparse
  cases hos : t.obstacles with
  | nil =>
      rw [hos] at hsettles
      obtain ⟨p, hp⟩ := hsettles
      rw [h] at hp
      simp at hp
  | cons o os =>
      rw [hos] at hsettles
      have he : s.lowerProgram t = .error (o.error s) := hsettles
      exact ⟨o, by simp, Except.error.inj (h.symm.trans he)⟩

/-! ## The failure that is reported -/

/-- Where the tokens of a text fail, its parse fails too, and no later; so a text that
parses has tokens.  The error is that of the tokens, in all its parts, exactly when
both fail at the same offset, and in any other failure of the parse it is that of the
parse, at the offset where the parse stops. -/
theorem reported_failure (s : Source) :
    (∀ f, s.tokenize = .error f → ∃ m, s.parseProgram = .error m ∧ m.offset ≤ f.offset) ∧
    (∀ t, s.parseProgram = .ok t → ∃ ts, s.tokenize = .ok ts) ∧
    ((∃ e, s.compile = .error e ∧ e.origin? = some .lexer) ↔
      ∃ f m, s.tokenize = .error f ∧ s.parseProgram = .error m ∧ m.offset = f.offset) ∧
    (∀ e, s.compile = .error e → e.origin? = some .lexer → s.tokens = .error e) ∧
    (∀ m, s.parseProgram = .error m → (∀ f, s.tokenize = .error f → m.offset ≠ f.offset) →
      ∃ e, s.compile = .error e ∧ e.origin? = some .parser ∧ e.position.offset = m.offset) := by
  have hlexer : ∀ e, s.compile = .error e → e.origin? = some .lexer →
      ∃ f m, s.tokenize = .error f ∧ s.parseProgram = .error m ∧ m.offset = f.offset := by
    intro e he horigin
    cases hparse : s.parseProgram with
    | ok t =>
        rw [compile_of_parseProgram hparse] at he
        obtain ⟨o, -, rfl⟩ := exists_obstacle_of_lowerProgram_error hparse he
        simp [o.origin?_error s] at horigin
    | error m =>
        obtain ⟨f, htokens, hoffset, -⟩ | ⟨-, hcompile⟩ := compile_of_parseProgram_error hparse
        · exact ⟨f, m, htokens, rfl, hoffset⟩
        · obtain rfl := Except.error.inj (he.symm.trans hcompile)
          cases horigin
  refine ⟨fun f => offset_le_of_tokenize_error, fun t hparse => ?_, ⟨?_, ?_⟩, ?_, ?_⟩
  · obtain ⟨ts, hts, -⟩ := derives_of_parseProgram hparse
    exact ⟨ts, hts⟩
  · rintro ⟨e, he, horigin⟩
    exact hlexer e he horigin
  · rintro ⟨f, m, htokens, hparse, hoffset⟩
    exact ⟨_, compile_of_same_offset hparse htokens hoffset, rfl⟩
  · intro e he horigin
    obtain ⟨f, m, htokens, hparse, hoffset⟩ := hlexer e he horigin
    have hcompile := compile_of_same_offset hparse htokens hoffset
    obtain rfl := Except.error.inj (he.symm.trans hcompile)
    exact tokens_of_tokenize_error htokens
  · intro m hparse hother
    refine ⟨_, compile_of_other_offset hparse hother, rfl, ?_⟩
    exact Mismatch.position_offset_event hparse

end Source

end DecafFrontEnd
