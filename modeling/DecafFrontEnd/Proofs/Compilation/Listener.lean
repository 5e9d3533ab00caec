/-
  DecafFrontEnd/Proofs/Compilation/Listener.lean --- what a listener can change.

  A text has tokens and a parse, and then no listener hears of it, or it is
  malformed, and then there is one event, the same for every listener.  The
  listener's answer to that event is the only thing that it adds to the outcome
  (`Source.compileWith_of_any_listener`).

  The reporter answers the first event with the event's own error and is silent
  afterwards.  The error that is taken in place of a missing answer is that same
  one, so a reporter that is kept for a sequence of texts gives for each of them
  what a new reporter gives (`Source.compileEach_of_kept_reporter`).
-/
import DecafFrontEnd.Proofs.Compilation.Malformed

set_option autoImplicit false

namespace DecafFrontEnd

/-! ## Calls of a listener -/

/-- A listener together with a record of the events that it is told of. It answers
as the listener does. -/
def Listener.watched {σ : Type} (listener : Listener σ) : Listener (σ × List SyntaxEvent) :=
  fun state event =>
    let step := listener state.1 event
    ((step.1, state.2 ++ [event]), step.2)

namespace Source

variable {s : Source} {event : SyntaxEvent}

/-- A text is malformed if it has no tokens or no parse. -/
def IsMalformed (s : Source) : Prop :=
  (∃ f, s.tokenize = .error f) ∨ ∃ m, s.parseProgram = .error m

/-- A text parses, or there is an event that says where it is malformed. -/
theorem parseOrEvent_cases (s : Source) :
    (¬ s.IsMalformed ∧ ∃ t, s.parseProgram = .ok t ∧ s.parseOrEvent = .ok t) ∨
      (s.IsMalformed ∧ ∃ event, event.source = s ∧ s.parseOrEvent = .error event) := by
  unfold IsMalformed parseOrEvent
  cases hparse : s.parseProgram with
  | ok t =>
      obtain ⟨ts, htokens, -⟩ := derives_of_parseProgram hparse
      left
      rw [htokens]
      exact ⟨by simp, t, rfl, rfl⟩
  | error m =>
      right
      refine ⟨.inr ⟨m, rfl⟩, ?_⟩
      cases htokens : s.tokenize with
      | ok ts => exact ⟨m.event s, rfl, rfl⟩
      | error f =>
          -- both stages fail; the event is that of the earlier one
          by_cases hle : f.offset ≤ m.offset
          · exact ⟨f.event s, rfl, if_pos hle⟩
          · exact ⟨m.event s, rfl, if_neg hle⟩

section

variable {σ : Type} (listener : Listener σ) (state : σ)

/-- A listener hears nothing of a text that parses. -/
theorem compileWith_of_ok {t : Tree} (h : s.parseOrEvent = .ok t) :
    s.compileWith listener state = (state, s.lowerProgram t) := by
  unfold compileWith
  rw [h]

/-- A listener hears of the event of a malformed text, and its answer is taken in
place of the event's own error. -/
theorem compileWith_of_event (h : s.parseOrEvent = .error event) :
    s.compileWith listener state =
      ((listener state event).1,
        .error (.malformed ((listener state event).2.getD event.error))) := by
  unfold compileWith
  rw [h]
  rfl

end

/-- What the lowering finds is no malformed text. -/
theorem lowerProgram_ne_malformed {t : Tree} (hparse : s.parseProgram = .ok t) (e : SyntaxError) :
    s.lowerProgram t ≠ .error (.malformed e) := by
  intro h
  obtain ⟨o, -, ho⟩ := exists_obstacle_of_lowerProgram_error hparse h
  have horigin := o.origin?_error s
  rw [← ho] at horigin
  cases horigin

/-- A text that is not malformed is compiled to a program, or an obstacle is met; in
either case every listener is left alone, so its state and the record of its calls are
as before, and the outcome is that of the compilation without it.  For a malformed text
there is an event, the same for all listeners and all of their states.  Every listener
is told of this event and of no other, once; it ends in the state in which its answer
leaves it, and the outcome is a malformed text with the listener's error, if it gives
one, and otherwise with the event's own, which is the error of the compilation
without the listener. -/
theorem compileWith_of_any_listener (s : Source) :
    (¬ s.IsMalformed ∧ (∀ e, s.compile ≠ .error (.malformed e)) ∧
      ∀ (σ : Type) (listener : Listener σ) (state : σ) (calls : List SyntaxEvent),
        s.compileWith listener state = (state, s.compile) ∧
        s.compileWith listener.watched (state, calls) = ((state, calls), s.compile)) ∨
    (s.IsMalformed ∧ ∃ event, event.source = s ∧
      s.compile = .error (.malformed event.error) ∧
      ∀ (σ : Type) (listener : Listener σ) (state : σ) (calls : List SyntaxEvent),
        s.compileWith listener state =
          ((listener state event).1,
            .error (.malformed ((listener state event).2.getD event.error))) ∧
        s.compileWith listener.watched (state, calls) =
          (((s.compileWith listener state).1, calls ++ [event]),
            (s.compileWith listener state).2)) := by
  obtain ⟨hwell, t, hparse, hok⟩ | ⟨hmalformed, event, hsource, hevent⟩ := s.parseOrEvent_cases
  · have hcompile : s.compile = s.lowerProgram t := compile_of_parseProgram hparse
    refine .inl ⟨hwell, ?_, ?_⟩
    · intro e he
      exact lowerProgram_ne_malformed hparse e (hcompile.symm.trans he)
    · intro σ listener state calls
      rw [hcompile]
      exact ⟨compileWith_of_ok listener state hok, compileWith_of_ok _ _ hok⟩
  · refine .inr ⟨hmalformed, event, hsource, compile_of_parseOrEvent_error hevent, ?_⟩
    intro σ listener state calls
    have hplain := compileWith_of_event listener state hevent
    have hwatched := compileWith_of_event listener.watched (state, calls) hevent
    refine ⟨hplain, ?_⟩
    rw [hwatched, hplain]
    rfl

end Source

/-! ## The reporter -/

namespace ReporterState

variable {state : ReporterState}

/-- A reporter that has halted keeps silent. -/
@[simp] theorem reporter_halted (event : SyntaxEvent) :
    reporter .halted event = (.halted, none) := rfl

/-- Any other reporter gives the event's own error and halts. -/
theorem reporter_of_ne_halted (h : state ≠ .halted) (event : SyntaxEvent) :
    reporter state event = (.halted, some event.error) := by
  have hopen : ¬ state.isHalted := by simpa [isHalted] using h
  exact if_neg hopen

/-- After every event the reporter has halted, and the error that is settled on is the
event's own. -/
theorem halt_reporter (state : ReporterState) (event : SyntaxEvent) :
    reporter.halt state event = (.halted, event.error) := by
  by_cases h : state = .halted
  · subst h
    rfl
  · unfold Listener.halt
    rw [reporter_of_ne_halted h]
    rfl

/-- A reporter that has halted is silent at each of several events. -/
theorem answers_reporter_halted (events : List SyntaxEvent) :
    reporter.answers .halted events = events.map fun _ => (.halted, none) := by
  induction events with
  | nil => rfl
  | cons event events ih =>
      rw [Listener.answers, reporter_halted, ih]
      rfl

end ReporterState

namespace Source

/-- A reporter that a text is compiled with has halted afterwards if the text is
malformed, and otherwise is as before; the outcome does not depend on it. -/
theorem compileWith_reporter (s : Source) (state : ReporterState) :
    (∃ e, s.compile = .error (.malformed e)) ∧
        s.compileWith reporter state = (.halted, s.compile) ∨
      (¬ ∃ e, s.compile = .error (.malformed e)) ∧
        s.compileWith reporter state = (state, s.compile) := by
  obtain ⟨-, t, hparse, hok⟩ | ⟨-, event, -, hevent⟩ := s.parseOrEvent_cases
  · right
    have hcompile : s.compile = s.lowerProgram t := compile_of_parseProgram hparse
    rw [hcompile]
    refine ⟨?_, compileWith_of_ok reporter state hok⟩
    rintro ⟨e, he⟩
    exact lowerProgram_ne_malformed hparse e he
  · left
    have hcompile := compile_of_parseOrEvent_error hevent
    refine ⟨⟨_, hcompile⟩, ?_⟩
    unfold compileWith
    rw [hevent, hcompile]
    simp only [ReporterState.halt_reporter]

/-- Texts that are compiled with one reporter have the outcomes that they have on their
own, whatever the state of the reporter is at the start. -/
theorem map_snd_compileEach_reporter (ss : List Source) (state : ReporterState) :
    (compileEach reporter state ss).map Prod.snd = ss.map compile := by
  induction ss generalizing state with
  | nil => rfl
  | cons s ss ih =>
      unfold compileEach
      rw [List.map_cons, List.map_cons, ih]
      obtain ⟨-, hstep⟩ | ⟨-, hstep⟩ := s.compileWith_reporter state <;> rw [hstep]

/-- A reporter that has halted stays so. -/
theorem fst_of_mem_compileEach_halted {ss : List Source}
    {step : ReporterState × Except CompileError Program}
    (h : step ∈ compileEach reporter .halted ss) : step.1 = .halted := by
  induction ss with
  | nil => simp [compileEach] at h
  | cons s ss ih =>
      have hfirst : (s.compileWith reporter .halted).1 = .halted := by
        obtain ⟨-, hstep⟩ | ⟨-, hstep⟩ := s.compileWith_reporter .halted <;> rw [hstep]
      unfold compileEach at h
      simp only [hfirst, List.mem_cons] at h
      obtain rfl | hrest := h
      · exact hfirst
      · exact ih hrest

/-- After the first texts of a sequence a reporter that listened at the start has halted
if one of them was malformed, and still listens otherwise. -/
theorem fst_compileEach_listening {ss : List Source} {i : Nat}
    {step : ReporterState × Except CompileError Program}
    (h : (compileEach reporter .listening ss)[i]? = some step) :
    (∃ s ∈ ss.take (i + 1), ∃ e, s.compile = .error (.malformed e)) ∧ step.1 = .halted ∨
      (¬ ∃ s ∈ ss.take (i + 1), ∃ e, s.compile = .error (.malformed e)) ∧
        step.1 = .listening := by
  -- a reporter that still listens after the first text is where the induction starts anew
  induction ss generalizing i with
  | nil => simp [compileEach] at h
  | cons s ss ih =>
      unfold compileEach at h
      simp only [List.take_succ_cons, List.mem_cons, exists_eq_or_imp]
      obtain ⟨hbad, hstep⟩ | ⟨hgood, hstep⟩ := s.compileWith_reporter .listening
      · rw [hstep] at h
        refine .inl ⟨.inl hbad, ?_⟩
        cases i with
        | zero =>
            obtain rfl : _ = step := by simpa using h
            rfl
        | succ i =>
            rw [List.getElem?_cons_succ] at h
            exact fst_of_mem_compileEach_halted (List.mem_of_getElem? h)
      · rw [hstep] at h
        simp only [hgood, false_or]
        cases i with
        | zero =>
            obtain rfl : _ = step := by simpa using h
            exact .inr ⟨by simp, rfl⟩
        | succ i =>
            rw [List.getElem?_cons_succ] at h
            exact ih h

/-- Texts that are compiled one after the other with a single reporter have the outcomes
that they have with a new one each.  After each step the reporter has halted exactly if
the outcome of this step or of an earlier one is a malformed text, and listens
otherwise.  A reporter that is told of events directly answers the first with the
event's own error and halts, and no later event gets an answer or changes its state.  In
neither case is a reporter left in the state in which it answers. -/
theorem compileEach_of_kept_reporter (ss : List Source) (first : SyntaxEvent)
    (later : List SyntaxEvent) :
    (compileEach reporter .listening ss).map Prod.snd = ss.map compile ∧
    (∀ i step, (compileEach reporter .listening ss)[i]? = some step →
      (step.1 = .halted ↔ ∃ s ∈ ss.take (i + 1), ∃ e, s.compile = .error (.malformed e)) ∧
      (step.1 = .listening ↔
        ¬ ∃ s ∈ ss.take (i + 1), ∃ e, s.compile = .error (.malformed e)) ∧
      step.1 ≠ .reporting) ∧
    reporter.answers .listening (first :: later) =
      (.halted, some first.error) :: later.map (fun _ => (.halted, none)) := by
  refine ⟨map_snd_compileEach_reporter ss _, ?_, ?_⟩
  · intro i step h
    obtain ⟨hbad, hstate⟩ | ⟨hgood, hstate⟩ := fst_compileEach_listening h
    · rw [hstate]
      exact ⟨iff_of_true rfl hbad, iff_of_false (by simp) (not_not_intro hbad), by simp⟩
    · rw [hstate]
      exact ⟨iff_of_false (by simp) hgood, iff_of_true rfl hgood, by simp⟩
  · have hopen : ReporterState.listening ≠ .halted := by simp
    have hfirst := ReporterState.reporter_of_ne_halted hopen first
    rw [Listener.answers, hfirst, ReporterState.answers_reporter_halted]

end Source

end DecafFrontEnd
