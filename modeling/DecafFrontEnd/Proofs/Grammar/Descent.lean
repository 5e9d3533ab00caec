/-
  DecafFrontEnd/Proofs/Grammar/Descent.lean --- how deep rules are nested.

  An activation is a rule that begins to match at a place.  One that lies within another
  one begins at a later place or is of a rule of lower height, so nested activations of
  one rule have taken something in between (`Activation.Encloses.offset_lt`), and there are
  no more of them than rules for each place that is left (`Activation.length_le`).

  Evaluation keeps to the paths (`Element.follows`): one that does not finish within a
  depth has as many nested activations as that (`Activation.exists_nested`).  So it
  finishes at a depth of one activation of each rule for each place that is left.
-/
import Mathlib.Data.List.Chain
import Mathlib.Logic.Relation
import DecafFrontEnd.Proofs.Grammar.Paths

set_option autoImplicit false

namespace DecafFrontEnd

/-! ## Nested activations -/

/-- A rule begins to match at a place. -/
structure Activation where
  spacing : Spacing
  rule : Rule
  place : Cursor

namespace Activation

/-- A rule, once it has begun to match, may begin to match another one as one of its own
parts. -/
def Calls (x y : Activation) : Prop :=
  Activates (x.spacing.within x.rule) (.once x.rule.element) x.place y.spacing y.rule y.place

/-- One activation lies within another one. -/
def Encloses : Activation → Activation → Prop := Relation.TransGen Calls

/-- Room for further activations: one for each rule and each character that is left, and
those at the place itself. -/
def room (x : Activation) : Nat :=
  Rule.all.length * x.place.rest.length + x.rule.height

theorem Calls.length_lt_or {x y : Activation} (h : x.Calls y) :
    y.place.rest.length < x.place.rest.length ∨ y.rule.height < x.rule.height :=
  (Activates.length_lt_or h).imp_right Rule.height_lt

/-- Each activation leaves less room for the ones within it. -/
theorem Calls.room_lt {x y : Activation} (h : x.Calls y) : y.room < x.room := by
  have hle := (Activates.reaches h).length_le
  unfold room
  rcases h.length_lt_or with hlt | hlt
  · have hheight := y.rule.height_lt_length
    have hmul := Nat.mul_le_mul_left Rule.all.length (Nat.succ_le_of_lt hlt)
    rw [Nat.mul_succ] at hmul
    omega
  · have hmul := Nat.mul_le_mul_left Rule.all.length hle
    omega

theorem Encloses.reaches {x y : Activation} (h : x.Encloses y) :
    x.place.Reaches y.place := by
  induction h with
  | single hcalls => exact Activates.reaches hcalls
  | tail _ hcalls ih => exact ih.trans (Activates.reaches hcalls)

/-- Activations within one another at one place are of rules of less and less height. -/
theorem Encloses.length_lt_or {x y : Activation} (h : x.Encloses y) :
    y.place.rest.length < x.place.rest.length ∨ y.rule.height < x.rule.height := by
  induction h with
  | single hcalls => exact hcalls.length_lt_or
  | tail hencloses hcalls ih =>
      have hle := (Encloses.reaches hencloses).length_le
      have hle' := (Activates.reaches hcalls).length_le
      rcases ih with hlt | hlt
      · exact Or.inl (by omega)
      · rcases hcalls.length_lt_or with hlt' | hlt'
        · exact Or.inl (by omega)
        · exact Or.inr (by omega)

/-- Between two nested activations of one rule something is taken. -/
theorem Encloses.offset_lt {x y : Activation} (h : x.Encloses y) (hrule : x.rule = y.rule) :
    x.place.offset < y.place.offset := by
  refine h.reaches.offset_lt ?_
  rcases h.length_lt_or with hlt | hlt
  · exact hlt
  · rw [hrule] at hlt
    exact absurd hlt (Nat.lt_irrefl _)

/-- A chain of nested activations is no longer than there is room. -/
theorem length_le_room {ys : List Activation} :
    ∀ {x : Activation}, (x :: ys).IsChain Calls → ys.length ≤ x.room := by
  induction ys with
  | nil => intro x _; exact Nat.zero_le _
  | cons y ys ih =>
      intro x hchain
      obtain ⟨hcalls, hothers⟩ := List.isChain_cons_cons.1 hchain
      have hle := ih hothers
      have hlt := hcalls.room_lt
      rw [List.length_cons]
      omega

/-- Nested activations are no more than there are rules for each place that is left. -/
theorem length_le {x : Activation} {ys : List Activation}
    (h : (x :: ys).IsChain Calls) :
    (x :: ys).length ≤ Rule.all.length * (x.place.rest.length + 1) := by
  have hle := length_le_room h
  have hheight := x.rule.height_lt_length
  unfold room at hle
  rw [List.length_cons, Nat.mul_succ]
  omega

end Activation

/-! ## Evaluation keeps to the paths -/

namespace Matcher

variable {gap step : Matcher} {c d : Cursor} {a b : Attempts} {nodes : List Tree}

theorem behind_eq_matched (h : gap.behind step c a = .matched nodes d b) :
    ∃ skipped e b', gap c a = .matched skipped e b' ∧ step e b' = .matched nodes d b := by
  unfold behind at h
  split at h
  · next skipped e b' hgap => exact ⟨skipped, e, b', hgap, h⟩
  · next hother => exact absurd h (hother nodes d b)

theorem behind_eq_unfinished (h : gap.behind step c a = .unfinished) :
    gap c a = .unfinished ∨
      ∃ skipped e b', gap c a = .matched skipped e b' ∧ step e b' = .unfinished := by
  unfold behind at h
  split at h
  · next skipped e b' hgap => exact Or.inr ⟨skipped, e, b', hgap, h⟩
  · exact Or.inl h

/-- A match keeps to the paths of a portion: it takes what the portion may take, and it
does not finish only where a rule does not that the portion may activate. -/
structure Follows (calls : Spacing → Rule → Matcher) (m : Matcher) (s : Spacing)
    (g : Portion) : Prop where
  takes : ∀ {c d : Cursor} {a b : Attempts} {nodes : List Tree},
    m c a = .matched nodes d b → Takes s g c d
  activates : ∀ {c : Cursor} {a : Attempts}, m c a = .unfinished →
    ∃ s' r d b, Activates s g c s' r d ∧ calls s' r d b = .unfinished

theorem Follows.of_leaf {calls : Spacing → Rule → Matcher} {m : Matcher} {s : Spacing}
    {g : Portion}
    (h : ∀ c a, m c a = .failed a ∨ ∃ d, m c a = .matched [] d a ∧ Takes s g c d) :
    m.Follows calls s g := by
  constructor
  · intro c d a b nodes hmatched
    rcases h c a with hfailed | ⟨e, hmatched', htakes⟩
    · rw [hfailed] at hmatched
      simp at hmatched
    · rw [hmatched'] at hmatched
      obtain ⟨-, rfl, -⟩ := Outcome.matched.inj hmatched
      exact htakes
  · intro c a hunfinished
    rcases h c a with hfailed | ⟨d, hmatched, -⟩
    · rw [hfailed] at hunfinished
      simp at hunfinished
    · rw [hmatched] at hunfinished
      simp at hunfinished

end Matcher

section

variable {calls : Spacing → Rule → Matcher} {s : Spacing} {call : Rule → Matcher}
  {gap step : Matcher} {p : Element}

theorem takes_again (hgap : gap.Follows calls s .gap) (hstep : step.Follows calls s (.once p)) :
    ∀ {rounds : Nat} {nodes nodes' : List Tree} {c d : Cursor} {a b : Attempts},
      Matcher.again (gap.behind step) rounds nodes c a = .matched nodes' d b →
      Takes s (.again p) c d := by
  intro rounds
  induction rounds with
  | zero => intro nodes nodes' c d a b h; simp [Matcher.again] at h
  | succ rounds ih =>
      intro nodes nodes' c d a b h
      unfold Matcher.again at h
      split at h
      · next more e b' hround =>
          obtain ⟨_, f, _, hskip, hmatched⟩ := Matcher.behind_eq_matched hround
          exact .round (hgap.takes hskip) (hstep.takes hmatched) (ih h)
      · obtain ⟨-, rfl, -⟩ := Outcome.matched.inj h
        exact .stop
      · simp at h

/-- The rounds of a repetition that takes something in each come to an end, unless a rule
does not. -/
theorem activates_again (hgap : gap.Follows calls s .gap)
    (hstep : step.Follows calls s (.once p)) (hnull : p.nullable = false) :
    ∀ {rounds : Nat} {nodes : List Tree} {c : Cursor} {a : Attempts},
      c.rest.length < rounds →
      Matcher.again (gap.behind step) rounds nodes c a = .unfinished →
      ∃ s' r d b, Activates s (.again p) c s' r d ∧ calls s' r d b = .unfinished := by
  intro rounds
  induction rounds with
  | zero => intro nodes c a hrounds; exact absurd hrounds (Nat.not_lt_zero _)
  | succ rounds ih =>
      intro nodes c a hrounds h
      unfold Matcher.again at h
      split at h
      · next more d b hround =>
          obtain ⟨_, e, _, hskip, hmatched⟩ := Matcher.behind_eq_matched hround
          have hfirst := hgap.takes hskip
          have hsecond := hstep.takes hmatched
          have hle := hfirst.reaches.length_le
          have hlt := hsecond.length_lt hnull
          obtain ⟨s', r, f, b', hactivates, hunfinished⟩ := ih (by omega) h
          exact ⟨s', r, f, b', .behindRound hfirst hsecond hactivates, hunfinished⟩
      · simp at h
      · next hround =>
          rcases Matcher.behind_eq_unfinished hround with hskip | ⟨_, d, _, hskip, hmatch⟩
          · obtain ⟨s', r, f, b', hactivates, hunfinished⟩ := hgap.activates hskip
            exact ⟨s', r, f, b', .beforeRound hactivates, hunfinished⟩
          · obtain ⟨s', r, f, b', hactivates, hunfinished⟩ := hstep.activates hmatch
            exact ⟨s', r, f, b', .round (hgap.takes hskip) hactivates, hunfinished⟩

namespace Matcher.Follows

variable {q : Element}

theorem seq (hgap : gap.Follows calls s .gap)
    (hp : (p.evaluate call gap).Follows calls s (.once p))
    (hq : (q.evaluate call gap).Follows calls s (.once q)) :
    ((Element.seq p q).evaluate call gap).Follows calls s (.once (.seq p q)) := by
  constructor
  · intro c d a b nodes h
    unfold Element.evaluate at h
    split at h
    · next first e b' hfirst =>
        split at h
        · next second f b'' hsecond =>
            obtain ⟨-, rfl, -⟩ := Outcome.matched.inj h
            obtain ⟨_, _, _, hskip, hmatched⟩ := behind_eq_matched hsecond
            exact .seq (hp.takes hfirst) (hgap.takes hskip) (hq.takes hmatched)
        · next hother => exact absurd h (hother nodes d b)
    · next hother => exact absurd h (hother nodes d b)
  · intro c a h
    unfold Element.evaluate at h
    split at h
    · next first d b hfirst =>
        have htakes := hp.takes hfirst
        split at h
        · simp at h
        · rcases behind_eq_unfinished h with hskip | ⟨_, e, _, hskip, hmatch⟩
          · obtain ⟨s', r, f, b', hactivates, hunfinished⟩ := hgap.activates hskip
            exact ⟨s', r, f, b', .between htakes hactivates, hunfinished⟩
          · obtain ⟨s', r, f, b', hactivates, hunfinished⟩ := hq.activates hmatch
            exact ⟨s', r, f, b', .second htakes (hgap.takes hskip) hactivates, hunfinished⟩
    · obtain ⟨s', r, f, b', hactivates, hunfinished⟩ := hp.activates h
      exact ⟨s', r, f, b', .first hactivates, hunfinished⟩

theorem alt (hp : (p.evaluate call gap).Follows calls s (.once p))
    (hq : (q.evaluate call gap).Follows calls s (.once q)) :
    ((Element.alt p q).evaluate call gap).Follows calls s (.once (.alt p q)) := by
  constructor
  · intro c d a b nodes h
    unfold Element.evaluate at h
    split at h
    · exact .right (hq.takes h)
    · exact .left (hp.takes h)
  · intro c a h
    unfold Element.evaluate at h
    split at h
    · obtain ⟨s', r, f, b', hactivates, hunfinished⟩ := hq.activates h
      exact ⟨s', r, f, b', .right hactivates, hunfinished⟩
    · obtain ⟨s', r, f, b', hactivates, hunfinished⟩ := hp.activates h
      exact ⟨s', r, f, b', .left hactivates, hunfinished⟩

theorem opt (hp : (p.evaluate call gap).Follows calls s (.once p)) :
    ((Element.opt p).evaluate call gap).Follows calls s (.once (.opt p)) := by
  constructor
  · intro c d a b nodes h
    unfold Element.evaluate at h
    split at h
    · obtain ⟨-, rfl, -⟩ := Outcome.matched.inj h
      exact .absent
    · exact .present (hp.takes h)
  · intro c a h
    unfold Element.evaluate at h
    split at h
    · simp at h
    · obtain ⟨s', r, f, b', hactivates, hunfinished⟩ := hp.activates h
      exact ⟨s', r, f, b', .opt hactivates, hunfinished⟩

theorem many (hgap : gap.Follows calls s .gap)
    (hp : (p.evaluate call gap).Follows calls s (.once p)) (hnull : p.nullable = false) :
    ((Element.many p).evaluate call gap).Follows calls s (.once (.many p)) := by
  constructor
  · intro c d a b nodes h
    unfold Element.evaluate at h
    split at h
    · next first e b' hfirst => exact .many (hp.takes hfirst) (takes_again hgap hp h)
    · obtain ⟨-, rfl, -⟩ := Outcome.matched.inj h
      exact .never
    · simp at h
  · intro c a h
    unfold Element.evaluate at h
    split at h
    · next first d b hfirst =>
        obtain ⟨s', r, f, b', hactivates, hunfinished⟩ :=
          activates_again hgap hp hnull (Nat.lt_succ_self _) h
        exact ⟨s', r, f, b', .others (hp.takes hfirst) hactivates, hunfinished⟩
    · simp at h
    · next hfirst =>
        obtain ⟨s', r, f, b', hactivates, hunfinished⟩ := hp.activates hfirst
        exact ⟨s', r, f, b', .many hactivates, hunfinished⟩

theorem without (hp : (p.evaluate call gap).Follows calls s (.once p)) :
    ((Element.without p).evaluate call gap).Follows calls s (.once (.without p)) := by
  constructor
  · intro c d a b nodes h
    unfold Element.evaluate at h
    split at h
    · simp at h
    · obtain ⟨-, rfl, -⟩ := Outcome.matched.inj h
      exact .without
    · simp at h
  · intro c a h
    unfold Element.evaluate at h
    split at h
    · simp at h
    · simp at h
    · next hmatch =>
        obtain ⟨s', r, f, b', hactivates, hunfinished⟩ := hp.activates hmatch
        exact ⟨s', r, f, b', .without hactivates, hunfinished⟩

end Matcher.Follows

/-- The match of an element keeps to its paths if the matches of rules do. -/
theorem Element.follows (hcall : ∀ r, (call r).Follows calls s (.once (.rule r)))
    (hgap : gap.Follows calls s .gap) (e : Element) (hsolid : e.solid = true) :
    (e.evaluate call gap).Follows calls s (.once e) := by
  induction e with
  | inputStart =>
      refine .of_leaf fun c a => ?_
      unfold evaluate
      split
      · next hstart => exact Or.inr ⟨_, rfl, .inputStart hstart⟩
      · exact Or.inl rfl
  | inputEnd =>
      refine .of_leaf fun c a => ?_
      unfold evaluate
      split
      · next hend => exact Or.inr ⟨_, rfl, .inputEnd hend⟩
      · exact Or.inl rfl
  | word w =>
      refine .of_leaf fun c a => ?_
      unfold evaluate
      split
      · next hfits => exact Or.inr ⟨_, rfl, .word hfits⟩
      · exact Or.inl rfl
  | one p =>
      refine .of_leaf fun c a => ?_
      unfold evaluate
      split
      · next hp => exact Or.inr ⟨_, rfl, .one hp⟩
      · exact Or.inl rfl
  | rule r => exact hcall r
  | seq p q ihp ihq =>
      simp only [solid, Bool.and_eq_true] at hsolid
      exact .seq hgap (ihp hsolid.1) (ihq hsolid.2)
  | alt p q ihp ihq =>
      simp only [solid, Bool.and_eq_true] at hsolid
      exact .alt (ihp hsolid.1) (ihq hsolid.2)
  | opt p ih => exact .opt (ih hsolid)
  | many p ih =>
      simp only [solid, Bool.and_eq_true, Bool.not_eq_true'] at hsolid
      exact .many hgap (ih hsolid.1) hsolid.2
  | without p ih => exact .without (ih hsolid)

/-- What stands between two parts is matched along its paths. -/
theorem Spacing.follows_gap
    (hcall : ∀ r, (calls tight r).Follows calls tight (.once (.rule r))) (s : Spacing) :
    (s.gap calls).Follows calls s .gap := by
  have hnothing : Matcher.nothing.Follows calls tight .gap :=
    .of_leaf fun c a => Or.inr ⟨c, rfl, .nothing⟩
  cases s with
  | tight => exact hnothing
  | spaced =>
      have hbetween := Element.between.follows hcall hnothing (by decide)
      constructor
      · intro c d a b nodes h
        exact .trivia (hbetween.takes h)
      · intro c a h
        obtain ⟨s', r, d, b, hactivates, hunfinished⟩ := hbetween.activates h
        exact ⟨s', r, d, b, .trivia hactivates, hunfinished⟩

end

namespace Spacing

variable {s : Spacing} {r : Rule} {body : Matcher} {c d : Cursor} {a b : Attempts}
  {nodes : List Tree}

theorem wrap_eq_matched (h : s.wrap r body c a = .matched nodes d b) :
    ∃ inner b', body c a = .matched inner d b' := by
  cases s with
  | tight => exact ⟨nodes, b, h⟩
  | spaced =>
      unfold wrap Rule.wrap at h
      cases hbody : body c a with
      | matched inner e b' =>
          simp only [hbody] at h
          split at h <;>
          · obtain ⟨-, rfl, -⟩ := Outcome.matched.inj h
            exact ⟨inner, b', rfl⟩
      | failed b' => simp [hbody] at h
      | unfinished => simp [hbody] at h

theorem wrap_eq_unfinished (h : s.wrap r body c a = .unfinished) : body c a = .unfinished := by
  cases s with
  | tight => exact h
  | spaced =>
      unfold wrap Rule.wrap at h
      cases hbody : body c a with
      | matched inner e b' =>
          simp only [hbody] at h
          split at h <;> simp at h
      | failed b' => simp [hbody] at h
      | unfinished => rfl

end Spacing

namespace Rule

/-- The rules that an evaluation calls keep to their paths. -/
theorem follows_evaluateWithin : ∀ (depth : Nat) (s : Spacing) (r : Rule),
    (evaluateWithin depth s r).Follows (evaluateWithin depth) s (.once (.rule r)) := by
  intro depth
  induction depth with
  | zero =>
      intro s r
      constructor
      · intro c d a b nodes h
        simp [evaluateWithin] at h
      · intro c a h
        exact ⟨s, r, c, a, .rule, h⟩
  | succ depth ih =>
      intro s r
      have hbody := r.element.follows (ih (s.within r)) (Spacing.follows_gap (ih .tight) _)
        r.solid_element
      constructor
      · intro c d a b nodes h
        obtain ⟨_, _, hmatched⟩ := Spacing.wrap_eq_matched h
        exact .rule (hbody.takes hmatched)
      · intro c a h
        exact ⟨s, r, c, a, .rule, h⟩

end Rule

namespace Activation

/-- Matches the rule of an activation at its place. -/
def evaluate (x : Activation) (depth : Nat) (a : Attempts) : Outcome :=
  x.rule.evaluateWithin depth x.spacing x.place a

/-- An evaluation that does not finish within a depth calls a rule that does not finish
within the depth that is left. -/
theorem exists_calls {x : Activation} {depth : Nat} {a : Attempts}
    (h : x.evaluate (depth + 1) a = .unfinished) :
    ∃ y b, x.Calls y ∧ y.evaluate depth b = .unfinished := by
  have hbody := x.rule.element.follows
    (Rule.follows_evaluateWithin depth (x.spacing.within x.rule))
    (Spacing.follows_gap (Rule.follows_evaluateWithin depth .tight) _) x.rule.solid_element
  obtain ⟨s', r, d, b, hactivates, hunfinished⟩ :=
    hbody.activates (Spacing.wrap_eq_unfinished h)
  exact ⟨⟨s', r, d⟩, b, hactivates, hunfinished⟩

/-- An evaluation that does not finish within a depth nests that many activations in the
one that it begins with. -/
theorem exists_nested : ∀ {depth : Nat} {x : Activation} {a : Attempts},
    x.evaluate depth a = .unfinished →
      ∃ ys : List Activation, (x :: ys).IsChain Calls ∧ ys.length = depth := by
  -- each level of the depth is spent on one activation within the last one
  intro depth
  induction depth with
  | zero => intro x a _; exact ⟨[], .singleton x, rfl⟩
  | succ depth ih =>
      intro x a h
      obtain ⟨y, b, hcalls, hunfinished⟩ := exists_calls h
      obtain ⟨ys, hchain, hlength⟩ := ih hunfinished
      exact ⟨y :: ys, .cons_cons hcalls hchain, by rw [List.length_cons, hlength]⟩

/-- An evaluation finishes at a depth of one activation of each rule for each place that
is left. -/
theorem evaluate_ne_unfinished {x : Activation} {depth : Nat}
    (h : Rule.all.length * (x.place.rest.length + 1) ≤ depth) (a : Attempts) :
    x.evaluate depth a ≠ .unfinished := by
  intro hunfinished
  obtain ⟨ys, hchain, hlength⟩ := exists_nested hunfinished
  have hle := length_le hchain
  rw [List.length_cons, hlength] at hle
  omega

end Activation

end DecafFrontEnd
