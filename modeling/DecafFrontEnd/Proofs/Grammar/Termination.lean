/-
  DecafFrontEnd/Proofs/Grammar/Termination.lean --- matching any rule at any place finishes.

  The measure is how many characters are left, and among activations at one place the
  height of the rule.  It bounds how deep rules are nested, and each round of a repetition
  lowers it (`Element.IsRepeated.offset_lt`).  At the depth of one activation of each rule
  for each place the evaluation of the grammar down to its characters has an answer, which
  is the match that the parser runs (`Rule.evaluateWithin_eq_matchAt`).
-/
import DecafFrontEnd.Proofs.Grammar.Descent
import DecafFrontEnd.Proofs.Grammar.Evaluation

set_option autoImplicit false

namespace DecafFrontEnd

/-! ## Bytes that are left -/

theorem length_le_byteLength (cs : List Char) : cs.length ≤ byteLength cs := by
  induction cs with
  | nil => exact Nat.zero_le _
  | cons c cs ih =>
      have hsize := c.utf8Size_pos
      rw [List.length_cons, byteLength_cons]
      omega

theorem Rule.depthBound_le_bytes (c : Cursor) :
    depthBound c.rest.length ≤ all.length * (byteLength c.rest + 1) :=
  Nat.mul_le_mul_left _ (Nat.succ_le_succ (length_le_byteLength c.rest))

/-! ## Repetitions in the grammar -/

/-- An element is repeated in the right-hand side of a rule or in what may stand between
two parts. -/
def Element.IsRepeated (p : Element) : Prop :=
  p ∈ between.repeated ∨ ∃ r : Rule, p ∈ r.element.repeated

theorem Element.IsRepeated.offset_lt {p : Element} (hp : p.IsRepeated) {s : Spacing}
    {c d : Cursor} (h : Takes s (.once p) c d) : c.offset < d.offset := by
  rcases hp with hp | ⟨r, hp⟩
  · exact offset_lt_of_mem_repeated (by decide) hp h
  · exact offset_lt_of_mem_repeated r.solid_element hp h

/-! ## Matching finishes -/

/-- At a depth of one activation of each rule for each place that is left the evaluation
of a rule is its match. -/
theorem Rule.evaluateWithin_eq_matchAt {r : Rule} {c : Cursor} {depth : Nat}
    (h : depthBound c.rest.length ≤ depth) :
    r.evaluateWithin depth .spaced c .none = r.matchAt c := by
  have hfinishes := Activation.evaluate_ne_unfinished (x := ⟨.spaced, r, c⟩) h .none
  have heq : r.evaluateWithin depth .spaced c .none = r.matchWithin depth c .none :=
    (agrees_evaluateWithin depth r c .none).resolve_left hfinishes
  rw [heq]
  refine matchWithin_eq_matchAt ?_
  rw [← heq]
  exact hfinishes

/-- Matching finishes from every rule at every place.  Between two nested activations of
one rule at least one byte is taken, on all paths; each round of each repetition takes at
least one byte; nested activations are no more than there are rules for each byte that is
left and one more.  Evaluation keeps to the paths, and at that depth it has an answer,
which is the match. -/
theorem matching_finishes :
    (∀ x y : Activation, x.Encloses y → x.rule = y.rule → x.place.offset < y.place.offset) ∧
    (∀ (p : Element) (s : Spacing) (c d : Cursor),
      p.IsRepeated → Takes s (.once p) c d → c.offset < d.offset) ∧
    (∀ (x : Activation) (ys : List Activation), (x :: ys).IsChain Activation.Calls →
      (x :: ys).length ≤ Rule.all.length * (byteLength x.place.rest + 1)) ∧
    (∀ (x : Activation) (depth : Nat) (a : Attempts),
      (∀ nodes d b, x.evaluate depth a = .matched nodes d b →
        Takes x.spacing (.once (.rule x.rule)) x.place d) ∧
      (x.evaluate depth a = .unfinished →
        ∃ ys : List Activation, (x :: ys).IsChain Activation.Calls ∧ ys.length = depth)) ∧
    (∀ (r : Rule) (c : Cursor) (depth : Nat),
      Rule.all.length * (byteLength c.rest + 1) ≤ depth →
        (∀ s a, r.evaluateWithin depth s c a ≠ .unfinished) ∧
        r.evaluateWithin depth .spaced c .none = r.matchAt c ∧
        r.matchWithin depth c .none = r.matchAt c) := by
  refine ⟨?_, ?_, ?_, ?_, ?_⟩
  · intro x y hencloses hrule
    exact hencloses.offset_lt hrule
  · intro p s c d hp htakes
    exact hp.offset_lt htakes
  · intro x ys hchain
    exact (Activation.length_le hchain).trans (Rule.depthBound_le_bytes x.place)
  · intro x depth a
    constructor
    · intro nodes d b hmatched
      exact (Rule.follows_evaluateWithin depth x.spacing x.rule).takes hmatched
    · intro hunfinished
      exact Activation.exists_nested hunfinished
  · intro r c depth hdepth
    have hbound : Rule.depthBound c.rest.length ≤ depth :=
      (Rule.depthBound_le_bytes c).trans hdepth
    refine ⟨?_, Rule.evaluateWithin_eq_matchAt hbound, ?_⟩
    · intro s a
      exact Activation.evaluate_ne_unfinished (x := ⟨s, r, c⟩) hbound a
    · have hlt := r.lt_depthBound c.rest.length
      exact Rule.matchWithin_eq_matchAt (Rule.matchWithin_ne_unfinished depth r c .none (by omega))

namespace Activation

/-- A negation in front of the text `!!`. -/
def negation : Activation := ⟨.spaced, .phrase .notExpr, .start ['!', '!']⟩

/-- Its operand, behind the first sign. -/
def operand : Activation := ⟨.spaced, .phrase .unaryExpr, ⟨1, ['!']⟩⟩

/-- A negation in place of the operand. -/
def innerNegation : Activation := ⟨.spaced, .phrase .notExpr, ⟨1, ['!']⟩⟩

theorem negation_calls : negation.Calls operand := by
  have hsign : Takes .spaced (.once (.rule (.terminal .notOp))) (.start ['!', '!']) ⟨1, ['!']⟩ :=
    .rule (.word rfl)
  have hgap : Takes .spaced .gap ⟨1, ['!']⟩ ⟨1, ['!']⟩ := .trivia (.seq .never .nothing .never)
  exact .second hsign hgap .rule

theorem operand_calls : operand.Calls innerNegation := .left .rule

end Activation

open Activation in
theorem matching_finishes_negation :
    negation.place.offset < innerNegation.place.offset ∧
    (Cursor.start [' ']).offset < ((Cursor.start [' ']).advance 1).offset ∧
    [negation, operand, innerNegation].length ≤
      Rule.all.length * (byteLength negation.place.rest + 1) ∧
    Takes .tight (.once (.rule .blank)) (.start [' ']) ((Cursor.start [' ']).advance 1) ∧
    (∃ ys : List Activation, (negation :: ys).IsChain Calls ∧ ys.length = 0) ∧
    (Rule.phrase .notExpr).evaluateWithin (Rule.all.length * (byteLength ['!', '!'] + 1)) .spaced
      (.start ['!', '!']) .none = (Rule.phrase .notExpr).matchAt (.start ['!', '!']) := by
  obtain ⟨hnested, hrounds, hchain, hpaths, hanswer⟩ := matching_finishes
  have hblank := (hpaths ⟨.tight, .blank, .start [' ']⟩ 1 .none).1 [] _ .none rfl
  refine ⟨?_, ?_, ?_, hblank, ?_, ?_⟩
  · have hencloses : negation.Encloses innerNegation :=
      .tail (.single negation_calls) operand_calls
    exact hnested negation innerNegation hencloses rfl
  · have hrepeated : (Element.rule .blank).IsRepeated :=
      Or.inl (List.mem_append_left _ List.mem_cons_self)
    exact hrounds (.rule .blank) .tight _ _ hrepeated hblank
  · exact hchain negation [operand, innerNegation]
      (.cons_cons negation_calls (.cons_cons operand_calls (.singleton _)))
  · exact (hpaths negation 0 .none).2 rfl
  · exact (hanswer (.phrase .notExpr) (.start ['!', '!']) _ (Nat.le_refl _)).2.1

end DecafFrontEnd
