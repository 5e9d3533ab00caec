/-
  DecafFrontEnd/Proofs/Grammar/Run.lean --- matching as a relation.

  `Runs g c a o` says that the match of a pattern at the place `c`, begun with the
  attempts `a`, ends with the outcome `o`.  The relation has one rule for each way
  in which a pattern can be matched and knows nothing of depths: a match that
  finishes within some depth is a run (`runs_of_matchWithin`).

  The rounds of a repetition behind the first are a goal of their own, since they
  begin with trivia and give it back at their end.

  A run has one outcome (`Runs.functional`), and the attempts that it begins with
  change nothing but the attempts that it ends with (`Runs.change_attempts`).
-/
import DecafFrontEnd.Grammar.Match

set_option autoImplicit false

namespace DecafFrontEnd

/-! ## Runs -/

/-- What is matched: a pattern, or the rounds of a repetition behind the first. -/
inductive Goal where
  | once (p : Pattern)
  | again (p : Pattern)

/-- The pattern of a goal. -/
def Goal.pattern : Goal → Pattern
  | once p | again p => p

/-- The pattern that a goal belongs to. -/
def Goal.whole : Goal → Pattern
  | once p => p
  | again p => .many p

namespace Rule

/-- The nodes that a rule leaves when its body matches. -/
def leave (r : Rule) (c d : Cursor) (nodes : List Tree) : List Tree :=
  if r.isSilent then nodes
  else [.node r c.offset (takeBytes (d.offset - c.offset) c.rest) nodes]

/-- The attempts when the body of a rule fails, which was begun with the
attempts `a` and ended with `b`. -/
def blame (r : Rule) (c : Cursor) (a b : Attempts) : Attempts :=
  if r.isSilent then b else b.record r c.offset (a.countAt c.offset)

end Rule

/-- The ways in which a match can end. -/
inductive Runs : Goal → Cursor → Attempts → Outcome → Prop
  | take {p : Primitive} {c : Cursor} {a : Attempts} {text : List Char} :
      p.take? c = some text →
      Runs (.once (.prim p)) c a (.matched [] (c.advance text.length) a)
  | miss {p : Primitive} {c : Cursor} {a : Attempts} :
      p.take? c = none → Runs (.once (.prim p)) c a (.failed a)
  | rule {r : Rule} {c d : Cursor} {a b : Attempts} {nodes : List Tree} :
      Runs (.once r.body) c a (.matched nodes d b) →
      Runs (.once (.rule r)) c a (.matched (r.leave c d nodes) d b)
  | ruleFails {r : Rule} {c : Cursor} {a b : Attempts} :
      Runs (.once r.body) c a (.failed b) →
      Runs (.once (.rule r)) c a (.failed (r.blame c a b))
  | seq {p q : Pattern} {c d e : Cursor} {a b b' : Attempts} {first second : List Tree} :
      Runs (.once p) c a (.matched first d b) →
      Runs (.once q) d.skip b (.matched second e b') →
      Runs (.once (.seq p q)) c a (.matched (first ++ second) e b')
  | firstFails {p q : Pattern} {c : Cursor} {a b : Attempts} :
      Runs (.once p) c a (.failed b) → Runs (.once (.seq p q)) c a (.failed b)
  | secondFails {p q : Pattern} {c d : Cursor} {a b b' : Attempts} {first : List Tree} :
      Runs (.once p) c a (.matched first d b) →
      Runs (.once q) d.skip b (.failed b') →
      Runs (.once (.seq p q)) c a (.failed b')
  | left {p q : Pattern} {c d : Cursor} {a b : Attempts} {nodes : List Tree} :
      Runs (.once p) c a (.matched nodes d b) →
      Runs (.once (.alt p q)) c a (.matched nodes d b)
  | right {p q : Pattern} {c : Cursor} {a b : Attempts} {o : Outcome} :
      Runs (.once p) c a (.failed b) → Runs (.once q) c b o → Runs (.once (.alt p q)) c a o
  | present {p : Pattern} {c d : Cursor} {a b : Attempts} {nodes : List Tree} :
      Runs (.once p) c a (.matched nodes d b) →
      Runs (.once (.opt p)) c a (.matched nodes d b)
  | absent {p : Pattern} {c : Cursor} {a b : Attempts} :
      Runs (.once p) c a (.failed b) → Runs (.once (.opt p)) c a (.matched [] c b)
  | many {p : Pattern} {c d e : Cursor} {a b b' : Attempts} {first others : List Tree} :
      Runs (.once p) c a (.matched first d b) →
      Runs (.again p) d b (.matched others e b') →
      Runs (.once (.many p)) c a (.matched (first ++ others) e b')
  | never {p : Pattern} {c : Cursor} {a b : Attempts} :
      Runs (.once p) c a (.failed b) → Runs (.once (.many p)) c a (.matched [] c b)
  | round {p : Pattern} {c d e : Cursor} {a b b' : Attempts} {first others : List Tree} :
      Runs (.once p) c.skip a (.matched first d b) →
      Runs (.again p) d b (.matched others e b') →
      Runs (.again p) c a (.matched (first ++ others) e b')
  | stop {p : Pattern} {c : Cursor} {a b : Attempts} :
      Runs (.once p) c.skip a (.failed b) → Runs (.again p) c a (.matched [] c b)

/-! ## Matches are runs -/

theorem runs_of_repeatAfter {p : Pattern} {step : Matcher}
    (hstep : ∀ c a, step c a ≠ .unfinished → Runs (.once p) c a (step c a)) :
    ∀ (rounds : Nat) (nodes : List Tree) (c : Cursor) (a : Attempts),
      repeatAfter step rounds nodes c a ≠ .unfinished →
      ∃ others d b, repeatAfter step rounds nodes c a = .matched (nodes ++ others) d b ∧
        Runs (.again p) c a (.matched others d b) := by
  intro rounds
  induction rounds with
  | zero => intro nodes c a h; exact absurd rfl h
  | succ rounds ih =>
      intro nodes c a h
      have hfirst := hstep c.skip a
      cases hs : step c.skip a with
      | matched more d b =>
          simp only [repeatAfter, hs] at h hfirst ⊢
          obtain ⟨others, e, b', heq, hrun⟩ := ih (nodes ++ more) d b h
          refine ⟨more ++ others, e, b', ?_, .round (hfirst (by simp)) hrun⟩
          rw [heq, List.append_assoc]
      | failed b =>
          simp only [repeatAfter, hs] at hfirst ⊢
          exact ⟨[], c, b, by simp, .stop (hfirst (by simp))⟩
      | unfinished => simp [repeatAfter, hs] at h

theorem runs_of_matchWith {call : Rule → Matcher}
    (hcall : ∀ r c a, call r c a ≠ .unfinished → Runs (.once (.rule r)) c a (call r c a)) :
    ∀ (p : Pattern) (c : Cursor) (a : Attempts), p.matchWith call c a ≠ .unfinished →
      Runs (.once p) c a (p.matchWith call c a) := by
  intro p
  induction p with
  | prim p =>
      intro c a _
      cases ht : p.take? c with
      | some text => simpa [Pattern.matchWith, ht] using Runs.take ht
      | none => simpa [Pattern.matchWith, ht] using Runs.miss ht
  | rule r => exact hcall r
  | seq p q ihp ihq =>
      intro c a h
      have hp := ihp c a
      cases hfirst : p.matchWith call c a with
      | matched first d b =>
          have hq := ihq d.skip b
          simp only [Pattern.matchWith, hfirst] at h hp ⊢
          cases hsecond : q.matchWith call d.skip b with
          | matched second e b' =>
              rw [hsecond] at hq
              exact .seq (hp (by simp)) (hq (by simp))
          | failed b' =>
              rw [hsecond] at hq
              exact .secondFails (hp (by simp)) (hq (by simp))
          | unfinished => simp [hsecond] at h
      | failed b =>
          simp only [Pattern.matchWith, hfirst] at hp ⊢
          exact .firstFails (hp (by simp))
      | unfinished => simp [Pattern.matchWith, hfirst] at h
  | alt p q ihp ihq =>
      intro c a h
      have hp := ihp c a
      cases hfirst : p.matchWith call c a with
      | matched nodes d b =>
          simp only [Pattern.matchWith, hfirst] at hp ⊢
          exact .left (hp (by simp))
      | failed b =>
          simp only [Pattern.matchWith, hfirst] at h hp ⊢
          exact .right (hp (by simp)) (ihq c b h)
      | unfinished => simp [Pattern.matchWith, hfirst] at h
  | opt p ih =>
      intro c a h
      have hp := ih c a
      cases hfirst : p.matchWith call c a with
      | matched nodes d b =>
          simp only [Pattern.matchWith, hfirst] at hp ⊢
          exact .present (hp (by simp))
      | failed b =>
          simp only [Pattern.matchWith, hfirst] at hp ⊢
          exact .absent (hp (by simp))
      | unfinished => simp [Pattern.matchWith, hfirst] at h
  | many p ih =>
      intro c a h
      have hp := ih c a
      cases hfirst : p.matchWith call c a with
      | matched nodes d b =>
          simp only [Pattern.matchWith, hfirst] at h hp ⊢
          obtain ⟨others, e, b', heq, hrun⟩ := runs_of_repeatAfter ih _ nodes d b h
          rw [heq]
          exact .many (hp (by simp)) hrun
      | failed b =>
          simp only [Pattern.matchWith, hfirst] at hp ⊢
          exact .never (hp (by simp))
      | unfinished => simp [Pattern.matchWith, hfirst] at h

/-- A match that finishes within some depth is a run. -/
theorem runs_of_matchWithin : ∀ (depth : Nat) (r : Rule) (c : Cursor) (a : Attempts),
    r.matchWithin depth c a ≠ .unfinished →
      Runs (.once (.rule r)) c a (r.matchWithin depth c a) := by
  intro depth
  induction depth with
  | zero => intro r c a h; exact absurd rfl h
  | succ depth ih =>
      intro r c a h
      have hbody := runs_of_matchWith ih r.body c a
      rw [Rule.matchWithin, Rule.wrap] at h ⊢
      cases hb : r.body.matchWith (Rule.matchWithin depth) c a with
      | matched nodes d b =>
          rw [hb] at hbody
          have hrun := Runs.rule (hbody (by simp))
          simp only [Rule.leave] at hrun
          by_cases hs : r.isSilent = true <;> simpa [hs] using hrun
      | failed b =>
          rw [hb] at hbody
          exact .ruleFails (hbody (by simp))
      | unfinished => simp [hb] at h

/-! ## One outcome -/

/-- A run has one outcome. -/
theorem Runs.functional {g : Goal} {c : Cursor} {a : Attempts} {o o' : Outcome}
    (h : Runs g c a o) (h' : Runs g c a o') : o = o' := by
  induction h generalizing o' with
  | take ht =>
      cases h' with
      | take ht' => rw [Option.some.inj (ht.symm.trans ht')]
      | miss ht' => rw [ht] at ht'; simp at ht'
  | miss ht =>
      cases h' with
      | take ht' => rw [ht] at ht'; simp at ht'
      | miss _ => rfl
  | rule _ ih =>
      cases h' with
      | rule hb => obtain ⟨rfl, rfl, rfl⟩ := Outcome.matched.inj (ih hb); rfl
      | ruleFails hb => exact absurd (ih hb) (by simp)
  | ruleFails _ ih =>
      cases h' with
      | rule hb => exact absurd (ih hb) (by simp)
      | ruleFails hb => rw [Outcome.failed.inj (ih hb)]
  | seq _ _ ihp ihq =>
      cases h' with
      | seq hp hq =>
          obtain ⟨rfl, rfl, rfl⟩ := Outcome.matched.inj (ihp hp)
          obtain ⟨rfl, rfl, rfl⟩ := Outcome.matched.inj (ihq hq)
          rfl
      | firstFails hp => exact absurd (ihp hp) (by simp)
      | secondFails hp hq =>
          obtain ⟨rfl, rfl, rfl⟩ := Outcome.matched.inj (ihp hp)
          exact absurd (ihq hq) (by simp)
  | firstFails _ ihp =>
      cases h' with
      | seq hp _ => exact absurd (ihp hp) (by simp)
      | firstFails hp => exact ihp hp
      | secondFails hp _ => exact absurd (ihp hp) (by simp)
  | secondFails _ _ ihp ihq =>
      cases h' with
      | seq hp hq =>
          obtain ⟨rfl, rfl, rfl⟩ := Outcome.matched.inj (ihp hp)
          exact absurd (ihq hq) (by simp)
      | firstFails hp => exact absurd (ihp hp) (by simp)
      | secondFails hp hq =>
          obtain ⟨rfl, rfl, rfl⟩ := Outcome.matched.inj (ihp hp)
          exact ihq hq
  | left _ ihp =>
      cases h' with
      | left hp => exact ihp hp
      | right hp _ => exact absurd (ihp hp) (by simp)
  | right _ _ ihp ihq =>
      cases h' with
      | left hp => exact absurd (ihp hp) (by simp)
      | right hp hq =>
          obtain rfl := Outcome.failed.inj (ihp hp)
          exact ihq hq
  | present _ ihp =>
      cases h' with
      | present hp => exact ihp hp
      | absent hp => exact absurd (ihp hp) (by simp)
  | absent _ ihp =>
      cases h' with
      | present hp => exact absurd (ihp hp) (by simp)
      | absent hp => rw [Outcome.failed.inj (ihp hp)]
  | many _ _ ihp ihq =>
      cases h' with
      | many hp hq =>
          obtain ⟨rfl, rfl, rfl⟩ := Outcome.matched.inj (ihp hp)
          obtain ⟨rfl, rfl, rfl⟩ := Outcome.matched.inj (ihq hq)
          rfl
      | never hp => exact absurd (ihp hp) (by simp)
  | never _ ihp =>
      cases h' with
      | many hp _ => exact absurd (ihp hp) (by simp)
      | never hp => rw [Outcome.failed.inj (ihp hp)]
  | round _ _ ihp ihq =>
      cases h' with
      | round hp hq =>
          obtain ⟨rfl, rfl, rfl⟩ := Outcome.matched.inj (ihp hp)
          obtain ⟨rfl, rfl, rfl⟩ := Outcome.matched.inj (ihq hq)
          rfl
      | stop hp => exact absurd (ihp hp) (by simp)
  | stop _ ihp =>
      cases h' with
      | round hp _ => exact absurd (ihp hp) (by simp)
      | stop hp => rw [Outcome.failed.inj (ihp hp)]

/-! ## Runs without attempts -/

/-- An outcome with other attempts. -/
def Outcome.withAttempts (b : Attempts) : Outcome → Outcome
  | matched nodes c _ => matched nodes c b
  | failed _ => failed b
  | unfinished => unfinished

/-- The attempts that a run begins with change only those that it ends with. -/
theorem Runs.change_attempts {g : Goal} {c : Cursor} {a : Attempts} {o : Outcome}
    (h : Runs g c a o) (a' : Attempts) : ∃ b, Runs g c a' (o.withAttempts b) := by
  induction h generalizing a' with
  | take ht => exact ⟨a', .take ht⟩
  | miss ht => exact ⟨a', .miss ht⟩
  | rule _ ih =>
      obtain ⟨b, hb⟩ := ih a'
      exact ⟨b, .rule hb⟩
  | ruleFails _ ih =>
      obtain ⟨b, hb⟩ := ih a'
      exact ⟨_, .ruleFails hb⟩
  | seq _ _ ihp ihq =>
      obtain ⟨b, hb⟩ := ihp a'
      obtain ⟨b', hb'⟩ := ihq b
      exact ⟨b', .seq hb hb'⟩
  | firstFails _ ihp =>
      obtain ⟨b, hb⟩ := ihp a'
      exact ⟨b, .firstFails hb⟩
  | secondFails _ _ ihp ihq =>
      obtain ⟨b, hb⟩ := ihp a'
      obtain ⟨b', hb'⟩ := ihq b
      exact ⟨b', .secondFails hb hb'⟩
  | left _ ihp =>
      obtain ⟨b, hb⟩ := ihp a'
      exact ⟨b, .left hb⟩
  | right _ _ ihp ihq =>
      obtain ⟨b, hb⟩ := ihp a'
      obtain ⟨b', hb'⟩ := ihq b
      exact ⟨b', .right hb hb'⟩
  | present _ ihp =>
      obtain ⟨b, hb⟩ := ihp a'
      exact ⟨b, .present hb⟩
  | absent _ ihp =>
      obtain ⟨b, hb⟩ := ihp a'
      exact ⟨b, .absent hb⟩
  | many _ _ ihp ihq =>
      obtain ⟨b, hb⟩ := ihp a'
      obtain ⟨b', hb'⟩ := ihq b
      exact ⟨b', .many hb hb'⟩
  | never _ ihp =>
      obtain ⟨b, hb⟩ := ihp a'
      exact ⟨b, .never hb⟩
  | round _ _ ihp ihq =>
      obtain ⟨b, hb⟩ := ihp a'
      obtain ⟨b', hb'⟩ := ihq b
      exact ⟨b', .round hb hb'⟩
  | stop _ ihp =>
      obtain ⟨b, hb⟩ := ihp a'
      exact ⟨b, .stop hb⟩

end DecafFrontEnd
