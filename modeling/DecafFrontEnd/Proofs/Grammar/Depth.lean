/-
  DecafFrontEnd/Proofs/Grammar/Depth.lean --- every match finishes.

  A rule calls other rules either at the place where it began, its rules on the
  left, or at a later place, where fewer characters are left.  A rule has a higher
  rank than its rules on the left (`Rule.rank_lt`), and a repeated pattern is never
  nullable (`Rule.solid_body`), so a chain of calls at one place is no longer than
  the grammar.  The depth that `Rule.matchAt` allows is therefore always enough
  (`Rule.matchWithin_ne_unfinished`).

  A pattern then either matches at a place or refuses it (`Pattern.refuses_or`).
-/
import DecafFrontEnd.Proofs.Grammar.Coverage

set_option autoImplicit false

namespace DecafFrontEnd

/-! ## Rules on the left -/

namespace Pattern

/-- The rules that a match of a pattern may call at the place where it begins. -/
def leftRules : Pattern → List Rule
  | prim _ => []
  | rule r => [r]
  | seq p q => p.leftRules ++ if p.nullable then q.leftRules else []
  | alt p q => p.leftRules ++ q.leftRules
  | opt p | many p => p.leftRules

/-- Whether every repeated pattern in a pattern takes something in each round. -/
def solid : Pattern → Bool
  | prim _ | rule _ => true
  | seq p q | alt p q => p.solid && q.solid
  | opt p => p.solid
  | many p => p.solid && !p.nullable

end Pattern

/-- How long a chain of calls at one place can be that begins with a phrase. -/
def Phrase.rank : Phrase → Nat
  | arrayMarker | fieldAccess | indexAccess | parenExpr | block => 0
  | typeName | superclass | varBind | location | boolLit | nullLit | newObject | newArray
  | notExpr | primCallout | ifStmt | elseBranch | whileStmt | returnStmt | classDecl => 1
  | varBindList | varDecl | param | returnType | methodCall | literal | assignStmt
  | program => 2
  | paramList | methodDecl | simpleExpr | callExpr => 3
  | primary | expressionStmt => 4
  | unaryExpr | statement => 5
  | mulExpr => 6
  | addExpr => 7
  | relExpr => 8
  | eqExpr => 9
  | andExpr => 10
  | orExpr => 11
  | expr => 12
  | argList | calloutArg => 13

namespace Rule

/-- How long a chain of calls at one place can be that begins with a rule. -/
def rank : Rule → Nat
  | endOfInput | blank | comment | wordChar | terminal _ | charBody | trivia => 0
  | anyKeyword | operator | punctuation => 1
  | lexeme => 2
  | phrase p => p.rank

theorem rank_lt_length (r : Rule) : r.rank < all.length := by
  have key : ∀ r ∈ all, r.rank < all.length := by decide
  exact key r (mem_all r)

/-- A rule has a higher rank than its rules on the left. -/
theorem rank_lt {r r' : Rule} (h : r' ∈ r.body.leftRules) : r'.rank < r.rank := by
  have key : ∀ r ∈ all, ∀ r' ∈ r.body.leftRules, r'.rank < r.rank := by decide
  exact key r (mem_all r) r' h

theorem solid_body (r : Rule) : r.body.solid = true := by
  have key : ∀ r ∈ all, r.body.solid = true := by decide
  exact key r (mem_all r)

end Rule

/-! ## Matching finishes -/

/-- Rounds that each shorten the rest come to an end before it does. -/
theorem repeatAfter_ne_unfinished {step : Matcher} {n : Nat}
    (hstep : ∀ c a, c.rest.length ≤ n → step c a ≠ .unfinished)
    (hless : ∀ c a nodes d b, step c a = .matched nodes d b → d.rest.length < c.rest.length) :
    ∀ (rounds : Nat) (nodes : List Tree) (c : Cursor) (a : Attempts),
      c.rest.length < rounds → c.rest.length ≤ n →
      repeatAfter step rounds nodes c a ≠ .unfinished := by
  intro rounds
  induction rounds with
  | zero => intro nodes c a hrounds; omega
  | succ rounds ih =>
      intro nodes c a hrounds hn
      have hskip := (Cursor.reaches_skip c).length_le
      unfold repeatAfter
      split
      · next more d b hmatched =>
          have hd := hless _ _ _ _ _ hmatched
          exact ih _ d b (by omega) (by omega)
      · simp
      · next hunfinished => exact absurd hunfinished (hstep c.skip a (by omega))

section

variable {call : Rule → Matcher}
  (hcall : ∀ r c a, call r c a ≠ .unfinished → Runs (.once (.rule r)) c a (call r c a))

include hcall

theorem Pattern.covers_of_matchWith {p : Pattern} {c d : Cursor} {a b : Attempts}
    {nodes : List Tree} (h : p.matchWith call c a = .matched nodes d b) :
    Covers (.once p) c nodes d := by
  have hrun := runs_of_matchWith hcall p c a (by rw [h]; simp)
  rw [h] at hrun
  exact hrun.covers

/-- A pattern is matched to an end if its rules on the left are with `n` characters
left, and all rules with fewer. -/
theorem Pattern.matchWith_ne_unfinished : ∀ (p : Pattern) (n : Nat), p.solid = true →
    (∀ r ∈ p.leftRules, ∀ c a, c.rest.length ≤ n → call r c a ≠ .unfinished) →
    (∀ r c a, c.rest.length < n → call r c a ≠ .unfinished) →
    ∀ c a, c.rest.length ≤ n → p.matchWith call c a ≠ .unfinished := by
  intro p
  induction p with
  | prim p =>
      intro n _ _ _ c a _
      unfold matchWith
      split <;> simp
  | rule r => exact fun n _ hleft _ => hleft r (by simp [leftRules])
  | seq p q ihp ihq =>
      intro n hsolid hleft hless c a hn
      simp only [solid, Bool.and_eq_true] at hsolid
      simp only [leftRules, List.mem_append] at hleft
      have hp := ihp n hsolid.1 (fun r hr => hleft r (Or.inl hr)) hless c a hn
      unfold matchWith
      split
      · next first d b hfirst =>
          have hcovers := covers_of_matchWith hcall hfirst
          have hskip := (Cursor.reaches_skip d).length_le
          have hle := hcovers.reaches.length_le
          have hq : q.matchWith call d.skip b ≠ .unfinished := by
            by_cases hnull : p.nullable = true
            · refine ihq n hsolid.2 (fun r hr => hleft r (Or.inr ?_)) hless d.skip b (by omega)
              simpa [hnull] using hr
            · have hlt := hcovers.length_lt (by simpa using hnull)
              exact ihq d.rest.length hsolid.2 (fun r _ c a hc => hless r c a (by omega))
                (fun r c a hc => hless r c a (by omega)) d.skip b hskip
          split
          · simp
          · exact hq
      · exact hp
  | alt p q ihp ihq =>
      intro n hsolid hleft hless c a hn
      simp only [solid, Bool.and_eq_true] at hsolid
      simp only [leftRules, List.mem_append] at hleft
      unfold matchWith
      split
      · next b _ => exact ihq n hsolid.2 (fun r hr => hleft r (Or.inr hr)) hless c b hn
      · exact ihp n hsolid.1 (fun r hr => hleft r (Or.inl hr)) hless c a hn
  | opt p ih =>
      intro n hsolid hleft hless c a hn
      unfold matchWith
      split
      · simp
      · exact ih n hsolid hleft hless c a hn
  | many p ih =>
      intro n hsolid hleft hless c a hn
      simp only [solid, Bool.and_eq_true, Bool.not_eq_true'] at hsolid
      have hfirst := ih n hsolid.1 hleft hless c a hn
      unfold matchWith
      split
      · next nodes d b hmatched =>
          have hlt := (covers_of_matchWith hcall hmatched).length_lt hsolid.2
          refine repeatAfter_ne_unfinished ?_ ?_ _ nodes d b (Nat.lt_succ_self _) (Nat.le_refl _)
          · exact ih d.rest.length hsolid.1 (fun r _ c a hc => hless r c a (by omega))
              (fun r c a hc => hless r c a (by omega))
          · exact fun c a nodes d b h => (covers_of_matchWith hcall h).length_lt hsolid.2
      · simp
      · next hunfinished => exact absurd hunfinished hfirst

end

namespace Rule

/-- A rule is matched to an end within a depth of one chain of calls for each
character that is left and one more for its own rank. -/
theorem matchWithin_ne_unfinished : ∀ (depth : Nat) (r : Rule) (c : Cursor) (a : Attempts),
    all.length * c.rest.length + r.rank < depth → r.matchWithin depth c a ≠ .unfinished := by
  intro depth
  induction depth with
  | zero => intro r c a h; omega
  | succ depth ih =>
      intro r c a h
      have hbody : r.body.matchWith (matchWithin depth) c a ≠ .unfinished := by
        refine Pattern.matchWith_ne_unfinished (runs_of_matchWithin depth) r.body c.rest.length
          r.solid_body ?_ ?_ c a (Nat.le_refl _)
        · intro r' hr' d b hd
          have hrank := rank_lt hr'
          have hmul := Nat.mul_le_mul_left all.length hd
          exact ih r' d b (by omega)
        · intro r' d b hd
          have hrank := r'.rank_lt_length
          have hmul := Nat.mul_le_mul_left all.length (Nat.succ_le_of_lt hd)
          rw [Nat.mul_succ] at hmul
          exact ih r' d b (by omega)
      rw [matchWithin, wrap]
      split
      · split <;> simp
      · simp
      · next hunfinished => exact absurd hunfinished hbody

theorem lt_depthBound (r : Rule) (n : Nat) : all.length * n + r.rank < depthBound n := by
  have hrank := r.rank_lt_length
  rw [depthBound, Nat.mul_succ]
  omega

/-- The match of a rule at a place is its run. -/
theorem runs_matchAt (r : Rule) (c : Cursor) :
    Runs (.once (.rule r)) c .none (r.matchAt c) :=
  runs_of_matchWithin _ r c .none (matchWithin_ne_unfinished _ r c .none (r.lt_depthBound _))

theorem matchAt_eq {r : Rule} {c : Cursor} {o : Outcome}
    (h : Runs (.once (.rule r)) c .none o) : r.matchAt c = o :=
  (r.runs_matchAt c).functional h

end Rule

/-! ## A pattern matches or refuses -/

/-- Every match has a run. -/
theorem Pattern.exists_runs (p : Pattern) (hsolid : p.solid = true) (c : Cursor)
    (a : Attempts) : ∃ o, o ≠ .unfinished ∧ Runs (.once p) c a o := by
  have hfinishes : ∀ (r : Rule) (d : Cursor) (b : Attempts), d.rest.length ≤ c.rest.length →
      r.matchWithin (Rule.depthBound c.rest.length) d b ≠ .unfinished := by
    intro r d b hd
    have hmul := Nat.mul_le_mul_left Rule.all.length hd
    have hbound := r.lt_depthBound c.rest.length
    exact Rule.matchWithin_ne_unfinished _ r d b (by omega)
  have hne := p.matchWith_ne_unfinished (runs_of_matchWithin (Rule.depthBound c.rest.length))
    c.rest.length hsolid (fun r _ => hfinishes r) (fun r d b hd => hfinishes r d b (by omega))
    c a (Nat.le_refl _)
  exact ⟨_, hne, runs_of_matchWith (runs_of_matchWithin _) p c a hne⟩

/-- At every place a pattern either refuses or matches. -/
theorem Pattern.refuses_or (p : Pattern) (hsolid : p.solid = true) (c : Cursor) :
    p.Refuses c ∨ ∃ nodes d, p.Matches c nodes d := by
  obtain ⟨o, hne, hrun⟩ := p.exists_runs hsolid c .none
  cases o with
  | matched nodes d b => exact Or.inr ⟨nodes, d, hrun.matches⟩
  | failed b => exact Or.inl hrun.refuses
  | unfinished => exact absurd rfl hne

end DecafFrontEnd
