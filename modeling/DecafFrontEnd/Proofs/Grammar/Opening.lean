/-
  DecafFrontEnd/Proofs/Grammar/Opening.lean --- where a rule is tried.

  Only rules leave a trace of a failed attempt; a bracket, separator or sign that is
  missing leaves none.  `Pattern.Faces e p c` says that the match of a pattern at the
  place `c` comes to a rule at the place `e`, the earlier alternatives refused where it
  takes a later one.  A rule that is tried at the end of the text fails there, so the
  attempts end there (`Faces.offset_le`).
-/
import DecafFrontEnd.Proofs.Grammar.Furthest
import DecafFrontEnd.Proofs.Grammar.Viable

set_option autoImplicit false

namespace DecafFrontEnd

open Pattern

/-! ## Rules at the end of a text -/

/-- The match of a pattern at a place comes to a rule at the place `e`. -/
inductive Pattern.Faces (e : Cursor) : Pattern → Cursor → Prop
  | here {r : Rule} : r.isSyntactic = true → Faces e (rule r) e
  | inside {r : Rule} {c : Cursor} : Faces e r.body c → Faces e (rule r) c
  | first {p q : Pattern} {c : Cursor} : Faces e p c → Faces e (seq p q) c
  | second {p q : Pattern} {c d : Cursor} {nodes : List Tree} :
      p.Matches c nodes d → Faces e q d.skip → Faces e (seq p q) c
  | left {p q : Pattern} {c : Cursor} : Faces e p c → Faces e (alt p q) c
  | right {p q : Pattern} {c : Cursor} : p.Refuses c → Faces e q c → Faces e (alt p q) c
  | present {p : Pattern} {c : Cursor} : Faces e p c → Faces e (opt p) c
  | round {p : Pattern} {c : Cursor} : Faces e p c → Faces e (many p) c
  | again {p : Pattern} {c d : Cursor} {nodes : List Tree} :
      p.Matches c nodes d → Faces e (many p) d.skip → Faces e (many p) c

/-- The attempts that a match ends with. -/
def Outcome.attempts : Outcome → Attempts
  | matched _ _ a | failed a => a
  | unfinished => .none

theorem Rule.isSilent_of_isSyntactic {r : Rule} (h : r.isSyntactic = true) :
    r.isSilent = false := by
  cases r <;> first | rfl | simp [isSyntactic] at h

theorem Rule.nullable_of_isSyntactic {r : Rule} (h : r.isSyntactic = true) :
    (rule r).nullable = false := by
  have key : ∀ r ∈ Rule.all, r.isSyntactic = true → (rule r).nullable = false := by decide
  exact key r (Rule.mem_all r) h

theorem Attempts.offset_le_blame (r : Rule) (c : Cursor) (a b : Attempts) :
    b.offset ≤ (r.blame c a b).offset := by
  cases hr : r.isSilent with
  | true =>
      have hsame : r.blame c a b = b := by rw [Rule.blame, if_pos hr]
      exact Nat.le_of_eq (congrArg Attempts.offset hsame.symm)
  | false =>
      rw [Rule.offset_blame hr]
      exact Nat.le_max_left _ _

/-- A run only adds to the attempts. -/
theorem Runs.offset_le {g : Goal} {c : Cursor} {a : Attempts} {o : Outcome}
    (h : Runs g c a o) : a.offset ≤ o.attempts.offset := by
  induction h with
  | take _ | miss _ => exact Nat.le_refl _
  | rule _ ih | firstFails _ ih | left _ ih | present _ ih | absent _ ih | never _ ih
  | stop _ ih => exact ih
  | ruleFails _ ih => exact Nat.le_trans ih (Attempts.offset_le_blame _ _ _ _)
  | seq _ _ ih ih' | secondFails _ _ ih ih' | right _ _ ih ih' | many _ _ ih ih'
  | round _ _ ih ih' => exact Nat.le_trans ih ih'

/-- The rounds of a repetition are the repetition behind the trivia. -/
theorem Runs.many_of_again {p : Pattern} {c : Cursor} {a : Attempts} {o : Outcome}
    (h : Runs (.again p) c a o) :
    ∃ o', Runs (.once (.many p)) c.skip a o' ∧ o'.attempts = o.attempts := by
  cases h with
  | round hfirst hothers => exact ⟨_, .many hfirst hothers, rfl⟩
  | stop hfails => exact ⟨_, .never hfails, rfl⟩

namespace Pattern

variable {p q : Pattern} {c d e : Cursor} {nodes : List Tree}

theorem not_matches_of_refuses (h : p.Refuses c) : ¬ p.Matches c nodes d := by
  intro hmatches
  obtain ⟨a, ha⟩ := h .none
  obtain ⟨b, hb⟩ := hmatches .none
  have hsame := ha.functional hb
  simp at hsame

theorem rested_of_end (hend : e.rest = []) : e.Rested := by
  rw [Cursor.Rested, hend]
  rfl

/-- Every rule inside a program takes something, so at the end of the text it fails. -/
theorem refuses_at_end {r : Rule} (hr : r.isSyntactic = true) (hend : e.rest = []) :
    (rule r).Refuses e :=
  refuses_of_lacks hr (Rule.nullable_of_isSyntactic hr) (rested_of_end hend)
    (Cursor.lacks_of_rest_nil hend _)

/-- A match that comes to a rule at the end of the text tries the rule there. -/
theorem Faces.offset_le (h : p.Faces e c) (hend : e.rest = []) {a : Attempts} {o : Outcome}
    (hrun : Runs (.once p) c a o) : e.offset ≤ o.attempts.offset := by
  induction h generalizing a o with
  | @here r hr =>
      cases hrun with
      | rule hbody =>
          exact absurd (Runs.rule hbody).matches (not_matches_of_refuses (refuses_at_end hr hend))
      | ruleFails _ =>
          rw [Outcome.attempts, Rule.offset_blame (Rule.isSilent_of_isSyntactic hr)]
          exact Nat.le_max_right _ _
  | inside _ ih =>
      cases hrun with
      | rule hbody => simpa [Outcome.attempts] using ih hbody
      | ruleFails hbody => exact Nat.le_trans (ih hbody) (Attempts.offset_le_blame _ _ _ _)
  | first _ ih =>
      cases hrun with
      | seq hp hq | secondFails hp hq => exact Nat.le_trans (ih hp) hq.offset_le
      | firstFails hp => exact ih hp
  | second hp _ ih =>
      cases hrun with
      | seq hp' hq =>
          obtain ⟨-, rfl⟩ := hp.functional hp'.matches
          simpa [Outcome.attempts] using ih hq
      | firstFails hp' => exact absurd hp (not_matches_of_refuses hp'.refuses)
      | secondFails hp' hq =>
          obtain ⟨-, rfl⟩ := hp.functional hp'.matches
          exact ih hq
  | left _ ih =>
      cases hrun with
      | left hp => exact ih hp
      | right hp hq => exact Nat.le_trans (ih hp) hq.offset_le
  | right hp _ ih =>
      cases hrun with
      | left hp' => exact absurd hp'.matches (not_matches_of_refuses hp)
      | right _ hq => exact ih hq
  | present _ ih =>
      cases hrun with
      | present hp => exact ih hp
      | absent hp => simpa [Outcome.attempts] using ih hp
  | round _ ih =>
      cases hrun with
      | many hp hothers => exact Nat.le_trans (ih hp) hothers.offset_le
      | never hp => simpa [Outcome.attempts] using ih hp
  | again hp _ ih =>
      cases hrun with
      | many hp' hothers =>
          obtain ⟨-, rfl⟩ := hp.functional hp'.matches
          obtain ⟨o', hmany, ho⟩ := hothers.many_of_again
          have hle := ih hmany
          rw [ho] at hle
          simpa [Outcome.attempts] using hle
      | never hp' => exact absurd hp (not_matches_of_refuses hp'.refuses)

end Pattern

end DecafFrontEnd
